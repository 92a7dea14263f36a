import AIService.Data.Json
import Mathlib.Algebra.Order.Group.Int
import Mathlib.Tactic.MkIffOfInductiveProp

/-!
# Chat exchanges

One question with its answer: its queue body, and its two rows of `chat_message`.
Reading the body checks every bound, so what `parse` returns is `Valid`; a body that
`serialize` wrote is read back as it was (`parse_serialize`).
-/

namespace AIService.Chat

/-- `LLONG_MAX`. -/
def llongMax : Int := 9223372036854775807

/-- The values of `long long`. -/
def IsLongLong (n : Int) : Prop := -llongMax - 1 ≤ n ∧ n ≤ llongMax

instance (n : Int) : Decidable (IsLongLong n) := inferInstanceAs (Decidable (_ ∧ _))

/-- `a + b` on `long long`; `none` is an overflow. -/
def llongAdd (a b : Int) : Option Int := if IsLongLong (a + b) then some (a + b) else none

/-- `is_number_integer()`, then `get<long long>()`: an unsigned value past `LLONG_MAX` wraps. -/
def longLong? : Json → Option Int
  | .int n => some (if n ≤ llongMax then n else n - 2 * (llongMax + 1))
  | _ => none

structure ChatExchange where
  messageId : Bytes
  userId : Int32
  username : Bytes
  sessionId : Bytes
  question : Bytes
  answer : Bytes
  ts : Int
deriving DecidableEq, Repr

/-- `[0-9a-f]`. -/
def isHexDigit (c : UInt8) : Bool := (48 ≤ c && c ≤ 57) || (97 ≤ c && c ≤ 102)

namespace ChatExchange

variable (codec : JsonCodec)

def toJson (x : ChatExchange) : Json :=
  .object [(bytes "v", .int 1), (bytes "message_id", .str x.messageId),
    (bytes "user_id", .int x.userId.toInt), (bytes "username", .str x.username),
    (bytes "session_id", .str x.sessionId), (bytes "question", .str x.question),
    (bytes "answer", .str x.answer), (bytes "ts", .int x.ts)]

def serialize (x : ChatExchange) : Option Bytes := codec.dump x.toJson

/-- The fields of a queue body, with the user id still a `long long`. -/
def fromJson (j : Json) : Option (Int × ChatExchange) := do
  let .int 1 ← j.field? (bytes "v") | none
  let uid ← longLong? (← j.field? (bytes "user_id"))
  let ts ← longLong? (← j.field? (bytes "ts"))
  let item : ChatExchange :=
    { messageId := ← (← j.field? (bytes "message_id")).string?
      userId := 0
      username := ← (← j.field? (bytes "username")).string?
      sessionId := ← (← j.field? (bytes "session_id")).string?
      question := ← (← j.field? (bytes "question")).string?
      answer := ← (← j.field? (bytes "answer")).string?
      ts := ts }
  return (uid, item)

def outOfBounds (uid : Int) (item : ChatExchange) : Bool :=
  uid ≤ 0 || uid > Int32.maxValue.toInt || item.ts < 0 || item.ts ≥ llongMax - 1 ||
  item.messageId.length != 32 || !item.messageId.all isHexDigit ||
  item.username.isEmpty || item.username.length > 128 || item.sessionId.isEmpty ||
  item.sessionId.length > 64 || item.question.isEmpty || item.answer.isEmpty ||
  item.question.length > 65535 || item.answer.length > 65535

/-- `none` is `std::invalid_argument("Unsupported or malformed chat message")`. -/
def parse (body : Bytes) : Option ChatExchange := do
  let j ← codec.parse body
  let (uid, item) ← fromJson j
  if outOfBounds uid item then none
  else some { item with userId := .ofInt uid }

/-- The bounds of a queued exchange. -/
@[mk_iff] structure Valid (x : ChatExchange) : Prop where
  userId : 0 < x.userId.toInt
  ts : 0 ≤ x.ts ∧ x.ts < llongMax - 1
  messageId : x.messageId.length = 32 ∧ x.messageId.all isHexDigit
  username : x.username ≠ [] ∧ x.username.length ≤ 128
  sessionId : x.sessionId ≠ [] ∧ x.sessionId.length ≤ 64
  question : x.question ≠ [] ∧ x.question.length ≤ 65535
  answer : x.answer ≠ [] ∧ x.answer.length ≤ 65535

theorem outOfBounds_iff (uid : Int) (item : ChatExchange) :
    outOfBounds uid item = false ↔
      uid ≤ Int32.maxValue.toInt ∧ 0 < uid ∧ { item with userId := .ofInt 1 }.Valid := by
  have one : (Int32.ofInt 1).toInt = 1 := rfl
  simp only [outOfBounds, Bool.or_eq_false_iff, decide_eq_false_iff_not, not_le, not_lt,
    List.isEmpty_eq_false_iff, bne_eq_false_iff_eq, Bool.not_eq_false', valid_iff, and_assoc, one]
  grind

theorem Valid.withUserId {x : ChatExchange} (valid : x.Valid) {userId : Int32}
    (positive : 0 < userId.toInt) : { x with userId := userId }.Valid :=
  { valid with userId := positive }

variable {codec} {body : Bytes} {x : ChatExchange}

/-- What `parse` returns is within the bounds. -/
theorem valid_of_parse (parsed : parse codec body = some x) : x.Valid := by
  simp only [parse, Option.bind_eq_bind, Option.bind_eq_some_iff] at parsed
  obtain ⟨j, -, ⟨uid, item⟩, -, bounded⟩ := parsed
  split at bounded
  · cases bounded
  · next inside =>
      cases bounded
      obtain ⟨small, positive, valid⟩ := (outOfBounds_iff uid item).mp (by simpa using inside)
      have kept : (Int32.ofInt uid).toInt = uid :=
        Int32.toInt_ofInt_of_le (by omega) (Int.lt_of_le_of_lt small (by decide))
      exact valid.withUserId (kept.symm ▸ positive)

theorem fromJson_toJson (representable : IsLongLong x.ts) :
    fromJson x.toJson = some (x.userId.toInt, { x with userId := 0 }) := by
  have small : x.userId.toInt ≤ llongMax := x.userId.toInt_le.trans (by decide)
  have uid : longLong? (.int x.userId.toInt) = some x.userId.toInt := by
    rw [longLong?, if_pos small]
  have ts : longLong? (.int x.ts) = some x.ts := by
    rw [longLong?, if_pos representable.2]
  calc fromJson x.toJson
    _ = ((longLong? (.int x.userId.toInt)).bind fun uid => (longLong? (.int x.ts)).bind fun ts =>
          some (uid, { x with userId := 0, ts := ts })) := rfl
    _ = some (x.userId.toInt, { x with userId := 0 }) := by rw [uid, ts]; rfl

/-- A body that `serialize` wrote is read back as it was when it is within the bounds, and
is refused when it is not. -/
theorem parse_serialize (lawful : codec.Lawful) (written : x.serialize codec = some body)
    (representable : IsLongLong x.ts) :
    parse codec body = some x ∧ x.Valid ∨ parse codec body = none ∧ ¬ x.Valid := by
  have parsed : codec.parse body = some x.toJson := lawful.parse_dump written
  have read : parse codec body = if outOfBounds x.userId.toInt { x with userId := 0 } then none
      else some x := by
    simp only [parse, parsed, fromJson_toJson representable, Option.bind_eq_bind, Option.bind_some,
      Int32.ofInt_toInt]
  rw [read]
  cases bad : outOfBounds x.userId.toInt { x with userId := 0 } with
  | false =>
      obtain ⟨-, positive, valid⟩ := (outOfBounds_iff _ _).mp bad
      exact .inl ⟨rfl, valid.withUserId positive⟩
  | true =>
      refine .inr ⟨rfl, fun valid => ?_⟩
      have inside := (outOfBounds_iff x.userId.toInt { x with userId := 0 }).mpr
        ⟨x.userId.toInt_le, valid.userId, valid.withUserId (by decide)⟩
      rw [inside] at bad
      cases bad

theorem parse_of_valid (lawful : codec.Lawful) (written : x.serialize codec = some body)
    (valid : x.Valid) : parse codec body = some x := by
  have representable : IsLongLong x.ts := by
    obtain ⟨low, high⟩ := valid.ts
    unfold IsLongLong llongMax at *
    omega
  rcases parse_serialize lawful written representable with ⟨read, -⟩ | ⟨-, invalid⟩
  · exact read
  · exact absurd valid invalid

end ChatExchange

/-! ## Rows -/

/-- A row of `chat_message`; legacy rows have no message id. -/
structure ChatRow where
  messageId : Option Bytes
  id : Int
  username : Bytes
  sessionId : Bytes
  isUser : Int
  content : Bytes
  ts : Int
deriving DecidableEq, Repr

namespace ChatExchange

def userRow (x : ChatExchange) : ChatRow :=
  ⟨some (x.messageId ++ bytes "/u"), x.userId.toInt, x.username, x.sessionId, 1, x.question, x.ts⟩

def answerRow (x : ChatExchange) : ChatRow :=
  ⟨some (x.messageId ++ bytes "/a"), x.userId.toInt, x.username, x.sessionId, 0, x.answer, x.ts + 1⟩

/-- `INSERT ... ON DUPLICATE KEY UPDATE message_id=message_id` of one row. -/
def insertRow (table : List ChatRow) (row : ChatRow) : List ChatRow :=
  if table.any (·.messageId = row.messageId) then table else table ++ [row]

def persist (x : ChatExchange) (table : List ChatRow) : List ChatRow :=
  insertRow (insertRow table x.userRow) x.answerRow

end ChatExchange

end AIService.Chat
