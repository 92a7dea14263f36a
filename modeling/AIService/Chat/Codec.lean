import AIService.Chat.History
import AIService.Data.JsonText
import AIService.MQ.Handler

/-!
# The bodies of the queue

`ChatExchange::parse` with its exceptions, and `executeMysql`, which is the consumer.  What
`commitExchange` publishes the consumer reads, and what the consumer reads can be written
again.
-/

namespace AIService.Chat

/-- The exceptions of `parse`. -/
inductive Exception
  /-- Of the JSON library. -/
  | json
  | invalidArgument (what : Bytes)
deriving DecidableEq, Repr

namespace ChatExchange

/-- `at(key)`. -/
def member (j : Json) (key : String) : Except Exception Json :=
  match j.field? (bytes key) with
  | some v => .ok v
  | none => .error .json

def invalid (what : String) : Exception := .invalidArgument (bytes what)

/-- `is_number_integer()`. -/
def isNumberInteger : Json → Bool
  | .int _ => true
  | _ => false

/-- Equal to the number 1. -/
def isOne : Json → Bool
  | .int 1 => true
  | _ => false

def require (holds : Bool) (e : Exception) : Except Exception Unit :=
  if holds then .ok () else .error e

/-- `at(key).get<std::string>()`. -/
def text (j : Json) (key : String) : Except Exception Bytes := do
  match (← member j key).string? with
  | some s => .ok s
  | none => .error .json

/-- `at(key).get<long long>()`. -/
def number (j : Json) (key : String) : Except Exception Int := do
  match longLong? (← member j key) with
  | some n => .ok n
  | none => .error .json

/-- `json::parse(body)`. -/
def parseJson (codec : JsonCodec) (body : Bytes) : Except Exception Json :=
  match codec.parse body with
  | some j => .ok j
  | none => .error .json

/-- The `try` block of `parse`. -/
def tryParse (codec : JsonCodec) (body : Bytes) : Except Exception ChatExchange := do
  let j ← parseJson codec body
  let v ← member j "v"
  require (isNumberInteger v) (invalid "Invalid message schema")
  require (isOne v) (invalid "Invalid message schema")
  require (isNumberInteger (← member j "user_id")) (invalid "Invalid message schema")
  require (isNumberInteger (← member j "ts")) (invalid "Invalid message schema")
  let uid ← number j "user_id"
  let item : ChatExchange :=
    { messageId := ← text j "message_id"
      userId := 0
      username := ← text j "username"
      sessionId := ← text j "session_id"
      question := ← text j "question"
      answer := ← text j "answer"
      ts := ← number j "ts" }
  require (!outOfBounds uid item) (invalid "Invalid message fields")
  return { item with userId := .ofInt uid }

/-- `parse`, as the callers see it. -/
def parseOrThrow (codec : JsonCodec) (body : Bytes) : Except Exception ChatExchange :=
  match tryParse codec body with
  | .ok x => .ok x
  | .error _ => .error (invalid "Unsupported or malformed chat message")

end ChatExchange

/-- `executeMysql`; `persisted` tells whether the statement went through. -/
def executeMysql (codec : JsonCodec) (persisted : ChatExchange → Bool) (body : Bytes) :
    MQ.Disposition :=
  match ChatExchange.parseOrThrow codec body with
  | .ok x => if persisted x then .ack else .retry
  | .error (.invalidArgument _) => .reject
  | .error .json => .retry

namespace ChatExchange

variable {codec : JsonCodec} {body : Bytes} {x : ChatExchange}

theorem bind_ok {α β : Type} (a : α) (f : α → Except Exception β) : (Except.ok a >>= f) = f a := rfl

theorem parseJson_iff {j : Json} : parseJson codec body = .ok j ↔ codec.parse body = some j := by
  unfold parseJson
  cases codec.parse body <;> simp

theorem member_iff {j v : Json} {key : String} : member j key = .ok v ↔ j.field? (bytes key) = some v := by
  unfold member
  cases j.field? (bytes key) <;> simp

theorem text_iff {j : Json} {key : String} {s : Bytes} :
    text j key = .ok s ↔ (j.field? (bytes key)).bind Json.string? = some s := by
  unfold text member
  cases j.field? (bytes key) with
  | none => exact ⟨nofun, nofun⟩
  | some v =>
      change (match v.string? with
        | some s => Except.ok s
        | none => .error Exception.json) = .ok s ↔ v.string? = some s
      cases v.string? <;> simp

theorem number_iff {j : Json} {key : String} {n : Int} :
    number j key = .ok n ↔ (j.field? (bytes key)).bind longLong? = some n := by
  unfold number member
  cases j.field? (bytes key) with
  | none => exact ⟨nofun, nofun⟩
  | some v =>
      change (match longLong? v with
        | some n => Except.ok n
        | none => .error Exception.json) = .ok n ↔ longLong? v = some n
      cases longLong? v <;> simp

theorem require_iff {holds : Bool} {e : Exception} {u : Unit} : require holds e = .ok u ↔ holds = true := by
  cases holds
  · exact ⟨nofun, nofun⟩
  · exact ⟨fun _ => rfl, fun _ => rfl⟩

theorem isNumberInteger_eq (v : Json) : isNumberInteger v = (longLong? v).isSome := by
  cases v <;> rfl

theorem isOne_iff {v : Json} : isOne v = true ↔ v = .int 1 := by
  constructor
  · intro one
    unfold isOne at one
    split at one
    · rfl
    · cases one
  · rintro rfl
    rfl

/-- The fields of a body, as both readings of it take them. -/
structure Fields (j : Json) (uid : Int) (item : ChatExchange) : Prop where
  version : j.field? (bytes "v") = some (.int 1)
  userId : (j.field? (bytes "user_id")).bind longLong? = some uid
  ts : (j.field? (bytes "ts")).bind longLong? = some item.ts
  messageId : (j.field? (bytes "message_id")).bind Json.string? = some item.messageId
  username : (j.field? (bytes "username")).bind Json.string? = some item.username
  sessionId : (j.field? (bytes "session_id")).bind Json.string? = some item.sessionId
  question : (j.field? (bytes "question")).bind Json.string? = some item.question
  answer : (j.field? (bytes "answer")).bind Json.string? = some item.answer
  noUser : item.userId = 0

theorem fromJson_iff {j : Json} {uid : Int} {item : ChatExchange} :
    fromJson j = some (uid, item) ↔ Fields j uid item := by
  constructor
  · intro read
    unfold fromJson at read
    obtain ⟨v, version, read⟩ := Option.bind_eq_some_iff.mp read
    dsimp only at read
    split at read
    case h_2 => cases read
    obtain ⟨u, hu, read⟩ := Option.bind_eq_some_iff.mp read
    obtain ⟨n, hn, read⟩ := Option.bind_eq_some_iff.mp read
    obtain ⟨t, ht, read⟩ := Option.bind_eq_some_iff.mp read
    obtain ⟨k, hk, read⟩ := Option.bind_eq_some_iff.mp read
    obtain ⟨m, hm, read⟩ := Option.bind_eq_some_iff.mp read
    obtain ⟨m', hm', read⟩ := Option.bind_eq_some_iff.mp read
    obtain ⟨a, ha, read⟩ := Option.bind_eq_some_iff.mp read
    obtain ⟨a', ha', read⟩ := Option.bind_eq_some_iff.mp read
    obtain ⟨s, hs, read⟩ := Option.bind_eq_some_iff.mp read
    obtain ⟨s', hs', read⟩ := Option.bind_eq_some_iff.mp read
    obtain ⟨q, hq, read⟩ := Option.bind_eq_some_iff.mp read
    obtain ⟨q', hq', read⟩ := Option.bind_eq_some_iff.mp read
    obtain ⟨w, hw, read⟩ := Option.bind_eq_some_iff.mp read
    obtain ⟨w', hw', read⟩ := Option.bind_eq_some_iff.mp read
    cases read
    exact ⟨version, by rw [hu]; exact hn, by rw [ht]; exact hk, by rw [hm]; exact hm',
      by rw [ha]; exact ha', by rw [hs]; exact hs', by rw [hq]; exact hq', by rw [hw]; exact hw', rfl⟩
  · rintro ⟨version, userId, ts, messageId, username, sessionId, question, answer, noUser⟩
    obtain ⟨_, hu, hn⟩ := Option.bind_eq_some_iff.mp userId
    obtain ⟨_, ht, hk⟩ := Option.bind_eq_some_iff.mp ts
    obtain ⟨_, hm, hm'⟩ := Option.bind_eq_some_iff.mp messageId
    obtain ⟨_, ha, ha'⟩ := Option.bind_eq_some_iff.mp username
    obtain ⟨_, hs, hs'⟩ := Option.bind_eq_some_iff.mp sessionId
    obtain ⟨_, hq, hq'⟩ := Option.bind_eq_some_iff.mp question
    obtain ⟨_, hw, hw'⟩ := Option.bind_eq_some_iff.mp answer
    unfold fromJson
    rw [version, hu, ht, hm, ha, hs, hq, hw]
    simp only [Option.bind_eq_bind, Option.bind_some, hn, hk, hm', ha', hs', hq', hw', Option.pure_def]
    cases item
    cases noUser
    rfl

/-- The `try` block succeeds on a body in bounds. -/
theorem tryParse_iff {j : Json} (parsed : codec.parse body = some j) :
    tryParse codec body = .ok x ↔
      ∃ uid item, Fields j uid item ∧ outOfBounds uid item = false ∧
        x = { item with userId := .ofInt uid } := by
  constructor
  · intro read
    unfold tryParse at read
    obtain ⟨_, same, read⟩ := bind_eq_ok read
    rw [parseJson_iff, parsed] at same
    cases same
    obtain ⟨v, version, read⟩ := bind_eq_ok read
    obtain ⟨_, -, read⟩ := bind_eq_ok read
    obtain ⟨_, one, read⟩ := bind_eq_ok read
    obtain ⟨_, -, read⟩ := bind_eq_ok read
    obtain ⟨_, -, read⟩ := bind_eq_ok read
    obtain ⟨_, -, read⟩ := bind_eq_ok read
    obtain ⟨_, -, read⟩ := bind_eq_ok read
    obtain ⟨uid, userId, read⟩ := bind_eq_ok read
    obtain ⟨messageId, hm, read⟩ := bind_eq_ok read
    obtain ⟨username, ha, read⟩ := bind_eq_ok read
    obtain ⟨sessionId, hs, read⟩ := bind_eq_ok read
    obtain ⟨question, hq, read⟩ := bind_eq_ok read
    obtain ⟨answer, hw, read⟩ := bind_eq_ok read
    obtain ⟨ts, ht, read⟩ := bind_eq_ok read
    obtain ⟨_, inside, read⟩ := bind_eq_ok read
    have bounded := require_iff.mp inside
    rw [Bool.not_eq_true'] at bounded
    cases read
    rw [member_iff, isOne_iff.mp (require_iff.mp one)] at version
    exact ⟨uid, ⟨messageId, 0, username, sessionId, question, answer, ts⟩,
      ⟨version, number_iff.mp userId, number_iff.mp ht, text_iff.mp hm, text_iff.mp ha,
        text_iff.mp hs, text_iff.mp hq, text_iff.mp hw, rfl⟩, bounded, rfl⟩
  · rintro ⟨uid, item, fields, bounded, rfl⟩
    obtain ⟨u, hu, userId⟩ := Option.bind_eq_some_iff.mp fields.userId
    obtain ⟨t, ht, ts⟩ := Option.bind_eq_some_iff.mp fields.ts
    have intU : isNumberInteger u = true := by rw [isNumberInteger_eq, userId]; rfl
    have intT : isNumberInteger t = true := by rw [isNumberInteger_eq, ts]; rfl
    unfold tryParse
    rw [parseJson_iff.mpr parsed, bind_ok, member_iff.mpr fields.version, member_iff.mpr hu, member_iff.mpr ht,
      number_iff.mpr fields.userId, number_iff.mpr fields.ts, text_iff.mpr fields.messageId,
      text_iff.mpr fields.username, text_iff.mpr fields.sessionId, text_iff.mpr fields.question,
      text_iff.mpr fields.answer]
    have own : { item with userId := 0 } = item := by
      rw [← fields.noUser]
    change (require (isNumberInteger u) _ >>= fun _ => require (isNumberInteger t) _ >>= fun _ =>
      require (!outOfBounds uid { item with userId := 0 }) _ >>= fun _ =>
        Except.ok { item with userId := .ofInt uid }) = _
    rw [intU, intT, own, bounded]
    rfl

/-- Both readings take the same exchanges. -/
theorem tryParse_parse : tryParse codec body = .ok x ↔ parse codec body = some x := by
  cases parsed : codec.parse body with
  | none =>
      unfold tryParse parse
      rw [parsed, show parseJson codec body = .error .json by rw [parseJson, parsed]]
      exact ⟨nofun, nofun⟩
  | some j =>
      rw [tryParse_iff parsed, parse, parsed]
      simp only [Option.bind_eq_bind, Option.bind_some, Option.bind_eq_some_iff, Prod.exists, fromJson_iff]
      constructor
      · rintro ⟨uid, item, fields, bounded, rfl⟩
        refine ⟨uid, item, fields, ?_⟩
        rw [bounded]
        rfl
      · rintro ⟨uid, item, fields, read⟩
        split at read
        · cases read
        · next inside => exact ⟨uid, item, fields, by simpa using inside, (Option.some.inj read).symm⟩

/-- The exceptions inside do not matter: `parse` returns what it returns, or throws the one
exception. -/
theorem parseOrThrow_eq (codec : JsonCodec) (body : Bytes) :
    parseOrThrow codec body =
      match parse codec body with
      | some x => .ok x
      | none => .error (.invalidArgument (bytes "Unsupported or malformed chat message")) := by
  rw [parseOrThrow]
  cases read : tryParse codec body with
  | ok x => rw [tryParse_parse.mp read]
  | error e =>
      cases parsed : parse codec body with
      | none => rfl
      | some x =>
          rw [tryParse_parse.mpr parsed] at read
          cases read

/-! ## Both directions -/

/-- The texts of an exchange are UTF-8. -/
structure Utf8 (x : ChatExchange) : Prop where
  username : ValidUtf8 x.username
  sessionId : ValidUtf8 x.sessionId
  question : ValidUtf8 x.question
  answer : ValidUtf8 x.answer

theorem hex_ascii {text : Bytes} (hex : text.all isHexDigit = true) : ∀ b ∈ text, b < 128 := by
  intro b member
  have digit := List.all_eq_true.mp hex b member
  unfold isHexDigit at digit
  simp only [Bool.or_eq_true, Bool.and_eq_true, decide_eq_true_eq] at digit
  rcases digit with ⟨-, high⟩ | ⟨-, high⟩
  · exact UInt8.lt_of_le_of_lt high (by decide)
  · exact UInt8.lt_of_le_of_lt high (by decide)

theorem writable_toJson (valid : x.Valid) (utf8 : x.Utf8) : x.toJson.Writable := by
  have messageId : ValidUtf8 x.messageId := validUtf8_of_ascii (hex_ascii valid.messageId.2)
  have userId : InJsonRange x.userId.toInt := by
    have low := x.userId.le_toInt
    have high : x.userId.toInt ≤ 2147483647 := x.userId.toInt_le
    unfold InJsonRange
    omega
  have ts : InJsonRange x.ts := by
    obtain ⟨low, high⟩ := valid.ts
    unfold llongMax at high
    unfold InJsonRange
    omega
  apply Json.writable_object
  · intro f member
    have names : f.1 ∈ [bytes "v", bytes "message_id", bytes "user_id", bytes "username",
        bytes "session_id", bytes "question", bytes "answer", bytes "ts"] :=
      List.mem_map_of_mem member
    apply validUtf8_of_ascii
    revert names
    generalize f.1 = name
    revert name
    decide +kernel
  · intro f member
    simp only [List.mem_cons, List.not_mem_nil, or_false] at member
    rcases member with rfl | rfl | rfl | rfl | rfl | rfl | rfl | rfl
    · exact .int (by decide)
    · exact .str messageId
    · exact .int userId
    · exact .str utf8.username
    · exact .str utf8.sessionId
    · exact .str utf8.question
    · exact .str utf8.answer
    · exact .int ts

/-- An exchange within the bounds has a body, and the body is read back. -/
theorem serialize_parse (faithful : codec.Faithful) (valid : x.Valid) (utf8 : x.Utf8) :
    ∃ body, x.serialize codec = some body ∧ parseOrThrow codec body = .ok x := by
  obtain ⟨body, written⟩ := faithful.dump_writable (writable_toJson valid utf8)
  have read : parse codec body = some x := parse_of_valid faithful.toLawful written valid
  refine ⟨body, written, ?_⟩
  rw [parseOrThrow_eq, read]

/-- An integer that is positive as a `long long` did not wrap. -/
theorem int_of_longLong {v : Json} {n : Int} (readable : v.Readable) (taken : longLong? v = some n)
    (nonneg : 0 ≤ n) : v = .int n := by
  cases v with
  | int m =>
      have value := Option.some.inj taken
      obtain ⟨low, high⟩ : InJsonRange m := readable
      split at value
      · rw [value]
      · unfold llongMax at value
        omega
  | _ => cases taken

theorem string_of_field {j : Json} {key s : Bytes}
    (found : (j.field? key).bind Json.string? = some s) : j.field? key = some (.str s) := by
  obtain ⟨v, here, taken⟩ := Option.bind_eq_some_iff.mp found
  cases v with
  | str t =>
      cases taken
      exact here
  | _ => cases taken

/-- What `parse` returns is within the bounds, has the numbers of the body, and has a body
of its own. -/
theorem parse_returns (faithful : codec.Faithful) (read : parse codec body = some x) :
    x.Valid ∧ x.Utf8 ∧ llongAdd x.ts 1 = some (x.ts + 1) ∧
      (∃ j, codec.parse body = some j ∧ j.field? (bytes "user_id") = some (.int x.userId.toInt) ∧
        j.field? (bytes "ts") = some (.int x.ts)) ∧
      ∃ body', x.serialize codec = some body' ∧ parseOrThrow codec body' = .ok x := by
  have valid := valid_of_parse read
  cases parsed : codec.parse body with
  | none =>
      rw [parse, parsed] at read
      cases read
  | some j =>
      obtain ⟨uid, item, fields, bounded, rfl⟩ := (tryParse_iff parsed).mp (tryParse_parse.mpr read)
      have utf8 : ChatExchange.Utf8 { item with userId := .ofInt uid } := {
        username := faithful.parse_readable parsed (string_of_field fields.username)
        sessionId := faithful.parse_readable parsed (string_of_field fields.sessionId)
        question := faithful.parse_readable parsed (string_of_field fields.question)
        answer := faithful.parse_readable parsed (string_of_field fields.answer) }
      obtain ⟨small, positive, -⟩ := (outOfBounds_iff uid item).mp bounded
      have kept : (Int32.ofInt uid).toInt = uid :=
        Int32.toInt_ofInt_of_le (by omega) (Int.lt_of_le_of_lt small (by decide))
      obtain ⟨u, hu, userId⟩ := Option.bind_eq_some_iff.mp fields.userId
      obtain ⟨t, ht, ts⟩ := Option.bind_eq_some_iff.mp fields.ts
      have uInt := int_of_longLong (faithful.parse_readable parsed hu) userId (by omega)
      have tInt := int_of_longLong (faithful.parse_readable parsed ht) ts valid.ts.1
      refine ⟨valid, utf8, ?_, ⟨j, rfl, ?_, ?_⟩, serialize_parse faithful valid utf8⟩
      · obtain ⟨low, high⟩ := valid.ts
        refine if_pos ?_
        unfold IsLongLong llongMax at *
        omega
      · rw [hu, uInt]
        exact congrArg (fun n => some (Json.int n)) kept.symm
      · rw [ht, tInt]

end ChatExchange

/-- A publication that the consumer can read. -/
def ReadableBody (codec : JsonCodec) : Effect → Prop
  | .published _ body _ => ∃ x, ChatExchange.parseOrThrow codec body = .ok x
  | _ => True

/-- Code that publishes only what the consumer can read. -/
abbrev PublishesReadable (codec : JsonCodec) {α : Type} (m : Section α) : Prop :=
  m.Keeps (fun _ => ()) (fun _ => ReadableBody codec) fun _ => True

variable {codec : JsonCodec}

theorem add_publishes (a b : Int) : PublishesReadable codec (AIHelper.add a b) := by
  unfold AIHelper.add
  cases llongAdd a b with
  | none => exact .fail trivial
  | some sum => exact .pure sum

theorem nextTimestamp_publishes (now : Int) (last : Option (Bytes × Int)) :
    PublishesReadable codec (AIHelper.nextTimestamp now last) := by
  cases last with
  | none => exact .pure now
  | some message =>
      apply Action.Keeps.ite
      · intro late
        exact .fail trivial
      · intro room
        exact .bind (add_publishes message.2 1) fun next => .pure (max now next)

theorem submit_publishes (env : Environment) (x : ChatExchange) :
    PublishesReadable codec (AIHelper.submit codec env x) := by
  unfold AIHelper.submit
  cases x.serialize codec with
  | none => exact .fail trivial
  | some body =>
      apply Action.Keeps.ite
      · intro malformed
        exact .fail trivial
      · intro wellFormed
        have readable : ∃ y, ChatExchange.parseOrThrow codec body = .ok y := by
          cases read : ChatExchange.parse codec body with
          | none => exact absurd (by rw [read]; rfl) wellFormed
          | some y => exact ⟨y, by rw [ChatExchange.parseOrThrow_eq, read]⟩
        refine .bind (add_publishes x.ts 1) fun answerTs => ?_
        refine .bind (.emit fun _ => readable) fun _ => ?_
        apply Action.Keeps.ite
        · intro accepted
          exact .update fun _ => rfl
        · intro refused
          exact .fail trivial

theorem commitExchange_publishes (call : Call) (env : Environment) (answer : Bytes) :
    PublishesReadable codec (AIHelper.commitExchange codec call env answer) where
  spec {helper _ _ _} ran := by
    have rest : PublishesReadable codec (do
        let ts ← AIHelper.nextTimestamp env.clock helper.messages.getLast?
        let messageId ← AIHelper.orThrow env.secureId
        AIHelper.submit codec env
          ⟨messageId, call.userId, call.userName, call.sessionId, call.userQuestion, answer, ts⟩) :=
      .bind (nextTimestamp_publishes env.clock _) fun ts =>
        .bind (.lift fun _ _ => trivial) fun messageId => submit_publishes env _
    exact rest.spec ran

/-- Writing and reading agree: an exchange within the bounds is read back as it was; of any
body `parse` makes its one exception or an exchange within the bounds, with the numbers the
body has and with a body of its own; and the consumer never rejects what `commitExchange`
published. -/
theorem queue_codec (faithful : codec.Faithful) :
    (∀ x : ChatExchange, x.Valid → x.Utf8 →
        ∃ body, x.serialize codec = some body ∧ ChatExchange.parseOrThrow codec body = .ok x) ∧
      (∀ body, ChatExchange.parseOrThrow codec body =
          .error (.invalidArgument (bytes "Unsupported or malformed chat message")) ∨
        ∃ x, ChatExchange.parseOrThrow codec body = .ok x ∧ x.Valid ∧ x.Utf8 ∧
          llongAdd x.ts 1 = some (x.ts + 1) ∧
          (∃ j, codec.parse body = some j ∧ j.field? (bytes "user_id") = some (.int x.userId.toInt) ∧
            j.field? (bytes "ts") = some (.int x.ts)) ∧
          ∃ body', x.serialize codec = some body' ∧ ChatExchange.parseOrThrow codec body' = .ok x) ∧
      ∀ (call : Call) (env : Environment) (answer : Bytes) (helper : AIHelper) (queue body : Bytes)
        (accepted : Bool) (persisted : ChatExchange → Bool),
        .published queue body accepted ∈ (AIHelper.commitExchange codec call env answer helper).1 →
          (∃ x, ChatExchange.parseOrThrow codec body = .ok x) ∧
            executeMysql codec persisted body ≠ .reject := by
  refine ⟨fun x valid utf8 => ChatExchange.serialize_parse faithful valid utf8, fun body => ?_, ?_⟩
  · rw [ChatExchange.parseOrThrow_eq]
    cases read : ChatExchange.parse codec body with
    | none => exact .inl rfl
    | some x => exact .inr ⟨x, rfl, ChatExchange.parse_returns faithful read⟩
  · intro call env answer helper queue body accepted persisted published
    obtain ⟨x, read⟩ : ReadableBody codec (.published queue body accepted) :=
      ((commitExchange_publishes call env answer).spec rfl).2.1 _ published
    refine ⟨⟨x, read⟩, ?_⟩
    rw [executeMysql, read]
    dsimp only
    split <;> simp

theorem queue_codec_greeting :
    ∃ body, ChatExchange.serialize textCodec
        ⟨bytes "0123456789abcdef0123456789abcdef", 7, bytes "ada", bytes "s1", bytes "hi", bytes "hello", 1⟩ =
          some body ∧
      ChatExchange.parseOrThrow textCodec body =
        .ok ⟨bytes "0123456789abcdef0123456789abcdef", 7, bytes "ada", bytes "s1", bytes "hi", bytes "hello", 1⟩ :=
  (queue_codec textCodec_faithful).1 _
    ⟨by decide, by decide, by decide, by decide, by decide, by decide, by decide⟩
    ⟨by decide, by decide, by decide, by decide +kernel⟩

end AIService.Chat
