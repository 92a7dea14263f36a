import AIService.Data.Digits
import AIService.Data.Json
import AIService.Data.Text
import Mathlib.Data.List.TakeDrop

/-!
# A codec for flat JSON objects

`flatCodec` writes and reads the objects whose members are integers and strings that need
no escape, in the text form the library gives them.  It throws on everything else.
-/

namespace AIService

/-- Printable ASCII that stands for itself in a JSON string. -/
def isPlain (text : Bytes) : Bool := text.all fun b => 32 ≤ b && b ≤ 126 && b != 34 && b != 92

def quoted (text : Bytes) : Bytes := 34 :: (text ++ [34])

/-- The text of a flat value. -/
def dumpValue : Json → Option Bytes
  | .str s => if isPlain s then some (quoted s) else none
  | .int n => some (if n < 0 then 45 :: digits n.natAbs else digits n.natAbs)
  | _ => none

def dumpFields : List (Bytes × Json) → Option Bytes
  | [] => none
  | (key, v) :: rest =>
      if isPlain key then
        (dumpValue v).bind fun text =>
          if rest.isEmpty then some (quoted key ++ 58 :: (text ++ [125]))
          else (dumpFields rest).map fun more => quoted key ++ 58 :: (text ++ 44 :: more)
      else none

/-- Read a flat value at the start of a text. -/
def readValue : Bytes → Option (Json × Bytes)
  | 34 :: text => (cut 34 text).map fun (s, rest) => (.str s, rest)
  | 45 :: text => some (.int (-(digitsValue (text.takeWhile isDigit))), text.dropWhile isDigit)
  | text => some (.int (digitsValue (text.takeWhile isDigit)), text.dropWhile isDigit)

/-- Read members up to the closing brace, at most `fuel` of them. -/
def readFields : Nat → Bytes → Option (List (Bytes × Json))
  | 0, _ => none
  | fuel + 1, text =>
      match text with
      | 34 :: text =>
          match cut 34 text with
          | some (key, 58 :: text) =>
              match readValue text with
              | some (v, [125]) => some [(key, v)]
              | some (v, 44 :: text) => (readFields fuel text).map fun rest => (key, v) :: rest
              | _ => none
          | _ => none
      | _ => none

def flatCodec : JsonCodec where
  dump
    | .obj fields => (dumpFields fields).map (123 :: ·)
    | _ => none
  parse
    | 123 :: text => (readFields text.length text).map .obj
    | _ => none

theorem not_quote_of_plain {text : Bytes} (plain : isPlain text = true) : (34 : UInt8) ∉ text := by
  intro member
  have fine := List.all_eq_true.mp plain 34 member
  cases fine

theorem takeWhile_digits (n : Nat) {sep : UInt8} (stop : isDigit sep = false) (rest : Bytes) :
    (digits n ++ sep :: rest).takeWhile isDigit = digits n ∧
      (digits n ++ sep :: rest).dropWhile isDigit = sep :: rest := by
  have rows : ∀ b ∈ digits n, isDigit b = true := by
    intro b member
    obtain ⟨low, high⟩ := (digits_spec n).2.1 b member
    simp [isDigit, low, high]
  constructor
  · rw [List.takeWhile_append_of_pos rows]
    simp [stop]
  · rw [List.dropWhile_append_of_pos rows]
    simp [stop]

/-- A numeral starts with a digit. -/
theorem head_digit {n : Nat} {text later : Bytes} {b : UInt8} (starts : digits n ++ text = b :: later) :
    isDigit b = true := by
  obtain ⟨nonempty, rows, -⟩ := digits_spec n
  cases first : digits n with
  | nil => exact absurd first nonempty
  | cons c more =>
      rw [first] at starts rows
      obtain ⟨rfl, -⟩ := List.cons.inj starts
      obtain ⟨low, high⟩ := rows c List.mem_cons_self
      simp [isDigit, low, high]

/-- A written value is read back, up to the separator after it. -/
theorem readValue_dumpValue {v : Json} {text : Bytes} (written : dumpValue v = some text)
    {b : UInt8} (stop : isDigit b = false) (rest : Bytes) :
    readValue (text ++ b :: rest) = some (v, b :: rest) := by
  cases v with
  | str s =>
      rw [dumpValue] at written
      split at written
      · next plain =>
          cases written
          simp [quoted, readValue, cut_append (not_quote_of_plain plain)]
      · cases written
  | int n =>
      cases written
      obtain ⟨taken, left⟩ := takeWhile_digits n.natAbs stop rest
      have value := (digits_spec n.natAbs).2.2
      split
      · next negative =>
          simp only [List.cons_append, readValue, taken, left, value]
          rw [Int.ofNat_natAbs_of_nonpos (by omega), Int.neg_neg]
      · next positive =>
          unfold readValue
          split
          · next starts =>
              have first := head_digit starts
              cases first
          · next starts =>
              have first := head_digit starts
              cases first
          · rw [taken, left, value, Int.natAbs_of_nonneg (by omega)]
  | _ => cases written

theorem readFields_dumpFields {fields : List (Bytes × Json)} {text : Bytes}
    (written : dumpFields fields = some text) {fuel : Nat} (enough : text.length ≤ fuel) :
    readFields fuel text = some fields := by
  induction fields generalizing text fuel with
  | nil => cases written
  | cons head rest ih =>
      obtain ⟨key, v⟩ := head
      rw [dumpFields] at written
      split at written
      case isFalse => cases written
      next plain =>
      obtain ⟨shown, value, written⟩ := Option.bind_eq_some_iff.mp written
      cases fuel with
      | zero =>
          obtain rfl := List.length_eq_zero_iff.mp (Nat.le_zero.mp enough)
          split at written
          · cases written
          · obtain ⟨_, -, impossible⟩ := Option.map_eq_some_iff.mp written
            cases impossible
      | succ fuel =>
          have key_read (tail : Bytes) : cut 34 (key ++ 34 :: 58 :: tail) = some (key, 58 :: tail) :=
            cut_append (not_quote_of_plain plain) _
          cases rest with
          | nil =>
              cases written
              have read := readValue_dumpValue (b := 125) value (by decide) []
              simp [readFields, quoted, key_read, read]
          | cons next rest =>
              obtain ⟨more, dumped, rfl⟩ := Option.map_eq_some_iff.mp written
              have room : more.length ≤ fuel := by
                simp [quoted] at enough
                omega
              have read := readValue_dumpValue (b := 44) value (by decide) more
              simp [readFields, quoted, key_read, read, ih dumped room]

theorem flatCodec_lawful : flatCodec.Lawful where
  parse_dump {j text} written := by
    cases j with
    | obj fields =>
        obtain ⟨more, dumped, rfl⟩ := Option.map_eq_some_iff.mp written
        simp [flatCodec, readFields_dumpFields dumped le_rfl]
    | _ => cases written

end AIService
