import AIService.Basic

/-!
# UTF-8

`utf8` writes characters, and `Utf8Decoder` reads them back one byte at a time, as
`TextDecoder` does: an ill-formed sequence becomes U+FFFD.  What it makes of a text does not
depend on where the text is cut.
-/

namespace AIService

/-- The UTF-8 text of some characters. -/
def utf8 (chars : List Char) : Bytes := chars.flatMap String.utf8EncodeChar

def ValidUtf8 (text : Bytes) : Prop := ∃ chars, text = utf8 chars

theorem utf8_append (chars chars' : List Char) : utf8 (chars ++ chars') = utf8 chars ++ utf8 chars' :=
  List.flatMap_append

theorem utf8_cons (c : Char) (chars : List Char) :
    utf8 (c :: chars) = String.utf8EncodeChar c ++ utf8 chars := rfl

theorem ValidUtf8.append {text text' : Bytes} (valid : ValidUtf8 text) (valid' : ValidUtf8 text') :
    ValidUtf8 (text ++ text') := by
  obtain ⟨chars, rfl⟩ := valid
  obtain ⟨chars', rfl⟩ := valid'
  exact ⟨chars ++ chars', (utf8_append chars chars').symm⟩

instance (text : Bytes) : Decidable (ValidUtf8 text) :=
  decidable_of_iff text.toByteArray.IsValidUTF8 (by
    constructor
    · rintro ⟨chars, eq⟩
      have data := congrArg (fun b : ByteArray => b.data.toList) eq
      rw [List.utf8Encode] at data
      simp only [List.toList_data_toByteArray] at data
      exact ⟨chars, data⟩
    · rintro ⟨chars, rfl⟩
      exact .intro chars rfl)

/-! ## The decoder -/

/-- The bytes still needed for a character, what they have come to, and the bounds of the
next one. -/
structure Utf8Decoder where
  needed : Nat := 0
  point : Nat := 0
  lower : Nat := 0x80
  upper : Nat := 0xBF
deriving DecidableEq, Repr

def replacement : Char := Char.ofNat 0xFFFD

namespace Utf8Decoder

/-- The first byte of a character. -/
def start (b : Nat) : Utf8Decoder × List Char :=
  if b ≤ 0x7F then ({}, [Char.ofNat b])
  else if 0xC2 ≤ b ∧ b ≤ 0xDF then ({ needed := 1, point := b % 32 }, [])
  else if 0xE0 ≤ b ∧ b ≤ 0xEF then
    ({ needed := 2, point := b % 16, lower := if b = 0xE0 then 0xA0 else 0x80,
       upper := if b = 0xED then 0x9F else 0xBF }, [])
  else if 0xF0 ≤ b ∧ b ≤ 0xF4 then
    ({ needed := 3, point := b % 8, lower := if b = 0xF0 then 0x90 else 0x80,
       upper := if b = 0xF4 then 0x8F else 0xBF }, [])
  else ({}, [replacement])

/-- One byte; one that cannot go on the character starts the next. -/
def push (d : Utf8Decoder) (b : Nat) : Utf8Decoder × List Char :=
  if d.needed = 0 then start b
  else if b < d.lower ∨ d.upper < b then ((start b).1, replacement :: (start b).2)
  else if d.needed = 1 then ({}, [Char.ofNat (d.point * 64 + b % 64)])
  else ({ needed := d.needed - 1, point := d.point * 64 + b % 64 }, [])

def decode (d : Utf8Decoder) : Bytes → Utf8Decoder × List Char
  | [] => (d, [])
  | b :: rest => (((d.push b.toNat).1.decode rest).1, (d.push b.toNat).2 ++ ((d.push b.toNat).1.decode rest).2)

variable (d : Utf8Decoder)

/-- A cut does not change what is decoded. -/
theorem decode_append (text later : Bytes) :
    d.decode (text ++ later) =
      (((d.decode text).1.decode later).1, (d.decode text).2 ++ ((d.decode text).1.decode later).2) := by
  induction text generalizing d with
  | nil => rfl
  | cons b text ih => simp [decode, ih]

theorem start_two {b : Nat} (low : 0xC2 ≤ b) (high : b ≤ 0xDF) :
    push {} b = ({ needed := 1, point := b % 32 }, []) := by
  change start b = _
  rw [start, if_neg (by omega), if_pos ⟨low, high⟩]

theorem start_three {b : Nat} (low : 0xE0 ≤ b) (high : b ≤ 0xEF) :
    push {} b = ({ needed := 2, point := b % 16, lower := if b = 0xE0 then 0xA0 else 0x80,
                   upper := if b = 0xED then 0x9F else 0xBF }, []) := by
  change start b = _
  rw [start, if_neg (by omega), if_neg (by omega), if_pos ⟨low, high⟩]

theorem start_four {b : Nat} (low : 0xF0 ≤ b) (high : b ≤ 0xF4) :
    push {} b = ({ needed := 3, point := b % 8, lower := if b = 0xF0 then 0x90 else 0x80,
                   upper := if b = 0xF4 then 0x8F else 0xBF }, []) := by
  change start b = _
  rw [start, if_neg (by omega), if_neg (by omega), if_neg (by omega), if_pos ⟨low, high⟩]

/-- A byte within the bounds goes on the character. -/
theorem push_next {n point lower upper b : Nat} (low : lower ≤ b) (high : b ≤ upper) :
    push ⟨n + 2, point, lower, upper⟩ b = ({ needed := n + 1, point := point * 64 + b % 64 }, []) := by
  rw [push, if_neg (by simp), if_neg (by dsimp only; omega), if_neg (by simp)]
  rfl

theorem push_last {point lower upper b : Nat} (low : lower ≤ b) (high : b ≤ upper) :
    push ⟨1, point, lower, upper⟩ b = ({}, [Char.ofNat (point * 64 + b % 64)]) := by
  rw [push, if_neg (by simp), if_neg (by dsimp only; omega), if_pos rfl]

theorem toNat_ofNat_of_lt {n : Nat} (small : n < 256) : (UInt8.ofNat n).toNat = n := by
  rw [UInt8.toNat_ofNat']
  exact Nat.mod_eq_of_lt small

/-- `text` is decoded to `c` with its last byte, and not before. -/
def Spells (text : Bytes) (c : Char) : Prop :=
  decode {} text = ({}, [c]) ∧
    ∀ part, part <+: text → part ≠ text → (decode {} part).2 = []

theorem spells_of_init (init : Bytes) {last : UInt8} {c : Char} {d : Utf8Decoder}
    (quiet : decode {} init = (d, [])) (ends : d.push last.toNat = ({}, [c])) :
    Spells (init ++ [last]) c := by
  constructor
  · rw [decode_append, quiet, decode, ends]
    rfl
  · intro part before proper
    rw [List.prefix_concat_iff] at before
    rcases before with same | ⟨later, eq⟩
    · exact absurd same proper
    · have outs := decode_append {} part later
      rw [eq, quiet] at outs
      exact (List.append_eq_nil_iff.mp (Prod.mk.inj outs).2.symm).1

theorem decode_cons {b : UInt8} {rest : Bytes} {d' : Utf8Decoder} {n : Nat} (value : b.toNat = n)
    (pushed : d.push n = (d', [])) : d.decode (b :: rest) = d'.decode rest := by
  rw [decode, value, pushed]
  rfl

theorem spells (c : Char) : Spells (String.utf8EncodeChar c) c := by
  have back : Char.ofNat c.val.toNat = c := Char.ofNat_toNat c
  have whole : c.val.toNat < 0xD800 ∨ (0xDFFF < c.val.toNat ∧ c.val.toNat < 0x110000) := c.valid
  unfold String.utf8EncodeChar
  dsimp only
  generalize c.val.toNat = v at back whole ⊢
  split
  · next one =>
      apply spells_of_init [] rfl
      rw [toNat_ofNat_of_lt (by omega)]
      change start v = _
      rw [start, if_pos one, back]
  split
  · next two =>
      apply spells_of_init [_]
      · exact decode_cons {} (toNat_ofNat_of_lt (by omega)) (start_two (by omega) (by omega))
      · rw [toNat_ofNat_of_lt (by omega), push_last (by omega) (by omega), ← back]
        congr 3
        omega
  split
  · next three =>
      have first (rest : Bytes) := @decode_cons {} _ rest _ _
        (toNat_ofNat_of_lt (by omega : v / 4096 % 16 + 224 < 256))
        (start_three (b := v / 4096 % 16 + 224) (by omega) (by omega))
      apply spells_of_init [_, _]
      · rw [first]
        apply decode_cons _ (toNat_ofNat_of_lt (by omega))
        apply push_next
        · split <;> omega
        · split <;> omega
      · rw [toNat_ofNat_of_lt (by omega), push_last (by omega) (by omega), ← back]
        congr 3
        omega
  · next four =>
      have first (rest : Bytes) := @decode_cons {} _ rest _ _
        (toNat_ofNat_of_lt (by omega : v / 262144 % 8 + 240 < 256))
        (start_four (b := v / 262144 % 8 + 240) (by omega) (by omega))
      apply spells_of_init [_, _, _]
      · rw [first, decode_cons _ (toNat_ofNat_of_lt (by omega)) (push_next _ _)]
        · exact decode_cons _ (toNat_ofNat_of_lt (by omega)) (push_next (by omega) (by omega))
        · split <;> omega
        · split <;> omega
      · rw [toNat_ofNat_of_lt (by omega), push_last (by omega) (by omega), ← back]
        congr 3
        omega

theorem decode_utf8 (chars : List Char) : decode {} (utf8 chars) = ({}, chars) := by
  induction chars with
  | nil => rfl
  | cons c chars ih => rw [utf8_cons, decode_append, (spells c).1, ih, List.singleton_append]

/-- Less than the whole of a text gives less than all of its characters. -/
theorem decode_part {chars : List Char} {part : Bytes} (before : part <+: utf8 chars)
    (proper : part ≠ utf8 chars) :
    ∃ early later, chars = early ++ later ∧ later ≠ [] ∧ (decode {} part).2 = early := by
  induction chars generalizing part with
  | nil => exact absurd (List.prefix_nil.mp before) proper
  | cons c chars ih =>
      rw [utf8_cons] at before proper
      by_cases past : String.utf8EncodeChar c <+: part
      · obtain ⟨more, rfl⟩ := past
        have rest := (List.prefix_append_right_inj _).mp before
        obtain ⟨early, later, split, left, out⟩ := ih rest fun whole => proper (congrArg _ whole)
        refine ⟨c :: early, later, congrArg (c :: ·) split, left, ?_⟩
        rw [decode_append, (spells c).1, out]
        rfl
      · have inside : part <+: String.utf8EncodeChar c :=
          (List.prefix_or_prefix_of_prefix before (List.prefix_append _ _)).resolve_right past
        have short : part ≠ String.utf8EncodeChar c := by
          rintro rfl
          exact past List.prefix_rfl
        exact ⟨[], c :: chars, rfl, List.cons_ne_nil c chars, (spells c).2 part inside short⟩

end Utf8Decoder

/-! ## ASCII -/

theorem utf8EncodeChar_ascii {b : UInt8} (ascii : b < 128) :
    String.utf8EncodeChar (Char.ofNat b.toNat) = [b] := by
  have small : b.toNat < 128 := UInt8.lt_iff_toNat_lt.mp ascii
  have valid : b.toNat.isValidChar := .inl (by omega)
  have value : (Char.ofNat b.toNat).val.toNat = b.toNat := by
    rw [Char.ofNat, dif_pos valid]
    rfl
  unfold String.utf8EncodeChar
  rw [value, if_pos (by omega)]
  simp

theorem validUtf8_of_ascii {text : Bytes} (ascii : ∀ b ∈ text, b < 128) : ValidUtf8 text := by
  induction text with
  | nil => exact ⟨[], rfl⟩
  | cons b text ih =>
      rw [← List.singleton_append, ← utf8EncodeChar_ascii (ascii b List.mem_cons_self)]
      have one : ValidUtf8 (String.utf8EncodeChar (Char.ofNat b.toNat)) :=
        ⟨[_], (List.append_nil _).symm⟩
      exact one.append (ih fun c member => ascii c (List.mem_cons_of_mem b member))

end AIService
