import AIService.Data.Crc
import AIService.Image.Bounds

/-!
# Reading at a position

`Unread data pos rest`: the bytes from `pos` on are `rest`.  A read, a number and a checksum
then speak of the head of `rest`, and the walkers of the preflight can be compared with a
description of the bytes themselves.
-/

namespace AIService.Image

/-- The bytes of `data` from `pos` on are `rest`. -/
def Unread (data : Bytes) (pos : Nat) (rest : Bytes) : Prop :=
  ∃ front : Bytes, front.length = pos ∧ front ++ rest = data

variable {data rest : Bytes} {pos : Nat}

theorem Unread.start (data : Bytes) : Unread data 0 data := ⟨[], rfl, rfl⟩

theorem Unread.length (unread : Unread data pos rest) : data.length = pos + rest.length := by
  obtain ⟨front, rfl, rfl⟩ := unread
  exact List.length_append

theorem Unread.skip {chunk : Bytes} (unread : Unread data pos (chunk ++ rest)) :
    Unread data (pos + chunk.length) rest := by
  obtain ⟨front, rfl, rfl⟩ := unread
  exact ⟨front ++ chunk, List.length_append, List.append_assoc _ _ _⟩

theorem Unread.next {b : UInt8} (unread : Unread data pos (b :: rest)) :
    Unread data (pos + 1) rest := Unread.skip (show Unread data pos ([b] ++ rest) from unread)

/-! ## What is read -/

theorem Unread.read {b : UInt8} (unread : Unread data pos (b :: rest)) :
    read data pos = .ok b := by
  obtain ⟨front, rfl, rfl⟩ := unread
  simp [Image.read]

theorem Unread.readRange {chunk : Bytes} (unread : Unread data pos (chunk ++ rest)) :
    readRange data pos chunk.length = .ok chunk := by
  induction chunk generalizing pos with
  | nil => rfl
  | cons b chunk ih =>
      rw [List.length_cons, Image.readRange, unread.read, ih unread.next]
      rfl

/-- A read of `count` bytes at `offset` of what is unread. -/
theorem Unread.readRange_at (front : Bytes) {chunk : Bytes} {count : Nat} (offset : Nat)
    (unread : Unread data pos (front ++ (chunk ++ rest))) (skipped : front.length = offset)
    (length : chunk.length = count) :
    Image.readRange data (pos + offset) count = .ok chunk := by
  subst skipped length
  exact unread.skip.readRange

theorem Unread.read_at (front : Bytes) {b : UInt8} {offset : Nat}
    (unread : Unread data pos (front ++ (b :: rest))) (skipped : front.length = offset) :
    Image.read data (pos + offset) = .ok b := by
  subst skipped
  exact unread.skip.read

/-- Enough bytes are a chunk of that length and a rest. -/
theorem exists_chunk (bytes : Bytes) (count : Nat) (long : count ≤ bytes.length) :
    ∃ chunk rest : Bytes, chunk.length = count ∧ bytes = chunk ++ rest :=
  ⟨bytes.take count, bytes.drop count, List.length_take_of_le long,
    (List.take_append_drop _ _).symm⟩

/-- `startsWith` looks for a prefix. -/
theorem startsWith_eq (data signature : Bytes) :
    startsWith data signature = .ok (decide (signature <+: data)) := by
  unfold startsWith
  split
  · next long =>
      obtain ⟨first, rest, length, rfl⟩ := exists_chunk _ _ long
      have range : Image.readRange (first ++ rest) 0 signature.length = .ok first :=
        length ▸ (Unread.start _).readRange
      have same : first = signature ↔ signature <+: first ++ rest := by
        constructor
        · rintro rfl
          exact List.prefix_append _ _
        · intro starts
          exact (List.prefix_of_prefix_length_le starts (List.prefix_append _ _)
            (Nat.le_of_eq length.symm)).eq_of_length length.symm |>.symm
      rw [range]
      exact congrArg Except.ok (decide_eq_decide.mpr same)
  · next short =>
      have none : ¬ signature <+: data := fun starts => short starts.length_le
      rw [decide_eq_false none]

/-! ## Numbers -/

/-- The number that big-endian digits stand for. -/
def number (digits : Bytes) : Nat := digits.foldl (fun n b => 256 * n + b.toNat) 0

/-- Shifting in a byte is an addition as long as nothing is shifted out. -/
theorem shiftIn_toNat {n : UInt32} {b : UInt8} (small : n.toNat < 2 ^ 24) :
    (n <<< 8 ||| b.toUInt32).toNat = 256 * n.toNat + b.toNat := by
  have byte : b.toNat < 2 ^ 8 := b.toNat_lt
  have shifted : (n <<< 8).toNat = n.toNat <<< 8 := by
    rw [UInt32.toNat_shiftLeft, Nat.mod_eq_of_lt]
    · rfl
    · show n.toNat <<< 8 < 2 ^ 32
      rw [Nat.shiftLeft_eq]
      omega
  rw [UInt32.toNat_or, shifted, UInt8.toNat_toUInt32, ← Nat.shiftLeft_add_eq_or_of_lt byte,
    Nat.shiftLeft_eq]
  omega

theorem bigEndian_foldl {digits : Bytes} {n : UInt32} {m : Nat}
    (small : n.toNat = m) (below : m < 256 ^ (4 - digits.length)) (short : digits.length ≤ 4) :
    (digits.foldl (fun (n : UInt32) b => n <<< 8 ||| b.toUInt32) n).toNat =
      digits.foldl (fun n b => 256 * n + b.toNat) m := by
  induction digits generalizing n m with
  | nil => exact small
  | cons b rest ih =>
      rw [List.length_cons] at below short
      have room : m < 2 ^ 24 := by
        have bound : 256 ^ (4 - (rest.length + 1)) ≤ 256 ^ 3 :=
          Nat.pow_le_pow_right (by omega) (by omega)
        omega
      have grown : m * 256 + 256 ≤ 256 ^ (4 - rest.length) := by
        have step : 4 - rest.length = (4 - (rest.length + 1)) + 1 := by omega
        rw [step, Nat.pow_succ]
        omega
      have byte : b.toNat < 2 ^ 8 := b.toNat_lt
      have next : (n <<< 8 ||| b.toUInt32).toNat = 256 * m + b.toNat := by
        rw [shiftIn_toNat (small ▸ room), small]
      have below' : 256 * m + b.toNat < 256 ^ (4 - rest.length) := by omega
      exact ih next below' (by omega)

/-- `BE32` and its two-byte sibling give the number of the digits. -/
theorem bigEndian_toNat {digits : Bytes} (short : digits.length ≤ 4) :
    (bigEndian digits).toNat = number digits :=
  bigEndian_foldl rfl (Nat.pow_pos (by omega)) short

/-! ## The budget -/

/-- A shape `CheckShape` takes. -/
structure InBudget (policy : Policy) (width height : Nat) : Prop extends
    Fits policy width height where
  representable : width ≤ intMax ∧ height ≤ intMax

theorem checkShape_ok {policy : Policy} {width height : UInt32} :
    checkShape policy width height = .ok () ↔ InBudget policy width.toNat height.toNat := by
  constructor
  · intro ok
    have fits : Returns (fun _ => Fits policy width.toNat height.toNat) (checkShape policy width height) :=
      returns_checkShape width height
    rw [ok] at fits
    unfold checkShape at ok
    split at ok
    · cases ok
    · next representable =>
        simp only [not_or, Nat.not_lt] at representable
        exact ⟨fits, representable.2.2⟩
  · intro within
    exact (checkShape_iff ⟨within.wide, within.representable.1⟩
      ⟨within.tall, within.representable.2⟩).mpr ⟨within.pixels, within.bgr⟩

theorem checkEncoded_ok {policy : Policy} {size : Nat} (within : size ≤ policy.encoded.val)
    (some : size ≠ 0) : checkEncoded policy size = .ok () := by
  rw [checkEncoded, if_neg (Nat.not_lt.mpr within), if_neg some]

end AIService.Image
