import AIService.Data.Base64

/-!
# The texts of `base64`

Which texts the decoder reads, which ones the encoder writes, and what the line breaks of the PEM
and MIME forms do.
-/

namespace AIService.Base64

/-! ## What the decoder accepts -/

section decoding

variable {s t : Bytes}

/-- What is left behind the last group of four. -/
theorem short_cases {chunk : Bytes} (some_ : chunk ≠ [])
    (short : ∀ c0 c1 c2 c3 rest, chunk = c0 :: c1 :: c2 :: c3 :: rest → False) :
    (∃ c0, chunk = [c0]) ∨ (∃ c0 c1, chunk = [c0, c1]) ∨ ∃ c0 c1 c2, chunk = [c0, c1, c2] := by
  rcases chunk with _ | ⟨c0, _ | ⟨c1, _ | ⟨c2, _ | ⟨c3, rest⟩⟩⟩⟩
  · exact absurd rfl some_
  · exact .inl ⟨c0, rfl⟩
  · exact .inr (.inl ⟨c0, c1, rfl⟩)
  · exact .inr (.inr ⟨c0, c1, c2, rfl⟩)
  · exact (short c0 c1 c2 c3 rest rfl).elim

/-- Decoding goes on from any boundary of four characters. -/
theorem decodeLoop_append (aligned : s.length % 4 = 0) : decodeLoop (s ++ t) =
    (do let out ← decodeLoop s
        let later ← decodeLoop t
        return out ++ later) := by
  induction s using decodeLoop.induct with
  | case1 =>
      change decodeLoop t = decodeLoop t >>= pure
      exact (bind_pure _).symm
  | case2 c0 c1 c2 c3 rest ih =>
      rw [List.length_cons, List.length_cons, List.length_cons, List.length_cons] at aligned
      simp only [List.cons_append, decodeLoop, ih (by omega), bind_assoc, pure_bind, List.append_assoc]
  | case3 chunk some_ short =>
      rcases short_cases some_ short with ⟨c0, rfl⟩ | ⟨c0, c1, rfl⟩ | ⟨c0, c1, c2, rfl⟩
      · cases aligned
      · cases aligned
      · cases aligned

theorem posOfChar_error {c : UInt8} {e : DecodeError} (failed : posOfChar c = .error e) :
    e = .invalid := by
  unfold posOfChar at failed
  split at failed
  · cases failed
  · split at failed
    · cases failed
    · split at failed
      · cases failed
      · split at failed
        · cases failed
        · split at failed
          · cases failed
          · exact (Except.error.inj failed).symm

/-- A chunk of two or more characters is refused for one of them, or gives fewer bytes than it has
characters. -/
theorem decodeChunk_cases {chunk : Bytes} (two : 2 ≤ chunk.length) :
    decodeChunk chunk = .error .invalid ∨
      ∃ out, decodeChunk chunk = .ok out ∧ 1 ≤ out.length ∧ out.length < chunk.length := by
  rcases chunk with _ | ⟨c0, _ | ⟨c1, rest⟩⟩
  · simp at two
  · simp at two
  · simp only [decodeChunk]
    cases second : posOfChar c1 with
    | error e => exact .inl (congrArg _ (posOfChar_error second))
    | ok p1 =>
        cases first : posOfChar c0 with
        | error e => exact .inl (congrArg _ (posOfChar_error first))
        | ok p0 =>
            cases rest with
            | nil => exact .inr ⟨_, rfl, by simp⟩
            | cons c2 rest =>
                by_cases data2 : isData c2 = true
                · simp only [data2]
                  cases third : posOfChar c2 with
                  | error e => exact .inl (congrArg _ (posOfChar_error third))
                  | ok p2 =>
                      cases rest with
                      | nil => exact .inr ⟨_, rfl, by simp⟩
                      | cons c3 rest =>
                          by_cases data3 : isData c3 = true
                          · simp only [data3]
                            cases fourth : posOfChar c3 with
                            | error e => exact .inl (congrArg _ (posOfChar_error fourth))
                            | ok p3 => exact .inr ⟨_, rfl, by simp⟩
                          · simp only [data3]
                            exact .inr ⟨_, rfl, by simp⟩
                · simp only [data2]
                  exact .inr ⟨_, rfl, by simp⟩

/-- The three ways a decoding ends. -/
inductive Ends (s : Bytes) : Except DecodeError Bytes → Prop
  | invalid : Ends s (.error .invalid)
  | outOfRange {out : Bytes} : s.length % 4 = 1 → decodeLoop (s.take (s.length - 1)) = .ok out →
    Ends s (.error .outOfRange)
  | ok {out : Bytes} : s.length % 4 ≠ 1 → 4 * out.length ≤ 3 * s.length → s.length ≤ 4 * out.length →
    Ends s (.ok out)

theorem Ends.of_chunk {chunk : Bytes} (two : 2 ≤ chunk.length) (four : chunk.length ≤ 4) :
    Ends chunk (decodeChunk chunk) := by
  rcases decodeChunk_cases two with refused | ⟨out, decoded, some_, fewer⟩
  · rw [refused]
    exact .invalid
  · rw [decoded]
    exact .ok (by omega) (by omega) (by omega)

theorem ends : Ends s (decodeLoop s) := by
  induction s using decodeLoop.induct with
  | case1 => exact .ok (by decide) (Nat.le_refl _) (Nat.le_refl _)
  | case2 c0 c1 c2 c3 rest ih =>
      have chunk : Ends [c0, c1, c2, c3] (decodeChunk [c0, c1, c2, c3]) := .of_chunk (by simp) (by simp)
      rw [decodeLoop]
      generalize head : decodeChunk [c0, c1, c2, c3] = r at chunk ⊢
      cases chunk with
      | invalid => exact .invalid
      | outOfRange one => simp at one
      | ok _ most least =>
          generalize tail : decodeLoop rest = r' at ih ⊢
          cases ih with
          | invalid => exact .invalid
          | outOfRange one earlier =>
              have cut : (c0 :: c1 :: c2 :: c3 :: rest).take ((c0 :: c1 :: c2 :: c3 :: rest).length - 1) =
                  c0 :: c1 :: c2 :: c3 :: rest.take (rest.length - 1) := by
                rw [show (c0 :: c1 :: c2 :: c3 :: rest).length - 1 = rest.length - 1 + 4 by
                  simp only [List.length_cons]
                  omega]
                rfl
              have through := decodeLoop_chunk head earlier
              rw [← cut] at through
              refine .outOfRange ?_ through
              simp only [List.length_cons]
              omega
          | ok other most' least' =>
              refine .ok ?_ ?_ ?_
              · simp only [List.length_cons]
                omega
              · simp only [List.length_append, List.length_cons, List.length_nil] at most ⊢
                omega
              · simp only [List.length_append, List.length_cons, List.length_nil] at least ⊢
                omega
  | case3 chunk some_ short =>
      rcases short_cases some_ short with ⟨c0, rfl⟩ | ⟨c0, c1, rfl⟩ | ⟨c0, c1, c2, rfl⟩
      · exact .outOfRange rfl rfl
      · exact .of_chunk (by simp) (by simp)
      · exact .of_chunk (by simp) (by simp)

/-- `pos_of_char` has a value for the character. -/
def Digit (c : UInt8) : Prop := ∃ p, posOfChar c = .ok p

/-- What stands at `i` goes on with its chunk. -/
def DataAt (s : Bytes) (i : Nat) : Prop := ∃ c, s[i]? = some c ∧ isData c = true

/-- `decode` looks up the value of the character at `i`. -/
def Looked (s : Bytes) (i : Nat) : Prop :=
  i % 4 < 2 ∨ DataAt s i ∧ (i % 4 = 2 ∨ DataAt s (i - 1))

theorem exists_bind_ok {ε α β : Type} {x : Except ε α} {f : α → Except ε β} :
    (∃ b, (x >>= f) = .ok b) ↔ ∃ a, x = .ok a ∧ ∃ b, f a = .ok b := by
  cases x with
  | error e =>
      constructor
      · rintro ⟨_, failed⟩
        cases failed
      · rintro ⟨_, failed, _⟩
        cases failed
  | ok a =>
      constructor
      · exact fun ran => ⟨a, rfl, ran⟩
      · rintro ⟨_, same, ran⟩
        cases same
        exact ran

theorem exists_pure {ε α : Type} {a : α} : (∃ b, (pure a : Except ε α) = .ok b) ↔ True :=
  iff_of_true ⟨a, rfl⟩ trivial

theorem decodeChunk_two {c0 c1 : UInt8} :
    (∃ out, decodeChunk [c0, c1] = .ok out) ↔ Digit c1 ∧ Digit c0 := by
  simp only [decodeChunk, exists_bind_ok, exists_pure, and_true, exists_and_right, Digit]

theorem decodeChunk_three {c0 c1 c2 : UInt8} : (∃ out, decodeChunk [c0, c1, c2] = .ok out) ↔
    Digit c1 ∧ Digit c0 ∧ (isData c2 = true → Digit c2) := by
  by_cases data2 : isData c2 = true <;>
    simp only [decodeChunk, data2, exists_bind_ok, exists_pure, and_true, exists_and_right, Digit,
      forall_const, if_true, if_false, Bool.false_eq_true, false_implies]

theorem decodeChunk_four {c0 c1 c2 c3 : UInt8} : (∃ out, decodeChunk [c0, c1, c2, c3] = .ok out) ↔
    Digit c1 ∧ Digit c0 ∧ (isData c2 = true → Digit c2 ∧ (isData c3 = true → Digit c3)) := by
  by_cases data2 : isData c2 = true <;> by_cases data3 : isData c3 = true <;>
    simp only [decodeChunk, data2, data3, exists_bind_ok, exists_pure, and_true, exists_and_right, Digit,
      forall_const, if_true, if_false, Bool.false_eq_true, false_implies]

/-- A chunk does not look at another. -/
theorem looked_cons {c0 c1 c2 c3 : UInt8} {i : Nat} :
    Looked (c0 :: c1 :: c2 :: c3 :: s) (i + 4) ↔ Looked s i := by
  unfold Looked
  rw [Nat.add_mod_right]
  cases i with
  | zero => exact iff_of_true (.inl (by decide)) (.inl (by decide))
  | succ i => exact Iff.rfl

/-- The characters that are looked at have values. -/
def Readable (s : Bytes) : Prop := ∀ i c, s[i]? = some c → Looked s i → Digit c

theorem readable_nil : Readable [] := fun _ _ absent => by cases absent

/-- The first four characters, and the rest. -/
theorem readable_cons {c0 c1 c2 c3 : UInt8} : Readable (c0 :: c1 :: c2 :: c3 :: s) ↔
    (Digit c1 ∧ Digit c0 ∧ (isData c2 = true → Digit c2 ∧ (isData c3 = true → Digit c3))) ∧
      Readable s := by
  constructor
  · intro readable
    refine ⟨⟨readable 1 c1 rfl (.inl (by decide)), readable 0 c0 rfl (.inl (by decide)), fun data2 =>
      ⟨readable 2 c2 rfl (.inr ⟨⟨c2, rfl, data2⟩, .inl rfl⟩), fun data3 =>
        readable 3 c3 rfl (.inr ⟨⟨c3, rfl, data3⟩, .inr ⟨c2, rfl, data2⟩⟩)⟩⟩, ?_⟩
    exact fun i c there looked => readable (i + 4) c there (looked_cons.mpr looked)
  · rintro ⟨⟨second, first, third⟩, rest⟩ i c there looked
    match i with
    | 0 =>
        cases there
        exact first
    | 1 =>
        cases there
        exact second
    | 2 =>
        cases there
        rcases looked with early | ⟨⟨_, same, data⟩, -⟩
        · exact absurd early (by decide)
        · cases same
          exact (third data).1
    | 3 =>
        cases there
        rcases looked with early | ⟨⟨_, same, data⟩, early | ⟨_, same', data'⟩⟩
        · exact absurd early (by decide)
        · exact absurd early (by decide)
        · cases same
          cases same'
          exact (third data').2 data
    | i + 4 => exact rest i c there (looked_cons.mp looked)

/-- A last chunk of two or three characters. -/
theorem readable_two {c0 c1 : UInt8} : Readable [c0, c1] ↔ Digit c1 ∧ Digit c0 := by
  constructor
  · exact fun readable =>
      ⟨readable 1 c1 rfl (.inl (by decide)), readable 0 c0 rfl (.inl (by decide))⟩
  · rintro ⟨second, first⟩ i c there -
    match i with
    | 0 =>
        cases there
        exact first
    | 1 =>
        cases there
        exact second
    | i + 2 => cases there

theorem readable_three {c0 c1 c2 : UInt8} : Readable [c0, c1, c2] ↔
    Digit c1 ∧ Digit c0 ∧ (isData c2 = true → Digit c2) := by
  constructor
  · intro readable
    exact ⟨readable 1 c1 rfl (.inl (by decide)), readable 0 c0 rfl (.inl (by decide)), fun data2 =>
      readable 2 c2 rfl (.inr ⟨⟨c2, rfl, data2⟩, .inl rfl⟩)⟩
  · rintro ⟨second, first, third⟩ i c there looked
    match i with
    | 0 =>
        cases there
        exact first
    | 1 =>
        cases there
        exact second
    | 2 =>
        cases there
        rcases looked with early | ⟨⟨_, same, data⟩, -⟩
        · exact absurd early (by decide)
        · cases same
          exact third data
    | i + 3 => cases there

theorem decodeLoop_ok_iff :
    (∃ out, decodeLoop s = .ok out) ↔ s.length % 4 ≠ 1 ∧ Readable s := by
  induction s using decodeLoop.induct with
  | case1 => exact iff_of_true ⟨_, rfl⟩ ⟨by decide, readable_nil⟩
  | case2 c0 c1 c2 c3 rest ih =>
      have size : (c0 :: c1 :: c2 :: c3 :: rest).length % 4 = rest.length % 4 := Nat.add_mod_right _ 4
      simp only [decodeLoop, exists_bind_ok, exists_pure, and_true, exists_and_right, decodeChunk_four,
        ih, readable_cons, size]
      tauto
  | case3 chunk some_ short =>
      rcases short_cases some_ short with ⟨c0, rfl⟩ | ⟨c0, c1, rfl⟩ | ⟨c0, c1, c2, rfl⟩
      · refine iff_of_false ?_ fun odd => odd.1 rfl
        rintro ⟨out, failed⟩
        cases failed
      · exact decodeChunk_two.trans (readable_two.symm.trans (iff_and_self.mpr fun _ => by simp))
      · exact decodeChunk_three.trans (readable_three.symm.trans (iff_and_self.mpr fun _ => by simp))

theorem base64Decode_eq : base64Decode s false = decodeLoop s := by
  rw [base64Decode]
  split
  · next nothing =>
      rw [List.isEmpty_iff.mp nothing]
      rfl
  · exact if_neg Bool.false_ne_true

/-- The text is read exactly when each character that is looked at has a value and the last chunk
is not a single character; that single character is what `at` throws for.  Texts whose length is
a multiple of four decode piece by piece. -/
theorem base64_decode (s : Bytes) :
    ((∃ out, base64Decode s false = .ok out) ↔ s.length % 4 ≠ 1 ∧ Readable s) ∧
    (∀ out, base64Decode s false = .ok out →
      s.length ≤ 4 * out.length ∧ 4 * out.length ≤ 3 * s.length) ∧
    (base64Decode s false = .error .outOfRange ↔
      s.length % 4 = 1 ∧ ∃ out, base64Decode (s.take (s.length - 1)) false = .ok out) ∧
    ∀ t, s.length % 4 = 0 → base64Decode (s ++ t) false =
      (do let out ← base64Decode s false
          let later ← base64Decode t false
          return out ++ later) := by
  simp only [base64Decode_eq]
  have ended : Ends s (decodeLoop s) := ends
  refine ⟨decodeLoop_ok_iff, fun out decoded => ?_, ⟨fun failed => ?_, ?_⟩, fun t aligned =>
    decodeLoop_append aligned⟩
  · rw [decoded] at ended
    cases ended with
    | ok _ most least => exact ⟨least, most⟩
  · rw [failed] at ended
    cases ended with
    | outOfRange one earlier => exact ⟨one, _, earlier⟩
  · rintro ⟨one, out, earlier⟩
    have some_ : s ≠ [] := fun nothing => by
      rw [nothing] at one
      cases one
    have cut : s = s.take (s.length - 1) ++ [s.getLast some_] := by
      rw [← List.dropLast_eq_take, List.dropLast_append_getLast some_]
    have aligned : (s.take (s.length - 1)).length % 4 = 0 := by
      rw [List.length_take]
      omega
    rw [cut, decodeLoop_append aligned, earlier]
    rfl

end decoding

/-! ## The texts the encoder writes -/

section canonical

variable {url : Bool} {s t : Bytes}

/-- One alphabet, padding only where the last group is short, and no bits behind its bytes. -/
inductive Canonical (url : Bool) : Bytes → Prop
  | nil : Canonical url []
  | one {c0 c1 p1 : UInt8} : c0 ∈ base64Chars url → c1 ∈ base64Chars url → posOfChar c1 = .ok p1 →
    p1.toNat % 16 = 0 → Canonical url [c0, c1, trailingChar url, trailingChar url]
  | two {c0 c1 c2 p2 : UInt8} : c0 ∈ base64Chars url → c1 ∈ base64Chars url → c2 ∈ base64Chars url →
    posOfChar c2 = .ok p2 → p2.toNat % 4 = 0 → Canonical url [c0, c1, c2, trailingChar url]
  | more {c0 c1 c2 c3 : UInt8} {rest : Bytes} : c0 ∈ base64Chars url → c1 ∈ base64Chars url →
    c2 ∈ base64Chars url → c3 ∈ base64Chars url → Canonical url rest →
    Canonical url (c0 :: c1 :: c2 :: c3 :: rest)

theorem canonical_encodeGroups : Canonical url (encodeGroups url s) := by
  have group (a b c : UInt8) := sextets a b c
  induction s using encodeGroups.induct with
  | case1 => exact .nil
  | case2 a =>
      rw [encodeGroups, encodeGroup_one]
      refine .one (charAt_mem url (group a 0 0).first) (charAt_mem url (group a 0 0).second)
        (posOfChar_charAt url (group a 0 0).second) ?_
      rw [UInt8.toNat_add, (masks a).low, (masks 0).upper, UInt8.toNat_zero]
      have small := a.toNat_lt
      omega
  | case3 a b =>
      rw [encodeGroups, encodeGroup_two]
      refine .two (charAt_mem url (group a b 0).first) (charAt_mem url (group a b 0).second)
        (charAt_mem url (group a b 0).third) (posOfChar_charAt url (group a b 0).third) ?_
      rw [UInt8.toNat_add, (masks b).lower, (masks 0).top, UInt8.toNat_zero]
      have small := b.toNat_lt
      omega
  | case4 a b c rest ih =>
      exact .more (charAt_mem url (group a b c).first) (charAt_mem url (group a b c).second)
        (charAt_mem url (group a b c).third) (charAt_mem url (group a b c).fourth) ih

/-- A character of the alphabet is the one at its own value. -/
theorem exists_digit {c : UInt8} (member : c ∈ base64Chars url) :
    ∃ p : UInt8, p.toNat < 64 ∧ posOfChar c = .ok p ∧ charAt url p = c := by
  have each : ∀ c ∈ base64Chars url, ∃ n : Fin 64, posOfChar c = .ok n.val.toUInt8 ∧
      charAt url n.val.toUInt8 = c := by
    cases url <;> decide +kernel
  obtain ⟨n, value, back⟩ := each c member
  exact ⟨n.val.toUInt8, by simp; omega, value, back⟩

/-- The bits of four values, taken from the three bytes they give. -/
theorem regroup {p0 p1 p2 p3 : UInt8} (s0 : p0.toNat < 64) (s1 : p1.toNat < 64) (s2 : p2.toNat < 64)
    (s3 : p3.toNat < 64) :
    let b0 := (p0 <<< 2) + ((p1 &&& 0x30) >>> 4)
    let b1 := ((p1 &&& 0x0f) <<< 4) + ((p2 &&& 0x3c) >>> 2)
    let b2 := ((p2 &&& 0x03) <<< 6) + p3
    (b0 &&& 0xfc) >>> 2 = p0 ∧ ((b0 &&& 0x03) <<< 4) + ((b1 &&& 0xf0) >>> 4) = p1 ∧
      ((b1 &&& 0x0f) <<< 2) + ((b2 &&& 0xc0) >>> 6) = p2 ∧ b2 &&& 0x3f = p3 := by
  intro b0 b1 b2
  have n0 : b0.toNat = p0.toNat * 4 + p1.toNat / 16 := by
    rw [UInt8.toNat_add, (masks p0).raised, (masks p1).middle]
    omega
  have n1 : b1.toNat = p1.toNat % 16 * 16 + p2.toNat / 4 := by
    rw [UInt8.toNat_add, (masks p1).carried, (masks p2).inner]
    omega
  have n2 : b2.toNat = p2.toNat % 4 * 64 + p3.toNat := by
    rw [UInt8.toNat_add, (masks p2).bottom]
    omega
  refine ⟨UInt8.toNat_inj.mp ?_, UInt8.toNat_inj.mp ?_, UInt8.toNat_inj.mp ?_, UInt8.toNat_inj.mp ?_⟩
  · rw [(masks b0).high, n0]
    omega
  · rw [UInt8.toNat_add, (masks b0).low, (masks b1).upper, n0, n1]
    omega
  · rw [UInt8.toNat_add, (masks b1).lower, (masks b2).top, n1, n2]
    omega
  · rw [(masks b2).rest, n2]
    omega

theorem exists_of_canonical (canonical : Canonical url t) : ∃ s, encodeGroups url s = t := by
  have zero : (0 : UInt8).toNat < 64 := by decide
  induction canonical with
  | nil => exact ⟨[], rfl⟩
  | one first second value clear =>
      obtain ⟨p0, s0, -, rfl⟩ := exists_digit first
      obtain ⟨p1, s1, value', rfl⟩ := exists_digit second
      rw [Except.ok.inj (value.symm.trans value')] at clear
      have low : (p1 &&& 0x0f) <<< 4 = 0 := by
        apply UInt8.toNat_inj.mp
        rw [(masks p1).carried, clear, UInt8.toNat_zero]
      obtain ⟨b0, b1, -, -⟩ := regroup s0 s1 zero zero
      refine ⟨[(p0 <<< 2) + ((p1 &&& 0x30) >>> 4)], ?_⟩
      rw [low] at b1
      rw [encodeGroups, encodeGroup_one, b0]
      exact congrArg _ (congrArg (fun c => charAt url c :: _) b1)
  | two first second third value clear =>
      obtain ⟨p0, s0, -, rfl⟩ := exists_digit first
      obtain ⟨p1, s1, -, rfl⟩ := exists_digit second
      obtain ⟨p2, s2, value', rfl⟩ := exists_digit third
      rw [Except.ok.inj (value.symm.trans value')] at clear
      have low : (p2 &&& 0x03) <<< 6 = 0 := by
        apply UInt8.toNat_inj.mp
        rw [(masks p2).bottom, clear, UInt8.toNat_zero]
      obtain ⟨b0, b1, b2, -⟩ := regroup s0 s1 s2 zero
      refine ⟨[(p0 <<< 2) + ((p1 &&& 0x30) >>> 4), ((p1 &&& 0x0f) <<< 4) + ((p2 &&& 0x3c) >>> 2)], ?_⟩
      rw [low] at b2
      rw [encodeGroups, encodeGroup_two, b0, b1]
      exact congrArg (fun c => _ :: _ :: charAt url c :: _) b2
  | more first second third fourth _ ih =>
      obtain ⟨p0, s0, -, rfl⟩ := exists_digit first
      obtain ⟨p1, s1, -, rfl⟩ := exists_digit second
      obtain ⟨p2, s2, -, rfl⟩ := exists_digit third
      obtain ⟨p3, s3, -, rfl⟩ := exists_digit fourth
      obtain ⟨s, rfl⟩ := ih
      obtain ⟨b0, b1, b2, b3⟩ := regroup s0 s1 s2 s3
      refine ⟨[(p0 <<< 2) + ((p1 &&& 0x30) >>> 4), ((p1 &&& 0x0f) <<< 4) + ((p2 &&& 0x3c) >>> 2),
        ((p2 &&& 0x03) <<< 6) + p3] ++ s, ?_⟩
      change encodeGroups url (_ :: _ :: _ :: s) = _
      rw [encodeGroups, encodeGroup, b0, b1, b2, b3]
      rfl

/-- The encoder writes the canonical texts within its reach and no others; on a canonical text it
undoes the decoder. -/
theorem base64_canonical (url : Bool) (t : Bytes) :
    ((∃ fuel s, base64Encode fuel s url = some t) ↔ Canonical url t ∧ t.length ≤ 5726623060) ∧
    (Canonical url t → ∃ s, base64Decode t false = .ok s ∧
      ∀ fuel text, base64Encode fuel s url = some text → text = t) := by
  constructor
  · constructor
    · rintro ⟨fuel, s, encoded⟩
      obtain ⟨small, rfl⟩ := base64Encode_some encoded
      refine ⟨canonical_encodeGroups, ?_⟩
      rw [length_encodeGroups]
      omega
    · rintro ⟨canonical, short⟩
      obtain ⟨s, rfl⟩ := exists_of_canonical canonical
      rw [length_encodeGroups] at short
      refine ⟨s.length + 1, s, ?_⟩
      rw [base64Encode_eq (by omega), if_pos (by omega)]
  · intro canonical
    obtain ⟨s, rfl⟩ := exists_of_canonical canonical
    exact ⟨s, base64Decode_encodeGroups false, fun fuel text encoded => (base64Encode_some encoded).2⟩

end canonical

/-! ## Lines -/

section lines

variable {s : Bytes}

/-- The loop ends after one turn for each line. -/
theorem breakLoop_eq {distance fuel : Nat} {pre rest : Bytes} (wide : 0 < distance) :
    breakLoop distance fuel (pre.length + distance) (pre ++ rest) =
      if 0 < fuel ∧ rest.length ≤ distance * fuel then some (pre ++ wrap 10 distance rest) else none := by
  induction fuel generalizing pre rest with
  | zero => rfl
  | succ fuel ih =>
      rw [breakLoop, wrap_eq wide, List.length_append]
      split
      · next more =>
          have long : distance < rest.length := by omega
          have before : (pre ++ rest).take (pre.length + distance) = pre ++ rest.take distance := by
            rw [List.take_append, List.take_of_length_le (by omega), Nat.add_sub_cancel_left]
          have after : (pre ++ rest).drop (pre.length + distance) = rest.drop distance := by
            rw [List.drop_append, List.drop_eq_nil_iff.mpr (by omega), Nat.add_sub_cancel_left,
              List.nil_append]
          have next : pre.length + distance + (distance + 1) =
              (pre ++ rest.take distance ++ [10]).length + distance := by
            simp only [List.length_append, List.length_take, List.length_singleton]
            omega
          have shape : pre ++ rest.take distance ++ 10 :: rest.drop distance =
              pre ++ rest.take distance ++ [10] ++ rest.drop distance := by simp
          rw [before, after, next, shape, ih, if_pos long, List.length_drop, Nat.mul_succ]
          refine if_congr ?_ (by simp) rfl
          rcases Nat.eq_zero_or_pos fuel with rfl | turns
          · simp only [Nat.mul_zero, Nat.lt_irrefl, false_and, Nat.zero_add, Nat.lt_one_iff, true_and,
              false_iff]
            omega
          · omega
      · next short =>
          have one : ¬ distance < rest.length := by omega
          have turns : rest.length ≤ distance * (fuel + 1) :=
            Nat.le_trans (Nat.not_lt.mp one) (Nat.le_mul_of_pos_right _ (Nat.succ_pos _))
          rw [if_neg one, if_pos ⟨Nat.succ_pos _, turns⟩]

theorem insertLinebreaks_eq {fuel distance : Nat} (wide : 0 < distance) :
    insertLinebreaks fuel s distance =
      if s.length = 0 ∨ 0 < fuel ∧ s.length ≤ distance * fuel then some (wrap 10 distance s) else none := by
  rw [insertLinebreaks]
  by_cases nothing : s.length = 0
  · rw [if_pos nothing, if_pos (.inl nothing), List.length_eq_zero_iff.mp nothing, wrap, wrapFrom_nil]
  · have looped : breakLoop distance fuel (([] : Bytes).length + distance) ([] ++ s) = _ :=
      breakLoop_eq wide
    rw [List.length_nil, Nat.zero_add] at looped
    rw [if_neg nothing]
    exact looped.trans (if_congr (or_iff_right nothing).symm rfl rfl)

/-- What a width means for a text of lines. -/
structure Lined (width : Nat) (s text : Bytes) : Prop where
  newline (i : Nat) : text[i]? = some 10 ↔ i < text.length ∧ i % (width + 1) = width
  last : text.getLast? ≠ some 10
  decoded : base64Decode text true = .ok s
  undecoded : base64Decode text false =
    if (s.length + 2) / 3 * 4 ≤ width then .ok s else .error .invalid

theorem take_encodeGroups {url : Bool} {k : Nat} :
    (encodeGroups url s).take (4 * k) = encodeGroups url (s.take (3 * k)) := by
  induction k generalizing s with
  | zero => rfl
  | succ k ih =>
      rcases s with _ | ⟨a, _ | ⟨b, _ | ⟨c, rest⟩⟩⟩
      · rfl
      · simp [encodeGroups, encodeGroup, Nat.mul_succ]
      · simp [encodeGroups, encodeGroup, Nat.mul_succ]
      · simp [encodeGroups, encodeGroup, Nat.mul_succ, ih]

theorem drop_encodeGroups {url : Bool} {k : Nat} :
    (encodeGroups url s).drop (4 * k) = encodeGroups url (s.drop (3 * k)) := by
  induction k generalizing s with
  | zero => rfl
  | succ k ih =>
      rcases s with _ | ⟨a, _ | ⟨b, _ | ⟨c, rest⟩⟩⟩
      · rfl
      · simp [encodeGroups, encodeGroup, Nat.mul_succ]
      · simp [encodeGroups, encodeGroup, Nat.mul_succ]
      · simp [encodeGroups, encodeGroup, Nat.mul_succ, ih]

/-- The first character of a chunk is a newline. -/
theorem decodeChunk_newline {c1 : UInt8} {rest : Bytes} :
    decodeChunk (10 :: c1 :: rest) = .error .invalid := by
  simp only [decodeChunk]
  cases second : posOfChar c1 with
  | error e => exact congrArg _ (posOfChar_error second)
  | ok p1 => rfl

theorem decodeLoop_newline {text : Bytes} {width : Nat} (long : 4 ≤ text.length) (wide : 4 ≤ width) :
    decodeLoop (10 :: wrap 10 width text) = .error .invalid := by
  obtain ⟨room, rfl⟩ := Nat.exists_eq_add_of_le' wide
  match text with
  | [] | [_] | [_, _] | [_, _, _] => simp at long
  | c0 :: c1 :: c2 :: c3 :: rest =>
      rw [wrap, wrapFrom, wrapFrom, wrapFrom, decodeLoop, decodeChunk_newline]
      rfl

theorem lined {width k : Nat} (quads : width = 4 * k) (wide : 0 < k) :
    Lined width s (wrap 10 width (encodeGroups false s)) := by
  have positive : 0 < width := by omega
  have plain : (10 : UInt8) ∉ encodeGroups false s := newline_not_mem
  have stripped : (wrap 10 width (encodeGroups false s)).filter (· ≠ 10) = encodeGroups false s :=
    filter_wrapFrom plain
  have decoded : decodeLoop (encodeGroups false s) = .ok s := decodeLoop_encodeGroups
  refine ⟨fun i => ?_, fun last => ?_, ?_, ?_⟩
  · rw [wrap, getElem?_wrapFrom positive plain (Nat.le_refl _), Nat.sub_self, Nat.add_zero]
  · rw [wrap, getLast?_wrapFrom] at last
    exact plain (List.mem_of_getLast? last)
  · rw [base64Decode]
    split
    · next nothing =>
        rw [List.isEmpty_iff.mp nothing, List.filter_nil] at stripped
        rw [← stripped] at decoded
        exact decoded
    · rw [if_pos rfl, stripped, decoded]
  · rw [base64Decode_eq, wrap_eq positive, length_encodeGroups]
    split
    · next more =>
        have aligned : (encodeGroups false (s.take (3 * k))).length % 4 = 0 := by
          rw [length_encodeGroups]
          exact Nat.mul_mod_left _ _
        have later : 4 ≤ (encodeGroups false (s.drop (3 * k))).length := by
          rw [length_encodeGroups, List.length_drop]
          omega
        rw [if_neg (Nat.not_le.mpr more), quads, take_encodeGroups, drop_encodeGroups,
          decodeLoop_append aligned, decodeLoop_encodeGroups, decodeLoop_newline later (by omega)]
        rfl
    · next short => rw [if_pos (Nat.not_lt.mp short), decoded]

theorem encodeWithLineBreaks_some {width k fuel : Nat} {text : Bytes} (quads : width = 4 * k)
    (wide : 0 < k) (written : encodeWithLineBreaks width fuel s = some text) :
    s.length < 2 ^ 32 ∧ Lined width s text := by
  obtain ⟨encoded, ran, broken⟩ := Option.bind_eq_some_iff.mp written
  obtain ⟨small, rfl⟩ := base64Encode_some ran
  rw [insertLinebreaks_eq (by omega)] at broken
  split at broken
  · cases broken
    exact ⟨small, lined quads wide⟩
  · cases broken

theorem encodeWithLineBreaks_returns {width : Nat} (wide : 4 ≤ width) (small : s.length < 2 ^ 32) :
    ∃ fuel text, encodeWithLineBreaks width fuel s = some text := by
  have enough : (encodeGroups false s).length ≤ width * (s.length + 1) := by
    rw [length_encodeGroups]
    calc (s.length + 2) / 3 * 4 ≤ (s.length + 1) * 4 := by omega
      _ ≤ (s.length + 1) * width := Nat.mul_le_mul_left _ wide
      _ = width * (s.length + 1) := Nat.mul_comm _ _
  refine ⟨s.length + 1, wrap 10 width (encodeGroups false s), ?_⟩
  rw [encodeWithLineBreaks, base64Encode_eq small, if_pos (by omega)]
  change insertLinebreaks (s.length + 1) (encodeGroups false s) width = _
  rw [insertLinebreaks_eq (by omega), if_pos (.inr ⟨Nat.succ_pos _, enough⟩)]

/-- The two forms with lines of 64 and 76 characters: a newline stands behind each full line and
nowhere else, `remove_linebreaks` gives the bytes back, and without it the first newline is refused. -/
theorem base64_lines (s : Bytes) :
    ((∃ fuel text, base64EncodePem fuel s = some text) ↔ s.length < 2 ^ 32) ∧
    (∀ fuel text, base64EncodePem fuel s = some text → Lined 64 s text) ∧
    ((∃ fuel text, base64EncodeMime fuel s = some text) ↔ s.length < 2 ^ 32) ∧
    ∀ fuel text, base64EncodeMime fuel s = some text → Lined 76 s text :=
  ⟨⟨fun ⟨_, _, written⟩ => (encodeWithLineBreaks_some (k := 16) rfl (by decide) written).1,
      encodeWithLineBreaks_returns (by decide)⟩,
    fun _ _ written => (encodeWithLineBreaks_some (k := 16) rfl (by decide) written).2,
    ⟨fun ⟨_, _, written⟩ => (encodeWithLineBreaks_some (k := 19) rfl (by decide) written).1,
      encodeWithLineBreaks_returns (by decide)⟩,
    fun _ _ written => (encodeWithLineBreaks_some (k := 19) rfl (by decide) written).2⟩

end lines

end AIService.Base64
