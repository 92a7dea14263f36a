import AIService.Accounts.Password
import AIService.Data.View

/-!
# The stored form of a password

`Stored` says what a stored string looks like, and `verify_iff` that `verify` takes these and no
others.  `verifyAt` is `verify` with its views and reads as the code has them: it comes to the
same answer without leaving the string.
-/

namespace AIService.Accounts

/-! ## The format -/

/-- A row of `n` lower-case hexadecimal digits. -/
def IsHexText (n : Nat) (text : Bytes) : Prop :=
  text.length = n ∧ ∀ b ∈ text, (48 ≤ b ∧ b ≤ 57) ∨ (97 ≤ b ∧ b ≤ 102)

/-- A stored string with this cost, salt and key. -/
inductive Stored (cost : Nat) (salt : Salt) (key : Key) : Bytes → Prop
  | mk {costText saltText keyText : Bytes} : costText ≠ [] → (∀ b ∈ costText, 48 ≤ b ∧ b ≤ 57) →
    digitsValue costText = cost → 100000 ≤ cost → cost ≤ 2000000 →
    IsHexText 32 saltText → saltText = hex salt.val → IsHexText 64 keyText → keyText = hex key.val →
    Stored cost salt key
      (hashPrefix ++ (costText ++ dollar :: (saltText ++ dollar :: keyText)))

/-- The digit that a byte is read as is written as that byte. -/
theorem digit_spec : ∀ b : UInt8, ∀ d ∈ digit b, d < 16 ∧ hexDigit d = b :=
  forall_byte (by decide +kernel)

theorem hexDigit_spec : ∀ d : UInt8, d < 16 →
    (48 ≤ hexDigit d ∧ hexDigit d ≤ 57) ∨ (97 ≤ hexDigit d ∧ hexDigit d ≤ 102) :=
  forall_byte (by decide +kernel)

/-- Two digits are the halves of the byte they make. -/
theorem nibbles_spec (high low : UInt8) (high_small : high < 16) (low_small : low < 16) :
    (high <<< 4 ||| low) >>> 4 = high ∧ (high <<< 4 ||| low) &&& 15 = low := by
  have each : ∀ high : Nat, high < 16 → ∀ low : Nat, low < 16 →
      (high.toUInt8 <<< 4 ||| low.toUInt8) >>> 4 = high.toUInt8 ∧
        (high.toUInt8 <<< 4 ||| low.toUInt8) &&& 15 = low.toUInt8 := by
    decide +kernel
  have back (b : UInt8) : b.toNat.toUInt8 = b := UInt8.ofNat_toNat
  have here := each high.toNat (UInt8.lt_iff_toNat_lt.mp high_small) low.toNat
    (UInt8.lt_iff_toNat_lt.mp low_small)
  rwa [back, back] at here

theorem hex_cons (byte : UInt8) (block : Bytes) :
    hex (byte :: block) = hexDigit (byte >>> 4) :: hexDigit (byte &&& 15) :: hex block := rfl

theorem hex_isHexText (block : Bytes) : IsHexText (block.length * 2) (hex block) := by
  refine ⟨hex_length block, fun b member => ?_⟩
  obtain ⟨byte, -, inside⟩ := List.mem_flatMap.mp member
  obtain ⟨high, low, -⟩ := byte_spec byte
  rcases List.mem_cons.mp inside with rfl | inside
  · exact hexDigit_spec _ (digit_spec _ _ high).1
  · rw [List.mem_singleton.mp inside]
    exact hexDigit_spec _ (digit_spec _ _ low).1

theorem unhexPairs_eq_some {text block : Bytes} : unhexPairs text = some block ↔ text = hex block := by
  constructor
  · intro read
    induction text using unhexPairs.induct generalizing block with
    | case1 =>
        cases read
        rfl
    | case2 => cases read
    | case3 high low rest ih =>
        rw [unhexPairs] at read
        obtain ⟨h, high_read, read⟩ := Option.bind_eq_some_iff.mp read
        obtain ⟨l, low_read, read⟩ := Option.bind_eq_some_iff.mp read
        obtain ⟨later, rest_read, read⟩ := Option.bind_eq_some_iff.mp read
        cases read
        obtain ⟨h_small, h_eq⟩ := digit_spec _ _ high_read
        obtain ⟨l_small, l_eq⟩ := digit_spec _ _ low_read
        obtain ⟨first, second⟩ := nibbles_spec h l h_small l_small
        rw [hex_cons, first, second, h_eq, l_eq, ← ih rest_read]
  · rintro rfl
    exact unhexPairs_hex block

theorem unhex_eq_some {n : Nat} {text : Bytes} {block : Block n} :
    unhex n text = some block ↔ text = hex block.val := by
  constructor
  · intro read
    unfold unhex at read
    split at read
    · cases read
    · obtain ⟨block', pairs, sized⟩ := Option.bind_eq_some_iff.mp read
      split at sized
      · cases sized
        exact unhexPairs_eq_some.mp pairs
      · cases sized
  · rintro rfl
    exact unhex_hex block

theorem fromChars_minus (row : Bytes) : fromChars (45 :: row) =
    if row = [] ∨ row.takeWhile isDigit ≠ row ∨ -(digitsValue row : Int) < -2147483648 ∨
      2147483647 < -(digitsValue row : Int) then none else some (-(digitsValue row : Int)) := rfl

theorem fromChars_plain {row : Bytes} (plain : ∀ rest, row ≠ 45 :: rest) : fromChars row =
    if row = [] ∨ row.takeWhile isDigit ≠ row ∨ (digitsValue row : Int) < -2147483648 ∨
      2147483647 < (digitsValue row : Int) then none else some (digitsValue row : Int) := by
  unfold fromChars
  split
  · next signed =>
      split at signed
      · next rest => exact absurd rfl (plain rest)
      · obtain ⟨rfl, rfl⟩ := Prod.mk.inj signed
        rfl

theorem takeWhile_digits_iff {row : Bytes} :
    row.takeWhile isDigit = row ↔ ∀ b ∈ row, 48 ≤ b ∧ b ≤ 57 := by
  rw [List.takeWhile_eq_self_iff]
  exact forall_congr' fun b => by simp [isDigit]

/-- A positive number was written without a sign. -/
theorem fromChars_eq_some {text : Bytes} {n : Nat} (positive : 0 < n) (small : n ≤ 2147483647) :
    fromChars text = some (n : Int) ↔
      text ≠ [] ∧ (∀ b ∈ text, 48 ≤ b ∧ b ≤ 57) ∧ digitsValue text = n := by
  by_cases minus : ∃ row, text = 45 :: row
  · obtain ⟨row, rfl⟩ := minus
    rw [fromChars_minus]
    constructor
    · intro read
      split at read
      · cases read
      · have eq := Option.some.inj read
        omega
    · rintro ⟨-, digits, -⟩
      exact absurd (digits 45 List.mem_cons_self).1 (by decide)
  · rw [fromChars_plain fun rest same => minus ⟨rest, same⟩]
    constructor
    · intro read
      split at read
      · cases read
      · next fine =>
          simp only [not_or, Classical.not_not] at fine
          exact ⟨fine.1, takeWhile_digits_iff.mp fine.2.1, Int.ofNat.inj (Option.some.inj read)⟩
    · rintro ⟨nonempty, digits, rfl⟩
      rw [if_neg]
      simp only [not_or, Classical.not_not]
      exact ⟨nonempty, takeWhile_digits_iff.mpr digits, by omega, by omega⟩

/-! ## What is accepted -/

section accepted

variable {kdf : Pbkdf2} {password : Bytes}

theorem derive_of_short (short : password.length ≤ 2147483647) (salt : Salt) (cost : Nat) :
    derive kdf password salt cost = kdf password salt cost := if_neg (Nat.not_lt.mpr short)

theorem dollar_not_mem_digits {row : Bytes} (digits : ∀ b ∈ row, 48 ≤ b ∧ b ≤ 57) : dollar ∉ row :=
  fun member => absurd (digits dollar member).1 (by decide)

/-- The turns of `verify` on a string of the format. -/
theorem verify_of_stored {cost : Nat} {salt : Salt} {key : Key} {s : Bytes} (stored : Stored cost salt key s) :
    verify kdf password s = decide (derive kdf password salt cost = some key) := by
  obtain ⟨nonempty, rows, value, low, high, -, rfl, -, rfl⟩ := stored
  next costText =>
  have starts : isHash (hashPrefix ++ (costText ++ dollar :: (hex salt.val ++ dollar :: hex key.val))) = true :=
    List.isPrefixOf_iff_prefix.mpr (List.prefix_append _ _)
  have number : fromChars costText = some (cost : Int) :=
    (fromChars_eq_some (by omega) (by omega)).mpr ⟨nonempty, rows, value⟩
  rw [verify, starts, List.drop_left, cut_append (dollar_not_mem_digits rows)]
  simp only [Bool.not_true, Bool.false_eq_true, if_false, number]
  rw [if_neg (by omega), cut_append (dollar_not_mem_hex _)]
  simp only [unhex_hex]
  rfl

theorem isHash_of_verify {s : Bytes} (accepted : verify kdf password s = true) : isHash s = true := by
  unfold verify at accepted
  split at accepted
  · cases accepted
  · next starts => simpa using starts

theorem stored_of_verify {s : Bytes} (accepted : verify kdf password s = true) :
    ∃ cost salt key, Stored cost salt key s ∧ derive kdf password salt cost = some key := by
  unfold verify at accepted
  split at accepted
  · cases accepted
  next starts =>
  obtain ⟨text, rfl⟩ : hashPrefix <+: s := by simpa [isHash] using starts
  rw [List.drop_left] at accepted
  cases first : cut dollar text with
  | none => simp [first] at accepted
  | some parts =>
  obtain ⟨costText, rest⟩ := parts
  obtain ⟨rfl, -⟩ := eq_of_cut first
  simp only [first] at accepted
  cases number : fromChars costText with
  | none => simp [number] at accepted
  | some cost =>
  simp only [number] at accepted
  split at accepted
  · cases accepted
  next range =>
  simp only [not_or, Int.not_lt] at range
  cases second : cut dollar rest with
  | none => simp [second] at accepted
  | some parts =>
  obtain ⟨saltText, keyText⟩ := parts
  obtain ⟨rfl, -⟩ := eq_of_cut second
  simp only [second] at accepted
  cases saltRead : unhex 16 saltText with
  | none => simp [saltRead] at accepted
  | some salt =>
  simp only [saltRead] at accepted
  cases keyRead : unhex 32 keyText with
  | none => simp [keyRead] at accepted
  | some key =>
  simp only [keyRead] at accepted
  have natural : cost = (cost.toNat : Int) := (Int.toNat_of_nonneg (by omega)).symm
  rw [natural] at number
  obtain ⟨nonempty, rows, value⟩ := (fromChars_eq_some (by omega) (by omega)).mp number
  have saltText_eq := unhex_eq_some.mp saltRead
  have keyText_eq := unhex_eq_some.mp keyRead
  refine ⟨cost.toNat, salt, key, .mk nonempty rows value (by omega) (by omega) ?_ saltText_eq ?_ keyText_eq,
    of_decide_eq_true accepted⟩
  · rw [saltText_eq]
    have text := hex_isHexText salt.val
    rwa [salt.property] at text
  · rw [keyText_eq]
    have text := hex_isHexText key.val
    rwa [key.property] at text

/-- `verify` accepts the strings of the format whose key is the password's, and no others. -/
theorem verify_iff (short : password.length ≤ 2147483647) (s : Bytes) : verify kdf password s = true ↔
    ∃ cost salt key, Stored cost salt key s ∧ kdf password salt cost = some key := by
  constructor
  · intro accepted
    obtain ⟨cost, salt, key, stored, derived⟩ := stored_of_verify accepted
    exact ⟨cost, salt, key, stored, derive_eq_some derived⟩
  · rintro ⟨cost, salt, key, stored, derived⟩
    rw [verify_of_stored stored, derive_of_short short]
    exact decide_eq_true derived

/-- What `hash` makes is of the format. -/
theorem stored_hash {salt : Salt} {key : Key} :
    Stored iterations salt key (hashPrefix ++ (digits iterations ++ dollar :: (hex salt.val ++ dollar :: hex key.val))) := by
  obtain ⟨nonempty, rows, value⟩ := digits_spec iterations
  have saltText := hex_isHexText salt.val
  have keyText := hex_isHexText key.val
  rw [salt.property] at saltText
  rw [key.property] at keyText
  exact .mk nonempty rows value (by decide) (by decide) saltText rfl keyText rfl

end accepted

/-! ## Views and reads -/

/-- `encoded.compare(0, prefix.size(), prefix) == 0` from the byte `i` on. -/
def comparesEqual (encoded : Bytes) : Bytes → Nat → Except ViewFault Bool
  | [], _ => .ok true
  | b :: rest, i =>
      if i < encoded.length then
        match encoded[i]? with
        | some c => if c = b then comparesEqual encoded rest (i + 1) else .ok false
        | none => .error .outside
      else .ok false

/-- The loop of `unhex` from the byte `i` on. -/
def unhexFrom (s : Bytes) (input : View) : Nat → Nat → Except ViewFault (Option Bytes)
  | 0, _ => .ok (some [])
  | left + 1, i =>
      (input.read s (2 * i)).bind fun high => (input.read s (2 * i + 1)).bind fun low =>
        match digit high, digit low with
        | some high, some low =>
            (unhexFrom s input left (i + 1)).map fun later => later.map ((high <<< 4 ||| low) :: ·)
        | _, _ => .ok none

def unhexAt (n : Nat) (s : Bytes) (input : View) : Except ViewFault (Option (Block n)) :=
  if input.length ≠ n * 2 then .ok none
  else (unhexFrom s input n 0).map fun read => read.bind fun block =>
    if size : block.length = n then some ⟨block, size⟩ else none

/-- `verify`, with the views into `encoded` and every read of them. -/
def verifyAt (kdf : Pbkdf2) (password encoded : Bytes) : Except ViewFault Bool := do
  if !(← comparesEqual encoded hashPrefix 0) then return false
  let rest ← View.make encoded hashPrefix.length (sizeSub encoded.length hashPrefix.length)
  match ← rest.find encoded dollar with
  | none => return false
  | some separator =>
      match ← rest.fromChars encoded separator with
      | (none, _) => return false
      | (some cost, ptr) =>
          if ptr ≠ separator ∨ cost < 100000 ∨ 2000000 < cost then return false
          let rest ← rest.removePrefix (separator + 1)
          match ← rest.find encoded dollar with
          | none => return false
          | some separator =>
              match ← unhexAt 16 encoded (← rest.substr 0 (some separator)) with
              | none => return false
              | some salt =>
                  match ← unhexAt 32 encoded (← rest.substr (separator + 1) none) with
                  | none => return false
                  | some expected => return derive kdf password salt cost.toNat = some expected

/-! ## No read leaves the string -/

theorem comparesEqual_eq (before pattern text : Bytes) :
    comparesEqual (before ++ text) pattern before.length = .ok (pattern.isPrefixOf text) := by
  induction pattern generalizing before text with
  | nil => rfl
  | cons b pattern ih =>
      rw [comparesEqual]
      cases text with
      | nil => exact if_neg (by simp)
      | cons c text =>
          rw [if_pos (by simp), List.getElem?_append_right (Nat.le_refl _), Nat.sub_self]
          change (if c = b then comparesEqual (before ++ c :: text) pattern (before.length + 1)
            else Except.ok false) = Except.ok (b == c && pattern.isPrefixOf text)
          by_cases same : c = b
          · have later := ih (before ++ [c]) text
            rw [List.length_append, List.append_assoc] at later
            rw [if_pos same, same, beq_self_eq_true, Bool.true_and, ← same]
            exact later
          · rw [if_neg same, beq_false_of_ne (Ne.symm same), Bool.false_and]

section views

variable {s : Bytes} {v : View}

theorem unhexFrom_eq {before text : Bytes} {left i : Nat} (window : Window s v (before ++ text))
    (skipped : before.length = 2 * i) (size : text.length = left * 2) :
    unhexFrom s v left i = .ok (unhexPairs text) := by
  induction left generalizing before text i with
  | zero =>
      obtain rfl := List.length_eq_zero_iff.mp (size.trans (Nat.zero_mul 2))
      rfl
  | succ left ih =>
      match text, size with
      | high :: low :: text, size =>
          have first : v.read s (2 * i) = .ok high := skipped ▸ window.read_append
          have window' : Window s v ((before ++ [high]) ++ low :: text) := by simpa using window
          have second : v.read s (2 * i + 1) = .ok low := by
            have read := window'.read_append
            rwa [List.length_append, skipped] at read
          have window'' : Window s v ((before ++ [high, low]) ++ text) := by simpa using window
          have later : unhexFrom s v left (i + 1) = .ok (unhexPairs text) := by
            refine ih window'' ?_ ?_
            · rw [List.length_append, skipped, List.length_cons, List.length_cons, List.length_nil]
              omega
            · rw [List.length_cons, List.length_cons] at size
              omega
          rw [unhexFrom, first, second, unhexPairs, later]
          change (match digit high, digit low with
            | some high, some low => Except.ok ((unhexPairs text).map ((high <<< 4 ||| low) :: ·))
            | _, _ => Except.ok none) = _
          cases digit high with
          | none => rfl
          | some high =>
              cases digit low with
              | none => rfl
              | some low => cases unhexPairs text <;> rfl
      | [], size => simp at size
      | [_], size =>
          rw [List.length_singleton] at size
          omega

theorem unhexAt_eq {text : Bytes} (window : Window s v text) (n : Nat) :
    unhexAt n s v = .ok (unhex n text) := by
  have length : text.length = v.length := window.length
  unfold unhexAt unhex
  rw [← length]
  split
  · rfl
  · next size =>
      have whole : Window s v ([] ++ text) := window
      rw [unhexFrom_eq whole rfl (Classical.not_not.mp size)]
      rfl

/-- What `fromChars` makes of the digits from `first` on. -/
theorem fromCharsAt_digits {sign row rest : Bytes} (window : Window s v (sign ++ row ++ rest)) (signed : Int → Int) :
    ∃ number ptr, ((v.digitsFrom s row.length sign.length 0).bind fun (value, ptr) =>
        if ptr = sign.length then Except.ok (none, 0)
        else if signed value < -2147483648 ∨ 2147483647 < signed value then Except.ok (none, ptr)
        else Except.ok (some (signed value), ptr)) = Except.ok (number, ptr) ∧
      ∀ n, (number = some n ∧ ptr = sign.length + row.length) ↔
        (if row = [] ∨ row.takeWhile isDigit ≠ row ∨ signed (digitsValue row) < -2147483648 ∨
          2147483647 < signed (digitsValue row) then none else some (signed (digitsValue row))) = some n := by
  have read := window.digitsFrom 0
  have whole : (row.takeWhile isDigit).length = row.length ↔ row.takeWhile isDigit = row :=
    ⟨(List.takeWhile_prefix isDigit).eq_of_length, congrArg List.length⟩
  rw [read]
  change ∃ number ptr, (if sign.length + (row.takeWhile isDigit).length = sign.length then _ else _) = _ ∧ _
  by_cases all : row.takeWhile isDigit = row
  · rw [all]
    change ∃ number ptr, (if sign.length + row.length = sign.length then _
      else if signed (digitsValue row) < -2147483648 ∨ 2147483647 < signed (digitsValue row) then _ else _) = _ ∧ _
    cases row with
    | nil => exact ⟨none, 0, if_pos rfl, fun n => by simp⟩
    | cons b row =>
        rw [if_neg (by simp)]
        by_cases range : signed (digitsValue (b :: row)) < -2147483648 ∨ 2147483647 < signed (digitsValue (b :: row))
        · refine ⟨none, _, if_pos range, fun n => ?_⟩
          rw [if_pos (.inr (.inr range))]
          simp
        · refine ⟨some _, _, if_neg range, fun n => ?_⟩
          rw [if_neg (by simpa using range)]
          exact ⟨And.left, fun same => ⟨same, rfl⟩⟩
  · have short : (row.takeWhile isDigit).length ≠ row.length := fun same => all (whole.mp same)
    have refused : (if row = [] ∨ row.takeWhile isDigit ≠ row ∨ signed (digitsValue row) < -2147483648 ∨
        2147483647 < signed (digitsValue row) then none else some (signed (digitsValue row))) = none :=
      if_pos (.inr (.inl all))
    rw [refused]
    split
    · refine ⟨none, 0, rfl, fun n => ?_⟩
      simp
    · split
      · exact ⟨none, _, rfl, fun n => by simp⟩
      · exact ⟨some _, _, rfl, fun n => by simp [short]⟩

/-- The number that `from_chars` makes of a row, if it takes all of it. -/
theorem fromCharsAt_eq {row rest : Bytes} (window : Window s v (row ++ rest)) :
    ∃ number ptr, v.fromChars s row.length = .ok (number, ptr) ∧
      ∀ n, (number = some n ∧ ptr = row.length) ↔ fromChars row = some n := by
  by_cases minus : ∃ row', row = 45 :: row'
  · obtain ⟨row, rfl⟩ := minus
    have sign : Window s v ([45] ++ row ++ rest) := window
    obtain ⟨number, ptr, read, spec⟩ := fromCharsAt_digits sign (fun value => -value)
    have whole : Window s v ([] ++ 45 :: (row ++ rest)) := window
    have first : v.read s 0 = .ok 45 := whole.read_append
    refine ⟨number, ptr, ?_, fun n => ?_⟩
    · rw [View.fromChars, if_pos (by simp), first]
      exact read
    · rw [fromChars_minus, List.length_cons, Nat.add_comm]
      exact spec n
  · have plain : ∀ row', row ≠ 45 :: row' := fun row' same => minus ⟨row', same⟩
    have sign : Window s v ([] ++ row ++ rest) := window
    obtain ⟨number, ptr, read, spec⟩ := fromCharsAt_digits sign id
    have first : (if 0 < row.length then (v.read s 0).map (· == 45) else .ok false) = .ok false := by
      cases row with
      | nil => rfl
      | cons b row =>
          have whole : Window s v ([] ++ b :: (row ++ rest)) := window
          have here : v.read s 0 = .ok b := whole.read_append
          rw [if_pos (by simp), here]
          refine congrArg Except.ok (beq_false_of_ne ?_)
          rintro rfl
          exact plain row rfl
    refine ⟨number, ptr, ?_, fun n => ?_⟩
    · rw [View.fromChars, first]
      exact read
    · rw [fromChars_plain plain]
      simpa using spec n

end views

/-- No turn of `verify` reads outside the string or throws. -/
theorem verifyAt_eq (kdf : Pbkdf2) (password encoded : Bytes) :
    verifyAt kdf password encoded = .ok (verify kdf password encoded) := by
  have compared : comparesEqual encoded hashPrefix 0 = .ok (isHash encoded) := comparesEqual_eq [] _ _
  unfold verifyAt verify
  rw [compared]
  cases starts : isHash encoded with
  | false => rfl
  | true =>
  obtain ⟨text, rfl⟩ : hashPrefix <+: encoded := by simpa [isHash] using starts
  obtain ⟨v, made, window⟩ := Window.make hashPrefix text
  have size : sizeSub (hashPrefix ++ text).length hashPrefix.length = text.length := by
    rw [sizeSub_eq (by simp), List.length_append, Nat.add_sub_cancel_left]
  have found := window.find dollar
  rw [size, List.drop_left]
  change (View.make _ _ _).bind _ = _
  rw [made]
  change (v.find _ _).bind _ = _
  rw [found]
  cases first : cut dollar text with
  | none => rfl
  | some parts =>
  obtain ⟨costText, rest⟩ := parts
  obtain ⟨rfl, -⟩ := eq_of_cut first
  obtain ⟨number, ptr, parsed, spec⟩ := fromCharsAt_eq window
  change (v.fromChars _ costText.length).bind _ = _
  rw [parsed]
  dsimp only
  cases chars : fromChars costText with
  | none =>
      -- The code has a number here only if it ended before the separator.
      cases number with
      | none => rfl
      | some n =>
          have short : ptr ≠ costText.length := fun same => by simpa [chars] using (spec n).mp ⟨rfl, same⟩
          exact if_pos (.inl short)
  | some cost =>
  obtain ⟨rfl, rfl⟩ := (spec cost).mpr chars
  change (if costText.length ≠ costText.length ∨ cost < 100000 ∨ 2000000 < cost then _ else _) =
    Except.ok (if cost < 100000 ∨ 2000000 < cost then _ else _)
  by_cases range : cost < 100000 ∨ 2000000 < cost
  · rw [if_pos (.inr range), if_pos range]
    rfl
  rw [if_neg (by simpa using range), if_neg range]
  obtain ⟨v', removed, window⟩ := window.removePrefix_succ
  have found := window.find dollar
  change (v.removePrefix (costText.length + 1)).bind _ = _
  rw [removed]
  change (v'.find _ _).bind _ = _
  rw [found]
  cases second : cut dollar rest with
  | none => rfl
  | some parts =>
  obtain ⟨saltText, keyText⟩ := parts
  obtain ⟨rfl, -⟩ := eq_of_cut second
  obtain ⟨saltView, left, saltWindow⟩ := window.substr_left
  have saltRead := unhexAt_eq saltWindow 16
  dsimp only [Option.map, Except.bind]
  change (v'.substr 0 (some saltText.length)).bind _ = _
  rw [left]
  change (unhexAt 16 _ saltView).bind _ = _
  rw [saltRead]
  cases unhex 16 saltText with
  | none => rfl
  | some salt =>
  obtain ⟨keyView, right, keyWindow⟩ := window.substr_succ
  have keyRead := unhexAt_eq keyWindow 32
  change (v'.substr (saltText.length + 1) none).bind _ = _
  rw [right]
  change (unhexAt 32 _ keyView).bind _ = _
  rw [keyRead]
  cases unhex 32 keyText with
  | none => rfl
  | some key => rfl

/-- `verify` accepts what `hash` makes of the same password, and a string just when it is of the
format and its key is derived from the password.  It reads nothing outside the string and throws
nothing, and a string that some password passes as a hash passes for none as plain text. -/
theorem stored_password_format (kdf : Pbkdf2) (password : Bytes) (short : password.length ≤ 2147483647) :
    (∀ salt key, kdf password salt iterations = some key →
      ∃ encoded, hash kdf (some salt) password = some encoded ∧ verify kdf password encoded = true) ∧
    (∀ salt encoded, hash kdf (some salt) password = some encoded → verify kdf password encoded = true) ∧
    (∀ s, verify kdf password s = true ↔
      ∃ cost salt key, Stored cost salt key s ∧ kdf password salt cost = some key) ∧
    (∀ s, verifyAt kdf password s = .ok (verify kdf password s)) ∧
    ∀ s presented presented', ¬ (verify kdf presented s = true ∧ verifyLegacy presented' s = true) := by
  have accepts {salt : Salt} {key : Key} (derived : kdf password salt iterations = some key) :
      verify kdf password (hashPrefix ++
        (digits iterations ++ dollar :: (hex salt.val ++ dollar :: hex key.val))) = true :=
    (verify_iff short _).mpr ⟨iterations, salt, key, stored_hash, derived⟩
  refine ⟨fun salt key derived => ?_, fun salt encoded hashed => ?_, verify_iff short,
    verifyAt_eq kdf password, ?_⟩
  · refine ⟨_, ?_, accepts derived⟩
    change (derive kdf password salt iterations).bind _ = _
    rw [derive_of_short short, derived]
    rfl
  · obtain ⟨key, derived, eq⟩ := Option.bind_eq_some_iff.mp hashed
    obtain rfl := Option.some.inj eq
    exact accepts (derive_eq_some derived)
  · intro s presented presented' both
    obtain ⟨passes, plain⟩ := both
    rw [verifyLegacy, isHash_of_verify passes] at plain
    cases plain

/-! ## A stored password -/

def knownSalt : Salt := ⟨[0, 1, 2, 3, 4, 5, 6, 7, 8, 9, 10, 11, 12, 13, 14, 15], rfl⟩

def knownKey : Key :=
  ⟨[56, 43, 30, 87, 47, 186, 58, 197, 71, 54, 158, 122, 126, 48, 133, 97, 127, 151, 43, 244, 142, 65, 58, 141,
    144, 14, 8, 15, 76, 102, 163, 189], rfl⟩

/-- PBKDF2 at one point. -/
def knownKdf : Pbkdf2 := fun password salt cost =>
  if password = bytes "known-test-password" ∧ salt = knownSalt ∧ cost = iterations then some knownKey else none

theorem known_password_verifies : verify knownKdf (bytes "known-test-password")
    (bytes "pbkdf2_sha256$600000$000102030405060708090a0b0c0d0e0f$382b1e572fba3ac547369e7a7e3085617f972bf48e413a8d900e080f4c66a3bd") =
      true := by
  obtain ⟨-, hashes, -⟩ := stored_password_format knownKdf (bytes "known-test-password") (by decide +kernel)
  exact hashes knownSalt _ (by decide +kernel)

end AIService.Accounts
