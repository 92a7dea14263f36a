import AIService.Basic
import AIService.Data.Wrap

/-!
# `base64`

`base64_encode` walks its input with an `unsigned int`, whose sums are those of `UInt32`;
`base64_decode` works on chunks of four characters, of which the last may be shorter.
-/

namespace AIService.Base64

/-! ## Encoding -/

/-- `base64_chars[url]`. -/
def base64Chars (url : Bool) : Bytes :=
  bytes "ABCDEFGHIJKLMNOPQRSTUVWXYZ" ++ bytes "abcdefghijklmnopqrstuvwxyz" ++ bytes "0123456789" ++
    (if url then bytes "-_" else bytes "+/")

/-- `base64_chars_[i]`. -/
def charAt (url : Bool) (i : UInt8) : UInt8 := (base64Chars url).getD i.toNat 0

/-- `'='` or `'.'`. -/
def trailingChar (url : Bool) : UInt8 := if url then 46 else 61

/-- What one turn of the loop in `base64_encode` pushes.  Each read is behind a comparison of its
position with the length. -/
def encodeTurn (url : Bool) (s : Bytes) (pos : UInt32) : Bytes :=
  let byte (i : UInt32) : UInt8 := s.getD i.toNat 0
  let first := charAt url ((byte pos &&& 0xfc) >>> 2)
  if (pos + 1).toNat < s.length then
    let second :=
      charAt url (((byte pos &&& 0x03) <<< 4) + ((byte (pos + 1) &&& 0xf0) >>> 4))
    if (pos + 2).toNat < s.length then
      [first, second,
        charAt url (((byte (pos + 1) &&& 0x0f) <<< 2) + ((byte (pos + 2) &&& 0xc0) >>> 6)),
        charAt url (byte (pos + 2) &&& 0x3f)]
    else [first, second, charAt url ((byte (pos + 1) &&& 0x0f) <<< 2), trailingChar url]
  else [first, charAt url ((byte pos &&& 0x03) <<< 4), trailingChar url, trailingChar url]

/-- The loop of `base64_encode`; `none` stands for not coming to an end within `fuel` turns. -/
def encodeLoop (url : Bool) (s : Bytes) : Nat → UInt32 → Bytes → Option Bytes
  | 0, _, _ => none
  | fuel + 1, pos, ret =>
      if pos.toNat < s.length then encodeLoop url s fuel (pos + 3) (ret ++ encodeTurn url s pos)
      else some ret

def base64Encode (fuel : Nat) (s : Bytes) (url : Bool) : Option Bytes := encodeLoop url s fuel 0 []

/-! ## Decoding -/

inductive DecodeError
  /-- `std::out_of_range`, of `at`. -/
  | outOfRange
  /-- The `std::runtime_error` of `pos_of_char`. -/
  | invalid
deriving DecidableEq, Repr

def DecodeError.what (outOfRange : Bytes) : DecodeError → Bytes
  | .outOfRange => outOfRange
  | .invalid => bytes "Input is not valid base64-encoded data."

def posOfChar (chr : UInt8) : Except DecodeError UInt8 :=
  if 65 ≤ chr ∧ chr ≤ 90 then .ok (chr - 65)
  else if 97 ≤ chr ∧ chr ≤ 122 then .ok (chr - 97 + 25 + 1)
  else if 48 ≤ chr ∧ chr ≤ 57 then .ok (chr - 48 + 25 + 25 + 2)
  else if chr = 43 ∨ chr = 45 then .ok 62
  else if chr = 47 ∨ chr = 95 then .ok 63
  else .error .invalid

/-- The chunk goes on after this character. -/
def isData (c : UInt8) : Bool := c != 61 && c != 46

/-- One turn of the loop in `decode`, on the next four characters or on what is left. -/
def decodeChunk : Bytes → Except DecodeError Bytes
  | c0 :: c1 :: rest => do
      let p1 ← posOfChar c1
      let p0 ← posOfChar c0
      let b0 := (p0 <<< 2) + ((p1 &&& 0x30) >>> 4)
      match rest with
      | [] => return [b0]
      | c2 :: rest =>
          if isData c2 then do
            let p2 ← posOfChar c2
            let b1 := ((p1 &&& 0x0f) <<< 4) + ((p2 &&& 0x3c) >>> 2)
            match rest with
            | [] => return [b0, b1]
            | c3 :: _ =>
                if isData c3 then do
                  let p3 ← posOfChar c3
                  return [b0, b1, ((p2 &&& 0x03) <<< 6) + p3]
                else return [b0, b1]
          else return [b0]
  | _ => .error .outOfRange

def decodeLoop : Bytes → Except DecodeError Bytes
  | [] => .ok []
  | c0 :: c1 :: c2 :: c3 :: rest => do
      let chunk ← decodeChunk [c0, c1, c2, c3]
      let later ← decodeLoop rest
      return chunk ++ later
  | chunk => decodeChunk chunk

def base64Decode (s : Bytes) (removeLinebreaks : Bool) : Except DecodeError Bytes :=
  if s.isEmpty then .ok []
  else if removeLinebreaks then decodeLoop (s.filter (· ≠ 10))
  else decodeLoop s

/-! ## Lines -/

/-- The loop of `insert_linebreaks`. -/
def breakLoop (distance : Nat) : Nat → Nat → Bytes → Option Bytes
  | 0, _, _ => none
  | fuel + 1, pos, str =>
      if pos < str.length then
        breakLoop distance fuel (pos + (distance + 1)) (str.take pos ++ 10 :: str.drop pos)
      else some str

def insertLinebreaks (fuel : Nat) (str : Bytes) (distance : Nat) : Option Bytes :=
  if str.length = 0 then some [] else breakLoop distance fuel distance str

def encodeWithLineBreaks (lineLength fuel : Nat) (s : Bytes) : Option Bytes := do
  insertLinebreaks fuel (← base64Encode fuel s false) lineLength

def base64EncodePem := encodeWithLineBreaks 64

def base64EncodeMime := encodeWithLineBreaks 76

/-! ## Encoding by groups -/

section groups

variable {url : Bool} {s : Bytes}

/-- The encoding of at most three bytes. -/
def encodeGroup (url : Bool) : Bytes → Bytes
  | [] => []
  | [a] => [charAt url ((a &&& 0xfc) >>> 2), charAt url ((a &&& 0x03) <<< 4), trailingChar url,
      trailingChar url]
  | [a, b] => [charAt url ((a &&& 0xfc) >>> 2),
      charAt url (((a &&& 0x03) <<< 4) + ((b &&& 0xf0) >>> 4)), charAt url ((b &&& 0x0f) <<< 2),
      trailingChar url]
  | a :: b :: c :: _ => [charAt url ((a &&& 0xfc) >>> 2),
      charAt url (((a &&& 0x03) <<< 4) + ((b &&& 0xf0) >>> 4)),
      charAt url (((b &&& 0x0f) <<< 2) + ((c &&& 0xc0) >>> 6)), charAt url (c &&& 0x3f)]

/-- What `base64_encode` computes, group by group. -/
def encodeGroups (url : Bool) : Bytes → Bytes
  | [] => []
  | [a] => encodeGroup url [a]
  | [a, b] => encodeGroup url [a, b]
  | a :: b :: c :: rest => encodeGroup url [a, b, c] ++ encodeGroups url rest

theorem encodeGroups_eq : encodeGroups url s =
    encodeGroup url (s.take 3) ++ encodeGroups url (s.drop 3) := by
  match s with
  | [] | [_] | [_, _] | _ :: _ :: _ :: _ => simp [encodeGroups, encodeGroup]

theorem length_encodeGroups : (encodeGroups url s).length = (s.length + 2) / 3 * 4 := by
  induction s using encodeGroups.induct with
  | case1 => rfl
  | case2 | case3 => simp [encodeGroups, encodeGroup]
  | case4 a b c rest ih =>
      rw [encodeGroups, List.length_append, ih]
      simp only [encodeGroup, List.length_cons, List.length_nil]
      omega

/-- A turn encodes the next group; below `2 ^ 32` bytes its positions do not wrap. -/
theorem encodeTurn_eq (small : s.length < 2 ^ 32) {pos : UInt32} (inside : pos.toNat < s.length) :
    encodeTurn url s pos = encodeGroup url ((s.drop pos.toNat).take 3) := by
  have next : (pos + 1).toNat = pos.toNat + 1 := by
    rw [UInt32.toNat_add, UInt32.toNat_one]
    omega
  obtain ⟨a, rest, here⟩ := List.exists_cons_of_ne_nil (List.drop_eq_nil_iff.not.mpr (Nat.not_le.mpr inside))
  have read (i : Nat) : s.getD (pos.toNat + i) 0 = (a :: rest).getD i 0 := by
    rw [← here, List.getD_eq_getElem?_getD, List.getD_eq_getElem?_getD, List.getElem?_drop]
  have size : s.length = pos.toNat + (rest.length + 1) := by
    rw [← List.length_cons, ← here, List.length_drop]
    omega
  have byte0 : s.getD pos.toNat 0 = a := read 0
  unfold encodeTurn
  simp only [next, here, byte0]
  match rest with
  | [] => rw [if_neg (by simp [size]), List.take_of_length_le (by simp), encodeGroup]
  | b :: rest =>
      have byte1 : s.getD (pos.toNat + 1) 0 = b := read 1
      have second : (pos + 2).toNat = pos.toNat + 2 := by
        rw [List.length_cons] at size
        rw [UInt32.toNat_add, show (2 : UInt32).toNat = 2 from rfl]
        omega
      rw [if_pos (by simp [size]), second, byte1]
      match rest with
      | [] => rw [if_neg (by simp [size]), List.take_of_length_le (by simp), encodeGroup]
      | c :: rest =>
          have byte2 : s.getD (pos.toNat + 2) 0 = c := read 2
          rw [if_pos (by simp [size]), byte2]
          rfl

/-- The loop ends after one turn for each group, when its positions stay below `2 ^ 32`. -/
theorem encodeLoop_eq (small : s.length < 2 ^ 32) {fuel : Nat} {pos : UInt32} {ret : Bytes}
    (aligned : pos.toNat % 3 = 0) : encodeLoop url s fuel pos ret =
      if s.length - pos.toNat + 2 < 3 * fuel then some (ret ++ encodeGroups url (s.drop pos.toNat))
      else none := by
  induction fuel generalizing pos ret with
  | zero => rfl
  | succ fuel ih =>
      rw [encodeLoop]
      split
      · next inside =>
          have next : (pos + 3).toNat = pos.toNat + 3 := by
            rw [UInt32.toNat_add, show (3 : UInt32).toNat = 3 from rfl]
            omega
          rw [ih (by omega), next, encodeTurn_eq small inside, List.append_assoc, ← List.drop_drop,
            ← encodeGroups_eq]
          exact if_congr (by omega) rfl rfl
      · next excess =>
          rw [List.drop_eq_nil_iff.mpr (Nat.not_lt.mp excess), encodeGroups, List.append_nil,
            if_pos (by omega)]

/-- From `2 ^ 32` bytes on every position is inside. -/
theorem encodeLoop_large (large : 2 ^ 32 ≤ s.length) {fuel : Nat} {pos : UInt32} {ret : Bytes} :
    encodeLoop url s fuel pos ret = none := by
  induction fuel generalizing pos ret with
  | zero => rfl
  | succ fuel ih => rw [encodeLoop, if_pos (Nat.lt_of_lt_of_le pos.toNat_lt large), ih]

theorem base64Encode_eq (small : s.length < 2 ^ 32) {fuel : Nat} : base64Encode fuel s url =
    if s.length + 2 < 3 * fuel then some (encodeGroups url s) else none :=
  encodeLoop_eq small rfl

theorem base64Encode_some {fuel : Nat} {text : Bytes} (encoded : base64Encode fuel s url = some text) :
    s.length < 2 ^ 32 ∧ text = encodeGroups url s := by
  rcases Nat.lt_or_ge s.length (2 ^ 32) with small | large
  · rw [base64Encode_eq small] at encoded
    split at encoded
    · exact ⟨small, (Option.some.inj encoded).symm⟩
    · cases encoded
  · rw [base64Encode, encodeLoop_large large] at encoded
    cases encoded

/-! ## Decoding what was encoded -/

theorem posOfChar_charAt (url : Bool) {i : UInt8} (small : i < 64) : posOfChar (charAt url i) = .ok i := by
  have each : ∀ n : Nat, n < 64 → posOfChar (charAt url n.toUInt8) = .ok n.toUInt8 := by
    cases url <;> decide
  have here := each i.toNat (UInt8.lt_iff_toNat_lt.mp small)
  rwa [show i.toNat.toUInt8 = i from UInt8.ofNat_toNat] at here

/-- The values of the alphabet are data. -/
theorem isData_of_pos {c p : UInt8} (found : posOfChar c = .ok p) : isData c = true := by
  cases data : isData c with
  | true => rfl
  | false =>
      have pad : c = 61 ∨ c = 46 := by
        rw [isData, Bool.and_eq_false_iff, bne_eq_false_iff_eq, bne_eq_false_iff_eq] at data
        exact data
      rcases pad with rfl | rfl <;> cases found

theorem isData_trailing (url : Bool) : isData (trailingChar url) = false := by cases url <;> rfl

/-- The bits of a byte that the masks and shifts of both directions leave. -/
structure Masks (b : UInt8) : Prop where
  high : ((b &&& 0xfc) >>> 2).toNat = b.toNat / 4
  low : ((b &&& 0x03) <<< 4).toNat = b.toNat % 4 * 16
  upper : ((b &&& 0xf0) >>> 4).toNat = b.toNat / 16
  lower : ((b &&& 0x0f) <<< 2).toNat = b.toNat % 16 * 4
  top : ((b &&& 0xc0) >>> 6).toNat = b.toNat / 64
  rest : (b &&& 0x3f).toNat = b.toNat % 64
  raised : (b <<< 2).toNat = b.toNat % 64 * 4
  middle : ((b &&& 0x30) >>> 4).toNat = b.toNat / 16 % 4
  carried : ((b &&& 0x0f) <<< 4).toNat = b.toNat % 16 * 16
  inner : ((b &&& 0x3c) >>> 2).toNat = b.toNat / 4 % 16
  bottom : ((b &&& 0x03) <<< 6).toNat = b.toNat % 4 * 64

theorem masks (b : UInt8) : Masks b where
  high := by
    revert b
    apply forall_byte
    decide +kernel
  low := by
    revert b
    apply forall_byte
    decide +kernel
  upper := by
    revert b
    apply forall_byte
    decide +kernel
  lower := by
    revert b
    apply forall_byte
    decide +kernel
  top := by
    revert b
    apply forall_byte
    decide +kernel
  rest := by
    revert b
    apply forall_byte
    decide +kernel
  raised := by
    revert b
    apply forall_byte
    decide +kernel
  middle := by
    revert b
    apply forall_byte
    decide +kernel
  carried := by
    revert b
    apply forall_byte
    decide +kernel
  inner := by
    revert b
    apply forall_byte
    decide +kernel
  bottom := by
    revert b
    apply forall_byte
    decide +kernel

/-- A chunk of four data characters gives the three bytes of its bits. -/
theorem decodeChunk_data {c0 c1 c2 c3 p0 p1 p2 p3 : UInt8} (first : posOfChar c0 = .ok p0)
    (second : posOfChar c1 = .ok p1) (third : posOfChar c2 = .ok p2) (fourth : posOfChar c3 = .ok p3) :
    decodeChunk [c0, c1, c2, c3] = .ok [(p0 <<< 2) + ((p1 &&& 0x30) >>> 4),
      ((p1 &&& 0x0f) <<< 4) + ((p2 &&& 0x3c) >>> 2), ((p2 &&& 0x03) <<< 6) + p3] := by
  simp only [decodeChunk, first, second, third, fourth, isData_of_pos third, isData_of_pos fourth]
  rfl

theorem decodeChunk_pad {c0 c1 c2 c3 p0 p1 p2 : UInt8} (first : posOfChar c0 = .ok p0)
    (second : posOfChar c1 = .ok p1) (third : posOfChar c2 = .ok p2) (pad : isData c3 = false) :
    decodeChunk [c0, c1, c2, c3] = .ok [(p0 <<< 2) + ((p1 &&& 0x30) >>> 4),
      ((p1 &&& 0x0f) <<< 4) + ((p2 &&& 0x3c) >>> 2)] := by
  simp only [decodeChunk, first, second, third, isData_of_pos third, pad]
  rfl

theorem decodeChunk_pads {c0 c1 c2 p0 p1 : UInt8} (c3 : UInt8) (first : posOfChar c0 = .ok p0)
    (second : posOfChar c1 = .ok p1) (pad : isData c2 = false) :
    decodeChunk [c0, c1, c2, c3] = .ok [(p0 <<< 2) + ((p1 &&& 0x30) >>> 4)] := by
  simp only [decodeChunk, first, second, pad]
  rfl

/-- The first byte of a group comes back. -/
theorem first_byte (a b : UInt8) : ((a &&& 0xfc) >>> 2) <<< 2 +
    ((((a &&& 0x03) <<< 4) + ((b &&& 0xf0) >>> 4)) &&& 0x30) >>> 4 = a := by
  apply UInt8.toNat_inj.mp
  rw [UInt8.toNat_add, (masks _).raised, (masks _).high, (masks _).middle, UInt8.toNat_add,
    (masks a).low, (masks b).upper]
  have small := a.toNat_lt
  have small' := b.toNat_lt
  omega

theorem second_byte (a b c : UInt8) : ((((a &&& 0x03) <<< 4) + ((b &&& 0xf0) >>> 4)) &&& 0x0f) <<< 4 +
    ((((b &&& 0x0f) <<< 2) + ((c &&& 0xc0) >>> 6)) &&& 0x3c) >>> 2 = b := by
  apply UInt8.toNat_inj.mp
  rw [UInt8.toNat_add, (masks _).carried, (masks _).inner, UInt8.toNat_add, UInt8.toNat_add,
    (masks a).low, (masks b).upper, (masks b).lower, (masks c).top]
  have small := a.toNat_lt
  have small' := b.toNat_lt
  have small'' := c.toNat_lt
  omega

theorem third_byte (b c : UInt8) :
    ((((b &&& 0x0f) <<< 2) + ((c &&& 0xc0) >>> 6)) &&& 0x03) <<< 6 + (c &&& 0x3f) = c := by
  apply UInt8.toNat_inj.mp
  rw [UInt8.toNat_add, (masks _).bottom, UInt8.toNat_add, (masks b).lower, (masks c).top, (masks c).rest]
  have small := b.toNat_lt
  have small' := c.toNat_lt
  omega

/-- Each index into the alphabet has six bits. -/
structure Sextets (a b c : UInt8) : Prop where
  first : (a &&& 0xfc) >>> 2 < 64
  second : ((a &&& 0x03) <<< 4) + ((b &&& 0xf0) >>> 4) < 64
  third : ((b &&& 0x0f) <<< 2) + ((c &&& 0xc0) >>> 6) < 64
  fourth : c &&& 0x3f < 64

theorem sextets (a b c : UInt8) : Sextets a b c := by
  have small := a.toNat_lt
  have small' := b.toNat_lt
  have small'' := c.toNat_lt
  constructor <;> rw [UInt8.lt_iff_toNat_lt, show (64 : UInt8).toNat = 64 from rfl]
  · rw [(masks a).high]
    omega
  · rw [UInt8.toNat_add, (masks a).low, (masks b).upper]
    omega
  · rw [UInt8.toNat_add, (masks b).lower, (masks c).top]
    omega
  · rw [(masks c).rest]
    omega

/-- A short group is encoded as if zeros followed, with padding for what they would add. -/
theorem encodeGroup_one (a : UInt8) : encodeGroup url [a] = [charAt url ((a &&& 0xfc) >>> 2),
    charAt url (((a &&& 0x03) <<< 4) + (((0 : UInt8) &&& 0xf0) >>> 4)), trailingChar url,
    trailingChar url] := by
  rw [show ((0 : UInt8) &&& 0xf0) >>> 4 = 0 from rfl, UInt8.add_zero, encodeGroup]

theorem encodeGroup_two (a b : UInt8) : encodeGroup url [a, b] = [charAt url ((a &&& 0xfc) >>> 2),
    charAt url (((a &&& 0x03) <<< 4) + ((b &&& 0xf0) >>> 4)),
    charAt url (((b &&& 0x0f) <<< 2) + (((0 : UInt8) &&& 0xc0) >>> 6)), trailingChar url] := by
  rw [show ((0 : UInt8) &&& 0xc0) >>> 6 = 0 from rfl, UInt8.add_zero, encodeGroup]

theorem decodeLoop_chunk {c0 c1 c2 c3 : UInt8} {rest out later : Bytes}
    (chunk : decodeChunk [c0, c1, c2, c3] = .ok out) (after : decodeLoop rest = .ok later) :
    decodeLoop (c0 :: c1 :: c2 :: c3 :: rest) = .ok (out ++ later) := by
  rw [decodeLoop, chunk]
  change (decodeLoop rest >>= fun later => pure (out ++ later)) = _
  rw [after]
  rfl

theorem decodeLoop_encodeGroups : decodeLoop (encodeGroups url s) = .ok s := by
  induction s using encodeGroups.induct with
  | case1 => rfl
  | case2 a =>
      have six := sextets a 0 0
      rw [encodeGroups, encodeGroup_one]
      have chunk := decodeChunk_pads (trailingChar url) (posOfChar_charAt url six.first)
        (posOfChar_charAt url six.second) (isData_trailing url)
      rw [first_byte] at chunk
      exact decodeLoop_chunk chunk rfl
  | case3 a b =>
      have six := sextets a b 0
      rw [encodeGroups, encodeGroup_two]
      have chunk := decodeChunk_pad (posOfChar_charAt url six.first)
        (posOfChar_charAt url six.second) (posOfChar_charAt url six.third)
        (isData_trailing url)
      rw [first_byte, second_byte] at chunk
      exact decodeLoop_chunk chunk rfl
  | case4 a b c rest ih =>
      have six := sextets a b c
      rw [encodeGroups, encodeGroup]
      have chunk := decodeChunk_data (posOfChar_charAt url six.first)
        (posOfChar_charAt url six.second) (posOfChar_charAt url six.third)
        (posOfChar_charAt url six.fourth)
      rw [first_byte, second_byte, third_byte] at chunk
      exact decodeLoop_chunk chunk ih

/-! ## The characters of an encoding -/

theorem charAt_mem (url : Bool) {i : UInt8} (small : i < 64) : charAt url i ∈ base64Chars url := by
  have each : ∀ n : Nat, n < 64 → charAt url n.toUInt8 ∈ base64Chars url := by cases url <;> decide
  have here := each i.toNat (UInt8.lt_iff_toNat_lt.mp small)
  rwa [show i.toNat.toUInt8 = i from UInt8.ofNat_toNat] at here

theorem mem_encodeGroups {c : UInt8} (member : c ∈ encodeGroups url s) :
    c ∈ base64Chars url ∨ c = trailingChar url := by
  have group (a b c' : UInt8) := sextets a b c'
  induction s using encodeGroups.induct with
  | case1 => cases member
  | case2 a =>
      rw [encodeGroups, encodeGroup_one] at member
      simp only [List.mem_cons, List.not_mem_nil, or_false] at member
      rcases member with rfl | rfl | same | same
      · exact .inl (charAt_mem url (group a 0 0).first)
      · exact .inl (charAt_mem url (group a 0 0).second)
      · exact .inr same
      · exact .inr same
  | case3 a b =>
      rw [encodeGroups, encodeGroup_two] at member
      simp only [List.mem_cons, List.not_mem_nil, or_false] at member
      rcases member with rfl | rfl | rfl | same
      · exact .inl (charAt_mem url (group a b 0).first)
      · exact .inl (charAt_mem url (group a b 0).second)
      · exact .inl (charAt_mem url (group a b 0).third)
      · exact .inr same
  | case4 a b c' rest ih =>
      rw [encodeGroups, encodeGroup] at member
      simp only [List.mem_append, List.mem_cons, List.not_mem_nil, or_false] at member
      rcases member with (rfl | rfl | rfl | rfl) | later
      · exact .inl (charAt_mem url (group a b c').first)
      · exact .inl (charAt_mem url (group a b c').second)
      · exact .inl (charAt_mem url (group a b c').third)
      · exact .inl (charAt_mem url (group a b c').fourth)
      · exact ih later

theorem newline_not_mem : (10 : UInt8) ∉ encodeGroups url s := by
  intro member
  have outside : (10 : UInt8) ∉ base64Chars url ∧ 10 ≠ trailingChar url := by cases url <;> decide
  exact (mem_encodeGroups member).elim outside.1 outside.2

theorem base64Decode_encodeGroups (removeLinebreaks : Bool) :
    base64Decode (encodeGroups url s) removeLinebreaks = .ok s := by
  have decoded : decodeLoop (encodeGroups url s) = .ok s := decodeLoop_encodeGroups
  rw [base64Decode]
  split
  · next nothing =>
      rw [List.isEmpty_iff.mp nothing] at decoded
      exact decoded
  · split
    · rw [List.filter_eq_self.mpr]
      · exact decoded
      · exact fun c member => decide_eq_true fun same => newline_not_mem (same ▸ member)
    · exact decoded

/-- The encoder returns on exactly the inputs its 32-bit position can walk; it writes the reserved
number of characters of its own alphabet, and the decoder gives the bytes back. -/
theorem base64_round_trip (s : Bytes) (url : Bool) :
    ((∃ fuel text, base64Encode fuel s url = some text) ↔ s.length < 2 ^ 32) ∧
    ∀ fuel text, base64Encode fuel s url = some text →
      text.length = (s.length + 2) / 3 * 4 ∧
      (∀ c ∈ text, c ∈ base64Chars url ∨ c = trailingChar url) ∧
      ∀ removeLinebreaks, base64Decode text removeLinebreaks = .ok s := by
  constructor
  · constructor
    · rintro ⟨fuel, text, encoded⟩
      exact (base64Encode_some encoded).1
    · intro small
      refine ⟨s.length + 1, encodeGroups url s, ?_⟩
      rw [base64Encode_eq small, if_pos (by omega)]
  · intro fuel text encoded
    obtain ⟨-, rfl⟩ := base64Encode_some encoded
    exact ⟨length_encodeGroups, fun c member => mem_encodeGroups member, base64Decode_encodeGroups⟩

end groups

end AIService.Base64
