import AIService.Image.Unread

/-!
# The PNG streams that preflight accepts

A stream is described by its chunks, and its checksum by the division of polynomials that
CRC-32 stands for.  `Preflight` returns a shape for a vector with the signature exactly when
the vector is such a stream, with an image size within the budget.
-/

namespace AIService.Image

open Polynomial

/-! ## Checksums -/

/-- The generator of CRC-32. -/
noncomputable def crc32Generator : (ZMod 2)[X] :=
  X ^ 32 + X ^ 26 + X ^ 23 + X ^ 22 + X ^ 16 + X ^ 12 + X ^ 11 + X ^ 10 + X ^ 8 + X ^ 7 + X ^ 5
    + X ^ 4 + X ^ 2 + X + 1

/-- The complement of `sum` is the remainder of the message, its first 32 bits complemented
and 32 zeros put behind it. -/
def IsCrc32 (message : Bytes) (sum : UInt32) : Prop :=
  registerPolynomial (~~~ sum).toBitVec =
    (X ^ (8 * message.length) * registerPolynomial (BitVec.allOnes 32)
      + X ^ 32 * messagePolynomial message) %ₘ crc32Generator

theorem crc32Generator_eq :
    crc32Generator = X ^ 32 + registerPolynomial (0xedb88320 : BitVec 32) := by
  unfold registerPolynomial crc32Generator
  simp [Finset.sum_range_succ]
  ring

/-- `crc&1` selects the taps. -/
theorem crcMask (w : UInt32) :
    (0xedb88320 &&& (0 - (w &&& 1))).toBitVec =
      if w.toBitVec.getLsbD 0 then (0xedb88320 : BitVec 32) else 0 := by
  rw [UInt32.toBitVec_and, UInt32.toBitVec_sub, UInt32.toBitVec_and]
  have low : w.toBitVec &&& (1 : UInt32).toBitVec =
      (BitVec.ofBool (w.toBitVec.getLsbD 0)).setWidth 32 :=
    BitVec.and_one_eq_setWidth_ofBool_getLsbD
  rw [low]
  cases w.toBitVec.getLsbD 0 <;> rfl

theorem crcBits_toBitVec (n : Nat) (w : UInt32) :
    (crcBits n w).toBitVec = (crcStep (0xedb88320 : BitVec 32))^[n] w.toBitVec := by
  induction n generalizing w with
  | zero => rfl
  | succ n ih =>
      rw [crcBits, ih, Function.iterate_succ_apply, crcStep, UInt32.toBitVec_xor, crcMask]
      rfl

theorem crc_foldl (message : Bytes) (w : UInt32) :
    (message.foldl (fun crc b => crcBits 8 (crc ^^^ b.toUInt32)) w).toBitVec =
      message.foldl (crcByte (m := 24) (0xedb88320 : BitVec 32)) w.toBitVec := by
  induction message generalizing w with
  | nil => rfl
  | cons b rest ih =>
      rw [List.foldl_cons, List.foldl_cons, ih, crcBits_toBitVec]
      rfl

/-- What `CRC` returns for a range. -/
def crcOf (message : Bytes) : UInt32 :=
  message.foldl (fun crc b => crcBits 8 (crc ^^^ b.toUInt32)) 0xffffffff ^^^ 0xffffffff

/-- `CRC` computes the checksum of the range, and no other number is its checksum. -/
theorem isCrc32_iff (message : Bytes) (sum : UInt32) : IsCrc32 message sum ↔ crcOf message = sum := by
  have register : (~~~ crcOf message).toBitVec =
      message.foldl (crcByte (m := 24) (0xedb88320 : BitVec 32)) (BitVec.allOnes 32) := by
    have undone (w : UInt32) : ~~~ (w ^^^ 0xffffffff) = w := by
      have ones : (0xffffffff : UInt32) = ~~~ 0 := UInt32.toBitVec_inj.mp rfl
      rw [ones, UInt32.xor_not, UInt32.not_not, UInt32.xor_zero]
    have ones : (0xffffffff : UInt32).toBitVec = BitVec.allOnes 32 := rfl
    rw [crcOf, undone, crc_foldl, ones]
  have computed : IsCrc32 message (crcOf message) := by
    unfold IsCrc32
    rw [register]
    have lead : crc32Generator = X ^ (8 + 24) + registerPolynomial (0xedb88320 : BitVec 32) :=
      crc32Generator_eq
    have left := crcBytes_dvd (m := 24) lead message (BitVec.allOnes 32)
    exact registerPolynomial_mod crc32Generator_eq left
  constructor
  · intro sums
    unfold IsCrc32 at sums computed
    rw [← computed] at sums
    have complements := registerPolynomial_injective sums
    have same : ~~~ sum = ~~~ crcOf message := UInt32.toBitVec_inj.mp complements
    rw [← UInt32.not_not (a := sum), same, UInt32.not_not]
  · rintro rfl
    exact computed

/-! ## Chunks -/

/-- A chunk, as the stream has it. -/
structure Chunk where
  length : Bytes
  type : Bytes
  payload : Bytes
  sum : Bytes
  length_length : length.length = 4
  type_length : type.length = 4
  sum_length : sum.length = 4
  covers : number length = payload.length

def Chunk.bytes (c : Chunk) : Bytes := c.length ++ (c.type ++ (c.payload ++ c.sum))

theorem Chunk.bytes_length (c : Chunk) : c.bytes.length = c.payload.length + 12 := by
  simp only [Chunk.bytes, List.length_append, c.length_length, c.type_length, c.sum_length]
  omega

/-- Twelve bytes and what the first four of them announce are a chunk. -/
theorem exists_png_chunk {rest digits : Bytes} (length : digits.length = 4)
    (starts : digits <+: rest) (room : number digits + 12 ≤ rest.length) :
    ∃ (c : Chunk) (after : Bytes), rest = c.bytes ++ after ∧ c.length = digits := by
  obtain ⟨tail, rfl⟩ := starts
  rw [List.length_append, length] at room
  obtain ⟨type, tail, typed, rfl⟩ := exists_chunk tail 4 (by omega)
  rw [List.length_append, typed] at room
  obtain ⟨payload, tail, covered, rfl⟩ :=
    exists_chunk tail (number digits) (by omega)
  rw [List.length_append, covered] at room
  obtain ⟨sum, after, summed, rfl⟩ := exists_chunk tail 4 (by omega)
  refine ⟨⟨digits, type, payload, sum, length, typed, summed, covered.symm⟩, after, ?_, rfl⟩
  simp only [Chunk.bytes, List.append_assoc]

/-- The chunks behind the header; `seen` says that there was image data in front of them. -/
inductive Chunks : Bool → Bytes → Prop
  | last {c : Chunk} :
    c.type = bytes "IEND" → c.payload = [] → Chunks true c.bytes
  | more {c : Chunk} {seen : Bool} {rest : Bytes} :
    c.type ≠ bytes "IHDR" → c.type ≠ bytes "IEND" →
    Chunks (seen || c.type = bytes "IDAT") rest → Chunks seen (c.bytes ++ rest)

/-! ## The walk over the chunks -/

theorem ok_bind {α β : Type} (a : α) (next : α → Except Fault β) :
    (Except.ok a >>= next) = next a := rfl

theorem sub_ok {a b : Nat} (le : b ≤ a) : sub a b = .ok (a - b) := if_pos le

theorem add_ok {a b : Nat} (bound : Nat) (sum : a + b ≤ bound) (small : bound < sizeLimit) :
    add a b = .ok (a + b) := if_pos (by omega)

section walk

variable {data rest : Bytes} {shape : Shape} {fuel pos : Nat} {seen : Bool}

/-- One turn of the loop over a chunk. -/
theorem pngChunks_chunk {c : Chunk} (small : data.length < sizeLimit)
    (unread : Unread data pos (c.bytes ++ rest)) :
    pngChunks data shape (fuel + 1) pos seen =
      if c.type = bytes "IHDR" then invalid "Duplicate PNG header"
      else if c.type = bytes "IEND" then
        if c.payload.length ≠ 0 ∨ (seen || c.type = bytes "IDAT") = false then
          invalid "Invalid PNG end"
        else if pos + 12 ≠ data.length then invalid "Invalid PNG end" else .ok shape
      else pngChunks data shape fuel (pos + c.bytes.length) (seen || c.type = bytes "IDAT") := by
  have whole := unread.length
  rw [List.length_append, c.bytes_length] at whole
  simp only [Chunk.bytes, List.append_assoc] at unread
  have first : readRange data pos 4 = .ok c.length :=
    unread.readRange_at [] 0 rfl c.length_length
  have announced : be32 data pos = .ok (bigEndian c.length) := by
    rw [be32, first]
    rfl
  have typed : readRange data (pos + 4) 4 = .ok c.type :=
    unread.readRange_at _ _ c.length_length c.type_length
  have payload : (bigEndian c.length).toNat = c.payload.length := by
    rw [bigEndian_toNat (Nat.le_of_eq c.length_length), c.covers]
  have stop : add pos 12 = .ok (pos + 12) := add_ok data.length (by omega) small
  have size : add c.payload.length 12 = .ok (c.payload.length + 12) :=
    add_ok data.length (by omega) small
  have next : add pos (c.payload.length + 12) = .ok (pos + (c.payload.length + 12)) :=
    add_ok data.length (by omega) small
  rw [pngChunks, if_pos (by omega), sub_ok (by omega), ok_bind, if_neg (by omega), announced,
    ok_bind, payload, sub_ok (by omega), ok_bind, if_neg (by omega), typed, ok_bind]
  simp only [stop, size, next, ok_bind, c.bytes_length]

/-- A turn of the loop that does not throw has a chunk before it. -/
theorem exists_chunk_of_ok {shape' : Shape}
    (unread : Unread data pos rest)
    (ok : pngChunks data shape (fuel + 1) pos seen = .ok shape') :
    ∃ (c : Chunk) (after : Bytes), rest = c.bytes ++ after := by
  have whole := unread.length
  rw [pngChunks] at ok
  split at ok
  case isFalse => cases ok
  case isTrue inside =>
  rw [sub_ok (by omega), ok_bind] at ok
  split at ok
  case isTrue => cases ok
  case isFalse room =>
  obtain ⟨digits, tail, length, rfl⟩ := exists_chunk rest 4 (by omega)
  have announced : be32 data pos = .ok (bigEndian digits) := by
    have first : readRange data pos 4 = .ok digits :=
      unread.readRange_at [] 0 rfl length
    rw [be32, first]
    rfl
  rw [announced, ok_bind, sub_ok (by omega), ok_bind, bigEndian_toNat (Nat.le_of_eq length)] at ok
  split at ok
  case isTrue => cases ok
  case isFalse covered =>
  obtain ⟨c, after, same, -⟩ := exists_png_chunk length ⟨tail, rfl⟩ (by omega)
  exact ⟨c, after, same⟩

/-- The loop over the chunks returns for the streams of `Chunks`. -/
theorem pngChunks_iff {shape' : Shape} (small : data.length < sizeLimit)
    (unread : Unread data pos rest) (fueled : rest.length < fuel) :
    pngChunks data shape fuel pos seen = .ok shape' ↔ shape = shape' ∧ Chunks seen rest := by
  induction fuel generalizing pos rest seen with
  | zero => omega
  | succ fuel ih =>
      constructor
      · intro ok
        obtain ⟨c, after, rfl⟩ := exists_chunk_of_ok unread ok
        have whole := unread.length
        have length := c.bytes_length
        rw [pngChunks_chunk small unread] at ok
        rw [List.length_append] at fueled whole
        split at ok
        case isTrue => cases ok
        case isFalse other =>
        split at ok
        case isFalse more =>
          obtain ⟨rfl, chunks⟩ := (ih unread.skip (by omega)).mp ok
          exact ⟨rfl, .more other more chunks⟩
        case isTrue last =>
          split at ok
          case isTrue => cases ok
          case isFalse finished =>
          split at ok
          case isTrue => cases ok
          case isFalse ends =>
          cases ok
          rw [not_or, not_not, Bool.not_eq_false] at finished
          have none : after = [] := List.eq_nil_of_length_eq_zero (by omega)
          have data : seen = true := by simpa [last, bytes] using finished.2
          subst none data
          rw [List.append_nil]
          exact ⟨rfl, .last last (List.eq_nil_of_length_eq_zero finished.1)⟩
      · rintro ⟨rfl, chunks⟩
        cases chunks with
        | @last c type payload =>
            have whole := unread.length
            have other : c.type ≠ bytes "IHDR" := by
              rw [type]
              decide
            rw [← List.append_nil c.bytes] at unread
            rw [pngChunks_chunk small unread, if_neg other, if_pos type, payload,
              if_neg (by simp), if_neg (by rw [whole, c.bytes_length, payload]; simp)]
        | @more c _ after other more chunks =>
            rw [pngChunks_chunk small unread, if_neg other, if_neg more]
            have length := c.bytes_length
            rw [List.length_append] at fueled
            exact (ih unread.skip (by omega)).mpr ⟨rfl, chunks⟩

end walk

theorem Chunks.exists_lists {seen : Bool} {rest : Bytes} (chunks : Chunks seen rest) :
    ∃ (body : List Chunk) (last : Chunk), rest = body.flatMap Chunk.bytes ++ last.bytes ∧
      (∀ c ∈ body, c.type ≠ bytes "IHDR" ∧ c.type ≠ bytes "IEND") ∧
      (seen ∨ ∃ c ∈ body, c.type = bytes "IDAT") ∧
      last.type = bytes "IEND" ∧ last.payload = [] := by
  induction chunks with
  | @last c type payload => exact ⟨[], c, rfl, nofun, .inl rfl, type, payload⟩
  | @more c seen rest other notLast _ ih =>
      obtain ⟨body, last, rfl, types, some, ends⟩ := ih
      refine ⟨c :: body, last, ?_, ?_, ?_, ends⟩
      · rw [List.flatMap_cons, List.append_assoc]
      · exact List.forall_mem_cons.mpr ⟨⟨other, notLast⟩, types⟩
      · rw [Bool.or_eq_true, decide_eq_true_eq, or_assoc] at some
        rcases some with before | here | later
        · exact .inl before
        · exact .inr ⟨c, List.mem_cons_self, here⟩
        · obtain ⟨c', member, type⟩ := later
          exact .inr ⟨c', List.mem_cons_of_mem _ member, type⟩

theorem chunks_of_lists {seen : Bool} {body : List Chunk} {last : Chunk}
    (types : ∀ c ∈ body, c.type ≠ bytes "IHDR" ∧ c.type ≠ bytes "IEND")
    (some : seen ∨ ∃ c ∈ body, c.type = bytes "IDAT") (type : last.type = bytes "IEND")
    (payload : last.payload = []) :
    Chunks seen (body.flatMap Chunk.bytes ++ last.bytes) := by
  induction body generalizing seen with
  | nil =>
      obtain rfl : seen = true := some.resolve_right (by simp)
      exact .last type payload
  | cons c body ih =>
      rw [List.flatMap_cons, List.append_assoc]
      have here := types c List.mem_cons_self
      refine .more here.1 here.2 (ih (fun c' member => types c' (List.mem_cons_of_mem _ member)) ?_)
      rw [List.exists_mem_cons_iff] at some
      rw [Bool.or_eq_true, decide_eq_true_eq, or_assoc]
      exact some

/-! ## The header -/

/-- The depths that go with a colour type. -/
def allowedDepths (color : UInt8) : List UInt8 :=
  if color = 0 then [1, 2, 4, 8, 16]
  else if color = 3 then [1, 2, 4, 8]
  else if color = 2 ∨ color = 4 ∨ color = 6 then [8, 16]
  else []

theorem pngDepthValid_iff (color depth : UInt8) :
    pngDepthValid color depth = true ↔ depth ∈ allowedDepths color := by
  unfold pngDepthValid allowedDepths
  split
  case isTrue gray => subst gray; simp [or_assoc]
  case isFalse other =>
  split
  case isTrue palette => subst palette; simp [or_assoc]
  case isFalse other' =>
  split
  case isTrue coloured => rcases coloured with rfl | rfl | rfl <;> simp
  case isFalse none => simp_all

section header

variable {policy : Policy} {data : Bytes}

theorem readRange_ok (front after : Bytes) {chunk : Bytes} {i n : Nat}
    (whole : data = front ++ (chunk ++ after)) (offset : front.length = i)
    (length : chunk.length = n) : readRange data i n = .ok chunk := by
  subst offset length
  exact Unread.readRange ⟨front, rfl, whole.symm⟩

/-- The pieces of the first 33 bytes. -/
structure HeaderBytes where
  length : Bytes
  type : Bytes
  wide : Bytes
  tall : Bytes
  depth : UInt8
  color : UInt8
  compression : UInt8
  filter : UInt8
  interlace : UInt8
  sum : Bytes
  length_length : length.length = 4
  type_length : type.length = 4
  wide_length : wide.length = 4
  tall_length : tall.length = 4
  sum_length : sum.length = 4

def HeaderBytes.payload (h : HeaderBytes) : Bytes :=
  h.wide ++ (h.tall ++ [h.depth, h.color, h.compression, h.filter, h.interlace])

def HeaderBytes.bytes (h : HeaderBytes) : Bytes :=
  h.length ++ (h.type ++ (h.payload ++ h.sum))

theorem HeaderBytes.payload_length (h : HeaderBytes) : h.payload.length = 13 := by
  simp [HeaderBytes.payload, h.wide_length, h.tall_length]

theorem HeaderBytes.bytes_length (h : HeaderBytes) : h.bytes.length = 25 := by
  simp [HeaderBytes.bytes, h.length_length, h.type_length, h.payload_length, h.sum_length]

theorem exists_headerBytes {rest : Bytes} (long : 25 ≤ rest.length) :
    ∃ (h : HeaderBytes) (after : Bytes), rest = h.bytes ++ after := by
  obtain ⟨length, rest, l₁, rfl⟩ := exists_chunk rest 4 (by omega)
  rw [List.length_append, l₁] at long
  obtain ⟨type, rest, l₂, rfl⟩ := exists_chunk rest 4 (by omega)
  rw [List.length_append, l₂] at long
  obtain ⟨wide, rest, l₃, rfl⟩ := exists_chunk rest 4 (by omega)
  rw [List.length_append, l₃] at long
  obtain ⟨tall, rest, l₄, rfl⟩ := exists_chunk rest 4 (by omega)
  rw [List.length_append, l₄] at long
  obtain ⟨five, rest, l₅, rfl⟩ := exists_chunk rest 5 (by omega)
  rw [List.length_append, l₅] at long
  obtain ⟨sum, rest, l₆, rfl⟩ := exists_chunk rest 4 (by omega)
  match five, l₅ with
  | [depth, color, compression, filter, interlace], _ =>
      refine ⟨⟨length, type, wide, tall, depth, color, compression, filter, interlace, sum,
        l₁, l₂, l₃, l₄, l₆⟩, rest, ?_⟩
      simp only [HeaderBytes.bytes, HeaderBytes.payload, List.append_assoc]

/-- The branch of `Preflight` on the pieces of the header. -/
theorem pngPreflight_header (h : HeaderBytes) {after : Bytes}
    (whole : data = pngSignature ++ (h.bytes ++ after)) :
    pngPreflight policy data =
      if bigEndian h.length ≠ 13 ∨ h.type ≠ bytes "IHDR" ∨
          crcOf (h.type ++ h.payload) ≠ bigEndian h.sum then invalid "Invalid PNG header"
      else if !pngDepthValid h.color h.depth || h.compression != 0 || h.filter != 0 ||
          1 < h.interlace then invalid "Unsupported PNG header"
      else checkShape policy (bigEndian h.wide) (bigEndian h.tall) >>= fun _ =>
        pngChunks data { width := bigEndian h.wide, height := bigEndian h.tall }
          (data.length + 1) 33 false := by
  have signature : pngSignature.length = 8 := rfl
  have long : data.length = 33 + after.length := by
    rw [whole, List.length_append, List.length_append, signature, h.bytes_length]
    omega
  simp only [HeaderBytes.bytes, HeaderBytes.payload] at whole
  have length : be32 data 8 = .ok (bigEndian h.length) := by
    have range : readRange data 8 4 = .ok h.length :=
      readRange_ok pngSignature _
        (by rw [whole]; simp only [List.append_assoc]; rfl) rfl h.length_length
    rw [be32, range]
    rfl
  have type : readRange data 12 4 = .ok h.type :=
    readRange_ok (pngSignature ++ h.length) _
      (by rw [whole]; simp only [List.append_assoc]; rfl)
      (by rw [List.length_append, h.length_length, signature]) h.type_length
  have summed : crc data 12 17 = .ok (crcOf (h.type ++ h.payload)) := by
    have range : readRange data 12 17 = .ok (h.type ++ h.payload) :=
      readRange_ok (pngSignature ++ h.length) (h.sum ++ after)
        (by rw [whole]; simp only [HeaderBytes.payload, List.append_assoc])
        (by rw [List.length_append, h.length_length, signature])
        (by rw [List.length_append, h.type_length, h.payload_length])
    rw [crc, range]
    rfl
  have sum : be32 data 29 = .ok (bigEndian h.sum) := by
    have range : readRange data 29 4 = .ok h.sum :=
      readRange_ok (pngSignature ++ (h.length ++ (h.type ++ h.payload))) after
        (by rw [whole]; simp only [HeaderBytes.payload, List.append_assoc])
        (by simp [h.length_length, h.type_length, h.payload_length, signature]) h.sum_length
    rw [be32, range]
    rfl
  have wide : be32 data 16 = .ok (bigEndian h.wide) := by
    have range : readRange data 16 4 = .ok h.wide :=
      readRange_ok (pngSignature ++ (h.length ++ h.type)) _
        (by rw [whole]; simp only [List.append_assoc]; rfl)
        (by simp [h.length_length, h.type_length, signature]) h.wide_length
    rw [be32, range]
    rfl
  have tall : be32 data 20 = .ok (bigEndian h.tall) := by
    have range : readRange data 20 4 = .ok h.tall :=
      readRange_ok (pngSignature ++ (h.length ++ (h.type ++ h.wide))) _
        (by rw [whole]; simp only [List.append_assoc]; rfl)
        (by simp [h.length_length, h.type_length, h.wide_length, signature]) h.tall_length
    rw [be32, range]
    rfl
  have single : Unread data 24
      (h.depth :: h.color :: h.compression :: h.filter :: h.interlace :: (h.sum ++ after)) :=
    ⟨pngSignature ++ (h.length ++ (h.type ++ (h.wide ++ h.tall))),
      by simp [h.length_length, h.type_length, h.wide_length, h.tall_length, signature],
      by rw [whole]; simp only [List.append_assoc, List.cons_append, List.nil_append]⟩
  have depth : read data 24 = .ok h.depth := single.read
  have color : read data 25 = .ok h.color := single.next.read
  have compression : read data 26 = .ok h.compression := single.next.next.read
  have filter : read data 27 = .ok h.filter := single.next.next.next.read
  have interlace : read data 28 = .ok h.interlace := single.next.next.next.next.read
  rw [pngPreflight, if_neg (by omega)]
  simp only [length, type, summed, sum, wide, tall, depth, color, compression, filter, interlace,
    ok_bind]

end header

/-! ## Files -/

/-- What a PNG file is made of, behind its signature. -/
structure PngFile where
  header : HeaderBytes
  body : List Chunk
  last : Chunk

namespace PngFile

def bytes (file : PngFile) : Bytes :=
  pngSignature ++ (file.header.bytes ++ (file.body.flatMap Chunk.bytes ++ file.last.bytes))

/-- The conditions on a file that is taken. -/
structure WellFormed (policy : Policy) (file : PngFile) : Prop where
  header_length : number file.header.length = 13
  header_type : file.header.type = AIService.bytes "IHDR"
  header_sum :
    IsCrc32 (file.header.type ++ file.header.payload) (.ofNat (number file.header.sum))
  depth : file.header.depth ∈ allowedDepths file.header.color
  compression : file.header.compression = 0
  filter : file.header.filter = 0
  interlace : file.header.interlace ≤ 1
  budget : InBudget policy (number file.header.wide) (number file.header.tall)
  body : ∀ c ∈ file.body, c.type ≠ AIService.bytes "IHDR" ∧ c.type ≠ AIService.bytes "IEND"
  data : ∃ c ∈ file.body, c.type = AIService.bytes "IDAT"
  last_type : file.last.type = AIService.bytes "IEND"
  last_payload : file.last.payload = []

end PngFile

section files

variable {policy : Policy} {data : Bytes}

theorem ofNat_number {digits : Bytes} (length : digits.length = 4) :
    UInt32.ofNat (number digits) = bigEndian digits := by
  rw [← bigEndian_toNat (Nat.le_of_eq length), UInt32.ofNat_toNat]

/-- The header passes the first check. -/
theorem headerCheck_iff (h : HeaderBytes) :
    ¬ (bigEndian h.length ≠ 13 ∨ h.type ≠ bytes "IHDR" ∨
        crcOf (h.type ++ h.payload) ≠ bigEndian h.sum) ↔
      number h.length = 13 ∧ h.type = bytes "IHDR" ∧
        IsCrc32 (h.type ++ h.payload) (.ofNat (number h.sum)) := by
  have length : bigEndian h.length = 13 ↔ number h.length = 13 := by
    rw [← UInt32.toNat_inj, bigEndian_toNat (Nat.le_of_eq h.length_length)]
    rfl
  rw [not_or, not_or, not_not, not_not, not_not, length, isCrc32_iff, ofNat_number h.sum_length]

/-- The header passes the second check. -/
theorem combinationCheck_iff (h : HeaderBytes) :
    ¬ ((!pngDepthValid h.color h.depth || h.compression != 0 || h.filter != 0 ||
        1 < h.interlace) = true) ↔
      h.depth ∈ allowedDepths h.color ∧ h.compression = 0 ∧ h.filter = 0 ∧ h.interlace ≤ 1 := by
  rw [← pngDepthValid_iff]
  simp [and_assoc]

theorem preflight_png (within : data.length ≤ policy.encoded.val)
    (signed : pngSignature <+: data) : preflight policy data = pngPreflight policy data := by
  have some : data.length ≠ 0 := by
    have length : 8 ≤ data.length := signed.length_le
    omega
  rw [preflight, checkEncoded_ok within some, ok_bind, startsWith_eq, ok_bind,
    decide_eq_true signed]
  rfl

/-- For every vector within the encoded budget that starts with the signature, `Preflight`
returns a shape if and only if the vector is a well-formed stream to its last byte; the shape
has the width and the height of the header. -/
theorem png_accepted_iff (policy : Policy) {data : Bytes}
    (within : data.length ≤ policy.encoded.val) (signed : pngSignature <+: data)
    (shape : Shape) :
    preflight policy data = .ok shape ↔
      ∃ file : PngFile, file.WellFormed policy ∧ file.bytes = data ∧
        shape.width.toNat = number file.header.wide ∧
        shape.height.toNat = number file.header.tall ∧ shape.jpeg = false := by
  have small : data.length < sizeLimit := Nat.lt_of_le_of_lt within policy.encoded.lt
  rw [preflight_png within signed]
  obtain ⟨rest, rfl⟩ := signed
  have signature : pngSignature.length = 8 := rfl
  constructor
  · intro ok
    have long : 25 ≤ rest.length := by
      rw [pngPreflight, List.length_append, signature] at ok
      split at ok
      case isTrue => cases ok
      case isFalse enough => omega
    obtain ⟨h, after, rfl⟩ := exists_headerBytes long
    rw [pngPreflight_header h rfl] at ok
    split at ok
    case isTrue => cases ok
    case isFalse header =>
    obtain ⟨length, type, sum⟩ := (headerCheck_iff h).mp header
    split at ok
    case isTrue => cases ok
    case isFalse combination =>
    obtain ⟨depth, compression, filter, interlace⟩ := (combinationCheck_iff h).mp combination
    cases checked : checkShape policy (bigEndian h.wide) (bigEndian h.tall) with
    | error fault =>
        rw [checked] at ok
        cases ok
    | ok _ =>
        rw [checked, ok_bind] at ok
        have budget := checkShape_ok.mp checked
        have unread : Unread (pngSignature ++ (h.bytes ++ after)) 33 after :=
          ⟨pngSignature ++ h.bytes, by rw [List.length_append, h.bytes_length, signature],
            List.append_assoc _ _ _⟩
        obtain ⟨rfl, chunks⟩ := (pngChunks_iff small unread (by simp; omega)).mp ok
        obtain ⟨body, last, rfl, types, some, lastType, lastPayload⟩ := chunks.exists_lists
        rw [bigEndian_toNat (Nat.le_of_eq h.wide_length),
          bigEndian_toNat (Nat.le_of_eq h.tall_length)] at budget
        have file : PngFile.WellFormed policy ⟨h, body, last⟩ :=
          { header_length := length, header_type := type, header_sum := sum, depth := depth
            compression := compression, filter := filter, interlace := interlace
            budget := budget, body := types, data := some.resolve_left (by simp)
            last_type := lastType, last_payload := lastPayload }
        exact ⟨⟨h, body, last⟩, file, rfl, bigEndian_toNat (Nat.le_of_eq h.wide_length),
          bigEndian_toNat (Nat.le_of_eq h.tall_length), rfl⟩
  · rintro ⟨⟨h, body, last⟩, file, whole, width, height, png⟩
    have same : rest = h.bytes ++ (body.flatMap Chunk.bytes ++ last.bytes) :=
      (List.append_cancel_left whole).symm
    subst same
    have header := (headerCheck_iff h).mpr ⟨file.header_length, file.header_type, file.header_sum⟩
    have combination := (combinationCheck_iff h).mpr
      ⟨file.depth, file.compression, file.filter, file.interlace⟩
    have budget := file.budget
    rw [← bigEndian_toNat (Nat.le_of_eq h.wide_length),
      ← bigEndian_toNat (Nat.le_of_eq h.tall_length)] at budget
    have chunks : Chunks false (body.flatMap Chunk.bytes ++ last.bytes) :=
      chunks_of_lists file.body (.inr file.data) file.last_type file.last_payload
    have unread : Unread (pngSignature ++ (h.bytes ++ (body.flatMap Chunk.bytes ++ last.bytes)))
        33 (body.flatMap Chunk.bytes ++ last.bytes) :=
      ⟨pngSignature ++ h.bytes, by rw [List.length_append, h.bytes_length, signature],
        List.append_assoc _ _ _⟩
    rw [← bigEndian_toNat (Nat.le_of_eq h.wide_length)] at width
    rw [← bigEndian_toNat (Nat.le_of_eq h.tall_length)] at height
    obtain ⟨width', height', jpeg⟩ := shape
    obtain rfl : width' = bigEndian h.wide := UInt32.toNat_inj.mp width
    obtain rfl : height' = bigEndian h.tall := UInt32.toNat_inj.mp height
    obtain rfl : jpeg = false := png
    rw [pngPreflight_header h rfl, if_neg header, if_neg combination, checkShape_ok.mpr budget,
      ok_bind]
    exact (pngChunks_iff small unread (by simp; omega)).mpr ⟨rfl, chunks⟩

end files

/-- One black pixel. -/
def onePixel : Bytes :=
  [137, 80, 78, 71, 13, 10, 26, 10, 0, 0, 0, 13, 73, 72, 68, 82, 0, 0, 0, 1, 0, 0, 0, 1, 8,
   0, 0, 0, 0, 58, 126, 155, 85, 0, 0, 0, 10, 73, 68, 65, 84, 120, 156, 99, 96, 0, 0, 0, 2,
   0, 1, 72, 175, 164, 113, 0, 0, 0, 0, 73, 69, 78, 68, 174, 66, 96, 130]

/-- One pixel is taken under the policy of an empty environment. -/
theorem png_accepted_one_pixel :
    ∃ file : PngFile, file.WellFormed defaultPolicy ∧ file.bytes = onePixel ∧
      1 = number file.header.wide ∧ 1 = number file.header.tall := by
  have within : onePixel.length ≤ defaultPolicy.encoded.val := by decide
  have signed : pngSignature <+: onePixel := by decide
  have taken : preflight defaultPolicy onePixel = .ok ⟨1, 1, false⟩ := by decide +kernel
  obtain ⟨file, formed, whole, wide, tall, -⟩ :=
    (png_accepted_iff defaultPolicy within signed ⟨1, 1, false⟩).mp taken
  exact ⟨file, formed, whole, wide, tall⟩

end AIService.Image
