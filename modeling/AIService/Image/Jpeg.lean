import AIService.Image.Png

/-!
# The JPEG streams that preflight accepts

A stream is described by its marker segments.  Payloads and entropy-coded data may hold
anything that their own rules allow, so look-alikes of markers inside them are data.
`Preflight` returns a shape for a vector with the start marker exactly when the vector is such
a stream, and the shape is that of its one frame header.
-/

namespace AIService.Image

/-- A restart marker. -/
abbrev IsRestart (b : UInt8) : Prop := 208 ≤ b ∧ b ≤ 215

/-- Entropy-coded data: a run of 255 is followed by a zero or a restart marker. -/
inductive Entropy : Bytes → Prop
  | nil : Entropy []
  | byte {b : UInt8} {rest : Bytes} : b ≠ 255 → Entropy rest → Entropy (b :: rest)
  | run {b : UInt8} {rest : Bytes} (n : Nat) :
    b = 0 ∨ IsRestart b → Entropy rest → Entropy (List.replicate (n + 1) 255 ++ b :: rest)

/-- A marker, with the fill bytes in front of its code. -/
def markerBytes (fill : Nat) (marker : UInt8) (rest : Bytes) : Bytes :=
  List.replicate (fill + 1) 255 ++ marker :: rest

theorem markerBytes_length (fill : Nat) (marker : UInt8) (rest : Bytes) :
    (markerBytes fill marker rest).length = fill + 2 + rest.length := by
  simp only [markerBytes, List.length_append, List.length_replicate, List.length_cons]
  omega

/-! ## Runs of fill bytes -/

/-- Bytes are a run of 255 and what follows it. -/
theorem exists_run (rest : Bytes) :
    ∃ (n : Nat) (tail : Bytes), rest = List.replicate n 255 ++ tail ∧ tail.head? ≠ some 255 := by
  induction rest with
  | nil => exact ⟨0, [], rfl, nofun⟩
  | cons b rest ih =>
      by_cases fill : b = 255
      · obtain ⟨n, tail, rfl, ends⟩ := ih
        exact ⟨n + 1, tail, by rw [fill]; rfl, ends⟩
      · refine ⟨0, b :: rest, rfl, fun same => fill ?_⟩
        exact Option.some.inj same

section walk

variable {policy : Policy} {data rest tail payload : Bytes} {pos fuel n : Nat} {marker : UInt8}

theorem skipFill_run (small : data.length < sizeLimit)
    (unread : Unread data pos (List.replicate n 255 ++ tail)) (ends : tail.head? ≠ some 255)
    (fueled : n < fuel) : skipFill data fuel pos = .ok (pos + n) := by
  induction fuel generalizing pos n with
  | zero => omega
  | succ fuel ih =>
      have whole := unread.length
      rw [List.length_append, List.length_replicate] at whole
      rw [skipFill]
      cases n with
      | zero =>
          cases tail with
          | nil =>
              rw [if_neg (by simp at whole; omega)]
              rfl
          | cons b tail =>
              have other : b ≠ 255 := fun same => ends (congrArg some same)
              rw [List.replicate_zero, List.nil_append] at unread
              rw [if_pos (by simp at whole; omega), unread.read, ok_bind, if_neg other]
              rfl
      | succ n =>
          rw [List.replicate_succ, List.cons_append] at unread
          rw [if_pos (by omega), unread.read, ok_bind, if_pos rfl,
            add_ok data.length (by omega) small, ok_bind, ih unread.next (by omega)]
          congr 1
          omega

/-! ## Entropy-coded data -/

/-- What ends entropy-coded data: the end of the vector, or a marker that is no restart. -/
inductive ScanEnd : Bytes → Prop
  | data (n : Nat) : ScanEnd (List.replicate n 255)
  | marker {m : UInt8} {tail : Bytes} (n : Nat) :
    m ≠ 255 → ¬ (m = 0 ∨ IsRestart m) → ScanEnd (markerBytes n m tail)

theorem exists_entropy (rest : Bytes) :
    ∃ coded tail : Bytes, rest = coded ++ tail ∧ Entropy coded ∧ ScanEnd tail := by
  induction length : rest.length using Nat.strong_induction_on generalizing rest with
  | _ size ih =>
      obtain ⟨n, tail, rfl, ends⟩ := exists_run rest
      cases tail with
      | nil => exact ⟨[], List.replicate n 255, by simp, .nil, .data n⟩
      | cons b tail =>
          have other : b ≠ 255 := fun same => ends (congrArg some same)
          have shorter : tail.length < size := by
            simp only [List.length_append, List.length_cons] at length
            omega
          obtain ⟨coded, tail', rfl, entropy, ends'⟩ := ih _ shorter tail rfl
          cases n with
          | zero => exact ⟨b :: coded, tail', rfl, .byte other entropy, ends'⟩
          | succ n =>
              by_cases stuffed : b = 0 ∨ IsRestart b
              · exact ⟨List.replicate (n + 1) 255 ++ b :: coded, tail', by simp,
                  .run n stuffed entropy, ends'⟩
              · exact ⟨[], _, rfl, .nil, .marker n other stuffed⟩

/-- The walk stops at the end of the vector or before the marker. -/
theorem skipScan_end (small : data.length < sizeLimit) (unread : Unread data pos rest)
    (ends : ScanEnd rest) (fueled : 0 < fuel) :
    skipScan data fuel pos = .ok data.length ∧ (∃ n, rest = List.replicate n 255) ∨
      skipScan data fuel pos = .ok pos ∧ ∃ n m tail, rest = markerBytes n m tail ∧ m ≠ 255 := by
  obtain ⟨fuel, rfl⟩ := Nat.exists_eq_succ_of_ne_zero (Nat.ne_of_gt fueled)
  have whole := unread.length
  cases ends with
  | data n =>
      refine .inl ⟨?_, n, rfl⟩
      rw [List.length_replicate] at whole
      rw [skipScan]
      cases n with
      | zero => rw [if_neg (by omega), whole]; rfl
      | succ n =>
          rw [List.replicate_succ] at unread
          have fill : skipFill data (data.length + 1) (pos + 1) = .ok (pos + 1 + n) := by
            have next : Unread data (pos + 1) (List.replicate n 255 ++ []) := by
              rw [List.append_nil]
              exact unread.next
            have ends : ([] : Bytes).head? ≠ some 255 := fun first => by cases first
            exact skipFill_run small next ends (by omega)
          rw [if_pos (by omega), unread.read, ok_bind, if_neg (by simp),
            add_ok data.length (by omega) small, ok_bind, fill, ok_bind,
            if_pos (by omega)]
  | marker n other plain =>
      rename_i m tail
      refine .inr ⟨?_, n, m, tail, rfl, other⟩
      rw [markerBytes_length] at whole
      rw [markerBytes, List.replicate_succ, List.cons_append] at unread
      have fill : skipFill data (data.length + 1) (pos + 1) = .ok (pos + 1 + n) :=
        skipFill_run small unread.next (fun same => other (Option.some.inj same)) (by omega)
      have code : read data (pos + 1 + n) = .ok m :=
        unread.next.read_at (List.replicate n 255) List.length_replicate
      rw [skipScan, if_pos (by omega), unread.read, ok_bind, if_neg (by simp),
        add_ok data.length (by omega) small, ok_bind, fill, ok_bind,
        if_neg (by omega), code, ok_bind, if_neg plain]

/-- The walk passes over entropy-coded data. -/
theorem skipScan_entropy {coded : Bytes} (small : data.length < sizeLimit)
    (entropy : Entropy coded) (unread : Unread data pos (coded ++ rest))
    (fueled : coded.length < fuel) :
    ∃ fuel' > 0, skipScan data fuel pos = skipScan data fuel' (pos + coded.length) := by
  induction entropy generalizing pos fuel with
  | nil => exact ⟨fuel, fueled, rfl⟩
  | @byte b coded other _ ih =>
      obtain ⟨fuel, rfl⟩ := Nat.exists_eq_succ_of_ne_zero (Nat.ne_of_gt (Nat.zero_lt_of_lt fueled))
      have whole := unread.length
      rw [List.length_append, List.length_cons] at whole
      rw [List.length_cons] at fueled
      have enough : coded.length < fuel := by omega
      obtain ⟨fuel', some, same⟩ := ih unread.next enough
      refine ⟨fuel', some, ?_⟩
      rw [skipScan, if_pos (by omega), Unread.read unread, ok_bind, if_pos other,
        add_ok data.length (by omega) small, ok_bind, same, List.length_cons]
      congr 1
      omega
  | @run b coded n stuffed _ ih =>
      obtain ⟨fuel, rfl⟩ := Nat.exists_eq_succ_of_ne_zero (Nat.ne_of_gt (Nat.zero_lt_of_lt fueled))
      have whole := unread.length
      simp only [List.length_append, List.length_replicate, List.length_cons] at whole fueled
      rw [List.replicate_succ, List.cons_append, List.cons_append] at unread
      have other : b ≠ 255 := by
        rintro rfl
        revert stuffed
        decide
      have next : Unread data (pos + 1) (List.replicate n 255 ++ b :: (coded ++ rest)) := by
        have following := unread.next
        rwa [List.append_assoc, List.cons_append] at following
      have fill : skipFill data (data.length + 1) (pos + 1) = .ok (pos + 1 + n) :=
        skipFill_run small next (fun same => other (Option.some.inj same)) (by omega)
      have code : read data (pos + 1 + n) = .ok b :=
        next.read_at (List.replicate n 255) List.length_replicate
      have behind : Unread data (pos + 1 + n + 1) (coded ++ rest) := by
        have skipped := next.skip
        rw [List.length_replicate] at skipped
        exact skipped.next
      have enough : coded.length < fuel := by omega
      obtain ⟨fuel', some, same⟩ := ih behind enough
      refine ⟨fuel', some, ?_⟩
      rw [skipScan, if_pos (by omega), unread.read, ok_bind, if_neg (by simp),
        add_ok data.length (by omega) small, ok_bind, fill, ok_bind,
        if_neg (by omega), code, ok_bind, if_pos stuffed,
        add_ok data.length (by omega) small, ok_bind, same]
      congr 1
      simp only [List.length_append, List.length_replicate, List.length_cons]
      omega

end walk

/-! ## Segments -/

/-- A marker segment; entropy-coded data follows it in a scan only. -/
structure Segment where
  fill : Nat
  marker : UInt8
  digits : Bytes
  payload : Bytes
  coded : Bytes
  digits_length : digits.length = 2
  covers : number digits = payload.length + 2
  code : marker ≠ 0 ∧ marker ≠ 255 ∧ marker ≠ 216 ∧ marker ≠ 217 ∧ ¬ IsRestart marker
  entropy : Entropy coded
  scan : marker ≠ 218 → coded = []

def Segment.bytes (s : Segment) : Bytes :=
  markerBytes s.fill s.marker (s.digits ++ (s.payload ++ s.coded))

/-- The markers of frame headers. -/
def frameMarkers : List UInt8 :=
  [192, 193, 194, 195, 197, 198, 199, 201, 202, 203, 205, 206, 207]

theorem isFrame_iff (marker : UInt8) : isFrame marker = true ↔ marker ∈ frameMarkers := by
  simp only [isFrame, frameMarkers, Bool.and_eq_true, decide_eq_true_eq, bne_iff_ne, ne_eq,
    List.mem_cons, List.not_mem_nil, or_false, UInt8.le_iff_toNat_le, ← UInt8.toNat_inj,
    UInt8.reduceToNat]
  omega

/-- A frame header with a precision of 8 bits. -/
structure FrameHeader where
  tall : Bytes
  wide : Bytes
  components : UInt8
  specs : Bytes
  tall_length : tall.length = 2
  wide_length : wide.length = 2
  supported : components = 1 ∨ components = 3 ∨ components = 4
  specs_length : specs.length = 3 * components.toNat

def FrameHeader.bytes (h : FrameHeader) : Bytes :=
  8 :: (h.tall ++ (h.wide ++ h.components :: h.specs))

theorem FrameHeader.bytes_length (h : FrameHeader) :
    h.bytes.length = 6 + 3 * h.components.toNat := by
  simp [FrameHeader.bytes, h.tall_length, h.wide_length, h.specs_length]
  omega

def FrameHeader.shape (h : FrameHeader) : Shape where
  width := bigEndian h.wide
  height := bigEndian h.tall
  jpeg := true

/-- The payload of a scan header: its components, two bytes for each, and three more. -/
def ScanHeader (payload : Bytes) : Prop :=
  ∃ (components : UInt8) (specs : Bytes),
    payload = components :: specs ∧ specs.length = 2 * components.toNat + 3

section segments

variable {policy : Policy} {data rest payload digits : Bytes} {pos : Nat} {marker : UInt8}

/-- The length at the head of a segment. -/
theorem Unread.segmentLength (unread : Unread data pos (digits ++ (payload ++ rest)))
    (length : digits.length = 2) : Image.readRange data pos 2 = .ok digits :=
  unread.readRange_at [] 0 rfl length

/-- Six bytes or more are the pieces of a frame header. -/
theorem exists_framePieces (payload : Bytes) (long : 6 ≤ payload.length) :
    ∃ (precision : UInt8) (tall wide : Bytes) (components : UInt8) (specs : Bytes),
      tall.length = 2 ∧ wide.length = 2 ∧
        payload = precision :: (tall ++ (wide ++ components :: specs)) := by
  obtain ⟨first, tail, l₁, rfl⟩ := exists_chunk payload 1 (by omega)
  rw [List.length_append, l₁] at long
  obtain ⟨tall, tail, l₂, rfl⟩ := exists_chunk tail 2 (by omega)
  rw [List.length_append, l₂] at long
  obtain ⟨wide, tail, l₃, rfl⟩ := exists_chunk tail 2 (by omega)
  rw [List.length_append, l₃] at long
  obtain ⟨last, specs, l₄, rfl⟩ := exists_chunk tail 1 (by omega)
  obtain ⟨precision, rfl⟩ := List.length_eq_one_iff.mp l₁
  obtain ⟨components, rfl⟩ := List.length_eq_one_iff.mp l₄
  exact ⟨precision, tall, wide, components, specs, l₂, l₃, rfl⟩

/-- The reads of a frame header. -/
theorem Unread.frameReads {precision components : UInt8} {tall wide specs : Bytes}
    (unread : Unread data pos
      (digits ++ ((precision :: (tall ++ (wide ++ components :: specs))) ++ rest)))
    (length : digits.length = 2) (l₂ : tall.length = 2) (l₃ : wide.length = 2) :
    Image.read data (pos + 2) = .ok precision ∧ Image.readRange data (pos + 3) 2 = .ok tall ∧
      Image.readRange data (pos + 5) 2 = .ok wide ∧ Image.read data (pos + 7) = .ok components := by
  refine ⟨unread.read_at _ length, ?_, ?_, ?_⟩
  · have there : Unread data pos
        ((digits ++ [precision]) ++ (tall ++ (wide ++ components :: (specs ++ rest)))) := by
      simpa using unread
    exact there.readRange_at _ 3 (by simp [length]) l₂
  · have there : Unread data pos
        ((digits ++ (precision :: tall)) ++ (wide ++ components :: (specs ++ rest))) := by
      simpa using unread
    exact there.readRange_at _ 5 (by simp [length, l₂]) l₃
  · have there : Unread data pos
        ((digits ++ (precision :: (tall ++ wide))) ++ (components :: (specs ++ rest))) := by
      simpa using unread
    exact there.read_at _ (by simp [length, l₂, l₃])

/-- A frame header has its pieces at fixed places. -/
theorem FrameHeader.pieces {precision components : UInt8} {tall wide specs : Bytes} (h : FrameHeader)
    (same : precision :: (tall ++ (wide ++ components :: specs)) = h.bytes) (l₂ : tall.length = 2)
    (l₃ : wide.length = 2) :
    precision = 8 ∧ tall = h.tall ∧ wide = h.wide ∧ components = h.components ∧ specs = h.specs := by
  obtain ⟨first, rest⟩ := List.cons.inj same
  obtain ⟨talls, rest⟩ := List.append_inj rest (l₂.trans h.tall_length.symm)
  obtain ⟨wides, rest⟩ := List.append_inj rest (l₃.trans h.wide_length.symm)
  obtain ⟨count, last⟩ := List.cons.inj rest
  exact ⟨first, talls, wides, count, last⟩

theorem jpegFrame_iff {framed : Bool} {shape : Shape}
    (unread : Unread data pos (digits ++ (payload ++ rest))) (length : digits.length = 2) :
    jpegFrame policy data marker framed pos (payload.length + 2) = .ok shape ↔
      framed = false ∧ (marker = 192 ∨ marker = 193 ∨ marker = 194) ∧
        ∃ h : FrameHeader, payload = h.bytes ∧ shape = h.shape ∧
          InBudget policy (number h.wide) (number h.tall) := by
  rw [jpegFrame]
  split
  case isTrue unsupported =>
    refine ⟨nofun, ?_⟩
    rintro ⟨rfl, supported, h, rfl, -⟩
    rw [h.bytes_length] at unsupported
    rcases supported with rfl | rfl | rfl <;> simp at unsupported <;> omega
  case isFalse supported =>
  simp only [Bool.or_eq_true, Bool.and_eq_true, bne_iff_ne, decide_eq_true_eq, not_or,
    Bool.not_eq_true] at supported
  obtain ⟨⟨marked, unframed⟩, long⟩ := supported
  obtain ⟨precision, tall, wide, components, specs, l₂, l₃, rfl⟩ :=
    exists_framePieces payload (by omega)
  obtain ⟨reads, height, width, count⟩ := unread.frameReads length l₂ l₃
  rw [reads, ok_bind]
  split
  case isTrue imprecise =>
    refine ⟨nofun, ?_⟩
    rintro ⟨-, -, h, same, -⟩
    exact absurd (h.pieces same l₂ l₃).1 imprecise
  case isFalse precise =>
  rw [not_not] at precise
  subst precise
  rw [count, ok_bind]
  split
  case isTrue mismatch =>
    refine ⟨nofun, ?_⟩
    rintro ⟨-, -, h, same, -⟩
    obtain ⟨-, -, -, rfl, -⟩ := h.pieces same l₂ l₃
    have whole := h.bytes_length
    rw [← same] at whole
    rcases mismatch with unsupported | other
    · rcases h.supported with one | three | four
      · exact absurd one unsupported.1
      · exact absurd three unsupported.2.1
      · exact absurd four unsupported.2.2
    · omega
  case isFalse matched =>
  rw [not_or] at matched
  obtain ⟨supported, matches_⟩ := matched
  have supported : components = 1 ∨ components = 3 ∨ components = 4 := by
    by_contra none
    exact supported (by simpa [not_or] using none)
  have marked : marker = 192 ∨ marker = 193 ∨ marker = 194 := by
    by_contra none
    exact marked (by simpa [not_or, and_assoc] using none)
  have specified : specs.length = 3 * components.toNat := by
    simp only [List.length_cons, List.length_append, l₂, l₃] at matches_
    omega
  rw [width, height, ok_bind, ok_bind]
  have budget : checkShape policy (bigEndian wide) (bigEndian tall) = .ok () ↔ _ := checkShape_ok
  rw [bigEndian_toNat (by omega), bigEndian_toNat (by omega)] at budget
  show (checkShape policy (bigEndian wide) (bigEndian tall) >>= fun _ =>
    pure ⟨bigEndian wide, bigEndian tall, true⟩) = .ok shape ↔ _
  constructor
  · intro ok
    cases checked : checkShape policy (bigEndian wide) (bigEndian tall) with
    | error fault =>
        rw [checked] at ok
        cases ok
    | ok _ =>
        rw [checked, ok_bind] at ok
        cases ok
        refine ⟨unframed, marked, ⟨tall, wide, components, specs, l₂, l₃, supported,
          specified⟩, rfl, rfl, budget.mp checked⟩
  · rintro ⟨-, -, h, same, rfl, within⟩
    obtain ⟨-, rfl, rfl, -, -⟩ := h.pieces same l₂ l₃
    rw [budget.mpr within]
    rfl

theorem jpegScan_iff {framed : Bool} {next : Nat} (small : data.length < sizeLimit)
    (unread : Unread data pos (digits ++ (payload ++ rest))) (length : digits.length = 2) :
    jpegScan data framed pos (payload.length + 2) = .ok next ↔
      framed = true ∧ ScanHeader payload ∧
        skipScan data (data.length + 1) (pos + (payload.length + 2)) = .ok next := by
  have whole := unread.length
  simp only [List.length_append, length] at whole
  rw [jpegScan]
  split
  case isTrue early =>
    refine ⟨nofun, ?_⟩
    rintro ⟨rfl, ⟨components, specs, rfl, covered⟩, -⟩
    rw [List.length_cons] at early
    simp only [Bool.true_eq_false, false_or] at early
    omega
  case isFalse ready =>
  simp only [not_or, Bool.not_eq_false] at ready
  cases payload with
  | nil => exact absurd ready.2 (by simp)
  | cons components specs =>
      have reads : read data (pos + 2) = .ok components := unread.read_at _ length
      rw [reads, ok_bind]
      split
      case isTrue mismatch =>
        refine ⟨nofun, ?_⟩
        rintro ⟨-, ⟨components', specs', same, covered⟩, -⟩
        obtain ⟨rfl, rfl⟩ := List.cons.inj same
        rw [List.length_cons] at mismatch
        omega
      case isFalse matched =>
      have size : add pos ((components :: specs).length + 2) =
          .ok (pos + ((components :: specs).length + 2)) :=
        add_ok data.length (by omega) small
      rw [size, ok_bind]
      rw [not_not, List.length_cons] at matched
      have header : ScanHeader (components :: specs) := ⟨components, specs, rfl, by omega⟩
      exact ⟨fun ok => ⟨ready.1, header, ok⟩, fun ok => ok.2.2⟩

theorem frameAfter_iff {frame frame' : Option Shape}
    (unread : Unread data pos (digits ++ (payload ++ rest))) (length : digits.length = 2) :
    frameAfter policy data marker frame pos (payload.length + 2) = .ok frame' ↔
      marker ∉ frameMarkers ∧ frame' = frame ∨
      (marker = 192 ∨ marker = 193 ∨ marker = 194) ∧ frame = none ∧
        ∃ h : FrameHeader, payload = h.bytes ∧ frame' = some h.shape ∧
          InBudget policy (number h.wide) (number h.tall) := by
  rw [frameAfter]
  split
  case isTrue header =>
    rw [isFrame_iff] at header
    constructor
    · intro ok
      cases framed : jpegFrame policy data marker frame.isSome pos (payload.length + 2) with
      | error fault =>
          rw [framed] at ok
          cases ok
      | ok shape =>
          rw [framed] at ok
          cases ok
          obtain ⟨first, marked, h, whole, rfl, within⟩ := (jpegFrame_iff unread length).mp framed
          exact .inr ⟨marked, Option.not_isSome_iff_eq_none.mp (by simp [first]), h, whole, rfl,
            within⟩
    · rintro (⟨other, -⟩ | ⟨marked, rfl, h, whole, rfl, within⟩)
      · exact absurd header other
      · rw [Option.isSome_none,
          (jpegFrame_iff unread length).mpr ⟨rfl, marked, h, whole, rfl, within⟩]
        rfl
  case isFalse other =>
    rw [isFrame_iff] at other
    constructor
    · intro ok
      cases ok
      exact .inl ⟨other, rfl⟩
    · rintro (⟨-, rfl⟩ | ⟨marked, -⟩)
      · rfl
      · refine absurd ?_ other
        rcases marked with rfl | rfl | rfl <;> decide

end segments

/-! ## The walk over the markers -/

/-- The markers up to the end marker; `frame` and `scan` say what was in front of them. -/
inductive Segments (policy : Policy) : Option Shape → Bool → Bytes → Shape → Prop
  | done {shape : Shape} (fill : Nat) (trailer : Bytes) :
    Segments policy (some shape) true (markerBytes fill 217 trailer) shape
  | table {frame : Option Shape} {scan : Bool} {rest : Bytes} {shape : Shape} (s : Segment) :
    s.marker ∉ frameMarkers → s.marker ≠ 218 → Segments policy frame scan rest shape →
    Segments policy frame scan (s.bytes ++ rest) shape
  | frame {scan : Bool} {rest : Bytes} {shape : Shape} (s : Segment) (h : FrameHeader) :
    s.marker = 192 ∨ s.marker = 193 ∨ s.marker = 194 → s.payload = h.bytes →
    InBudget policy (number h.wide) (number h.tall) →
    Segments policy (some h.shape) scan rest shape →
    Segments policy none scan (s.bytes ++ rest) shape
  | scan {first : Shape} {scan : Bool} {rest : Bytes} {shape : Shape} (s : Segment) :
    s.marker = 218 → ScanHeader s.payload → Segments policy (some first) true rest shape →
    Segments policy (some first) scan (s.bytes ++ rest) shape

section markers

variable {policy : Policy} {data rest tail payload digits : Bytes} {pos fuel fill : Nat}
  {marker : UInt8} {frame : Option Shape} {scan : Bool} {shape : Shape}

/-- What follows a marker that is not the end marker. -/
def jpegSegment (policy : Policy) (data : Bytes) (fuel pos : Nat) (marker : UInt8)
    (frame : Option Shape) (scan : Bool) : Except Fault Shape := do
  let room ← sub data.length pos
  if room < 2 then invalid "Truncated JPEG image"
  else do
    let len := (bigEndian (← readRange data pos 2)).toNat
    if len < 2 ∨ room < len then invalid "Invalid JPEG segment length"
    else do
      let frame ← frameAfter policy data marker frame pos len
      if marker = 218 then do
        let pos ← jpegScan data frame.isSome pos len
        jpegMarkers policy data fuel pos frame true
      else do
        let pos ← add pos len
        jpegMarkers policy data fuel pos frame scan

theorem jpegMarkers_marker (small : data.length < sizeLimit)
    (unread : Unread data pos (markerBytes fill marker tail)) (code : marker ≠ 255) :
    jpegMarkers policy data (fuel + 1) pos frame scan =
      if marker = 217 then endOfImage frame scan
      else if marker = 0 ∨ marker = 216 ∨ IsRestart marker then
        invalid "Invalid JPEG marker sequence"
      else jpegSegment policy data fuel (pos + 1 + fill + 1) marker frame scan := by
  have whole := unread.length
  rw [markerBytes_length] at whole
  rw [markerBytes, List.replicate_succ, List.cons_append] at unread
  have filled : skipFill data (data.length + 1) (pos + 1) = .ok (pos + 1 + fill) :=
    skipFill_run small unread.next (fun same => code (Option.some.inj same)) (by omega)
  have coded : read data (pos + 1 + fill) = .ok marker :=
    unread.next.read_at (List.replicate fill 255) List.length_replicate
  rw [jpegMarkers, if_pos (by omega), unread.read, ok_bind, if_neg (by simp),
    add_ok data.length (by omega) small, ok_bind, filled, ok_bind, if_neg (by omega),
    coded, ok_bind, add_ok data.length (by omega) small, ok_bind]
  rfl

/-- A turn of the loop that does not throw has a marker before it. -/
theorem exists_marker_of_ok (small : data.length < sizeLimit) (unread : Unread data pos rest)
    (ok : jpegMarkers policy data (fuel + 1) pos frame scan = .ok shape) :
    ∃ (fill : Nat) (marker : UInt8) (tail : Bytes),
      rest = markerBytes fill marker tail ∧ marker ≠ 255 := by
  obtain ⟨n, tail, rfl, ends⟩ := exists_run rest
  have whole := unread.length
  rw [List.length_append, List.length_replicate] at whole
  rw [jpegMarkers] at ok
  split at ok
  case isFalse => cases ok
  case isTrue inside =>
  cases n with
  | zero =>
      cases tail with
      | nil =>
          rw [List.length_nil] at whole
          omega
      | cons b tail =>
          have other : b ≠ 255 := fun same => ends (congrArg some same)
          rw [List.replicate_zero, List.nil_append] at unread
          rw [unread.read, ok_bind, if_pos other] at ok
          cases ok
  | succ n =>
      cases tail with
      | cons b tail => exact ⟨n, b, tail, rfl, fun same => ends (congrArg some same)⟩
      | nil =>
          rw [List.replicate_succ, List.cons_append] at unread
          rw [List.length_nil] at whole
          rw [unread.read, ok_bind, if_neg (by simp),
            add_ok data.length (by omega) small, ok_bind,
            skipFill_run small unread.next ends (by omega), ok_bind, if_pos (by omega)] at ok
          cases ok

theorem jpegSegment_eq (small : data.length < sizeLimit)
    (unread : Unread data pos (digits ++ (payload ++ rest))) (length : digits.length = 2)
    (covers : number digits = payload.length + 2) :
    jpegSegment policy data fuel pos marker frame scan =
      (frameAfter policy data marker frame pos (payload.length + 2) >>= fun frame =>
        if marker = 218 then
          jpegScan data frame.isSome pos (payload.length + 2) >>= fun pos =>
            jpegMarkers policy data fuel pos frame true
        else jpegMarkers policy data fuel (pos + (payload.length + 2)) frame scan) := by
  have whole := unread.length
  simp only [List.length_append, length] at whole
  have size : add pos (payload.length + 2) = .ok (pos + (payload.length + 2)) :=
    add_ok data.length (by omega) small
  rw [jpegSegment, sub_ok (by omega), ok_bind, if_neg (by omega), unread.segmentLength length,
    ok_bind, bigEndian_toNat (by omega), covers, if_neg (by omega), size]
  rfl

theorem exists_segment_of_ok (unread : Unread data pos rest)
    (ok : jpegSegment policy data fuel pos marker frame scan = .ok shape) :
    ∃ digits payload after : Bytes, digits.length = 2 ∧ number digits = payload.length + 2 ∧
      rest = digits ++ (payload ++ after) := by
  have whole := unread.length
  rw [jpegSegment, sub_ok (by omega), ok_bind] at ok
  split at ok
  case isTrue => cases ok
  case isFalse room =>
  obtain ⟨digits, tail, length, rfl⟩ := exists_chunk rest 2 (by omega)
  have first : readRange data pos 2 = .ok digits :=
    unread.readRange_at [] 0 rfl length
  rw [first, ok_bind, bigEndian_toNat (by omega)] at ok
  by_cases uncovered : number digits < 2 ∨ data.length - pos < number digits
  · rw [if_pos uncovered] at ok
    cases ok
  rw [List.length_append] at whole
  obtain ⟨payload, after, exact_, rfl⟩ :=
    exists_chunk tail (number digits - 2) (by omega)
  exact ⟨digits, payload, after, length, by omega, rfl⟩

/-- What is left to read starts with a marker that ends entropy-coded data. -/
theorem Segments.scanEnd (segments : Segments policy frame scan rest shape) : ScanEnd rest := by
  have start (s : Segment) (after : Bytes) : ScanEnd (s.bytes ++ after) := by
    obtain ⟨zero, fill, -, -, restart⟩ := s.code
    rw [Segment.bytes, markerBytes, List.append_assoc, List.cons_append]
    exact .marker s.fill fill (not_or.mpr ⟨zero, restart⟩)
  cases segments with
  | done fill trailer => exact .marker fill (by decide) (by decide)
  | table s => exact start s _
  | frame s => exact start s _
  | scan s => exact start s _

theorem Segments.not_run (segments : Segments policy frame scan rest shape) {n : Nat} :
    rest ≠ List.replicate n 255 := by
  have start {fill : Nat} {m : UInt8} {tail : Bytes} (other : m ≠ 255) :
      markerBytes fill m tail ≠ List.replicate n 255 := by
    intro run
    have member : m ∈ markerBytes fill m tail := by simp [markerBytes]
    rw [run] at member
    exact other (List.eq_of_mem_replicate member)
  have segment (s : Segment) (after : Bytes) : s.bytes ++ after ≠ List.replicate n 255 := by
    rw [Segment.bytes, markerBytes, List.append_assoc, List.cons_append]
    exact start s.code.2.1
  cases segments with
  | done fill trailer => exact start (by decide)
  | table s => exact segment s _
  | frame s => exact segment s _
  | scan s => exact segment s _

/-- The end of a scan, as the loop over the markers finds it. -/
theorem skipScan_segment {coded : Bytes} (small : data.length < sizeLimit)
    (entropy : Entropy coded) (ends : ScanEnd rest)
    (unread : Unread data pos (coded ++ rest)) :
    skipScan data (data.length + 1) pos = .ok data.length ∧
        (∃ n, rest = List.replicate n 255) ∨
      skipScan data (data.length + 1) pos = .ok (pos + coded.length) ∧
        ∃ n m tail, rest = markerBytes n m tail ∧ m ≠ 255 := by
  have whole := unread.length
  rw [List.length_append] at whole
  have enough : coded.length < data.length + 1 := by omega
  obtain ⟨fuel', some, same⟩ := skipScan_entropy small entropy unread enough
  rw [same]
  exact skipScan_end small unread.skip ends some

theorem Unread.behindMarker (unread : Unread data pos (markerBytes fill marker rest)) :
    Unread data (pos + 1 + fill + 1) rest := by
  rw [markerBytes, List.replicate_succ, List.cons_append] at unread
  have behind := unread.next.skip
  rw [List.length_replicate] at behind
  exact behind.next

theorem Segment.bytes_append (s : Segment) (rest : Bytes) :
    s.bytes ++ rest = markerBytes s.fill s.marker (s.digits ++ (s.payload ++ (s.coded ++ rest))) := by
  simp [Segment.bytes, markerBytes]

/-- A turn of the loop over a segment. -/
theorem jpegMarkers_segment (small : data.length < sizeLimit) (s : Segment)
    (unread : Unread data pos (s.bytes ++ rest)) :
    jpegMarkers policy data (fuel + 1) pos frame scan =
      (frameAfter policy data s.marker frame (pos + 1 + s.fill + 1) (s.payload.length + 2) >>=
        fun frame =>
          if s.marker = 218 then
            jpegScan data frame.isSome (pos + 1 + s.fill + 1) (s.payload.length + 2) >>= fun pos =>
              jpegMarkers policy data fuel pos frame true
          else jpegMarkers policy data fuel (pos + 1 + s.fill + 1 + (s.payload.length + 2))
            frame scan) := by
  obtain ⟨zero, full, start, finish, restart⟩ := s.code
  rw [s.bytes_append] at unread
  rw [jpegMarkers_marker small unread full, if_neg finish,
    if_neg (not_or.mpr ⟨zero, not_or.mpr ⟨start, restart⟩⟩),
    jpegSegment_eq small unread.behindMarker s.digits_length s.covers]

/-- Behind the payload of a segment. -/
theorem Unread.behindPayload (unread : Unread data pos (digits ++ (payload ++ rest)))
    (length : digits.length = 2) : Unread data (pos + (payload.length + 2)) rest := by
  have behind := unread.skip.skip
  rwa [length, Nat.add_assoc, Nat.add_comm 2] at behind

/-- Nothing is left to read at the end, so the loop throws there. -/
theorem jpegMarkers_end (small : data.length < sizeLimit) :
    jpegMarkers policy data fuel data.length frame scan ≠ .ok shape := by
  intro ok
  cases fuel with
  | zero => cases ok
  | succ fuel =>
      have unread : Unread data data.length [] := ⟨data, rfl, List.append_nil _⟩
      obtain ⟨n, m, tail, none, -⟩ := exists_marker_of_ok small unread ok
      have length := congrArg List.length none
      rw [markerBytes_length, List.length_nil] at length
      omega

theorem Segment.shorter (s : Segment) (fueled : (s.bytes ++ rest).length < fuel + 1) :
    rest.length < fuel := by
  rw [s.bytes_append, markerBytes_length] at fueled
  simp only [List.length_append] at fueled
  omega

theorem Unread.behindSegment (s : Segment) (unread : Unread data pos (s.bytes ++ rest)) :
    Unread data (pos + 1 + s.fill + 1) (s.digits ++ (s.payload ++ (s.coded ++ rest))) ∧
      Unread data (pos + 1 + s.fill + 1 + (s.payload.length + 2)) (s.coded ++ rest) := by
  rw [s.bytes_append] at unread
  exact ⟨unread.behindMarker, unread.behindMarker.behindPayload s.digits_length⟩

/-- The loop over the markers accepts a stream of segments. -/
theorem Segments.accepted (small : data.length < sizeLimit)
    (segments : Segments policy frame scan rest shape) (unread : Unread data pos rest)
    (fueled : rest.length < fuel) :
    jpegMarkers policy data fuel pos frame scan = .ok shape := by
  induction segments generalizing pos fuel with
  | done trailerFill trailer =>
      obtain ⟨fuel, rfl⟩ := Nat.exists_eq_succ_of_ne_zero (Nat.ne_of_gt (Nat.zero_lt_of_lt fueled))
      rw [jpegMarkers_marker small unread (by decide), if_pos rfl]
      rfl
  | table s other plain _ ih =>
      obtain ⟨fuel, rfl⟩ := Nat.exists_eq_succ_of_ne_zero (Nat.ne_of_gt (Nat.zero_lt_of_lt fueled))
      obtain ⟨behind, past⟩ := unread.behindSegment s
      rw [jpegMarkers_segment small s unread,
        (frameAfter_iff behind s.digits_length).mpr (.inl ⟨other, rfl⟩), ok_bind, if_neg plain]
      rw [s.scan plain, List.nil_append] at past
      exact ih past (s.shorter fueled)
  | frame s h marked framedBy within _ ih =>
      obtain ⟨fuel, rfl⟩ := Nat.exists_eq_succ_of_ne_zero (Nat.ne_of_gt (Nat.zero_lt_of_lt fueled))
      have plain : s.marker ≠ 218 := by
        rcases marked with same | same | same <;> rw [same] <;> decide
      obtain ⟨behind, past⟩ := unread.behindSegment s
      rw [jpegMarkers_segment small s unread, (frameAfter_iff behind s.digits_length).mpr
        (.inr ⟨marked, rfl, h, framedBy, rfl, within⟩), ok_bind, if_neg plain]
      rw [s.scan plain, List.nil_append] at past
      exact ih past (s.shorter fueled)
  | @scan first _ after _ s scans header segments ih =>
      obtain ⟨fuel, rfl⟩ := Nat.exists_eq_succ_of_ne_zero (Nat.ne_of_gt (Nat.zero_lt_of_lt fueled))
      obtain ⟨behind, past⟩ := unread.behindSegment s
      have other : s.marker ∉ frameMarkers := by
        rw [scans]
        decide
      have stop : skipScan data (data.length + 1)
          (pos + 1 + s.fill + 1 + (s.payload.length + 2)) =
            .ok (pos + 1 + s.fill + 1 + (s.payload.length + 2) + s.coded.length) := by
        rcases skipScan_segment small s.entropy segments.scanEnd past with
          ⟨-, n, none⟩ | ⟨stop, -⟩
        · exact absurd none segments.not_run
        · exact stop
      have walked : jpegScan data (some first).isSome (pos + 1 + s.fill + 1)
          (s.payload.length + 2) = .ok _ :=
        (jpegScan_iff small behind s.digits_length).mpr ⟨rfl, header, stop⟩
      rw [jpegMarkers_segment small s unread,
        (frameAfter_iff behind s.digits_length).mpr (.inl ⟨other, rfl⟩), ok_bind, if_pos scans,
        walked, ok_bind]
      exact ih past.skip (s.shorter fueled)

/-- A stream that the loop over the markers accepts is one of segments. -/
theorem segments_of_accepted (small : data.length < sizeLimit) (unread : Unread data pos rest)
    (fueled : rest.length < fuel) (ok : jpegMarkers policy data fuel pos frame scan = .ok shape) :
    Segments policy frame scan rest shape := by
  induction fuel generalizing pos rest frame scan with
  | zero => omega
  | succ fuel ih =>
      obtain ⟨fill, marker, tail, rfl, full⟩ := exists_marker_of_ok small unread ok
      rw [jpegMarkers_marker small unread full] at ok
      split at ok
      case isTrue finish =>
        subst finish
        unfold endOfImage at ok
        split at ok
        case h_2 => cases ok
        case h_1 first =>
        split at ok
        case isFalse => cases ok
        case isTrue scanned =>
        cases ok
        subst scanned
        exact .done fill tail
      case isFalse finish =>
      split at ok
      case isTrue => cases ok
      case isFalse sequence =>
      simp only [not_or] at sequence
      have behind := unread.behindMarker
      obtain ⟨digits, payload, after, length, covers, rfl⟩ := exists_segment_of_ok behind ok
      have past := behind.behindPayload length
      rw [jpegSegment_eq small behind length covers] at ok
      rw [markerBytes_length] at fueled
      simp only [List.length_append] at fueled
      cases framed : frameAfter policy data marker frame (pos + 1 + fill + 1)
          (payload.length + 2) with
      | error fault =>
          rw [framed] at ok
          cases ok
      | ok frame' =>
          rw [framed, ok_bind] at ok
          have header := (frameAfter_iff behind length).mp framed
          by_cases scans : marker = 218
          · rw [if_pos scans] at ok
            subst scans
            obtain ⟨other, rfl⟩ : (218 : UInt8) ∉ frameMarkers ∧ frame' = frame := by
              rcases header with plain | ⟨marked, -⟩
              · exact plain
              · exact absurd marked (by decide)
            cases walked : jpegScan data frame'.isSome (pos + 1 + fill + 1)
                (payload.length + 2) with
            | error fault =>
                rw [walked] at ok
                cases ok
            | ok next =>
                rw [walked, ok_bind] at ok
                obtain ⟨some, scanHeader, walk⟩ := (jpegScan_iff small behind length).mp walked
                obtain ⟨first, rfl⟩ := Option.isSome_iff_exists.mp some
                obtain ⟨coded, tail, rfl, entropy, ends⟩ := exists_entropy after
                rcases skipScan_segment small entropy ends past with ⟨stop, -⟩ | ⟨stop, -⟩
                · cases walk.symm.trans stop
                  exact absurd ok (jpegMarkers_end small)
                · cases walk.symm.trans stop
                  rw [List.length_append] at fueled
                  have segments := ih past.skip (by omega) ok
                  let s : Segment := ⟨fill, 218, digits, payload, coded, length, covers,
                    by decide, entropy, fun no => absurd rfl no⟩
                  have whole := s.bytes_append tail
                  exact whole ▸ .scan s rfl scanHeader segments
          · rw [if_neg scans] at ok
            have segments := ih past (by omega) ok
            let s : Segment := ⟨fill, marker, digits, payload, [], length, covers,
              ⟨sequence.1, full, sequence.2.1, finish, sequence.2.2⟩, .nil, fun _ => rfl⟩
            have whole := s.bytes_append after
            rcases header with ⟨other, rfl⟩ | ⟨marked, rfl, h, framedBy, rfl, within⟩
            · exact whole ▸ .table s other scans segments
            · exact whole ▸ .frame s h marked framedBy within segments

/-- The loop over the markers returns for the streams of `Segments`. -/
theorem jpegMarkers_iff (small : data.length < sizeLimit) (unread : Unread data pos rest)
    (fueled : rest.length < fuel) :
    jpegMarkers policy data fuel pos frame scan = .ok shape ↔
      Segments policy frame scan rest shape :=
  ⟨segments_of_accepted small unread fueled, fun segments =>
    segments.accepted small unread fueled⟩

end markers

/-! ## Files -/

/-- What a JPEG file is made of, behind its start marker. -/
structure JpegFile where
  before : List Segment
  frame : Segment
  header : FrameHeader
  after : List Segment
  fill : Nat
  trailer : Bytes

namespace JpegFile

def bytes (file : JpegFile) : Bytes :=
  [255, 216] ++ (file.before.flatMap Segment.bytes ++ (file.frame.bytes ++
    (file.after.flatMap Segment.bytes ++ markerBytes file.fill 217 file.trailer)))

/-- The conditions on a file that is taken: one frame header, of a type that is supported, at
least one scan, and no scan in front of the frame header. -/
structure WellFormed (policy : Policy) (file : JpegFile) : Prop where
  before : ∀ s ∈ file.before, s.marker ∉ frameMarkers ∧ s.marker ≠ 218
  frame : file.frame.marker = 192 ∨ file.frame.marker = 193 ∨ file.frame.marker = 194
  header : file.frame.payload = file.header.bytes
  after : ∀ s ∈ file.after, s.marker ∉ frameMarkers ∧ (s.marker = 218 → ScanHeader s.payload)
  scan : ∃ s ∈ file.after, s.marker = 218
  budget : InBudget policy (number file.header.wide) (number file.header.tall)

end JpegFile

section files

variable {policy : Policy} {rest : Bytes} {scan : Bool} {first shape : Shape}

theorem Segments.after_frame (segments : Segments policy (some first) scan rest shape) :
    shape = first ∧ ∃ (after : List Segment) (fill : Nat) (trailer : Bytes),
      rest = after.flatMap Segment.bytes ++ markerBytes fill 217 trailer ∧
      (∀ s ∈ after, s.marker ∉ frameMarkers ∧ (s.marker = 218 → ScanHeader s.payload)) ∧
      (scan ∨ ∃ s ∈ after, s.marker = 218) := by
  generalize framed : some first = frame at segments
  induction segments with
  | done fill trailer =>
      cases framed
      exact ⟨rfl, [], fill, trailer, rfl, nofun, .inl rfl⟩
  | @table _ _ _ _ s other plain _ ih =>
      obtain ⟨same, after, fill, trailer, rfl, all, some⟩ := ih framed
      refine ⟨same, s :: after, fill, trailer, ?_, ?_, ?_⟩
      · rw [List.flatMap_cons, List.append_assoc]
      · exact List.forall_mem_cons.mpr ⟨⟨other, fun scans => absurd scans plain⟩, all⟩
      · exact some.imp_right fun ⟨s', member, scans⟩ => ⟨s', List.mem_cons_of_mem _ member, scans⟩
  | frame => cases framed
  | @scan _ _ _ _ s scans header _ ih =>
      obtain ⟨same, after, fill, trailer, rfl, all, -⟩ := ih framed
      refine ⟨same, s :: after, fill, trailer, ?_, ?_, .inr ⟨s, List.mem_cons_self, scans⟩⟩
      · rw [List.flatMap_cons, List.append_assoc]
      · refine List.forall_mem_cons.mpr ⟨⟨?_, fun _ => header⟩, all⟩
        rw [scans]
        decide

theorem segments_after_frame {after : List Segment} {fill : Nat} {trailer : Bytes}
    (all : ∀ s ∈ after, s.marker ∉ frameMarkers ∧ (s.marker = 218 → ScanHeader s.payload))
    (scanned : scan ∨ ∃ s ∈ after, s.marker = 218) :
    Segments policy (some first) scan
      (after.flatMap Segment.bytes ++ markerBytes fill 217 trailer) first := by
  induction after generalizing scan with
  | nil =>
      obtain rfl : scan = true := scanned.resolve_right (by simp)
      exact .done fill trailer
  | cons s after ih =>
      have here := all s List.mem_cons_self
      have later := fun s' member => all s' (List.mem_cons_of_mem _ member)
      rw [List.flatMap_cons, List.append_assoc]
      by_cases scans : s.marker = 218
      · exact .scan s scans (here.2 scans) (ih later (.inl rfl))
      · refine .table s here.1 scans (ih later ?_)
        rw [List.exists_mem_cons_iff] at scanned
        exact scanned.imp_right fun found => found.resolve_left scans

theorem Segments.before_frame (segments : Segments policy none false rest shape) :
    ∃ file : JpegFile, file.WellFormed policy ∧ file.bytes = [255, 216] ++ rest ∧
      shape = file.header.shape := by
  generalize framed : none = frame at segments
  generalize scanned : false = scan at segments
  induction segments with
  | done => cases framed
  | @table _ _ _ _ s other plain _ ih =>
      obtain ⟨file, formed, whole, same⟩ := ih framed scanned
      refine ⟨{ file with before := s :: file.before },
        { formed with before := List.forall_mem_cons.mpr ⟨⟨other, plain⟩, formed.before⟩ }, ?_,
        same⟩
      have tail := List.append_cancel_left whole
      rw [← tail]
      simp [JpegFile.bytes]
  | frame s h marked framedBy within segments =>
      cases scanned
      obtain ⟨rfl, after, fill, trailer, rfl, all, some⟩ := segments.after_frame
      have formed : JpegFile.WellFormed policy ⟨[], s, h, after, fill, trailer⟩ :=
        { before := nofun, frame := marked, header := framedBy, after := all
          scan := some.resolve_left (by simp), budget := within }
      exact ⟨_, formed, rfl, rfl⟩
  | scan => cases framed

theorem segments_before_frame {file : JpegFile} (formed : file.WellFormed policy) :
    Segments policy none false
      (file.before.flatMap Segment.bytes ++ (file.frame.bytes ++
        (file.after.flatMap Segment.bytes ++ markerBytes file.fill 217 file.trailer)))
      file.header.shape := by
  obtain ⟨before, frame, header, after, fill, trailer⟩ := file
  obtain ⟨all, marked, framedBy, later, scanned, within⟩ := formed
  dsimp only at all marked framedBy later scanned within ⊢
  have tail : Segments policy (some header.shape) false
      (after.flatMap Segment.bytes ++ markerBytes fill 217 trailer) header.shape :=
    segments_after_frame later (.inr scanned)
  induction before with
  | nil => exact .frame frame header marked framedBy within tail
  | cons s before ih =>
      have here := all s List.mem_cons_self
      rw [List.flatMap_cons, List.append_assoc]
      exact .table s here.1 here.2 (ih fun s' member => all s' (List.mem_cons_of_mem _ member))

theorem FrameHeader.shape_width (h : FrameHeader) : h.shape.width.toNat = number h.wide :=
  bigEndian_toNat (by rw [h.wide_length]; omega)

theorem FrameHeader.shape_height (h : FrameHeader) : h.shape.height.toNat = number h.tall :=
  bigEndian_toNat (by rw [h.tall_length]; omega)

/-- For every vector within the encoded budget that starts with the start marker, `Preflight`
returns a shape if and only if the vector is a well-formed stream up to an end marker, with
anything behind it; the shape has the width and the height of the frame header. -/
theorem jpeg_accepted_iff (policy : Policy) {data : Bytes}
    (within : data.length ≤ policy.encoded.val) (started : [255, 216] <+: data) (shape : Shape) :
    preflight policy data = .ok shape ↔
      ∃ file : JpegFile, file.WellFormed policy ∧ file.bytes = data ∧
        shape.width.toNat = number file.header.wide ∧
        shape.height.toNat = number file.header.tall ∧ shape.jpeg = true := by
  have small : data.length < sizeLimit := Nat.lt_of_le_of_lt within policy.encoded.lt
  obtain ⟨rest, rfl⟩ := started
  have unsigned : ¬ pngSignature <+: [255, 216] ++ rest := by
    intro signed
    have first := (List.cons_prefix_cons.mp signed).1
    exact absurd first (by decide)
  have started : [255, 216] <+: [255, 216] ++ rest := List.prefix_append _ _
  have walk : preflight policy ([255, 216] ++ rest) =
      jpegMarkers policy ([255, 216] ++ rest) (([255, 216] ++ rest).length + 1) 2 none false := by
    rw [preflight, checkEncoded_ok within (by simp), ok_bind, startsWith_eq, ok_bind,
      decide_eq_false unsigned, if_neg (by simp), startsWith_eq, ok_bind, decide_eq_true started,
      if_pos rfl]
  have unread : Unread ([255, 216] ++ rest) 2 rest := ⟨[255, 216], rfl, rfl⟩
  rw [walk, jpegMarkers_iff small unread (by rw [List.length_append]; omega)]
  constructor
  · intro segments
    obtain ⟨file, formed, whole, rfl⟩ := segments.before_frame
    exact ⟨file, formed, whole, file.header.shape_width, file.header.shape_height, rfl⟩
  · rintro ⟨file, formed, whole, width, height, jpeg⟩
    obtain rfl := List.append_cancel_left whole
    rw [← file.header.shape_width] at width
    rw [← file.header.shape_height] at height
    have same : shape = file.header.shape := by
      obtain ⟨width', height', jpeg'⟩ := shape
      obtain rfl : width' = file.header.shape.width := UInt32.toNat_inj.mp width
      obtain rfl : height' = file.header.shape.height := UInt32.toNat_inj.mp height
      obtain rfl : jpeg' = true := jpeg
      rfl
    rw [same]
    exact segments_before_frame formed

/-- A baseline picture of one pixel, whose comment looks like another frame. -/
def grayPixel : Bytes :=
  [255, 216, 255, 254, 0, 6, 255, 192, 0, 11, 255, 255, 192, 0, 11, 8, 0, 1, 0, 1, 1, 1, 17, 0,
   255, 218, 0, 8, 1, 1, 0, 0, 63, 0, 55, 255, 0, 255, 217, 0]

theorem jpeg_accepted_gray_pixel :
    ∃ file : JpegFile, file.WellFormed defaultPolicy ∧ file.bytes = grayPixel ∧
      1 = number file.header.wide ∧ 1 = number file.header.tall := by
  have within : grayPixel.length ≤ defaultPolicy.encoded.val := by decide
  have started : [255, 216] <+: grayPixel := by decide
  have taken : preflight defaultPolicy grayPixel = .ok ⟨1, 1, true⟩ := by decide +kernel
  obtain ⟨file, formed, whole, wide, tall, -⟩ :=
    (jpeg_accepted_iff defaultPolicy within started ⟨1, 1, true⟩).mp taken
  exact ⟨file, formed, whole, wide, tall⟩

end files

end AIService.Image
