import AIService.Image.Preflight

/-!
# Preflight stays inside the vector

`Returns Q` says that a computation ends, with a value that has `Q` or with an `Error` of
status 400 or 413, and so without a read outside or a wrapped `size_t`.  Each walker has one
lemma: the fuel it needs, and where it leaves the position.
-/

namespace AIService.Image

/-- The computation returns a value that has `Q`, or throws `Error(400)` or `Error(413)`. -/
def Returns {α : Type} (Q : α → Prop) : Except Fault α → Prop
  | .ok a => Q a
  | .error (.error status _) => status = 400 ∨ status = 413
  | .error _ => False

section returns

variable {α β : Type} {P Q : α → Prop} {r : Except Fault α}

theorem Returns.bind {R : β → Prop} {next : α → Except Fault β} (first : Returns P r)
    (then_ : ∀ a, P a → Returns R (next a)) : Returns R (r >>= next) := by
  cases r with
  | ok a => exact then_ a first
  | error fault => cases fault <;> exact first

theorem Returns.imp (returns : Returns P r) (weaker : ∀ a, P a → Q a) : Returns Q r := by
  cases r with
  | ok a => exact weaker a returns
  | error fault => cases fault <;> exact returns

theorem Returns.ite {c : Prop} [Decidable c] {s : Except Fault α} (yes : c → Returns Q r)
    (no : ¬ c → Returns Q s) : Returns Q (if c then r else s) := by
  split
  · next h => exact yes h
  · next h => exact no h

theorem returns_invalid (message : String) : Returns Q (invalid message) := .inl rfl

theorem returns_tooLarge (message : String) : Returns Q (tooLarge message) := .inr rfl

end returns

/-! ## Reads and sums -/

variable {policy : Policy} {data : Bytes}

theorem returns_read {i : Nat} (inside : i < data.length) :
    Returns (fun _ => True) (read data i) := by
  rw [read, List.getElem?_eq_getElem inside]
  trivial

theorem returns_readRange {i count : Nat} (inside : i + count ≤ data.length) :
    Returns (fun _ => True) (readRange data i count) := by
  induction count generalizing i with
  | zero => trivial
  | succ count ih =>
      apply (returns_read (by omega)).bind
      intro b _
      apply (ih (by omega)).bind
      intro rest _
      trivial

theorem returns_be32 {i : Nat} (inside : i + 4 ≤ data.length) :
    Returns (fun _ => True) (be32 data i) := by
  apply (returns_readRange inside).bind
  intro digits _
  trivial

theorem returns_crc {i n : Nat} (inside : i + n ≤ data.length) :
    Returns (fun _ => True) (crc data i n) := by
  apply (returns_readRange inside).bind
  intro range _
  trivial

theorem returns_add {a b : Nat} (bound : Nat) (sum : a + b ≤ bound) (small : bound < sizeLimit) :
    Returns (· = a + b) (add a b) := by
  rw [add, if_pos (by omega)]
  rfl

theorem returns_sub {a b : Nat} (le : b ≤ a) : Returns (· = a - b) (sub a b) := by
  rw [sub, if_pos le]
  rfl

/-! ## The budget -/

/-- A shape within the budget, the products being those of natural numbers. -/
structure Fits (policy : Policy) (width height : Nat) : Prop where
  wide : 1 ≤ width
  tall : 1 ≤ height
  pixels : width * height ≤ policy.pixels.val
  bgr : 3 * width * height ≤ policy.bgr.val

/-- The divisions of `CheckShape` are the products they stand for. -/
theorem budget_iff {width height : Nat} (tall : 0 < height) :
    ¬ (policy.pixels.val / height < width ∨ policy.bgr.val / 3 / height < width) ↔
      width * height ≤ policy.pixels.val ∧ 3 * width * height ≤ policy.bgr.val := by
  rw [not_or, Nat.not_lt, Nat.not_lt, Nat.le_div_iff_mul_le tall, Nat.le_div_iff_mul_le tall,
    Nat.le_div_iff_mul_le (by omega), Nat.mul_assoc 3, Nat.mul_comm 3]

theorem checkShape_iff {width height : UInt32} (wide : 1 ≤ width.toNat ∧ width.toNat ≤ intMax)
    (tall : 1 ≤ height.toNat ∧ height.toNat ≤ intMax) :
    checkShape policy width height = .ok () ↔
      width.toNat * height.toNat ≤ policy.pixels.val ∧
        3 * width.toNat * height.toNat ≤ policy.bgr.val := by
  have representable :
      ¬ (width = 0 ∨ height = 0 ∨ intMax < width.toNat ∨ intMax < height.toNat) := by
    rintro (rfl | rfl | large | large)
    · cases wide.1
    · cases tall.1
    · omega
    · omega
  rw [checkShape, if_neg representable, ← budget_iff tall.1]
  split
  · next beyond => exact ⟨nofun, fun under => absurd beyond under⟩
  · next under => exact ⟨fun _ => under, fun _ => rfl⟩

theorem returns_checkShape (width height : UInt32) :
    Returns (fun _ => Fits policy width.toNat height.toNat) (checkShape policy width height) := by
  unfold checkShape
  refine .ite (fun _ => returns_invalid _) fun representable => ?_
  refine .ite (fun _ => returns_tooLarge _) fun under => ?_
  have wide : 1 ≤ width.toNat := by
    apply Nat.one_le_iff_ne_zero.mpr
    intro zero
    exact representable (.inl (UInt32.toNat_inj.mp zero))
  have tall : 1 ≤ height.toNat := by
    apply Nat.one_le_iff_ne_zero.mpr
    intro zero
    exact representable (.inr (.inl (UInt32.toNat_inj.mp zero)))
  obtain ⟨pixels, bgr⟩ := (budget_iff tall).mp under
  exact ⟨wide, tall, pixels, bgr⟩

/-- A shape `Preflight` may return. -/
def Good (policy : Policy) (shape : Shape) : Prop := Fits policy shape.width.toNat shape.height.toNat

/-! ## PNG -/

theorem returns_pngChunks {shape : Shape} (good : Good policy shape) {fuel pos : Nat} {seen : Bool}
    (small : data.length < sizeLimit) (fueled : data.length - pos < fuel) :
    Returns (Good policy) (pngChunks data shape fuel pos seen) := by
  induction fuel generalizing pos seen with
  | zero => omega
  | succ fuel ih =>
      rw [pngChunks]
      refine .ite (fun inside => ?_) fun _ => returns_invalid _
      refine (returns_sub (Nat.le_of_lt inside)).bind fun room here => ?_
      refine .ite (fun _ => returns_invalid _) fun header => ?_
      refine (returns_be32 (by omega)).bind fun len _ => ?_
      refine (returns_sub (by omega)).bind fun left rest => ?_
      refine .ite (fun _ => returns_invalid _) fun covered => ?_
      refine (returns_readRange (by omega)).bind fun type _ => ?_
      refine .ite (fun _ => returns_invalid _) fun _ => ?_
      refine .ite (fun _ => ?_) fun _ => ?_
      · refine .ite (fun _ => returns_invalid _) fun _ => ?_
        refine (returns_add data.length (by omega) small).bind fun _ _ => ?_
        exact .ite (fun _ => returns_invalid _) fun _ => good
      · refine (returns_add data.length (by omega) small).bind fun step whole => ?_
        refine (returns_add data.length (by omega) small).bind fun pos' next => ?_
        exact ih (by omega)

theorem returns_pngPreflight (small : data.length < sizeLimit) :
    Returns (Good policy) (pngPreflight policy data) := by
  unfold pngPreflight
  refine .ite (fun _ => returns_invalid _) fun header => ?_
  refine (returns_be32 (by omega)).bind fun _ _ => ?_
  refine (returns_readRange (by omega)).bind fun _ _ => ?_
  refine (returns_crc (by omega)).bind fun _ _ => ?_
  refine (returns_be32 (by omega)).bind fun _ _ => ?_
  refine .ite (fun _ => returns_invalid _) fun _ => ?_
  refine (returns_be32 (by omega)).bind fun width _ => ?_
  refine (returns_be32 (by omega)).bind fun height _ => ?_
  refine (returns_read (by omega)).bind fun _ _ => ?_
  refine (returns_read (by omega)).bind fun _ _ => ?_
  refine (returns_read (by omega)).bind fun _ _ => ?_
  refine (returns_read (by omega)).bind fun _ _ => ?_
  refine (returns_read (by omega)).bind fun _ _ => ?_
  refine .ite (fun _ => returns_invalid _) fun _ => ?_
  refine (returns_checkShape _ _).bind fun _ fits => ?_
  exact returns_pngChunks fits small (by omega)

/-! ## JPEG -/

theorem returns_skipFill {fuel pos : Nat} (small : data.length < sizeLimit)
    (inside : pos ≤ data.length) (fueled : data.length - pos < fuel) :
    Returns (fun next => pos ≤ next ∧ next ≤ data.length) (skipFill data fuel pos) := by
  induction fuel generalizing pos with
  | zero => omega
  | succ fuel ih =>
      rw [skipFill]
      refine .ite (fun less => ?_) fun _ => ⟨Nat.le_refl _, inside⟩
      refine (returns_read less).bind fun _ _ => ?_
      refine .ite (fun _ => ?_) fun _ => ⟨Nat.le_refl _, inside⟩
      refine (returns_add data.length (by omega) small).bind fun pos' next => ?_
      refine (ih (by omega) (by omega)).imp fun stop between => ?_
      omega

theorem returns_skipScan {fuel pos : Nat} (small : data.length < sizeLimit)
    (inside : pos ≤ data.length) (fueled : data.length - pos < fuel) :
    Returns (fun next => pos ≤ next ∧ next ≤ data.length) (skipScan data fuel pos) := by
  induction fuel generalizing pos with
  | zero => omega
  | succ fuel ih =>
      rw [skipScan]
      refine .ite (fun less => ?_) fun _ => ⟨Nat.le_refl _, inside⟩
      refine (returns_read less).bind fun _ _ => ?_
      refine .ite (fun _ => ?_) fun _ => ?_
      · refine (returns_add data.length (by omega) small).bind fun pos' next => ?_
        refine (ih (by omega) (by omega)).imp fun stop between => ?_
        omega
      · refine (returns_add data.length (by omega) small).bind fun first next => ?_
        refine (returns_skipFill small (by omega) (by omega)).bind fun filled between => ?_
        refine .ite (fun _ => ⟨inside, Nat.le_refl _⟩) fun short => ?_
        refine (returns_read (by omega)).bind fun _ _ => ?_
        refine .ite (fun _ => ?_) fun _ => ⟨Nat.le_refl _, inside⟩
        refine (returns_add data.length (by omega) small).bind fun pos' next => ?_
        refine (ih (by omega) (by omega)).imp fun stop between => ?_
        omega

theorem returns_jpegFrame {marker : UInt8} {framed : Bool} {pos len : Nat}
    (segment : pos + len ≤ data.length) :
    Returns (Good policy) (jpegFrame policy data marker framed pos len) := by
  unfold jpegFrame
  refine .ite (fun _ => returns_invalid _) fun supported => ?_
  simp only [Bool.or_eq_true, decide_eq_true_eq, not_or] at supported
  have long := supported.2
  refine (returns_read (by omega)).bind fun _ _ => ?_
  refine .ite (fun _ => returns_invalid _) fun _ => ?_
  refine (returns_read (by omega)).bind fun _ _ => ?_
  refine .ite (fun _ => returns_invalid _) fun _ => ?_
  refine (returns_readRange (by omega)).bind fun width _ => ?_
  refine (returns_readRange (by omega)).bind fun height _ => ?_
  refine (returns_checkShape _ _).bind fun _ fits => ?_
  exact fits

theorem returns_jpegScan {framed : Bool} {pos len : Nat} (small : data.length < sizeLimit)
    (segment : pos + len ≤ data.length) :
    Returns (fun next => pos ≤ next ∧ next ≤ data.length) (jpegScan data framed pos len) := by
  unfold jpegScan
  refine .ite (fun _ => returns_invalid _) fun header => ?_
  refine (returns_read (by omega)).bind fun _ _ => ?_
  refine .ite (fun _ => returns_invalid _) fun _ => ?_
  refine (returns_add data.length segment small).bind fun pos' next => ?_
  refine (returns_skipScan small (by omega) (by omega)).imp fun stop between => ?_
  omega

theorem returns_frameAfter {marker : UInt8} {frame : Option Shape} {pos len : Nat}
    (segment : pos + len ≤ data.length)
    (good : ∀ shape, frame = some shape → Good policy shape) :
    Returns (fun frame' => ∀ shape, frame' = some shape → Good policy shape)
      (frameAfter policy data marker frame pos len) := by
  unfold frameAfter
  refine .ite (fun _ => ?_) fun _ => good
  refine (returns_jpegFrame segment).bind fun shape fits => ?_
  intro shape' same
  cases same
  exact fits

/-- Every marker is behind the one before it, and a frame that was read is within the budget. -/
theorem returns_jpegMarkers {fuel pos : Nat} {frame : Option Shape} {scan : Bool}
    (small : data.length < sizeLimit) (fueled : data.length - pos < fuel)
    (good : ∀ shape, frame = some shape → Good policy shape) :
    Returns (Good policy) (jpegMarkers policy data fuel pos frame scan) := by
  induction fuel generalizing pos frame scan with
  | zero => omega
  | succ fuel ih =>
      rw [jpegMarkers]
      refine .ite (fun inside => ?_) fun _ => returns_invalid _
      refine (returns_read inside).bind fun _ _ => ?_
      refine .ite (fun _ => returns_invalid _) fun _ => ?_
      refine (returns_add data.length (by omega) small).bind fun first after => ?_
      refine (returns_skipFill small (by omega) (by omega)).bind fun filled between => ?_
      refine .ite (fun _ => returns_invalid _) fun short => ?_
      refine (returns_read (by omega)).bind fun marker _ => ?_
      refine (returns_add data.length (by omega) small).bind fun pos' next => ?_
      refine .ite (fun _ => ?_) fun _ => ?_
      · cases frame with
        | none => exact returns_invalid _
        | some shape => exact .ite (fun _ => good shape rfl) fun _ => returns_invalid _
      refine .ite (fun _ => returns_invalid _) fun _ => ?_
      refine (returns_sub (by omega)).bind fun room here => ?_
      refine .ite (fun _ => returns_invalid _) fun enough => ?_
      refine (returns_readRange (by omega)).bind fun digits _ => ?_
      refine .ite (fun _ => returns_invalid _) fun segment => ?_
      refine (returns_frameAfter (by omega) good).bind fun frame' good' => ?_
      refine .ite (fun _ => ?_) fun _ => ?_
      · refine (returns_jpegScan small (by omega)).bind fun stop between => ?_
        exact ih (by omega) good'
      · refine (returns_add data.length (by omega) small).bind fun stop whole => ?_
        exact ih (by omega) good'

/-! ## Preflight -/

theorem returns_startsWith (signature : Bytes) :
    Returns (fun _ => True) (startsWith data signature) := by
  unfold startsWith
  refine .ite (fun long => ?_) fun _ => trivial
  apply (returns_readRange (by omega)).bind
  intro first _
  trivial

theorem returns_checkEncoded :
    Returns (fun _ => data.length < sizeLimit) (checkEncoded policy data.length) := by
  unfold checkEncoded
  refine .ite (fun _ => returns_tooLarge _) fun within => ?_
  refine .ite (fun _ => returns_invalid _) fun _ => ?_
  exact Nat.lt_of_le_of_lt (Nat.le_of_not_lt within) policy.encoded.lt

/-- `Preflight` ends on every vector, inside it and without a wrapped position: it throws
`Error` with status 400 or 413, or returns a shape within the budget.  `CheckShape` takes a
representable shape just when it is within the budget. -/
theorem preflight_safe (policy : Policy) :
    (∀ data, Returns (Good policy) (preflight policy data)) ∧
      ∀ width height : UInt32, 1 ≤ width.toNat ∧ width.toNat ≤ intMax →
        1 ≤ height.toNat ∧ height.toNat ≤ intMax →
        (checkShape policy width height = .ok () ↔
          width.toNat * height.toNat ≤ policy.pixels.val ∧
            3 * width.toNat * height.toNat ≤ policy.bgr.val) := by
  refine ⟨fun data => ?_, fun width height wide tall => checkShape_iff wide tall⟩
  unfold preflight
  refine returns_checkEncoded.bind fun _ small => ?_
  refine (returns_startsWith _).bind fun png _ => ?_
  refine .ite (fun _ => returns_pngPreflight small) fun _ => ?_
  refine (returns_startsWith _).bind fun jpeg _ => ?_
  refine .ite (fun _ => ?_) fun _ => returns_invalid _
  exact returns_jpegMarkers small (by omega) nofun

/-- Under the policy of an empty environment. -/
theorem preflight_safe_default :
    ∃ policy, getPolicy (fun _ => none) = .ok policy ∧
      Returns (Good policy) (preflight policy (bytes "GIF89a")) ∧
        checkShape policy 4000 3000 = .ok () :=
  ⟨⟨_, _, _, _, by decide⟩, rfl, (preflight_safe _).1 _,
    ((preflight_safe _).2 4000 3000 (by decide) (by decide)).mpr (by decide)⟩

end AIService.Image
