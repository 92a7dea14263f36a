import AIService.Action
import AIService.Data.Digits
import AIService.Image.Preflight

/-!
# The configuration of `image_resource`

Which environments `GetPolicy` takes, and what it reads from them.
-/

namespace AIService.Image

/-- The value of a row of digits that follows digits of value `n`. -/
def valueFrom (n : Nat) (text : Bytes) : Nat := text.foldl (fun n b => n * 10 + (b - 48).toNat) n

theorem valueFrom_cons (n : Nat) (c : UInt8) (rest : Bytes) :
    valueFrom n (c :: rest) = valueFrom (n * 10 + (c - 48).toNat) rest := rfl

/-- More digits do not make a number smaller. -/
theorem le_valueFrom (n : Nat) (text : Bytes) : n ≤ valueFrom n text := by
  induction text generalizing n with
  | nil => exact Nat.le_refl n
  | cons c rest ih =>
      rw [valueFrom_cons]
      calc n ≤ n * 10 + (c - 48).toNat := by omega
        _ ≤ valueFrom (n * 10 + (c - 48).toNat) rest := ih _

theorem isDigit_iff {c : UInt8} : isDigit c = true ↔ 48 ≤ c.toNat ∧ c.toNat ≤ 57 := by
  rw [isDigit, Bool.and_eq_true, decide_eq_true_iff, decide_eq_true_iff, UInt8.le_iff_toNat_le,
    UInt8.le_iff_toNat_le]
  rfl

theorem toNat_sub_zero {c : UInt8} (digit : 48 ≤ c.toNat) : (c - 48).toNat = c.toNat - 48 :=
  UInt8.toNat_sub_of_le c 48 (UInt8.le_iff_toNat_le.mpr digit)

/-- What the check before a digit is for. -/
theorem next_lt {n digit : Nat} (room : n ≤ (sizeLimit - 1 - digit) / 10) (small : digit ≤ 9) :
    n * 10 + digit < sizeLimit := by
  have large : 10 < sizeLimit := by
    unfold sizeLimit
    omega
  have product := (Nat.le_div_iff_mul_le (by omega)).mp room
  omega

theorem readSize_cons (result : { n : Nat // n < sizeLimit }) (c : UInt8) (rest : Bytes) :
    readSize result (c :: rest) =
      if digit : 48 ≤ c.toNat ∧ c.toNat ≤ 57 ∧ result.val ≤ (sizeLimit - 1 - (c.toNat - 48)) / 10 then
        readSize ⟨result.val * 10 + (c.toNat - 48), next_lt digit.2.2 (Nat.sub_le_sub_right digit.2.1 48)⟩
          rest
      else .error (bytes "Invalid image resource configuration") := rfl

/-- The check before each digit refuses exactly what would not fit. -/
theorem readSize_ok_iff {result size : { n : Nat // n < sizeLimit }} {text : Bytes} :
    readSize result text = .ok size ↔
      (∀ c ∈ text, isDigit c = true) ∧ valueFrom result.val text = size.val := by
  induction text generalizing result with
  | nil =>
      constructor
      · intro read
        exact ⟨List.forall_mem_nil _, congrArg Subtype.val (Except.ok.inj read)⟩
      · exact fun fits => congrArg _ (Subtype.ext fits.2)
  | cons c rest ih =>
      rw [readSize_cons, List.forall_mem_cons, valueFrom_cons]
      split
      · next digit =>
          rw [ih, toNat_sub_zero digit.1]
          exact ⟨fun fits => ⟨⟨isDigit_iff.mpr ⟨digit.1, digit.2.1⟩, fits.1⟩, fits.2⟩,
            fun fits => ⟨fits.1.2, fits.2⟩⟩
      · next refused =>
          refine iff_of_false (fun failed => by cases failed) ?_
          rintro ⟨⟨digit, -⟩, value⟩
          obtain ⟨low, high⟩ := isDigit_iff.mp digit
          have grows := le_valueFrom (result.val * 10 + (c - 48).toNat) rest
          rw [value, toNat_sub_zero low] at grows
          have small := size.property
          refine refused ⟨low, high, (Nat.le_div_iff_mul_le (by decide)).mpr ?_⟩
          omega

/-- What a variable of the environment sets a size to. -/
inductive Sets (fallback : Size) : Option Bytes → Size → Prop
  | unset : Sets fallback none fallback
  | set {text : Bytes} {size : Size} : text ≠ [] → (∀ c ∈ text, isDigit c = true) →
    digitsValue text = size.val → Sets fallback (some text) size

theorem setting_ok_iff {value : Option Bytes} {fallback size : Size} :
    setting value fallback = .ok size ↔ Sets fallback value size := by
  match value with
  | none =>
      constructor
      · intro read
        cases read
        exact .unset
      · intro sets
        cases sets
        rfl
  | some [] =>
      refine iff_of_false (fun failed => by cases failed) fun sets => ?_
      cases sets with
      | set some_ => exact some_ rfl
  | some (c :: rest) =>
      constructor
      · intro read
        obtain ⟨result, digits, positive⟩ := bind_eq_ok read
        obtain ⟨rows, total⟩ := readSize_ok_iff.mp digits
        split at positive
        · cases positive
        · cases positive
          exact .set (List.cons_ne_nil _ _) rows total
      · intro sets
        cases sets with
        | set _ rows total =>
            have digits : readSize ⟨0, sizeLimit_pos⟩ (c :: rest) = .ok ⟨size.val, size.lt⟩ :=
              readSize_ok_iff.mpr ⟨rows, total⟩
            rw [setting, digits]
            exact dif_neg (Nat.pos_iff_ne_zero.mp size.pos)

/-- A decimal numeral of a positive `size_t`; leading zeros are fine. -/
structure Numeral (text : Bytes) : Prop where
  some_ : text ≠ []
  rows : ∀ c ∈ text, isDigit c = true
  pos : 0 < digitsValue text
  lt : digitsValue text < sizeLimit

theorem exists_sets_iff {value : Option Bytes} {fallback : Size} :
    (∃ size, Sets fallback value size) ↔ ∀ text, value = some text → Numeral text := by
  constructor
  · rintro ⟨size, sets⟩ text rfl
    cases sets with
    | set some_ rows total => exact ⟨some_, rows, total ▸ size.pos, total ▸ size.lt⟩
  · intro numerals
    cases value with
    | none => exact ⟨fallback, .unset⟩
    | some text =>
        have numeral := numerals text rfl
        exact ⟨⟨digitsValue text, numeral.pos, numeral.lt⟩, .set numeral.some_ numeral.rows rfl⟩

/-! ## The policy -/

/-- The environment sets the policy. -/
structure Configures (getenv : Bytes → Option Bytes) (encoded pixels bgr jobs : Size) : Prop where
  encoded : Sets (defaultSize (16 * 1024 * 1024) (by decide)) (getenv (bytes "IMAGE_MAX_ENCODED_BYTES"))
    encoded
  pixels : Sets (defaultSize (16 * 1024 * 1024) (by decide)) (getenv (bytes "IMAGE_MAX_ORIGINAL_PIXELS"))
    pixels
  bgr : Sets (defaultSize (64 * 1024 * 1024) (by decide)) (getenv (bytes "IMAGE_MAX_BGR_BYTES")) bgr
  jobs : Sets (defaultSize 2 (by decide)) (getenv (bytes "IMAGE_MAX_CONCURRENT_JOBS")) jobs

theorem getPolicy_ok_iff {getenv : Bytes → Option Bytes} {policy : Policy} :
    getPolicy getenv = .ok policy ↔
      Configures getenv policy.encoded policy.pixels policy.bgr policy.jobs := by
  constructor
  · intro read
    obtain ⟨encoded, first, read⟩ := bind_eq_ok read
    obtain ⟨pixels, second, read⟩ := bind_eq_ok read
    obtain ⟨bgr, third, read⟩ := bind_eq_ok read
    obtain ⟨jobs, fourth, read⟩ := bind_eq_ok read
    split at read
    · cases read
      exact ⟨setting_ok_iff.mp first, setting_ok_iff.mp second, setting_ok_iff.mp third,
        setting_ok_iff.mp fourth⟩
    · cases read
  · intro configures
    rw [getPolicy, setting_ok_iff.mpr configures.encoded, setting_ok_iff.mpr configures.pixels,
      setting_ok_iff.mpr configures.bgr, setting_ok_iff.mpr configures.jobs]
    exact dif_pos policy.encoded_le

/-- The variables `GetPolicy` reads. -/
def sizeNames : List Bytes := [bytes "IMAGE_MAX_ENCODED_BYTES", bytes "IMAGE_MAX_ORIGINAL_PIXELS",
  bytes "IMAGE_MAX_BGR_BYTES", bytes "IMAGE_MAX_CONCURRENT_JOBS"]

/-- `GetPolicy` has a policy exactly when every variable that is set is a numeral of a positive
`size_t` and the encoded limit an `int`; the policy has those values, and the defaults for the
others. -/
theorem policy_of_environment (getenv : Bytes → Option Bytes) :
    ((∃ policy, getPolicy getenv = .ok policy) ↔
      (∀ name ∈ sizeNames, ∀ text, getenv name = some text → Numeral text) ∧
      ∀ text, getenv (bytes "IMAGE_MAX_ENCODED_BYTES") = some text → digitsValue text ≤ intMax) ∧
    ∀ policy, getPolicy getenv = .ok policy →
      Configures getenv policy.encoded policy.pixels policy.bgr policy.jobs := by
  refine ⟨⟨?_, ?_⟩, fun policy read => getPolicy_ok_iff.mp read⟩
  · rintro ⟨policy, read⟩
    have configures := getPolicy_ok_iff.mp read
    constructor
    · simp only [sizeNames, List.forall_mem_cons]
      exact ⟨exists_sets_iff.mp ⟨_, configures.encoded⟩, exists_sets_iff.mp ⟨_, configures.pixels⟩,
        exists_sets_iff.mp ⟨_, configures.bgr⟩, exists_sets_iff.mp ⟨_, configures.jobs⟩,
        List.forall_mem_nil _⟩
    · intro text here
      have sets := configures.encoded
      rw [here] at sets
      cases sets with
      | set _ _ total => exact total ▸ policy.encoded_le
  · rintro ⟨numerals, small⟩
    simp only [sizeNames, List.forall_mem_cons] at numerals
    obtain ⟨first, second, third, fourth, -⟩ := numerals
    obtain ⟨encoded, setsEncoded⟩ : ∃ size, Sets (defaultSize (16 * 1024 * 1024) (by decide)) _ size :=
      exists_sets_iff.mpr first
    obtain ⟨pixels, setsPixels⟩ := exists_sets_iff.mpr second
    obtain ⟨bgr, setsBgr⟩ := exists_sets_iff.mpr third
    obtain ⟨jobs, setsJobs⟩ := exists_sets_iff.mpr fourth
    have encoded_le : encoded.val ≤ intMax := by
      cases value : getenv (bytes "IMAGE_MAX_ENCODED_BYTES") with
      | none =>
          rw [value] at setsEncoded
          cases setsEncoded
          exact (by decide : 16 * 1024 * 1024 ≤ intMax)
      | some text =>
          rw [value] at setsEncoded
          cases setsEncoded with
          | set _ _ total => exact total ▸ small text value
    exact ⟨⟨encoded, pixels, bgr, jobs, encoded_le⟩,
      getPolicy_ok_iff.mpr ⟨setsEncoded, setsPixels, setsBgr, setsJobs⟩⟩

end AIService.Image
