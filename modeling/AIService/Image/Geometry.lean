import AIService.Data.Binary64
import AIService.Image.Bounds
import AIService.Image.Jobs
import Mathlib.Tactic.LinearCombination

/-!
# The geometry of `PredictMatGuarded`

From the matrix to the square the network sees: the checks, the size the short side of which is
to be 256, computed in `double`, and the crop in its middle.
-/

namespace AIService.Image

open Binary64 Jobs

/-- A `cv::Mat`, as `PredictMatGuarded` tells them apart. -/
inductive Mat
  | empty
  /-- Not two-dimensional, or not of type `CV_8UC3`. -/
  | other (cols rows : Int)
  | bgr (cols rows : Nat) (positive : 0 < cols ∧ 0 < rows) (ints : cols ≤ intMax ∧ rows ≤ intMax)

/-- `cv::Rect`. -/
structure Rect where
  x : Int
  y : Int
  width : Int
  height : Int
deriving DecidableEq

/-- The arguments of `cv::resize` and of the crop. -/
structure Geometry where
  width : Int
  height : Int
  center : Rect
deriving DecidableEq

/-- `input_width` and `input_height`: the constructor takes no other model. -/
def inputSide : Int := 224

/-- A side of the resized image, before it is checked. -/
def resizedSide (side rows cols : Nat) : Int :=
  roundAway (nearest (side * nearest (256 / (min rows cols : Nat))))

/-- `max_resized_pixels`. -/
def maxResizedPixels : ℚ := 16 * 1024 * 1024

def preprocess (cols rows : Nat) : Except Exception Geometry :=
  let width := resizedSide cols rows cols
  let height := resizedSide rows rows cols
  if intMax < width ∨ intMax < height then
    .error (.runtimeError (bytes "Image dimensions are too large for preprocessing"))
  else if nearest (maxResizedPixels / height) < width then
    .error (.runtimeError (bytes "Image preprocessing exceeds the resized pixel resource budget"))
  else .ok ⟨width, height, ⟨width.tdiv 2 - inputSide.tdiv 2, height.tdiv 2 - inputSide.tdiv 2,
    inputSide, inputSide⟩⟩

/-- What a fault is for a caller. -/
def Fault.exception : Fault → Exception
  | .error status message => .error status message
  | _ => .other

/-- `PredictMatGuarded`, up to the crop. -/
def predictMatGuarded (policy : Policy) : Mat → Except Exception Geometry
  | .empty => .error (.runtimeError (bytes "Input image is empty"))
  | .other _ _ => .error (.runtimeError (bytes "Input image must be a two-dimensional CV_8UC3 BGR image"))
  | .bgr cols rows _ _ =>
      match checkShape policy cols.toUInt32 rows.toUInt32 with
      | .error fault => .error fault.exception
      | .ok () => preprocess cols rows

/-! ## One side -/

/-- `n` is a nearest integer to `256 * side / short`. -/
def Nearest (side short : Nat) (n : Int) : Prop := 2 * |n * short - 256 * side| ≤ short

/-- Two roundings of `double` leave the nearest integer where it is. -/
theorem nearest_resizedSide {side rows cols : Nat} (positive : 0 < min rows cols) (small : side ≤ intMax) :
    Nearest side (min rows cols) (resizedSide side rows cols) := by
  unfold resizedSide
  generalize min rows cols = m at positive ⊢
  have m_pos : (0 : ℚ) < m := Nat.cast_pos.mpr positive
  have side_le : (side : ℚ) ≤ 2147483647 := by exact_mod_cast small
  have side_nonneg : (0 : ℚ) ≤ side := Nat.cast_nonneg side
  have exact_pos : (0 : ℚ) < 256 / m := by positivity
  have times_m : 256 / (m : ℚ) * m = 256 := div_mul_cancel₀ _ m_pos.ne'
  have scaled := abs_nearest_sub (256 / (m : ℚ))
  rw [abs_of_pos exact_pos] at scaled
  generalize nearest (256 / (m : ℚ)) = scale at scaled ⊢
  obtain ⟨scale_low, scale_high⟩ := abs_le.mp scaled
  have scale_nonneg : 0 ≤ scale := by linarith
  have scale_m : scale * m ≤ 512 := by nlinarith
  have product := abs_nearest_sub (side * scale)
  rw [abs_of_nonneg (mul_nonneg side_nonneg scale_nonneg)] at product
  generalize nearest (side * scale) = x at product ⊢
  have whole := abs_roundAway_sub x
  generalize roundAway x = n at whole ⊢
  have first : |(side * (scale - 256 / m) * m : ℚ)| ≤ 1 / 8 := by
    rw [abs_mul, abs_mul, abs_of_nonneg side_nonneg, abs_of_pos m_pos]
    calc side * |scale - 256 / m| * m ≤ side * (256 / m / 2 ^ 53) * m := by gcongr
      _ = side * (256 / m * m) / 2 ^ 53 := by ring
      _ = side * 256 / 2 ^ 53 := by rw [times_m]
      _ ≤ 1 / 8 := by linarith
  have second : |((x - side * scale) * m : ℚ)| ≤ 1 / 8 := by
    rw [abs_mul, abs_of_pos m_pos]
    calc |x - side * scale| * m ≤ side * scale / 2 ^ 53 * m := by gcongr
      _ = side * (scale * m) / 2 ^ 53 := by ring
      _ ≤ side * 512 / 2 ^ 53 := by gcongr
      _ ≤ 1 / 8 := by linarith
  have third : |((n - x) * m : ℚ)| ≤ m / 2 := by
    rw [abs_mul, abs_of_pos m_pos]
    calc |(n : ℚ) - x| * m ≤ 1 / 2 * m := by gcongr
      _ = m / 2 := by ring
  have total : |(n * m - 256 * side : ℚ)| ≤ m / 2 + 1 / 4 := by
    have parts : (n * m - 256 * side : ℚ) =
        (n - x) * m + (x - side * scale) * m + side * (scale - 256 / m) * m := by
      linear_combination side * times_m
    rw [parts]
    calc _ ≤ |((n - x) * m + (x - side * scale) * m : ℚ)| + |(side * (scale - 256 / m) * m : ℚ)| :=
          abs_add_le _ _
      _ ≤ |((n - x) * m : ℚ)| + |((x - side * scale) * m : ℚ)| +
          |(side * (scale - 256 / m) * m : ℚ)| := by gcongr; exact abs_add_le _ _
      _ ≤ m / 2 + 1 / 4 := by linarith
  have integers : 2 * |(n * m - 256 * side : ℚ)| < m + 1 := by linarith
  have below : 2 * |n * (m : ℤ) - 256 * (side : ℤ)| < m + 1 := by exact_mod_cast integers
  exact Int.lt_add_one_iff.mp below

/-- The short side becomes 256. -/
theorem Nearest.short {short : Nat} {n : Int} (positive : 0 < short) (nearest : Nearest short short n) :
    n = 256 := by
  have positive' : (0 : Int) < short := Int.natCast_pos.mpr positive
  unfold Nearest at nearest
  rw [← sub_mul, abs_mul, abs_of_pos positive'] at nearest
  have apart : 2 * |n - 256| * short ≤ 1 * short := by linarith
  have close := le_of_mul_le_mul_right apart positive'
  have zero : |n - 256| = 0 := by
    have := abs_nonneg (n - 256)
    omega
  exact sub_eq_zero.mp (abs_eq_zero.mp zero)

/-- A longer side becomes no shorter. -/
theorem Nearest.long {side short : Nat} {n : Int} (positive : 0 < short) (longer : short ≤ side)
    (nearest : Nearest side short n) : 256 ≤ n := by
  have positive' : (0 : Int) < short := Int.natCast_pos.mpr positive
  have longer' : (short : Int) ≤ side := Int.ofNat_le.mpr longer
  by_contra small
  have bound : n * short ≤ 255 * short := mul_le_mul_of_nonneg_right (by omega) positive'.le
  unfold Nearest at nearest
  have half := neg_le_abs (n * short - 256 * side : Int)
  linarith

/-- The limit on a long side, where its size is closest to a half. -/
theorem Nearest.within {side short : Nat} {n : Int} (nearest : Nearest side short n)
    (within : 512 * side < 131073 * short) : n ≤ 65536 := by
  unfold Nearest at nearest
  have above := le_abs_self (n * short - 256 * side : Int)
  have within' : (512 * side : Int) < 131073 * short := by exact_mod_cast within
  by_contra large
  have positive : (0 : Int) ≤ short := Int.natCast_nonneg short
  have bound : 65537 * short ≤ n * short := mul_le_mul_of_nonneg_right (by omega) positive
  linarith

theorem Nearest.beyond {side short : Nat} {n : Int} (nearest : Nearest side short n)
    (beyond : 131073 * short < 512 * side) : 65536 < n := by
  unfold Nearest at nearest
  have below := neg_le_abs (n * short - 256 * side : Int)
  have beyond' : (131073 * short : Int) < 512 * side := by exact_mod_cast beyond
  by_contra small
  have positive : (0 : Int) ≤ short := Int.natCast_nonneg short
  have bound : n * short ≤ 65536 * short := mul_le_mul_of_nonneg_right (by omega) positive
  linarith

/-! ## The pixel budget -/

/-- The division in `double` decides as the product of the integers does. -/
theorem nearest_lt_iff {width height : Int} (wide : 256 ≤ width) (tall : 256 ≤ height)
    (short : width = 256 ∨ height = 256) :
    nearest (maxResizedPixels / height) < width ↔ 65536 < max width height := by
  unfold maxResizedPixels
  rcases short with rfl | rfl
  · rw [max_eq_right tall]
    have positive : (0 : ℚ) < height := by exact_mod_cast (by omega : 0 < height)
    have quotient : (0 : ℚ) < 16 * 1024 * 1024 / height := by positivity
    have close := abs_nearest_sub (16 * 1024 * 1024 / (height : ℚ))
    rw [abs_of_pos quotient] at close
    obtain ⟨low, high⟩ := abs_le.mp close
    have times : 16 * 1024 * 1024 / (height : ℚ) * height = 16777216 := by
      rw [div_mul_cancel₀ _ positive.ne']
      norm_num
    rcases lt_trichotomy height 65536 with smaller | rfl | larger
    · have smaller' : (height : ℚ) ≤ 65535 := by exact_mod_cast (by omega : height ≤ 65535)
      refine iff_of_false (not_lt.mpr ?_) (by omega)
      push_cast
      nlinarith
    · have power : (16 * 1024 * 1024 / ((65536 : Int) : ℚ)) = 2 ^ 8 := by norm_num
      rw [power, nearest_two_pow]
      norm_num
    · have larger' : (65537 : ℚ) ≤ height := by exact_mod_cast (by omega : 65537 ≤ height)
      refine iff_of_true ?_ larger
      push_cast
      nlinarith
  · rw [max_eq_left wide]
    have power : (16 * 1024 * 1024 / ((256 : Int) : ℚ)) = 2 ^ 16 := by norm_num
    rw [power, nearest_two_pow]
    exact_mod_cast Iff.rfl

/-! ## The crop -/

/-- A crop of the network's side lies in the middle of a side. -/
structure Centered (offset side : Int) : Prop where
  starts : 0 ≤ offset
  ends : offset + inputSide ≤ side
  middle : 2 * offset + inputSide = side - side % 2

theorem centered {side : Int} (large : 256 ≤ side) :
    Centered (side.tdiv 2 - inputSide.tdiv 2) side := by
  have half : side.tdiv 2 = side / 2 := Int.tdiv_eq_ediv_of_nonneg (by omega)
  have crop : inputSide.tdiv 2 = 112 := rfl
  rw [half, crop]
  constructor
  · omega
  · rw [inputSide]
    omega
  · rw [inputSide]
    omega

/-- What a geometry is for a matrix of this size. -/
structure Geometry.Suits (g : Geometry) (cols rows : Nat) : Prop where
  width : Nearest cols (min rows cols) g.width
  height : Nearest rows (min rows cols) g.height
  short : min g.width g.height = 256
  long : max g.width g.height ≤ 65536
  across : Centered g.center.x g.width
  down : Centered g.center.y g.height
  square : g.center.width = inputSide ∧ g.center.height = inputSide

/-- How `preprocess` ends: with a geometry up to the pixel budget. -/
theorem preprocess_cases {cols rows : Nat} (positive : 0 < cols ∧ 0 < rows)
    (ints : cols ≤ intMax ∧ rows ≤ intMax) :
    (∃ g, preprocess cols rows = .ok g ∧ g.Suits cols rows) ∨
      (∃ message, preprocess cols rows = .error (.runtimeError message)) ∧
        65536 < max (resizedSide cols rows cols) (resizedSide rows rows cols) := by
  have least : 0 < min rows cols := lt_min positive.2 positive.1
  have across : Nearest cols (min rows cols) (resizedSide cols rows cols) :=
    nearest_resizedSide least ints.1
  have down : Nearest rows (min rows cols) (resizedSide rows rows cols) :=
    nearest_resizedSide least ints.2
  have wide := across.long least (min_le_right rows cols)
  have tall := down.long least (min_le_left rows cols)
  unfold preprocess
  generalize resizedSide cols rows cols = width at across wide ⊢
  generalize resizedSide rows rows cols = height at down tall ⊢
  have short : width = 256 ∨ height = 256 := by
    rcases min_choice rows cols with same | same
    · rw [same] at down
      exact .inr (down.short positive.2)
    · rw [same] at across
      exact .inl (across.short positive.1)
  dsimp only
  split
  · next large =>
      refine .inr ⟨⟨_, rfl⟩, ?_⟩
      unfold intMax at large
      omega
  · split
    · next excess => exact .inr ⟨⟨_, rfl⟩, (nearest_lt_iff wide tall short).mp excess⟩
    · next under =>
        rw [nearest_lt_iff wide tall short, not_lt] at under
        have least' : min width height = 256 := by omega
        exact .inl ⟨_, rfl, across, down, least', under, centered wide, centered tall, rfl, rfl⟩

theorem toNat_toUInt32 {n : Nat} (small : n ≤ intMax) : n.toUInt32.toNat = n := by
  have below : n < 2 ^ 32 := by
    unfold intMax at small
    omega
  exact UInt32.toNat_ofNat_of_lt' below

theorem checkShape_of_fits {policy : Policy} {cols rows : Nat} (ints : cols ≤ intMax ∧ rows ≤ intMax)
    (fits : Fits policy cols rows) : checkShape policy cols.toUInt32 rows.toUInt32 = .ok () := by
  have wide := toNat_toUInt32 ints.1
  have tall := toNat_toUInt32 ints.2
  rw [checkShape_iff (by rw [wide]; exact ⟨fits.wide, ints.1⟩) (by rw [tall]; exact ⟨fits.tall, ints.2⟩),
    wide, tall]
  exact ⟨fits.pixels, fits.bgr⟩

/-- A matrix that gets to the network is resized to the nearest integers for a short side of 256,
although the sizes are computed in `double`, its crop lies inside, and the decision on the pixel
budget is the exact one on either side of the ratio 131073 : 512. -/
theorem image_geometry (policy : Policy) :
    (∀ img g, predictMatGuarded policy img = .ok g → ∃ cols rows positive ints,
      img = .bgr cols rows positive ints ∧ Fits policy cols rows ∧ g.Suits cols rows) ∧
    ∀ cols rows positive ints, Fits policy cols rows →
      (512 * max rows cols < 131073 * min rows cols →
        ∃ g, predictMatGuarded policy (.bgr cols rows positive ints) = .ok g) ∧
      (131073 * min rows cols < 512 * max rows cols →
        ∃ e, predictMatGuarded policy (.bgr cols rows positive ints) = .error e) := by
  constructor
  · intro img g passed
    cases img with
    | empty => cases passed
    | other => cases passed
    | bgr cols rows positive ints =>
        refine ⟨cols, rows, positive, ints, rfl, ?_⟩
        have checked : Returns (fun _ => Fits policy cols.toUInt32.toNat rows.toUInt32.toNat)
            (checkShape policy cols.toUInt32 rows.toUInt32) := returns_checkShape _ _
        rw [toNat_toUInt32 ints.1, toNat_toUInt32 ints.2] at checked
        rw [predictMatGuarded] at passed
        split at passed
        · cases passed
        · next fine =>
            rw [fine] at checked
            rcases preprocess_cases positive ints with ⟨g', ran, suits⟩ | ⟨⟨message, failed⟩, -⟩
            · rw [ran] at passed
              cases passed
              exact ⟨checked, suits⟩
            · rw [failed] at passed
              cases passed
  · intro cols rows positive ints fits
    have least : 0 < min rows cols := lt_min positive.2 positive.1
    have across : Nearest cols (min rows cols) (resizedSide cols rows cols) :=
      nearest_resizedSide least ints.1
    have down : Nearest rows (min rows cols) (resizedSide rows rows cols) :=
      nearest_resizedSide least ints.2
    rw [predictMatGuarded, checkShape_of_fits ints fits]
    rcases preprocess_cases positive ints with ⟨g, ran, suits⟩ | ⟨⟨message, failed⟩, large⟩
    · refine ⟨fun _ => ⟨g, ran⟩, fun beyond => ?_⟩
      have long := suits.long
      rcases max_choice rows cols with same | same
      · rw [same] at beyond
        have past := suits.height.beyond beyond
        omega
      · rw [same] at beyond
        have past := suits.width.beyond beyond
        omega
    · refine ⟨fun within => ?_, fun _ => ⟨_, failed⟩⟩
      have wide := across.within (by omega)
      have tall := down.within (by omega)
      omega

end AIService.Image
