import Mathlib.Analysis.Complex.Trigonometric
import Mathlib.Tactic.Linarith
import Mathlib.Tactic.NormNum

/-! The sines of the natural numbers in fixed point, with a bound for the error. -/

namespace QNXStuff.Sine

open Finset

/-- One, in fixed point. -/
def scale : ℤ := 2 ^ 256

/-- The cosine and the sine of one. -/
def cosOne : ℤ := 0x8a51407da8345c91c2466d976871bd29a2373a894f96c3b7f2300240b760e6fb

def sinOne : ℤ := 0xd76aa47848677020c6e9e909c50f3c3289e511132f518b4defb6ca5fd6c649be

/-- The cosine and the sine of an angle that is one greater. -/
def turn (point : ℤ × ℤ) : ℤ × ℤ :=
  ((point.1 * cosOne - point.2 * sinOne) / scale, (point.2 * cosOne + point.1 * sinOne) / scale)

/-- The cosine and the sine of `n`. -/
def point : Nat → ℤ × ℤ
  | 0 => (scale, 0)
  | n + 1 => turn (point n)

/-- The first terms of the series for the cosine and for the sine of one. -/
def cosTerms (count : Nat) : ℚ := ∑ k ∈ range count, (-1) ^ k / (2 * k).factorial

def sinTerms (count : Nat) : ℚ := ∑ k ∈ range count, (-1) ^ k / (2 * k + 1).factorial

theorem exp_terms (count : Nat) :
    ∑ m ∈ range (2 * count), Complex.I ^ m / (m.factorial : ℂ) =
      (cosTerms count : ℂ) + (sinTerms count : ℂ) * Complex.I := by
  induction count with
  | zero => simp [cosTerms, sinTerms]
  | succ count ih =>
    have even : Complex.I ^ (2 * count) = (-1) ^ count := by rw [pow_mul, Complex.I_sq]
    have odd : Complex.I ^ (2 * count + 1) = (-1) ^ count * Complex.I := by rw [pow_succ, even]
    rw [Nat.mul_succ, sum_range_succ, sum_range_succ, ih, even, odd, cosTerms, sinTerms, cosTerms,
      sinTerms, sum_range_succ _ count, sum_range_succ _ count]
    push_cast
    ring

/-- How far the series is from the cosine and the sine. -/
theorem terms_close (count : Nat) (some : 0 < count) :
    |Real.cos 1 - cosTerms count| ≤ (2 * count + 1) / ((2 * count).factorial * (2 * count)) ∧
      |Real.sin 1 - sinTerms count| ≤
        (2 * count + 1) / ((2 * count).factorial * (2 * count)) := by
  have bound := Complex.exp_bound (x := Complex.I) (by simp) (n := 2 * count) (by omega)
  rw [exp_terms, Complex.norm_I, one_pow, one_mul, ← div_eq_mul_inv] at bound
  have difference : Complex.exp Complex.I -
      ((cosTerms count : ℂ) + (sinTerms count : ℂ) * Complex.I) =
        ((Real.cos 1 - cosTerms count : ℝ) : ℂ) +
          ((Real.sin 1 - sinTerms count : ℝ) : ℂ) * Complex.I := by
    have euler := Complex.exp_mul_I 1
    rw [one_mul] at euler
    rw [euler]
    push_cast
    ring
  have remainder : ((2 * count).succ : ℝ) / ((2 * count).factorial * (2 * count : ℕ)) =
      (2 * count + 1) / ((2 * count).factorial * (2 * count)) := by
    push_cast
    rfl
  rw [difference, remainder] at bound
  constructor
  · have part := (Complex.abs_re_le_norm _).trans bound
    rwa [Complex.add_re, Complex.re_ofReal_mul, Complex.I_re, mul_zero, add_zero,
      Complex.ofReal_re] at part
  · have part := (Complex.abs_im_le_norm _).trans bound
    rwa [Complex.add_im, Complex.im_ofReal_mul, Complex.I_im, mul_one, Complex.ofReal_im,
      zero_add] at part

/-! ### The angle of one -/

theorem cosTerms_close : |cosTerms 30 * scale - cosOne| ≤ 3 / 4 := by decide +kernel

theorem sinTerms_close : |sinTerms 30 * scale - sinOne| ≤ 3 / 4 := by decide +kernel

/-- The remainder of the series is small even in fixed point. -/
theorem remainder_small :
    (2 * (30 : ℕ) + 1) / ((2 * 30).factorial * (2 * (30 : ℕ))) * (scale : ℝ) ≤ 1 / 4 := by
  have small : (61 : ℚ) / ((60).factorial * 60) * scale ≤ 1 / 4 := by decide +kernel
  have cast : ((61 / ((60).factorial * 60) * scale : ℚ) : ℝ) ≤ ((1 / 4 : ℚ) : ℝ) :=
    Rat.cast_le.mpr small
  push_cast at cast ⊢
  norm_num at cast ⊢
  exact cast

theorem one_close_of {value : ℝ} {terms : ℚ} {rounded : ℤ}
    (series : |value - terms| ≤ (2 * (30 : ℕ) + 1) / ((2 * 30).factorial * (2 * (30 : ℕ))))
    (rounding : |terms * scale - rounded| ≤ 3 / 4) : |value * scale - rounded| ≤ 1 := by
  have positive : (0 : ℝ) < scale := by norm_num [scale]
  have first : |value * scale - terms * scale| ≤ 1 / 4 := by
    rw [← sub_mul, abs_mul, abs_of_pos positive]
    exact (mul_le_mul_of_nonneg_right series positive.le).trans remainder_small
  have second : |(terms : ℝ) * scale - rounded| ≤ 3 / 4 := by
    have cast : ((|terms * scale - rounded| : ℚ) : ℝ) ≤ ((3 / 4 : ℚ) : ℝ) := Rat.cast_le.mpr rounding
    push_cast at cast
    exact cast
  have together := abs_sub_le (value * scale) (terms * scale) (rounded : ℝ)
  linarith

theorem cosOne_close : |Real.cos 1 * scale - cosOne| ≤ 1 :=
  one_close_of (terms_close 30 (by decide)).1 cosTerms_close

theorem sinOne_close : |Real.sin 1 * scale - sinOne| ≤ 1 :=
  one_close_of (terms_close 30 (by decide)).2 sinTerms_close

/-! ### The other angles -/

/-- A product in fixed point, when the first factor is at most one. -/
theorem product_close {x y error : ℝ} {x' y' : ℤ} (small : |x| ≤ 1) (bounded : |y| ≤ 1)
    (left : |x * scale - x'| ≤ error) (right : |y * scale - y'| ≤ 1) :
    |x * y * scale * scale - x' * y'| ≤ scale * (1 + 2 * error) := by
  have one : (1 : ℝ) ≤ scale := by norm_num [scale]
  have size : |(y' : ℝ)| ≤ 2 * scale := by
    have near := abs_sub_abs_le_abs_sub (y' : ℝ) (y * scale)
    rw [abs_sub_comm, abs_mul, abs_of_pos (by linarith : (0 : ℝ) < scale)] at near
    have part : |y| * scale ≤ 1 * scale := mul_le_mul_of_nonneg_right bounded (by linarith)
    linarith
  have split : x * y * scale * scale - x' * y' =
      x * scale * (y * scale - y') + y' * (x * scale - x') := by ring
  have first : |x * scale * (y * scale - y')| ≤ scale * 1 := by
    rw [abs_mul, abs_mul, abs_of_pos (by linarith : (0 : ℝ) < scale)]
    have part : |x| * scale ≤ 1 * scale := mul_le_mul_of_nonneg_right small (by linarith)
    rw [one_mul] at part
    exact mul_le_mul part right (abs_nonneg _) (by linarith)
  have second : |(y' : ℝ) * (x * scale - x')| ≤ 2 * scale * error := by
    rw [abs_mul]
    exact mul_le_mul size left (abs_nonneg _) (by linarith)
  rw [split]
  have sum := abs_add_le (x * scale * (y * scale - y')) (y' * (x * scale - x'))
  linarith

theorem quotient_close {value error : ℝ} {sum : ℤ}
    (close : |value * scale * scale - sum| ≤ scale * error) :
    |value * scale - (sum / scale : ℤ)| ≤ error + 1 := by
  have positive : (0 : ℝ) < scale := by norm_num [scale]
  have floor : |(sum : ℝ) - scale * (sum / scale : ℤ)| ≤ scale := by
    have division := Int.mul_ediv_add_emod sum scale
    have low := Int.emod_nonneg sum (by decide : scale ≠ 0)
    have high := Int.emod_lt_of_pos sum (by decide : 0 < scale)
    have rest : (sum : ℝ) - scale * (sum / scale : ℤ) = (sum % scale : ℤ) := by
      rw [sub_eq_iff_eq_add', ← Int.cast_mul, ← Int.cast_add, division]
    rw [rest, abs_of_nonneg (Int.cast_nonneg low)]
    exact Int.cast_le.mpr high.le
  have both := abs_sub_le (value * scale * scale) (sum : ℝ) (scale * (sum / scale : ℤ))
  have whole : value * scale * scale - scale * (sum / scale : ℤ) =
      scale * (value * scale - (sum / scale : ℤ)) := by ring
  rw [whole, abs_mul, abs_of_pos positive] at both
  refine le_of_mul_le_mul_left ?_ positive
  linarith

/-- How far the fixed-point numbers are from the cosine and the sine of `n`. -/
theorem point_close (n : Nat) :
    |Real.cos n * scale - (point n).1| ≤ 8 ^ n ∧ |Real.sin n * scale - (point n).2| ≤ 8 ^ n := by
  induction n with
  | zero => simp [point]
  | succ n ih =>
    obtain ⟨cosine, sine⟩ := ih
    have power : (1 : ℝ) ≤ 8 ^ n := one_le_pow₀ (by norm_num)
    have cc := product_close (Real.abs_cos_le_one n) (Real.abs_cos_le_one 1) cosine cosOne_close
    have ss := product_close (Real.abs_sin_le_one n) (Real.abs_sin_le_one 1) sine sinOne_close
    have sc := product_close (Real.abs_sin_le_one n) (Real.abs_cos_le_one 1) sine cosOne_close
    have cs := product_close (Real.abs_cos_le_one n) (Real.abs_sin_le_one 1) cosine sinOne_close
    rw [Nat.cast_succ, Real.cos_add, Real.sin_add, pow_succ]
    constructor
    · refine (@quotient_close _ (2 + 4 * 8 ^ n) _ ?_).trans (by linarith)
      have sum := abs_sub (Real.cos n * Real.cos 1 * scale * scale - (point n).1 * cosOne)
        (Real.sin n * Real.sin 1 * scale * scale - (point n).2 * sinOne)
      push_cast
      refine le_trans (le_of_eq ?_) (sum.trans ?_)
      · congr 1
        ring
      · linarith
    · refine (@quotient_close _ (2 + 4 * 8 ^ n) _ ?_).trans (by linarith)
      have sum := abs_add_le (Real.sin n * Real.cos 1 * scale * scale - (point n).2 * cosOne)
        (Real.cos n * Real.sin 1 * scale * scale - (point n).1 * sinOne)
      push_cast
      refine le_trans (le_of_eq ?_) (sum.trans ?_)
      · congr 1
        ring
      · linarith

/-! ### The table -/

/-- The integer part of the sine of `n` in units of 2^-32, without its sign. -/
noncomputable def sineTable (n : Nat) : Nat := ⌊2 ^ 32 * |Real.sin n|⌋₊

/-- A value that the fixed-point sine shows to be the integer part. -/
def Enclosed (n value : Nat) : Prop :=
  value * scale ≤ 2 ^ 32 * (|(point n).2| - 8 ^ n) ∧
    2 ^ 32 * (|(point n).2| + 8 ^ n) < (value + 1) * scale

instance (n value : Nat) : Decidable (Enclosed n value) := inferInstanceAs (Decidable (_ ∧ _))

theorem sineTable_eq {n value : Nat} (enclosed : Enclosed n value) : sineTable n = value := by
  have positive : (0 : ℝ) < scale := by norm_num [scale]
  obtain ⟨below, above⟩ := enclosed
  have below : ((value * scale : ℤ) : ℝ) ≤ ((2 ^ 32 * (|(point n).2| - 8 ^ n) : ℤ) : ℝ) :=
    Int.cast_le.mpr below
  have above : ((2 ^ 32 * (|(point n).2| + 8 ^ n) : ℤ) : ℝ) < (((value + 1) * scale : ℤ) : ℝ) :=
    Int.cast_lt.mpr above
  have near := (abs_abs_sub_abs_le (Real.sin n * scale) (point n).2).trans (point_close n).2
  rw [abs_mul, abs_of_pos positive] at near
  obtain ⟨low, high⟩ := abs_le.mp near
  push_cast at below above
  refine (Nat.floor_eq_iff (by positivity)).mpr ⟨?_, ?_⟩
  · refine le_of_mul_le_mul_right ?_ positive
    linarith
  · refine lt_of_mul_lt_mul_right ?_ positive.le
    linarith

end QNXStuff.Sine
