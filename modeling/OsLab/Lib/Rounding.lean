import Mathlib.Algebra.Order.Round
import Mathlib.Data.Int.Log
import Mathlib.Data.Rat.Floor
import Mathlib.Tactic.FieldSimp
import Mathlib.Tactic.GCongr
import Mathlib.Tactic.Linarith
import Mathlib.Tactic.Positivity

/-!
# Rounding — floating point results and conversion to integers

A program that mixes integers and floating point numbers rounds the result of every operation to a
number of the format, and cuts the fraction off when the result goes into an integer.  A `Rounding`
is what such a program may rely on: small integers are numbers of the format, and a result is off by
a relative error of `2 ^ -53` at most.  Exact arithmetic is one, and so is rounding to the nearest
number with 53 binary digits (`Rounding.binary64`, for results within the range of exponents).
-/

namespace OsLab
namespace Lib

/-! ## Conversion to integers -/

/-- Cut off the fraction, towards zero. -/
def truncate (x : ℚ) : ℤ :=
  x.num.tdiv x.den

theorem truncate_of_nonneg {x : ℚ} (hx : 0 ≤ x) : truncate x = ⌊x⌋ := by
  rw [truncate, Int.tdiv_eq_ediv_of_nonneg (Rat.num_nonneg.2 hx)]
  exact (Rat.floor_def x).symm

@[simp] theorem truncate_intCast (n : ℤ) : truncate (n : ℚ) = n := by
  simp [truncate]

/-- Between two integers the lower one is the result. -/
theorem truncate_eq {x : ℚ} {n : ℤ} (hn : 0 ≤ n) (hlo : (n : ℚ) ≤ x) (hhi : x < n + 1) :
    truncate x = n := by
  have hx : 0 ≤ x := le_trans (by exact_mod_cast hn) hlo
  rw [truncate_of_nonneg hx]
  exact Int.floor_eq_iff.2 ⟨hlo, hhi⟩

/-! ## Rounded arithmetic -/

structure Rounding where
  /-- The result of an operation whose exact result is the argument. -/
  fl : ℚ → ℚ
  int : ∀ n : ℤ, |n| < 2 ^ 53 → fl n = n
  error : ∀ x, |fl x - x| ≤ |x| / 2 ^ 53

namespace Rounding

variable (R : Rounding)

@[simp] theorem fl_zero : R.fl 0 = 0 := by
  have h := R.int 0 (by norm_num)
  simpa using h

/-- Results of moderate size are off by less than a thousandth. -/
theorem fl_near {x lo hi : ℚ} (hlo : lo ≤ x) (hhi : x ≤ hi) (hpos : 0 ≤ lo) (hsmall : hi ≤ 1000) :
    lo - 1 / 1000 ≤ R.fl x ∧ R.fl x ≤ hi + 1 / 1000 := by
  have herr := R.error x
  have hx : |x| ≤ 1000 := by
    rw [abs_of_nonneg (le_trans hpos hlo)]
    exact le_trans hhi hsmall
  -- The relative error of a number up to 1000 is tiny.
  have hbound : |x| / 2 ^ 53 ≤ 1 / 1000 := by
    rw [div_le_iff₀ (by positivity)]
    norm_num
    linarith
  rcases abs_le.1 (le_trans herr hbound) with ⟨h1, h2⟩
  constructor <;> linarith

/-- A small integer times a weight.  The weight and the product are rounded. -/
theorem product_near {c : ℤ} {a : ℚ} (hc : 0 ≤ c ∧ c ≤ 20) (ha : 1 / 1000 ≤ a ∧ a ≤ 1) :
    c * a - 1 / 40 ≤ R.fl (c * R.fl a) ∧ R.fl (c * R.fl a) ≤ c * a + 1 / 40 := by
  have hc0 : (0 : ℚ) ≤ c := by exact_mod_cast hc.1
  have hc20 : (c : ℚ) ≤ 20 := by exact_mod_cast hc.2
  have hweight := R.fl_near (le_refl a) (le_refl a) (by linarith [ha.1]) (by linarith [ha.2])
  have hweight0 : 0 ≤ R.fl a := by linarith [hweight.1, ha.1]
  -- The error of the weight counts `c` times.
  have hlo := mul_le_mul_of_nonneg_left hweight.1 hc0
  have hhi := mul_le_mul_of_nonneg_left hweight.2 hc0
  have hca : (c : ℚ) * a ≤ 20 * 1 := mul_le_mul hc20 ha.2 (by linarith [ha.1]) (by norm_num)
  have hprod := R.fl_near (le_refl (c * R.fl a)) (le_refl (c * R.fl a))
    (mul_nonneg hc0 hweight0) (by linarith)
  constructor
  · linarith [hprod.1]
  · linarith [hprod.2]

/-- A product goes into an integer, and is not too close to one. -/
theorem truncate_product {c n : ℤ} {a : ℚ} (hn : 0 ≤ n) (hc : 0 ≤ c ∧ c ≤ 20)
    (ha : 1 / 1000 ≤ a ∧ a ≤ 1) (hlo : (n : ℚ) + 1 / 40 ≤ c * a) (hhi : (c : ℚ) * a < n + 39 / 40) :
    truncate (R.fl (c * R.fl a)) = n := by
  have hprod := R.product_near hc ha
  refine truncate_eq hn ?_ ?_
  · linarith [hprod.1]
  · linarith [hprod.2]

/-- A product is added to an integer, and the sum is not too close to one. -/
theorem truncate_share {acc c n : ℤ} {a : ℚ} (hn : 0 ≤ n) (hacc : 0 ≤ acc ∧ acc ≤ 500)
    (hc : 0 ≤ c ∧ c ≤ 20) (ha : 1 / 1000 ≤ a ∧ a ≤ 1) (hlo : (n : ℚ) + 1 / 20 ≤ acc + c * a)
    (hhi : (acc : ℚ) + c * a ≤ n + 19 / 20) :
    truncate (R.fl (acc + R.fl (c * R.fl a))) = n := by
  have hprod := R.product_near hc ha
  have hn0 : (0 : ℚ) ≤ n := by exact_mod_cast hn
  have hacc500 : (acc : ℚ) ≤ 500 := by exact_mod_cast hacc.2
  have hc20 : (c : ℚ) ≤ 20 := by exact_mod_cast hc.2
  have hca : (c : ℚ) * a ≤ 20 * 1 := mul_le_mul hc20 ha.2 (by linarith [ha.1]) (by norm_num)
  have hsum := R.fl_near (le_refl (acc + R.fl (c * R.fl a))) (le_refl _) (by linarith [hprod.1])
    (by linarith [hprod.2])
  refine truncate_eq hn ?_ ?_
  · linarith [hsum.1, hprod.1]
  · linarith [hsum.2, hprod.2]

/-- Adding nothing changes nothing. -/
theorem truncate_zero_share {acc : ℤ} (hacc : |acc| < 2 ^ 53) (a : ℚ) :
    truncate (R.fl (acc + R.fl ((0 : ℤ) * a))) = acc := by
  simp [R.int acc hacc]

/-- Arithmetic without rounding. -/
def exact : Rounding where
  fl := id
  int := fun _ _ => rfl
  error := by
    intro x
    simp only [id_eq, sub_self, abs_zero]
    positivity

/-! ## Binary digits -/

/-- The nearest integer, and of two the even one. -/
def halfEven (x : ℚ) : ℤ :=
  if Int.fract x = 1 / 2 then
    if 2 ∣ ⌊x⌋ then ⌊x⌋ else ⌊x⌋ + 1
  else round x

theorem abs_halfEven_sub (x : ℚ) : |(halfEven x : ℚ) - x| ≤ 1 / 2 := by
  have hfloor := Int.floor_add_fract x
  simp only [halfEven]
  split_ifs with htie heven
  · -- Halfway between two integers both are at the same distance.
    rw [abs_le]
    constructor <;> linarith
  · push_cast
    rw [abs_le]
    constructor <;> linarith
  · rw [abs_sub_comm]
    exact abs_sub_round x

@[simp] theorem halfEven_intCast (n : ℤ) : halfEven (n : ℚ) = n := by
  simp [halfEven]

/-- Weight of the last binary digit of a number with 53 digits. -/
def lastDigit (x : ℚ) : ℤ :=
  Int.log 2 |x| - 52

/-- The nearest number with 53 binary digits. -/
def nearest (x : ℚ) : ℚ :=
  if x = 0 then 0 else halfEven (x / 2 ^ lastDigit x) * 2 ^ lastDigit x

theorem nearest_error (x : ℚ) : |nearest x - x| ≤ |x| / 2 ^ 53 := by
  by_cases hx : x = 0
  · simp [nearest, hx]
  · rw [nearest, if_neg hx]
    have hpow : (0 : ℚ) < 2 ^ lastDigit x := zpow_pos (by norm_num) _
    have hscale : (halfEven (x / 2 ^ lastDigit x) : ℚ) * 2 ^ lastDigit x - x =
        (halfEven (x / 2 ^ lastDigit x) - x / 2 ^ lastDigit x) * 2 ^ lastDigit x := by
      field_simp
    -- 53 digits: the first one is worth `2 ^ 52` times the last one.
    have hdigit : (2 : ℚ) ^ lastDigit x * 2 ^ 52 ≤ |x| := by
      have hlog := Int.zpow_log_le_self (b := 2) (by norm_num) (abs_pos.2 hx)
      rw [lastDigit, ← zpow_natCast (2 : ℚ) 52, ← zpow_add₀ (by norm_num)]
      simpa using hlog
    calc |(halfEven (x / 2 ^ lastDigit x) : ℚ) * 2 ^ lastDigit x - x|
        = |(halfEven (x / 2 ^ lastDigit x) : ℚ) - x / 2 ^ lastDigit x| * 2 ^ lastDigit x := by
          rw [hscale, abs_mul, abs_of_pos hpow]
      _ ≤ 1 / 2 * 2 ^ lastDigit x := by
          gcongr
          exact abs_halfEven_sub _
      _ ≤ |x| / 2 ^ 53 := by
          rw [le_div_iff₀ (by positivity)]
          calc (1 : ℚ) / 2 * 2 ^ lastDigit x * 2 ^ 53 = 2 ^ lastDigit x * 2 ^ 52 := by ring
            _ ≤ |x| := hdigit

theorem nearest_int {n : ℤ} (hn : |n| < 2 ^ 53) : nearest n = n := by
  by_cases hzero : (n : ℚ) = 0
  · simp [nearest, hzero]
  · rw [nearest, if_neg hzero]
    have habs : (0 : ℚ) < |(n : ℚ)| := abs_pos.2 hzero
    have hlog : Int.log 2 |(n : ℚ)| < 53 := by
      rw [← Int.lt_zpow_iff_log_lt (by norm_num) habs]
      exact_mod_cast hn
    -- The last digit is worth one or less, so that the scaled number is an integer.
    obtain ⟨k, hk⟩ : ∃ k : ℕ, lastDigit n = -(k : ℤ) := by
      refine ⟨(-lastDigit n).toNat, ?_⟩
      rw [lastDigit]
      omega
    have hscale : (n : ℚ) / 2 ^ lastDigit n = ((n * 2 ^ k : ℤ) : ℚ) := by
      rw [hk, zpow_neg, zpow_natCast]
      push_cast
      field_simp
    rw [hscale, halfEven_intCast, hk, zpow_neg, zpow_natCast]
    push_cast
    field_simp

/-- Double precision. -/
def binary64 : Rounding where
  fl := nearest
  int := fun _ => nearest_int
  error := nearest_error

end Rounding

end Lib
end OsLab
