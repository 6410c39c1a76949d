import Mathlib.Data.Int.Log
import Mathlib.Tactic

/-!
# Binary floating point

Rational numbers rounded to `p` significant binary digits, the nearest such number and, of two,
the one with an even significand.  The exponent has no bounds, so nothing overflows or underflows.
-/

namespace Floating

variable {p : ℕ} {x : ℚ}

/-! ## Nearest integers -/

/-- The integer nearest to `x`, the even one of two. -/
def nearestEven (x : ℚ) : ℤ :=
  if Int.fract x < 1 / 2 then ⌊x⌋
  else if 1 / 2 < Int.fract x then ⌊x⌋ + 1
  else if Even ⌊x⌋ then ⌊x⌋
  else ⌊x⌋ + 1

theorem nearestEven_intCast (n : ℤ) : nearestEven n = n := by
  rw [nearestEven, Int.fract_intCast, if_pos (by norm_num), Int.floor_intCast]

theorem abs_nearestEven_sub_le (x : ℚ) : |nearestEven x - x| ≤ 1 / 2 := by
  have hfloor : (⌊x⌋ : ℚ) + Int.fract x = x := Int.floor_add_fract x
  have hnonneg := Int.fract_nonneg x
  have hlt := Int.fract_lt_one x
  rw [abs_le]
  unfold nearestEven
  split
  · constructor <;> linarith
  · rename_i hhalf
    rw [not_lt] at hhalf
    split
    · push_cast
      constructor <;> linarith
    · rename_i hover
      rw [not_lt] at hover
      split
      · constructor <;> linarith
      · push_cast
        constructor <;> linarith

/-! ## Rounding -/

/-- The distance between neighbouring numbers of `p` digits about `x`. -/
def ulp (p : ℕ) (x : ℚ) : ℚ := 2 ^ (Int.log 2 |x| + 1 - p)

def round (p : ℕ) (x : ℚ) : ℚ := nearestEven (x / ulp p x) * ulp p x

theorem ulp_pos (p : ℕ) (x : ℚ) : 0 < ulp p x := zpow_pos (by norm_num) _

theorem ulp_le (p : ℕ) (hx : x ≠ 0) : ulp p x ≤ 2 * |x| / 2 ^ p := by
  have hlog : (2 : ℚ) ^ Int.log 2 |x| ≤ |x| := by
    exact_mod_cast Int.zpow_log_le_self (b := 2) (by decide) (abs_pos.mpr hx)
  have hsplit : ulp p x = 2 * 2 ^ Int.log 2 |x| / 2 ^ p := by
    rw [ulp, zpow_sub₀ (by norm_num), zpow_add_one₀ (by norm_num), zpow_natCast]
    ring
  rw [hsplit]
  gcongr

/-- The result is off by at most one part in `2 ^ p`. -/
theorem abs_round_sub_le (p : ℕ) (x : ℚ) : |round p x - x| ≤ |x| / 2 ^ p := by
  by_cases hx : x = 0
  · subst hx
    have hzero : nearestEven 0 = 0 := nearestEven_intCast 0
    simp [round, hzero]
  · have hpos := ulp_pos p x
    have hnear := abs_nearestEven_sub_le (x / ulp p x)
    calc
      |round p x - x| = |nearestEven (x / ulp p x) - x / ulp p x| * ulp p x := by
        rw [← abs_of_pos hpos, ← abs_mul, abs_of_pos hpos, sub_mul, div_mul_cancel₀ _ hpos.ne',
          round]
      _ ≤ 1 / 2 * (2 * |x| / 2 ^ p) :=
        mul_le_mul hnear (ulp_le p hx) hpos.le (by norm_num)
      _ = |x| / 2 ^ p := by ring

theorem round_nonneg (p : ℕ) (hx : 0 ≤ x) : 0 ≤ round p x := by
  have hle := abs_round_sub_le p x
  have hone : (1 : ℚ) ≤ 2 ^ p := one_le_pow₀ (by norm_num)
  have hpart : x / 2 ^ p ≤ x := div_le_self hx hone
  rw [abs_of_nonneg hx, abs_le] at hle
  linarith

theorem round_of_multiple {k : ℤ} (h : x = k * ulp p x) : round p x = x := by
  have hquotient : x / ulp p x = k := (div_eq_iff (ulp_pos p x).ne').mpr h
  rw [round, hquotient, nearestEven_intCast, ← h]

/-- An integer of at most `p` digits is kept. -/
theorem round_intCast {n : ℤ} (h : |n| < 2 ^ p) : round p n = n := by
  by_cases hn : n = 0
  · subst hn
    exact round_of_multiple (k := 0) (by norm_num)
  · have hpos : (0 : ℚ) < |(n : ℚ)| := abs_pos.mpr (Int.cast_ne_zero.mpr hn)
    have hlog : Int.log 2 |(n : ℚ)| < p := by
      rw [← Int.lt_zpow_iff_log_lt (by decide) hpos, zpow_natCast]
      exact_mod_cast h
    obtain ⟨d, hd⟩ := Int.eq_ofNat_of_zero_le (show 0 ≤ p - (Int.log 2 |(n : ℚ)| + 1) by omega)
    have hulp : ulp p n = (2 ^ d)⁻¹ := by
      rw [ulp, ← neg_sub, hd, zpow_neg, zpow_natCast]
    apply round_of_multiple (k := n * 2 ^ d)
    rw [hulp]
    push_cast
    field_simp

theorem round_natCast {n : ℕ} (h : n < 2 ^ p) : round p n = n := by
  have hcast : |(n : ℤ)| < 2 ^ p := by
    rw [Nat.abs_cast]
    exact_mod_cast h
  exact_mod_cast round_intCast hcast

/-! ## Comparing natural numbers -/

/-- A natural number is compared with a rounded quotient as with the quotient itself. -/
theorem natCast_le_round_div_iff {m a n : ℕ} (hn : 0 < n) (ha : a < 2 ^ p) :
    (m : ℚ) ≤ round p (a / n) ↔ m * n ≤ a := by
  have hnpos : (0 : ℚ) < n := by exact_mod_cast hn
  have hclose : |round p (a / n) - a / n| < 1 / n := by
    have hle := abs_round_sub_le p ((a : ℚ) / n)
    have hsmall : (a : ℚ) / 2 ^ p < 1 := by
      rw [div_lt_one (by positivity)]
      exact_mod_cast ha
    have hquotient : (0 : ℚ) ≤ a / n := by positivity
    rw [abs_of_nonneg hquotient] at hle
    calc
      |round p (a / n) - a / n| ≤ a / n / 2 ^ p := hle
      _ = a / 2 ^ p / n := div_right_comm _ _ _
      _ < 1 / n := by gcongr
  rw [abs_lt] at hclose
  apply Iff.intro
  · intro hm
    by_contra hlt
    have hnext : (a : ℚ) / n + 1 / n ≤ m := by
      rw [← add_div, div_le_iff₀ hnpos]
      exact_mod_cast not_le.mp hlt
    linarith
  · intro hm
    rcases Nat.eq_or_lt_of_le hm with he | hlt
    -- the quotient is `m` itself
    · have hexact : (a : ℚ) / n = m := by
        rw [div_eq_iff hnpos.ne']
        exact_mod_cast he.symm
      have hsmall : m < 2 ^ p := lt_of_le_of_lt (he ▸ Nat.le_mul_of_pos_right m hn) ha
      rw [hexact, round_natCast hsmall]
    · have hnext : (m : ℚ) + 1 / n ≤ a / n := by
        rw [le_div_iff₀ hnpos, add_mul, div_mul_cancel₀ _ hnpos.ne']
        exact_mod_cast hlt
      linarith

theorem floor_round_div {a n : ℕ} (hn : 0 < n) (ha : a < 2 ^ p) :
    ⌊round p (a / n)⌋₊ = a / n := by
  have hnonneg : (0 : ℚ) ≤ round p (a / n) := round_nonneg p (by positivity)
  refine eq_of_forall_le_iff fun m ↦ ?_
  rw [Nat.le_floor_iff hnonneg, natCast_le_round_div_iff hn ha, Nat.le_div_iff_mul_le hn]

/-- Rounding leaves a natural number above those of fewer digits. -/
theorem min_round_natCast (n : ℕ) {m : ℕ} (hm : m < 2 ^ p) :
    min (round p n) m = (min n m : ℕ) := by
  rcases Nat.lt_or_ge n (2 ^ p) with hn | hn
  · rw [round_natCast hn, Nat.cast_min]
  · have hle := abs_round_sub_le p (n : ℚ)
    rw [Nat.abs_cast, abs_le] at hle
    have hpow : (2 : ℚ) ^ p ≤ n := by exact_mod_cast hn
    have hone : (m : ℚ) + 1 ≤ 2 ^ p := by exact_mod_cast hm
    have hfar : (n : ℚ) - n / 2 ^ p ≥ 2 ^ p - 1 := by
      have hpos : (0 : ℚ) < 2 ^ p := by positivity
      have hge : (1 : ℚ) ≤ n / 2 ^ p := (one_le_div hpos).mpr hpow
      have hscale : (n : ℚ) / 2 ^ p * 2 ^ p = n := div_mul_cancel₀ _ hpos.ne'
      have hpow1 : (1 : ℚ) ≤ 2 ^ p := one_le_pow₀ (by norm_num)
      nlinarith
    rw [min_eq_right (by linarith), Nat.min_eq_right (by omega)]

end Floating
