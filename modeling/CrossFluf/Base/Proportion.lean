import Mathlib.Tactic
import Mathlib.Algebra.Order.Floor.Div
import Mathlib.Algebra.Order.Ring.Defs

/-!
# Shares of a common fund

A fund of `a` assets is owned by `s` shares.  `ValuePerShareLE a s a' s'` compares the two
quotients by cross multiplication, so it needs no division.  Issuing shares rounded down,
redeeming them rounded down and donating assets never lower the value of a share.
-/

namespace Proportion

section Ratio

variable {α : Type*} [CommSemiring α] [LinearOrder α] [IsStrictOrderedRing α]

/-- `a / s ≤ a' / s'`, cross multiplied. -/
def ValuePerShareLE (a s a' s' : α) : Prop := a * s' ≤ a' * s

variable {a s a' s' a'' s'' d m x f : α}

omit [IsStrictOrderedRing α] in
theorem ValuePerShareLE.refl (a s : α) : ValuePerShareLE a s a s := le_refl (a * s)

theorem ValuePerShareLE.trans (hpos : 0 < s') (hs : 0 ≤ s) (hs'' : 0 ≤ s'')
    (h : ValuePerShareLE a s a' s') (h' : ValuePerShareLE a' s' a'' s'') :
    ValuePerShareLE a s a'' s'' := by
  unfold ValuePerShareLE at *
  have hleft := mul_le_mul_of_nonneg_right h hs''
  have hright := mul_le_mul_of_nonneg_right h' hs
  apply le_of_mul_le_mul_right _ hpos
  calc
    a * s'' * s' = a * s' * s'' := by ring
    _ ≤ a' * s * s'' := hleft
    _ = a' * s'' * s := by ring
    _ ≤ a'' * s' * s := hright
    _ = a'' * s * s' := by ring

/-- More assets, or fewer shares, make each share worth more. -/
theorem ValuePerShareLE.of_le (ha : a ≤ a') (hs : s' ≤ s) (ha0 : 0 ≤ a') (hs0 : 0 ≤ s') :
    ValuePerShareLE a s a' s' :=
  mul_le_mul ha hs hs0 ha0

/-- Issuing `m` shares for `d` assets keeps the value when `m` is at most the fair number. -/
theorem ValuePerShareLE.issue (h : m * a ≤ d * s) : ValuePerShareLE a s (a + d) (s + m) := by
  unfold ValuePerShareLE
  calc
    a * (s + m) = a * s + m * a := by ring
    _ ≤ a * s + d * s := by gcongr
    _ = (a + d) * s := by ring

/-- Paying `x` assets for `f` shares keeps the value when `x` is at most the fair amount. -/
theorem ValuePerShareLE.redeem (h : x * s ≤ f * a) (ha : a = a' + x) (hs : s = s' + f) :
    ValuePerShareLE a s a' s' := by
  unfold ValuePerShareLE
  apply le_of_add_le_add_right (a := x * s)
  calc
    a * s' + x * s ≤ a * s' + f * a := by gcongr
    _ = a * s := by rw [hs]; ring
    _ = a' * s + x * s := by rw [ha]; ring

/-- Shares issued for `d` assets at no more than the fair number are worth at most `d` at once. -/
theorem issue_redeem_le (h : m * a ≤ d * s) : m * (a + d) ≤ d * (s + m) := by
  calc
    m * (a + d) = m * a + m * d := by ring
    _ ≤ d * s + m * d := by gcongr
    _ = d * (s + m) := by ring

end Ratio

/-! ## Rounding down -/

theorem floor_mul_le (n d : ℕ) : n / d * d ≤ n := Nat.div_mul_le_self n d

/-- A floored share of the fund, truncated or not, is at most the fair one. -/
theorem mod_floor_mul_le {x n d k : ℕ} (hx : x = n / d % k) : x * d ≤ n := by
  have hle : x ≤ n / d := hx ▸ Nat.mod_le _ _
  exact le_trans (Nat.mul_le_mul_right d hle) (floor_mul_le n d)

theorem floor_share_le {f a s : ℕ} (h : f ≤ s) : f * a / s ≤ a := by
  apply Nat.div_le_of_le_mul
  exact Nat.mul_le_mul_right a h

/-- In a fund that holds at least one asset a share, redeeming pays at least one asset a share. -/
theorem le_floor_share {f a s : ℕ} (hs : 0 < s) (h : s ≤ a) : f ≤ f * a / s := by
  rw [Nat.le_div_iff_mul_le hs]
  exact Nat.mul_le_mul_left f h

/-- In a fund that holds at least one asset a share, an asset buys at most one share. -/
theorem floor_issue_le {d a s : ℕ} (h : s ≤ a) : d * s / a ≤ d := by
  apply Nat.div_le_of_le_mul
  rw [Nat.mul_comm]
  exact Nat.mul_le_mul_right d h

/-- Redeeming at once what a deposit of `d` bought, after the fund lost value or not, pays at
most `d`. -/
theorem redeem_floor_le {m a a' d s : ℕ} (h : m * a ≤ d * s) (hloss : a' ≤ a + d) :
    m * a' / (s + m) ≤ d := by
  apply Nat.div_le_of_le_mul
  calc
    m * a' ≤ m * (a + d) := Nat.mul_le_mul_left m hloss
    _ ≤ d * (s + m) := issue_redeem_le h
    _ = (s + m) * d := Nat.mul_comm _ _

/-! ## Dilution -/

section Dilution

variable {K : Type*} [Field K] [LinearOrder K] [IsStrictOrderedRing K]

/-- Shares worth at most `x` are issued to another: a holder of `h` shares loses at most their
part of `x`. -/
theorem dilution_le {a s f x h : K} (hs : 0 < s) (hf : 0 ≤ f) (hx : 0 ≤ x) (hh : 0 ≤ h)
    (hfair : f * a ≤ x * s) : h * a / s ≤ h * a / (s + f) + h * x / s := by
  have hsf : 0 < s + f := add_pos_of_pos_of_nonneg hs hf
  have hcross : a * (s + f) ≤ a * s + x * (s + f) := by
    have hxf := mul_nonneg hx hf
    linarith
  calc
    h * a / s = h * (a * (s + f)) / (s * (s + f)) := by field_simp
    _ ≤ h * (a * s + x * (s + f)) / (s * (s + f)) := by gcongr
    _ = h * a / (s + f) + h * x / s := by field_simp

/-- Rounding down on both sides costs less than one unit more. -/
theorem floor_dilution_lt {a s f x : ℕ} (h : ℕ) (hs : 0 < s) (hfair : f * a ≤ x * s) :
    ((h * a / s : ℕ) : ℚ) < (h * a / (s + f) : ℕ) + (h : ℚ) * x / s + 1 := by
  have hbefore : ((h * a / s : ℕ) : ℚ) ≤ (h : ℚ) * a / s := by
    exact_mod_cast Nat.cast_div_le
  have hafter : (h : ℚ) * a / (s + f) < (h * a / (s + f) : ℕ) + 1 := by
    have hpos : (0 : ℚ) < s + f := by positivity
    rw [div_lt_iff₀ hpos, mul_comm _ ((s : ℚ) + f)]
    exact_mod_cast Nat.lt_mul_div_succ (h * a) (Nat.add_pos_left hs f)
  have hloss : (h : ℚ) * a / s ≤ h * a / (s + f) + h * x / s :=
    dilution_le (by exact_mod_cast hs) (Nat.cast_nonneg f) (Nat.cast_nonneg x)
      (Nat.cast_nonneg h) (by exact_mod_cast hfair)
  linarith

end Dilution

/-! ## Fees on a quotient -/

section Fee

variable {b c e n u : ℕ}

/-- The least amount on which a fee of `b` parts in `c`, rounded down, comes to `n`. -/
def leastWithFee (b c n : ℕ) : ℕ := (n * c) ⌈/⌉ b

theorem le_floor_fee_iff (hb : 0 < b) (hc : 0 < c) (he : 0 < e) :
    n ≤ u / e * b / c ↔ leastWithFee b c n * e ≤ u := by
  rw [Nat.le_div_iff_mul_le hc, leastWithFee, ← Nat.le_div_iff_mul_le he,
    ceilDiv_le_iff_le_mul hb, Nat.mul_comm b]

theorem floor_fee_eq_zero_iff (hb : 0 < b) (hc : 0 < c) (he : 0 < e) :
    u / e * b / c = 0 ↔ u < leastWithFee b c 1 * e := by
  rw [← Nat.lt_one_iff, ← Nat.not_le, le_floor_fee_iff hb hc he, Nat.not_le]

/-- The fee is within `t` of `x` exactly when the quotient lies between two amounts. -/
theorem abs_floor_fee_sub_le_iff {x t : ℚ} (hb : 0 < b) (hc : 0 < c) (he : 0 < e)
    (hx : 0 ≤ x + t) : |((u / e * b / c : ℕ) : ℚ) - x| ≤ t ↔
      leastWithFee b c ⌈x - t⌉₊ * e ≤ u ∧ u < leastWithFee b c (⌊x + t⌋₊ + 1) * e := by
  have hlow : x - t ≤ ((u / e * b / c : ℕ) : ℚ) ↔ leastWithFee b c ⌈x - t⌉₊ * e ≤ u := by
    rw [← Nat.ceil_le, le_floor_fee_iff hb hc he]
  have hhigh : ((u / e * b / c : ℕ) : ℚ) ≤ x + t ↔
      u < leastWithFee b c (⌊x + t⌋₊ + 1) * e := by
    rw [← Nat.le_floor_iff hx, ← Nat.lt_succ_iff, ← Nat.not_le, le_floor_fee_iff hb hc he,
      Nat.not_le]
  rw [← hlow, ← hhigh, abs_le]
  apply Iff.intro
  · intro h
    obtain ⟨hleft, hright⟩ := h
    constructor <;> linarith
  · intro h
    obtain ⟨hleft, hright⟩ := h
    constructor <;> linarith

theorem floor_fee_lt {k : ℕ} (hc : 0 < c) (h : u * b < k * c * e) : u / e * b / c < k := by
  rw [Nat.div_lt_iff_lt_mul hc]
  apply Nat.lt_of_mul_lt_mul_right (a := e)
  calc
    u / e * b * e = u / e * e * b := Nat.mul_right_comm _ _ _
    _ ≤ u * b := Nat.mul_le_mul_right b (floor_mul_le u e)
    _ < k * c * e := h

end Fee

/-! ## Histories of a fund -/

/-- One change of a fund of `a` assets and `s` shares: assets arrive or shares are given up, shares
are issued for `d` assets, or `f` shares are redeemed for `x`. -/
inductive Change : ℕ → ℕ → ℕ → ℕ → Prop
  | outside {a s a' s' : ℕ} (ha : a ≤ a') (hs : s' ≤ s) : Change a s a' s'
  | issue {a s m d : ℕ} (h : m * a ≤ d * s) (hempty : a = 0 → m ≤ d) : Change a s (a + d) (s + m)
  | redeem {a s a' s' f x : ℕ} (h : x * s ≤ f * a) (ha : a = a' + x) (hs : s = s' + f) :
    Change a s a' s'

variable {a s a' s' : ℕ}

theorem Change.valuePerShareLE (h : Change a s a' s') : ValuePerShareLE a s a' s' := by
  cases h with
  | outside ha hs => exact .of_le ha hs (Nat.zero_le _) (Nat.zero_le _)
  | issue h hempty => exact .issue h
  | redeem h ha hs => exact .redeem h ha hs

/-- A fund that holds an asset for every share still does when the value of a share has not
fallen. -/
theorem ValuePerShareLE.covered (h : ValuePerShareLE a s a' s') (hs : 0 < s) (hc : s ≤ a) :
    s' ≤ a' := by
  apply Nat.le_of_mul_le_mul_right _ hs
  calc
    s' * s ≤ s' * a := Nat.mul_le_mul_left s' hc
    _ = a * s' := Nat.mul_comm _ _
    _ ≤ a' * s := h

theorem Change.covered (h : Change a s a' s') (hc : s ≤ a) : s' ≤ a' := by
  rcases Nat.eq_zero_or_pos s with rfl | hs
  -- without shares the first deposit decides
  · cases h with
    | outside ha hs => omega
    | @issue m d h hempty =>
      rcases Nat.eq_zero_or_pos a with rfl | ha
      · have hm := hempty rfl
        omega
      · have hm : m = 0 := by
          rw [Nat.mul_zero] at h
          exact (Nat.mul_eq_zero.mp (Nat.le_zero.mp h)).resolve_right (by omega)
        omega
    | redeem h ha hs => omega
  · exact h.valuePerShareLE.covered hs hc

end Proportion
