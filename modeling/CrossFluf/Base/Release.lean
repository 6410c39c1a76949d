import Mathlib.Tactic

/-!
# Linear release of a locked amount

An amount locked at time zero is released linearly over a period.  `withheld` is the part still
locked after some time, rounded down; a zero period locks nothing.
-/

namespace Release

/-- The part of `amount` still locked `elapsed` seconds into a release over `period` seconds. -/
def withheld (amount elapsed period : ℕ) : ℕ :=
  if period ≤ elapsed then 0 else amount * (period - elapsed) / period

variable {amount elapsed period : ℕ}

theorem withheld_of_period_le (h : period ≤ elapsed) : withheld amount elapsed period = 0 := by
  unfold withheld
  rw [if_pos h]

theorem withheld_of_lt (h : elapsed < period) :
    withheld amount elapsed period = amount * (period - elapsed) / period := by
  unfold withheld
  rw [if_neg (by omega)]

/-- Truncated subtraction and division cover the released and the zero period. -/
theorem withheld_eq (amount elapsed period : ℕ) :
    withheld amount elapsed period = amount * (period - elapsed) / period := by
  by_cases h : period ≤ elapsed
  · rw [withheld_of_period_le h, Nat.sub_eq_zero_of_le h, Nat.mul_zero, Nat.zero_div]
  · exact withheld_of_lt (by omega)

@[simp] theorem withheld_zero_amount (elapsed period : ℕ) : withheld 0 elapsed period = 0 := by
  unfold withheld
  split <;> simp

@[simp] theorem withheld_zero_period (amount elapsed : ℕ) : withheld amount elapsed 0 = 0 :=
  withheld_of_period_le (Nat.zero_le elapsed)

/-- Nothing is released at time zero. -/
theorem withheld_zero_elapsed (h : 0 < period) : withheld amount 0 period = amount := by
  rw [withheld_of_lt h, Nat.sub_zero, Nat.mul_div_cancel amount h]

theorem withheld_le (amount elapsed period : ℕ) : withheld amount elapsed period ≤ amount := by
  unfold withheld
  split
  · exact Nat.zero_le amount
  · apply Nat.div_le_of_le_mul
    rw [Nat.mul_comm]
    exact Nat.mul_le_mul_right amount (Nat.sub_le period elapsed)

/-- Time only releases. -/
theorem withheld_antitone {elapsed' : ℕ} (h : elapsed ≤ elapsed') :
    withheld amount elapsed' period ≤ withheld amount elapsed period := by
  by_cases hp : period ≤ elapsed'
  · rw [withheld_of_period_le hp]
    exact Nat.zero_le _
  · rw [withheld_of_lt (by omega), withheld_of_lt (by omega)]
    apply Nat.div_le_div_right
    apply Nat.mul_le_mul_left
    omega

/-- The whole amount is still locked exactly when no time has passed or nothing was locked. -/
theorem withheld_eq_amount_iff (hp : 0 < period) :
    withheld amount elapsed period = amount ↔ amount = 0 ∨ elapsed = 0 := by
  constructor
  · intro h
    by_cases hlt : elapsed < period
    · rw [withheld_of_lt hlt] at h
      have hle : amount * period ≤ amount * (period - elapsed) := by
        have hfloor := Nat.div_mul_le_self (amount * (period - elapsed)) period
        rwa [h] at hfloor
      rcases Nat.eq_zero_or_pos amount with hz | hpos
      · exact Or.inl hz
      · have := Nat.le_of_mul_le_mul_left hle hpos
        exact Or.inr (by omega)
    · rw [withheld_of_period_le (by omega)] at h
      exact Or.inl h.symm
  · rintro (rfl | rfl)
    · exact withheld_zero_amount elapsed period
    · exact withheld_zero_elapsed hp

/-- A shorter period releases at least as much. -/
theorem withheld_mono_period {period' : ℕ} (h : period ≤ period') :
    withheld amount elapsed period ≤ withheld amount elapsed period' := by
  by_cases hp : period ≤ elapsed
  · rw [withheld_of_period_le hp]
    exact Nat.zero_le _
  · rw [withheld_of_lt (by omega), withheld_of_lt (by omega),
      Nat.le_div_iff_mul_le (by omega)]
    have hfloor := Nat.div_mul_le_self (amount * (period - elapsed)) period
    apply Nat.le_of_mul_le_mul_right (c := period) _ (by omega)
    calc
      amount * (period - elapsed) / period * period' * period
          = amount * (period - elapsed) / period * period * period' := by ring
      _ ≤ amount * (period - elapsed) * period' := Nat.mul_le_mul_right period' hfloor
      _ = amount * ((period - elapsed) * period') := by ring
      _ ≤ amount * ((period' - elapsed) * period) := by
        apply Nat.mul_le_mul_left
        rw [Nat.sub_mul, Nat.sub_mul, Nat.mul_comm period period']
        exact Nat.sub_le_sub_left (Nat.mul_le_mul_left elapsed h) (period' * period)
      _ = amount * (period' - elapsed) * period := by ring

end Release
