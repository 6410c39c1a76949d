import CrossFluf.Base.Proportion
import CrossFluf.Base.Run

/-!
# Trading with a fund

Traders pay assets into a fund and take assets out of it, for shares issued and redeemed.  A trade
is fair to the fund when no asset appears from nowhere and the value of a share does not fall.
What the traders own, their shares at the fund's value and the assets they took, then never grows
by more than what they paid, and what a share of the others is worth never falls.
-/

namespace Exchange

open Proportion Run

/-- The fund goes from `a` assets and `s` shares to `a'` and `s'`, while `paid` goes in and `taken`
comes out. -/
structure Fair (a s paid taken a' s' : ℕ) : Prop where
  assets : a' + taken ≤ a + paid
  value : ValuePerShareLE a s a' s'

variable {a s paid taken a' s' : ℕ}

theorem Fair.refl (a s : ℕ) : Fair a s 0 0 a s := ⟨le_rfl, .refl a s⟩

theorem Fair.issue {m d : ℕ} (h : m * a ≤ d * s) : Fair a s d 0 (a + d) (s + m) :=
  ⟨le_rfl, .issue h⟩

/-- Of the `x` assets the shares are redeemed for, a fee may stay with nobody. -/
theorem Fair.redeem {f x : ℕ} (h : x * s ≤ f * a) (ha : a = a' + x) (hs : s = s' + f)
    (htaken : taken ≤ x) : Fair a s 0 taken a' s' where
  assets := by omega
  value := .redeem h ha hs

/-- Shares redeem for at least as much, rounded down, when their value has not fallen. -/
theorem claim_le (h : ValuePerShareLE a s a' s') (hs' : 0 < s') (k : ℕ) :
    k * a / s ≤ k * a' / s' := by
  rcases Nat.eq_zero_or_pos s with rfl | hs
  · rw [Nat.div_zero]
    exact Nat.zero_le _
  · have hfloor := floor_mul_le (k * a) s
    rw [Nat.le_div_iff_mul_le hs']
    apply Nat.le_of_mul_le_mul_right _ hs
    calc
      k * a / s * s' * s = k * a / s * s * s' := by ring
      _ ≤ k * a * s' := Nat.mul_le_mul_right s' hfloor
      _ = k * (a * s') := by ring
      _ ≤ k * (a' * s) := Nat.mul_le_mul_left k h
      _ = k * a' * s := by ring

section Wealth

variable {K : Type*} [Field K] [LinearOrder K] [IsStrictOrderedRing K]

/-- What `k` of the `s` shares of a fund of `a` assets are worth. -/
def worth (K : Type*) [Field K] (a s k : ℕ) : K := (k : K) * a / s

theorem worth_add_worth (hs : 0 < s) {k o : ℕ} (h : k + o = s) :
    worth K a s k + worth K a s o = a := by
  have hne : (s : K) ≠ 0 := by exact_mod_cast hs.ne'
  have hsum : (k : K) + o = s := by exact_mod_cast h
  unfold worth
  rw [← add_div, ← add_mul, hsum, mul_div_cancel_left₀ _ hne]

theorem Fair.worth_le (h : Fair a s paid taken a' s') (hs : 0 < s) (hs' : 0 < s') (o : ℕ) :
    worth K a s o ≤ worth K a' s' o := by
  have hpos : (0 : K) < s := by exact_mod_cast hs
  have hpos' : (0 : K) < s' := by exact_mod_cast hs'
  have hvalue : (a : K) * s' ≤ a' * s := by exact_mod_cast h.value
  unfold worth
  rw [div_le_div_iff₀ hpos hpos', mul_assoc, mul_assoc]
  exact mul_le_mul_of_nonneg_left hvalue (Nat.cast_nonneg o)

/-- Traders who own all but `o` of the shares before and after a fair trade do not gain by it. -/
theorem Fair.wealth_le (h : Fair a s paid taken a' s') (hs : 0 < s) (hs' : 0 < s') {k k' o : ℕ}
    (hk : k + o = s) (hk' : k' + o = s') :
    worth K a' s' k' + taken ≤ worth K a s k + paid := by
  have hassets : (a' : K) + taken ≤ a + paid := by exact_mod_cast h.assets
  have hbefore := worth_add_worth (K := K) (a := a) hs hk
  have hafter := worth_add_worth (K := K) (a := a') hs' hk'
  have hothers := h.worth_le (K := K) hs hs' o
  linarith

end Wealth

/-! ## Runs -/

section Runs

universe u v

variable {σ : Type v} {ι : Type*} {ε : Type u} {exec : σ → ι → Except ε σ}
  {assets shares : σ → ℕ} {paidBy takenBy : σ → ι → ℕ}

/-- While there are shares, steps that keep the value of a share add up to a run that does. -/
theorem value_run {x : σ} {is : List ι} (hshares : Always exec (fun x ↦ 0 < shares x) x is)
    (h : EachStep exec
      (fun x _ x' ↦ ValuePerShareLE (assets x) (shares x) (assets x') (shares x')) x is) :
    ValuePerShareLE (assets x) (shares x) (assets (run exec x is)) (shares (run exec x is)) := by
  induction is generalizing x with
  | nil => exact .refl _ _
  | cons i is ih =>
    have htail := ih hshares.2 h.2
    rw [run]
    cases hi : exec x i with
    | error e =>
      rw [advance_of_error hi] at htail ⊢
      exact htail
    | ok x' =>
      have hpos := hshares.2.head
      rw [advance_of_ok hi] at hpos htail ⊢
      exact (h.1 x' hi).trans hpos (Nat.zero_le _) (Nat.zero_le _) htail

/-- Each step of the machine is a fair trade with the fund. -/
def Step (assets shares : σ → ℕ) (paidBy takenBy : σ → ι → ℕ) (x : σ) (i : ι) (x' : σ) : Prop :=
  Fair (assets x) (shares x) (paidBy x i) (takenBy x i) (assets x') (shares x')

/-- While there are shares, a run of fair trades is one fair trade. -/
theorem fair_run {x : σ} {is : List ι} (hshares : Always exec (fun x ↦ 0 < shares x) x is)
    (h : EachStep exec (Step assets shares paidBy takenBy) x is) :
    Fair (assets x) (shares x) (tally exec paidBy x is) (tally exec takenBy x is)
      (assets (run exec x is)) (shares (run exec x is)) where
  assets := (h.mono fun _ _ _ _ hf ↦ hf.assets).tally_add_le
  value := value_run hshares (h.mono fun _ _ _ _ hf ↦ hf.value)

end Runs

end Exchange
