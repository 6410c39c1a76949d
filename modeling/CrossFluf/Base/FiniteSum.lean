import Mathlib.Tactic
import Mathlib.Algebra.Order.BigOperators.Group.Finset

/-!
# Finite sums below a bound

`BoundedBy f b` says that no finite part of `f` sums to more than `b`.  It is how a ledger over
an unbounded set of keys says that what its accounts hold is covered, and it is kept by a credit
that raises the bound, a debit that lowers it and a move between two keys.
-/

namespace FiniteSum

variable {K : Type*} {f g : K → ℕ} {b c d : ℕ} {i j : K}

/-- Overwriting one element of a list. -/
theorem sum_map_set {l : List K} {n : ℕ} (h : l[n]? = some i) (j : K) :
    ((l.set n j).map f).sum + f i = (l.map f).sum + f j := by
  induction l generalizing n with
  | nil => cases h
  | cons k l ih =>
    cases n with
    | zero =>
      obtain rfl := Option.some_inj.mp h
      rw [List.set_cons_zero, List.map_cons, List.map_cons, List.sum_cons, List.sum_cons]
      omega
    | succ n =>
      have htail := ih h
      rw [List.set_cons_succ, List.map_cons, List.map_cons, List.sum_cons, List.sum_cons]
      omega

/-- Every finite part of `f` sums to at most `b`. -/
def BoundedBy (f : K → ℕ) (b : ℕ) : Prop := ∀ s : Finset K, ∑ k ∈ s, f k ≤ b

theorem BoundedBy.le (h : BoundedBy f b) (k : K) : f k ≤ b := by
  simpa using h {k}

theorem BoundedBy.mono (h : BoundedBy f b) (hf : ∀ k, g k ≤ f k) (hb : b ≤ c) :
    BoundedBy g c :=
  fun s ↦ le_trans (Finset.sum_le_sum fun k _ ↦ hf k) (le_trans (h s) hb)

variable [DecidableEq K]

theorem BoundedBy.pair (h : BoundedBy f b) (hij : i ≠ j) : f i + f j ≤ b := by
  have hs := h {i, j}
  rwa [Finset.sum_pair hij] at hs

/-- Overwriting one summand. -/
theorem sum_update_add {s : Finset K} (hi : i ∈ s) (f : K → ℕ) (v : ℕ) :
    ∑ k ∈ s, Function.update f i v k + f i = ∑ k ∈ s, f k + v := by
  rw [Finset.sum_update_of_mem hi, Finset.sdiff_singleton_eq_erase, ← Finset.add_sum_erase s f hi]
  omega

theorem BoundedBy.credit (h : BoundedBy f b) (i : K) (d : ℕ) :
    BoundedBy (Function.update f i (f i + d)) (b + d) := by
  intro s
  by_cases hi : i ∈ s
  · have hsum := sum_update_add hi f (f i + d)
    have hs := h s
    omega
  · rw [Finset.sum_update_of_notMem hi]
    exact le_trans (h s) (Nat.le_add_right b d)

theorem BoundedBy.debit (h : BoundedBy f b) (hd : d ≤ f i) :
    BoundedBy (Function.update f i (f i - d)) (b - d) := by
  intro s
  -- a part without `i` is compared with the part that has it
  have hs := h (insert i s)
  by_cases hi : i ∈ s
  · rw [Finset.insert_eq_of_mem hi] at hs
    have hsum := sum_update_add hi f (f i - d)
    omega
  · rw [Finset.sum_update_of_notMem hi]
    rw [Finset.sum_insert hi] at hs
    omega

theorem BoundedBy.move (h : BoundedBy f b) (hij : i ≠ j) (hd : d ≤ f i) :
    BoundedBy (Function.update (Function.update f i (f i - d)) j (f j + d)) b := by
  have hdebit := h.debit hd
  have hcredit := hdebit.credit j d
  rw [Function.update_of_ne hij.symm] at hcredit
  have hb := h.le i
  rwa [Nat.sub_add_cancel (by omega)] at hcredit

end FiniteSum
