import CrossFluf.Base.Run

/-!
# A quantity that follows a ledger

Along a run a quantity `x` is meant to grow by a charge at each successful step, and may miss it by
a tolerance of that step.  Charges, tolerances and errors add up in any ordered group.
-/

namespace Run

open Outcome

universe u v

variable {σ : Type v} {ι : Type*} {ε : Type u} {M : Type*}

/-- The sum of `f` over the successful steps of a run. -/
def accrued [AddCommGroup M] (exec : σ → ι → Except ε σ) (f : σ → ι → M) (s : σ) : List ι → M
  | [] => 0
  | i :: is => (if (exec s i).isOk then f s i else 0) + accrued exec f (advance exec s i) is

section Group

variable [AddCommGroup M] {exec : σ → ι → Except ε σ} {f : σ → ι → M}

theorem accrued_cons_of_ok {s s' : σ} {i : ι} (h : exec s i = .ok s') (is : List ι) :
    accrued exec f s (i :: is) = f s i + accrued exec f s' is := by
  have hok : (Except.ok s' : Except ε σ).isOk = true := rfl
  rw [accrued, advance_of_ok h, h, if_pos hok]

theorem accrued_cons_of_error {s : σ} {i : ι} {e : ε} (h : exec s i = .error e) (is : List ι) :
    accrued exec f s (i :: is) = accrued exec f s is := by
  have hfail : ¬ (Except.error e : Except ε σ).isOk = true := nofun
  rw [accrued, advance_of_error h, h, if_neg hfail, zero_add]

end Group

section Ordered

variable [AddCommGroup M] [LinearOrder M] [IsOrderedAddMonoid M] {exec : σ → ι → Except ε σ}
  {x : σ → M} {f g : σ → ι → M}

/-- Where each step adds `f` to `x` up to `g`, a whole run adds the sum of `f` up to the sum of
`g`. -/
theorem EachStep.accrued_le {s : σ} {is : List ι}
    (h : EachStep exec (fun s i s' ↦ |x s' - x s - f s i| ≤ g s i) s is) :
    |x (run exec s is) - x s - accrued exec f s is| ≤ accrued exec g s is := by
  induction is generalizing s with
  | nil =>
    show |x s - x s - 0| ≤ 0
    rw [sub_self, sub_self, abs_zero]
  | cons i is ih =>
    have htail := ih h.2
    rw [run]
    cases hi : exec s i with
    | error e =>
      rw [advance_of_error hi] at htail ⊢
      rw [accrued_cons_of_error hi, accrued_cons_of_error hi]
      exact htail
    | ok s' =>
      have hone := h.1 s' hi
      rw [advance_of_ok hi] at htail ⊢
      rw [accrued_cons_of_ok hi, accrued_cons_of_ok hi]
      -- the error of the run is that of its first step and that of the rest
      have hsplit : x (run exec s' is) - x s - (f s i + accrued exec f s' is) =
          (x s' - x s - f s i) + (x (run exec s' is) - x s' - accrued exec f s' is) := by
        abel
      rw [hsplit]
      exact (abs_add_le _ _).trans (add_le_add hone htail)

end Ordered

end Run
