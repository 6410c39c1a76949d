import CrossFluf.Base.Outcome

/-!
# Runs of a machine whose failed steps change nothing

A machine is a partial step function `exec : σ → ι → Except ε σ`.  A run executes a list of
inputs from left to right and skips the ones that fail.  `Always` speaks about every state a run
visits, `EachStep` about every step that succeeds in it, and `Succeeds` says that none fails.
-/

namespace Run

open Outcome

universe u v

variable {σ : Type v} {ι : Type*} {ε : Type u} (exec : σ → ι → Except ε σ)

/-- The state after one input; a failed step leaves it alone. -/
def advance (s : σ) (i : ι) : σ :=
  match exec s i with
  | .ok s' => s'
  | .error _ => s

def run (s : σ) : List ι → σ
  | [] => s
  | i :: is => run (advance exec s i) is

/-- `P` holds in every state the run visits, the first and the last included. -/
def Always (P : σ → Prop) (s : σ) : List ι → Prop
  | [] => P s
  | i :: is => P s ∧ Always P (advance exec s i) is

instance Always.decidable (P : σ → Prop) [DecidablePred P] :
    (s : σ) → (is : List ι) → Decidable (Always exec P s is)
  | s, [] => inferInstanceAs (Decidable (P s))
  | s, i :: is =>
    have := Always.decidable P (advance exec s i) is
    inferInstanceAs (Decidable (_ ∧ _))

/-- `P` relates the state before, the input and the state after of every successful step. -/
def EachStep (P : σ → ι → σ → Prop) (s : σ) : List ι → Prop
  | [] => True
  | i :: is => (∀ s', exec s i = .ok s' → P s i s') ∧ EachStep P (advance exec s i) is

/-- No step of the run fails. -/
def Succeeds (s : σ) : List ι → Prop
  | [] => True
  | i :: is => (exec s i).isOk = true ∧ Succeeds (advance exec s i) is

/-- The states some run reaches from an initial one. -/
def Reachable (init : σ → Prop) (s : σ) : Prop :=
  ∃ s₀ is, init s₀ ∧ run exec s₀ is = s

variable {exec}

theorem advance_of_ok {s s' : σ} {i : ι} (h : exec s i = .ok s') : advance exec s i = s' := by
  unfold advance
  rw [h]

theorem eq_ok_advance {s : σ} {i : ι} (h : (exec s i).isOk = true) :
    exec s i = .ok (advance exec s i) := by
  obtain ⟨s', hs'⟩ := isOk_iff.mp h
  rw [advance_of_ok hs', hs']

theorem advance_of_error {s : σ} {i : ι} {e : ε} (h : exec s i = .error e) :
    advance exec s i = s := by
  unfold advance
  rw [h]

theorem advance_of_not_isOk {s : σ} {i : ι} (h : ¬ (exec s i).isOk = true) :
    advance exec s i = s := by
  cases hi : exec s i with
  | error e => exact advance_of_error hi
  | ok s' =>
    rw [hi] at h
    exact absurd rfl h

/-- What every successful step preserves, one `advance` preserves. -/
theorem advance_induct {I : σ → Prop} {s : σ} {i : ι} (hs : I s)
    (hstep : ∀ s', exec s i = .ok s' → I s') : I (advance exec s i) := by
  cases h : exec s i with
  | ok s' =>
    rw [advance_of_ok h]
    exact hstep s' h
  | error e =>
    rw [advance_of_error h]
    exact hs

theorem run_append (s : σ) (is js : List ι) :
    run exec s (is ++ js) = run exec (run exec s is) js := by
  induction is generalizing s with
  | nil => rfl
  | cons i is ih => exact ih (advance exec s i)

/-! ## Invariants -/

section Invariant

variable {I J : σ → Prop} {P Q : σ → ι → σ → Prop}

theorem run_invariant (hstep : ∀ s i s', I s → exec s i = .ok s' → I s') {s : σ} (hs : I s)
    (is : List ι) : I (run exec s is) := by
  induction is generalizing s with
  | nil => exact hs
  | cons i is ih => exact ih (advance_induct hs fun s' h ↦ hstep s i s' hs h)

theorem reachable_invariant {init : σ → Prop} (hinit : ∀ s, init s → I s)
    (hstep : ∀ s i s', I s → exec s i = .ok s' → I s') {s : σ} (h : Reachable exec init s) :
    I s := by
  obtain ⟨s₀, is, h₀, rfl⟩ := h
  exact run_invariant hstep (hinit s₀ h₀) is

theorem Always.head {s : σ} {is : List ι} (h : Always exec I s is) : I s := by
  cases is with
  | nil => exact h
  | cons i is => exact h.1

theorem Always.last {s : σ} {is : List ι} (h : Always exec I s is) : I (run exec s is) := by
  induction is generalizing s with
  | nil => exact h
  | cons i is ih => exact ih h.2

theorem Always.eachStep {s : σ} {is : List ι} (h : Always exec I s is)
    (hP : ∀ s i s', I s → exec s i = .ok s' → P s i s') : EachStep exec P s is := by
  induction is generalizing s with
  | nil => trivial
  | cons i is ih => exact ⟨fun s' hs' ↦ hP s i s' h.1 hs', ih h.2⟩

theorem always_of_invariant (hstep : ∀ s i s', I s → exec s i = .ok s' → I s') {s : σ} (hs : I s)
    (is : List ι) : Always exec I s is := by
  induction is generalizing s with
  | nil => exact hs
  | cons i is ih => exact ⟨hs, ih (advance_induct hs fun s' h ↦ hstep s i s' hs h)⟩

/-- An invariant that is kept by the steps satisfying `P`. -/
theorem EachStep.always {s : σ} {is : List ι} (h : EachStep exec P s is)
    (hstep : ∀ s i s', I s → P s i s' → exec s i = .ok s' → I s') (hs : I s) :
    Always exec I s is := by
  induction is generalizing s with
  | nil => exact hs
  | cons i is ih =>
    exact ⟨hs, ih h.2 (advance_induct hs fun s' hs' ↦ hstep s i s' hs (h.1 s' hs') hs')⟩

-- a property of the inputs alone
theorem eachStep_of_forall_mem {R : ι → Prop} {is : List ι} (h : ∀ i ∈ is, R i) (s : σ) :
    EachStep exec (fun _ i _ ↦ R i) s is := by
  induction is generalizing s with
  | nil => trivial
  | cons i is ih =>
    exact ⟨fun _ _ ↦ h i List.mem_cons_self, ih (fun j hj ↦ h j (List.mem_cons_of_mem i hj)) _⟩

/-- Two step properties that agree under an invariant agree along every run from it. -/
theorem eachStep_congr (hI : ∀ s i s', I s → exec s i = .ok s' → I s')
    (hPQ : ∀ s i s', I s → exec s i = .ok s' → (P s i s' ↔ Q s i s')) {s : σ} (hs : I s)
    (is : List ι) : EachStep exec P s is ↔ EachStep exec Q s is := by
  induction is generalizing s with
  | nil => exact Iff.rfl
  | cons i is ih =>
    have htail := ih (advance_induct hs fun s' h ↦ hI s i s' hs h)
    have hhead : (∀ s', exec s i = .ok s' → P s i s') ↔ ∀ s', exec s i = .ok s' → Q s i s' :=
      forall₂_congr fun s' h ↦ hPQ s i s' hs h
    exact and_congr hhead htail

/-- Where a step keeps `J` exactly when it satisfies `P`, a run stays in `J` exactly when all its
steps satisfy `P`.  The states of the run may be assumed to satisfy `I`. -/
theorem Always.iff_eachStep {s : σ} {is : List ι} (hI : Always exec I s is)
    (hJ : ∀ s i s', I s → I s' → J s → exec s i = .ok s' → (J s' ↔ P s i s')) (hj : J s) :
    Always exec J s is ↔ EachStep exec P s is := by
  induction is generalizing s with
  | nil => exact iff_of_true hj trivial
  | cons i is ih =>
    cases h : exec s i with
    | error e =>
      have hadv : advance exec s i = s := advance_of_error h
      simp only [Always, EachStep, hadv, h, reduceCtorEq, false_imp_iff, implies_true, true_and,
        hj] at hI ⊢
      exact ih hI.2 hj
    | ok s' =>
      have hadv : advance exec s i = s' := advance_of_ok h
      simp only [Always, EachStep, hadv, h, Except.ok.injEq, forall_eq', hj, true_and] at hI ⊢
      have hstep := hJ s i s' hI.1 hI.2.head hj h
      apply Iff.intro
      · intro ha
        exact ⟨hstep.mp ha.head, (ih hI.2 ha.head).mp ha⟩
      · intro hp
        exact (ih hI.2 (hstep.mpr hp.1)).mpr hp.2

theorem always_iff_eachStep (hJ : ∀ s i s', J s → exec s i = .ok s' → (J s' ↔ P s i s')) {s : σ}
    (hj : J s) (is : List ι) : Always exec J s is ↔ EachStep exec P s is := by
  have htrue : Always exec (fun _ ↦ True) s is :=
    always_of_invariant (fun _ _ _ _ _ ↦ trivial) trivial is
  exact htrue.iff_eachStep (fun s i s' _ _ hs h ↦ hJ s i s' hs h) hj

/-- What each step preserves backwards holds all along a run that ends in it. -/
theorem always_of_last (hback : ∀ s i s', exec s i = .ok s' → I s' → I s) {s : σ} {is : List ι}
    (h : I (run exec s is)) : Always exec I s is := by
  induction is generalizing s with
  | nil => exact h
  | cons i is ih =>
    have htail := ih h
    refine ⟨?_, htail⟩
    cases hi : exec s i with
    | error e => exact advance_of_error hi ▸ htail.head
    | ok s' => exact hback s i s' hi (advance_of_ok hi ▸ htail.head)

theorem Always.mono {s : σ} {is : List ι} (h : Always exec I s is) (hIJ : ∀ s, I s → J s) :
    Always exec J s is := by
  induction is generalizing s with
  | nil => exact hIJ s h
  | cons i is ih => exact ⟨hIJ s h.1, ih h.2⟩

theorem Always.and {s : σ} {is : List ι} (hI : Always exec I s is) (hJ : Always exec J s is) :
    Always exec (fun s ↦ I s ∧ J s) s is := by
  induction is generalizing s with
  | nil => exact ⟨hI, hJ⟩
  | cons i is ih => exact ⟨⟨hI.1, hJ.1⟩, ih hI.2 hJ.2⟩

theorem eachStep_append {s : σ} {is js : List ι} :
    EachStep exec P s (is ++ js) ↔ EachStep exec P s is ∧ EachStep exec P (run exec s is) js := by
  induction is generalizing s with
  | nil => exact (and_iff_right trivial).symm
  | cons i is ih =>
    rw [List.cons_append, EachStep, ih, EachStep, run, and_assoc]

theorem EachStep.mono {s : σ} {is : List ι} (h : EachStep exec P s is)
    (hPQ : ∀ s i s', exec s i = .ok s' → P s i s' → Q s i s') : EachStep exec Q s is := by
  induction is generalizing s with
  | nil => trivial
  | cons i is ih => exact ⟨fun s' hs' ↦ hPQ s i s' hs' (h.1 s' hs'), ih h.2⟩

theorem EachStep.and {s : σ} {is : List ι} (hp : EachStep exec P s is)
    (hq : EachStep exec Q s is) : EachStep exec (fun s i s' ↦ P s i s' ∧ Q s i s') s is := by
  induction is generalizing s with
  | nil => trivial
  | cons i is ih => exact ⟨fun s' h ↦ ⟨hp.1 s' h, hq.1 s' h⟩, ih hp.2 hq.2⟩

end Invariant

/-! ## Adding up along a run -/

section Tally

variable {I : σ → Prop} {x y : σ → ℕ} {f g : σ → ι → ℕ}

/-- What the successful steps of a run add up to. -/
def tally (exec : σ → ι → Except ε σ) (f : σ → ι → ℕ) (s : σ) : List ι → ℕ
  | [] => 0
  | i :: is => (if (exec s i).isOk then f s i else 0) + tally exec f (advance exec s i) is

theorem tally_cons_of_ok {s s' : σ} {i : ι} (h : exec s i = .ok s') (is : List ι) :
    tally exec f s (i :: is) = f s i + tally exec f s' is := by
  have hok : (Except.ok s' : Except ε σ).isOk = true := rfl
  rw [tally, advance_of_ok h, h, if_pos hok]

theorem tally_cons_of_error {s : σ} {i : ι} {e : ε} (h : exec s i = .error e) (is : List ι) :
    tally exec f s (i :: is) = tally exec f s is := by
  have hfail : ¬ (Except.error e : Except ε σ).isOk = true := nofun
  rw [tally, advance_of_error h, h, if_neg hfail, Nat.zero_add]

/-- Where each step adds `f` to `x`, a whole run adds the sum of them. -/
theorem EachStep.tally_eq {s : σ} {is : List ι}
    (h : EachStep exec (fun s i s' ↦ x s' = x s + f s i) s is) :
    x (run exec s is) = x s + tally exec f s is := by
  induction is generalizing s with
  | nil => rfl
  | cons i is ih =>
    have htail := ih h.2
    rw [run]
    cases hi : exec s i with
    | error e =>
      rw [advance_of_error hi] at htail ⊢
      rw [tally_cons_of_error hi, htail]
    | ok s' =>
      have hone := h.1 s' hi
      rw [advance_of_ok hi] at htail ⊢
      rw [tally_cons_of_ok hi, htail, hone, Nat.add_assoc]

/-- Where each step adds `f` to `x` and takes `g` from it, a run adds the one sum and takes the
other. -/
theorem EachStep.tally_add {s : σ} {is : List ι}
    (h : EachStep exec (fun s i s' ↦ x s' + g s i = x s + f s i) s is) :
    x (run exec s is) + tally exec g s is = x s + tally exec f s is := by
  induction is generalizing s with
  | nil => rfl
  | cons i is ih =>
    have htail := ih h.2
    rw [run]
    cases hi : exec s i with
    | error e =>
      rw [advance_of_error hi] at htail ⊢
      rw [tally_cons_of_error hi, tally_cons_of_error hi, htail]
    | ok s' =>
      have hone := h.1 s' hi
      rw [advance_of_ok hi] at htail ⊢
      rw [tally_cons_of_ok hi, tally_cons_of_ok hi]
      omega

/-- The same where each step may add less, or take more. -/
theorem EachStep.tally_add_le {s : σ} {is : List ι}
    (h : EachStep exec (fun s i s' ↦ x s' + g s i ≤ x s + f s i) s is) :
    x (run exec s is) + tally exec g s is ≤ x s + tally exec f s is := by
  induction is generalizing s with
  | nil => exact le_rfl
  | cons i is ih =>
    have htail := ih h.2
    rw [run]
    cases hi : exec s i with
    | error e =>
      rw [advance_of_error hi] at htail ⊢
      rw [tally_cons_of_error hi, tally_cons_of_error hi]
      exact htail
    | ok s' =>
      have hone := h.1 s' hi
      rw [advance_of_ok hi] at htail ⊢
      rw [tally_cons_of_ok hi, tally_cons_of_ok hi]
      omega

/-- Where no step adds more than `f` to `x`, no run adds more than the sum of them. -/
theorem EachStep.le_tally {s : σ} {is : List ι}
    (h : EachStep exec (fun s i s' ↦ x s' ≤ x s + f s i) s is) :
    x (run exec s is) ≤ x s + tally exec f s is := by
  induction is generalizing s with
  | nil => exact le_rfl
  | cons i is ih =>
    have htail := ih h.2
    rw [run]
    cases hi : exec s i with
    | error e =>
      rw [advance_of_error hi] at htail ⊢
      rw [tally_cons_of_error hi]
      exact htail
    | ok s' =>
      have hone := h.1 s' hi
      rw [advance_of_ok hi] at htail ⊢
      rw [tally_cons_of_ok hi]
      omega

/-- Where each step adds at least `f` to `x`, a whole run adds at least the sum of them. -/
theorem EachStep.tally_le {s : σ} {is : List ι}
    (h : EachStep exec (fun s i s' ↦ x s + f s i ≤ x s') s is) :
    x s + tally exec f s is ≤ x (run exec s is) := by
  induction is generalizing s with
  | nil => exact le_rfl
  | cons i is ih =>
    have htail := ih h.2
    rw [run]
    cases hi : exec s i with
    | error e =>
      rw [advance_of_error hi] at htail ⊢
      rw [tally_cons_of_error hi]
      exact htail
    | ok s' =>
      have hone := h.1 s' hi
      rw [advance_of_ok hi] at htail ⊢
      rw [tally_cons_of_ok hi]
      omega

/-- Where each step moves `x` and `y` apart by at most the difference of `f` and `g`, a whole run
does so by at most the difference of their sums. -/
theorem Always.tally_le {s : σ} {is : List ι} (hI : Always exec I s is)
    (hstep : ∀ s i s', I s → I s' → exec s i = .ok s' →
      x s' + g s i + y s ≤ y s' + f s i + x s) :
    x (run exec s is) + tally exec g s is + y s ≤
      y (run exec s is) + tally exec f s is + x s := by
  induction is generalizing s with
  | nil =>
    show x s + 0 + y s ≤ y s + 0 + x s
    omega
  | cons i is ih =>
    have htail := ih hI.2
    rw [run]
    cases h : exec s i with
    | error e =>
      rw [advance_of_error h] at htail ⊢
      rw [tally_cons_of_error h, tally_cons_of_error h]
      exact htail
    | ok s' =>
      have hadv : advance exec s i = s' := advance_of_ok h
      have hone := hstep s i s' hI.1 (hadv ▸ hI.2.head) h
      rw [hadv] at htail ⊢
      rw [tally_cons_of_ok h, tally_cons_of_ok h]
      omega

/-- Where each step moves `x` and `y` together but for `f`, a whole run does so but for the sum. -/
theorem Always.tally_eq {s : σ} {is : List ι} (hI : Always exec I s is)
    (hstep : ∀ s i s', I s → I s' → exec s i = .ok s' → x s' + f s i + y s = y s' + x s) :
    x (run exec s is) + tally exec f s is + y s = y (run exec s is) + x s := by
  induction is generalizing s with
  | nil => exact Nat.add_comm _ _
  | cons i is ih =>
    have htail := ih hI.2
    rw [run]
    cases h : exec s i with
    | error e =>
      rw [advance_of_error h] at htail ⊢
      rw [tally_cons_of_error h]
      exact htail
    | ok s' =>
      have hadv : advance exec s i = s' := advance_of_ok h
      have hone := hstep s i s' hI.1 (hadv ▸ hI.2.head) h
      rw [hadv] at htail ⊢
      rw [tally_cons_of_ok h]
      omega

/-- Steps that add nothing add up to nothing. -/
theorem EachStep.tally_eq_zero {s : σ} {is : List ι}
    (h : EachStep exec (fun s i _ ↦ f s i = 0) s is) : tally exec f s is = 0 := by
  induction is generalizing s with
  | nil => rfl
  | cons i is ih =>
    have htail := ih h.2
    cases hi : exec s i with
    | error e =>
      rw [advance_of_error hi] at htail
      rw [tally_cons_of_error hi, htail]
    | ok s' =>
      have hone := h.1 s' hi
      rw [advance_of_ok hi] at htail
      rw [tally_cons_of_ok hi, htail, hone]

theorem tally_append (s : σ) (is js : List ι) :
    tally exec f s (is ++ js) = tally exec f s is + tally exec f (run exec s is) js := by
  induction is generalizing s with
  | nil => exact (Nat.zero_add _).symm
  | cons i is ih =>
    show _ + tally exec f (advance exec s i) (is ++ js) = _ + tally exec f (advance exec s i) is + _
    rw [ih, Nat.add_assoc]
    rfl

/-- An invariant that the count of what the steps add is part of.  The inputs of the run are in
`J`. -/
theorem run_tally_invariant {K : ℕ → σ → Prop} {J : ι → Prop}
    (hstep : ∀ n s i s', K n s → J i → exec s i = .ok s' → K (n + f s i) s') {n : ℕ} {s : σ}
    (hs : K n s) {is : List ι} (his : ∀ i ∈ is, J i) :
    K (n + tally exec f s is) (run exec s is) := by
  induction is generalizing n s with
  | nil => exact hs
  | cons i is ih =>
    have htail : ∀ j ∈ is, J j := fun j hj ↦ his j (List.mem_cons_of_mem i hj)
    rw [run]
    cases h : exec s i with
    | error e =>
      rw [advance_of_error h, tally_cons_of_error h]
      exact ih hs htail
    | ok s' =>
      rw [advance_of_ok h, tally_cons_of_ok h, ← Nat.add_assoc]
      exact ih (hstep n s i s' hs (his i List.mem_cons_self) h) htail

/-- Where each step adds to `f` and `g` in proportion, so does the run. -/
theorem EachStep.tally_mul_le {a b : ℕ} {s : σ} {is : List ι}
    (h : EachStep exec (fun s i _ ↦ f s i * a ≤ b * g s i) s is) :
    tally exec f s is * a ≤ b * tally exec g s is := by
  induction is generalizing s with
  | nil => exact Nat.zero_mul a ▸ Nat.zero_le _
  | cons i is ih =>
    have htail := ih h.2
    cases hi : exec s i with
    | error e =>
      rw [advance_of_error hi] at htail
      rw [tally_cons_of_error hi, tally_cons_of_error hi]
      exact htail
    | ok s' =>
      have hone := h.1 s' hi
      rw [advance_of_ok hi] at htail
      rw [tally_cons_of_ok hi, tally_cons_of_ok hi, Nat.add_mul, Nat.mul_add]
      exact Nat.add_le_add hone htail

end Tally

/-! ## A time stamp in the state -/

section Clock

variable {T : Type*} [Preorder T] {x : σ → T} {now : ι → T} {I : σ → Prop}

/-- A time stamp that is only ever set to the time of a step stays behind a clock that does not run
backwards. -/
theorem eachStep_of_sorted
    (hstep : ∀ s i s', I s → x s ≤ now i → exec s i = .ok s' → I s' ∧ x s' ≤ now i) {s : σ}
    (hs : I s) {is : List ι} (hsorted : is.Pairwise fun i j ↦ now i ≤ now j)
    (hfirst : ∀ i ∈ is, x s ≤ now i) : EachStep exec (fun s i _ ↦ I s ∧ x s ≤ now i) s is := by
  induction is generalizing s with
  | nil => trivial
  | cons i is ih =>
    obtain ⟨hnext, hrest⟩ := List.pairwise_cons.mp hsorted
    have hi := hfirst i List.mem_cons_self
    refine ⟨fun _ _ ↦ ⟨hs, hi⟩, ?_⟩
    cases h : exec s i with
    | error e =>
      rw [advance_of_error h]
      exact ih hs hrest fun j hj ↦ hfirst j (List.mem_cons_of_mem i hj)
    | ok s' =>
      obtain ⟨hs', hx⟩ := hstep s i s' hs hi h
      rw [advance_of_ok h]
      exact ih hs' hrest fun j hj ↦ hx.trans (hnext j hj)

end Clock

/-! ## The last of what a run sets -/

section Latest

variable {β : Type*} {x : σ → β} {f : ι → Option β}

/-- What the last successful step that sets something sets. -/
def latest (exec : σ → ι → Except ε σ) (f : ι → Option β) (s : σ) : List ι → Option β
  | [] => none
  | i :: is =>
    (latest exec f (advance exec s i) is).or (if (exec s i).isOk then f i else none)

/-- What each step sets to `f`, or leaves alone, has the value it was last set to. -/
theorem EachStep.eq_latest {s : σ} {is : List ι}
    (h : EachStep exec (fun s i s' ↦ x s' = (f i).getD (x s)) s is) :
    x (run exec s is) = (latest exec f s is).getD (x s) := by
  induction is generalizing s with
  | nil => rfl
  | cons i is ih =>
    have htail := ih h.2
    rw [run, htail, latest]
    cases latest exec f (advance exec s i) is with
    | some b => rfl
    | none =>
      show x (advance exec s i) = (if (exec s i).isOk then f i else none).getD (x s)
      cases hi : exec s i with
      | error e => exact congrArg x (advance_of_error hi)
      | ok s' =>
        rw [advance_of_ok hi]
        exact h.1 s' hi

theorem latest_map {γ : Type*} (g : β → γ) (s : σ) (is : List ι) :
    latest exec (fun i ↦ (f i).map g) s is = (latest exec f s is).map g := by
  induction is generalizing s with
  | nil => rfl
  | cons i is ih =>
    rw [latest, latest, ih]
    cases latest exec f (advance exec s i) is with
    | some b => rfl
    | none => cases (exec s i).isOk <;> rfl

/-- What was set last was set by some step. -/
theorem exists_of_latest {s : σ} {is : List ι} {b : β} (h : latest exec f s is = some b) :
    ∃ is₁ i is₂, is = is₁ ++ i :: is₂ ∧ (exec (run exec s is₁) i).isOk = true ∧ f i = some b := by
  induction is generalizing s with
  | nil => cases h
  | cons i is ih =>
    rw [latest, Option.or_eq_some_iff] at h
    rcases h with hlater | ⟨-, hnow⟩
    · obtain ⟨is₁, j, is₂, rfl, hok, hj⟩ := ih hlater
      exact ⟨i :: is₁, j, is₂, rfl, hok, hj⟩
    · split at hnow
      · rename_i hok
        exact ⟨[], i, is, rfl, hok, hnow⟩
      · cases hnow

/-- The same of a value that a step may find missing. -/
theorem EachStep.eq_latest_or {y : σ → Option β} {s : σ} {is : List ι}
    (h : EachStep exec (fun s i s' ↦ y s' = (f i).or (y s)) s is) :
    y (run exec s is) = (latest exec f s is).or (y s) := by
  have hset : EachStep exec (fun s i s' ↦ y s' = ((f i).map some).getD (y s)) s is := by
    apply h.mono
    intro s i s' _ hs
    rw [hs]
    cases f i <;> rfl
  rw [hset.eq_latest, latest_map]
  cases latest exec f s is <;> rfl

end Latest

/-! ## Runs without a failure -/

theorem succeeds_append {s : σ} {is js : List ι} :
    Succeeds exec s (is ++ js) ↔ Succeeds exec s is ∧ Succeeds exec (run exec s is) js := by
  induction is generalizing s with
  | nil => exact (and_iff_right trivial).symm
  | cons i is ih =>
    rw [List.cons_append, Succeeds, ih, Succeeds, run, and_assoc]

/-- The same, with the part of the run before each step. -/
theorem succeeds_iff_split {s : σ} {is : List ι} :
    Succeeds exec s is ↔
      ∀ is₁ i is₂, is = is₁ ++ i :: is₂ → (exec (run exec s is₁) i).isOk = true := by
  apply Iff.intro
  · rintro h is₁ i is₂ rfl
    exact (succeeds_append.mp h).2.1
  · intro h
    induction is generalizing s with
    | nil => trivial
    | cons i is ih =>
      refine ⟨h [] i is rfl, ih fun is₁ j is₂ he ↦ ?_⟩
      exact h (i :: is₁) j is₂ (by rw [he]; rfl)

/-! ## Simulation -/

section Simulation

variable {τ : Type*} {κ : Type*} {δ : Type*} {exec' : τ → κ → Except δ τ} {I : σ → Prop}
  {J : ι → Prop} {abs : σ → τ} {f : ι → κ}

/-- On the inputs in `J`, from the states in `I`, one machine does what the other does on the
images: it fails where that fails, and goes where that goes. -/
structure Simulates (exec : σ → ι → Except ε σ) (exec' : τ → κ → Except δ τ) (I : σ → Prop)
    (J : ι → Prop) (abs : σ → τ) (f : ι → κ) : Prop where
  ok : ∀ s i s', I s → J i → exec s i = .ok s' → I s' ∧ exec' (abs s) (f i) = .ok (abs s')
  error : ∀ s i e, I s → J i → exec s i = .error e → ∃ e', exec' (abs s) (f i) = .error e'

theorem Simulates.advance (h : Simulates exec exec' I J abs f) {s : σ} {i : ι} (hs : I s)
    (hi : J i) :
    I (Run.advance exec s i) ∧ abs (Run.advance exec s i) = Run.advance exec' (abs s) (f i) := by
  cases he : exec s i with
  | ok s' =>
    obtain ⟨hs', habs⟩ := h.ok s i s' hs hi he
    rw [advance_of_ok he, advance_of_ok habs]
    exact ⟨hs', rfl⟩
  | error e =>
    obtain ⟨e', habs⟩ := h.error s i e hs hi he
    rw [advance_of_error he, advance_of_error habs]
    exact ⟨hs, rfl⟩

theorem Simulates.isOk (h : Simulates exec exec' I J abs f) {s : σ} {i : ι} (hs : I s)
    (hi : J i) : (exec s i).isOk = (exec' (abs s) (f i)).isOk := by
  cases he : exec s i with
  | ok s' =>
    rw [(h.ok s i s' hs hi he).2]
    rfl
  | error e =>
    obtain ⟨e', habs⟩ := h.error s i e hs hi he
    rw [habs]
    rfl

theorem Simulates.run (h : Simulates exec exec' I J abs f) {s : σ} {is : List ι} (hs : I s)
    (his : ∀ i ∈ is, J i) :
    I (run exec s is) ∧ abs (run exec s is) = Run.run exec' (abs s) (is.map f) := by
  induction is generalizing s with
  | nil => exact ⟨hs, rfl⟩
  | cons i is ih =>
    obtain ⟨hs', habs⟩ := h.advance hs (his i List.mem_cons_self)
    obtain ⟨hlast, hrun⟩ := ih hs' fun j hj ↦ his j (List.mem_cons_of_mem i hj)
    rw [habs] at hrun
    exact ⟨hlast, hrun⟩

theorem Simulates.succeeds_iff (h : Simulates exec exec' I J abs f) {s : σ} {is : List ι}
    (hs : I s) (his : ∀ i ∈ is, J i) :
    Succeeds exec s is ↔ Succeeds exec' (abs s) (is.map f) := by
  induction is generalizing s with
  | nil => exact Iff.rfl
  | cons i is ih =>
    have hi := his i List.mem_cons_self
    obtain ⟨hs', habs⟩ := h.advance hs hi
    have htail := ih hs' fun j hj ↦ his j (List.mem_cons_of_mem i hj)
    rw [habs] at htail
    rw [List.map_cons, Succeeds, Succeeds, h.isOk hs hi, htail]

end Simulation

/-! ## A part of the state -/

section Part

variable {τ : Type*} {κ : Type*} {δ : Type u} {exec' : τ → κ → Except δ τ} {part : σ → τ}
  {f : σ → ι → List κ}

/-- What the successful steps of a run hand down to a part of the state. -/
def trace (exec : σ → ι → Except ε σ) (f : σ → ι → List κ) (s : σ) : List ι → List κ
  | [] => []
  | i :: is => (if (exec s i).isOk then f s i else []) ++ trace exec f (advance exec s i) is

theorem trace_cons_of_ok {s s' : σ} {i : ι} (h : exec s i = .ok s') (is : List ι) :
    trace exec f s (i :: is) = f s i ++ trace exec f s' is := by
  rw [trace, h, advance_of_ok h]
  rfl

theorem trace_cons_of_error {s : σ} {i : ι} {e : ε} (h : exec s i = .error e) (is : List ι) :
    trace exec f s (i :: is) = trace exec f s is := by
  rw [trace, h, advance_of_error h]
  rfl

/-- A part that has a machine of its own makes a run of that machine. -/
theorem part_run (h : ∀ s i s', exec s i = .ok s' → run exec' (part s) (f s i) = part s') (s : σ)
    (is : List ι) : part (run exec s is) = run exec' (part s) (trace exec f s is) := by
  induction is generalizing s with
  | nil => rfl
  | cons i is ih =>
    cases hi : exec s i with
    | error e => rw [run, advance_of_error hi, ih, trace_cons_of_error hi]
    | ok s' => rw [run, advance_of_ok hi, ih, trace_cons_of_ok hi, run_append, h s i s' hi]

end Part

end Run
