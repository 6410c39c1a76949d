import CrossFluf.Base.Run
import Mathlib.Data.Set.Basic

/-!
# Steps that look at a part of the state

A state is made of cells.  A step is confined to the cells it locks, and of these it writes some.
Steps that write nothing the other locks can change places, so the outcome of a run depends on the
order of its inputs only where their locks conflict.
-/

namespace Run

open Outcome

universe u v

variable {σ : Type v} {ι : Type*} {ε : Type u} {κ γ : Type*}

/-- A step depends on the cells it locks and changes none but those it writes. -/
structure Confined (get : σ → κ → γ) (f : σ → Except ε σ) (locks writes : Set κ) : Prop where
  locked : writes ⊆ locks
  kept : ∀ s s', f s = .ok s' → ∀ k ∉ writes, get s' k = get s k
  agree : ∀ s t s', (∀ k ∈ locks, get s k = get t k) → f s = .ok s' →
    ∃ t', f t = .ok t' ∧ ∀ k ∈ locks, get t' k = get s' k

section Two

variable {get : σ → κ → γ} {f g : σ → Except ε σ} {R W R' W' : Set κ} {s t : σ}

/-- Neither writes what the other locks. -/
def Parallel (R W R' W' : Set κ) : Prop := (∀ k ∈ W, k ∉ R') ∧ ∀ k ∈ W', k ∉ R

theorem Parallel.symm (h : Parallel R W R' W') : Parallel R' W' R W := ⟨h.2, h.1⟩

theorem Confined.isOk_congr (h : Confined get f R W) (hst : ∀ k ∈ R, get s k = get t k) :
    (f s).isOk = (f t).isOk := by
  rw [Bool.eq_iff_iff, isOk_iff, isOk_iff]
  apply Iff.intro
  · intro hs
    obtain ⟨s', hs'⟩ := hs
    obtain ⟨t', ht', -⟩ := h.agree s t s' hst hs'
    exact ⟨t', ht'⟩
  · intro ht
    obtain ⟨t', ht'⟩ := ht
    obtain ⟨s', hs', -⟩ := h.agree t s t' (fun k hk ↦ (hst k hk).symm) ht'
    exact ⟨s', hs'⟩

/-- After a step that writes none of its cells a step finds them as they were. -/
theorem Confined.get_eq (h : Confined get f R W) (hd : ∀ k ∈ W, k ∉ R') {s' : σ}
    (hs : f s = .ok s') : ∀ k ∈ R', get s k = get s' k :=
  fun k hk ↦ (h.kept s s' hs k fun hw ↦ hd k hw hk).symm

theorem Confined.comm (hget : Function.Injective get) (hf : Confined get f R W)
    (hg : Confined get g R' W') (hd : Parallel R W R' W') {s₁ s₂ : σ} (h₁ : f s = .ok s₁)
    (h₂ : g s₁ = .ok s₂) : ∃ t, g s = .ok t ∧ f t = .ok s₂ := by
  obtain ⟨t, ht, hagree⟩ := hg.agree s₁ s s₂ (fun k hk ↦ (hf.get_eq hd.1 h₁ k hk).symm) h₂
  obtain ⟨u, hu, hagree'⟩ := hf.agree s t s₁ (hg.get_eq hd.2 ht) h₁
  refine ⟨t, ht, hu.trans (congrArg _ (hget (funext fun k ↦ ?_)))⟩
  -- a cell was written by the one step, by the other, or by none
  by_cases hW : k ∈ W
  · have hW' : k ∉ W' := fun hk ↦ hd.1 k hW (hg.locked hk)
    rw [hagree' k (hf.locked hW), hg.kept s₁ s₂ h₂ k hW']
  · rw [hf.kept t u hu k hW]
    by_cases hW' : k ∈ W'
    · exact hagree k (hg.locked hW')
    · rw [hg.kept s t ht k hW', hg.kept s₁ s₂ h₂ k hW', hf.kept s s₁ h₁ k hW]

end Two

/-! ## A machine of such steps -/

/-- Every step is confined, and the cells make up the whole state. -/
structure ConfinedMachine (exec : σ → ι → Except ε σ) (get : σ → κ → γ)
    (locks writes : ι → Set κ) : Prop where
  injective : Function.Injective get
  confined : ∀ i, Confined get (fun s ↦ exec s i) (locks i) (writes i)

section Machine

variable {exec : σ → ι → Except ε σ} {get : σ → κ → γ} {locks writes : ι → Set κ}
  (hm : ConfinedMachine exec get locks writes) {i j : ι} {is js : List ι}
include hm

theorem ConfinedMachine.get_advance
    (hd : Parallel (locks i) (writes i) (locks j) (writes j)) (s : σ) :
    ∀ k ∈ locks j, get s k = get (advance exec s i) k :=
  advance_induct (I := fun t ↦ ∀ k ∈ locks j, get s k = get t k) (fun _ _ ↦ rfl)
    fun _ h ↦ (hm.confined i).get_eq hd.1 h

theorem ConfinedMachine.isOk_advance
    (hd : Parallel (locks i) (writes i) (locks j) (writes j)) (s : σ) :
    (exec (advance exec s i) j).isOk = (exec s j).isOk :=
  ((hm.confined j).isOk_congr (hm.get_advance hd s)).symm

theorem ConfinedMachine.advance_comm
    (hd : Parallel (locks i) (writes i) (locks j) (writes j)) (s : σ) :
    advance exec (advance exec s i) j = advance exec (advance exec s j) i := by
  have hi := hm.isOk_advance hd.symm s
  have hj := hm.isOk_advance hd s
  by_cases hoki : (exec s i).isOk = true
  · by_cases hokj : (exec s j).isOk = true
    · obtain ⟨t, ht, hu⟩ := (hm.confined i).comm hm.injective (hm.confined j) hd
        (eq_ok_advance hoki) (eq_ok_advance (hj.trans hokj))
      have hadv : advance exec s j = t := advance_of_ok ht
      rw [hadv]
      exact (advance_of_ok hu).symm
    · rw [advance_of_not_isOk hokj, advance_of_not_isOk fun h ↦ hokj (hj.symm.trans h)]
  · rw [advance_of_not_isOk hoki, advance_of_not_isOk fun h ↦ hoki (hi.symm.trans h)]

/-- An input moves past others that are parallel to it. -/
theorem ConfinedMachine.advance_run
    (hd : ∀ j ∈ js, Parallel (locks i) (writes i) (locks j) (writes j)) (s : σ) :
    run exec (advance exec s i) js = advance exec (run exec s js) i := by
  induction js generalizing s with
  | nil => rfl
  | cons j js ih =>
    rw [run, run, hm.advance_comm (hd j List.mem_cons_self)]
    exact ih (fun j' hj' ↦ hd j' (List.mem_cons_of_mem j hj')) _

theorem ConfinedMachine.isOk_run
    (hd : ∀ j ∈ js, Parallel (locks j) (writes j) (locks i) (writes i)) (s : σ) :
    (exec (run exec s js) i).isOk = (exec s i).isOk := by
  induction js generalizing s with
  | nil => rfl
  | cons j js ih =>
    rw [run, ih (fun j' hj' ↦ hd j' (List.mem_cons_of_mem j hj')),
      hm.isOk_advance (hd j List.mem_cons_self)]

end Machine

/-! ## Groups of inputs -/

section Groups

variable {exec : σ → ι → Except ε σ} {get : σ → κ → γ} {locks writes : ι → Set κ} {ρ : Type*}
  {g : ι → ρ} {is js : List ι}

/-- Inputs of different groups are parallel. -/
def GroupsApart (locks writes : ι → Set κ) (g : ι → ρ) (is : List ι) : Prop :=
  ∀ i ∈ is, ∀ j ∈ is, g i ≠ g j → Parallel (locks i) (writes i) (locks j) (writes j)

theorem GroupsApart.tail {i : ι} (h : GroupsApart locks writes g (i :: is)) :
    GroupsApart locks writes g is :=
  fun j hj k hk ↦ h j (List.mem_cons_of_mem i hj) k (List.mem_cons_of_mem i hk)

variable [DecidableEq ρ] {x y : ρ} {i : ι}

def members (g : ι → ρ) (x : ρ) (is : List ι) : List ι := is.filter fun i ↦ g i = x

theorem mem_members : i ∈ members g x is ↔ i ∈ is ∧ g i = x := by
  rw [members, List.mem_filter, decide_eq_true_eq]

theorem members_cons_of_eq (h : g i = x) (is : List ι) :
    members g x (i :: is) = i :: members g x is :=
  List.filter_cons_of_pos (p := fun i ↦ decide (g i = x)) (decide_eq_true h)

theorem members_cons_of_ne (h : g i ≠ x) (is : List ι) : members g x (i :: is) = members g x is :=
  List.filter_cons_of_neg (p := fun i ↦ decide (g i = x)) fun he ↦ h (of_decide_eq_true he)

theorem members_append (x : ρ) (is js : List ι) :
    members g x (is ++ js) = members g x is ++ members g x js := List.filter_append is js

theorem members_eq_nil (h : ∀ i ∈ is, g i ≠ x) : members g x is = [] :=
  List.filter_eq_nil_iff.mpr fun i hi he ↦ h i hi (of_decide_eq_true he)

theorem members_eq_self (h : ∀ i ∈ is, g i = x) : members g x is = is :=
  List.filter_eq_self.mpr fun i hi ↦ decide_eq_true (h i hi)

/-- The same inputs, in the same order within each group. -/
def SameGroups (g : ι → ρ) (is js : List ι) : Prop := ∀ x, members g x js = members g x is

theorem SameGroups.mem (h : SameGroups g is js) (hi : i ∈ js) : i ∈ is := by
  have hmem : i ∈ members g (g i) js := mem_members.mpr ⟨hi, rfl⟩
  rw [h] at hmem
  exact (mem_members.mp hmem).1

/-- One group may go before the others. -/
theorem sameGroups_partition (g : ι → ρ) (is : List ι) (y : ρ) :
    SameGroups g is (members g y is ++ is.filter fun i ↦ g i ≠ y) := by
  intro x
  rw [members_append]
  by_cases hx : x = y
  · subst hx
    have hrest : members g x (is.filter fun i ↦ g i ≠ x) = [] :=
      members_eq_nil fun i hi ↦ of_decide_eq_true (List.mem_filter.mp hi).2
    rw [members_eq_self fun i hi ↦ (mem_members.mp hi).2, hrest, List.append_nil]
  · rw [members_eq_nil fun i hi he ↦ hx (he.symm.trans (mem_members.mp hi).2), List.nil_append,
      members, members, List.filter_filter]
    refine List.filter_congr fun i _ ↦ ?_
    by_cases hi : g i = x
    · simp [hi, hx]
    · simp [hi]

/-- Without the first input, and without it at its place in the other list. -/
theorem SameGroups.erase {js₁ js₂ : List ι} (h : SameGroups g (i :: is) (js₁ ++ i :: js₂))
    (hother : ∀ j ∈ js₁, g j ≠ g i) : SameGroups g is (js₁ ++ js₂) := by
  intro x
  have hall := h x
  rw [members_append] at hall ⊢
  by_cases hx : g i = x
  · have hnone : members g x js₁ = [] := members_eq_nil fun j hj ↦ hx ▸ hother j hj
    rw [hnone, List.nil_append, members_cons_of_eq hx, members_cons_of_eq hx] at hall
    rw [hnone, List.nil_append]
    exact (List.cons.inj hall).2
  · rwa [members_cons_of_ne hx, members_cons_of_ne hx] at hall

/-- Runs that keep the order within each group end alike. -/
theorem ConfinedMachine.run_groups (hm : ConfinedMachine exec get locks writes)
    (ha : GroupsApart locks writes g is) (h : SameGroups g is js) (s : σ) :
    run exec s js = run exec s is := by
  induction is generalizing js s with
  | nil =>
    cases js with
    | nil => rfl
    | cons j js => exact absurd (h.mem List.mem_cons_self) List.not_mem_nil
  | cons i is ih =>
    have hhead : members g (g i) js = i :: members g (g i) is := by
      rw [h, members_cons_of_eq rfl]
    obtain ⟨js₁, js₂, rfl, hbefore, -, -⟩ := List.filter_eq_cons_iff.mp hhead
    -- before the first of its group stand only inputs of other groups
    have hother : ∀ j ∈ js₁, g j ≠ g i := fun j hj he ↦ hbefore j hj (decide_eq_true he)
    have hpast : ∀ j ∈ js₁, Parallel (locks i) (writes i) (locks j) (writes j) := fun j hj ↦
      ha i List.mem_cons_self j (h.mem (List.mem_append_left _ hj)) (hother j hj).symm
    calc
      run exec s (js₁ ++ i :: js₂) = run exec (advance exec (run exec s js₁) i) js₂ :=
        run_append s js₁ (i :: js₂)
      _ = run exec (advance exec s i) (js₁ ++ js₂) := by
        rw [← hm.advance_run hpast, run_append]
      _ = run exec s (i :: is) := ih ha.tail (h.erase hother) _

/-- An input fares as it would after the inputs of its own group alone. -/
theorem ConfinedMachine.isOk_groups (hm : ConfinedMachine exec get locks writes)
    (ha : GroupsApart locks writes g (i :: is)) (s : σ) :
    (exec (run exec s is) i).isOk = (exec (run exec s (members g (g i) is)) i).isOk := by
  rw [← hm.run_groups ha.tail (sameGroups_partition g is (g i)), run_append]
  refine hm.isOk_run (fun j hj ↦ ?_) _
  obtain ⟨hmem, hne⟩ := List.mem_filter.mp hj
  exact ha j (List.mem_cons_of_mem i hmem) i List.mem_cons_self (of_decide_eq_true hne)

end Groups

end Run
