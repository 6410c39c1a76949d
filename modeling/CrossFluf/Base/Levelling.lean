import CrossFluf.Base.FiniteSum
import CrossFluf.Base.Run

/-!
# Levelling a fund from a snapshot

A fund is a pot and the shares it is handed out to.  A levelling pass reads the fund once, and
from that snapshot alone it takes from every place above the average what is above it, and gives
every place below it what it lacks, as far as the pot of the snapshot goes.  The transfers are
made one after another, each is refused or not against the fund as it is by then, and a refused
one changes nothing.
-/

namespace Levelling

open Run FiniteSum

/-- `given` counts all that a place was ever given. -/
@[ext]
structure Fund (κ : Type*) where
  pot : ℕ
  share : κ → ℕ
  given : κ → ℕ

inductive Transfer (κ : Type*)
  | give (k : κ) (n : ℕ)
  | take (k : κ) (n : ℕ)

def Transfer.place {κ : Type*} : Transfer κ → κ
  | give k _ => k
  | take k _ => k

/-! ## The transfers of a pass -/

variable {κ : Type*} {M t : ℕ} {f f' g : Fund κ} {m : Transfer κ} {S : Finset κ} {k : κ}
  {ks : List κ}

/-- The pot and the shares of `S` together. -/
def Fund.value (S : Finset κ) (f : Fund κ) : ℕ := f.pot + ∑ k ∈ S, f.share k

theorem Fund.pot_add_share_le (hk : k ∈ S) (f : Fund κ) : f.pot + f.share k ≤ f.value S :=
  Nat.add_le_add_left (Finset.single_le_sum (fun _ _ ↦ Nat.zero_le _) hk) _

/-- What `k` lacks to `t`, as far as the pot goes. -/
def Fund.lacks (t : ℕ) (f : Fund κ) (k : κ) : ℕ := min (t - f.share k) f.pot

/-- What `k` has above `t`. -/
def Fund.exceeds (t : ℕ) (f : Fund κ) (k : κ) : ℕ := f.share k - t

/-- A place has at most one of the two. -/
theorem lacks_eq_zero_or (t : ℕ) (f : Fund κ) (k : κ) : f.lacks t k = 0 ∨ f.exceeds t k = 0 := by
  rw [Fund.lacks, Fund.exceeds]
  omega

/-- All that `k` will have been given once it is at `t`. -/
def Fund.demand (t : ℕ) (f : Fund κ) (k : κ) : ℕ := f.given k + (t - f.share k)

/-- The transfer that levels `k` to `t`, computed from the snapshot `f`. -/
def moveAt (t : ℕ) (f : Fund κ) (k : κ) : Option (Transfer κ) :=
  if 0 < f.lacks t k then some (.give k (f.lacks t k))
  else if 0 < f.exceeds t k then some (.take k (f.exceeds t k))
  else none

def moves (t : ℕ) (f : Fund κ) (ks : List κ) : List (Transfer κ) := ks.filterMap (moveAt t f)

theorem moves_cons (t : ℕ) (f : Fund κ) (k : κ) (ks : List κ) :
    moves t f (k :: ks) = (moveAt t f k).toList ++ moves t f ks := by
  rw [moves, List.filterMap_cons]
  cases moveAt t f k <;> rfl

theorem moveAt_eq_some (h : moveAt t f k = some m) :
    (m = .give k (f.lacks t k) ∧ 0 < f.lacks t k) ∨
      (m = .take k (f.exceeds t k) ∧ 0 < f.exceeds t k) := by
  unfold moveAt at h
  split at h
  · rename_i hpos
    exact Or.inl ⟨(Option.some_inj.mp h).symm, hpos⟩
  · split at h
    · rename_i hpos
      exact Or.inr ⟨(Option.some_inj.mp h).symm, hpos⟩
    · cases h

theorem moveAt_eq_none (h : moveAt t f k = none) : f.lacks t k = 0 ∧ f.exceeds t k = 0 := by
  unfold moveAt at h
  split at h
  · cases h
  · split at h
    · cases h
    · omega

theorem place_of_moveAt (h : moveAt t f k = some m) : m.place = k := by
  rcases moveAt_eq_some h with ⟨rfl, -⟩ | ⟨rfl, -⟩ <;> rfl

theorem place_mem_of_mem_moves (h : m ∈ moves t f ks) : m.place ∈ ks := by
  obtain ⟨k, hk, hm⟩ := List.mem_filterMap.mp h
  rw [place_of_moveAt hm]
  exact hk

theorem ne_of_mem_moves (hk : k ∉ ks) : ∀ m ∈ moves t f ks, m.place ≠ k :=
  fun _ hm he ↦ hk (he ▸ place_mem_of_mem_moves hm)

/-- Along the places in their order, a pot that starts with `p` has what the snapshot lacks there
out of what it exceeds there, and stays below `M`. -/
def Covers (M t : ℕ) (f : Fund κ) (p : ℕ) (ks : List κ) : Prop :=
  ∀ l, l <+: ks → (l.map (f.lacks t)).sum ≤ p + (l.map (f.exceeds t)).sum ∧
    p + (l.map (f.exceeds t)).sum < M + (l.map (f.lacks t)).sum

theorem covers_cons {p : ℕ} (hp : p < M) :
    Covers M t f p (k :: ks) ↔ (f.lacks t k ≤ p + f.exceeds t k ∧
      p + f.exceeds t k < M + f.lacks t k) ∧
        Covers M t f (p + f.exceeds t k - f.lacks t k) ks := by
  apply Iff.intro
  · intro h
    have hone := h [k] (List.prefix_cons_inj k |>.mpr List.nil_prefix)
    simp only [List.map_cons, List.map_nil, List.sum_cons, List.sum_nil, Nat.add_zero] at hone
    refine ⟨hone, fun l hl ↦ ?_⟩
    have hcons := h (k :: l) ((List.prefix_cons_inj k).mpr hl)
    simp only [List.map_cons, List.sum_cons] at hcons
    omega
  · intro hcovers l hl
    obtain ⟨hone, h⟩ := hcovers
    rcases List.prefix_cons_iff.mp hl with rfl | ⟨l, rfl, htl⟩
    · simpa using hp
    · have htail := h l htl
      simp only [List.map_cons, List.sum_cons]
      omega

/-! ## When a pass is made -/

/-- The average of the shares if the whole pot were handed out, rounded down. -/
def Fund.target (S : Finset κ) (f : Fund κ) : ℕ := f.value S / S.card

/-- Some place is further from the average than `c / d` of the value. -/
def Fund.Uneven (c d : ℕ) (S : Finset κ) (f : Fund κ) : Prop :=
  ∃ k ∈ S, f.value S * c < ((f.target S : ℤ) - f.share k).natAbs * d

instance (c d : ℕ) (S : Finset κ) (f : Fund κ) : Decidable (f.Uneven c d S) :=
  inferInstanceAs (Decidable (∃ k ∈ S, _))

/-- The transfers of a pass over `ks`, none where the fund is even enough. -/
def pass (c d : ℕ) (S : Finset κ) (f : Fund κ) (ks : List κ) : List (Transfer κ) :=
  if f.Uneven c d S then moves (f.target S) f ks else []

theorem pass_of_uneven {c d : ℕ} (h : f.Uneven c d S) (ks : List κ) :
    pass c d S f ks = moves (f.target S) f ks := if_pos h

theorem pass_of_even {c d : ℕ} (h : ¬ f.Uneven c d S) (ks : List κ) : pass c d S f ks = [] :=
  if_neg h

theorem target_le_value (S : Finset κ) (f : Fund κ) : f.target S ≤ f.value S := Nat.div_le_self _ _

theorem target_congr (h : f'.value S = f.value S) : f'.target S = f.target S :=
  congrArg (· / S.card) h

/-- With no place above the average, the pot has all that is lacking. -/
theorem sum_lacking_le (h : ∀ k ∈ S, f.share k ≤ f.target S) :
    ∑ k ∈ S, (f.target S - f.share k) ≤ f.pot := by
  have hsum : ∑ k ∈ S, (f.target S - f.share k) + ∑ k ∈ S, f.share k = f.target S * S.card := by
    rw [← Finset.sum_add_distrib, Finset.sum_congr rfl fun k hk ↦ Nat.sub_add_cancel (h k hk),
      Finset.sum_const, smul_eq_mul, Nat.mul_comm]
  have hdiv : f.target S * S.card ≤ f.value S := Nat.div_mul_le_self _ _
  rw [Fund.value] at hdiv
  omega

theorem not_uneven_of_share_eq {c d : ℕ} (h : ∀ k ∈ S, f.share k = f.target S) :
    ¬ f.Uneven c d S := by
  intro huneven
  obtain ⟨k, hk, hlt⟩ := huneven
  rw [h k hk, Int.sub_self, Int.natAbs_zero, Nat.zero_mul] at hlt
  exact absurd hlt (Nat.not_lt_zero _)

/-- `ks` lists `S`, each place once. -/
structure Enumerates (ks : List κ) (S : Finset κ) : Prop where
  nodup : ks.Nodup
  mem : ∀ k, k ∈ ks ↔ k ∈ S

theorem place_mem_of_mem_pass {c d : ℕ} (hks : Enumerates ks S) (h : m ∈ pass c d S f ks) :
    m.place ∈ S := by
  unfold pass at h
  split at h
  · exact (hks.mem _).mp (place_mem_of_mem_moves h)
  · cases h

/-! ## Making a transfer -/

variable [DecidableEq κ]

namespace Transfer

/-- Nothing is moved that is not there, and every amount stays below `M`. -/
def Accepted (M : ℕ) (f : Fund κ) : Transfer κ → Prop
  | give k n => 0 < n ∧ n ≤ f.pot ∧ f.share k + n < M ∧ f.given k + n < M
  | take k n => 0 < n ∧ n ≤ f.share k ∧ f.pot + n < M

instance (M : ℕ) (f : Fund κ) : (m : Transfer κ) → Decidable (m.Accepted M f)
  | give _ _ => inferInstanceAs (Decidable (_ ∧ _))
  | take _ _ => inferInstanceAs (Decidable (_ ∧ _))

def apply (f : Fund κ) : Transfer κ → Fund κ
  | give k n => {
      pot := f.pot - n
      share := Function.update f.share k (f.share k + n)
      given := Function.update f.given k (f.given k + n) }
  | take k n => { f with
      pot := f.pot + n
      share := Function.update f.share k (f.share k - n) }

theorem apply_share_of_ne {m : Transfer κ} {k : κ} (h : k ≠ m.place) (f : Fund κ) :
    (m.apply f).share k = f.share k := by
  cases m <;> exact Function.update_of_ne h _ _

theorem apply_given_of_ne {m : Transfer κ} {k : κ} (h : k ≠ m.place) (f : Fund κ) :
    (m.apply f).given k = f.given k := by
  cases m with
  | give j n => exact Function.update_of_ne h _ _
  | take j n => rfl

end Transfer


def exec (M : ℕ) (f : Fund κ) (m : Transfer κ) : Except Unit (Fund κ) :=
  if m.Accepted M f then .ok (m.apply f) else .error ()

theorem exec_of_accepted (h : m.Accepted M f) : exec M f m = .ok (m.apply f) := if_pos h

theorem exec_of_not_accepted (h : ¬ m.Accepted M f) : exec M f m = .error () := if_neg h

theorem exec_eq_ok : exec M f m = .ok f' ↔ m.Accepted M f ∧ m.apply f = f' := by
  unfold exec
  split <;> simp_all

theorem isOk_exec : (exec M f m).isOk = true ↔ m.Accepted M f := by
  simp only [Outcome.isOk_iff, exec_eq_ok, exists_and_left, exists_eq', and_true]

theorem value_exec (hm : m.place ∈ S) (h : exec M f m = .ok f') : f'.value S = f.value S := by
  obtain ⟨hacc, rfl⟩ := exec_eq_ok.mp h
  cases m with
  | give k n =>
    have hsum := sum_update_add hm f.share (f.share k + n)
    obtain ⟨-, hpot, -⟩ := hacc
    simp only [Fund.value, Transfer.apply, Transfer.place] at hsum ⊢
    omega
  | take k n =>
    have hsum := sum_update_add hm f.share (f.share k - n)
    obtain ⟨-, hshare, -⟩ := hacc
    simp only [Fund.value, Transfer.apply, Transfer.place] at hsum ⊢
    omega

/-- Transfers within `S` keep the value of `S` at every point. -/
theorem always_value {ms : List (Transfer κ)} (hms : ∀ m ∈ ms, m.place ∈ S) (f : Fund κ) :
    Always (exec M) (fun g ↦ g.value S = f.value S) f ms := by
  have hin : EachStep (exec M) (fun _ m _ ↦ m.place ∈ S) f ms := eachStep_of_forall_mem hms f
  exact hin.always (fun g m g' hg hm h ↦ (value_exec hm h).trans hg) rfl

/-- What no transfer is about stays as it is. -/
theorem run_of_ne {ms : List (Transfer κ)} (hms : ∀ m ∈ ms, m.place ≠ k) (g : Fund κ) :
    (run (exec M) g ms).share k = g.share k ∧ (run (exec M) g ms).given k = g.given k := by
  have hne : EachStep (exec M) (fun _ m _ ↦ m.place ≠ k) g ms := eachStep_of_forall_mem hms g
  have hkept := hne.always (I := fun g' ↦ g'.share k = g.share k ∧ g'.given k = g.given k)
    (fun g₁ m g₂ hg hm h ↦ ?_) ⟨rfl, rfl⟩
  · exact hkept.last
  · obtain ⟨-, rfl⟩ := exec_eq_ok.mp h
    rw [Transfer.apply_share_of_ne hm.symm, Transfer.apply_given_of_ne hm.symm]
    exact hg

/-! ## One place -/

/-- The fund after the transfer that levels `k`, if there is one. -/
def levelAt (M t : ℕ) (f g : Fund κ) (k : κ) : Fund κ := run (exec M) g (moveAt t f k).toList

theorem levelAt_of_none (h : moveAt t f k = none) (g : Fund κ) : levelAt M t f g k = g := by
  rw [levelAt, h]
  rfl

theorem levelAt_of_some (h : moveAt t f k = some m) (g : Fund κ) :
    levelAt M t f g k = advance (exec M) g m := by
  rw [levelAt, h]
  rfl

theorem levelAt_of_ne {j : κ} (hj : j ≠ k) (g : Fund κ) :
    (levelAt M t f g k).share j = g.share j ∧ (levelAt M t f g k).given j = g.given j :=
  run_of_ne (fun _ hm ↦ place_of_moveAt (Option.mem_toList.mp hm) ▸ hj.symm) g

theorem value_levelAt (hk : k ∈ S) (g : Fund κ) : (levelAt M t f g k).value S = g.value S :=
  (always_value (fun _ hm ↦ place_of_moveAt (Option.mem_toList.mp hm) ▸ hk) g).last

theorem run_moves_cons (k : κ) (ks : List κ) (g : Fund κ) :
    run (exec M) g (moves t f (k :: ks)) = run (exec M) (levelAt M t f g k) (moves t f ks) := by
  rw [moves_cons, run_append, levelAt]

/-- Whether or not it is refused, the transfer leaves its place no higher than `t`, and no more in
demand than before. -/
theorem levelAt_le (hk : k ∈ S) (hv : g.value S < M) (hsame : g.share k = f.share k) :
    (levelAt M t f g k).share k ≤ t ∧ (levelAt M t f g k).demand t k ≤ g.demand t k := by
  cases h : moveAt t f k with
  | none =>
    obtain ⟨-, hexceeds⟩ := moveAt_eq_none h
    rw [Fund.exceeds, ← hsame] at hexceeds
    rw [levelAt_of_none h]
    exact ⟨Nat.sub_eq_zero_iff_le.mp hexceeds, le_rfl⟩
  | some m =>
    rw [levelAt_of_some h]
    rcases moveAt_eq_some h with ⟨rfl, hpos⟩ | ⟨rfl, hpos⟩
    · have hlacks : f.lacks t k ≤ t - g.share k := hsame ▸ min_le_left _ _
      cases he : exec M g (.give k (f.lacks t k)) with
      | ok g' =>
        obtain ⟨-, rfl⟩ := exec_eq_ok.mp he
        rw [advance_of_ok he]
        simp only [Fund.demand, Transfer.apply, Function.update_self]
        omega
      | error e =>
        rw [advance_of_error he]
        exact ⟨by omega, le_rfl⟩
    -- nothing refuses to take what is there
    · have hexceeds : f.exceeds t k = g.share k - t := by rw [Fund.exceeds, hsame]
      have hpot := g.pot_add_share_le hk
      have hacc : (Transfer.take k (f.exceeds t k)).Accepted M g := by
        refine ⟨hpos, ?_, ?_⟩ <;> omega
      rw [advance_of_ok (exec_of_accepted hacc)]
      simp only [Fund.demand, Transfer.apply, Function.update_self]
      omega

/-- Where the pot has what is lacking, the transfer levels its place. -/
theorem levelAt_eq (hsame : g.share k = f.share k) (hle : f.share k ≤ t)
    (hf : t - f.share k ≤ f.pot) (hg : t - f.share k ≤ g.pot) (ht : t < M)
    (hdemand : g.demand t k < M) :
    (levelAt M t f g k).share k = t ∧ (levelAt M t f g k).pot + (t - f.share k) = g.pot := by
  have hlacks : f.lacks t k = t - f.share k := min_eq_left hf
  rw [Fund.demand] at hdemand
  cases h : moveAt t f k with
  | none =>
    obtain ⟨hnone, -⟩ := moveAt_eq_none h
    rw [levelAt_of_none h]
    omega
  | some m =>
    rw [levelAt_of_some h]
    rcases moveAt_eq_some h with ⟨rfl, hpos⟩ | ⟨rfl, hpos⟩
    · have hacc : (Transfer.give k (f.lacks t k)).Accepted M g := by
        refine ⟨hpos, ?_, ?_, ?_⟩ <;> omega
      rw [advance_of_ok (exec_of_accepted hacc)]
      simp only [Transfer.apply, Function.update_self]
      omega
    · rw [Fund.exceeds] at hpos
      omega

/-! ## All places -/

/-- A pass leaves no place higher than `t`. -/
theorem run_moves_le (hnodup : ks.Nodup) (hks : ∀ k ∈ ks, k ∈ S) (hv : g.value S < M)
    (hsame : ∀ k ∈ ks, g.share k = f.share k) :
    ∀ k ∈ ks, (run (exec M) g (moves t f ks)).share k ≤ t ∧
      (run (exec M) g (moves t f ks)).demand t k ≤ g.demand t k := by
  induction ks generalizing g with
  | nil => exact fun k hk ↦ absurd hk List.not_mem_nil
  | cons j ks ih =>
    obtain ⟨hj, hnodup⟩ := List.nodup_cons.mp hnodup
    have hjS := hks j List.mem_cons_self
    intro k hk
    rw [run_moves_cons]
    rcases List.mem_cons.mp hk with rfl | hk
    -- the later transfers are about other places
    · have hkept := run_of_ne (M := M) (ne_of_mem_moves (t := t) (f := f) hj) (levelAt M t f g k)
      rw [Fund.demand, hkept.1, hkept.2]
      exact levelAt_le hjS hv (hsame k List.mem_cons_self)
    · have hne : ∀ k ∈ ks, k ≠ j := fun k hk he ↦ hj (he ▸ hk)
      have htail := ih (g := levelAt M t f g j) hnodup
        (fun k hk ↦ hks k (List.mem_cons_of_mem j hk))
        (by rwa [value_levelAt hjS])
        (fun k hk ↦ (levelAt_of_ne (hne k hk) g).1.trans (hsame k (List.mem_cons_of_mem j hk)))
        k hk
      have hdemand : (levelAt M t f g j).demand t k = g.demand t k := by
        rw [Fund.demand, (levelAt_of_ne (hne k hk) g).1, (levelAt_of_ne (hne k hk) g).2,
          Fund.demand]
      rwa [hdemand] at htail

/-- Where no place is higher than `t` and the pot has all that is lacking, a pass levels every
place. -/
theorem run_moves_eq (hnodup : ks.Nodup) (hsame : ∀ k ∈ ks, g.share k = f.share k)
    (hle : ∀ k ∈ ks, f.share k ≤ t) (hcover : (ks.map fun k ↦ t - f.share k).sum ≤ g.pot)
    (hpot : g.pot ≤ f.pot) (ht : t < M) (hdemand : ∀ k ∈ ks, g.demand t k < M) :
    ∀ k ∈ ks, (run (exec M) g (moves t f ks)).share k = t := by
  induction ks generalizing g with
  | nil => exact fun k hk ↦ absurd hk List.not_mem_nil
  | cons j ks ih =>
    obtain ⟨hj, hnodup⟩ := List.nodup_cons.mp hnodup
    rw [List.map_cons, List.sum_cons] at hcover
    obtain ⟨hlevel, hrest⟩ := levelAt_eq (hsame j List.mem_cons_self) (hle j List.mem_cons_self)
      (by omega) (by omega) ht (hdemand j List.mem_cons_self)
    intro k hk
    rw [run_moves_cons]
    rcases List.mem_cons.mp hk with rfl | hk
    · rw [(run_of_ne (ne_of_mem_moves hj) _).1]
      exact hlevel
    · have hne : ∀ k ∈ ks, k ≠ j := fun k hk he ↦ hj (he ▸ hk)
      refine ih hnodup (fun k hk ↦ ?_) (fun k hk ↦ hle k (List.mem_cons_of_mem j hk)) (by omega)
        (by omega) (fun k hk ↦ ?_) k hk
      · rw [(levelAt_of_ne (hne k hk) g).1]
        exact hsame k (List.mem_cons_of_mem j hk)
      · rw [Fund.demand, (levelAt_of_ne (hne k hk) g).1, (levelAt_of_ne (hne k hk) g).2]
        exact hdemand k (List.mem_cons_of_mem j hk)

/-! ## Two passes -/

theorem Enumerates.toFinset (h : Enumerates ks S) : ks.toFinset = S :=
  Finset.ext fun k ↦ List.mem_toFinset.trans (h.mem k)

theorem Enumerates.sum_map (h : Enumerates ks S) (x : κ → ℕ) :
    (ks.map x).sum = ∑ k ∈ S, x k := by
  rw [← h.toFinset, List.sum_toFinset x h.nodup]

theorem Enumerates.length (h : Enumerates ks S) : ks.length = S.card := by
  rw [← h.toFinset, List.toFinset_card_of_nodup h.nodup]

variable {c d : ℕ}

theorem value_run_pass (hks : Enumerates ks S) (f : Fund κ) :
    (run (exec M) f (pass c d S f ks)).value S = f.value S :=
  (always_value (fun _ h ↦ place_mem_of_mem_pass hks h) f).last

theorem run_pass_le (hks : Enumerates ks S) (hu : f.Uneven c d S) (hv : f.value S < M)
    (hk : k ∈ S) :
    (run (exec M) f (pass c d S f ks)).share k ≤ f.target S ∧
      (run (exec M) f (pass c d S f ks)).demand (f.target S) k ≤ f.demand (f.target S) k := by
  rw [pass_of_uneven hu]
  exact run_moves_le hks.nodup (fun k hk ↦ (hks.mem k).mp hk) hv (fun _ _ ↦ rfl) k
    ((hks.mem k).mpr hk)

theorem run_pass_eq (hks : Enumerates ks S) (hu : f.Uneven c d S) (hv : f.value S < M)
    (hle : ∀ k ∈ S, f.share k ≤ f.target S) (hdemand : ∀ k ∈ S, f.demand (f.target S) k < M)
    (hk : k ∈ S) : (run (exec M) f (pass c d S f ks)).share k = f.target S := by
  have hcover := sum_lacking_le hle
  rw [← hks.sum_map] at hcover
  rw [pass_of_uneven hu]
  exact run_moves_eq hks.nodup (fun _ _ ↦ rfl) (fun k hk ↦ hle k ((hks.mem k).mp hk)) hcover le_rfl
    (lt_of_le_of_lt (target_le_value S f) hv) (fun k hk ↦ hdemand k ((hks.mem k).mp hk)) k
    ((hks.mem k).mpr hk)

/-- The first pass trims what is too high into the pot, the second fills up what is too low, and
what they leave is even. -/
theorem not_uneven_run_pass {ks₁ ks₂ : List κ} (h₁ : Enumerates ks₁ S) (h₂ : Enumerates ks₂ S)
    (hv : f.value S < M) (hdemand : ∀ k ∈ S, f.demand (f.target S) k < M)
    (hf' : run (exec M) f (pass c d S f ks₁) = f') :
    ¬ (run (exec M) f' (pass c d S f' ks₂)).Uneven c d S := by
  have hvalue : f'.value S = f.value S := hf' ▸ value_run_pass h₁ f
  have htarget : f'.target S = f.target S := target_congr hvalue
  by_cases hu' : f'.Uneven c d S
  · have hu : f.Uneven c d S := by
      by_contra heven
      rw [pass_of_even heven] at hf'
      obtain rfl : f = f' := hf'
      exact heven hu'
    have htrim : ∀ k ∈ S, f'.share k ≤ f'.target S ∧ f'.demand (f'.target S) k < M := by
      intro k hk
      have hone := run_pass_le h₁ hu hv hk
      rw [hf', ← htarget] at hone
      exact ⟨hone.1, lt_of_le_of_lt hone.2 (htarget ▸ hdemand k hk)⟩
    refine not_uneven_of_share_eq fun k hk ↦ ?_
    rw [target_congr (value_run_pass h₂ f')]
    exact run_pass_eq h₂ hu' (hvalue ▸ hv) (fun k hk ↦ (htrim k hk).1) (fun k hk ↦ (htrim k hk).2)
      hk
  · rw [pass_of_even hu']
    exact hu'

/-! ## Passes without a refusal -/

/-- The transfer at `k` goes through exactly when the pot has it and nothing reaches `M`. -/
theorem succeeds_moveAt_iff (hg : g.pot < M) (hsame : g.share k = f.share k)
    (hgiven : g.given k = f.given k) (hshare : f.share k < M) (hcount : f.given k < M) :
    Succeeds (exec M) g (moveAt t f k).toList ↔
      (f.lacks t k ≤ g.pot + f.exceeds t k ∧ g.pot + f.exceeds t k < M + f.lacks t k) ∧
        f.share k + f.lacks t k < M ∧ f.given k + f.lacks t k < M := by
  have hzero := lacks_eq_zero_or t f k
  cases h : moveAt t f k with
  | none =>
    obtain ⟨hlacks, hexceeds⟩ := moveAt_eq_none h
    refine iff_of_true trivial ?_
    omega
  | some m =>
    have hhead : Succeeds (exec M) g (some m).toList ↔ m.Accepted M g :=
      (and_iff_left trivial).trans isOk_exec
    rw [hhead]
    rcases moveAt_eq_some h with ⟨rfl, hpos⟩ | ⟨rfl, hpos⟩
    · simp only [Transfer.Accepted]
      omega
    · have hexceeds : f.exceeds t k ≤ g.share k := hsame ▸ Nat.sub_le _ _
      simp only [Transfer.Accepted]
      omega

theorem pot_levelAt (h : Succeeds (exec M) g (moveAt t f k).toList) :
    (levelAt M t f g k).pot = g.pot + f.exceeds t k - f.lacks t k := by
  have hzero := lacks_eq_zero_or t f k
  cases hm : moveAt t f k with
  | none =>
    obtain ⟨hlacks, hexceeds⟩ := moveAt_eq_none hm
    rw [levelAt_of_none hm]
    omega
  | some m =>
    rw [hm] at h
    have hacc := isOk_exec.mp h.1
    rw [levelAt_of_some hm, advance_of_ok (exec_of_accepted hacc)]
    rcases moveAt_eq_some hm with ⟨rfl, hpos⟩ | ⟨rfl, hpos⟩
    · show g.pot - f.lacks t k = _
      omega
    · show g.pot + f.exceeds t k = _
      omega

/-- A pass meets no refusal exactly when the pot lasts along the places, and no share and no count
reaches `M`. -/
theorem succeeds_moves_iff (hnodup : ks.Nodup) (hg : g.pot < M)
    (hsame : ∀ k ∈ ks, g.share k = f.share k ∧ g.given k = f.given k)
    (hsmall : ∀ k ∈ ks, f.share k < M ∧ f.given k < M) :
    Succeeds (exec M) g (moves t f ks) ↔ Covers M t f g.pot ks ∧
      ∀ k ∈ ks, f.share k + f.lacks t k < M ∧ f.given k + f.lacks t k < M := by
  induction ks generalizing g with
  | nil =>
    refine iff_of_true trivial ⟨fun l hl ↦ ?_, fun k hk ↦ absurd hk List.not_mem_nil⟩
    obtain rfl := List.prefix_nil.mp hl
    simpa using hg
  | cons j ks ih =>
    obtain ⟨hj, hnodup⟩ := List.nodup_cons.mp hnodup
    have hne : ∀ k ∈ ks, k ≠ j := fun k hk he ↦ hj (he ▸ hk)
    obtain ⟨hshare, hgiven⟩ := hsame j List.mem_cons_self
    obtain ⟨hshareM, hgivenM⟩ := hsmall j List.mem_cons_self
    have hhead := succeeds_moveAt_iff (t := t) hg hshare hgiven hshareM hgivenM
    have htail (hok : Succeeds (exec M) g (moveAt t f j).toList)
        (hlt : g.pot + f.exceeds t j < M + f.lacks t j) := by
      have hpot := pot_levelAt hok
      have hnext := ih (g := levelAt M t f g j) hnodup (by rw [hpot]; omega)
        (fun k hk ↦ by
          rw [(levelAt_of_ne (hne k hk) g).1, (levelAt_of_ne (hne k hk) g).2]
          exact hsame k (List.mem_cons_of_mem j hk))
        (fun k hk ↦ hsmall k (List.mem_cons_of_mem j hk))
      rw [hpot] at hnext
      exact hnext
    rw [moves_cons, succeeds_append, covers_cons hg, List.forall_mem_cons]
    apply Iff.intro
    · intro hsucceeds
      obtain ⟨hok, hrest⟩ := hsucceeds
      obtain ⟨hpot, hbound⟩ := hhead.mp hok
      obtain ⟨hcovers, hall⟩ := (htail hok hpot.2).mp hrest
      exact ⟨⟨hpot, hcovers⟩, hbound, hall⟩
    · intro hlasts
      obtain ⟨⟨hpot, hcovers⟩, hbound, hall⟩ := hlasts
      have hok := hhead.mpr ⟨hpot, hbound⟩
      exact ⟨hok, (htail hok hpot.2).mpr ⟨hcovers, hall⟩⟩

end Levelling
