import CrossFluf.Vault.FeeHarvest

/-!
# The management fee

A harvest charges the fee for the seconds since the last harvest that found anything to charge.
However often the fee is harvested, no second is charged twice and none up to the last such harvest
is left out.
-/

namespace VaultProgram

open Machine Solana Outcome Run

variable {p : ProgramAddresses} {env : Env} {w w' : World} {V : Pubkey} {v v' : Vault}
  {now : I64} {a : HarvestFeesAccounts}

/-- The seconds a harvest charges.  One that finds no fee leaves them to the next. -/
def chargedSeconds (v : Vault) (now : I64) : ℕ :=
  if harvestFee v now = 0 then 0 else (now.toInt - v.lastFeeHarvestTs.toInt).toNat

def managementFee (v : Vault) (now : I64) : ℕ :=
  match harvestedFees v now with
  | .ok (managementFee, _) => managementFee.toNat
  | .error _ => 0

/-- The fee of a whole year on the assets and at the rate of `now`. -/
def annualFee (v : Vault) (now : I64) : ℕ :=
  v.effective now * v.managementFeeBps.toNat / 10000

/-- What a harvest of the vault at `V` comes to. -/
def harvestOf (f : Vault → I64 → ℕ) (V : Pubkey) (w : World) (i : Env × Instruction) : ℕ :=
  match i.2 with
  | .harvestFees a => if a.vault = V then (w.vaults V).elim 0 fun v ↦ f v i.1.now else 0
  | _ => 0

def lastHarvest (V : Pubkey) (w : World) : ℤ :=
  (w.vaults V).elim 0 fun v ↦ v.lastFeeHarvestTs.toInt

theorem lastHarvest_of_vault (hv : w.vaults V = some v) :
    lastHarvest V w = v.lastFeeHarvestTs.toInt := by
  rw [lastHarvest, hv, Option.elim_some]

/-! ## One harvest -/

section Computed

variable {elapsed : I64} {e m f t : U64} {r : U128}

theorem FeesComputed.elapsed_toNat (h : FeesComputed v now elapsed e m r f t)
    (hnow : v.lastFeeHarvestTs.toInt ≤ now.toInt) :
    (i64AsU64 elapsed).toNat = (now.toInt - v.lastFeeHarvestTs.toInt).toNat := by
  have hcast := i64AsU64_checkedSub h.elapsed_ok
  have hbound := h.elapsed_ok
  unfold checkedSubI64 at hbound
  split at hbound
  · rw [hcast]
    omega
  · cases hbound

theorem FeesComputed.managementFee_eq (h : FeesComputed v now elapsed e m r f t) :
    managementFee v now = m.toNat := by
  rw [managementFee, h.harvested]

/-- The fee is the share of a year the seconds make up, rounded down. -/
theorem FeesComputed.management_le (h : FeesComputed v now elapsed e m r f t)
    (hnow : v.lastFeeHarvestTs.toInt ≤ now.toInt) :
    m.toNat * 31536000 ≤ annualFee v now * (now.toInt - v.lastFeeHarvestTs.toInt).toNat := by
  rw [managementFeeFor_eq_ok h.management_ok, h.effective_eq, managementQuotient,
    h.elapsed_toNat hnow]
  exact (Nat.mul_le_mul_right _ (Nat.mod_le _ _)).trans (Nat.div_mul_le_self _ _)

theorem FeesComputed.managementFee_le (h : FeesComputed v now elapsed e m r f t)
    (hnow : v.lastFeeHarvestTs.toInt ≤ now.toInt) :
    managementFee v now * 31536000 ≤ annualFee v now * chargedSeconds v now := by
  have hsum := h.total_add
  rw [h.managementFee_eq, chargedSeconds, h.harvestFee_eq]
  split
  · rename_i hzero
    have hnone : m.toNat = 0 := by omega
    rw [hnone, Nat.zero_mul]
    exact Nat.zero_le _
  · exact h.management_le hnow

end Computed

theorem harvestFees_lastHarvest (h : harvestFees p env w a = .ok w')
    (hv : w.vaults a.vault = some v) (hnow : v.lastFeeHarvestTs.toInt ≤ env.now.toInt) :
    ∃ v', w'.vaults a.vault = some v' ∧
      v'.lastFeeHarvestTs.toInt = v.lastFeeHarvestTs.toInt + chargedSeconds v env.now := by
  obtain ⟨x, elapsed, e, m, r, f, t, hx, hc, hcase⟩ := harvestFees_computed h
  obtain rfl := Option.some_inj.mp (hv.symm.trans hx)
  rw [chargedSeconds, hc.harvestFee_eq]
  rcases hcase with ⟨rfl, rfl⟩ | ⟨hne, v', feeLp, minted, ht⟩
  · refine ⟨v, hv, ?_⟩
    rw [if_pos (show (0 : U64).toNat = 0 from rfl)]
    exact (Int.add_zero _).symm
  · have hpos : t.toNat ≠ 0 := fun he ↦ hne (BitVec.eq_of_toNat_eq he)
    have hts : v'.lastFeeHarvestTs = env.now := by rw [ht.kept]
    refine ⟨v', ht.vault_eq, ?_⟩
    rw [if_neg hpos, hts]
    omega

theorem chargedSeconds_le (hnow : v.lastFeeHarvestTs.toInt ≤ now.toInt) :
    v.lastFeeHarvestTs.toInt + chargedSeconds v now ≤ now.toInt := by
  rw [chargedSeconds]
  split
  · rw [Nat.cast_zero, Int.add_zero]
    exact hnow
  · omega

/-! ## One step -/

theorem harvestOf_of_ne {f : Vault → I64 → ℕ} {i : Env × Instruction}
    (hV : i.2.vault ≠ some V) : harvestOf f V w i = 0 := by
  obtain ⟨env, i⟩ := i
  cases i with
  | harvestFees a => exact if_neg fun he ↦ hV (congrArg some he)
  | _ => rfl

theorem harvestOf_self {f : Vault → I64 → ℕ} (hv : w.vaults a.vault = some v) :
    harvestOf f a.vault w (env, .harvestFees a) = f v env.now := by
  show (if a.vault = a.vault then (w.vaults a.vault).elim 0 fun v ↦ f v env.now else 0) = _
  rw [if_pos rfl, hv, Option.elim_some]

/-- The last harvest moves by the seconds charged and by nothing else. -/
theorem exec_lastHarvest {i : Env × Instruction} (h : exec p w i = .ok w')
    (hv : w.vaults V = some v) (hnow : v.lastFeeHarvestTs.toInt ≤ i.1.now.toInt) :
    ∃ v', w'.vaults V = some v' ∧ v'.lastFeeHarvestTs.toInt =
      v.lastFeeHarvestTs.toInt + harvestOf chargedSeconds V w i := by
  by_cases hV : i.2.vault = some V
  · obtain ⟨v', hv', heffect⟩ := exec_vaultEffect h hV hv
    have hsame : ∀ {u : Vault}, u.lastFeeHarvestTs = v.lastFeeHarvestTs →
        u.lastFeeHarvestTs.toInt = v.lastFeeHarvestTs.toInt + (0 : ℕ) := by
      intro u hu
      rw [hu]
      exact (Int.add_zero _).symm
    cases heffect with
    | harvestNothing | harvestFees hf =>
      rw [harvestOf_self hv]
      exact harvestFees_lastHarvest h hv hnow
    | deposit hd => exact ⟨v', hv', hsame (by rw [hd.kept])⟩
    | instantWithdraw hx => exact ⟨v', hv', hsame (by rw [hx.kept])⟩
    | addStrategy hs => exact ⟨v', hv', hsame (by rw [hs.kept])⟩
    | allocate ha => exact ⟨v', hv', hsame (by rw [ha.kept])⟩
    | deallocate hd => exact ⟨v', hv', hsame (by rw [hd.kept])⟩
    | reportYield hr =>
      refine ⟨v', hv', hsame ?_⟩
      rcases bookYield_eq_ok hr.booked with ⟨-, hb⟩ | ⟨-, hb⟩
      · rw [hb.kept]
      · rw [hb.kept]
    | removeStrategy hr => exact ⟨_, hv', hsame rfl⟩
    | updateConfig hc => exact ⟨_, hv', hsame rfl⟩
    | setActive hc => exact ⟨_, hv', hsame rfl⟩
  · refine ⟨v, (exec_sameVault h hV).vault.trans hv, ?_⟩
    rw [harvestOf_of_ne hV]
    exact (Int.add_zero _).symm

theorem harvestOf_le {i : Env × Instruction} (hv : w.vaults V = some v)
    (hnow : v.lastFeeHarvestTs.toInt ≤ i.1.now.toInt) :
    v.lastFeeHarvestTs.toInt + harvestOf chargedSeconds V w i ≤ i.1.now.toInt := by
  by_cases hzero : harvestOf chargedSeconds V w i = 0
  · rw [hzero]
    exact (Int.add_zero _).trans_le hnow
  · obtain ⟨env, i⟩ := i
    cases i with
    | harvestFees a =>
      by_cases ha : a.vault = V
      · subst ha
        rw [harvestOf_self hv]
        exact chargedSeconds_le hnow
      · exact absurd (if_neg ha) hzero
    | _ => exact absurd rfl hzero

/-- The management fee of a step, at a rate no greater than `A` a year. -/
theorem exec_managementFee {i : Env × Instruction} {A : ℕ} (h : exec p w i = .ok w')
    (hv : w.vaults V = some v) (hnow : v.lastFeeHarvestTs.toInt ≤ i.1.now.toInt)
    (hA : harvestOf annualFee V w i ≤ A) :
    harvestOf managementFee V w i * 31536000 ≤ A * harvestOf chargedSeconds V w i := by
  by_cases hzero : harvestOf managementFee V w i = 0
  · rw [hzero, Nat.zero_mul]
    exact Nat.zero_le _
  · obtain ⟨env, i⟩ := i
    cases i with
    | harvestFees a =>
      by_cases ha : a.vault = V
      · subst ha
        rw [harvestOf_self hv] at hA
        rw [harvestOf_self hv, harvestOf_self hv]
        obtain ⟨x, elapsed, e, m, r, f, t, hx, hc, -⟩ :=
          harvestFees_computed (show harvestFees p env w a = _ from h)
        obtain rfl := Option.some_inj.mp (hv.symm.trans hx)
        exact (hc.managementFee_le hnow).trans (Nat.mul_le_mul_right _ hA)
      · exact absurd (if_neg ha) hzero
    | _ => exact absurd rfl hzero

/-! ## Runs -/

/-- There is a vault at `V`, last harvested at `t` or later. -/
def HarvestedSince (V : Pubkey) (t : ℤ) (w : World) : Prop :=
  ∃ v, w.vaults V = some v ∧ t ≤ v.lastFeeHarvestTs.toInt

theorem exec_harvestedSince {t : ℤ} {i : Env × Instruction} (hw : HarvestedSince V t w)
    (hnow : lastHarvest V w ≤ i.1.now.toInt) (h : exec p w i = .ok w') :
    HarvestedSince V t w' ∧ lastHarvest V w' = lastHarvest V w + harvestOf chargedSeconds V w i ∧
      lastHarvest V w' ≤ i.1.now.toInt := by
  obtain ⟨v, hv, ht⟩ := hw
  rw [lastHarvest_of_vault hv] at hnow
  obtain ⟨v', hv', heq⟩ := exec_lastHarvest h hv hnow
  have hle := harvestOf_le hv hnow
  rw [lastHarvest_of_vault hv, lastHarvest_of_vault hv']
  exact ⟨⟨v', hv', by omega⟩, heq, by omega⟩

/-- While the clock does not run backwards, the seconds the harvests of a run charge are those
between the last harvest before it and the last in it, each once; so with at most `A` for a year
they take no more than `A` for the years between. -/
theorem management_charged_once {is : List (Env × Instruction)} (hv : w.vaults V = some v)
    (hsorted : is.Pairwise fun i j ↦ i.1.now.toInt ≤ j.1.now.toInt)
    (hfirst : ∀ i ∈ is, v.lastFeeHarvestTs.toInt ≤ i.1.now.toInt) :
    ∃ v', (run (exec p) w is).vaults V = some v' ∧
      v'.lastFeeHarvestTs.toInt =
        v.lastFeeHarvestTs.toInt + tally (exec p) (harvestOf chargedSeconds V) w is ∧
      (∀ T, v.lastFeeHarvestTs.toInt ≤ T → (∀ i ∈ is, i.1.now.toInt ≤ T) →
        v'.lastFeeHarvestTs.toInt ≤ T) ∧
      ∀ A, EachStep (exec p) (fun w i _ ↦ harvestOf annualFee V w i ≤ A) w is →
        tally (exec p) (harvestOf managementFee V) w is * 31536000 ≤
          A * (v'.lastFeeHarvestTs.toInt - v.lastFeeHarvestTs.toInt).toNat := by
  have hlast := lastHarvest_of_vault hv
  have hclock : EachStep (exec p) (fun s i _ ↦ HarvestedSince V v.lastFeeHarvestTs.toInt s ∧
      lastHarvest V s ≤ i.1.now.toInt) w is :=
    eachStep_of_sorted (fun s i s' hs hnow h ↦
      have hnext := exec_harvestedSince hs hnow h
      ⟨hnext.1, hnext.2.2⟩) ⟨v, hv, le_rfl⟩ hsorted (hlast ▸ hfirst)
  have hsince := (hclock.always (fun s i s' hs hc h ↦ (exec_harvestedSince hs hc.2 h).1)
    ⟨v, hv, le_rfl⟩).last
  obtain ⟨v', hv', hge⟩ := hsince
  have hlast' := lastHarvest_of_vault hv'
  have hseconds : EachStep (exec p) (fun s i s' ↦
      (lastHarvest V s' - v.lastFeeHarvestTs.toInt).toNat =
        (lastHarvest V s - v.lastFeeHarvestTs.toInt).toNat + harvestOf chargedSeconds V s i) w is :=
    hclock.mono fun s i s' h hc ↦ by
      obtain ⟨-, heq, -⟩ := exec_harvestedSince hc.1 hc.2 h
      obtain ⟨u, hu, hge⟩ := hc.1
      rw [lastHarvest_of_vault hu] at heq ⊢
      omega
  have htally := hseconds.tally_eq (x := fun s ↦
    (lastHarvest V s - v.lastFeeHarvestTs.toInt).toNat)
  rw [hlast, hlast'] at htally
  refine ⟨v', hv', by omega, fun T hT his ↦ ?_, fun A hA ↦ ?_⟩
  · have hbelow : EachStep (exec p) (fun _ i _ ↦ i.1.now.toInt ≤ T) w is :=
      eachStep_of_forall_mem his w
    have hall := (hclock.and hbelow).always (I := fun s ↦ lastHarvest V s ≤ T)
      (fun s i s' _ hc h ↦ (exec_harvestedSince hc.1.1 hc.1.2 h).2.2.trans hc.2) (hlast ▸ hT)
    exact hlast' ▸ hall.last
  · have hsteps : EachStep (exec p) (fun s i _ ↦ harvestOf managementFee V s i * 31536000 ≤
        A * harvestOf chargedSeconds V s i) w is :=
      (hclock.and hA).mono fun s i s' h hc ↦ by
        obtain ⟨⟨⟨u, hu, -⟩, hnow⟩, hrate⟩ := hc
        exact exec_managementFee h hu (lastHarvest_of_vault hu ▸ hnow) hrate
    have hfee := hsteps.tally_mul_le
    rwa [show tally (exec p) (harvestOf chargedSeconds V) w is =
      (v'.lastFeeHarvestTs.toInt - v.lastFeeHarvestTs.toInt).toNat by omega] at hfee

/-- One percent a year on 1100, harvested after one year and after two. -/
def twoHarvests : List (Env × Instruction) :=
  [yearlyHarvest, (Sample.clock 63072000, .harvestFees harvestAccounts)]

theorem management_charged_once_yearly : ∃ v', (run (exec sampleAddresses) earnedWorld
    twoHarvests).vaults Sample.vault = some v' ∧
      tally (exec sampleAddresses) (harvestOf managementFee Sample.vault) earnedWorld
        twoHarvests * 31536000 ≤ 11 * v'.lastFeeHarvestTs.toInt.toNat := by
  have hvault : (earnedWorld.vaults Sample.vault).map (fun v ↦ v.lastFeeHarvestTs.toInt) =
      some 0 := by
    decide +kernel
  rw [Option.map_eq_some_iff] at hvault
  obtain ⟨v, hv, hts⟩ := hvault
  have hclock : twoHarvests.Pairwise fun i j ↦ i.1.now.toInt ≤ j.1.now.toInt := by decide
  obtain ⟨v', hv', -, -, hfee⟩ := management_charged_once (p := sampleAddresses) hv hclock
    (by rw [hts]; decide)
  refine ⟨v', hv', ?_⟩
  have hone : harvestOf annualFee Sample.vault earnedWorld yearlyHarvest ≤ 11 := by
    decide +kernel
  have htwo : harvestOf annualFee Sample.vault harvestedWorld
      (Sample.clock 63072000, .harvestFees harvestAccounts) ≤ 11 := by
    decide +kernel
  have hbound := hfee 11 ⟨fun _ _ ↦ hone, fun _ _ ↦ htwo, trivial⟩
  rwa [hts, Int.sub_zero] at hbound

end VaultProgram
