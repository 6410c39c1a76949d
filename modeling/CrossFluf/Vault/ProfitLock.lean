import CrossFluf.Vault.Books
import CrossFluf.Base.Run

/-!
# The profit lock

Reported profit is withheld and released over `locked_profit_degradation` seconds.  A gain locks
again what earlier gains had already released, and so does a longer release period; nothing else
touches the lock.
-/

namespace VaultProgram

open Machine Solana Outcome Release Run

variable {p : ProgramAddresses} {env : Env} {w w' : World} {V : Pubkey} {v v' : Vault} {now : I64}

/-! ## What is withheld -/

theorem lockElapsed_eq_zero_iff (h : v.lockedProfitTs.toInt ≤ now.toInt) :
    lockElapsed v now = 0 ↔ now = v.lockedProfitTs := by
  rw [lockElapsed_of_le h, ← Int64.toInt_inj]
  omega

/-- Without a change to the lock the same part stays withheld. -/
theorem remaining_congr (hl : v'.lockedProfit = v.lockedProfit)
    (ht : v'.lockedProfitTs = v.lockedProfitTs)
    (hd : v'.lockedProfitDegradation = v.lockedProfitDegradation) (now : I64) :
    remaining v' now = remaining v now := by
  rw [remaining, remaining, lockElapsed, lockElapsed, hl, ht, hd]

theorem lockReadable_congr (hl : v'.lockedProfit = v.lockedProfit)
    (ht : v'.lockedProfitTs = v.lockedProfitTs)
    (hd : v'.lockedProfitDegradation = v.lockedProfitDegradation) :
    LockReadable v' now ↔ LockReadable v now := by
  rw [LockReadable, LockReadable, hl, ht, hd]

-- a gain restarts the release of everything that is locked
theorem GainBooked.remaining_eq {profit : ℕ} (h : GainBooked now v v' profit)
    (hd : 0 < v.lockedProfitDegradation.toNat) :
    remaining v' now = v.lockedProfit.toNat + profit := by
  have hts : v'.lockedProfitTs = now := by rw [h.kept]
  have hdeg : v'.lockedProfitDegradation = v.lockedProfitDegradation := by rw [h.kept]
  have hzero : lockElapsed v' now = 0 := by
    rw [lockElapsed, hts, Int.sub_self]
    rfl
  rw [remaining, hzero, withheld_zero_elapsed (by rw [hdeg]; exact hd), h.lockedProfit]

theorem GainBooked.readable {profit : ℕ} (h : GainBooked now v v' profit) :
    LockReadable v' now := by
  refine Or.inr (Or.inr ⟨0, ?_⟩)
  rw [h.kept]
  exact checkedSubI64_self now

theorem remaining_of_degradation_eq_zero (hd : v.lockedProfitDegradation.toNat = 0) (now : I64) :
    remaining v now = 0 := by
  rw [remaining, hd, withheld_zero_period]

/-! ## The two instructions that touch the lock -/

/-- Reporting a gain withholds the gain on top of what was withheld before, so the effective total
and what LP tokens redeem for stay as they were. -/
structure GainWithheld (now : I64) (v v' : Vault) (profit : ℕ) : Prop where
  remaining : remaining v' now = remaining v now + profit
  effective : ∀ e, effectiveTotalAssets v now = .ok e → effectiveTotalAssets v' now = .ok e
  redeemable : ∀ lpAmount, redeemable v now lpAmount ≤ redeemable v' now lpAmount

theorem GainBooked.withheld {profit : ℕ} (h : GainBooked now v v' profit)
    (hr : VaultProgram.remaining v' now = VaultProgram.remaining v now + profit) :
    GainWithheld now v v' profit where
  remaining := hr
  effective e he := by
    have hold := (effectiveTotalAssets_eq_ok.mp he).2
    have htotal := h.total
    apply effectiveTotalAssets_eq_ok.mpr
    exact ⟨h.readable, by omega⟩
  redeemable lpAmount := by
    have hlp : v'.lpSupply = v.lpSupply := by rw [h.kept]
    rw [VaultProgram.redeemable, VaultProgram.redeemable, hlp, h.total, hr,
      Nat.add_sub_add_right]

/-- No release was running before the gain. -/
def NothingReleased (v : Vault) (now : I64) : Prop :=
  v.lockedProfitDegradation.toNat = 0 ∨ v.lockedProfit.toNat = 0 ∨ now = v.lockedProfitTs

theorem GainBooked.unlocked_iff {profit : ℕ} (h : GainBooked now v v' profit)
    (hts : v.lockedProfitTs.toInt ≤ now.toInt) :
    remaining v' now ≤ remaining v now + profit ∧
        (0 < v.lockedProfitDegradation.toNat → GainWithheld now v v' profit) ↔
      NothingReleased v now := by
  rcases Nat.eq_zero_or_pos v.lockedProfitDegradation.toNat with hd | hd
  · -- without a release period nothing is ever withheld
    have hd' : v'.lockedProfitDegradation.toNat = 0 := by rw [h.kept, hd]
    rw [remaining_of_degradation_eq_zero hd, remaining_of_degradation_eq_zero hd']
    exact iff_of_true ⟨Nat.zero_le _, fun hpos ↦ absurd hd (by omega)⟩ (Or.inl hd)
  · have hnew := h.remaining_eq hd
    have hle : remaining v now ≤ v.lockedProfit.toNat := withheld_le _ _ _
    have hwhole : remaining v now = v.lockedProfit.toNat ↔ NothingReleased v now := by
      rw [remaining, withheld_eq_amount_iff hd, lockElapsed_eq_zero_iff hts]
      exact (or_iff_right (by omega)).symm
    rw [← hwhole]
    apply Iff.intro
    · intro hstep
      have hbound := hstep.1
      omega
    · intro hall
      exact ⟨by omega, fun _ ↦ h.withheld (by omega)⟩

/-- The new period releases no later than the old one, or is over, or the difference is lost in
rounding down. -/
def ReleasesNoLater (v : Vault) (now : I64) (period : U64) : Prop :=
  period.toNat ≤ v.lockedProfitDegradation.toNat ∨ period.toNat ≤ lockElapsed v now ∨
    v.lockedProfit.toNat * (period.toNat - lockElapsed v now) <
      (v.lockedProfit.toNat * (v.lockedProfitDegradation.toNat - lockElapsed v now) /
        v.lockedProfitDegradation.toNat + 1) * period.toNat

theorem withheld_le_iff {amount elapsed period period' : ℕ} :
    withheld amount elapsed period' ≤ withheld amount elapsed period ↔
      period' ≤ period ∨ period' ≤ elapsed ∨
        amount * (period' - elapsed) < (amount * (period - elapsed) / period + 1) * period' := by
  apply Iff.intro
  · intro h
    by_cases hp : period' ≤ elapsed
    · exact Or.inr (Or.inl hp)
    · right
      right
      rw [withheld_eq, withheld_eq] at h
      exact (Nat.div_lt_iff_lt_mul (by omega)).mp (Nat.lt_succ_of_le h)
  · intro h
    rcases h with h | h | h
    · exact withheld_mono_period h
    · rw [withheld_of_period_le h]
      exact Nat.zero_le _
    · have hpos : 0 < period' := by
        rcases Nat.eq_zero_or_pos period' with hz | hpos
        · rw [hz, Nat.mul_zero] at h
          omega
        · exact hpos
      rw [withheld_eq, withheld_eq]
      exact Nat.le_of_lt_succ ((Nat.div_lt_iff_lt_mul hpos).mpr h)

theorem withConfig_remaining_le_iff (config : VaultConfig) :
    remaining (v.withConfig config) now ≤ remaining v now ↔
      ReleasesNoLater v now config.lockedProfitDegradation :=
  withheld_le_iff

/-! ## Every step -/

/-- The profit an instruction reports to the vault at `V`. -/
def newProfit (w : World) (V : Pubkey) (i : Env × Instruction) : ℕ :=
  match i.2 with
  | .reportYield a newPositionValue =>
    if a.vault = V then newPositionValue.toNat - positionAt w V a.strategy else 0
  | _ => 0

/-- The instruction withholds no more of the vault at `V` than was withheld before it and the
profit it reports. -/
def UnlockedStaysAt (V : Pubkey) (w : World) (i : Env × Instruction) (w' : World) : Prop :=
  ∀ v v', w.vaults V = some v → w'.vaults V = some v' →
    v.lockedProfitTs.toInt ≤ i.1.now.toInt →
    remaining v' i.1.now ≤ remaining v i.1.now + newProfit w V i ∧
      (0 < newProfit w V i → 0 < v.lockedProfitDegradation.toNat →
        GainWithheld i.1.now v v' (newProfit w V i))

def UnlockedStays (w : World) (i : Env × Instruction) (w' : World) : Prop :=
  ∀ V, UnlockedStaysAt V w i w'

/-- A gain is reported while nothing has been released, and a new release period releases nothing
later. -/
def LockPreserving (w : World) (i : Env × Instruction) : Prop :=
  match i.2 with
  | .reportYield a newPositionValue =>
    ∀ v s, w.vaults a.vault = some v → w.strategies a.strategy = some s →
      v.lockedProfitTs.toInt ≤ i.1.now.toInt →
      s.positionValue.toNat < newPositionValue.toNat → NothingReleased v i.1.now
  | .updateConfig a config =>
    ∀ v, w.vaults a.vault = some v → v.lockedProfitTs.toInt ≤ i.1.now.toInt →
      ReleasesNoLater v i.1.now config.lockedProfitDegradation
  | _ => True

-- no profit is reported and the lock and the period are left alone
theorem unlockedStaysAt_of_lock_eq {i : Env × Instruction} (hprofit : newProfit w V i = 0)
    (hlock : ∀ v v', w.vaults V = some v → w'.vaults V = some v' →
      v'.lockedProfit = v.lockedProfit ∧ v'.lockedProfitTs = v.lockedProfitTs ∧
        v'.lockedProfitDegradation = v.lockedProfitDegradation) : UnlockedStaysAt V w i w' := by
  intro v v' hv hv' _
  have hkept := hlock v v' hv hv'
  rw [hprofit, remaining_congr hkept.1 hkept.2.1 hkept.2.2]
  exact ⟨le_rfl, fun hpos ↦ absurd hpos (lt_irrefl 0)⟩

theorem newProfit_of_vault_ne {i : Env × Instruction} (hV : i.2.vault ≠ some V) :
    newProfit w V i = 0 := by
  obtain ⟨env, i⟩ := i
  cases i with
  | reportYield a newValue => exact if_neg fun he ↦ hV (congrArg some he)
  | _ => rfl

theorem unlockedStaysAt_of_vault_ne {i : Env × Instruction} (h : exec p w i = .ok w')
    (hV : i.2.vault ≠ some V) : UnlockedStaysAt V w i w' := by
  apply unlockedStaysAt_of_lock_eq (newProfit_of_vault_ne hV)
  intro v v' hv hv'
  rw [(exec_sameVault h hV).vault, hv, Option.some_inj] at hv'
  subst hv'
  exact ⟨rfl, rfl, rfl⟩

theorem unlockedStays_iff {i : Env × Instruction} (h : exec p w i = .ok w')
    (hV : i.2.vault = some V) : UnlockedStays w i w' ↔ UnlockedStaysAt V w i w' := by
  apply Iff.intro
  · intro hall
    exact hall V
  · intro hone U
    by_cases hU : U = V
    · exact hU ▸ hone
    · exact unlockedStaysAt_of_vault_ne h fun he ↦ hU (Option.some_inj.mp (he.symm.trans hV))

theorem unlockedStaysAt_iff {i : Env × Instruction} (hv : w.vaults V = some v)
    (hv' : w'.vaults V = some v') :
    UnlockedStaysAt V w i w' ↔ (v.lockedProfitTs.toInt ≤ i.1.now.toInt →
      remaining v' i.1.now ≤ remaining v i.1.now + newProfit w V i ∧
        (0 < newProfit w V i → 0 < v.lockedProfitDegradation.toNat →
          GainWithheld i.1.now v v' (newProfit w V i))) := by
  apply Iff.intro
  · intro hall
    exact hall v v' hv hv'
  · intro hone x x' hx hx'
    obtain rfl := Option.some_inj.mp (hv.symm.trans hx)
    obtain rfl := Option.some_inj.mp (hv'.symm.trans hx')
    exact hone

theorem YieldReported.unlockedStaysAt_iff {a : StrategyAccounts} {newValue : U64}
    {s s' : Strategy} (h : YieldReported p env w a newValue w' v v' s s') :
    UnlockedStaysAt a.vault w (env, .reportYield a newValue) w' ↔
      LockPreserving w (env, .reportYield a newValue) := by
  have hprofit : newProfit w a.vault (env, .reportYield a newValue) =
      newValue.toNat - s.positionValue.toNat := by
    show (if a.vault = a.vault then _ else _) = _
    rw [if_pos rfl, positionAt_of_strategy h.strategy h.ofVault]
  have hcond : LockPreserving w (env, .reportYield a newValue) ↔
      (v.lockedProfitTs.toInt ≤ env.now.toInt → s.positionValue.toNat < newValue.toNat →
        NothingReleased v env.now) := by
    apply Iff.intro
    · intro hall
      exact hall v s h.vault h.strategy
    · intro hone x y hx hy
      obtain rfl := Option.some_inj.mp (h.vault.symm.trans hx)
      obtain rfl := Option.some_inj.mp (h.strategy.symm.trans hy)
      exact hone
  rw [hcond, VaultProgram.unlockedStaysAt_iff h.vault h.vault_eq, hprofit]
  apply imp_congr_right
  intro hts
  rcases bookYield_eq_ok h.booked with ⟨hgain, hb⟩ | ⟨hloss, hb⟩
  · have hpos : 0 < newValue.toNat - s.positionValue.toNat := by omega
    rw [forall_prop_of_true hpos, forall_prop_of_true hgain]
    exact hb.unlocked_iff hts
  · -- a loss leaves the lock alone
    have hsame : remaining v' env.now = remaining v env.now :=
      remaining_congr (by rw [hb.kept]) (by rw [hb.kept]) (by rw [hb.kept]) env.now
    refine iff_of_true ⟨?_, fun hpos ↦ absurd hpos (by omega)⟩ (fun hlt ↦ absurd hlt (by omega))
    show remaining v' env.now ≤ remaining v env.now + _
    rw [hsame]
    exact Nat.le_add_right _ _

theorem ConfigWritten.unlockedStaysAt_iff {a : ConfigAccounts} {config : VaultConfig}
    (h : ConfigWritten p w a w' v (v.withConfig config)) :
    UnlockedStaysAt a.vault w (env, .updateConfig a config) w' ↔
      LockPreserving w (env, .updateConfig a config) := by
  have hcond : LockPreserving w (env, .updateConfig a config) ↔
      (v.lockedProfitTs.toInt ≤ env.now.toInt →
        ReleasesNoLater v env.now config.lockedProfitDegradation) :=
    forall_eq_some_iff h.vault
  rw [hcond, VaultProgram.unlockedStaysAt_iff h.vault h.vault_eq]
  apply imp_congr_right
  intro _
  rw [← withConfig_remaining_le_iff]
  exact and_iff_left fun hpos ↦ absurd hpos (lt_irrefl 0)

-- no other instruction writes the lock
theorem exec_sameLock {i : Env × Instruction} (h : exec p w i = .ok w')
    (hr : ∀ a value, i.2 ≠ .reportYield a value) (hc : ∀ a config, i.2 ≠ .updateConfig a config)
    (hv : w.vaults V = some v) (hv' : w'.vaults V = some v') :
    v'.lockedProfit = v.lockedProfit ∧ v'.lockedProfitTs = v.lockedProfitTs ∧
      v'.lockedProfitDegradation = v.lockedProfitDegradation := by
  by_cases hV : i.2.vault = some V
  · have hstep := exec_vaultStep h hV hv hv'
    generalize i.2 = instr at hstep hr hc
    cases hstep with
    | counters kept => exact ⟨by rw [kept], by rw [kept], by rw [kept]⟩
    | report => exact absurd rfl (hr _ _)
    | config => exact absurd rfl (hc _ _)
  · rw [(exec_sameVault h hV).vault, hv, Option.some_inj] at hv'
    subst hv'
    exact ⟨rfl, rfl, rfl⟩

theorem exec_unlockedStays_iff {i : Env × Instruction} (h : exec p w i = .ok w') :
    UnlockedStays w i w' ↔ LockPreserving w i := by
  by_cases hr : ∃ a value, i.2 = .reportYield a value
  · obtain ⟨env, _⟩ := i
    obtain ⟨a, value, rfl⟩ := hr
    obtain ⟨v, v', s, s', hrep⟩ := reportYield_eq_ok (show reportYield p env w a value = _ from h)
    rw [unlockedStays_iff h rfl, hrep.unlockedStaysAt_iff]
  · by_cases hc : ∃ a config, i.2 = .updateConfig a config
    · obtain ⟨env, _⟩ := i
      obtain ⟨a, config, rfl⟩ := hc
      obtain ⟨v, hcfg, -⟩ := updateConfig_eq_ok (show updateConfig p w a config = _ from h)
      rw [unlockedStays_iff h rfl, hcfg.unlockedStaysAt_iff]
    · simp only [not_exists] at hr hc
      obtain ⟨env, i⟩ := i
      have hcond : LockPreserving w (env, i) := by
        cases i with
        | reportYield a value => exact absurd rfl (hr a value)
        | updateConfig a config => exact absurd rfl (hc a config)
        | _ => trivial
      have hzero : ∀ V, newProfit w V (env, i) = 0 := by
        intro V
        cases i with
        | reportYield a value => exact absurd rfl (hr a value)
        | _ => rfl
      exact iff_of_true (fun V ↦ unlockedStaysAt_of_lock_eq (hzero V)
        fun v v' hv hv' ↦ exec_sameLock h hr hc hv hv') hcond

theorem unlockedStays_iff_lockPreserving (p : ProgramAddresses) (w : World)
    (is : List (Env × Instruction)) :
    EachStep (exec p) UnlockedStays w is ↔
      EachStep (exec p) (fun w i _ ↦ LockPreserving w i) w is := by
  refine eachStep_congr (I := fun _ ↦ True) (fun _ _ _ _ _ ↦ trivial) ?_ trivial is
  intro s i s' _ h
  exact exec_unlockedStays_iff h

/-- A gain of 100 at time 0, released over 100 seconds, up to time 50. -/
def lockedRun : List (Env × Instruction) :=
  Sample.setup (Sample.config 0 100) ++
    [(Sample.clock 0, .addStrategy ⟨Sample.admin, Sample.vault, Sample.strategy⟩ [] []),
     (Sample.clock 0, .reportYield Sample.strategyAccounts 100)]

/-- A further gain of 1 half way through the release. -/
def secondGain : Env × Instruction := (Sample.clock 50, .reportYield Sample.strategyAccounts 101)

/-- The vault after the first gain, and after the second. -/
def lockedWorld : World := run (exec sampleAddresses) Sample.empty lockedRun

def relockedWorld : World := advance (exec sampleAddresses) lockedWorld secondGain

-- 50 of the 100 are released when the second gain locks all 101
theorem lockedWorld_remaining :
    (lockedWorld.vaults Sample.vault).map (fun v ↦ (v.lockedProfitTs, remaining v 50)) =
      some (0, 50) ∧
    (relockedWorld.vaults Sample.vault).map (fun v ↦ remaining v 50) = some 101 ∧
    newProfit lockedWorld Sample.vault secondGain = 1 ∧
    (exec sampleAddresses lockedWorld secondGain).isOk = true := by
  decide +kernel

theorem unlockedStays_fails :
    ¬ ∀ (p : ProgramAddresses) (w : World) (is : List (Env × Instruction)), Genesis p w →
      EachStep (exec p) UnlockedStays w is := by
  intro h
  have hrun := h sampleAddresses Sample.empty (lockedRun ++ [secondGain]) Sample.genesis
  obtain ⟨hbefore, hafter, hprofit, hok⟩ := lockedWorld_remaining
  rw [Option.map_eq_some_iff] at hbefore hafter
  obtain ⟨v, hv, hv50⟩ := hbefore
  obtain ⟨v', hv', hv'50⟩ := hafter
  rw [Prod.mk.injEq] at hv50
  have hstep := (eachStep_append.mp hrun).2.1 relockedWorld (eq_ok_advance hok) Sample.vault v v'
    hv hv'
  have hbound := (hstep (by rw [hv50.1]; decide)).1
  have hr : remaining v secondGain.1.now = 50 := hv50.2
  have hr' : remaining v' secondGain.1.now = 101 := hv'50
  have hp : newProfit (run (exec sampleAddresses) Sample.empty lockedRun) Sample.vault
    secondGain = 1 := hprofit
  omega

end VaultProgram
