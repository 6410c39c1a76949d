import CrossFluf.Vault.ProfitLock

/-!
# Losses and the profit lock

A reported gain is locked and a reported loss comes off the total alone, so the lock can outgrow
what it locks.  `effective_total_assets` then clamps at zero.
-/

namespace VaultProgram

open Machine Solana Outcome Release Run

variable {p : ProgramAddresses} {env : Env} {w w' : World} {V : Pubkey} {v v' : Vault}

/-! ## A lock that is covered -/

/-- At no time from the lock on is more withheld than there is. -/
def Vault.LockCovered (v : Vault) : Prop :=
  ∀ now : I64, v.lockedProfitTs.toInt ≤ now.toInt → remaining v now ≤ v.totalAssets.toNat

def LocksCovered (w : World) : Prop := ∀ V v, w.vaults V = some v → v.LockCovered

theorem remaining_lockedProfitTs (hd : 0 < v.lockedProfitDegradation.toNat) :
    remaining v v.lockedProfitTs = v.lockedProfit.toNat := by
  have hzero : lockElapsed v v.lockedProfitTs = 0 := by
    rw [lockElapsed, Int.sub_self]
    rfl
  rw [remaining, hzero, withheld_zero_elapsed hd]

-- the most is withheld at the moment of the lock
theorem Vault.lockCovered_iff : v.LockCovered ↔
    v.lockedProfitDegradation.toNat = 0 ∨ v.lockedProfit.toNat ≤ v.totalAssets.toNat := by
  apply Iff.intro
  · intro h
    rcases Nat.eq_zero_or_pos v.lockedProfitDegradation.toNat with hd | hd
    · exact Or.inl hd
    · have hnow := h v.lockedProfitTs le_rfl
      rw [remaining_lockedProfitTs hd] at hnow
      exact Or.inr hnow
  · intro h now _
    rcases h with hd | hle
    · rw [remaining_of_degradation_eq_zero hd]
      exact Nat.zero_le _
    · exact le_trans (withheld_le _ _ _) hle

/-- What leaves the total leaves enough of it for the lock. -/
def KeepsLockCovered (w : World) (i : Env × Instruction) : Prop :=
  match i.2 with
  | .instantWithdraw a lpAmount => ∀ v, w.vaults a.vault = some v →
    v.lockedProfitDegradation.toNat = 0 ∨
      v.lockedProfit.toNat + redeemable v i.1.now lpAmount ≤ v.totalAssets.toNat
  | .reportYield a newPositionValue => ∀ v s, w.vaults a.vault = some v →
    w.strategies a.strategy = some s → v.lockedProfitDegradation.toNat = 0 ∨
      v.lockedProfit.toNat ≤
        v.totalAssets.toNat - (s.positionValue.toNat - newPositionValue.toNat)
  | .updateConfig a config => ∀ v, w.vaults a.vault = some v →
    config.lockedProfitDegradation.toNat = 0 ∨ v.lockedProfit.toNat ≤ v.totalAssets.toNat
  | _ => True

-- the lock and the period stay, and the total does not fall
theorem Vault.LockCovered.mono (h : v.LockCovered)
    (hd : v'.lockedProfitDegradation = v.lockedProfitDegradation)
    (hl : v'.lockedProfit = v.lockedProfit)
    (htotal : v.totalAssets.toNat ≤ v'.totalAssets.toNat) : v'.LockCovered := by
  rw [Vault.lockCovered_iff] at h ⊢
  rw [hd, hl]
  exact h.imp_right fun hle ↦ le_trans hle htotal

theorem Withdrawn.lockCovered_iff {a : UserAccounts}
    {lpAmount effectiveAssets assetsToReturn fee assetsAfterFee : U64} {burned paid : Tokens}
    (h : Withdrawn p env w a lpAmount w' v v' effectiveAssets assetsToReturn fee assetsAfterFee
      burned paid) :
    v'.LockCovered ↔ v.lockedProfitDegradation.toNat = 0 ∨
      v.lockedProfit.toNat + redeemable v env.now lpAmount ≤ v.totalAssets.toNat := by
  have htotal := h.total
  rw [h.assets_eq] at htotal
  have hdeg : v'.lockedProfitDegradation = v.lockedProfitDegradation := by rw [h.kept]
  have hlocked : v'.lockedProfit = v.lockedProfit := by rw [h.kept]
  rw [Vault.lockCovered_iff, hdeg, hlocked]
  omega

theorem YieldReported.lockCovered_iff {a : StrategyAccounts} {newPositionValue : U64}
    {s s' : Strategy} (h : YieldReported p env w a newPositionValue w' v v' s s')
    (hv : v.LockCovered) :
    v'.LockCovered ↔ v.lockedProfitDegradation.toNat = 0 ∨ v.lockedProfit.toNat ≤
      v.totalAssets.toNat - (s.positionValue.toNat - newPositionValue.toNat) := by
  have hold := Vault.lockCovered_iff.mp hv
  rw [Vault.lockCovered_iff]
  rcases bookYield_eq_ok h.booked with ⟨hlt, hb⟩ | ⟨hle, hb⟩
  -- a gain adds the same to the lock and to the total
  · have htotal := hb.total
    have hlocked := hb.lockedProfit
    have hdeg : v'.lockedProfitDegradation = v.lockedProfitDegradation := by rw [hb.kept]
    rw [hdeg]
    omega
  · have htotal := hb.total
    have hlocked : v'.lockedProfit = v.lockedProfit := by rw [hb.kept]
    have hdeg : v'.lockedProfitDegradation = v.lockedProfitDegradation := by rw [hb.kept]
    rw [hdeg, hlocked, htotal]

theorem exec_lockCovered_iff {i : Env × Instruction} (h : exec p w i = .ok w')
    (hV : i.2.vault = some V) (hv : w.vaults V = some v) (hv' : w'.vaults V = some v')
    (hc : v.LockCovered) : v'.LockCovered ↔ KeepsLockCovered w i := by
  cases exec_vaultEffect_of h hV hv hv' with
  | deposit hd =>
    have htotal := hd.total
    exact iff_of_true (hc.mono (by rw [hd.kept]) (by rw [hd.kept]) (by omega)) trivial
  | instantWithdraw hx =>
    rw [hx.lockCovered_iff]
    apply Iff.symm
    exact forall_eq_some_iff hv
  | reportYield hr =>
    rw [hr.lockCovered_iff hc]
    apply Iff.intro
    · intro hall y t hy ht
      obtain rfl := Option.some_inj.mp (hv.symm.trans hy)
      obtain rfl := Option.some_inj.mp (hr.strategy.symm.trans ht)
      exact hall
    · intro hall
      exact hall v _ hv hr.strategy
  | @updateConfig _ _ config =>
    have hlong : (v.withConfig config).LockCovered ↔
        config.lockedProfitDegradation.toNat = 0 ∨ v.lockedProfit.toNat ≤ v.totalAssets.toNat :=
      Vault.lockCovered_iff
    rw [hlong]
    apply Iff.symm
    exact forall_eq_some_iff hv
  | addStrategy hs =>
    exact iff_of_true (hc.mono (by rw [hs.kept]) (by rw [hs.kept]) (by rw [hs.kept])) trivial
  | allocate ha =>
    exact iff_of_true (hc.mono (by rw [ha.kept]) (by rw [ha.kept]) (by rw [ha.kept])) trivial
  | deallocate hd =>
    exact iff_of_true (hc.mono (by rw [hd.kept]) (by rw [hd.kept]) (by rw [hd.kept])) trivial
  | harvestNothing => exact iff_of_true hc trivial
  | harvestFees hf =>
    exact iff_of_true (hc.mono (by rw [hf.kept]) (by rw [hf.kept]) (by rw [hf.kept])) trivial
  | removeStrategy hr => exact iff_of_true hc trivial
  | setActive hs => exact iff_of_true (hc.mono rfl rfl le_rfl) trivial

theorem locksCovered_step {i : Env × Instruction} (hw : LocksCovered w)
    (h : exec p w i = .ok w') : LocksCovered w' ↔ KeepsLockCovered w i := by
  refine forall_vaults_step hw h ?_ ?_ ?_
  · intro hV
    obtain ⟨env, i⟩ := i
    cases i with
    | wallet signers i => trivial
    | _ => cases hV
  · intro V v' hV hv hv'
    obtain ⟨env, a, name, config, rfl, -, -, rfl⟩ := exec_initializeVault h hv hv'
    exact iff_of_true (Vault.lockCovered_iff.mpr (Or.inr (Nat.zero_le _))) trivial
  · intro V v v' hV hv hv'
    exact exec_lockCovered_iff h hV hv hv' (hw V v hv)

/-! ## A gain and the loss of it -/

/-- What `effective_total_assets` says about the vault at `V`. -/
def effectiveAt (w : World) (V : Pubkey) (now : I64) : Option (VaultResult U64) :=
  (w.vaults V).map fun v ↦ effectiveTotalAssets v now

/-- Two readings of a lock agree when they can both be taken and withhold as much. -/
theorem effectiveTotalAssets_eq_iff {now : I64} (hr : LockReadable v' now)
    (htotal : v'.totalAssets = v.totalAssets) :
    effectiveTotalAssets v' now = effectiveTotalAssets v now ↔
      LockReadable v now ∧ v.totalAssets.toNat - remaining v' now =
        v.totalAssets.toNat - remaining v now := by
  obtain ⟨e', he'⟩ := effectiveTotalAssets_of_readable hr
  rw [he', eq_comm, effectiveTotalAssets_eq_ok, (effectiveTotalAssets_eq_ok.mp he').2, htotal]

theorem GainBooked.loss_effective_iff {now : I64} {profit : ℕ} {v'' : Vault}
    (hgain : GainBooked now v v' profit) (hloss : LossBooked v' v'' profit) (hpos : 0 < profit)
    (hd : 0 < v.lockedProfitDegradation.toNat) :
    effectiveTotalAssets v'' now = effectiveTotalAssets v now ↔
      LockReadable v now ∧ v.totalAssets.toNat ≤ remaining v now := by
  have htotal : v''.totalAssets = v.totalAssets := by
    rw [← BitVec.toNat_inj, hloss.total, hgain.total, Nat.add_sub_cancel]
  have hlocked : v''.lockedProfit = v'.lockedProfit := by rw [hloss.kept]
  have hts : v''.lockedProfitTs = v'.lockedProfitTs := by rw [hloss.kept]
  have hdeg : v''.lockedProfitDegradation = v'.lockedProfitDegradation := by rw [hloss.kept]
  -- the loss leaves the gain locked
  have hrem : remaining v'' now = v.lockedProfit.toNat + profit := by
    rw [remaining_congr hlocked hts hdeg, hgain.remaining_eq hd]
  have hread : LockReadable v'' now := (lockReadable_congr hlocked hts hdeg).mpr hgain.readable
  have hle : remaining v now ≤ v.lockedProfit.toNat := withheld_le _ _ _
  rw [effectiveTotalAssets_eq_iff hread htotal, hrem]
  refine and_congr_right fun _ ↦ ?_
  omega

/-- Reporting a value above the position and then the position again. -/
structure Oscillates (p : ProgramAddresses) (env : Env) (w : World) (a : StrategyAccounts)
    (v : Vault) (s : Strategy) (value : U64) (w₁ w₂ : World) : Prop where
  vault : w.vaults a.vault = some v
  strategy : w.strategies a.strategy = some s
  degrades : 0 < v.lockedProfitDegradation.toNat
  above : s.positionValue.toNat ≤ value.toNat
  up : exec p w (env, .reportYield a value) = .ok w₁
  down : exec p w₁ (env, .reportYield a s.positionValue) = .ok w₂

theorem Oscillates.effective_iff {a : StrategyAccounts} {s : Strategy} {value : U64}
    {w₁ w₂ : World} (h : Oscillates p env w a v s value w₁ w₂) :
    effectiveAt w₂ a.vault env.now = effectiveAt w a.vault env.now ↔
      value = s.positionValue ∨
        LockReadable v env.now ∧ v.totalAssets.toNat ≤ remaining v env.now := by
  obtain ⟨x, v₁, y, s₁, hup⟩ := reportYield_eq_ok (show reportYield p env w a value = _ from h.up)
  obtain rfl := Option.some_inj.mp (hup.vault.symm.trans h.vault)
  obtain rfl := Option.some_inj.mp (hup.strategy.symm.trans h.strategy)
  obtain ⟨x', v₂, y', s₂, hdown⟩ :=
    reportYield_eq_ok (show reportYield p env w₁ a y.positionValue = _ from h.down)
  obtain rfl := Option.some_inj.mp (hdown.vault.symm.trans hup.vault_eq)
  have hs₁ : w₁.strategies a.strategy = some s₁ := by
    rw [hup.world, World.setStrategy_strategies_self]
  obtain rfl := Option.some_inj.mp (hdown.strategy.symm.trans hs₁)
  rw [effectiveAt, effectiveAt, hdown.vault_eq, h.vault, Option.map_some, Option.map_some,
    Option.some_inj]
  have hdownBooked := hdown.booked
  rw [hup.position] at hdownBooked
  by_cases hsame : value = y.positionValue
  · -- nothing is booked either way
    have hself : ∀ (u : Vault) (x : U64), bookYield u env.now x x = .ok u := by
      intro u x
      rw [bookYield, if_neg (lt_irrefl _), if_neg (lt_irrefl _)]
      rfl
    have hupBooked := hup.booked
    rw [hsame] at hupBooked hdownBooked
    rw [hself, Except.ok.injEq] at hupBooked hdownBooked
    rw [← hdownBooked, ← hupBooked]
    exact iff_of_true rfl (Or.inl hsame)
  · have hne : value.toNat ≠ y.positionValue.toNat := fun he ↦ hsame (BitVec.toNat_inj.mp he)
    have habove := h.above
    rcases bookYield_eq_ok hup.booked with ⟨hlt, hgain⟩ | ⟨hle, -⟩
    · rcases bookYield_eq_ok hdownBooked with ⟨hlt', -⟩ | ⟨-, hloss⟩
      · omega
      · rw [or_iff_right hsame]
        exact hgain.loss_effective_iff hloss (by omega) h.degrades
    · omega

/-- In all states of a run the locks are covered exactly when every step leaves enough of the total
for the lock; and a gain reported together with the loss of it changes nothing exactly when it is
none, or all of the vault is withheld anyway. -/
theorem locksCovered_iff (hw : Genesis p w) (is : List (Env × Instruction)) :
    (Always (exec p) LocksCovered w is ↔
        EachStep (exec p) (fun w i _ ↦ KeepsLockCovered w i) w is) ∧
      ∀ env a v s value w₁ w₂, Oscillates p env (run (exec p) w is) a v s value w₁ w₂ →
        (effectiveAt w₂ a.vault env.now = effectiveAt (run (exec p) w is) a.vault env.now ↔
          value = s.positionValue ∨
            LockReadable v env.now ∧ v.totalAssets.toNat ≤ remaining v env.now) := by
  have hgenesis : LocksCovered w := by
    intro V v hv
    rw [hw.vaults] at hv
    cases hv
  apply And.intro
  · refine always_iff_eachStep ?_ hgenesis is
    intro w i w' hc h
    exact locksCovered_step hc h
  · intro env a v s value w₁ w₂ h
    exact h.effective_iff

/-- A deposit of 50 and a strategy that holds nothing, with a release over 100 seconds. -/
def oscillatingRun : List (Env × Instruction) :=
  Sample.setup (Sample.config 0 100) ++
    [(Sample.clock 0, .deposit Sample.userAccounts 50),
     (Sample.clock 0, .addStrategy Sample.strategyAccounts [] [])]

def restingWorld : World := run (exec sampleAddresses) Sample.empty oscillatingRun

/-- The gain of 100 and the loss of it. -/
def gainReport : Env × Instruction := (Sample.clock 0, .reportYield Sample.strategyAccounts 100)

def lossReport : Env × Instruction := (Sample.clock 0, .reportYield Sample.strategyAccounts 0)

theorem locksCovered_iff_oscillating :
    (Always (exec sampleAddresses) LocksCovered Sample.empty
          (oscillatingRun ++ [gainReport, lossReport]) ↔
        EachStep (exec sampleAddresses) (fun w i _ ↦ KeepsLockCovered w i) Sample.empty
          (oscillatingRun ++ [gainReport, lossReport])) :=
  (locksCovered_iff Sample.genesis (oscillatingRun ++ [gainReport, lossReport])).1

def raisedWorld : World := advance (exec sampleAddresses) restingWorld gainReport

def loweredWorld : World := advance (exec sampleAddresses) raisedWorld lossReport

theorem restingWorld_oscillates : ∃ v s, Oscillates sampleAddresses (Sample.clock 0) restingWorld
    Sample.strategyAccounts v s 100 raisedWorld loweredWorld := by
  have hup : (exec sampleAddresses restingWorld gainReport).isOk = true := by decide +kernel
  have hdown : (exec sampleAddresses raisedWorld lossReport).isOk = true := by decide +kernel
  have hperiod : (restingWorld.vaults Sample.vault).map
      (fun v ↦ v.lockedProfitDegradation) = some 100 := by
    decide +kernel
  have hposition : (restingWorld.strategies Sample.strategy).map
      (fun s ↦ s.positionValue) = some 0 := by
    decide +kernel
  rw [Option.map_eq_some_iff] at hperiod hposition
  obtain ⟨v, hv, hdeg⟩ := hperiod
  obtain ⟨s, hs, hpos⟩ := hposition
  exact ⟨v, s,
    { vault := hv
      strategy := hs
      degrades := by rw [hdeg]; decide
      above := by rw [hpos]; decide
      up := eq_ok_advance hup
      down := by rw [hpos]; exact eq_ok_advance hdown }⟩

-- afterwards 100 of the 50 are withheld
theorem locksCovered_fails :
    (¬ ∀ (p : ProgramAddresses) (w : World), Reachable (exec p) (Genesis p) w → LocksCovered w) ∧
      ¬ ∀ (p : ProgramAddresses) (w : World), Reachable (exec p) (Genesis p) w →
        ∀ env a v s value w₁ w₂, Oscillates p env w a v s value w₁ w₂ →
          effectiveAt w₂ a.vault env.now = effectiveAt w a.vault env.now := by
  apply And.intro
  · intro h
    have hcovered := h sampleAddresses _
      ⟨Sample.empty, oscillatingRun ++ [gainReport, lossReport], Sample.genesis, rfl⟩
    have hlock : ((run (exec sampleAddresses) Sample.empty
        (oscillatingRun ++ [gainReport, lossReport])).vaults Sample.vault).map
        (fun v ↦ (v.totalAssets, v.lockedProfitTs, remaining v 0)) = some (50, 0, 100) := by
      decide +kernel
    rw [Option.map_eq_some_iff] at hlock
    obtain ⟨v, hv, hfields⟩ := hlock
    simp only [Prod.mk.injEq] at hfields
    have hle := hcovered Sample.vault v hv 0 (by rw [hfields.2.1])
    rw [hfields.1, hfields.2.2] at hle
    exact absurd hle (by decide)
  · intro h
    obtain ⟨v, s, hosc⟩ := restingWorld_oscillates
    have heq := h sampleAddresses restingWorld ⟨Sample.empty, oscillatingRun, Sample.genesis, rfl⟩
      _ _ _ _ _ _ _ hosc
    have hafter : (effectiveAt loweredWorld Sample.vault 0).map (fun r ↦ r.toOption) =
        some (some 0) := by
      decide +kernel
    have hstart : (effectiveAt restingWorld Sample.vault 0).map (fun r ↦ r.toOption) =
        some (some 50) := by
      decide +kernel
    have hsame := congrArg (fun o ↦ o.map fun r ↦ r.toOption) heq
    have hcontra := (hafter.symm.trans hsame).trans hstart
    exact absurd hcontra (by decide)

end VaultProgram
