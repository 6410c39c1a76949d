import CrossFluf.Vault.Custody
import CrossFluf.Vault.Dilution

/-!
# Pausing a vault

`set_active` turns deposits off.  Everything else a paused vault does as it would have done, so the
chain goes on as if nobody had tried to deposit.
-/

namespace VaultProgram

open Machine Solana Outcome Run

variable {p : ProgramAddresses} {env : Env} {w w' : World} {V k : Pubkey} {v : Vault}

def Vault.pause (v : Vault) : Vault := { v with isActive := false }

/-- The world with the vault at `V` paused. -/
def World.pause (V : Pubkey) (w : World) : World :=
  { w with vaults := Function.update w.vaults V ((w.vaults V).map Vault.pause) }

/-- A deposit into the vault at `V`. -/
def depositsTo (V : Pubkey) (i : Env × Instruction) : Bool :=
  match i.2 with
  | .deposit a _ => a.vault = V
  | _ => false

def setsActive (V : Pubkey) (i : Env × Instruction) : Bool :=
  match i.2 with
  | .setActive a _ => a.vault = V
  | _ => false

namespace World

theorem pause_vaults_self (hv : w.vaults V = some v) :
    (w.pause V).vaults V = some v.pause := by
  show Function.update _ _ _ _ = _
  rw [Function.update_self, hv, Option.map_some]

theorem pause_vaults_of_ne (hk : k ≠ V) : (w.pause V).vaults k = w.vaults k :=
  Function.update_of_ne hk _ _

theorem pause_vaults_eq_none : (w.pause V).vaults k = none ↔ w.vaults k = none := by
  by_cases hk : k = V
  · subst hk
    show Function.update _ _ _ _ = _ ↔ _
    rw [Function.update_self, Option.map_eq_none_iff]
  · rw [pause_vaults_of_ne hk]

theorem pause_setVault_self (v : Vault) :
    (w.setVault V v).pause V = (w.pause V).setVault V v.pause := by
  rw [setVault, setVault, pause, pause]
  simp only [Function.update_self, Option.map_some, Function.update_idem]

theorem pause_setVault_of_ne (hk : k ≠ V) (v : Vault) :
    (w.setVault k v).pause V = (w.pause V).setVault k v := by
  rw [setVault, setVault, pause, pause]
  simp only [Function.update_of_ne hk.symm, Function.update_comm hk]

theorem pause_setStrategy (k : Pubkey) (s : Strategy) :
    (w.setStrategy k s).pause V = (w.pause V).setStrategy k s := rfl

end World

open World

/-! ## Each instruction -/

theorem effectiveTotalAssets_pause (v : Vault) (now : I64) :
    effectiveTotalAssets v.pause now = effectiveTotalAssets v now := rfl

theorem managementFeeFor_pause (v : Vault) (e elapsed : U64) :
    managementFeeFor v.pause e elapsed = managementFeeFor v e elapsed := rfl

theorem currentRatioFor_pause (v : Vault) (e : U64) :
    currentRatioFor v.pause e = currentRatioFor v e := rfl

theorem performanceFeeFor_pause (v : Vault) (ratio : U128) :
    performanceFeeFor v.pause ratio = performanceFeeFor v ratio := rfl

theorem feeLpFor_pause (v : Vault) (e fees : U64) :
    feeLpFor v.pause e fees = feeLpFor v e fees := rfl

theorem checkUserAccounts_pause (a : UserAccounts) (v : Vault) :
    checkUserAccounts (w.pause V) a v.pause = checkUserAccounts w a v := rfl

theorem initializeVault_pause {a : InitializeVaultAccounts} {name : List U8}
    {config : VaultConfig} (hv : w.vaults V = some v) :
    initializeVault p env (w.pause V) a name config =
      (initializeVault p env w a name config).map (World.pause V) := by
  unfold initializeVault
  by_cases ha : a.vault = V
  · -- the address is taken
    subst ha
    simp only [pause_vaults_self hv, hv, reduceCtorEq, false_and, require_of_not not_false,
      error_bind, map_of_bind]
    rfl
  · rw [pause_vaults_of_ne ha]
    simp only [map_of_bind, map_of_pure, pause_setVault_of_ne ha]
    rfl

theorem deposit_pause_of_ne {a : UserAccounts} {amount : U64} (ha : a.vault ≠ V) :
    deposit p env (w.pause V) a amount = (deposit p env w a amount).map (World.pause V) := by
  unfold deposit
  rw [pause_vaults_of_ne ha]
  simp only [map_of_bind, map_of_pure, pause_setVault_of_ne ha]
  rfl

theorem instantWithdraw_pause {a : UserAccounts} {lpAmount : U64} (hv : w.vaults V = some v) :
    instantWithdraw p env (w.pause V) a lpAmount =
      (instantWithdraw p env w a lpAmount).map (World.pause V) := by
  unfold instantWithdraw
  by_cases ha : a.vault = V
  · subst ha
    rw [orElse_some (pause_vaults_self hv), orElse_some hv]
    simp only [ok_bind, effectiveTotalAssets_pause, checkUserAccounts_pause, map_of_bind,
      map_of_pure, pause_setVault_self]
    rfl
  · rw [pause_vaults_of_ne ha]
    simp only [map_of_bind, map_of_pure, pause_setVault_of_ne ha]
    rfl

theorem addStrategy_pause {a : StrategyAccounts} {name protocol : List U8}
    (hv : w.vaults V = some v) :
    addStrategy p env (w.pause V) a name protocol =
      (addStrategy p env w a name protocol).map (World.pause V) := by
  unfold addStrategy
  by_cases ha : a.vault = V
  · subst ha
    rw [pause_vaults_self hv, hv]
    simp only [pause_vaults_eq_none, map_of_bind, map_of_pure, pause_setVault_self]
    rfl
  · rw [pause_vaults_of_ne ha]
    simp only [pause_vaults_eq_none, map_of_bind, map_of_pure, pause_setVault_of_ne ha]
    rfl

theorem loadStrategy_pause_self {a : StrategyAccounts} (hv : w.vaults a.vault = some v) :
    loadStrategy (w.pause a.vault) a =
      (loadStrategy w a).map fun x ↦ (x.1.pause, x.2) := by
  unfold loadStrategy
  rw [pause_vaults_self hv, hv]
  simp only [map_of_bind, map_of_pure]
  rfl

theorem loadStrategy_pause_of_ne {a : StrategyAccounts} (ha : a.vault ≠ V) :
    loadStrategy (w.pause V) a = loadStrategy w a := by
  unfold loadStrategy
  rw [pause_vaults_of_ne ha]
  rfl

theorem allocate_pause {a : StrategyAccounts} {amount : U64} (hv : w.vaults V = some v) :
    allocate p env (w.pause V) a amount = (allocate p env w a amount).map (World.pause V) := by
  unfold allocate
  by_cases ha : a.vault = V
  · subst ha
    simp only [loadStrategy_pause_self hv, bind_of_map, map_of_bind, map_of_pure,
      pause_setStrategy, pause_setVault_self]
    rfl
  · simp only [loadStrategy_pause_of_ne ha, map_of_bind, map_of_pure, pause_setStrategy,
      pause_setVault_of_ne ha]

theorem deallocate_pause {a : StrategyAccounts} {amount : U64} (hv : w.vaults V = some v) :
    deallocate p env (w.pause V) a amount = (deallocate p env w a amount).map (World.pause V) := by
  unfold deallocate
  by_cases ha : a.vault = V
  · subst ha
    simp only [loadStrategy_pause_self hv, bind_of_map, map_of_bind, map_of_pure,
      pause_setStrategy, pause_setVault_self]
    rfl
  · simp only [loadStrategy_pause_of_ne ha, map_of_bind, map_of_pure, pause_setStrategy,
      pause_setVault_of_ne ha]

theorem bookYield_pause (v : Vault) (now : I64) (oldValue newValue : U64) :
    bookYield v.pause now oldValue newValue =
      (bookYield v now oldValue newValue).map Vault.pause := by
  unfold bookYield
  simp only [map_of_ite, map_of_bind, map_of_pure]
  rfl

theorem reportYield_pause {a : StrategyAccounts} {x : U64} (hv : w.vaults V = some v) :
    reportYield p env (w.pause V) a x = (reportYield p env w a x).map (World.pause V) := by
  unfold reportYield
  by_cases ha : a.vault = V
  · subst ha
    simp only [loadStrategy_pause_self hv, bookYield_pause, bind_of_map, map_of_bind, map_of_pure,
      pause_setStrategy, pause_setVault_self]
    rfl
  · simp only [loadStrategy_pause_of_ne ha, map_of_bind, map_of_pure, pause_setStrategy,
      pause_setVault_of_ne ha]

theorem removeStrategy_pause {a : StrategyAccounts} (hv : w.vaults V = some v) :
    removeStrategy p (w.pause V) a = (removeStrategy p w a).map (World.pause V) := by
  unfold removeStrategy
  by_cases ha : a.vault = V
  · subst ha
    simp only [loadStrategy_pause_self hv, bind_of_map, map_of_bind, map_of_pure,
      pause_setStrategy]
    rfl
  · simp only [loadStrategy_pause_of_ne ha, map_of_bind, map_of_pure, pause_setStrategy]

theorem harvestFees_pause {a : HarvestFeesAccounts} (hv : w.vaults V = some v) :
    harvestFees p env (w.pause V) a = (harvestFees p env w a).map (World.pause V) := by
  unfold harvestFees harvestFigures
  by_cases ha : a.vault = V
  · subst ha
    rw [orElse_some (pause_vaults_self hv), orElse_some hv]
    simp only [ok_bind, effectiveTotalAssets_pause, managementFeeFor_pause, currentRatioFor_pause,
      performanceFeeFor_pause, feeLpFor_pause, map_of_bind, map_of_ite, map_of_pure,
      pause_setVault_self]
    rfl
  · rw [pause_vaults_of_ne ha]
    simp only [map_of_bind, map_of_ite, map_of_pure, pause_setVault_of_ne ha]
    rfl

theorem updateConfig_pause {a : ConfigAccounts} {config : VaultConfig}
    (hv : w.vaults V = some v) :
    updateConfig p (w.pause V) a config = (updateConfig p w a config).map (World.pause V) := by
  unfold updateConfig
  by_cases ha : a.vault = V
  · subst ha
    rw [pause_vaults_self hv, hv]
    simp only [map_of_bind, map_of_pure, pause_setVault_self]
    rfl
  · rw [pause_vaults_of_ne ha]
    simp only [map_of_bind, map_of_pure, pause_setVault_of_ne ha]

theorem setActive_pause_of_ne {a : ConfigAccounts} {isActive : Bool} (ha : a.vault ≠ V) :
    setActive p (w.pause V) a isActive = (setActive p w a isActive).map (World.pause V) := by
  unfold setActive
  rw [pause_vaults_of_ne ha]
  simp only [map_of_bind, map_of_pure, pause_setVault_of_ne ha]

theorem walletStep_pause {signers : List Pubkey} {i : TokenInstruction} :
    walletStep p (w.pause V) signers i = (walletStep p w signers i).map (World.pause V) := by
  unfold walletStep
  simp only [map_of_bind, map_of_pure]
  rfl

theorem exec_pause {i : Env × Instruction} (hv : w.vaults V = some v)
    (hd : depositsTo V i = false) (hs : setsActive V i = false) :
    exec p (w.pause V) i = (exec p w i).map (World.pause V) := by
  obtain ⟨env, i⟩ := i
  cases i with
  | initializeVault a name config => exact initializeVault_pause hv
  | deposit a amount => exact deposit_pause_of_ne (of_decide_eq_false hd)
  | instantWithdraw a lpAmount => exact instantWithdraw_pause hv
  | addStrategy a name protocol => exact addStrategy_pause hv
  | allocate a amount => exact allocate_pause hv
  | deallocate a amount => exact deallocate_pause hv
  | reportYield a x => exact reportYield_pause hv
  | harvestFees a => exact harvestFees_pause hv
  | removeStrategy a => exact removeStrategy_pause hv
  | updateConfig a config => exact updateConfig_pause hv
  | setActive a isActive => exact setActive_pause_of_ne (of_decide_eq_false hs)
  | wallet signers i => exact walletStep_pause

/-! ## Runs -/

theorem advance_pause {i : Env × Instruction} (hv : w.vaults V = some v)
    (hd : depositsTo V i = false) (hs : setsActive V i = false) :
    advance (exec p) (w.pause V) i = (advance (exec p) w i).pause V := by
  have hp := exec_pause (p := p) hv hd hs
  cases h : exec p w i with
  | ok w' =>
    rw [h] at hp
    rw [advance_of_ok h]
    exact advance_of_ok hp
  | error e =>
    rw [h] at hp
    rw [advance_of_error h]
    exact advance_of_error hp

/-- A deposit into a paused vault fails. -/
theorem advance_paused_deposit {i : Env × Instruction} (hv : w.vaults V = some v)
    (hd : depositsTo V i = true) : advance (exec p) (w.pause V) i = w.pause V := by
  obtain ⟨env, i⟩ := i
  cases i with
  | deposit a amount =>
    obtain rfl : a.vault = V := of_decide_eq_true hd
    refine advance_induct (I := fun w' ↦ w' = w.pause a.vault) rfl fun w' h ↦ ?_
    obtain ⟨v', v'', lp, fee, rest, paid, minted, hx⟩ :=
      deposit_eq_ok (show deposit p env _ a amount = _ from h)
    have hpaused := hx.vault
    rw [pause_vaults_self hv, Option.some_inj] at hpaused
    have hactive := hx.active
    rw [← hpaused] at hactive
    cases hactive
  | _ => cases hd

/-- What others ask of the chain, without the deposits into the vault at `V`. -/
def withoutDeposits (V : Pubkey) (is : List (Env × Instruction)) : List (Env × Instruction) :=
  is.filter fun i ↦ !depositsTo V i

theorem run_pause {is : List (Env × Instruction)} (hv : w.vaults V = some v)
    (hs : ∀ i ∈ is, setsActive V i = false) :
    run (exec p) (w.pause V) is = (run (exec p) w (withoutDeposits V is)).pause V := by
  induction is generalizing w v with
  | nil => rfl
  | cons i is ih =>
    have hrest : ∀ j ∈ is, setsActive V j = false := fun j hj ↦ hs j (List.mem_cons_of_mem i hj)
    rw [run]
    cases hd : depositsTo V i with
    | true =>
      rw [advance_paused_deposit hv hd, ih hv hrest, withoutDeposits, withoutDeposits,
        List.filter_cons_of_neg (by simp [hd])]
    | false =>
      obtain ⟨v', hv', -⟩ : ∃ v', (advance (exec p) w i).vaults V = some v' ∧ SameKeys v v' :=
        run_sameKeys hv [i]
      rw [advance_pause hv hd (hs i List.mem_cons_self), ih hv' hrest, withoutDeposits,
        withoutDeposits, List.filter_cons_of_pos (by simp [hd])]
      rfl

/-- While it stays paused a vault, and the chain around it, goes through exactly what it would go
through unpaused without the deposits into it, and every other transaction fares as it would. -/
theorem paused_run {is : List (Env × Instruction)} (hv : w.vaults V = some v)
    (hs : ∀ i ∈ is, setsActive V i = false) :
    run (exec p) (w.pause V) is = (run (exec p) w (withoutDeposits V is)).pause V ∧
      ∀ is₁ i is₂, is = is₁ ++ i :: is₂ → depositsTo V i = false →
        (exec p (run (exec p) (w.pause V) is₁) i).isOk =
          (exec p (run (exec p) w (withoutDeposits V is₁)) i).isOk := by
  refine ⟨run_pause hv hs, ?_⟩
  rintro is₁ i is₂ rfl hd
  have hbefore : ∀ j ∈ is₁, setsActive V j = false := fun j hj ↦ hs j (List.mem_append_left _ hj)
  have hi : setsActive V i = false := hs i (List.mem_append_right _ List.mem_cons_self)
  obtain ⟨v', hv', -⟩ := run_sameKeys (p := p) hv (withoutDeposits V is₁)
  rw [run_pause hv hbefore, exec_pause hv' hd hi, isOk_map]

/-- In between someone tries to deposit. -/
def pausedRun : List (Env × Instruction) :=
  [(Sample.clock 50, .instantWithdraw Sample.userAccounts 100), secondDeposit,
   (Sample.clock 60, .instantWithdraw Sample.userAccounts 200)]

theorem paused_run_sample :
    run (exec sampleAddresses) (fundedWorld.pause Sample.vault) pausedRun =
      (run (exec sampleAddresses) fundedWorld
        [(Sample.clock 50, .instantWithdraw Sample.userAccounts 100),
         (Sample.clock 60, .instantWithdraw Sample.userAccounts 200)]).pause Sample.vault := by
  have hlive : (fundedWorld.vaults Sample.vault).isSome = true := by decide +kernel
  obtain ⟨v, hv⟩ := Option.isSome_iff_exists.mp hlive
  have hset : ∀ i ∈ pausedRun, setsActive Sample.vault i = false := by decide
  exact (paused_run hv hset).1

end VaultProgram
