import CrossFluf.Base.Locality
import CrossFluf.Solana.TokenLocks
import CrossFluf.Vault.Custody
import CrossFluf.Vault.Dilution

/-!
# The accounts an instruction locks

A transaction names its accounts in advance and says which of them it writes.  The vault program
looks at no other accounts, so transactions that lock no account another one writes can be made in
any order.
-/

namespace VaultProgram

open Machine Solana Outcome Run

variable {p : ProgramAddresses} {env : Env} {w w' u : World} {ks : Set Pubkey} {k : Pubkey}

/-- The accounts of an instruction that hold data. -/
def Instruction.locks : Instruction → List Pubkey
  | .initializeVault a _ _ => [a.vault, a.assetMint, a.lpMint, a.vaultAssetAccount]
  | .deposit a _ | .instantWithdraw a _ =>
    [a.vault, a.userAssetAccount, a.vaultAssetAccount, a.assetMint, a.lpMint, a.userLpAccount]
  | .addStrategy a _ _ => [a.vault, a.strategy]
  | .allocate a _ | .deallocate a _ | .reportYield a _ => [a.vault, a.strategy]
  | .harvestFees a => [a.vault, a.lpMint, a.adminLpAccount]
  | .removeStrategy a => [a.vault, a.strategy]
  | .updateConfig a _ | .setActive a _ => [a.vault]
  | .wallet _ i => i.locks

/-- Those of them that are `mut` or `init`. -/
def Instruction.writes : Instruction → List Pubkey
  | .initializeVault a _ _ => [a.vault, a.lpMint, a.vaultAssetAccount]
  | .deposit a _ | .instantWithdraw a _ =>
    [a.vault, a.userAssetAccount, a.vaultAssetAccount, a.lpMint, a.userLpAccount]
  | .removeStrategy a => [a.strategy]
  | .wallet _ i => i.writes
  | i => i.locks

namespace World

/-- Everything at an address. -/
def cell (w : World) (k : Pubkey) :
    Option Vault × Option Strategy × Option TokenAccount × Option Mint :=
  (w.vaults k, w.strategies k, w.tokens.account k, w.tokens.mint k)

theorem cell_injective : Function.Injective cell := by
  intro w u h
  obtain ⟨vaults, strategies, mint, account⟩ := w
  obtain ⟨vaults', strategies', mint', account'⟩ := u
  have hcell : ∀ k, vaults k = vaults' k ∧ strategies k = strategies' k ∧
      account k = account' k ∧ mint k = mint' k := by
    intro k
    have hk := congrFun h k
    simp only [cell, Prod.mk.injEq] at hk
    exact hk
  obtain rfl : vaults = vaults' := funext fun k ↦ (hcell k).1
  obtain rfl : strategies = strategies' := funext fun k ↦ (hcell k).2.1
  obtain rfl : account = account' := funext fun k ↦ (hcell k).2.2.1
  obtain rfl : mint = mint' := funext fun k ↦ (hcell k).2.2.2
  rfl

open Classical in
/-- The one world at the keys in `ks`, the other elsewhere. -/
noncomputable def merge (ks : Set Pubkey) (w u : World) : World where
  vaults k := if k ∈ ks then w.vaults k else u.vaults k
  strategies k := if k ∈ ks then w.strategies k else u.strategies k
  tokens := w.tokens.merge ks u.tokens

open Classical in
theorem merge_cell (ks : Set Pubkey) (w u : World) (k : Pubkey) :
    (w.merge ks u).cell k = if k ∈ ks then w.cell k else u.cell k := by
  by_cases hk : k ∈ ks
  · simp only [cell, merge, Tokens.merge, if_pos hk]
  · simp only [cell, merge, Tokens.merge, if_neg hk]

theorem merge_eq (h : ∀ k ∈ ks, w.cell k = u.cell k) : w.merge ks u = u := by
  refine cell_injective (funext fun k ↦ ?_)
  rw [merge_cell]
  split
  · rename_i hk
    exact h k hk
  · rfl

theorem merge_vaults (hk : k ∈ ks) : (w.merge ks u).vaults k = w.vaults k := if_pos hk

theorem merge_strategies (hk : k ∈ ks) : (w.merge ks u).strategies k = w.strategies k := if_pos hk

theorem merge_tokens : (w.merge ks u).tokens = w.tokens.merge ks u.tokens := rfl

theorem setVault_merge (hk : k ∈ ks) (v : Vault) :
    (w.merge ks u).setVault k v = (w.setVault k v).merge ks u := by
  rw [setVault, merge, Tokens.update_merge hk]
  rfl

theorem setStrategy_merge (hk : k ∈ ks) (s : Strategy) :
    (w.merge ks u).setStrategy k s = (w.setStrategy k s).merge ks u := by
  rw [setStrategy, merge, Tokens.update_merge hk]
  rfl

theorem setTokens_merge (t : Tokens) :
    (w.merge ks u).setTokens (t.merge ks u.tokens) = (w.setTokens t).merge ks u := rfl

end World

open World

/-! ## What an instruction reads -/

theorem loadTokenAccount_merge {t t' : Tokens} {mint owner : Pubkey} (hk : k ∈ ks) :
    (loadTokenAccount (t.merge ks t') k mint owner : VaultResult TokenAccount) =
      loadTokenAccount t k mint owner := by
  rw [loadTokenAccount, loadTokenAccount, Tokens.merge_account hk]

theorem transferAsset_merge {t t' : Tokens} {signers : List Pubkey}
    {src mint dst authority : Pubkey} {amount : U64} (hs : src ∈ ks) (hm : mint ∈ ks)
    (hd : dst ∈ ks) :
    transferAsset env (t.merge ks t') signers src mint dst authority amount =
      (transferAsset env t signers src mint dst authority amount).map (·.merge ks t') := by
  unfold transferAsset
  simp only [Tokens.merge_mint hm, Tokens.transferChecked_merge hs hm hd, mapError_of_map,
    map_of_bind]

theorem loadStrategy_merge {a : StrategyAccounts} (hv : a.vault ∈ ks) (hs : a.strategy ∈ ks) :
    loadStrategy (w.merge ks u) a = loadStrategy w a := by
  rw [loadStrategy, loadStrategy, merge_vaults hv, merge_strategies hs]

theorem checkUserAccounts_merge {a : UserAccounts} {v : Vault} (ha : a.userAssetAccount ∈ ks)
    (hl : a.userLpAccount ∈ ks) :
    checkUserAccounts (w.merge ks u) a v = checkUserAccounts w a v := by
  rw [checkUserAccounts, checkUserAccounts, merge_tokens, loadTokenAccount_merge ha,
    loadTokenAccount_merge hl]

/-! ## Every instruction, wherever the rest of the chain stands -/

theorem initializeVault_merge {a : InitializeVaultAccounts} {name : List U8}
    {config : VaultConfig} (h : ∀ k ∈ (Instruction.initializeVault a name config).locks, k ∈ ks) :
    initializeVault p env (w.merge ks u) a name config =
      (initializeVault p env w a name config).map (·.merge ks u) := by
  simp only [Instruction.locks, List.forall_mem_cons] at h
  obtain ⟨hv, hasset, hlp, hvaultAsset, -⟩ := h
  unfold initializeVault
  simp only [merge_vaults hv, merge_strategies hv, merge_tokens, Tokens.merge_account hv,
    Tokens.merge_mint hv, Tokens.merge_mint hasset, Tokens.merge_mint hlp,
    loadTokenAccount_merge hvaultAsset, setVault_merge hv,
    map_of_bind, map_of_pure]

theorem deposit_merge {a : UserAccounts} {amount : U64}
    (h : ∀ k ∈ (Instruction.deposit a amount).locks, k ∈ ks) :
    deposit p env (w.merge ks u) a amount = (deposit p env w a amount).map (·.merge ks u) := by
  simp only [Instruction.locks, List.forall_mem_cons] at h
  obtain ⟨hv, hasset, hvaultAsset, hmint, hlp, huserLp, -⟩ := h
  unfold deposit
  simp only [merge_vaults hv, checkUserAccounts_merge hasset huserLp, merge_tokens,
    transferAsset_merge hasset hmint hvaultAsset, Tokens.mintTo_merge hlp huserLp, mapError_of_map,
    bind_of_map, setTokens_merge, setVault_merge hv,
    map_of_bind, map_of_pure]

theorem instantWithdraw_merge {a : UserAccounts} {lpAmount : U64}
    (h : ∀ k ∈ (Instruction.instantWithdraw a lpAmount).locks, k ∈ ks) :
    instantWithdraw p env (w.merge ks u) a lpAmount =
      (instantWithdraw p env w a lpAmount).map (·.merge ks u) := by
  simp only [Instruction.locks, List.forall_mem_cons] at h
  obtain ⟨hv, hasset, hvaultAsset, hmint, hlp, huserLp, -⟩ := h
  unfold instantWithdraw
  simp only [merge_vaults hv, checkUserAccounts_merge hasset huserLp, merge_tokens,
    transferAsset_merge hvaultAsset hmint hasset, Tokens.burn_merge huserLp hlp, mapError_of_map,
    bind_of_map, setTokens_merge, setVault_merge hv,
    map_of_bind, map_of_pure]

theorem addStrategy_merge {a : StrategyAccounts} {name protocol : List U8} (hv : a.vault ∈ ks)
    (hs : a.strategy ∈ ks) :
    addStrategy p env (w.merge ks u) a name protocol =
      (addStrategy p env w a name protocol).map (·.merge ks u) := by
  unfold addStrategy
  simp only [merge_vaults hv, merge_vaults hs, merge_strategies hs, merge_tokens,
    Tokens.merge_account hs, Tokens.merge_mint hs, setStrategy_merge hs, setVault_merge hv,
    map_of_bind, map_of_pure]

theorem allocate_merge {a : StrategyAccounts} {amount : U64} (hv : a.vault ∈ ks)
    (hs : a.strategy ∈ ks) :
    allocate p env (w.merge ks u) a amount = (allocate p env w a amount).map (·.merge ks u) := by
  unfold allocate
  simp only [loadStrategy_merge hv hs, setStrategy_merge hs, setVault_merge hv,
    map_of_bind, map_of_pure]

theorem deallocate_merge {a : StrategyAccounts} {amount : U64} (hv : a.vault ∈ ks)
    (hs : a.strategy ∈ ks) :
    deallocate p env (w.merge ks u) a amount =
      (deallocate p env w a amount).map (·.merge ks u) := by
  unfold deallocate
  simp only [loadStrategy_merge hv hs, setStrategy_merge hs, setVault_merge hv,
    map_of_bind, map_of_pure]

theorem reportYield_merge {a : StrategyAccounts} {x : U64} (hv : a.vault ∈ ks)
    (hs : a.strategy ∈ ks) :
    reportYield p env (w.merge ks u) a x = (reportYield p env w a x).map (·.merge ks u) := by
  unfold reportYield
  simp only [loadStrategy_merge hv hs, setStrategy_merge hs, setVault_merge hv,
    map_of_bind, map_of_pure]

theorem mintFeeLp_merge {a : HarvestFeesAccounts} {feeLp : U64} (hlp : a.lpMint ∈ ks)
    (hadmin : a.adminLpAccount ∈ ks) :
    mintFeeLp p (w.merge ks u) a feeLp =
      (mintFeeLp p w a feeLp).map (·.merge ks u.tokens) := by
  unfold mintFeeLp
  simp only [merge_tokens, Tokens.mintTo_merge hlp hadmin, mapError_of_map, map_of_ite, map_of_pure]

theorem harvestFees_merge {a : HarvestFeesAccounts}
    (h : ∀ k ∈ (Instruction.harvestFees a).locks, k ∈ ks) :
    harvestFees p env (w.merge ks u) a = (harvestFees p env w a).map (·.merge ks u) := by
  simp only [Instruction.locks, List.forall_mem_cons] at h
  obtain ⟨hv, hlp, hadmin, -⟩ := h
  unfold harvestFees
  simp only [merge_vaults hv, merge_tokens, loadTokenAccount_merge hadmin,
    mintFeeLp_merge hlp hadmin, bind_of_map, setTokens_merge, setVault_merge hv, map_of_bind,
    map_of_ite, map_of_pure]

theorem removeStrategy_merge {a : StrategyAccounts} (hv : a.vault ∈ ks) (hs : a.strategy ∈ ks) :
    removeStrategy p (w.merge ks u) a = (removeStrategy p w a).map (·.merge ks u) := by
  unfold removeStrategy
  simp only [loadStrategy_merge hv hs, setStrategy_merge hs, map_of_bind, map_of_pure]

theorem updateConfig_merge {a : ConfigAccounts} {config : VaultConfig} (hv : a.vault ∈ ks) :
    updateConfig p (w.merge ks u) a config = (updateConfig p w a config).map (·.merge ks u) := by
  unfold updateConfig
  simp only [merge_vaults hv, setVault_merge hv,
    map_of_bind, map_of_pure]

theorem setActive_merge {a : ConfigAccounts} {isActive : Bool} (hv : a.vault ∈ ks) :
    setActive p (w.merge ks u) a isActive = (setActive p w a isActive).map (·.merge ks u) := by
  unfold setActive
  simp only [merge_vaults hv, setVault_merge hv,
    map_of_bind, map_of_pure]

theorem walletStep_merge {signers : List Pubkey} {i : TokenInstruction}
    (h : ∀ k ∈ i.locks, k ∈ ks) :
    walletStep p (w.merge ks u) signers i = (walletStep p w signers i).map (·.merge ks u) := by
  unfold walletStep
  simp only [merge_tokens, TokenInstruction.exec_merge h, mapError_of_map, bind_of_map,
    setTokens_merge, map_of_bind, map_of_pure]

theorem exec_merge {i : Env × Instruction} (h : ∀ k ∈ i.2.locks, k ∈ ks) :
    exec p (w.merge ks u) i = (exec p w i).map (·.merge ks u) := by
  obtain ⟨env, i⟩ := i
  have hfst : ∀ {j k}, i.locks = [j, k] → j ∈ ks := fun he ↦ h _ (by simp [he])
  have hsnd : ∀ {j k}, i.locks = [j, k] → k ∈ ks := fun he ↦ h _ (by simp [he])
  have hone : ∀ {j}, i.locks = [j] → j ∈ ks := fun he ↦ h _ (by simp [he])
  cases i with
  | initializeVault a name config => exact initializeVault_merge h
  | deposit a amount => exact deposit_merge h
  | instantWithdraw a lpAmount => exact instantWithdraw_merge h
  | addStrategy a name protocol => exact addStrategy_merge (hfst rfl) (hsnd rfl)
  | allocate a amount => exact allocate_merge (hfst rfl) (hsnd rfl)
  | deallocate a amount => exact deallocate_merge (hfst rfl) (hsnd rfl)
  | reportYield a x => exact reportYield_merge (hfst rfl) (hsnd rfl)
  | harvestFees a => exact harvestFees_merge h
  | removeStrategy a => exact removeStrategy_merge (hfst rfl) (hsnd rfl)
  | updateConfig a config => exact updateConfig_merge (hone rfl)
  | setActive a isActive => exact setActive_merge (hone rfl)
  | wallet signers i => exact walletStep_merge h

/-! ## Only the accounts it writes change -/

theorem cell_setVault {V : Pubkey} {t : Tokens} (v : Vault) (hV : k ≠ V)
    (haccount : t.account k = w.tokens.account k) (hmint : t.mint k = w.tokens.mint k) :
    ((w.setTokens t).setVault V v).cell k = w.cell k := by
  rw [cell, cell, setVault_vaults_of_ne _ _ hV, setVault_tokens, setTokens_tokens, haccount, hmint]
  rfl

theorem cell_setStrategy {j : Pubkey} (s : Strategy) (hj : k ≠ j) :
    (w.setStrategy j s).cell k = w.cell k := by
  rw [cell, cell, setStrategy_strategies_of_ne _ _ hj]
  rfl

theorem StrategyMoved.cell_eq {a : StrategyAccounts} {v v' : Vault} {s s' : Strategy}
    (h : StrategyMoved p w a w' v v' s s') (hk : k ∉ [a.vault, a.strategy]) :
    w'.cell k = w.cell k := by
  simp only [List.mem_cons, List.not_mem_nil, or_false, not_or] at hk
  rw [h.world, cell_setStrategy _ hk.2]
  exact cell_setVault v' hk.1 rfl rfl

theorem ConfigWritten.cell_eq {a : ConfigAccounts} {v v' : Vault}
    (h : ConfigWritten p w a w' v v') (hk : k ∉ [a.vault]) : w'.cell k = w.cell k := by
  rw [h.world]
  exact cell_setVault v' (fun he ↦ hk (List.mem_singleton.mpr he)) rfl rfl

theorem exec_kept {i : Env × Instruction} (h : exec p w i = .ok w') (hk : k ∉ i.2.writes) :
    w'.cell k = w.cell k := by
  cases exec_effect h with
  | initializeVault hi =>
    rw [hi.world]
    exact cell_setVault _ (fun he ↦ hk (he ▸ List.mem_cons_self)) rfl rfl
  | deposit hd =>
    simp only [Instruction.writes, List.mem_cons, List.not_mem_nil, or_false, not_or] at hk
    obtain ⟨hv, hasset, hvaultAsset, hlp, huserLp⟩ := hk
    have hpaid := (transferAsset_eq_ok hd.paid_ok).2
    rw [hd.world]
    refine cell_setVault _ hv ?_ ?_
    · rw [Tokens.mintTo_account_of_ne hd.minted_ok huserLp,
        Tokens.transfer_account_of_ne hpaid hasset hvaultAsset]
    · rw [Tokens.mintTo_mint_of_ne hd.minted_ok hlp, Tokens.transfer_mint hpaid]
  | instantWithdraw hx =>
    simp only [Instruction.writes, List.mem_cons, List.not_mem_nil, or_false, not_or] at hk
    obtain ⟨hv, hasset, hvaultAsset, hlp, huserLp⟩ := hk
    have hpaid := (transferAsset_eq_ok hx.paid_ok).2
    rw [hx.world]
    refine cell_setVault _ hv ?_ ?_
    · rw [Tokens.transfer_account_of_ne hpaid hvaultAsset hasset,
        Tokens.burn_account_of_ne hx.burned_ok huserLp]
    · rw [Tokens.transfer_mint hpaid, Tokens.burn_mint_of_ne hx.burned_ok hlp]
  | addStrategy hs =>
    simp only [Instruction.writes, Instruction.locks, List.mem_cons, List.not_mem_nil, or_false,
      not_or] at hk
    rw [hs.world]
    exact (cell_setVault (w := w.setStrategy _ _) _ hk.1 rfl rfl).trans (cell_setStrategy _ hk.2)
  | allocate ha => exact ha.cell_eq hk
  | deallocate hd => exact hd.cell_eq hk
  | reportYield hr => exact hr.cell_eq hk
  | harvestNothing => rfl
  | harvestFees hf =>
    simp only [Instruction.writes, Instruction.locks, List.mem_cons, List.not_mem_nil, or_false,
      not_or] at hk
    obtain ⟨hv, hlp, hadmin⟩ := hk
    rw [hf.world]
    rcases hf.minted_ok with he | hm
    · exact cell_setVault _ hv (by rw [he]) (by rw [he])
    · exact cell_setVault _ hv (Tokens.mintTo_account_of_ne hm hadmin)
        (Tokens.mintTo_mint_of_ne hm hlp)
  | removeStrategy hr =>
    rw [hr.world]
    exact cell_setStrategy _ fun he ↦ hk (List.mem_singleton.mpr he)
  | updateConfig hc => exact hc.cell_eq hk
  | setActive hc => exact hc.cell_eq hk
  | wallet ht =>
    obtain ⟨haccount, hmint⟩ := TokenInstruction.exec_kept ht.tokens hk
    rw [ht.world, cell, cell, setTokens_tokens, haccount, hmint]
    rfl

theorem Instruction.writes_subset (i : Instruction) : ∀ k ∈ i.writes, k ∈ i.locks := by
  cases i with
  | wallet signers i =>
    cases i <;> simp [writes, locks, TokenInstruction.writes, TokenInstruction.locks]
  | _ => simp [writes, locks]

/-! ## Any order -/

theorem confinedMachine (p : ProgramAddresses) :
    ConfinedMachine (exec p) cell (fun i ↦ {k | k ∈ i.2.locks}) fun i ↦ {k | k ∈ i.2.writes} where
  injective := cell_injective
  confined i := by
    refine ⟨i.2.writes_subset, fun w w' h k hk ↦ exec_kept h hk, fun w u w' hagree h ↦ ?_⟩
    -- the other world is the one merged into it
    have hmerge : exec p (w.merge {k | k ∈ i.2.locks} u) i =
        (exec p w i).map (·.merge {k | k ∈ i.2.locks} u) := exec_merge fun _ hk ↦ hk
    rw [merge_eq hagree, h] at hmerge
    refine ⟨_, hmerge, fun k hk ↦ ?_⟩
    exact (merge_cell _ _ _ k).trans (if_pos hk)

/-- Neither transaction writes an account the other one locks. -/
def Instruction.Parallel (i j : Instruction) : Prop :=
  (∀ k ∈ i.writes, k ∉ j.locks) ∧ ∀ k ∈ j.writes, k ∉ i.locks

/-- Whether the lists have nothing in common. -/
def apart (ks js : List Pubkey) : Bool := ks.all fun k ↦ js.all fun j ↦ k ≠ j

theorem apart_iff {ks js : List Pubkey} : apart ks js = true ↔ ∀ k ∈ ks, k ∉ js := by
  simp only [apart, List.all_eq_true, decide_eq_true_eq]
  exact ⟨fun h k hk hj ↦ h k hk k hj rfl, fun h k hk j hj he ↦ h k hk (he ▸ hj)⟩

-- over the lists, as instance search would try every address
instance (i j : Instruction) : Decidable (i.Parallel j) :=
  decidable_of_iff (apart i.writes j.locks = true ∧ apart j.writes i.locks = true)
    (and_congr apart_iff apart_iff)

/-- Where transactions of different groups are parallel, a run ends the same in every order that
keeps the order within each group, and a transaction goes through exactly when it does after those
of its own group alone. -/
theorem parallel_groups {ρ : Type*} [DecidableEq ρ] (g : Env × Instruction → ρ)
    {is : List (Env × Instruction)}
    (ha : ∀ i ∈ is, ∀ j ∈ is, g i ≠ g j → i.2.Parallel j.2) (w : World) :
    (∀ js, SameGroups g is js → run (exec p) w js = run (exec p) w is) ∧
      ∀ is₁ i is₂, is = is₁ ++ i :: is₂ →
        (exec p (run (exec p) w is₁) i).isOk =
          (exec p (run (exec p) w (members g (g i) is₁)) i).isOk := by
  have hm := confinedMachine p
  apply And.intro
  · exact fun js h ↦ hm.run_groups (fun i hi j hj hne ↦ ha i hi j hj hne) h w
  · rintro is₁ i is₂ rfl
    have hmem : ∀ j ∈ i :: is₁, j ∈ is₁ ++ i :: is₂ := by
      intro j hj
      rw [List.mem_append, List.mem_cons]
      rcases List.mem_cons.mp hj with rfl | hj
      · exact Or.inr (Or.inl rfl)
      · exact Or.inl hj
    exact hm.isOk_groups (fun j hj k hk hne ↦ ha j (hmem j hj) k (hmem k hk) hne) w

def byWallet (i : Env × Instruction) : Bool :=
  match i.2 with
  | .wallet _ _ => true
  | _ => false

/-- A deposit and a withdrawal, and between them two steps that set up another token. -/
def crossingRun : List (Env × Instruction) :=
  [(Sample.clock 50, .wallet [4096] (.initializeMint 4096 none 0)), secondDeposit,
   (Sample.clock 50, .wallet [4128] (.initializeAccount 4128 4096 Sample.user)), withdrawal]

def sortedRun : List (Env × Instruction) :=
  [secondDeposit, withdrawal,
   (Sample.clock 50, .wallet [4096] (.initializeMint 4096 none 0)),
   (Sample.clock 50, .wallet [4128] (.initializeAccount 4128 4096 Sample.user))]

theorem parallel_groups_crossing :
    run (exec sampleAddresses) fundedWorld sortedRun =
      run (exec sampleAddresses) fundedWorld crossingRun := by
  have hgroups : SameGroups byWallet crossingRun sortedRun := by
    intro x
    cases x <;> rfl
  exact (parallel_groups byWallet (by decide +kernel) fundedWorld).1 sortedRun hgroups

end VaultProgram
