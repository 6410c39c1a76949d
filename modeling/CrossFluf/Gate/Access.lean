import CrossFluf.Gate.Perimeter

/-!
# Who gets in and out

A vault of a hooked asset takes deposits from and pays withdrawals to verified users only, and only
as long as the authority of its asset account is verified itself.
-/

namespace PermissionedVault

open Machine Solana Outcome Run
open KycHook (verified metasAddress statusSeeds InjectiveOn)
open VaultProgram (vaultAssetAuthority UserAccounts UserHolds Vault Custody)

variable {c : Chain} {w w' w₀ : World} {env : Env} {a : UserAccounts} {v : Vault}
  {amount lpAmount : U64} {is : List (Env × Instruction)}

theorem MayMove.symm {mint u u' : Pubkey} (h : MayMove c w env mint u u') :
    MayMove c w env mint u' u :=
  ⟨h.bringsAccounts, h.listed, h.destination, h.source⟩

/-! ## One transaction -/

/-- Between a user and a vault the hook asks for both verifications, in either direction. -/
theorem approves_user (hh : KycHook.Homed c.kyc w.kyc) (hc : Custody c.vault w.vault)
    (hv : w.vault.vaults a.vault = some v) (hhook : c.hooked v.assetMint = true)
    (hsigner : c.vault.isDerived a.user = false) (hholds : UserHolds w.vault a v)
    (hasset : a.assetMint = v.assetMint) (authority : Pubkey) (amount : U64) :
    (c.approves w env a.userAssetAccount a.assetMint a.vaultAssetAccount authority amount = true ↔
        MayMove c w env v.assetMint a.user (vaultAssetAuthority c.vault a.vault)) ∧
      (c.approves w env a.vaultAssetAccount a.assetMint a.userAssetAccount authority amount =
          true ↔
        MayMove c w env v.assetMint a.user (vaultAssetAuthority c.vault a.vault)) := by
  obtain ⟨s, hs, -, hsowner⟩ := hholds.asset
  obtain ⟨d, hd, hdowner, -⟩ := hc.account a.vault v hv
  rw [← hholds.vaultAssetAccount] at hd
  have hne : a.userAssetAccount ≠ a.vaultAssetAccount := by
    rw [hholds.vaultAssetAccount]
    exact (hc.holds_ne hv hsigner hholds).1
  rw [Chain.approves_iff hh, Chain.approves_iff hh, hasset, hhook, ← hsowner, ← hdowner]
  apply And.intro
  · simp [hne, hs, hd]
  · have hsymm : MayMove c w env v.assetMint d.owner s.owner ↔
        MayMove c w env v.assetMint s.owner d.owner := ⟨.symm, .symm⟩
    simp [hne.symm, hs, hd, hsymm]

/-- The hook adds its own condition to an instruction and changes nothing else about it. -/
theorem exec_vault_isOk_iff {j : VaultProgram.Instruction} (hj : isWallet j = false) :
    (exec c w (env, .vault j)).isOk = true ↔
      (VaultProgram.exec c.vault w.vault (c.vaultEnv w env j, j)).isOk = true := by
  rw [isOk_iff, isOk_iff]
  apply Iff.intro
  · intro h
    obtain ⟨w', hw'⟩ := h
    exact ⟨w'.vault, (exec_vault_eq_ok.mp hw').2.1⟩
  · intro h
    obtain ⟨v', hv'⟩ := h
    refine ⟨⟨w.kyc, v'⟩, exec_vault_eq_ok.mpr ⟨fun hwallet ↦ ?_, hv', rfl⟩⟩
    rw [hj] at hwallet
    cases hwallet

/-- What an instruction needs besides the hook may make the hook's answer a matter of `P`. -/
theorem exec_isOk_iff_and {j : VaultProgram.Instruction} {P : Prop} (hj : isWallet j = false)
    (h : ∀ b, (VaultProgram.exec c.vault w.vault (⟨env.now, b⟩, j)).isOk = true →
      b = true ∧ (c.hookApproves w env j = true ↔ P)) :
    (exec c w (env, .vault j)).isOk = true ↔
      (VaultProgram.exec c.vault w.vault (⟨env.now, true⟩, j)).isOk = true ∧ P := by
  rw [exec_vault_isOk_iff hj, Chain.vaultEnv]
  apply Iff.intro
  · intro hok
    obtain ⟨happroves, hiff⟩ := h _ hok
    rw [happroves] at hok
    exact ⟨hok, hiff.mp happroves⟩
  · intro hok
    rw [(h true hok.1).2.mpr hok.2]
    exact hok.1

theorem deposit_isOk_iff (hh : KycHook.Homed c.kyc w.kyc) (hc : Custody c.vault w.vault)
    (hv : w.vault.vaults a.vault = some v) (hhook : c.hooked v.assetMint = true) :
    (exec c w (env, .vault (.deposit a amount))).isOk = true ↔
      (VaultProgram.deposit c.vault ⟨env.now, true⟩ w.vault a amount).isOk = true ∧
        MayMove c w env v.assetMint a.user (vaultAssetAuthority c.vault a.vault) := by
  refine exec_isOk_iff_and rfl fun b h ↦ ?_
  obtain ⟨v', hv'⟩ := isOk_iff.mp h
  obtain ⟨u, _, _, _, _, _, _, hd⟩ := VaultProgram.deposit_eq_ok hv'
  obtain rfl := Option.some_inj.mp (hd.vault.symm.trans hv)
  have hasset := hd.assetMint_eq hc
  exact ⟨VaultProgram.transferAsset_approved hd.paid_ok,
    (approves_user hh hc hv hhook hd.signer hd.holds hasset a.user amount).1⟩

theorem instantWithdraw_isOk_iff (hh : KycHook.Homed c.kyc w.kyc) (hc : Custody c.vault w.vault)
    (hv : w.vault.vaults a.vault = some v) (hhook : c.hooked v.assetMint = true) :
    (exec c w (env, .vault (.instantWithdraw a lpAmount))).isOk = true ↔
      (VaultProgram.instantWithdraw c.vault ⟨env.now, true⟩ w.vault a lpAmount).isOk = true ∧
        MayMove c w env v.assetMint a.user (vaultAssetAuthority c.vault a.vault) := by
  refine exec_isOk_iff_and rfl fun b h ↦ ?_
  obtain ⟨v', hv'⟩ := isOk_iff.mp h
  obtain ⟨u, _, _, _, _, _, _, _, hd⟩ := VaultProgram.instantWithdraw_eq_ok hv'
  obtain rfl := Option.some_inj.mp (hd.vault.symm.trans hv)
  have hasset := (hd.canRedeem hc).assetMint
  exact ⟨VaultProgram.transferAsset_approved hd.paid_ok,
    (approves_user hh hc hv hhook hd.signer hd.holds hasset _ _).2⟩

/-! ## Whole runs -/

/-- The seeds of the addresses that the registry calls of a run derive. -/
def kycSeeds (c : Chain) (w : World) (is : List (Env × Instruction)) :
    List (List (List U8)) :=
  (trace (exec c) kycPart w is).flatMap (·.2.seeds)

/-- The flag of the last `set_kyc_status` for a wallet that went through in a run. -/
def lastStatus (c : Chain) (w : World) (is : List (Env × Instruction)) (u : Pubkey) :
    Option Bool :=
  KycHook.lastStatus c.kyc c.spl w.kyc (trace (exec c) kycPart w is) u

theorem verified_iff {l : List (List (List U8))} {u : Pubkey} (hw : Launch c w₀)
    (hinj : InjectiveOn c.kyc (kycSeeds c w₀ is ++ l)) (hu : statusSeeds u ∈ l) :
    verified c.kyc (run (exec c) w₀ is).kyc u = true ↔ lastStatus c w₀ is u = some true := by
  rw [run_kyc]
  refine KycHook.run_verified hw.kyc hinj (List.mem_append_right _ hu) fun i hi s hs ↦ ?_
  exact List.mem_append_left _ (List.mem_flatMap.mpr ⟨i, hi, hs⟩)

/-- Both sides of a trade with a vault were verified last, and the transaction can show it. -/
structure Cleared (c : Chain) (w : World) (is : List (Env × Instruction)) (env : Env)
    (mint u V : Pubkey) : Prop where
  bringsAccounts : env.bringsAccounts = true
  listed : ((run (exec c) w is).kyc.metas (metasAddress c.kyc mint)).isSome
  user : lastStatus c w is u = some true
  vault : lastStatus c w is (vaultAssetAuthority c.vault V) = some true

theorem mayMove_iff_cleared {mint u V : Pubkey} (hw : Launch c w₀)
    (hinj : InjectiveOn c.kyc (kycSeeds c w₀ is ++
      [statusSeeds u, statusSeeds (vaultAssetAuthority c.vault V)])) :
    MayMove c (run (exec c) w₀ is) env mint u (vaultAssetAuthority c.vault V) ↔
      Cleared c w₀ is env mint u V := by
  have huser := verified_iff hw hinj (List.mem_cons_self)
  have hvault := verified_iff hw hinj (List.mem_cons_of_mem _ (List.mem_singleton_self _))
  apply Iff.intro
  · intro h
    exact ⟨h.bringsAccounts, h.listed, huser.mp h.source, hvault.mp h.destination⟩
  · intro h
    exact ⟨h.bringsAccounts, h.listed, huser.mpr h.user, hvault.mpr h.vault⟩

/-- After any run of both programs, a vault of a hooked asset serves exactly those it would serve
without the hook and whose last `set_kyc_status` verified them, its own authority included. -/
theorem served_iff_cleared (hw : Launch c w₀)
    (hinj : InjectiveOn c.kyc (kycSeeds c w₀ is ++
      [statusSeeds a.user, statusSeeds (vaultAssetAuthority c.vault a.vault)]))
    (hv : (run (exec c) w₀ is).vault.vaults a.vault = some v)
    (hhook : c.hooked v.assetMint = true) (env : Env) (amount : U64) :
    ((exec c (run (exec c) w₀ is) (env, .vault (.deposit a amount))).isOk = true ↔
      (VaultProgram.deposit c.vault ⟨env.now, true⟩ (run (exec c) w₀ is).vault a amount).isOk =
          true ∧ Cleared c w₀ is env v.assetMint a.user a.vault) ∧
    ((exec c (run (exec c) w₀ is) (env, .vault (.instantWithdraw a amount))).isOk = true ↔
      (VaultProgram.instantWithdraw c.vault ⟨env.now, true⟩ (run (exec c) w₀ is).vault a
          amount).isOk = true ∧ Cleared c w₀ is env v.assetMint a.user a.vault) := by
  have hh := KycHook.reachable_homed (hw.reachable_kyc is)
  have hc := VaultProgram.reachable_custody (hw.reachable_vault is)
  rw [deposit_isOk_iff hh hc hv hhook, instantWithdraw_isOk_iff hh hc hv hhook,
    mayMove_iff_cleared hw hinj]
  exact ⟨Iff.rfl, Iff.rfl⟩

/-! ## A user and a vault with their verifications -/

def sampleAuthority : Pubkey := vaultAssetAuthority sampleAddresses VaultProgram.Sample.vault

def setStatus (u : Pubkey) (isVerified : Bool) : Env × Instruction :=
  (at0, .kyc (.call (KycHook.Sample.setStatus KycHook.Sample.authority KycHook.Sample.registry u
    isVerified (-1))))

/-- The user pays in, and loses the verification after that. -/
def clearedRun : List (Env × Instruction) :=
  sampleSetup ++
    [setStatus VaultProgram.Sample.user true, setStatus sampleAuthority true,
     (at0, .vault (.deposit VaultProgram.Sample.userAccounts 400)),
     setStatus VaultProgram.Sample.user false]

def clearedWorld : World := run (exec sampleChain) emptyWorld clearedRun

theorem served_iff_cleared_revoked : ∃ v,
    clearedWorld.vault.vaults VaultProgram.Sample.userAccounts.vault = some v ∧
      (VaultProgram.instantWithdraw sampleAddresses ⟨0, true⟩ clearedWorld.vault
        VaultProgram.Sample.userAccounts 400).isOk = true ∧
      ¬ Cleared sampleChain emptyWorld clearedRun at0 v.assetMint VaultProgram.Sample.user
        VaultProgram.Sample.vault := by
  have hlive : ((run (exec sampleChain) emptyWorld clearedRun).vault.vaults
      VaultProgram.Sample.userAccounts.vault).map (·.assetMint) =
        some VaultProgram.Sample.assetMint := by
    decide +kernel
  have hruns : (VaultProgram.instantWithdraw sampleAddresses ⟨0, true⟩ clearedWorld.vault
        VaultProgram.Sample.userAccounts 400).isOk = true ∧
      (exec sampleChain clearedWorld
        (at0, .vault (.instantWithdraw VaultProgram.Sample.userAccounts 400))).isOk = false := by
    decide +kernel
  obtain ⟨v, hv, hasset⟩ := Option.map_eq_some_iff.mp hlive
  have hinj : InjectiveOn sampleAddresses (kycSeeds sampleChain emptyWorld clearedRun ++
      [statusSeeds VaultProgram.Sample.user, statusSeeds sampleAuthority]) := by
    decide +kernel
  have hhook : sampleChain.hooked v.assetMint = true := decide_eq_true hasset
  have hserved := served_iff_cleared (a := VaultProgram.Sample.userAccounts) launch_sample hinj
    hv hhook at0 400
  have hworld : run (exec sampleChain) emptyWorld clearedRun = clearedWorld := rfl
  rw [hworld] at hv hserved
  refine ⟨v, hv, hruns.1, fun hcleared ↦ ?_⟩
  have hok := hserved.2.mpr ⟨hruns.1, hcleared⟩
  rw [hruns.2] at hok
  cases hok

end PermissionedVault
