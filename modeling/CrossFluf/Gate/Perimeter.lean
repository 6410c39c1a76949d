import CrossFluf.Gate.Chain

/-!
# Wallets without a verification

While a wallet is not verified, nobody moves tokens of a hooked mint into its accounts or out of
them: not the wallet, not a delegate, not a vault.  Only minting and burning still reach them.
-/

namespace PermissionedVault

open Machine Solana Outcome Run
open KycHook (verified)
open VaultProgram (transferAsset_eq_ok transferAsset_approved)

variable {c : Chain} {w w' : World} {env : Env} {k : Pubkey} {x : TokenAccount}

/-- The instruction mints into the account or burns from it. -/
def Mints (k : Pubkey) : VaultProgram.Instruction → Prop
  | .deposit a _ => a.userLpAccount = k
  | .instantWithdraw a _ => a.userLpAccount = k
  | .harvestFees a => a.adminLpAccount = k
  | .wallet _ (.mintTo _ dst _ _) => dst = k
  | .wallet _ (.burn src _ _ _) => src = k
  | _ => False

/-- Nobody can move what is in the account, as long as its owner is not verified. -/
structure Frozen (c : Chain) (w : World) (k : Pubkey) (x : TokenAccount) : Prop where
  account : w.vault.tokens.account k = some x
  hooked : c.hooked x.mint = true
  unverified : verified c.kyc w.kyc x.owner = false

/-! ## One step -/

theorem transfer_keeps {t t' : Tokens} {signers : List Pubkey} {src dst authority : Pubkey}
    {amount : U64} (h : t.transfer signers src dst authority amount = .ok t')
    (hk : k = src ∨ k = dst → src = dst) : t'.balance k = t.balance k := by
  by_cases hself : src = dst
  · subst hself
    rw [Tokens.transfer_self h]
  · have hs : k ≠ src := fun he ↦ hself (hk (Or.inl he))
    have hd : k ≠ dst := fun he ↦ hself (hk (Or.inr he))
    exact Tokens.transfer_balance_of_ne h hs hd

/-- A transfer the hook lets through is none of the account's, also after a burn before it. -/
theorem Frozen.transfer {t t' : Tokens} {signers signers' : List Pubkey}
    {src mint dst authority authority' : Pubkey} {amount amount' : U64}
    (hw : KycHook.Homed c.kyc w.kyc) (hx : Frozen c w k x)
    (happroves : c.approves w env src mint dst authority amount = true)
    (ht : Tokens.Frame signers w.vault.tokens t)
    (hsrc : ∃ s, t.account src = some s ∧ s.mint = mint)
    (h : t.transfer signers' src dst authority' amount' = .ok t') :
    t'.balance k = t.balance k := by
  obtain ⟨y, hy, hym, -⟩ := ht.account k x hx.account
  obtain ⟨s, hs, hsm⟩ := hsrc
  obtain ⟨s', d', -, hs', hd', hsd, -⟩ := Tokens.transfer_eq_ok h
  rw [hs] at hs'
  obtain rfl := Option.some_inj.mp hs'
  refine transfer_keeps h fun hk ↦ ?_
  -- either way the account is of the mint the hook was asked about
  have hmint : x.mint = mint := by
    rcases hk with rfl | rfl
    · rw [hs] at hy
      rw [← hym, ← Option.some_inj.mp hy, hsm]
    · rw [hd'] at hy
      rw [← hym, ← Option.some_inj.mp hy, ← hsd, hsm]
  rcases (Chain.approves_iff hw).mp happroves with hfree | hself | ⟨s₀, d₀, hs₀, hd₀, hmay⟩
  · rw [← hmint, hx.hooked] at hfree
    cases hfree
  · exact hself
  · rcases hk with rfl | rfl
    · rw [hx.account] at hs₀
      have hverified := hmay.source
      rw [← Option.some_inj.mp hs₀, hx.unverified] at hverified
      cases hverified
    · rw [hx.account] at hd₀
      have hverified := hmay.destination
      rw [← Option.some_inj.mp hd₀, hx.unverified] at hverified
      cases hverified

theorem Frozen.wallet {t' : Tokens} {signers : List Pubkey} {i : TokenInstruction}
    (hw : KycHook.Homed c.kyc w.kyc) (hx : Frozen c w k x)
    (happroves : c.hookApproves w env (.wallet signers i) = true)
    (hi : ¬ Mints k (.wallet signers i)) (h : i.exec w.vault.tokens signers = .ok t') :
    t'.balance k = w.vault.tokens.balance k := by
  cases i with
  | transfer src dst authority amount =>
    obtain ⟨s, d, -, hs, -⟩ := Tokens.transfer_eq_ok h
    rw [Chain.hookApproves, hs, Option.all_some] at happroves
    exact hx.transfer hw happroves (Tokens.Frame.refl [] w.vault.tokens) ⟨s, hs, rfl⟩ h
  | mintTo mint dst authority amount =>
    exact Tokens.mintTo_balance_of_ne h fun hk ↦ hi hk.symm
  | burn src mint authority amount => exact Tokens.burn_balance_of_ne h fun hk ↦ hi hk.symm
  | approve src delegate owner amount => exact Tokens.approve_balance h k
  | initializeAccount k' mint owner =>
    obtain ⟨hnone, -, rfl⟩ := Tokens.initializeAccount_eq_ok h
    have hne : k ≠ k' := by
      rintro rfl
      rw [hx.account] at hnone
      cases hnone
    exact Tokens.balance_setAccount_of_ne _ _ hne
  | initializeMint k' authority decimals =>
    obtain ⟨-, -, rfl⟩ := Tokens.initializeMint_eq_ok h
    rfl

theorem Frozen.vault {v' : VaultProgram.World} {j : VaultProgram.Instruction}
    (hw : KycHook.Homed c.kyc w.kyc) (hx : Frozen c w k x) (hj : ¬ Mints k j)
    (happroves : isWallet j → c.hookApproves w env j = true)
    (h : VaultProgram.exec c.vault w.vault (c.vaultEnv w env j, j) = .ok v') :
    v'.tokens.balance k = w.vault.tokens.balance k := by
  generalize henv : c.vaultEnv w env j = env' at h
  have hasked : env'.hookApproves = c.hookApproves w env j := by rw [← henv]; rfl
  cases VaultProgram.exec_effect h with
  | @deposit _ a _ _ _ _ _ _ _ paid _ hd =>
    rw [hd.world]
    have hpaid := transferAsset_eq_ok hd.paid_ok
    have hmoved := hx.transfer hw (hasked ▸ transferAsset_approved hd.paid_ok)
      (Tokens.Frame.refl [] w.vault.tokens) hpaid.1 hpaid.2
    have hlp : k ≠ a.userLpAccount := fun hk ↦ hj hk.symm
    exact (Tokens.mintTo_balance_of_ne hd.minted_ok hlp).trans hmoved
  | @instantWithdraw _ a _ _ _ _ _ _ _ _ burned paid hd =>
    rw [hd.world]
    have hpaid := transferAsset_eq_ok hd.paid_ok
    have hmoved := hx.transfer hw (hasked ▸ transferAsset_approved hd.paid_ok)
      (Tokens.burn_frame hd.burned_ok).1 hpaid.1 hpaid.2
    have hlp : k ≠ a.userLpAccount := fun hk ↦ hj hk.symm
    exact hmoved.trans (Tokens.burn_balance_of_ne hd.burned_ok hlp)
  | @harvestFees _ a _ _ _ _ _ hd =>
    rw [hd.world]
    have hlp : k ≠ a.adminLpAccount := fun hk ↦ hj hk.symm
    rcases hd.minted_ok with hsame | hminted
    · rw [hsame]
      rfl
    · exact Tokens.mintTo_balance_of_ne hminted hlp
  | wallet hd =>
    rw [hd.world]
    exact hx.wallet hw (happroves rfl) hj hd.tokens
  | initializeVault hd => exact hd.world ▸ rfl
  | addStrategy hd => exact hd.world ▸ rfl
  | allocate hd => exact hd.world ▸ rfl
  | deallocate hd => exact hd.world ▸ rfl
  | reportYield hd => exact hd.world ▸ rfl
  | harvestNothing => rfl
  | removeStrategy hd => exact hd.world ▸ rfl
  | updateConfig hd _ => exact hd.world ▸ rfl
  | setActive hd => exact hd.world ▸ rfl

theorem exec_frozen {i : Env × Instruction} (hw : KycHook.Homed c.kyc w.kyc)
    (hx : Frozen c w k x) (hi : ∀ j, i.2 = .vault j → ¬ Mints k j) (h : exec c w i = .ok w') :
    w'.vault.tokens.balance k = w.vault.tokens.balance k := by
  obtain ⟨env, i⟩ := i
  cases i with
  | kyc j => rw [(exec_kyc_eq_ok.mp h).2]
  | vault j =>
    obtain ⟨happroves, hexec, -⟩ := exec_vault_eq_ok.mp h
    exact hx.vault hw (hi j rfl) happroves hexec

/-! ## Whole runs -/

theorem exec_homed {i : Env × Instruction} (hw : KycHook.Homed c.kyc w.kyc)
    (h : exec c w i = .ok w') : KycHook.Homed c.kyc w'.kyc := by
  obtain ⟨env, i⟩ := i
  cases i with
  | kyc j => exact KycHook.exec_homed hw (exec_kyc_eq_ok.mp h).1
  | vault j => exact (exec_vault_eq_ok.mp h).2.2 ▸ hw

/-- A token account stays what it is, whatever happens to its balance. -/
theorem exec_account {i : Env × Instruction} (h : exec c w i = .ok w')
    (hx : w.vault.tokens.account k = some x) :
    ∃ x', w'.vault.tokens.account k = some x' ∧ x'.mint = x.mint ∧ x'.owner = x.owner := by
  obtain ⟨env, i⟩ := i
  cases i with
  | kyc j => exact ⟨x, (exec_kyc_eq_ok.mp h).2 ▸ hx, rfl, rfl⟩
  | vault j =>
    have hstep := VaultProgram.exec_tokenStep (exec_vault_eq_ok.mp h).2.1
    obtain ⟨x', hx', hm, ho, -⟩ := hstep.frame.account k x hx
    exact ⟨x', hx', hm, ho⟩

theorem run_frozen {is : List (Env × Instruction)} (hw : KycHook.Homed c.kyc w.kyc)
    (hx : w.vault.tokens.account k = some x) (hhook : c.hooked x.mint = true)
    (hu : Always (exec c) (fun w ↦ verified c.kyc w.kyc x.owner = false) w is)
    (his : ∀ i ∈ is, ∀ j, i.2 = .vault j → ¬ Mints k j) :
    (run (exec c) w is).vault.tokens.balance k = w.vault.tokens.balance k := by
  induction is generalizing w x with
  | nil => rfl
  | cons i is ih =>
    have htail : ∀ j ∈ is, ∀ l, j.2 = .vault l → ¬ Mints k l :=
      fun j hj ↦ his j (List.mem_cons_of_mem i hj)
    cases he : exec c w i with
    | error e =>
      rw [run, advance_of_error he]
      rw [Always, advance_of_error he] at hu
      exact ih hw hx hhook hu.2 htail
    | ok w' =>
      rw [run, advance_of_ok he]
      rw [Always, advance_of_ok he] at hu
      obtain ⟨x', hx', hm, ho⟩ := exec_account he hx
      rw [← hm] at hhook
      rw [← ho] at hu
      have hrest := ih (exec_homed hw he) hx' hhook hu.2 htail
      have hfrozen : Frozen c w k x := ⟨hx, hm ▸ hhook, ho ▸ hu.1⟩
      exact hrest.trans (exec_frozen hw hfrozen (his i List.mem_cons_self) he)

/-- From any state two programs come to, an account of a hooked mint keeps its balance through
every run in which its owner is not verified and nothing mints into the account or burns from it,
whoever signs and whatever the owner has delegated. -/
theorem unverified_frozen {w₀ : World} {is is' : List (Env × Instruction)} (hw : Launch c w₀)
    (hx : (run (exec c) w₀ is).vault.tokens.account k = some x) (hhook : c.hooked x.mint = true)
    (hu : Always (exec c) (fun w ↦ verified c.kyc w.kyc x.owner = false) (run (exec c) w₀ is) is')
    (his : ∀ i ∈ is', ∀ j, i.2 = .vault j → ¬ Mints k j) :
    (run (exec c) w₀ (is ++ is')).vault.tokens.balance k =
      (run (exec c) w₀ is).vault.tokens.balance k := by
  rw [run_append]
  exact run_frozen (KycHook.reachable_homed (hw.reachable_kyc is)) hx hhook hu his

/-! ## A wallet that waits for its verification -/

def sampleChain : Chain where
  kyc := sampleAddresses
  vault := sampleAddresses
  spl := KycHook.sampleToken2022
  hooked mint := mint = VaultProgram.Sample.assetMint

def emptyWorld : World := ⟨KycHook.Sample.empty, VaultProgram.Sample.empty⟩

theorem launch_sample : Launch sampleChain emptyWorld where
  kyc := KycHook.launch_sample
  vault := VaultProgram.Sample.genesis

def at0 : Env := ⟨0, true⟩

/-- The hook of the asset is set up, then a vault for it and a user with some of it. -/
def sampleSetup : List (Env × Instruction) :=
  (KycHook.Sample.setup.map fun i ↦ (⟨i.1, true⟩, .kyc i.2)) ++
    (VaultProgram.Sample.setup (VaultProgram.Sample.config 0 0)).map fun i ↦
      (⟨i.1.now, true⟩, .vault i.2)

/-- The user pays into the vault, or sends a part to the vault's account at once. -/
def attempts : List (Env × Instruction) :=
  [(at0, .vault (.deposit VaultProgram.Sample.userAccounts 400)),
   (at0, .vault (.wallet [VaultProgram.Sample.user] (.transfer VaultProgram.Sample.userAsset
     VaultProgram.Sample.vaultAsset VaultProgram.Sample.user 400)))]

theorem unverified_frozen_attempts :
    (run (exec sampleChain) emptyWorld (sampleSetup ++ attempts)).vault.tokens.balance
        VaultProgram.Sample.userAsset =
      (run (exec sampleChain) emptyWorld sampleSetup).vault.tokens.balance
        VaultProgram.Sample.userAsset := by
  have hx : (run (exec sampleChain) emptyWorld sampleSetup).vault.tokens.account
      VaultProgram.Sample.userAsset =
        some ⟨VaultProgram.Sample.assetMint, VaultProgram.Sample.user, 1000000, none, 0⟩ := by
    decide +kernel
  refine unverified_frozen launch_sample hx rfl (by decide +kernel) fun i hi j hj ↦ ?_
  rcases List.mem_pair.mp hi with rfl | rfl
  · cases hj
    show ¬ VaultProgram.Sample.userAccounts.userLpAccount = VaultProgram.Sample.userAsset
    decide
  · cases hj
    exact id

end PermissionedVault
