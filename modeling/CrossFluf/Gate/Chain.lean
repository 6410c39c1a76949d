import CrossFluf.Kyc.History
import CrossFluf.Vault.Exits

/-!
# A vault behind the transfer hook

The two programs on one chain.  The token program asks the hook about every transfer of a mint that
names it, those a vault makes as well as those of wallets; what it hears depends on the accounts of
the hook at that moment.
-/

namespace PermissionedVault

open Machine Solana Outcome Run
open KycHook (Token2022 resolve fallback verified metasAddress)
open VaultProgram (vaultAssetAuthority payoutFor)

/-- The addresses of both programs, the layout of the token program, and the mints whose
transfer-hook extension names the hook. -/
structure Chain where
  kyc : ProgramAddresses
  vault : ProgramAddresses
  spl : Token2022
  hooked : Pubkey → Bool

structure World where
  kyc : KycHook.World
  vault : VaultProgram.World

/-- The clock, and whether the transaction brings along the accounts the hook needs. -/
structure Env where
  now : I64
  bringsAccounts : Bool

inductive Instruction
  | kyc (i : KycHook.Instruction)
  | vault (i : VaultProgram.Instruction)

variable (c : Chain)

/-! ## What the token program asks -/

/-- A token account as the hook sees it during a transfer. -/
def Chain.accountInfo (k : Pubkey) (x : TokenAccount) : KycHook.AccountInfo :=
  ⟨k, .token2022, c.spl.packAccount ⟨x.mint, x.owner, some true⟩⟩

/-- The call of the hook, with the accounts its list for the mint names. -/
def Chain.execute (w : KycHook.World) (x : KycHook.Transfer) (amount : U64) :
    KycHook.KycResult Unit := do
  let accounts ← orElse (resolve c.kyc w x) .notEnoughAccountKeys
  fallback c.spl accounts (c.spl.packExecute amount)

/-- Whether a transfer gets past the hook.  One from an account to itself is not asked about. -/
def Chain.approves (w : World) (env : Env) (src mint dst authority : Pubkey) (amount : U64) :
    Bool :=
  !c.hooked mint || src = dst || env.bringsAccounts &&
    ((w.vault.tokens.account src).any fun s ↦ (w.vault.tokens.account dst).any fun d ↦
      (c.execute w.kyc ⟨c.accountInfo src s, mint, c.accountInfo dst d, authority⟩ amount).isOk)

/-- The amount `instant_withdraw` transfers. -/
def withdrawnAmount (w : VaultProgram.World) (now : I64) (V : Pubkey) (lpAmount : U64) : U64 :=
  match w.vaults V with
  | none => 0
  | some v => BitVec.ofNat 64 (payoutFor v now lpAmount)

/-- Whether the transfer in an instruction gets past the hook. -/
def Chain.hookApproves (w : World) (env : Env) : VaultProgram.Instruction → Bool
  | .deposit a amount =>
    c.approves w env a.userAssetAccount a.assetMint a.vaultAssetAccount a.user amount
  | .instantWithdraw a lpAmount =>
    -- the burn before it changes neither account
    c.approves w env a.vaultAssetAccount a.assetMint a.userAssetAccount
      (vaultAssetAuthority c.vault a.vault) (withdrawnAmount w.vault env.now a.vault lpAmount)
  | .wallet _ (.transfer src dst authority amount) =>
    (w.vault.tokens.account src).all fun s ↦ c.approves w env src s.mint dst authority amount
  | _ => true

/-! ## Transactions -/

inductive ChainError
  | kyc (e : Failure KycHook.KycError)
  | vault (e : Failure VaultProgram.VaultError)
  deriving DecidableEq

def Chain.vaultEnv (w : World) (env : Env) (i : VaultProgram.Instruction) : VaultProgram.Env :=
  ⟨env.now, c.hookApproves w env i⟩

/-- A transfer between wallets, which the vault program has no part in. -/
def isWallet : VaultProgram.Instruction → Bool
  | .wallet _ _ => true
  | _ => false

def exec (w : World) (i : Env × Instruction) : Except ChainError World :=
  match i.2 with
  | .kyc j => do
    let kyc ← (KycHook.exec c.kyc c.spl w.kyc (i.1.now, j)).mapError .kyc
    pure { w with kyc := kyc }
  | .vault j => do
    require (isWallet j → c.hookApproves w i.1 j = true) (.vault .hookRejected)
    let vault ← (VaultProgram.exec c.vault w.vault (c.vaultEnv w i.1 j, j)).mapError .vault
    pure { w with vault := vault }

/-- A chain on which neither program has run yet. -/
structure Launch (w : World) : Prop where
  kyc : KycHook.Launch c.kyc w.kyc
  vault : VaultProgram.Genesis c.vault w.vault

variable {c} {w w' : World} {env : Env} {k : Pubkey}

/-! ## Both programs run as they do alone -/

theorem exec_kyc_eq_ok {j : KycHook.Instruction} : exec c w (env, .kyc j) = .ok w' ↔
    KycHook.exec c.kyc c.spl w.kyc (env.now, j) = .ok w'.kyc ∧ w'.vault = w.vault := by
  simp only [exec, bind_eq_ok, mapError_eq_ok, pure_eq_ok]
  apply Iff.intro
  · intro h
    obtain ⟨kyc, hkyc, rfl⟩ := h
    exact ⟨hkyc, rfl⟩
  · intro h
    exact ⟨w'.kyc, h.1, by rw [← h.2]⟩

theorem exec_vault_eq_ok {j : VaultProgram.Instruction} :
    exec c w (env, .vault j) = .ok w' ↔ (isWallet j → c.hookApproves w env j = true) ∧
      VaultProgram.exec c.vault w.vault (c.vaultEnv w env j, j) = .ok w'.vault ∧
        w'.kyc = w.kyc := by
  simp only [exec, bind_eq_ok, mapError_eq_ok, pure_eq_ok, require_eq_ok, exists_const]
  apply Iff.intro
  · intro h
    obtain ⟨happroves, vault, hvault, rfl⟩ := h
    exact ⟨happroves, hvault, rfl⟩
  · intro h
    exact ⟨h.1, w'.vault, h.2.1, by rw [← h.2.2]⟩

/-- What a transaction is to the registries. -/
def kycPart (_ : World) (i : Env × Instruction) : List (I64 × KycHook.Instruction) :=
  match i.2 with
  | .kyc j => [(i.1.now, j)]
  | .vault _ => []

/-- What a transaction is to the vaults, with the answer of the hook in it. -/
def vaultPart (c : Chain) (w : World) (i : Env × Instruction) :
    List (VaultProgram.Env × VaultProgram.Instruction) :=
  match i.2 with
  | .kyc _ => []
  | .vault j => [(c.vaultEnv w i.1 j, j)]

/-- The registries see a run of their own. -/
theorem run_kyc (w : World) (is : List (Env × Instruction)) :
    (run (exec c) w is).kyc =
      run (KycHook.exec c.kyc c.spl) w.kyc (trace (exec c) kycPart w is) := by
  apply part_run
  intro w ⟨env, i⟩ w' h
  cases i with
  | kyc j => exact advance_of_ok (exec_kyc_eq_ok.mp h).1
  | vault j => exact (exec_vault_eq_ok.mp h).2.2.symm

/-- The vaults see a run of their own, in which the hook answers as it does. -/
theorem run_vault (w : World) (is : List (Env × Instruction)) :
    (run (exec c) w is).vault =
      run (VaultProgram.exec c.vault) w.vault (trace (exec c) (vaultPart c) w is) := by
  apply part_run
  intro w ⟨env, i⟩ w' h
  cases i with
  | kyc j => exact (exec_kyc_eq_ok.mp h).2.symm
  | vault j => exact advance_of_ok (exec_vault_eq_ok.mp h).2.1

theorem Launch.reachable_kyc (hw : Launch c w) (is : List (Env × Instruction)) :
    Reachable (KycHook.exec c.kyc c.spl) KycHook.Genesis (run (exec c) w is).kyc :=
  ⟨w.kyc, _, hw.kyc.toGenesis, (run_kyc w is).symm⟩

theorem Launch.reachable_vault (hw : Launch c w) (is : List (Env × Instruction)) :
    Reachable (VaultProgram.exec c.vault) (VaultProgram.Genesis c.vault)
      (run (exec c) w is).vault :=
  ⟨w.vault, _, hw.vault, (run_vault w is).symm⟩

/-! ## What the hook answers -/

/-- The transfer of `mint` between accounts of these owners gets past the hook. -/
structure MayMove (c : Chain) (w : World) (env : Env) (mint u u' : Pubkey) : Prop where
  bringsAccounts : env.bringsAccounts = true
  listed : (w.kyc.metas (metasAddress c.kyc mint)).isSome
  source : verified c.kyc w.kyc u = true
  destination : verified c.kyc w.kyc u' = true

theorem Chain.execute_isOk_iff (hw : KycHook.Homed c.kyc w.kyc) {src mint dst authority : Pubkey}
    {s d : TokenAccount} {amount : U64} :
    (c.execute w.kyc ⟨c.accountInfo src s, mint, c.accountInfo dst d, authority⟩ amount).isOk =
        true ↔
      (w.kyc.metas (metasAddress c.kyc mint)).isSome ∧ verified c.kyc w.kyc s.owner = true ∧
        verified c.kyc w.kyc d.owner = true := by
  have hs := c.spl.unpack_pack ⟨s.mint, s.owner, some true⟩
  have hd := c.spl.unpack_pack ⟨d.mint, d.owner, some true⟩
  cases hms : w.kyc.metas (metasAddress c.kyc mint) with
  | none =>
    have hnone : resolve c.kyc w.kyc
        ⟨c.accountInfo src s, mint, c.accountInfo dst d, authority⟩ = none := by
      rw [resolve, hms]
      rfl
    rw [Chain.execute, hnone]
    simp [orElse, error_bind, Except.isOk, Except.toBool]
  | some ms =>
    obtain rfl := hw.metas _ _ hms
    have hresolve := KycHook.resolve_eq
      (x := ⟨c.accountInfo src s, mint, c.accountInfo dst d, authority⟩) hms hs hd
    rw [Chain.execute, hresolve, orElse, ok_bind, isOk_unit_iff,
      KycHook.fallback_eq_ok (c.spl.unpack_execute amount) hs]
    simp only [Option.isSome_some, true_and]
    exact Iff.rfl

theorem Chain.approves_iff (hw : KycHook.Homed c.kyc w.kyc) {src mint dst authority : Pubkey}
    {amount : U64} : c.approves w env src mint dst authority amount = true ↔
      c.hooked mint = false ∨ src = dst ∨ ∃ s d, w.vault.tokens.account src = some s ∧
        w.vault.tokens.account dst = some d ∧ MayMove c w env mint s.owner d.owner := by
  simp only [Chain.approves, Bool.or_eq_true, Bool.not_eq_true', decide_eq_true_eq,
    Bool.and_eq_true, Option.any_eq_true, Chain.execute_isOk_iff hw, or_assoc]
  apply or_congr_right
  apply or_congr_right
  apply Iff.intro
  · intro h
    obtain ⟨hbrings, s, hs, d, hd, hlisted, hsource, hdest⟩ := h
    exact ⟨s, d, hs, hd, hbrings, hlisted, hsource, hdest⟩
  · intro h
    obtain ⟨s, d, hs, hd, hmay⟩ := h
    exact ⟨hmay.bringsAccounts, s, hs, d, hd, hmay.listed, hmay.source, hmay.destination⟩

end PermissionedVault
