import CrossFluf.Vault.Books
import CrossFluf.Base.Run

/-!
# Custody of the asset account

The token account of a vault belongs to an address only the program signs for, and only an
`instant_withdraw` from that vault signs for it.
-/

namespace VaultProgram

open Machine Solana Outcome Run

variable {p : ProgramAddresses} {env : Env} {w w' : World} {V : Pubkey} {v v' : Vault}

/-! ## Token effects of an instruction -/

theorem transferAsset_eq_ok {t t' : Tokens} {signers : List Pubkey}
    {src mint dst authority : Pubkey} {amount : U64}
    (h : transferAsset env t signers src mint dst authority amount = .ok t') :
    (∃ s, t.account src = some s ∧ s.mint = mint) ∧
      t.transfer signers src dst authority amount = .ok t' := by
  simp only [transferAsset, bind_eq_ok, orElse_eq_ok, require_eq_ok, mapError_eq_ok,
    exists_const] at h
  obtain ⟨m, -, -, ht⟩ := h
  exact Tokens.transferChecked_eq_ok ht

/-- The addresses an instruction carries signatures of into the token program. -/
def Instruction.signers (p : ProgramAddresses) : Instruction → List Pubkey
  | .deposit a _ => [a.user, lpMintAuthority p a.vault]
  | .instantWithdraw a _ => [a.user, vaultAssetAuthority p a.vault]
  | .harvestFees a => [a.admin, lpMintAuthority p a.vault]
  | .wallet signers _ => signers
  | _ => []

-- no instruction reaches a token account without the signature it needs
theorem exec_tokenStep {i : Env × Instruction} (h : exec p w i = .ok w') :
    Tokens.Step p.isDerived (i.2.signers p) w.tokens w'.tokens := by
  cases exec_effect h with
  | initializeVault hi => exact hi.world ▸ .refl _ _ _
  | deposit hd =>
    have hpaid := Tokens.transfer_step (P := p.isDerived) (transferAsset_eq_ok hd.paid_ok).2
    have hminted := Tokens.mintTo_step (P := p.isDerived) hd.minted_ok
    rw [hd.world]
    refine (hpaid.mono ?_).trans hminted
    intro s hs
    exact List.mem_cons.mpr (Or.inl (List.mem_singleton.mp hs))
  | instantWithdraw hx =>
    have hburned := Tokens.burn_step (P := p.isDerived) hx.burned_ok
    have hpaid := Tokens.transfer_step (P := p.isDerived) (transferAsset_eq_ok hx.paid_ok).2
    rw [hx.world]
    refine (hburned.mono ?_).trans hpaid
    intro s hs
    exact List.mem_cons.mpr (Or.inl (List.mem_singleton.mp hs))
  | addStrategy hs => exact hs.world ▸ .refl _ _ _
  | allocate ha => exact ha.world ▸ .refl _ _ _
  | deallocate hd => exact hd.world ▸ .refl _ _ _
  | reportYield hr => exact hr.world ▸ .refl _ _ _
  | harvestNothing => exact .refl _ _ _
  | harvestFees hf =>
    rw [hf.world]
    rcases hf.minted_ok with he | hm
    · show Tokens.Step p.isDerived _ w.tokens _
      exact he ▸ .refl _ _ _
    · exact Tokens.mintTo_step hm
  | removeStrategy hr => exact hr.world ▸ .refl _ _ _
  | updateConfig hc => exact hc.world ▸ .refl _ _ _
  | setActive hc => exact hc.world ▸ .refl _ _ _
  | wallet ht =>
    rw [ht.world]
    exact Tokens.exec_step ht.external ht.tokens

/-! ## The invariant -/

/-- The ledger is sound, nobody is delegated an account of a derived address, and every vault has
its asset account under its own authority. -/
structure Custody (p : ProgramAddresses) (w : World) : Prop where
  sound : w.tokens.Sound
  undelegated : w.tokens.Undelegated p.isDerived
  account : ∀ V v, w.vaults V = some v → ∃ x, w.tokens.account v.vaultAssetAccount = some x ∧
    x.owner = vaultAssetAuthority p V ∧ x.mint = v.assetMint
  mint : ∀ V v, w.vaults V = some v → ∃ x, w.tokens.mint v.assetMint = some x

theorem Genesis.custody (h : Genesis p w) : Custody p w where
  sound := h.sound
  undelegated := h.undelegated
  account V v hv := by
    rw [h.vaults] at hv
    cases hv
  mint V v hv := by
    rw [h.vaults] at hv
    cases hv

theorem exec_custody {i : Env × Instruction} (hw : Custody p w) (h : exec p w i = .ok w') :
    Custody p w' where
  sound := (exec_tokenStep h).sound hw.sound
  undelegated := (exec_tokenStep h).undelegated hw.undelegated
  account V v' hv' := by
    cases hV : w.vaults V with
    | some v =>
      have hkeys := exec_sameKeys h hV hv'
      obtain ⟨x, hx, howner, hmint⟩ := hw.account V v hV
      obtain ⟨x', hx', hm, ho, -⟩ := (exec_tokenStep h).frame.account _ x hx
      rw [hkeys.vaultAssetAccount, hkeys.assetMint]
      exact ⟨x', hx', ho.trans howner, hm.trans hmint⟩
    | none =>
      obtain ⟨env, a, name, config, hi, rfl, rfl⟩ := exec_initializes h hV hv'
      obtain ⟨x, hx, hm, ho⟩ := hi.vaultAssetAccount
      rw [hi.world]
      exact ⟨x, hx, ho, hm⟩
  mint V v' hv' := by
    cases hV : w.vaults V with
    | some v =>
      obtain ⟨x, hx⟩ := hw.mint V v hV
      obtain ⟨x', hx', -⟩ := (exec_tokenStep h).frame.mint _ x hx
      rw [(exec_sameKeys h hV hv').assetMint]
      exact ⟨x', hx'⟩
    | none =>
      obtain ⟨env, a, name, config, hi, rfl, rfl⟩ := exec_initializes h hV hv'
      rw [hi.world]
      exact Option.isSome_iff_exists.mp hi.assetMint

/-- No account of a wallet is the asset account of a vault: their owners differ. -/
theorem Custody.user_ne_vaultAsset {k user : Pubkey} {x : TokenAccount} (hw : Custody p w)
    (hv : w.vaults V = some v) (huser : p.isDerived user = false)
    (hk : w.tokens.account k = some x) (hx : x.owner = user) : k ≠ v.vaultAssetAccount := by
  intro he
  obtain ⟨y, hy, howner, -⟩ := hw.account V v hv
  rw [← he, hk, Option.some_inj] at hy
  rw [← hy, hx] at howner
  exact p.find_ne_signer huser _ howner.symm

/-- Nor is one that a user brings along. -/
theorem Custody.holds_ne {a : UserAccounts} (hw : Custody p w) (hv : w.vaults a.vault = some v)
    (huser : p.isDerived a.user = false) (h : UserHolds w a v) :
    a.userAssetAccount ≠ v.vaultAssetAccount ∧ a.userLpAccount ≠ v.vaultAssetAccount := by
  obtain ⟨x, hx, -, hxo⟩ := h.asset
  obtain ⟨y, hy, -, hyo⟩ := h.lp
  exact ⟨hw.user_ne_vaultAsset hv huser hx hxo, hw.user_ne_vaultAsset hv huser hy hyo⟩

theorem reachable_custody (h : Reachable (exec p) (Genesis p) w) : Custody p w :=
  reachable_invariant (fun _ hg ↦ hg.custody) (fun _ _ _ hs hx ↦ exec_custody hs hx) h

end VaultProgram
