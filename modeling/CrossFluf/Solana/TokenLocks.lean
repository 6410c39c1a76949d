import CrossFluf.Solana.TokenLaws

/-!
# The accounts a token instruction looks at

An instruction runs on the accounts and mints it names and does with them the same whatever the
rest of the ledger is.
-/

namespace Solana

open Machine Outcome

namespace Tokens

open Classical in
/-- The one ledger at the keys in `ks`, the other elsewhere. -/
noncomputable def merge (ks : Set Pubkey) (t u : Tokens) : Tokens where
  mint k := if k ∈ ks then t.mint k else u.mint k
  account k := if k ∈ ks then t.account k else u.account k

variable {ks : Set Pubkey} {t t' u : Tokens} {signers : List Pubkey}
  {src dst mint authority k : Pubkey} {amount : U64}

theorem merge_account (hk : k ∈ ks) : (t.merge ks u).account k = t.account k := if_pos hk

theorem merge_mint (hk : k ∈ ks) : (t.merge ks u).mint k = t.mint k := if_pos hk

open Classical in
theorem update_merge {α : Type} (hk : k ∈ ks) (f g : Pubkey → α) (x : α) :
    Function.update (fun j ↦ if j ∈ ks then f j else g j) k x =
      fun j ↦ if j ∈ ks then Function.update f k x j else g j := by
  funext j
  by_cases hj : j = k
  · subst hj
    rw [Function.update_self, Function.update_self, if_pos hk]
  · rw [Function.update_of_ne hj, Function.update_of_ne hj]

theorem setAccount_merge (hk : k ∈ ks) (a : TokenAccount) :
    (t.merge ks u).setAccount k a = (t.setAccount k a).merge ks u := by
  rw [setAccount, merge, update_merge hk]
  rfl

theorem setMint_merge (hk : k ∈ ks) (m : Mint) :
    (t.merge ks u).setMint k m = (t.setMint k m).merge ks u := by
  rw [setMint, merge, update_merge hk]
  rfl

/-! ## Instructions -/

theorem transfer_merge (hs : src ∈ ks) (hd : dst ∈ ks) :
    (t.merge ks u).transfer signers src dst authority amount =
      (t.transfer signers src dst authority amount).map (·.merge ks u) := by
  unfold transfer
  simp only [merge_account hs, merge_account hd, setAccount_merge hs, setAccount_merge hd,
    map_of_bind, map_of_ite, map_of_pure]

theorem transferChecked_merge {decimals : U8} (hs : src ∈ ks) (hm : mint ∈ ks) (hd : dst ∈ ks) :
    (t.merge ks u).transferChecked signers src mint dst authority amount decimals =
      (t.transferChecked signers src mint dst authority amount decimals).map (·.merge ks u) := by
  unfold transferChecked
  simp only [merge_account hs, merge_mint hm, transfer_merge hs hd, map_of_bind]

theorem mintTo_merge (hm : mint ∈ ks) (hd : dst ∈ ks) :
    (t.merge ks u).mintTo signers mint dst authority amount =
      (t.mintTo signers mint dst authority amount).map (·.merge ks u) := by
  unfold mintTo
  simp only [merge_account hd, merge_mint hm, setAccount_merge hd, setMint_merge hm, map_of_bind,
    map_of_pure]

theorem burn_merge (hs : src ∈ ks) (hm : mint ∈ ks) :
    (t.merge ks u).burn signers src mint authority amount =
      (t.burn signers src mint authority amount).map (·.merge ks u) := by
  unfold burn
  simp only [merge_account hs, merge_mint hm, setAccount_merge hs, setMint_merge hm, map_of_bind,
    map_of_pure]

theorem approve_merge {delegate owner : Pubkey} (hs : src ∈ ks) :
    (t.merge ks u).approve signers src delegate owner amount =
      (t.approve signers src delegate owner amount).map (·.merge ks u) := by
  unfold approve
  simp only [merge_account hs, setAccount_merge hs, map_of_bind, map_of_pure]

theorem initializeAccount_merge {owner : Pubkey} (hk : k ∈ ks) (hm : mint ∈ ks) :
    (t.merge ks u).initializeAccount k mint owner =
      (t.initializeAccount k mint owner).map (·.merge ks u) := by
  unfold initializeAccount
  simp only [merge_account hk, merge_mint hk, merge_mint hm, setAccount_merge hk, map_of_bind,
    map_of_pure]

theorem initializeMint_merge {owner : Option Pubkey} {decimals : U8} (hk : k ∈ ks) :
    (t.merge ks u).initializeMint k owner decimals =
      (t.initializeMint k owner decimals).map (·.merge ks u) := by
  unfold initializeMint
  simp only [merge_account hk, merge_mint hk, setMint_merge hk, map_of_bind, map_of_pure]

end Tokens

namespace TokenInstruction

/-- The accounts and mints an instruction names. -/
def locks : TokenInstruction → List Pubkey
  | .transfer src dst _ _ => [src, dst]
  | .mintTo mint dst _ _ => [mint, dst]
  | .burn src mint _ _ => [src, mint]
  | .approve src _ _ _ => [src]
  | .initializeAccount k mint _ => [k, mint]
  | .initializeMint k _ _ => [k]

/-- Those of them that it writes. -/
def writes : TokenInstruction → List Pubkey
  | .initializeAccount k _ _ => [k]
  | i => i.locks

open Tokens

variable {ks : Set Pubkey} {t t' u : Tokens} {signers : List Pubkey} {i : TokenInstruction}

theorem exec_merge (h : ∀ k ∈ i.locks, k ∈ ks) :
    i.exec (t.merge ks u) signers = (i.exec t signers).map (·.merge ks u) := by
  cases i with
  | transfer src dst authority amount =>
    exact transfer_merge (h src (by simp [locks])) (h dst (by simp [locks]))
  | mintTo mint dst authority amount =>
    exact mintTo_merge (h mint (by simp [locks])) (h dst (by simp [locks]))
  | burn src mint authority amount =>
    exact burn_merge (h src (by simp [locks])) (h mint (by simp [locks]))
  | approve src delegate owner amount => exact approve_merge (h src (by simp [locks]))
  | initializeAccount k mint owner =>
    exact initializeAccount_merge (h k (by simp [locks])) (h mint (by simp [locks]))
  | initializeMint k authority decimals => exact initializeMint_merge (h k (by simp [locks]))

theorem exec_kept {k : Pubkey} (h : i.exec t signers = .ok t') (hk : k ∉ i.writes) :
    t'.account k = t.account k ∧ t'.mint k = t.mint k := by
  cases i with
  | transfer src dst authority amount =>
    simp only [writes, locks, List.mem_cons, List.not_mem_nil, or_false, not_or] at hk
    exact ⟨transfer_account_of_ne h hk.1 hk.2, by rw [transfer_mint h]⟩
  | mintTo mint dst authority amount =>
    simp only [writes, locks, List.mem_cons, List.not_mem_nil, or_false, not_or] at hk
    exact ⟨mintTo_account_of_ne h hk.2, mintTo_mint_of_ne h hk.1⟩
  | burn src mint authority amount =>
    simp only [writes, locks, List.mem_cons, List.not_mem_nil, or_false, not_or] at hk
    exact ⟨burn_account_of_ne h hk.1, burn_mint_of_ne h hk.2⟩
  | approve src delegate owner amount =>
    obtain ⟨s, -, -, rfl⟩ := approve_eq_ok h
    exact ⟨setAccount_account_of_ne t _ fun he ↦ hk (he ▸ List.mem_cons_self), rfl⟩
  | initializeAccount j mint owner =>
    obtain ⟨-, -, rfl⟩ := initializeAccount_eq_ok h
    exact ⟨setAccount_account_of_ne t _ fun he ↦ hk (he ▸ List.mem_cons_self), rfl⟩
  | initializeMint j authority decimals =>
    obtain ⟨-, -, rfl⟩ := initializeMint_eq_ok h
    exact ⟨rfl, setMint_mint_of_ne t _ fun he ↦ hk (he ▸ List.mem_cons_self)⟩

end TokenInstruction

end Solana
