import CrossFluf.Fluf.Steps
import CrossFluf.Base.Run

/-!
# Pools in reachable states

What `create_pool` sets up stays set up, and nobody but a pool's own instructions signs for it.
-/

namespace FlufProgram

open Machine Solana Outcome Run

variable {d : Programs} {oc : OverflowChecks} {w w' : World} {K : Pubkey} {x : Pool}

/-- The accounts of a pool are in place. -/
structure PoolReady (d : Programs) (w : World) (K : Pubkey) (x : Pool) : Prop where
  pool_eq : K = d.pool x.poolMint
  flufMint_eq : x.flufMint = d.flufMint x.poolMint
  noAccount : w.tokens.account K = none
  distinct : x.poolMint ≠ x.flufMint
  poolMint_some : (w.tokens.mint x.poolMint).isSome
  flufMint_ok : ∃ m, w.tokens.mint x.flufMint = some m ∧ m.mintAuthority = some K
  poolAccount_ok : ∃ a, w.tokens.account (d.poolAccount x.poolMint) = some a ∧
    a.mint = x.poolMint ∧ a.owner = K
  poolFlufAccount_ok : ∃ a, w.tokens.account (d.poolFlufAccount x.poolMint) = some a ∧
    a.mint = x.flufMint ∧ a.owner = K

structure Inv (d : Programs) (w : World) : Prop where
  sound : w.tokens.Sound
  undelegated : w.tokens.Undelegated d.isDerived
  ready : ∀ K x, w.pools K = some x → PoolReady d w K x

theorem Genesis.inv (h : Genesis d w) : Inv d w where
  sound := h.sound
  undelegated := h.undelegated
  ready K x hx := by
    rw [h.pools] at hx
    cases hx

theorem PoolReady.isDerived (h : PoolReady d w K x) : d.isDerived K = true := by
  rw [h.pool_eq, d.isDerived_pool]

theorem PoolReady.preserve {signers : List Pubkey} (h : PoolReady d w K x)
    (hx : w.pools K = some x) (hs : Summary d signers w w') : PoolReady d w' K x where
  pool_eq := h.pool_eq
  flufMint_eq := h.flufMint_eq
  distinct := h.distinct
  noAccount := by
    apply hs.opened K h.noAccount h.isDerived
    intro hfree
    rw [hfree.2.1] at hx
    cases hx
  poolMint_some := by
    obtain ⟨m, hm⟩ := Option.isSome_iff_exists.mp h.poolMint_some
    obtain ⟨m', hm', -⟩ := hs.tokens.frame.mint _ m hm
    exact Option.isSome_iff_exists.mpr ⟨m', hm'⟩
  flufMint_ok := by
    obtain ⟨m, hm, ha⟩ := h.flufMint_ok
    obtain ⟨m', hm', ha', -⟩ := hs.tokens.frame.mint _ m hm
    exact ⟨m', hm', ha'.trans ha⟩
  poolAccount_ok := by
    obtain ⟨a, ha, hm, ho⟩ := h.poolAccount_ok
    obtain ⟨a', ha', hm', ho', -⟩ := hs.tokens.frame.account _ a ha
    exact ⟨a', ha', hm'.trans hm, ho'.trans ho⟩
  poolFlufAccount_ok := by
    obtain ⟨a, ha, hm, ho⟩ := h.poolFlufAccount_ok
    obtain ⟨a', ha', hm', ho', -⟩ := hs.tokens.frame.account _ a ha
    exact ⟨a', ha', hm'.trans hm, ho'.trans ho⟩

/-! ## Creation -/

section Creation

variable {a : CreatePoolAccounts} {decimals : U8} {w₂ : World}

theorem PoolCreated.loaded (h : PoolCreated d w a decimals w₂ w') :
    w'.pools a.pool = some ⟨a.poolMint, a.flufMint⟩ :=
  h.rest.pools _ _ (World.setPool_pools_self w _)

theorem PoolCreated.pools_of_ne (h : PoolCreated d w a decimals w₂ w') (hK : K ≠ a.pool) :
    w'.pools K = w.pools K := by
  obtain ⟨-, -, hw₂⟩ := initTokenAccount_eq_ok h.poolAccount_init
  obtain ⟨-, -, hw'⟩ := initTokenAccount_eq_ok h.poolFlufAccount_init
  rw [hw', hw₂]
  exact World.setPool_pools_of_ne _ _ hK

-- the mint of the pool existed before that of its shares
theorem PoolCreated.ready (h : PoolCreated d w a decimals w₂ w') :
    PoolReady d w' a.pool ⟨a.poolMint, a.flufMint⟩ := by
  obtain ⟨-, hmint, hw₂⟩ := initTokenAccount_eq_ok h.poolAccount_init
  obtain ⟨-, -, hw'⟩ := initTokenAccount_eq_ok h.poolFlufAccount_init
  have hlast : Summary d [] w₂ w' :=
    (summary_setTokens (Tokens.step_setMint_new h.flufMint_free.2.2.2) fun _ hk ↦ hk).trans
      (initTokenAccount_summary h.poolFlufAccount_init)
  refine
    { pool_eq := h.pool_eq
      flufMint_eq := h.flufMint_eq
      noAccount := ?_
      distinct := ?_
      poolMint_some := ?_
      flufMint_ok := ?_
      poolAccount_ok := ?_
      poolFlufAccount_ok := ?_ }
  · apply h.rest.opened a.pool h.pool_free.2.2.1 (h.pool_eq ▸ d.isDerived_pool _)
    intro hfree
    exact absurd hfree.2.1 (by rw [World.setPool_pools_self]; nofun)
  · intro he
    have hsame : a.poolMint = a.flufMint := he
    have hnone : w₂.tokens.mint a.poolMint = none := by rw [hsame, h.flufMint_free.2.2.2]
    rw [hw₂, World.setTokens_tokens, Tokens.setAccount_mint] at hnone
    rw [hnone] at hmint
    cases hmint
  · obtain ⟨m, hm⟩ := Option.isSome_iff_exists.mp h.poolMint_some
    obtain ⟨m', hm', -⟩ := h.summary.tokens.frame.mint _ m hm
    exact Option.isSome_iff_exists.mpr ⟨m', hm'⟩
  · refine ⟨⟨0, some a.pool, decimals⟩, ?_, rfl⟩
    rw [hw', World.setTokens_tokens, Tokens.setAccount_mint, World.setTokens_tokens,
      Tokens.setMint_mint_self]
  · have hopened : w₂.tokens.account a.poolAccount = some ⟨a.poolMint, a.pool, 0, none, 0⟩ := by
      rw [hw₂, World.setTokens_tokens, Tokens.setAccount_account_self]
    obtain ⟨y, hy, hm, ho, -⟩ := hlast.tokens.frame.account _ _ hopened
    exact ⟨y, h.poolAccount_eq ▸ hy, hm, ho⟩
  · refine ⟨⟨a.flufMint, a.pool, 0, none, 0⟩, ?_, rfl, rfl⟩
    rw [← h.poolFlufAccount_eq, hw', World.setTokens_tokens, Tokens.setAccount_account_self]

/-- A new pool holds nothing and has issued nothing. -/
theorem PoolCreated.empty (h : PoolCreated d w a decimals w₂ w') :
    w'.tokens.balance (d.poolAccount a.poolMint) = 0 ∧ w'.tokens.supply a.flufMint = 0 := by
  obtain ⟨-, -, hw₂⟩ := initTokenAccount_eq_ok h.poolAccount_init
  obtain ⟨hfree, -, hw'⟩ := initTokenAccount_eq_ok h.poolFlufAccount_init
  have hopened : w₂.tokens.account a.poolAccount = some ⟨a.poolMint, a.pool, 0, none, 0⟩ := by
    rw [hw₂, World.setTokens_tokens, Tokens.setAccount_account_self]
  have hne : a.poolAccount ≠ a.poolFlufAccount := fun he ↦ by
    have hnone : w₂.tokens.account a.poolFlufAccount = none := hfree.2.2.1
    rw [← he, hopened] at hnone
    cases hnone
  constructor
  · rw [← h.poolAccount_eq, hw', World.setTokens_tokens, Tokens.balance_setAccount_of_ne _ _ hne,
      World.setTokens_tokens, Tokens.balance_setMint, Tokens.balance_of_account hopened]
    rfl
  · rw [hw', World.setTokens_tokens, Tokens.supply_setAccount, World.setTokens_tokens,
      Tokens.supply_setMint_self]
    rfl

end Creation

theorem exec_inv {i : Instruction} (hw : Inv d w) (h : exec d oc w i = .ok w') : Inv d w' where
  sound := (exec_summary h).tokens.sound hw.sound
  undelegated := (exec_summary h).tokens.undelegated hw.undelegated
  ready K x hx := by
    cases hK : w.pools K with
    | some y =>
      have hy := (exec_summary h).pools K y hK
      rw [hx, Option.some_inj] at hy
      subst hy
      exact (hw.ready K x hK).preserve hK (exec_summary h)
    | none =>
      rcases exec_pools h with he | ⟨a, decimals, w₂, -, hc⟩
      · rw [he, hK] at hx
        cases hx
      · by_cases hk : K = a.pool
        · subst hk
          rw [hc.loaded, Option.some_inj] at hx
          exact hx ▸ hc.ready
        · rw [hc.pools_of_ne hk, hK] at hx
          cases hx

theorem reachable_inv (h : Reachable (exec d oc) (Genesis d) w) : Inv d w :=
  reachable_invariant (fun _ hg ↦ hg.inv) (fun _ _ _ hs hx ↦ exec_inv hs hx) h

/-! ## Who signs for a pool -/

/-- While a loan runs, the pool's own address still holds no token account. -/
theorem Lent.account_pool {a : LendAccounts} {amount total repaid fee burn : U64} {w₁ : World}
    {lent called charged burned : Tokens}
    (h : Lent d oc w a amount w₁ lent called charged burned total repaid fee burn w')
    (hr : PoolReady d w K x) (hx : w.pools K = some x) : lent.account K = none := by
  have hopen := (hr.preserve hx (initTokenAccountIfNeeded_summary h.opened)).noAccount
  exact Tokens.mintTo_account_none h.lent_ok hopen

/-- Without its own signature a pool's tokens and the supply of its shares change only in its
favour. -/
theorem Summary.outside {signers : List Pubkey} (hs : Summary d signers w w') (hw : Inv d w)
    (hx : w.pools K = some x) (hK : K ∉ signers) :
    w.tokens.balance (d.poolAccount x.poolMint) ≤ w'.tokens.balance (d.poolAccount x.poolMint) ∧
      w'.tokens.supply x.flufMint ≤ w.tokens.supply x.flufMint := by
  have hr := hw.ready K x hx
  obtain ⟨a, ha, -, ho⟩ := hr.poolAccount_ok
  obtain ⟨m, hm, hauth⟩ := hr.flufMint_ok
  constructor
  · have hnone := hw.undelegated _ a ha (by rw [ho, hr.isDerived])
    exact hs.tokens.balance_mono ha (ho ▸ hK) hnone
  · apply hs.tokens.supply_anti hm
    intro s hmem he
    rw [hauth, Option.some_inj] at he
    exact hK (he ▸ hmem)

/-- The instructions a pool signs in. -/
def Instruction.pool : Instruction → Option Pubkey
  | .deposit a _ => some a.pool
  | .withdraw a => some a.pool
  | .lendAndCall a _ => some a.pool
  | _ => none

-- a pool's address holds no token account, so it is not the borrower's either
theorem exec_unsigned {i : Instruction} (hw : Inv d w) (hx : w.pools K = some x)
    (h : exec d oc w i = .ok w') (hi : i.pool ≠ some K) : K ∉ i.signers := by
  have hr := hw.ready K x hx
  have hd := hr.isDerived
  have hsigner : ∀ user, d.isDerived user = false → K ≠ user := by
    intro user hu he
    rw [← he, hd] at hu
    cases hu
  cases i with
  | initializeState a => exact List.not_mem_nil
  | createPool a decimals => exact List.not_mem_nil
  | createAccounts a => exact List.not_mem_nil
  | deposit a amount =>
    obtain ⟨pa, fm, ua, fluf, paid, minted, hdep⟩ := deposit_eq_ok h
    have hpool : K ≠ a.pool := fun he ↦ hi (congrArg some he.symm)
    simp [Instruction.signers, hsigner _ hdep.access.signer, hpool]
  | withdraw a =>
    obtain ⟨pa, fm, ua, amount, burned, paid, hwd⟩ := withdraw_eq_ok.mp h
    have hpool : K ≠ a.pool := fun he ↦ hi (congrArg some he.symm)
    simp [Instruction.signers, hsigner _ hwd.access.signer, hpool]
  | lendAndCall a amount =>
    obtain ⟨w₁, lent, called, charged, burned, total, repaid, fee, burn, hl⟩ :=
      lendAndCall_eq_ok h
    have hpool : K ≠ a.pool := fun he ↦ hi (congrArg some he.symm)
    have hborrower : K ≠ a.borrowerFlufAccount := fun he ↦ by
      obtain ⟨y, hy, -⟩ := hl.called_ok.borrower_ok
      have hnone : lent.account a.borrowerFlufAccount = none := he ▸ hl.account_pool hr hx
      exact absurd (hnone.symm.trans hy) nofun
    simp [Instruction.signers, hsigner _ hl.signer, hpool, hborrower]
  | withdrawFees a => simp [Instruction.signers, hsigner _ (withdrawFees_eq_ok h).1]
  | handleBorrow a amount =>
    obtain ⟨total, t, hb, -⟩ := exec_handleBorrow h
    have hborrower : K ≠ a.borrowerAccount := fun he ↦ by
      obtain ⟨y, hy, -⟩ := hb.borrower_ok
      rw [← he, hr.noAccount] at hy
      cases hy
    simp [Instruction.signers, hsigner _ hb.signer, hborrower]
  | wallet signers i =>
    obtain ⟨hs, -⟩ := walletStep_eq_ok h
    exact fun hmem ↦ hsigner K (hs K hmem) rfl

end FlufProgram
