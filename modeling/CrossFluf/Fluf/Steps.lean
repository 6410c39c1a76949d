import CrossFluf.Fluf.Program

/-!
# What a successful instruction does

The arithmetic of the handlers in `ℕ`, what every instruction leaves in place, and one lemma for
each instruction that touches a pool.
-/

namespace FlufProgram

open Machine Solana Outcome

variable {d : Programs} {oc : OverflowChecks} {w w' w'' : World} {t t' : Tokens}

/-! ## Arithmetic -/

theorem checkSigner_eq_ok {k : Pubkey} {u : Unit} :
    checkSigner d k = .ok u ↔ d.isDerived k = false :=
  require_eq_ok

-- the product of two `u64` fits `u128` under either profile
theorem mulU128_toNat {x y : U64} {r : U128} (h : oc.mul (asU128 x) (asU128 y) = some r) :
    r.toNat = x.toNat * y.toNat := by
  have hlt := u64_mul_lt x y.isLt
  cases oc with
  | on =>
    have hr := checkedMul_eq_some.mp h
    rwa [asU128_toNat_u64, asU128_toNat_u64] at hr
  | off =>
    have hr : asU128 x * asU128 y = r := Option.some_inj.mp h
    rw [← hr, BitVec.toNat_mul, asU128_toNat_u64, asU128_toNat_u64, Nat.mod_eq_of_lt hlt]

theorem mulDiv_eq_ok {x y z r : U64} (h : mulDiv oc x y z = .ok r) :
    z.toNat ≠ 0 ∧ r.toNat = x.toNat * y.toNat / z.toNat % 2 ^ 64 := by
  simp only [mulDiv, bind_eq_ok, unwrap_eq_ok, pure_eq_ok, checkedDiv_eq_some,
    asU128_toNat_u64] at h
  obtain ⟨n, hn, q, ⟨hz, hq⟩, rfl⟩ := h
  rw [asU64_toNat, hq, mulU128_toNat hn]
  exact ⟨hz, rfl⟩

theorem mulDiv_succeeds {x y z : U64} (hz : z.toNat ≠ 0) : ∃ r, mulDiv oc x y z = .ok r := by
  have hlt := u64_mul_lt x y.isLt
  have hmul : oc.mul (asU128 x) (asU128 y) = some (asU128 x * asU128 y) := by
    cases oc with
    | on => exact if_pos (by rwa [asU128_toNat_u64, asU128_toNat_u64])
    | off => rfl
  have hdiv : checkedDiv (asU128 x * asU128 y) (asU128 z) =
      some (asU128 x * asU128 y / asU128 z) := by
    rw [checkedDiv, if_neg]
    intro he
    have hzero := congrArg BitVec.toNat he
    rw [asU128_toNat_u64] at hzero
    exact hz hzero
  refine ⟨asU64 (asU128 x * asU128 y / asU128 z), ?_⟩
  simp only [mulDiv, bind_eq_ok, unwrap_eq_ok, pure_eq_ok]
  exact ⟨_, hmul, _, hdiv, rfl⟩

/-- With overflow checks the repayment is exact. -/
theorem totalRepayment_on {amount r : U64} (h : totalRepayment .on amount = .ok r) :
    r.toNat = amount.toNat + amount.toNat * 25 / 1000 := by
  simp only [totalRepayment, bind_eq_ok, unwrap_eq_ok] at h
  obtain ⟨product, hp, hr⟩ := h
  have hproduct := checkedMul_eq_some.mp hp
  have htotal := checkedAdd_eq_some.mp hr
  rw [BitVec.toNat_udiv, hproduct] at htotal
  exact htotal

/-- Without them it wraps twice. -/
theorem totalRepayment_off {amount r : U64} (h : totalRepayment .off amount = .ok r) :
    r.toNat = (amount.toNat + amount.toNat * 25 % 2 ^ 64 / 1000) % 2 ^ 64 := by
  simp only [totalRepayment, bind_eq_ok, unwrap_eq_ok] at h
  obtain ⟨product, hp, hr⟩ := h
  have hproduct : amount * 25 = product := Option.some_inj.mp hp
  have htotal : amount + product / 1000 = r := Option.some_inj.mp hr
  rw [← htotal, BitVec.toNat_add, BitVec.toNat_udiv, ← hproduct, BitVec.toNat_mul]
  rfl

theorem splitRepayment_on {repaid amount fee burn : U64}
    (h : splitRepayment .on repaid amount = .ok (fee, burn)) :
    amount.toNat * 1025 / 1000 ≤ repaid.toNat ∧ amount.toNat ≤ repaid.toNat ∧
      fee.toNat = (repaid.toNat - amount.toNat) / 200 ∧
      repaid.toNat = fee.toNat + burn.toNat := by
  simp only [splitRepayment, bind_eq_ok, unwrap_eq_ok, require_eq_ok, pure_eq_ok, Prod.mk.injEq,
    exists_const] at h
  obtain ⟨due, hdue, hle, fees, hfees, b, hb, rfl, rfl⟩ := h
  have hd := checkedMul_eq_some.mp hdue
  have hf := checkedSub_eq_some.mp hfees
  have hburn := checkedSub_eq_some.mp hb
  rw [BitVec.toNat_udiv, hd] at hle
  have hfee : (fees / 200).toNat = (repaid.toNat - amount.toNat) / 200 := by
    rw [BitVec.toNat_udiv, hf, Nat.add_sub_cancel_left]
    rfl
  exact ⟨hle, by omega, hfee, hburn⟩

theorem splitRepayment_off {repaid amount fee burn : U64} (hle : amount.toNat ≤ repaid.toNat)
    (h : splitRepayment .off repaid amount = .ok (fee, burn)) :
    fee.toNat = (repaid.toNat - amount.toNat) / 200 ∧ repaid.toNat = fee.toNat + burn.toNat := by
  simp only [splitRepayment, bind_eq_ok, unwrap_eq_ok, require_eq_ok, pure_eq_ok, Prod.mk.injEq,
    exists_const] at h
  obtain ⟨due, -, -, fees, hfees, b, hb, rfl, rfl⟩ := h
  have hf : repaid - amount = fees := Option.some_inj.mp hfees
  have hburn : repaid - fees / 200 = b := Option.some_inj.mp hb
  have hfee : (fees / 200).toNat = (repaid.toNat - amount.toNat) / 200 := by
    rw [BitVec.toNat_udiv, ← hf, sub_toNat_of_le hle]
    rfl
  have hfit : (fees / 200).toNat ≤ repaid.toNat := by omega
  refine ⟨hfee, ?_⟩
  rw [← hburn, sub_toNat_of_le hfit]
  omega

-- a repayment that covers the loan is split alike with and without the checks
theorem splitRepayment_of_le {repaid amount fee burn : U64} (hle : amount.toNat ≤ repaid.toNat)
    (h : splitRepayment oc repaid amount = .ok (fee, burn)) :
    fee.toNat = (repaid.toNat - amount.toNat) / 200 ∧ repaid.toNat = fee.toNat + burn.toNat := by
  cases oc with
  | on => exact (splitRepayment_on h).2.2
  | off => exact splitRepayment_off hle h

/-! ## What stays in place -/

/-- The addresses an instruction carries signatures of into the token program. -/
def Instruction.signers : Instruction → List Pubkey
  | .deposit a _ => [a.user, a.pool]
  | .withdraw a => [a.user, a.pool]
  | .lendAndCall a _ => [a.user, a.pool, a.borrowerFlufAccount]
  | .withdrawFees a => [a.user]
  | .handleBorrow a _ => [a.user, a.borrowerAccount]
  | .wallet signers _ => signers
  | _ => []

/-- States, pools, mints and token accounts persist, the ledger changes under `signers`, and a
token account appears only at a free address or at one a wallet signs for. -/
structure Summary (d : Programs) (signers : List Pubkey) (w w' : World) : Prop where
  tokens : Tokens.Step d.isDerived signers w.tokens w'.tokens
  states : ∀ k x, w.states k = some x → w'.states k = some x
  pools : ∀ k x, w.pools k = some x → w'.pools k = some x
  opened : ∀ k, w.tokens.account k = none → d.isDerived k = true → ¬ w.Free k →
    w'.tokens.account k = none

variable {signers : List Pubkey}

theorem Summary.refl (d : Programs) (signers : List Pubkey) (w : World) : Summary d signers w w :=
  ⟨.refl _ _ _, fun _ _ h ↦ h, fun _ _ h ↦ h, fun _ h _ _ ↦ h⟩

theorem Summary.free (h : Summary d signers w w') {k : Pubkey} (hk : w'.Free k) : w.Free k := by
  refine ⟨?_, ?_, ?_, ?_⟩
  · cases hs : w.states k with
    | none => rfl
    | some x => exact absurd (h.states k x hs) (by rw [hk.1]; nofun)
  · cases hp : w.pools k with
    | none => rfl
    | some x => exact absurd (h.pools k x hp) (by rw [hk.2.1]; nofun)
  · cases ha : w.tokens.account k with
    | none => rfl
    | some a =>
      obtain ⟨a', ha', -⟩ := h.tokens.frame.account k a ha
      exact absurd ha' (by rw [hk.2.2.1]; nofun)
  · cases hm : w.tokens.mint k with
    | none => rfl
    | some m =>
      obtain ⟨m', hm', -⟩ := h.tokens.frame.mint k m hm
      exact absurd hm' (by rw [hk.2.2.2]; nofun)

theorem Summary.trans (h : Summary d signers w w') (h' : Summary d signers w' w'') :
    Summary d signers w w'' where
  tokens := h.tokens.trans h'.tokens
  states k x hx := h'.states k x (h.states k x hx)
  pools k x hx := h'.pools k x (h.pools k x hx)
  opened k hk hd hf := h'.opened k (h.opened k hk hd hf) hd fun hfree ↦ hf (h.free hfree)

-- token calls open nothing
theorem summary_setTokens (ht : Tokens.Step d.isDerived signers w.tokens t)
    (ho : ∀ k, w.tokens.account k = none → t.account k = none) :
    Summary d signers w (w.setTokens t) :=
  ⟨ht, fun _ _ h ↦ h, fun _ _ h ↦ h, fun k hk _ _ ↦ ho k hk⟩

theorem initTokenAccount_eq_ok {k mint owner : Pubkey}
    (h : initTokenAccount w k mint owner = .ok w') :
    w.Free k ∧ (w.tokens.mint mint).isSome ∧
      w' = w.setTokens (w.tokens.setAccount k ⟨mint, owner, 0, none, 0⟩) := by
  simp only [initTokenAccount, bind_eq_ok, require_eq_ok, pure_eq_ok, exists_const] at h
  exact ⟨h.1, h.2.1, h.2.2.symm⟩

theorem initTokenAccount_summary {k mint owner : Pubkey}
    (h : initTokenAccount w k mint owner = .ok w') : Summary d [] w w' := by
  obtain ⟨hfree, -, rfl⟩ := initTokenAccount_eq_ok h
  refine ⟨Tokens.step_setAccount_new hfree.2.2.1 rfl rfl, fun _ _ h ↦ h, fun _ _ h ↦ h, ?_⟩
  intro j hj _ hf
  have hne : j ≠ k := fun he ↦ hf (he ▸ hfree)
  exact (Tokens.setAccount_account_of_ne _ _ hne).trans hj

theorem initTokenAccountIfNeeded_summary {k mint owner : Pubkey}
    (h : initTokenAccountIfNeeded w k mint owner = .ok w') : Summary d [] w w' := by
  rw [initTokenAccountIfNeeded] at h
  split at h
  · simp only [bind_eq_ok, pure_eq_ok] at h
    obtain ⟨_, -, rfl⟩ := h
    exact .refl _ _ _
  · exact initTokenAccount_summary h

/-- Opening an account on demand writes no pool, no mint and no other account. -/
theorem initTokenAccountIfNeeded_same {k mint owner : Pubkey}
    (h : initTokenAccountIfNeeded w k mint owner = .ok w') :
    w'.pools = w.pools ∧ w'.tokens.mint = w.tokens.mint ∧
      ∀ j, j ≠ k → w'.tokens.account j = w.tokens.account j := by
  rw [initTokenAccountIfNeeded] at h
  split at h
  · simp only [bind_eq_ok, pure_eq_ok] at h
    obtain ⟨_, -, rfl⟩ := h
    exact ⟨rfl, rfl, fun _ _ ↦ rfl⟩
  · obtain ⟨-, -, rfl⟩ := initTokenAccount_eq_ok h
    exact ⟨rfl, rfl, fun _ hj ↦ Tokens.setAccount_account_of_ne _ _ hj⟩

theorem initTokenAccountIfNeeded_account {k mint owner : Pubkey}
    (h : initTokenAccountIfNeeded w k mint owner = .ok w') :
    ∃ a, w'.tokens.account k = some a ∧ a.mint = mint ∧ a.owner = owner := by
  rw [initTokenAccountIfNeeded] at h
  split at h
  · simp only [bind_eq_ok, pure_eq_ok, loadTokenAccount_eq_ok] at h
    obtain ⟨a, ha, rfl⟩ := h
    exact ⟨a, ha⟩
  · obtain ⟨-, -, rfl⟩ := initTokenAccount_eq_ok h
    exact ⟨_, Tokens.setAccount_account_self _ _ _, rfl, rfl⟩

-- a new account is empty
theorem initTokenAccountIfNeeded_balance {k mint owner : Pubkey}
    (h : initTokenAccountIfNeeded w k mint owner = .ok w') (j : Pubkey) :
    w'.tokens.balance j = w.tokens.balance j := by
  rw [initTokenAccountIfNeeded] at h
  split at h
  · simp only [bind_eq_ok, pure_eq_ok] at h
    obtain ⟨_, -, rfl⟩ := h
    rfl
  · obtain ⟨hfree, -, rfl⟩ := initTokenAccount_eq_ok h
    rw [World.setTokens_tokens]
    by_cases hj : j = k
    · rw [hj, Tokens.balance_setAccount_self, Tokens.balance, hfree.2.2.1]
      rfl
    · exact Tokens.balance_setAccount_of_ne _ _ hj

/-! ## Account checks -/

theorem loadPool_eq_ok {pool poolMint flufMint : Pubkey} {u : Unit} :
    loadPool w pool poolMint flufMint = .ok u ↔ w.pools pool = some ⟨poolMint, flufMint⟩ := by
  simp only [loadPool, bind_eq_ok, orElse_eq_ok, require_eq_ok, exists_const]
  constructor
  · rintro ⟨⟨m, f⟩, hx, hm, hf⟩
    exact hm ▸ hf ▸ hx
  · intro hx
    exact ⟨_, hx, rfl, rfl⟩

theorem loadFlufMint_eq_ok {pool poolMint flufMint : Pubkey} {x : Mint} :
    loadFlufMint d w pool poolMint flufMint = .ok x ↔
      flufMint = d.flufMint poolMint ∧ w.tokens.mint flufMint = some x ∧
        x.mintAuthority = some pool := by
  simp only [loadFlufMint, bind_eq_ok, orElse_eq_ok, require_eq_ok, pure_eq_ok, exists_const]
  constructor
  · rintro ⟨hf, x', hx, ha, rfl⟩
    exact ⟨hf, hx, ha⟩
  · rintro ⟨hf, hx, ha⟩
    exact ⟨hf, x, hx, ha, rfl⟩

/-- The accounts of a deposit or of a withdrawal that pass their checks. -/
structure PoolAccess (d : Programs) (w : World) (a : PoolAccounts) (poolAccount : TokenAccount)
    (flufMint : Mint) (userFlufAccount : TokenAccount) : Prop where
  signer : d.isDerived a.user = false
  pool_eq : a.pool = d.pool a.poolMint
  poolMint_some : (w.tokens.mint a.poolMint).isSome
  poolAccount_eq : a.poolAccount = d.poolAccount a.poolMint
  poolAccount_ok : w.tokens.account a.poolAccount = some poolAccount ∧
    poolAccount.mint = a.poolMint ∧ poolAccount.owner = a.pool
  userAccount_ok : ∃ x, w.tokens.account a.userAccount = some x ∧ x.mint = a.poolMint ∧
    x.owner = a.user
  flufMint_ok : a.flufMint = d.flufMint a.poolMint ∧ w.tokens.mint a.flufMint = some flufMint ∧
    flufMint.mintAuthority = some a.pool
  poolFlufAccount_eq : a.poolFlufAccount = d.poolFlufAccount a.poolMint
  poolFlufAccount_ok : ∃ x, w.tokens.account a.poolFlufAccount = some x ∧ x.mint = a.flufMint ∧
    x.owner = a.pool
  userFlufAccount_ok : w.tokens.account a.userFlufAccount = some userFlufAccount ∧
    userFlufAccount.mint = a.flufMint ∧ userFlufAccount.owner = a.user
  loaded : w.pools a.pool = some ⟨a.poolMint, a.flufMint⟩

theorem checkPoolAccounts_eq_ok {a : PoolAccounts} {pa ua : TokenAccount} {fm : Mint} :
    checkPoolAccounts d w a = .ok (pa, fm, ua) ↔ PoolAccess d w a pa fm ua := by
  simp only [checkPoolAccounts, bind_eq_ok, checkSigner_eq_ok, require_eq_ok, exists_const,
    loadTokenAccount_eq_ok, loadFlufMint_eq_ok, loadPool_eq_ok, pure_eq_ok, Prod.mk.injEq]
  constructor
  · rintro ⟨hs, hp, hm, hpa, pa', hpok, x, hx, fm', hfm, hpf, y, hy, ua', hua, hl, rfl, rfl, rfl⟩
    exact ⟨hs, hp, hm, hpa, hpok, ⟨x, hx⟩, hfm, hpf, ⟨y, hy⟩, hua, hl⟩
  · intro h
    obtain ⟨x, hx⟩ := h.userAccount_ok
    obtain ⟨y, hy⟩ := h.poolFlufAccount_ok
    exact ⟨h.signer, h.pool_eq, h.poolMint_some, h.poolAccount_eq, pa, h.poolAccount_ok, x, hx,
      fm, h.flufMint_ok, h.poolFlufAccount_eq, y, hy, ua, h.userFlufAccount_ok, h.loaded, rfl,
      rfl, rfl⟩

/-! ## The instructions -/

structure Deposited (d : Programs) (oc : OverflowChecks) (w : World) (a : PoolAccounts)
    (amount : U64) (pa : TokenAccount) (fm : Mint) (ua : TokenAccount) (fluf : U64)
    (paid minted : Tokens) (w' : World) : Prop where
  access : PoolAccess d w a pa fm ua
  fluf_ok : amountFluf oc pa.amount fm.supply amount = .ok fluf
  paid_ok : w.tokens.transfer [a.user] a.userAccount a.poolAccount a.user amount = .ok paid
  minted_ok : paid.mintTo [a.user, a.pool] a.flufMint a.userFlufAccount a.pool fluf = .ok minted
  world : w' = w.setTokens minted

theorem deposit_eq_ok {a : PoolAccounts} {amount : U64} (h : deposit d oc w a amount = .ok w') :
    ∃ pa fm ua fluf paid minted, Deposited d oc w a amount pa fm ua fluf paid minted w' := by
  simp only [deposit, bind_eq_ok, mapError_eq_ok, pure_eq_ok] at h
  obtain ⟨⟨pa, fm, ua⟩, hc, fluf, hf, paid, hp, minted, hm, rfl⟩ := h
  exact ⟨pa, fm, ua, fluf, paid, minted, checkPoolAccounts_eq_ok.mp hc, hf, hp, hm, rfl⟩

structure Withdrawn (d : Programs) (oc : OverflowChecks) (w : World) (a : PoolAccounts)
    (pa : TokenAccount) (fm : Mint) (ua : TokenAccount) (amount : U64) (burned paid : Tokens)
    (w' : World) : Prop where
  access : PoolAccess d w a pa fm ua
  amount_ok : amountPool oc pa.amount fm.supply ua.amount = .ok amount
  burned_ok : w.tokens.burn [a.user] a.userFlufAccount a.flufMint a.user ua.amount = .ok burned
  paid_ok : burned.transfer [a.user, a.pool] a.poolAccount a.userAccount a.pool amount = .ok paid
  world : w' = w.setTokens paid

theorem withdraw_eq_ok {a : PoolAccounts} :
    withdraw d oc w a = .ok w' ↔
      ∃ pa fm ua amount burned paid, Withdrawn d oc w a pa fm ua amount burned paid w' := by
  simp only [withdraw, bind_eq_ok, mapError_eq_ok, pure_eq_ok]
  constructor
  · rintro ⟨⟨pa, fm, ua⟩, hc, amount, ha, burned, hb, paid, hp, rfl⟩
    exact ⟨pa, fm, ua, amount, burned, paid, checkPoolAccounts_eq_ok.mp hc, ha, hb, hp, rfl⟩
  · rintro ⟨pa, fm, ua, amount, burned, paid, h⟩
    exact ⟨(pa, fm, ua), checkPoolAccounts_eq_ok.mpr h.access, amount, h.amount_ok, burned,
      h.burned_ok, paid, h.paid_ok, h.world.symm⟩

structure Borrowed (d : Programs) (oc : OverflowChecks) (t : Tokens) (a : HandleBorrowAccounts)
    (amount total : U64) (t' : Tokens) : Prop where
  signer : d.isDerived a.user = false
  borrower_eq : a.borrowerAccount = d.borrowerAccount a.mint
  borrower_ok : ∃ x, t.account a.borrowerAccount = some x ∧ x.mint = a.mint ∧
    x.owner = a.borrowerAccount
  total_ok : totalRepayment oc amount = .ok total
  moved : t.transfer [a.user, a.borrowerAccount] a.borrowerAccount a.lenderAccount
    a.borrowerAccount total = .ok t'

theorem handleBorrow_eq_ok {a : HandleBorrowAccounts} {amount : U64}
    (h : handleBorrow d oc t a amount = .ok t') :
    ∃ total, Borrowed d oc t a amount total t' := by
  simp only [handleBorrow, bind_eq_ok, checkSigner_eq_ok, require_eq_ok, exists_const,
    loadTokenAccount_eq_ok, mapError_eq_ok] at h
  obtain ⟨hs, hb, x, hx, -, -, -, total, ht, -, hm⟩ := h
  exact ⟨total, hs, hb, ⟨x, hx⟩, ht, hm⟩

structure Lent (d : Programs) (oc : OverflowChecks) (w : World) (a : LendAccounts) (amount : U64)
    (w₁ : World) (lent called charged burned : Tokens) (total repaid fee burn : U64)
    (w' : World) : Prop where
  signer : d.isDerived a.user = false
  pool_eq : a.pool = d.pool a.poolMint
  loaded : w.pools a.pool = some ⟨a.poolMint, a.flufMint⟩
  poolAccount_eq : a.poolAccount = d.poolAccount a.poolMint
  opened : initTokenAccountIfNeeded w a.feeAccount a.flufMint a.pool = .ok w₁
  lent_ok : w₁.tokens.mintTo [a.user, a.pool] a.flufMint a.borrowerFlufAccount a.pool amount =
    .ok lent
  called_ok : Borrowed d oc lent a.handleBorrow amount total called
  repaid_ok : ∃ x, called.account a.poolFlufAccount = some x ∧ x.amount = repaid
  split_ok : splitRepayment oc repaid amount = .ok (fee, burn)
  charged_ok : called.transfer [a.user, a.pool] a.poolFlufAccount a.feeAccount a.pool fee =
    .ok charged
  burned_ok : charged.burn [a.user, a.pool] a.poolFlufAccount a.flufMint a.pool burn = .ok burned
  world : w' = w₁.setTokens burned

-- also with the state in which the borrower has paid back
theorem lendAndCall_repaid {a : LendAccounts} {amount : U64}
    (h : lendAndCall d oc w a amount = .ok w') :
    ∃ w₁ lent called charged burned total repaid fee burn,
      lendAndRepay d oc w a amount = .ok (w₁, called) ∧
        Lent d oc w a amount w₁ lent called charged burned total repaid fee burn w' := by
  simp only [lendAndCall, bind_eq_ok, mapError_eq_ok, orElse_eq_ok, pure_eq_ok] at h
  obtain ⟨⟨w₀, called₀⟩, hrepaid, x, hx, ⟨fee, burn⟩, hsplit, charged, hcharged, burned, hburned,
    rfl⟩ := h
  have hparts := hrepaid
  simp only [lendAndRepay, bind_eq_ok, require_eq_ok, exists_const, mapError_eq_ok, pure_eq_ok]
    at hparts
  obtain ⟨⟨pa, w₁⟩, hcheck, -, lent, hlent, called, hc, hsame⟩ := hparts
  obtain ⟨rfl, rfl⟩ := Prod.mk.inj hsame
  simp only [checkLendAccounts, bind_eq_ok, checkSigner_eq_ok, require_eq_ok, exists_const,
    loadTokenAccount_eq_ok, loadFlufMint_eq_ok, loadPool_eq_ok, pure_eq_ok] at hcheck
  obtain ⟨hs, hp, -, hpa, pa', -, -, -, -, -, -, -, w₁', ho, hl, he⟩ := hcheck
  obtain ⟨rfl, rfl⟩ := Prod.mk.inj he
  obtain ⟨total, hb⟩ := handleBorrow_eq_ok hc
  exact ⟨w₁', lent, called, charged, burned, total, x.amount, fee, burn, hrepaid, hs, hp, hl, hpa,
    ho, hlent, hb, ⟨x, hx, rfl⟩, hsplit, hcharged, hburned, rfl⟩

theorem lendAndCall_eq_ok {a : LendAccounts} {amount : U64}
    (h : lendAndCall d oc w a amount = .ok w') :
    ∃ w₁ lent called charged burned total repaid fee burn,
      Lent d oc w a amount w₁ lent called charged burned total repaid fee burn w' := by
  obtain ⟨w₁, lent, called, charged, burned, total, repaid, fee, burn, -, hl⟩ :=
    lendAndCall_repaid h
  exact ⟨w₁, lent, called, charged, burned, total, repaid, fee, burn, hl⟩

structure PoolCreated (d : Programs) (w : World) (a : CreatePoolAccounts) (decimals : U8)
    (w₂ w' : World) : Prop where
  pool_eq : a.pool = d.pool a.poolMint
  pool_free : w.Free a.pool
  poolMint_some : (w.tokens.mint a.poolMint).isSome
  poolAccount_eq : a.poolAccount = d.poolAccount a.poolMint
  poolAccount_init : initTokenAccount (w.setPool a.pool ⟨a.poolMint, a.flufMint⟩) a.poolAccount
    a.poolMint a.pool = .ok w₂
  flufMint_eq : a.flufMint = d.flufMint a.poolMint
  flufMint_free : w₂.Free a.flufMint
  poolFlufAccount_eq : a.poolFlufAccount = d.poolFlufAccount a.poolMint
  poolFlufAccount_init : initTokenAccount
    (w₂.setTokens (w₂.tokens.setMint a.flufMint ⟨0, some a.pool, decimals⟩)) a.poolFlufAccount
    a.flufMint a.pool = .ok w'

theorem createPool_eq_ok {a : CreatePoolAccounts} {decimals : U8}
    (h : createPool d w a decimals = .ok w') : ∃ w₂, PoolCreated d w a decimals w₂ w' := by
  simp only [createPool, bind_eq_ok, checkSigner_eq_ok, require_eq_ok, exists_const,
    orElse_eq_ok, pure_eq_ok] at h
  obtain ⟨-, hp, hpf, m, hm, hpa, w₂, hw₂, hf, hff, hpfa, w₄, hw₄, -, rfl⟩ := h
  exact ⟨w₂, hp, hpf, Option.isSome_iff_exists.mpr ⟨m, hm⟩, hpa, hw₂, hf, hff, hpfa, hw₄⟩

/-- The transfer of `withdraw_fees` carries no signature but the caller's. -/
theorem withdrawFees_eq_ok {a : WithdrawFeesAccounts} (h : withdrawFees d w a = .ok w') :
    d.isDerived a.user = false ∧ ∃ fees paid, w.tokens.account a.feeAccount = some fees ∧
      w.tokens.transfer [a.user] a.feeAccount a.collectorAccount a.pool fees.amount = .ok paid ∧
      w' = w.setTokens paid := by
  simp only [withdrawFees, bind_eq_ok, checkSigner_eq_ok, require_eq_ok, exists_const,
    orElse_eq_ok, loadTokenAccount_eq_ok, mapError_eq_ok, pure_eq_ok] at h
  obtain ⟨hs, -, _, -, -, _, -, -, -, -, -, fees, ⟨hfees, -⟩, -, -, -, paid, hp, rfl⟩ := h
  exact ⟨hs, fees, paid, hfees, hp, rfl⟩

theorem createAccounts_eq_ok {a : CreateAccountsAccounts} (h : createAccounts d w a = .ok w') :
    initTokenAccountIfNeeded w a.borrowerAccount a.mint a.borrowerAccount = .ok w' := by
  simp only [createAccounts, bind_eq_ok, require_eq_ok, exists_const] at h
  obtain ⟨-, -, -, -, hw⟩ := h
  exact hw

theorem initializeState_eq_ok {a : InitializeAccounts} (h : initializeState d w a = .ok w') :
    w.Free a.state ∧ w' = w.setState a.state ⟨a.deployer⟩ := by
  simp only [initializeState, bind_eq_ok, require_eq_ok, pure_eq_ok, exists_const] at h
  obtain ⟨-, -, -, hfree, rfl⟩ := h
  exact ⟨hfree, rfl⟩

theorem exec_handleBorrow {a : HandleBorrowAccounts} {amount : U64}
    (h : exec d oc w (.handleBorrow a amount) = .ok w') :
    ∃ total t, Borrowed d oc w.tokens a amount total t ∧ w' = w.setTokens t := by
  simp only [exec, bind_eq_ok, pure_eq_ok] at h
  obtain ⟨t, ht, rfl⟩ := h
  obtain ⟨total, hb⟩ := handleBorrow_eq_ok ht
  exact ⟨total, t, hb, rfl⟩

/-- The wallets' signatures never include a derived address. -/
theorem walletStep_eq_ok {signers : List Pubkey} {i : TokenInstruction}
    (h : walletStep d w signers i = .ok w') :
    (∀ s ∈ signers, d.isDerived s = false) ∧ (∀ k, i.created = some k → d.isDerived k = false) ∧
      ∃ t, i.exec w.tokens signers = .ok t ∧ w' = w.setTokens t := by
  simp only [walletStep, bind_eq_ok, require_eq_ok, exists_const, mapError_eq_ok,
    pure_eq_ok] at h
  obtain ⟨hs, hc, t, ht, rfl⟩ := h
  refine ⟨?_, ?_, t, ht, rfl⟩
  · intro s hmem
    simpa using List.all_eq_true.mp hs s hmem
  · intro k hk
    rw [hk] at hc
    simpa using hc

/-! ## Signatures -/

theorem Deposited.summary {a : PoolAccounts} {amount fluf : U64} {pa ua : TokenAccount}
    {fm : Mint} {paid minted : Tokens}
    (h : Deposited d oc w a amount pa fm ua fluf paid minted w') :
    Summary d [a.user, a.pool] w w' := by
  rw [h.world]
  apply summary_setTokens
  · have hpaid := Tokens.transfer_step (P := d.isDerived) h.paid_ok
    exact (hpaid.mono (by simp)).trans (Tokens.mintTo_step h.minted_ok)
  · intro k hk
    exact Tokens.mintTo_account_none h.minted_ok (Tokens.transfer_account_none h.paid_ok hk)

theorem Withdrawn.summary {a : PoolAccounts} {amount : U64} {pa ua : TokenAccount} {fm : Mint}
    {burned paid : Tokens} (h : Withdrawn d oc w a pa fm ua amount burned paid w') :
    Summary d [a.user, a.pool] w w' := by
  rw [h.world]
  apply summary_setTokens
  · have hburned := Tokens.burn_step (P := d.isDerived) h.burned_ok
    exact (hburned.mono (by simp)).trans (Tokens.transfer_step h.paid_ok)
  · intro k hk
    exact Tokens.transfer_account_none h.paid_ok (Tokens.burn_account_none h.burned_ok hk)

section Loan

variable {a : LendAccounts} {amount total repaid fee burn : U64} {w₁ : World}
  {lent called charged burned : Tokens}

theorem Lent.lent_step
    (h : Lent d oc w a amount w₁ lent called charged burned total repaid fee burn w') :
    Tokens.Step d.isDerived [a.user, a.pool, a.borrowerFlufAccount] w.tokens lent := by
  have hopen := (initTokenAccountIfNeeded_summary (d := d) h.opened).tokens
  have hlent := Tokens.mintTo_step (P := d.isDerived) h.lent_ok
  exact (hopen.mono (by simp)).trans (hlent.mono (by simp))

theorem Lent.charged_step
    (h : Lent d oc w a amount w₁ lent called charged burned total repaid fee burn w') :
    Tokens.Step d.isDerived [a.user, a.pool, a.borrowerFlufAccount] lent charged := by
  have hcalled := Tokens.transfer_step (P := d.isDerived) h.called_ok.moved
  have hcharged := Tokens.transfer_step (P := d.isDerived) h.charged_ok
  refine (hcalled.mono ?_).trans (hcharged.mono (by simp))
  intro s hs
  rcases List.mem_cons.mp hs with rfl | hs
  · exact List.mem_cons_self
  · exact List.mem_cons_of_mem _ (List.mem_cons_of_mem _ hs)

theorem Lent.summary
    (h : Lent d oc w a amount w₁ lent called charged burned total repaid fee burn w') :
    Summary d [a.user, a.pool, a.borrowerFlufAccount] w w' := by
  have hopen := initTokenAccountIfNeeded_summary (d := d) h.opened
  have hburned := Tokens.burn_step (P := d.isDerived) h.burned_ok
  rw [h.world]
  refine ⟨?_, hopen.states, hopen.pools, ?_⟩
  · exact (h.lent_step.trans h.charged_step).trans (hburned.mono (by simp))
  · intro k hk hd hf
    apply Tokens.burn_account_none h.burned_ok
    apply Tokens.transfer_account_none h.charged_ok
    apply Tokens.transfer_account_none h.called_ok.moved
    exact Tokens.mintTo_account_none h.lent_ok (hopen.opened k hk hd hf)

/-- A loan mints its amount and burns what is left of the repayment after the fee. -/
theorem Lent.supply
    (h : Lent d oc w a amount w₁ lent called charged burned total repaid fee burn w') :
    w'.tokens.supply a.flufMint + burn.toNat = w.tokens.supply a.flufMint + amount.toNat := by
  have hopen : w₁.tokens.supply a.flufMint = w.tokens.supply a.flufMint := by
    rw [Tokens.supply, Tokens.supply, (initTokenAccountIfNeeded_same h.opened).2.1]
  have hlent := Tokens.mintTo_supply h.lent_ok
  have hcalled := Tokens.transfer_supply h.called_ok.moved a.flufMint
  have hcharged := Tokens.transfer_supply h.charged_ok a.flufMint
  have hburned := Tokens.burn_supply h.burned_ok
  rw [h.world, World.setTokens_tokens]
  omega

end Loan

-- from the moment the pool is written
theorem PoolCreated.rest {a : CreatePoolAccounts} {decimals : U8} {w₂ : World}
    (h : PoolCreated d w a decimals w₂ w') :
    Summary d [] (w.setPool a.pool ⟨a.poolMint, a.flufMint⟩) w' := by
  have hmint : Summary d [] w₂
      (w₂.setTokens (w₂.tokens.setMint a.flufMint ⟨0, some a.pool, decimals⟩)) :=
    summary_setTokens (Tokens.step_setMint_new h.flufMint_free.2.2.2) fun _ hk ↦ hk
  exact (initTokenAccount_summary h.poolAccount_init).trans
    (hmint.trans (initTokenAccount_summary h.poolFlufAccount_init))

theorem PoolCreated.summary {a : CreatePoolAccounts} {decimals : U8} {w₂ : World}
    (h : PoolCreated d w a decimals w₂ w') : Summary d [] w w' := by
  have hpool : Summary d [] w (w.setPool a.pool ⟨a.poolMint, a.flufMint⟩) := by
    refine ⟨.refl _ _ _, fun _ _ hk ↦ hk, ?_, fun _ hk _ _ ↦ hk⟩
    intro k x hk
    have hne : k ≠ a.pool := fun he ↦ by
      rw [he, h.pool_free.2.1] at hk
      cases hk
    rw [World.setPool_pools_of_ne _ _ hne, hk]
  exact hpool.trans h.rest

theorem handleBorrow_summary {a : HandleBorrowAccounts} {amount total : U64}
    (h : Borrowed d oc w.tokens a amount total t) :
    Summary d [a.user, a.borrowerAccount] w (w.setTokens t) :=
  summary_setTokens (Tokens.transfer_step h.moved) fun _ hk ↦
    Tokens.transfer_account_none h.moved hk

theorem withdrawFees_summary {a : WithdrawFeesAccounts} (h : withdrawFees d w a = .ok w') :
    Summary d [a.user] w w' := by
  obtain ⟨-, fees, paid, -, hp, rfl⟩ := withdrawFees_eq_ok h
  exact summary_setTokens (Tokens.transfer_step hp) fun _ hk ↦ Tokens.transfer_account_none hp hk

theorem createAccounts_summary {a : CreateAccountsAccounts}
    (h : createAccounts d w a = .ok w') : Summary d [] w w' :=
  initTokenAccountIfNeeded_summary (createAccounts_eq_ok h)

theorem initializeState_summary {a : InitializeAccounts}
    (h : initializeState d w a = .ok w') : Summary d [] w w' := by
  obtain ⟨hfree, rfl⟩ := initializeState_eq_ok h
  refine ⟨.refl _ _ _, ?_, fun _ _ hk ↦ hk, fun _ hk _ _ ↦ hk⟩
  intro k x hk
  have hne : k ≠ a.state := fun he ↦ by
    rw [he, hfree.1] at hk
    cases hk
  exact (Function.update_of_ne hne _ _).trans hk

theorem walletStep_summary {i : TokenInstruction} (h : walletStep d w signers i = .ok w') :
    Summary d signers w w' := by
  obtain ⟨hs, hc, t, ht, rfl⟩ := walletStep_eq_ok h
  refine ⟨Tokens.exec_step hs ht, fun _ _ hk ↦ hk, fun _ _ hk ↦ hk, ?_⟩
  intro k hk hd _
  refine Tokens.exec_account_none hk (fun he ↦ ?_) ht
  rw [hc k he] at hd
  cases hd

theorem exec_summary {i : Instruction} (h : exec d oc w i = .ok w') :
    Summary d i.signers w w' := by
  cases i with
  | initializeState a => exact initializeState_summary h
  | createPool a decimals =>
    obtain ⟨w₂, hc⟩ := createPool_eq_ok h
    exact hc.summary
  | deposit a amount =>
    obtain ⟨pa, fm, ua, fluf, paid, minted, hd⟩ := deposit_eq_ok h
    exact hd.summary
  | withdraw a =>
    obtain ⟨pa, fm, ua, amount, burned, paid, hx⟩ := withdraw_eq_ok.mp h
    exact hx.summary
  | lendAndCall a amount =>
    obtain ⟨w₁, lent, called, charged, burned, total, repaid, fee, burn, hl⟩ :=
      lendAndCall_eq_ok h
    exact hl.summary
  | withdrawFees a => exact withdrawFees_summary h
  | createAccounts a => exact createAccounts_summary h
  | handleBorrow a amount =>
    obtain ⟨total, t, hb, rfl⟩ := exec_handleBorrow h
    exact handleBorrow_summary hb
  | wallet signers i => exact walletStep_summary h

/-! ## Pools -/

/-- Only `create_pool` writes a pool. -/
theorem exec_pools {i : Instruction} (h : exec d oc w i = .ok w') :
    w'.pools = w.pools ∨ ∃ a decimals w₂, i = .createPool a decimals ∧
      PoolCreated d w a decimals w₂ w' := by
  cases i with
  | initializeState a =>
    obtain ⟨-, rfl⟩ := initializeState_eq_ok h
    exact Or.inl rfl
  | createPool a decimals =>
    obtain ⟨w₂, hc⟩ := createPool_eq_ok h
    exact Or.inr ⟨a, decimals, w₂, rfl, hc⟩
  | deposit a amount =>
    obtain ⟨pa, fm, ua, fluf, paid, minted, hd⟩ := deposit_eq_ok h
    exact Or.inl (by rw [hd.world, World.setTokens_pools])
  | withdraw a =>
    obtain ⟨pa, fm, ua, amount, burned, paid, hx⟩ := withdraw_eq_ok.mp h
    exact Or.inl (by rw [hx.world, World.setTokens_pools])
  | lendAndCall a amount =>
    obtain ⟨w₁, lent, called, charged, burned, total, repaid, fee, burn, hl⟩ :=
      lendAndCall_eq_ok h
    rw [hl.world, World.setTokens_pools]
    exact Or.inl (initTokenAccountIfNeeded_same hl.opened).1
  | withdrawFees a =>
    obtain ⟨-, fees, paid, -, -, rfl⟩ := withdrawFees_eq_ok h
    exact Or.inl rfl
  | createAccounts a =>
    exact Or.inl (initTokenAccountIfNeeded_same (createAccounts_eq_ok h)).1
  | handleBorrow a amount =>
    obtain ⟨total, t, -, rfl⟩ := exec_handleBorrow h
    exact Or.inl rfl
  | wallet signers i =>
    obtain ⟨-, -, t, -, rfl⟩ := walletStep_eq_ok h
    exact Or.inl rfl

end FlufProgram
