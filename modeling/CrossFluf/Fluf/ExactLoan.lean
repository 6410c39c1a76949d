import CrossFluf.Fluf.Principal
import CrossFluf.Fluf.ProtocolFees

/-!
# The exact effect of a flash loan

With overflow checks on and the accounts the clients of both programs derive, a loan goes through
exactly when the pool is not empty, supply and product fit `u64` and the borrower can pay the fee;
and then every balance afterwards is known.
-/

namespace FlufProgram

open Machine Solana Outcome Run

variable {d : Programs} {oc : OverflowChecks} {w w' w₁ : World} {t t' : Tokens}
  {a : LendAccounts} {amount : U64}

/-- The accounts of a loan at their derived addresses.  The borrower's account has been created;
the fee account may have been. -/
structure CanonicalLoan (d : Programs) (w : World) (a : LendAccounts) : Prop where
  signer : d.isDerived a.user = false
  pool_eq : a.pool = d.pool a.poolMint
  loaded : w.pools a.pool = some ⟨a.poolMint, a.flufMint⟩
  poolAccount_eq : a.poolAccount = d.poolAccount a.poolMint
  poolFlufAccount_eq : a.poolFlufAccount = d.poolFlufAccount a.poolMint
  borrower_eq : a.borrowerFlufAccount = d.borrowerAccount a.flufMint
  borrower_ok : ∃ x, w.tokens.account a.borrowerFlufAccount = some x ∧ x.mint = a.flufMint ∧
    x.owner = a.borrowerFlufAccount
  userFlufAccount_some : (w.tokens.account a.userFlufAccount).isSome
  feeAccount_eq : a.feeAccount = d.feeAccount a.poolMint
  feeAccount_ok : w.Free a.feeAccount ∨ ∃ x, w.tokens.account a.feeAccount = some x ∧
    x.mint = a.flufMint ∧ x.owner = a.pool
  feeAccount_ne : a.poolFlufAccount ≠ a.feeAccount

/-- What the borrower pays for a loan. -/
def loanFee (amount : ℕ) : ℕ := 25 * amount / 1000

/-- The protocol's part of what the pool is paid over the loan, donations included. -/
def protocolFee (w : World) (a : LendAccounts) (amount : ℕ) : ℕ :=
  (w.tokens.balance a.poolFlufAccount + loanFee amount) / 200

structure LoanAdmitted (w : World) (a : LendAccounts) (amount : ℕ) : Prop where
  nonempty : 0 < w.tokens.balance a.poolAccount
  supply : w.tokens.supply a.flufMint + amount < 2 ^ 64
  product : 1025 * amount < 2 ^ 64
  fee : loanFee amount ≤ w.tokens.balance a.borrowerFlufAccount

structure LoanSettled (w : World) (a : LendAccounts) (amount : ℕ) (w' : World) : Prop where
  poolFlufAccount : w'.tokens.balance a.poolFlufAccount = 0
  feeAccount : w'.tokens.balance a.feeAccount =
    w.tokens.balance a.feeAccount + protocolFee w a amount
  borrower : w'.tokens.balance a.borrowerFlufAccount + loanFee amount =
    w.tokens.balance a.borrowerFlufAccount
  supply : w'.tokens.supply a.flufMint + (w.tokens.balance a.poolFlufAccount + loanFee amount) =
    w.tokens.supply a.flufMint + protocolFee w a amount
  poolAccount : w'.tokens.balance a.poolAccount = w.tokens.balance a.poolAccount

/-! ## The two repayments -/

theorem totalRepayment_on_succeeds (hfit : 1025 * amount.toNat < 2 ^ 64) :
    ∃ total, totalRepayment .on amount = .ok total := by
  obtain ⟨product, hproduct⟩ : ∃ r, OverflowChecks.on.mul amount 25 = some r :=
    ⟨amount * 25, if_pos (show amount.toNat * 25 < 2 ^ 64 by omega)⟩
  have hp : product.toNat = amount.toNat * 25 := checkedMul_eq_some.mp hproduct
  have hfee : (product / 1000).toNat = amount.toNat * 25 / 1000 := by
    rw [BitVec.toNat_udiv, hp]
    rfl
  obtain ⟨total, htotal⟩ := isSome_checkedAdd.mpr
    (show amount.toNat + (product / 1000).toNat < 2 ^ 64 by omega)
  refine ⟨total, ?_⟩
  simp only [totalRepayment, bind_eq_ok, unwrap_eq_ok]
  exact ⟨product, hproduct, htotal⟩

theorem splitRepayment_on_succeeds {repaid : U64} (hfit : 1025 * amount.toNat < 2 ^ 64)
    (hle : amount.toNat + loanFee amount.toNat ≤ repaid.toNat) :
    ∃ fee burn, splitRepayment .on repaid amount = .ok (fee, burn) := by
  unfold loanFee at hle
  obtain ⟨due, hdue⟩ : ∃ r, OverflowChecks.on.mul amount 1025 = some r :=
    ⟨amount * 1025, if_pos (show amount.toNat * 1025 < 2 ^ 64 by omega)⟩
  have hd : due.toNat = amount.toNat * 1025 := checkedMul_eq_some.mp hdue
  have hpaid : (due / 1000).toNat ≤ repaid.toNat := by
    rw [BitVec.toNat_udiv, hd]
    show amount.toNat * 1025 / 1000 ≤ repaid.toNat
    omega
  have hfees : OverflowChecks.on.sub repaid amount = some (repaid - amount) :=
    if_pos (by omega)
  have hfee : ((repaid - amount) / 200).toNat ≤ repaid.toNat := by
    rw [BitVec.toNat_udiv, sub_toNat_of_le (by omega)]
    exact le_trans (Nat.div_le_self _ _) (Nat.sub_le _ _)
  have hburn : OverflowChecks.on.sub repaid ((repaid - amount) / 200) =
      some (repaid - (repaid - amount) / 200) := if_pos hfee
  refine ⟨(repaid - amount) / 200, repaid - (repaid - amount) / 200, ?_⟩
  simp only [splitRepayment, bind_eq_ok, unwrap_eq_ok, require_eq_ok, pure_eq_ok, exists_const]
  exact ⟨due, hdue, hpaid, _, hfees, _, hburn, rfl⟩

theorem splitRepayment_on_product {repaid fee burn : U64}
    (h : splitRepayment .on repaid amount = .ok (fee, burn)) : 1025 * amount.toNat < 2 ^ 64 := by
  simp only [splitRepayment, bind_eq_ok, unwrap_eq_ok] at h
  obtain ⟨due, hdue, -⟩ := h
  have hd : due.toNat = amount.toNat * 1025 := checkedMul_eq_some.mp hdue
  have hlt := due.isLt
  omega

/-- The borrower adds the fee to the loan, the lender takes 1025 of 1000: the same. -/
theorem repayments_agree (hfit : 1025 * amount.toNat < 2 ^ 64) :
    ∃ total due, totalRepayment .on amount = .ok total ∧
      OverflowChecks.on.mul amount 1025 = some due ∧ total = due / 1000 := by
  obtain ⟨total, htotal⟩ := totalRepayment_on_succeeds hfit
  obtain ⟨due, hdue⟩ : ∃ r, OverflowChecks.on.mul amount 1025 = some r :=
    ⟨amount * 1025, if_pos (show amount.toNat * 1025 < 2 ^ 64 by omega)⟩
  have hd : due.toNat = amount.toNat * 1025 := checkedMul_eq_some.mp hdue
  refine ⟨total, due, htotal, hdue, BitVec.eq_of_toNat_eq ?_⟩
  rw [totalRepayment_on htotal, BitVec.toNat_udiv, hd]
  show amount.toNat + amount.toNat * 25 / 1000 = amount.toNat * 1025 / 1000
  omega

/-! ## A loan that is admitted -/

/-- The fT accounts of a loan are in place, which every token call of it keeps. -/
structure LoanLedger (d : Programs) (t : Tokens) (a : LendAccounts) : Prop where
  sound : t.Sound
  undelegated : t.Undelegated d.isDerived
  flufMint_ok : ∃ m, t.mint a.flufMint = some m ∧ m.mintAuthority = some a.pool
  poolFluf_ok : ∃ x, t.account a.poolFlufAccount = some x ∧ x.mint = a.flufMint ∧
    x.owner = a.pool
  borrower_ok : ∃ x, t.account a.borrowerFlufAccount = some x ∧ x.mint = a.flufMint ∧
    x.owner = a.borrowerFlufAccount
  fee_ok : ∃ x, t.account a.feeAccount = some x ∧ x.mint = a.flufMint ∧ x.owner = a.pool
  user_some : (t.account a.userFlufAccount).isSome

theorem LoanLedger.preserve {signers : List Pubkey} (h : LoanLedger d t a)
    (hs : Tokens.Step d.isDerived signers t t') : LoanLedger d t' a := by
  have hkeep : ∀ {k m o : Pubkey},
      (∃ x, t.account k = some x ∧ x.mint = m ∧ x.owner = o) →
        ∃ x, t'.account k = some x ∧ x.mint = m ∧ x.owner = o := by
    rintro k m o ⟨x, hx, hm, ho⟩
    obtain ⟨x', hx', hm', ho', -⟩ := hs.frame.account k x hx
    exact ⟨x', hx', hm'.trans hm, ho'.trans ho⟩
  exact
    { sound := hs.sound h.sound
      undelegated := hs.undelegated h.undelegated
      flufMint_ok := by
        obtain ⟨m, hm, hauth⟩ := h.flufMint_ok
        obtain ⟨m', hm', hauth', -⟩ := hs.frame.mint _ m hm
        exact ⟨m', hm', hauth'.trans hauth⟩
      poolFluf_ok := hkeep h.poolFluf_ok
      borrower_ok := hkeep h.borrower_ok
      fee_ok := hkeep h.fee_ok
      user_some := by
        obtain ⟨x, hx⟩ := Option.isSome_iff_exists.mp h.user_some
        obtain ⟨x', hx', -⟩ := hs.frame.account _ x hx
        exact Option.isSome_iff_exists.mpr ⟨x', hx'⟩ }

-- the accounts a loan spends from belong to derived addresses, which have no delegates
theorem LoanLedger.allows {x : TokenAccount} {k : Pubkey} (h : LoanLedger d t a)
    (hx : t.account k = some x) (ho : d.isDerived x.owner = true) (n : U64) {authority : Pubkey} :
    x.delegate = some authority → n.toNat ≤ x.delegatedAmount.toNat := by
  intro hd
  rw [h.undelegated k x hx ho] at hd
  cases hd

theorem LoanLedger.lend_succeeds (h : LoanLedger d t a)
    (hfit : t.supply a.flufMint + amount.toNat < 2 ^ 64) :
    ∃ t', t.mintTo [a.user, a.pool] a.flufMint a.borrowerFlufAccount a.pool amount = .ok t' := by
  obtain ⟨m, hm, hauth⟩ := h.flufMint_ok
  obtain ⟨x, hx, hxm, -⟩ := h.borrower_ok
  rw [Tokens.supply_of_mint hm] at hfit
  exact Tokens.mintTo_succeeds h.sound hx hm hxm hauth
    (List.mem_cons_of_mem _ List.mem_cons_self) hfit

theorem LoanLedger.borrow_succeeds (h : LoanLedger d t a) (hsigner : d.isDerived a.user = false)
    (hborrower : a.borrowerFlufAccount = d.borrowerAccount a.flufMint)
    (hne : a.borrowerFlufAccount ≠ a.poolFlufAccount) (hfit : 1025 * amount.toNat < 2 ^ 64)
    (hpay : amount.toNat + loanFee amount.toNat ≤ t.balance a.borrowerFlufAccount) :
    ∃ t', handleBorrow d .on t a.handleBorrow amount = .ok t' := by
  obtain ⟨m, hm, -⟩ := h.flufMint_ok
  obtain ⟨x, hx, hxm, hxo⟩ := h.borrower_ok
  obtain ⟨y, hy, hym, -⟩ := h.poolFluf_ok
  obtain ⟨total, htotal⟩ := totalRepayment_on_succeeds hfit
  have hle : total.toNat ≤ x.amount.toNat := by
    have hr := totalRepayment_on htotal
    rw [Tokens.balance_of_account hx, loanFee] at hpay
    omega
  obtain ⟨t', ht'⟩ : ∃ t', t.transfer [a.user, a.borrowerFlufAccount] a.borrowerFlufAccount
      a.poolFlufAccount a.borrowerFlufAccount total = .ok t' := by
    refine Tokens.transfer_succeeds h.sound hx hy hne (hxm.trans hym.symm) hxo (h.allows hx ?_ _)
      (List.mem_cons_of_mem _ List.mem_cons_self) hle
    rw [hxo, hborrower, d.isDerived_borrowerAccount]
  refine ⟨t', ?_⟩
  simp only [handleBorrow, bind_eq_ok, checkSigner_eq_ok, require_eq_ok, exists_const,
    loadTokenAccount_eq_ok, mapError_eq_ok]
  exact ⟨hsigner, hborrower, x, ⟨hx, hxm, hxo⟩, Option.isSome_iff_exists.mpr ⟨y, hy⟩,
    h.user_some, Option.isSome_iff_exists.mpr ⟨m, hm⟩, total, htotal, hle, ht'⟩

theorem LoanLedger.charge_succeeds {fee : U64} (h : LoanLedger d t a)
    (hpool : d.isDerived a.pool = true) (hne : a.poolFlufAccount ≠ a.feeAccount)
    (hle : fee.toNat ≤ t.balance a.poolFlufAccount) :
    ∃ t', t.transfer [a.user, a.pool] a.poolFlufAccount a.feeAccount a.pool fee = .ok t' := by
  obtain ⟨x, hx, hxm, hxo⟩ := h.poolFluf_ok
  obtain ⟨y, hy, hym, -⟩ := h.fee_ok
  rw [Tokens.balance_of_account hx] at hle
  exact Tokens.transfer_succeeds h.sound hx hy hne (hxm.trans hym.symm) hxo
    (h.allows hx (by rw [hxo, hpool]) _) (List.mem_cons_of_mem _ List.mem_cons_self) hle

theorem LoanLedger.burn_succeeds {burn : U64} (h : LoanLedger d t a)
    (hpool : d.isDerived a.pool = true) (hle : burn.toNat ≤ t.balance a.poolFlufAccount) :
    ∃ t', t.burn [a.user, a.pool] a.poolFlufAccount a.flufMint a.pool burn = .ok t' := by
  obtain ⟨m, hm, -⟩ := h.flufMint_ok
  obtain ⟨x, hx, hxm, hxo⟩ := h.poolFluf_ok
  rw [Tokens.balance_of_account hx] at hle
  exact Tokens.burn_succeeds h.sound hx hm hxm hxo (h.allows hx (by rw [hxo, hpool]) _)
    (List.mem_cons_of_mem _ List.mem_cons_self) hle

/-! ## The call -/

theorem initTokenAccountIfNeeded_succeeds {k mint owner : Pubkey}
    (hmint : (w.tokens.mint mint).isSome)
    (hk : w.Free k ∨ ∃ x, w.tokens.account k = some x ∧ x.mint = mint ∧ x.owner = owner) :
    ∃ w₁, initTokenAccountIfNeeded w k mint owner = .ok w₁ := by
  rw [initTokenAccountIfNeeded]
  rcases hk with hfree | ⟨x, hx⟩
  · have hnone : ¬ (w.tokens.account k).isSome := by
      rw [hfree.2.2.1]
      exact Bool.false_ne_true
    rw [if_neg hnone]
    simp only [initTokenAccount, bind_eq_ok, require_eq_ok, pure_eq_ok, exists_const]
    exact ⟨_, hfree, hmint, rfl⟩
  · rw [if_pos (Option.isSome_iff_exists.mpr ⟨x, hx.1⟩)]
    simp only [bind_eq_ok, loadTokenAccount_eq_ok, pure_eq_ok]
    exact ⟨w, x, hx, rfl⟩

theorem CanonicalLoan.check (h : CanonicalLoan d w a) (hw : Inv d w) :
    ∃ pa w₁, checkLendAccounts d w a = .ok (pa, w₁) ∧ w.tokens.account a.poolAccount = some pa ∧
      initTokenAccountIfNeeded w a.feeAccount a.flufMint a.pool = .ok w₁ := by
  have hr := hw.ready _ _ h.loaded
  obtain ⟨m, hm, hauth⟩ := hr.flufMint_ok
  obtain ⟨pa, hpa, hpam, hpao⟩ := hr.poolAccount_ok
  obtain ⟨x, hx, -⟩ := hr.poolFlufAccount_ok
  obtain ⟨y, hy, -⟩ := h.borrower_ok
  rw [← h.poolAccount_eq] at hpa
  rw [← h.poolFlufAccount_eq] at hx
  obtain ⟨w₁, hw₁⟩ := initTokenAccountIfNeeded_succeeds (Option.isSome_iff_exists.mpr ⟨m, hm⟩)
    h.feeAccount_ok
  refine ⟨pa, w₁, ?_, hpa, hw₁⟩
  simp only [checkLendAccounts, bind_eq_ok, checkSigner_eq_ok, require_eq_ok, exists_const,
    loadTokenAccount_eq_ok, loadFlufMint_eq_ok, loadPool_eq_ok, pure_eq_ok]
  exact ⟨h.signer, h.pool_eq, hr.poolMint_some, h.poolAccount_eq, pa, ⟨hpa, hpam, hpao⟩, m,
    ⟨hr.flufMint_eq, hm, hauth⟩, Option.isSome_iff_exists.mpr ⟨x, hx⟩,
    Option.isSome_iff_exists.mpr ⟨y, hy⟩, h.userFlufAccount_some, h.feeAccount_eq, w₁, hw₁,
    h.loaded, rfl⟩

theorem CanonicalLoan.ledger (h : CanonicalLoan d w a) (hw : Inv d w)
    (ho : initTokenAccountIfNeeded w a.feeAccount a.flufMint a.pool = .ok w₁) :
    LoanLedger d w₁.tokens a := by
  have hs : Summary d [] w w₁ := initTokenAccountIfNeeded_summary ho
  have hr := (hw.ready _ _ h.loaded).preserve h.loaded hs
  obtain ⟨y, hy, hym, hyo⟩ := h.borrower_ok
  obtain ⟨y', hy', hym', hyo', -⟩ := hs.tokens.frame.account _ y hy
  obtain ⟨z, hz⟩ := Option.isSome_iff_exists.mp h.userFlufAccount_some
  obtain ⟨z', hz', -⟩ := hs.tokens.frame.account _ z hz
  exact
    { sound := hs.tokens.sound hw.sound
      undelegated := hs.tokens.undelegated hw.undelegated
      flufMint_ok := hr.flufMint_ok
      poolFluf_ok := h.poolFlufAccount_eq ▸ hr.poolFlufAccount_ok
      borrower_ok := ⟨y', hy', hym'.trans hym, hyo'.trans hyo⟩
      fee_ok := initTokenAccountIfNeeded_account ho
      user_some := Option.isSome_iff_exists.mpr ⟨z', hz'⟩ }

-- the borrower's account belongs to itself, and no account is at the pool's address
theorem CanonicalLoan.borrower_ne (h : CanonicalLoan d w a) (hw : Inv d w) :
    a.borrowerFlufAccount ≠ a.poolFlufAccount := by
  intro he
  have hr := hw.ready _ _ h.loaded
  obtain ⟨x, hx, -, hxo⟩ := hr.poolFlufAccount_ok
  obtain ⟨y, hy, -, hyo⟩ := h.borrower_ok
  have hsame : x = y := by
    rw [← h.poolFlufAccount_eq, ← he, hy] at hx
    exact (Option.some_inj.mp hx).symm
  have hnone := hr.noAccount
  rw [← hxo, hsame, hyo, hy] at hnone
  cases hnone

theorem CanonicalLoan.lendAndCall_succeeds (h : CanonicalLoan d w a) (hw : Inv d w)
    (hadm : LoanAdmitted w a amount.toNat) : ∃ w', lendAndCall d .on w a amount = .ok w' := by
  have hpool : d.isDerived a.pool = true := by rw [h.pool_eq, d.isDerived_pool]
  have hne := h.borrower_ne hw
  obtain ⟨pa, w₁, hcheck, hpa, hopen⟩ := h.check hw
  have hledger := h.ledger hw hopen
  have hpos : 0 < pa.amount.toNat := by
    have hnonempty := hadm.nonempty
    rwa [Tokens.balance_of_account hpa] at hnonempty
  have hsupply : w₁.tokens.supply a.flufMint + amount.toNat < 2 ^ 64 := by
    rw [Tokens.supply_congr (congrFun (initTokenAccountIfNeeded_same hopen).2.1 a.flufMint)]
    exact hadm.supply
  obtain ⟨lent, hlent⟩ := hledger.lend_succeeds hsupply
  have hledger₁ := hledger.preserve (Tokens.mintTo_step hlent)
  -- the borrower holds the loan and can add the fee
  have hborrower : amount.toNat + loanFee amount.toNat ≤ lent.balance a.borrowerFlufAccount := by
    have hfee := hadm.fee
    rw [Tokens.mintTo_balance hlent, initTokenAccountIfNeeded_balance hopen]
    omega
  obtain ⟨called, hcalled⟩ :=
    hledger₁.borrow_succeeds h.signer h.borrower_eq hne hadm.product hborrower
  obtain ⟨total, hborrowed⟩ := handleBorrow_eq_ok hcalled
  have hmoved := hborrowed.moved
  have hledger₂ := hledger₁.preserve (Tokens.transfer_step hmoved)
  obtain ⟨lender, hlender, -⟩ := hledger₂.poolFluf_ok
  have hrepaid : amount.toNat + loanFee amount.toNat ≤ lender.amount.toNat := by
    have hpaid : called.balance a.poolFlufAccount = lent.balance a.poolFlufAccount + total.toNat :=
      (Tokens.transfer_balance hmoved hne).2
    rw [Tokens.balance_of_account hlender] at hpaid
    have htotal := totalRepayment_on hborrowed.total_ok
    unfold loanFee
    omega
  obtain ⟨fee, burn, hsplit⟩ := splitRepayment_on_succeeds hadm.product hrepaid
  have hparts := (splitRepayment_on hsplit).2.2.2
  have hfee : fee.toNat ≤ called.balance a.poolFlufAccount := by
    rw [Tokens.balance_of_account hlender]
    omega
  obtain ⟨charged, hcharged⟩ := hledger₂.charge_succeeds hpool h.feeAccount_ne hfee
  have hledger₃ := hledger₂.preserve (Tokens.transfer_step hcharged)
  have hburn : burn.toNat ≤ charged.balance a.poolFlufAccount := by
    have hrest := (Tokens.transfer_balance hcharged h.feeAccount_ne).1
    rw [Tokens.balance_of_account hlender] at hrest
    omega
  obtain ⟨burned, hburned⟩ := hledger₃.burn_succeeds hpool hburn
  refine ⟨w₁.setTokens burned, ?_⟩
  have hloan : lendAndRepay d .on w a amount = .ok (w₁, called) := by
    simp only [lendAndRepay, bind_eq_ok, require_eq_ok, exists_const, mapError_eq_ok, pure_eq_ok]
    exact ⟨(pa, w₁), hcheck, hpos, lent, hlent, called, hcalled, rfl⟩
  simp only [lendAndCall, bind_eq_ok, mapError_eq_ok, orElse_eq_ok, pure_eq_ok]
  exact ⟨(w₁, called), hloan, lender, hlender, (fee, burn), hsplit, charged, hcharged, burned,
    hburned, rfl⟩

/-! ## Its effect -/

theorem lendAndCall_nonempty (h : lendAndCall d oc w a amount = .ok w') :
    0 < w.tokens.balance a.poolAccount := by
  simp only [lendAndCall, lendAndRepay, bind_eq_ok, require_eq_ok, exists_const] at h
  obtain ⟨-, ⟨⟨pa, w₁⟩, hcheck, hpos, -⟩, -⟩ := h
  simp only [checkLendAccounts, bind_eq_ok, require_eq_ok, exists_const, loadTokenAccount_eq_ok,
    pure_eq_ok, Prod.mk.injEq] at hcheck
  obtain ⟨-, -, -, -, -, pa', hpa, -, -, -, -, -, -, -, -, -, -, rfl, -⟩ := hcheck
  rw [Tokens.balance_of_account hpa.1]
  exact hpos

section Settled

variable {total repaid fee burn : U64} {lent called charged burned : Tokens}

theorem Lent.repaid_eq
    (h : Lent d oc w a amount w₁ lent called charged burned total repaid fee burn w')
    (hw : Inv d w) : repaid.toNat = w.tokens.balance a.poolFlufAccount + total.toNat := by
  have hborrower := (h.borrower_ne hw).1
  have hmoved : called.balance a.poolFlufAccount =
      lent.balance a.poolFlufAccount + total.toNat :=
    (Tokens.transfer_balance h.called_ok.moved hborrower).2
  rw [← h.repaid_balance, hmoved, Tokens.mintTo_balance_of_ne h.lent_ok hborrower.symm,
    initTokenAccountIfNeeded_balance h.opened]

theorem Lent.admitted
    (h : Lent d .on w a amount w₁ lent called charged burned total repaid fee burn w')
    (hw : Inv d w) (hpos : 0 < w.tokens.balance a.poolAccount) :
    LoanAdmitted w a amount.toNat where
  nonempty := hpos
  supply := by
    have hlent := Tokens.mintTo_supply h.lent_ok
    have hlt := lent.supply_lt a.flufMint
    rw [Tokens.supply_congr (congrFun (initTokenAccountIfNeeded_same h.opened).2.1 a.flufMint)]
      at hlent
    omega
  product := splitRepayment_on_product h.split_ok
  fee := by
    have hbalance := h.borrower_balance hw
    have htotal := totalRepayment_on h.called_ok.total_ok
    unfold loanFee
    omega

theorem Lent.settled
    (h : Lent d .on w a amount w₁ lent called charged burned total repaid fee burn w')
    (hw : Inv d w) (hne : a.poolFlufAccount ≠ a.feeAccount) :
    LoanSettled w a amount.toNat w' := by
  have htotal := totalRepayment_on h.called_ok.total_ok
  have hrepaid := h.repaid_eq hw
  obtain ⟨-, -, hfee, hparts⟩ := splitRepayment_on h.split_ok
  have hprotocol : fee.toNat = protocolFee w a amount.toNat := by
    rw [hfee, hrepaid, htotal, protocolFee, loanFee]
    congr 1
    omega
  constructor
  · have hcharged := (Tokens.transfer_balance h.charged_ok hne).1
    have hburned := Tokens.burn_balance h.burned_ok
    have hheld := h.repaid_balance
    rw [h.world, World.setTokens_tokens]
    omega
  · rw [h.fee_of_ne hw hne, hprotocol]
  · have hbalance := h.borrower_balance hw
    unfold loanFee
    omega
  · have hsupply := h.supply
    unfold loanFee
    omega
  · have hbalance := h.balance_eq hw
    rwa [Pool.balance, Pool.balance, ← h.poolAccount_eq] at hbalance

end Settled

/-- A flash loan at the derived accounts succeeds exactly when it is admitted; then it has settled
every balance, and otherwise nothing has changed.  On what is admitted the repayment the borrower
computes is the one the lender asks for. -/
theorem lendAndCall_exact (hw : Reachable (exec d .on) (Genesis d) w) (h : CanonicalLoan d w a)
    (amount : U64) :
    ((∃ w', exec d .on w (.lendAndCall a amount) = .ok w') ↔ LoanAdmitted w a amount.toNat) ∧
      (∀ w', exec d .on w (.lendAndCall a amount) = .ok w' →
        LoanSettled w a amount.toNat w') ∧
      (¬ LoanAdmitted w a amount.toNat →
        advance (exec d .on) w (.lendAndCall a amount) = w) ∧
      (LoanAdmitted w a amount.toNat → ∃ total due, totalRepayment .on amount = .ok total ∧
        OverflowChecks.on.mul amount 1025 = some due ∧ total = due / 1000) := by
  have hinv := reachable_inv hw
  have hadmitted : ∀ w', exec d .on w (.lendAndCall a amount) = .ok w' →
      LoanAdmitted w a amount.toNat := by
    intro w' hok
    obtain ⟨w₁, lent, called, charged, burned, total, repaid, fee, burn, hl⟩ :=
      lendAndCall_eq_ok hok
    exact hl.admitted hinv (lendAndCall_nonempty hok)
  refine ⟨⟨?_, ?_⟩, ?_, ?_, ?_⟩
  · intro hsome
    obtain ⟨w', hok⟩ := hsome
    exact hadmitted w' hok
  · exact h.lendAndCall_succeeds hinv
  · intro w' hok
    obtain ⟨w₁, lent, called, charged, burned, total, repaid, fee, burn, hl⟩ :=
      lendAndCall_eq_ok hok
    exact hl.settled hinv h.feeAccount_ne
  · intro hnot
    cases hexec : exec d .on w (.lendAndCall a amount) with
    | ok w' => exact absurd (hadmitted w' hexec) hnot
    | error e => exact advance_of_error hexec
  · intro hadm
    exact repayments_agree hadm.product

/-- The pool of 1000 tokens whose borrower has 100 fT for the fees. -/
def checkedWorld : World := run (exec Sample.programs .on) Sample.empty openRun

theorem checkedWorld_loan : CanonicalLoan Sample.programs checkedWorld Sample.lendAccounts where
  signer := by decide +kernel
  pool_eq := rfl
  loaded := by decide +kernel
  poolAccount_eq := rfl
  poolFlufAccount_eq := rfl
  borrower_eq := rfl
  borrower_ok := ⟨⟨Sample.flufMint, Sample.programs.borrowerAccount Sample.flufMint, 100, none, 0⟩,
    by decide +kernel⟩
  userFlufAccount_some := by decide +kernel
  feeAccount_eq := rfl
  feeAccount_ok := Or.inl (by decide +kernel)
  feeAccount_ne := by decide +kernel

theorem lendAndCall_exact_open : ∃ w', exec Sample.programs .on checkedWorld
      (.lendAndCall Sample.lendAccounts 4000) = .ok w' ∧
    LoanSettled checkedWorld Sample.lendAccounts 4000 w' := by
  have hok : (exec Sample.programs .on checkedWorld
      (.lendAndCall Sample.lendAccounts 4000)).isOk = true := by
    decide +kernel
  obtain ⟨-, hsettled, -, -⟩ :=
    lendAndCall_exact ⟨Sample.empty, openRun, Sample.genesis, rfl⟩ checkedWorld_loan 4000
  exact ⟨_, eq_ok_advance hok, hsettled _ (eq_ok_advance hok)⟩

end FlufProgram
