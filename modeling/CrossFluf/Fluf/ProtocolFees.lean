import CrossFluf.Fluf.FlashLoan

/-!
# Protocol fees

A loan leaves a part of its fee in the fee account of the pool.  `withdraw_fees` is to pay it out
to the deployer, but its transfer comes without the pool's signature; and a loan repaid into the
fee account itself burns what was there.
-/

namespace FlufProgram

open Machine Solana Outcome Run

variable {d : Programs} {oc : OverflowChecks} {w w' w₁ : World} {t : Tokens}

/-! ## Collecting them -/

/-- The accounts of a pool as `withdraw_fees` asks for them, with another account to collect
into. -/
structure FeeRequest (d : Programs) (w : World) (a : WithdrawFeesAccounts) (s : ProgramState)
    (fees : TokenAccount) : Prop where
  signer : d.isDerived a.user = false
  state_eq : a.state = d.stateAddress
  state : w.states a.state = some s
  pool_eq : a.pool = d.pool a.poolMint
  loaded : w.pools a.pool = some ⟨a.poolMint, a.flufMint⟩
  poolMint_some : (w.tokens.mint a.poolMint).isSome
  flufMint_eq : a.flufMint = d.flufMint a.poolMint
  flufMint_some : (w.tokens.mint a.flufMint).isSome
  feeAccount_eq : a.feeAccount = d.feeAccount a.poolMint
  feeAccount_ok : w.tokens.account a.feeAccount = some fees ∧ fees.mint = a.flufMint ∧
    fees.owner = a.pool
  collector : ∃ x, w.tokens.account a.collectorAccount = some x ∧ x.mint = a.flufMint
  collector_ne : a.collectorAccount ≠ a.feeAccount

/-- `withdraw_fees` goes through and moves exactly the fees to the collector. -/
def FeesCollected (d : Programs) (oc : OverflowChecks) (w : World) (a : WithdrawFeesAccounts) :
    Prop :=
  ∃ w', exec d oc w (.withdrawFees a) = .ok w' ∧
    w'.tokens.balance a.feeAccount = 0 ∧
    w'.tokens.balance a.collectorAccount =
      w.tokens.balance a.collectorAccount + w.tokens.balance a.feeAccount ∧
    ∀ k, k ≠ a.feeAccount → k ≠ a.collectorAccount → w'.tokens.balance k = w.tokens.balance k

section Request

variable {a : WithdrawFeesAccounts} {s : ProgramState} {fees : TokenAccount}

/-- Past the account checks only the caller and the transfer are left. -/
theorem withdrawFees_of_request (h : FeeRequest d w a s fees) :
    withdrawFees d w a = (require (a.user = s.deployer) (.custom .invalidAdmin) >>= fun _ ↦
      (w.tokens.transfer [a.user] a.feeAccount a.collectorAccount a.pool fees.amount).mapError
        Failure.token >>= fun paid ↦ pure (w.setTokens paid)) := by
  obtain ⟨x, hx, -⟩ := h.collector
  have hcollector : (w.tokens.account a.collectorAccount).isSome := by
    rw [hx]
    rfl
  obtain ⟨hfees, hmint, howner⟩ := h.feeAccount_ok
  have hload : (loadTokenAccount w.tokens a.feeAccount a.flufMint a.pool :
      FlufResult TokenAccount) = .ok fees :=
    loadTokenAccount_eq_ok.mpr ⟨hfees, hmint, howner⟩
  have hsame : require True (Failure.custom FlufError.invalidPool) = .ok () := require_of trivial
  simp only [withdrawFees, checkSigner, require_of h.signer, require_of h.state_eq,
    orElse_some h.state, require_of h.pool_eq, orElse_some h.loaded, require_of h.poolMint_some,
    require_of h.flufMint_eq, require_of h.flufMint_some, require_of h.feeAccount_eq, hload,
    require_of hcollector, hsame, ok_bind]

theorem FeeRequest.transfer_unsigned (h : FeeRequest d w a s fees) :
    w.tokens.transfer [a.user] a.feeAccount a.collectorAccount a.pool fees.amount =
      .error .missingRequiredSignature := by
  obtain ⟨hfees, hmint, howner⟩ := h.feeAccount_ok
  obtain ⟨x, hx, hxm⟩ := h.collector
  have hpool : a.pool ∉ [a.user] := by
    intro hmem
    have hderived := d.isDerived_pool a.poolMint
    rw [← h.pool_eq, List.mem_singleton.mp hmem, h.signer] at hderived
    cases hderived
  exact Tokens.transfer_unsigned hfees hx (hmint.trans hxm.symm) howner hpool le_rfl

/-- The deployer is refused for want of the pool's signature, and everybody else as not being the
deployer: fees are never collected. -/
theorem feesCollected_never (oc : OverflowChecks) (h : FeeRequest d w a s fees) :
    (a.user = s.deployer →
        exec d oc w (.withdrawFees a) = .error (.token .missingRequiredSignature)) ∧
      (a.user ≠ s.deployer → exec d oc w (.withdrawFees a) = .error (.custom .invalidAdmin)) ∧
      advance (exec d oc) w (.withdrawFees a) = w ∧ ¬ FeesCollected d oc w a := by
  have hdeployer : a.user = s.deployer →
      exec d oc w (.withdrawFees a) = .error (.token .missingRequiredSignature) := by
    intro he
    show withdrawFees d w a = _
    rw [withdrawFees_of_request h, require_of he, ok_bind, h.transfer_unsigned]
    rfl
  have hother : a.user ≠ s.deployer →
      exec d oc w (.withdrawFees a) = .error (.custom .invalidAdmin) := by
    intro hne
    show withdrawFees d w a = _
    rw [withdrawFees_of_request h, require_of_not hne, error_bind]
  have hfails : ∃ e, exec d oc w (.withdrawFees a) = .error e := by
    by_cases he : a.user = s.deployer
    · exact ⟨_, hdeployer he⟩
    · exact ⟨_, hother he⟩
  obtain ⟨e, he⟩ := hfails
  refine ⟨hdeployer, hother, advance_of_error he, ?_⟩
  intro hc
  obtain ⟨w', hok, -⟩ := hc
  rw [he] at hok
  cases hok

end Request

/-- The pool of `openRun` after a loan of 20000, whose fee account holds 2. -/
def feeRun : List Instruction :=
  openRun ++
    [.wallet [Sample.user] (.transfer Sample.userFlufAccount
       (Sample.programs.borrowerAccount Sample.flufMint) Sample.user 500),
     .initializeState ⟨Sample.user, Sample.programs.stateAddress⟩,
     .lendAndCall Sample.lendAccounts 20000]

def feeWorld : World := run (exec Sample.programs .off) Sample.empty feeRun

theorem feeWorld_reachable :
    Reachable (exec Sample.programs .off) (Genesis Sample.programs) feeWorld :=
  ⟨Sample.empty, feeRun, Sample.genesis, rfl⟩

def collection : WithdrawFeesAccounts where
  user := Sample.user
  state := Sample.programs.stateAddress
  pool := Sample.pool
  poolMint := Sample.poolMint
  flufMint := Sample.flufMint
  feeAccount := Sample.programs.feeAccount Sample.poolMint
  collectorAccount := Sample.userFlufAccount

def accruedFees : TokenAccount := ⟨Sample.flufMint, Sample.pool, 2, none, 0⟩

theorem collection_request :
    FeeRequest Sample.programs feeWorld collection ⟨Sample.user⟩ accruedFees where
  signer := by decide +kernel
  state_eq := rfl
  state := by decide +kernel
  pool_eq := rfl
  loaded := by decide +kernel
  poolMint_some := by decide +kernel
  flufMint_eq := rfl
  flufMint_some := by decide +kernel
  feeAccount_eq := rfl
  feeAccount_ok := by decide +kernel
  collector := ⟨⟨Sample.flufMint, Sample.user, 400, none, 0⟩, by decide +kernel⟩
  collector_ne := by decide +kernel

theorem feesCollected_never_accrued : feeWorld.tokens.balance collection.feeAccount = 2 ∧
    exec Sample.programs .off feeWorld (.withdrawFees collection) =
      .error (.token .missingRequiredSignature) ∧
    ¬ FeesCollected Sample.programs .off feeWorld collection := by
  obtain ⟨hdeployer, -, -, hnever⟩ := feesCollected_never .off collection_request
  exact ⟨by decide +kernel, hdeployer rfl, hnever⟩

theorem feesCollected_fails : ¬ ∀ (d : Programs) (oc : OverflowChecks) (w : World)
    (a : WithdrawFeesAccounts) (s : ProgramState) (fees : TokenAccount),
    Reachable (exec d oc) (Genesis d) w → FeeRequest d w a s fees →
      (a.user = s.deployer → FeesCollected d oc w a) ∧
        (a.user ≠ s.deployer → advance (exec d oc) w (.withdrawFees a) = w) := by
  intro hall
  obtain ⟨w', hok, -⟩ :=
    (hall _ _ _ _ _ _ feeWorld_reachable collection_request).1 rfl
  have herror : (exec Sample.programs .off feeWorld (.withdrawFees collection)).isOk = false := by
    decide +kernel
  rw [hok] at herror
  cases herror

/-! ## Keeping them -/

/-- The fees of the pool grow by their share of what the repaid account holds over the loan. -/
def FeesKept (d : Programs) (oc : OverflowChecks) (w : World) (a : LendAccounts) (amount : U64)
    (w' : World) : Prop :=
  ∀ w₁ called, lendAndRepay d oc w a amount = .ok (w₁, called) →
    w.tokens.balance (d.feeAccount a.poolMint) ≤ w'.tokens.balance (d.feeAccount a.poolMint) ∧
      (w'.tokens.balance (d.feeAccount a.poolMint) : ℤ) =
        w.tokens.balance (d.feeAccount a.poolMint) +
          ((called.balance a.poolFlufAccount : ℤ) - amount.toNat) / 200

section Loan

variable {a : LendAccounts} {amount total repaid fee burn : U64}
  {lent called charged burned : Tokens}

theorem lendAndRepay_feeAccount (h : lendAndRepay d oc w a amount = .ok (w₁, called)) :
    a.feeAccount = d.feeAccount a.poolMint := by
  simp only [lendAndRepay, bind_eq_ok, pure_eq_ok] at h
  obtain ⟨checked, hcheck, -⟩ := h
  simp only [checkLendAccounts, bind_eq_ok, require_eq_ok, exists_const] at hcheck
  obtain ⟨-, -, -, -, -, -, -, -, -, -, -, -, hfee, -⟩ := hcheck
  exact hfee

/-- The loan and what it is repaid with stay clear of the fee account. -/
theorem Lent.fee_lent
    (h : Lent d oc w a amount w₁ lent called charged burned total repaid fee burn w')
    (hw : Inv d w) : lent.balance a.feeAccount = w.tokens.balance a.feeAccount := by
  rw [Tokens.mintTo_balance_of_ne h.lent_ok (h.borrower_ne hw).2.symm,
    initTokenAccountIfNeeded_balance h.opened]

theorem Lent.repaid_balance
    (h : Lent d oc w a amount w₁ lent called charged burned total repaid fee burn w') :
    called.balance a.poolFlufAccount = repaid.toNat := by
  obtain ⟨x, hx, hrepaid⟩ := h.repaid_ok
  rw [Tokens.balance_of_account hx, hrepaid]

theorem Lent.fee_of_ne
    (h : Lent d oc w a amount w₁ lent called charged burned total repaid fee burn w')
    (hw : Inv d w) (hne : a.poolFlufAccount ≠ a.feeAccount) :
    w'.tokens.balance a.feeAccount = w.tokens.balance a.feeAccount + fee.toNat := by
  have hcalled : called.balance a.feeAccount = lent.balance a.feeAccount :=
    Tokens.transfer_balance_of_ne h.called_ok.moved (h.borrower_ne hw).2.symm hne.symm
  have hcharged := (Tokens.transfer_balance h.charged_ok hne).2
  have hburned := Tokens.burn_balance_of_ne h.burned_ok hne.symm
  rw [h.world, World.setTokens_tokens, hburned, hcharged, hcalled, h.fee_lent hw]

-- the fee is moved from the account to itself, and the rest of it burned
theorem Lent.fee_of_eq
    (h : Lent d oc w a amount w₁ lent called charged burned total repaid fee burn w')
    (he : a.poolFlufAccount = a.feeAccount) :
    w'.tokens.balance a.feeAccount + burn.toNat = repaid.toNat := by
  have hcharged := h.charged_ok
  rw [← he] at hcharged
  have hsame : charged = called := Tokens.transfer_self hcharged
  have hburned := Tokens.burn_balance h.burned_ok
  have hrepaid := h.repaid_balance
  rw [hsame] at hburned
  rw [h.world, World.setTokens_tokens, ← he]
  omega

/-- The account that is repaid and the loan together stay within the supply. -/
theorem Lent.pool_add_amount_lt
    (h : Lent d oc w a amount w₁ lent called charged burned total repaid fee burn w')
    (hw : Inv d w) : lent.balance a.poolFlufAccount + amount.toNat < 2 ^ 64 := by
  obtain ⟨y, hy, hym, -⟩ := h.called_ok.borrower_ok
  obtain ⟨s, -, -, -, -, hs, hsm, -⟩ := Tokens.burn_eq_ok h.burned_ok
  have hsound := h.lent_step.sound hw.sound
  have hne := (h.borrower_ne hw).1
  have hborrower : lent.account a.borrowerFlufAccount = some y := hy
  have hloan := Tokens.mintTo_balance h.lent_ok
  rw [Tokens.balance_of_account hborrower] at hloan
  -- the account was there before the repayment, of the same mint
  cases hpool : lent.account a.poolFlufAccount with
  | none =>
    have hnone : lent.balance a.poolFlufAccount = 0 := by
      rw [Tokens.balance, hpool]
      rfl
    have hlt := amount.isLt
    omega
  | some x =>
    obtain ⟨s', hs', hmint, -⟩ := h.charged_step.frame.account _ x hpool
    rw [hs, Option.some_inj] at hs'
    have hxm : x.mint = a.flufMint := by rw [← hmint, ← hs', hsm]
    have hpair := hsound.pair_le hpool hborrower (hxm.trans hym.symm) hne.symm
    have hlt := lent.supply_lt x.mint
    rw [Tokens.balance_of_account hpool]
    omega

/-- The repayment covers the loan exactly when it fits `u64`. -/
theorem Lent.amount_le_iff
    (h : Lent d oc w a amount w₁ lent called charged burned total repaid fee burn w')
    (hw : Inv d w) :
    amount.toNat ≤ repaid.toNat ↔ amount.toNat + amount.toNat * 25 % 2 ^ 64 / 1000 < 2 ^ 64 := by
  have htotal := h.total_le hw
  have hok := h.called_ok.total_ok
  cases oc with
  | on =>
    have hr := totalRepayment_on hok
    have hlt := total.isLt
    have hmod := Nat.mod_le (amount.toNat * 25) (2 ^ 64)
    omega
  | off =>
    have hr := totalRepayment_off hok
    have hmoved : called.balance a.poolFlufAccount =
        lent.balance a.poolFlufAccount + total.toNat :=
      (Tokens.transfer_balance h.called_ok.moved (h.borrower_ne hw).1).2
    have hrepaid := h.repaid_balance
    have hpool := h.pool_add_amount_lt hw
    have hlt := amount.isLt
    constructor
    · intro hle
      by_contra hwrap
      omega
    · intro hfits
      rw [Nat.mod_eq_of_lt hfits] at hr
      omega

/-- A loan keeps the fees of its pool exactly when the repayment does not wrap and is not paid
into the fee account, unless that one was empty. -/
theorem feesKept_iff (hw : Reachable (exec d oc) (Genesis d) w)
    (h : exec d oc w (.lendAndCall a amount) = .ok w') :
    FeesKept d oc w a amount w' ↔
      amount.toNat + amount.toNat * 25 % 2 ^ 64 / 1000 < 2 ^ 64 ∧
        (a.poolFlufAccount ≠ d.feeAccount a.poolMint ∨
          w.tokens.balance (d.feeAccount a.poolMint) = 0) := by
  obtain ⟨w₁, lent, called, charged, burned, total, repaid, fee, burn, hcalled, hl⟩ :=
    lendAndCall_repaid h
  have hinv := reachable_inv hw
  have hrepaid := hl.repaid_balance
  rw [← hl.amount_le_iff hinv, ← lendAndRepay_feeAccount hcalled]
  have hkept : FeesKept d oc w a amount w' ↔
      w.tokens.balance a.feeAccount ≤ w'.tokens.balance a.feeAccount ∧
        (w'.tokens.balance a.feeAccount : ℤ) =
          w.tokens.balance a.feeAccount + ((repaid.toNat : ℤ) - amount.toNat) / 200 := by
    rw [FeesKept, ← lendAndRepay_feeAccount hcalled, ← hrepaid]
    constructor
    · intro hall
      exact hall w₁ called hcalled
    · intro hk w₂ called' hcalled'
      rw [hcalled, Except.ok.injEq, Prod.mk.injEq] at hcalled'
      rw [← hcalled'.2]
      exact hk
  rw [hkept]
  by_cases hle : amount.toNat ≤ repaid.toNat
  · obtain ⟨hfee, hsplit⟩ := splitRepayment_of_le hle hl.split_ok
    by_cases he : a.poolFlufAccount = a.feeAccount
    · have hself := hl.fee_of_eq he
      constructor
      · intro hk
        exact ⟨hle, Or.inr (by omega)⟩
      · intro hk
        have hzero : w.tokens.balance a.feeAccount = 0 := by
          rcases hk.2 with hne | hzero
          · exact absurd he hne
          · exact hzero
        omega
    · have hother := hl.fee_of_ne hinv he
      constructor
      · intro _
        exact ⟨hle, Or.inl he⟩
      · intro _
        omega
  · constructor
    · intro hk
      omega
    · intro hk
      exact absurd hk.1 hle

end Loan

/-- A loan that is repaid into the fee account. -/
def feeLoan : LendAccounts :=
  { Sample.lendAccounts with poolFlufAccount := Sample.programs.feeAccount Sample.poolMint }

theorem feesKept_iff_canonical :
    FeesKept Sample.programs .off feeWorld Sample.lendAccounts 1000
      (advance (exec Sample.programs .off) feeWorld (.lendAndCall Sample.lendAccounts 1000)) := by
  have hok : (exec Sample.programs .off feeWorld
      (.lendAndCall Sample.lendAccounts 1000)).isOk = true := by
    decide +kernel
  have hne : Sample.lendAccounts.poolFlufAccount ≠ Sample.programs.feeAccount Sample.poolMint := by
    decide +kernel
  exact (feesKept_iff feeWorld_reachable (eq_ok_advance hok)).mpr ⟨by decide, Or.inl hne⟩

-- the two fT of the loan before are burned with the repayment
theorem feesKept_fails : ¬ ∀ (d : Programs) (oc : OverflowChecks) (w w' : World)
    (a : LendAccounts) (amount : U64), Reachable (exec d oc) (Genesis d) w →
      exec d oc w (.lendAndCall a amount) = .ok w' → FeesKept d oc w a amount w' := by
  intro hall
  have hok : (exec Sample.programs .off feeWorld (.lendAndCall feeLoan 1000)).isOk = true := by
    decide +kernel
  have hrepaid : (lendAndRepay Sample.programs .off feeWorld feeLoan 1000).isOk = true := by
    decide +kernel
  cases hr : lendAndRepay Sample.programs .off feeWorld feeLoan 1000 with
  | error e =>
    rw [hr] at hrepaid
    cases hrepaid
  | ok x =>
    have hle := (hall _ _ _ _ _ _ feeWorld_reachable (eq_ok_advance hok) x.1 x.2 hr).1
    revert hle
    decide +kernel

end FlufProgram
