import CrossFluf.Fluf.Pools

/-!
# Repayment of a flash loan in wrapping arithmetic

The borrower multiplies the amount by 25 before it divides, so the fee it pays is reduced modulo
`2 ^ 64` first.  The lender's own check wraps along with it.
-/

namespace FlufProgram

open Machine Solana Outcome Run

variable {d : Programs} {oc : OverflowChecks} {w w' w₁ : World} {a : LendAccounts}
  {amount total repaid fee burn : U64} {lent called charged burned : Tokens}

/-- The borrower's account paid back its loan and the whole fee, and no fT are left behind. -/
def LoanRepaid (a : LendAccounts) (amount : ℕ) (w w' : World) : Prop :=
  w'.tokens.balance a.borrowerFlufAccount + (amount + 25 * amount / 1000) ≤
      w.tokens.balance a.borrowerFlufAccount + amount ∧
    w'.tokens.supply a.flufMint ≤ w.tokens.supply a.flufMint

/-! ## The accounts of a loan -/

-- the borrower's account belongs to itself, the other two to the pool
theorem Lent.borrower_ne
    (h : Lent d oc w a amount w₁ lent called charged burned total repaid fee burn w')
    (hw : Inv d w) :
    a.borrowerFlufAccount ≠ a.poolFlufAccount ∧ a.borrowerFlufAccount ≠ a.feeAccount := by
  have hr := hw.ready _ _ h.loaded
  obtain ⟨y, hy, -, hyo⟩ := h.called_ok.borrower_ok
  have hself : a.borrowerFlufAccount ≠ a.pool := fun he ↦ by
    have hnone : lent.account a.borrowerFlufAccount = none :=
      he ▸ h.account_pool hr h.loaded
    exact absurd (hnone.symm.trans hy) nofun
  have howner : y.owner = a.borrowerFlufAccount := hyo
  constructor
  · intro he
    obtain ⟨s, x, spent, s', supply', hs, -, -, hspent, -⟩ := Tokens.burn_eq_ok h.burned_ok
    obtain ⟨y', hy', -, hyo', -⟩ := h.charged_step.frame.account _ y hy
    have hsame : s = y' := by
      rw [← he] at hs
      exact Option.some_inj.mp (hs.symm.trans hy')
    have hs_owner : s.owner = a.borrowerFlufAccount := by rw [hsame, hyo', howner]
    -- the pool burns from it, so it owns it or is its delegate
    obtain ⟨-, -, -, -, ho | hdel, -⟩ := Tokens.spend_eq_ok hspent
    · exact hself (hs_owner.symm.trans ho)
    · have hund := h.charged_step.undelegated (h.lent_step.undelegated hw.undelegated)
      have hderived : d.isDerived s.owner = true := by
        have hx : a.borrowerFlufAccount = d.borrowerAccount a.flufMint := h.called_ok.borrower_eq
        rw [hs_owner, hx, d.isDerived_borrowerAccount]
      rw [hund _ s hs hderived] at hdel
      cases hdel
  · intro he
    obtain ⟨z, hz, -, hzo⟩ := initTokenAccountIfNeeded_account h.opened
    obtain ⟨z', hz', -, hzo', -⟩ := (Tokens.mintTo_frame h.lent_ok).1.account _ z hz
    rw [← he] at hz'
    have hsame : z' = y := Option.some_inj.mp (hz'.symm.trans hy)
    exact hself (by rw [← howner, ← hsame, hzo', hzo])

/-- The borrower's account gains the loan and loses the repayment. -/
theorem Lent.borrower_balance
    (h : Lent d oc w a amount w₁ lent called charged burned total repaid fee burn w')
    (hw : Inv d w) :
    w'.tokens.balance a.borrowerFlufAccount + total.toNat =
      w.tokens.balance a.borrowerFlufAccount + amount.toNat := by
  obtain ⟨hlender, hfee⟩ := h.borrower_ne hw
  have hopen : w₁.tokens.balance a.borrowerFlufAccount =
      w.tokens.balance a.borrowerFlufAccount := by
    rw [Tokens.balance, Tokens.balance, (initTokenAccountIfNeeded_same h.opened).2.2 _ hfee]
  have hlent := Tokens.mintTo_balance h.lent_ok
  have hcalled : lent.balance a.borrowerFlufAccount =
      called.balance a.borrowerFlufAccount + total.toNat :=
    (Tokens.transfer_balance h.called_ok.moved hlender).1
  have hcharged := Tokens.transfer_balance_of_ne h.charged_ok hlender hfee
  have hburned := Tokens.burn_balance_of_ne h.burned_ok hlender
  rw [h.world, World.setTokens_tokens]
  omega

/-- The lender's account holds at least what was moved to it. -/
theorem Lent.total_le
    (h : Lent d oc w a amount w₁ lent called charged burned total repaid fee burn w')
    (hw : Inv d w) : total.toNat ≤ repaid.toNat := by
  obtain ⟨x, hx, hrepaid⟩ := h.repaid_ok
  have hmoved : called.balance a.poolFlufAccount =
      lent.balance a.poolFlufAccount + total.toNat :=
    (Tokens.transfer_balance h.called_ok.moved (h.borrower_ne hw).1).2
  rw [Tokens.balance_of_account hx, hrepaid] at hmoved
  omega

/-! ## The fee -/

-- a product that wraps loses at least 2 ^ 64 / 1000
theorem total_lt_of_wrap {n : ℕ} (hn : 2 ^ 64 ≤ 25 * n) :
    (n + n * 25 % 2 ^ 64 / 1000) % 2 ^ 64 < n + 25 * n / 1000 := by
  have hmod := Nat.mod_le (n + n * 25 % 2 ^ 64 / 1000) (2 ^ 64)
  omega

theorem total_eq_of_fits {n : ℕ} (hn : 25 * n < 2 ^ 64) :
    (n + n * 25 % 2 ^ 64 / 1000) % 2 ^ 64 = n + 25 * n / 1000 := by
  rw [Nat.mul_comm n 25, Nat.mod_eq_of_lt hn, Nat.mod_eq_of_lt (by omega)]

/-- Without overflow checks a loan that goes through is repaid in full exactly when 25 times its
amount fits `u64`. -/
theorem loanRepaid_iff_feeFits (hw : Reachable (exec d .off) (Genesis d) w)
    (h : exec d .off w (.lendAndCall a amount) = .ok w') :
    LoanRepaid a amount.toNat w w' ↔ 25 * amount.toNat < 2 ^ 64 := by
  obtain ⟨w₁, lent, called, charged, burned, total, repaid, fee, burn, hl⟩ := lendAndCall_eq_ok h
  have hinv := reachable_inv hw
  have hbalance := hl.borrower_balance hinv
  have htotal := totalRepayment_off hl.called_ok.total_ok
  constructor
  · intro ⟨hpaid, _⟩
    by_contra hwrap
    have hlt := total_lt_of_wrap (Nat.le_of_not_lt hwrap)
    omega
  · intro hfits
    rw [total_eq_of_fits hfits] at htotal
    have hle := hl.total_le hinv
    have hsupply := hl.supply
    obtain ⟨hfee, hsplit⟩ := splitRepayment_off (by omega) hl.split_ok
    constructor
    · omega
    · omega

/-! ## A loan that wraps -/

/-- A pool of 1000 tokens, and 100 of its fT with the borrower to pay fees from. -/
def openRun : List Instruction :=
  Sample.setup ++
    [.deposit Sample.accounts 1000,
     .wallet [Sample.user] (.transfer Sample.userFlufAccount
       (Sample.programs.borrowerAccount Sample.flufMint) Sample.user 100)]

def openWorld : World := run (exec Sample.programs .off) Sample.empty openRun

def lentWorld (amount : U64) : World :=
  advance (exec Sample.programs .off) openWorld (.lendAndCall Sample.lendAccounts amount)

theorem openWorld_reachable :
    Reachable (exec Sample.programs .off) (Genesis Sample.programs) openWorld :=
  ⟨Sample.empty, openRun, Sample.genesis, rfl⟩

theorem loanRepaid_iff_feeFits_small : LoanRepaid Sample.lendAccounts 1000 openWorld
    (lentWorld 1000) ↔ 25 * 1000 < 2 ^ 64 := by
  have hok : (exec Sample.programs .off openWorld
      (.lendAndCall Sample.lendAccounts 1000)).isOk = true := by
    decide +kernel
  exact loanRepaid_iff_feeFits openWorld_reachable (eq_ok_advance hok)

-- the largest loan the supply leaves room for leaves nearly all of it with the borrower
theorem loanRepaid_fails : ¬ ∀ (d : Programs) (w w' : World) (a : LendAccounts) (amount : U64),
    Reachable (exec d .off) (Genesis d) w → exec d .off w (.lendAndCall a amount) = .ok w' →
      LoanRepaid a amount.toNat w w' := by
  intro hall
  have hok : (exec Sample.programs .off openWorld
      (.lendAndCall Sample.lendAccounts 18446744073709550615)).isOk = true := by
    decide +kernel
  have hsupply := (hall _ _ _ _ _ openWorld_reachable (eq_ok_advance hok)).2
  revert hsupply
  decide +kernel

end FlufProgram
