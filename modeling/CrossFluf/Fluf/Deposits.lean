import CrossFluf.Fluf.Principal

/-!
# What a deposit into a pool buys

The fT of a deposit are a quotient rounded down, and unless the pool holds no tokens at all nothing
keeps that quotient from being zero.
-/

namespace FlufProgram

open Machine Solana Outcome Run Proportion

variable {d : Programs} {oc : OverflowChecks} {w w' : World} {a : PoolAccounts}
  {amount fluf : U64} {pa ua : TokenAccount} {fm : Mint} {paid minted : Tokens}

/-- The pool a depositor names. -/
def PoolAccounts.target (a : PoolAccounts) : Pool := ⟨a.poolMint, a.flufMint⟩

/-- An amount buys a share: the pool holds nothing, or the amount is worth an fT and the low 64
bits of the quotient show it. -/
def BuysShare (d : Programs) (w : World) (x : Pool) (amount : ℕ) : Prop :=
  x.balance d w = 0 ∨ x.balance d w ≤ amount * x.supply w ∧
    ¬ 2 ^ 64 ∣ amount * x.supply w / x.balance d w

/-- A deposit of something adds fT to the account of the depositor. -/
def DepositMints (w : World) (i : Instruction) (w' : World) : Prop :=
  ∀ a amount, i = .deposit a amount → 0 < amount.toNat →
    w.tokens.balance a.userFlufAccount < w'.tokens.balance a.userFlufAccount

def DepositBuysShare (d : Programs) (w : World) (i : Instruction) : Prop :=
  ∀ a amount, i = .deposit a amount → 0 < amount.toNat → BuysShare d w a.target amount.toNat

/-! ## One deposit -/

/-- The two accounts of the depositor hold tokens of different mints. -/
theorem PoolAccess.userAccount_ne_userFlufAccount (h : PoolAccess d w a pa fm ua)
    (hr : PoolReady d w a.pool a.target) : a.userFlufAccount ≠ a.userAccount := by
  intro he
  obtain ⟨y, hy, hym, -⟩ := h.userAccount_ok
  rw [← he, h.userFlufAccount_ok.1, Option.some_inj] at hy
  apply hr.distinct
  show a.poolMint = a.flufMint
  rw [← hym, ← hy, h.userFlufAccount_ok.2.1]

theorem Deposited.userFluf_balance (h : Deposited d oc w a amount pa fm ua fluf paid minted w')
    (hw : Inv d w) : w'.tokens.balance a.userFlufAccount =
      w.tokens.balance a.userFlufAccount + fluf.toNat := by
  have hr := hw.ready _ _ h.access.loaded
  have hpool := h.access.userFlufAccount_ne hr
  have huser := h.access.userAccount_ne_userFlufAccount hr
  rw [h.world, World.setTokens_tokens, Tokens.mintTo_balance h.minted_ok,
    Tokens.transfer_balance_of_ne h.paid_ok huser hpool.symm]

-- the quotient is zero, or its low bits are
theorem mod_pos_iff {n k : ℕ} : 0 < n % k ↔ ¬ k ∣ n := by
  rw [Nat.pos_iff_ne_zero, Ne, Nat.dvd_iff_mod_eq_zero]

theorem Deposited.fluf_pos_iff (h : Deposited d oc w a amount pa fm ua fluf paid minted w')
    (hpos : 0 < amount.toNat) : 0 < fluf.toNat ↔ BuysShare d w a.target amount.toNat := by
  have hbalance : a.target.balance d w = pa.amount.toNat := h.access.balance_eq
  have hsupply : a.target.supply w = fm.supply.toNat := h.access.supply_eq
  rw [BuysShare, hbalance, hsupply]
  have hfluf := h.fluf_ok
  rw [amountFluf] at hfluf
  split at hfluf
  · rename_i hzero
    rw [pure_eq_ok] at hfluf
    subst hfluf
    exact iff_of_true hpos (Or.inl (by rw [hzero]; rfl))
  · obtain ⟨hz, hf⟩ := mulDiv_eq_ok hfluf
    rw [hf, mod_pos_iff, or_iff_right hz]
    apply Iff.intro
    · intro hdvd
      refine ⟨?_, hdvd⟩
      by_contra hlt
      rw [Nat.div_eq_of_lt (Nat.lt_of_not_le hlt)] at hdvd
      exact hdvd (dvd_zero _)
    · exact fun hbuys ↦ hbuys.2

theorem depositMints_step {i : Instruction} (hw : Inv d w) (h : exec d oc w i = .ok w') :
    DepositMints w i w' ↔ DepositBuysShare d w i := by
  refine forall_congr' fun a ↦ forall_congr' fun amount ↦ forall_congr' fun hi ↦
    forall_congr' fun hpos ↦ ?_
  subst hi
  obtain ⟨pa, fm, ua, fluf, paid, minted, hd⟩ := deposit_eq_ok h
  rw [hd.userFluf_balance hw, Nat.lt_add_right_iff_pos]
  exact hd.fluf_pos_iff hpos

/-! ## Runs -/

/-- In a pool that holds a token for each fT the quotient is at most the amount. -/
theorem Covered.buysShare_iff (hw : Covered d w) {K : Pubkey} {x : Pool}
    (hx : w.pools K = some x) (amount : U64) : BuysShare d w x amount.toNat ↔
      x.balance d w = 0 ∨ x.balance d w ≤ amount.toNat * x.supply w := by
  rw [BuysShare]
  refine or_congr_right' fun hz ↦ and_iff_left_of_imp fun hle hdvd ↦ ?_
  have hlt : amount.toNat * x.supply w / x.balance d w < 2 ^ 64 :=
    lt_of_le_of_lt (floor_issue_le (hw.covered K x hx)) amount.isLt
  have hpos : 0 < amount.toNat * x.supply w / x.balance d w :=
    Nat.div_pos hle (Nat.pos_of_ne_zero hz)
  exact absurd (Nat.le_of_dvd hpos hdvd) (Nat.not_le_of_lt hlt)

/-- In a run every deposit of something mints an fT exactly when every amount buys a share of the
pool it finds.  With overflow checks on that is to say that the pool holds nothing or the amount is
worth an fT. -/
theorem depositMints_iff (hw : Genesis d w) (is : List Instruction) :
    (EachStep (exec d oc) DepositMints w is ↔
        EachStep (exec d oc) (fun w i _ ↦ DepositBuysShare d w i) w is) ∧
      ∀ K x, (run (exec d .on) w is).pools K = some x → ∀ amount : U64,
        (BuysShare d (run (exec d .on) w is) x amount.toNat ↔
          x.balance d (run (exec d .on) w is) = 0 ∨
            x.balance d (run (exec d .on) w is) ≤
              amount.toNat * x.supply (run (exec d .on) w is)) := by
  apply And.intro
  · refine eachStep_congr ?_ ?_ hw.inv is
    · intro w i w' hi h
      exact exec_inv hi h
    · intro w i w' hi h
      exact depositMints_step hi h
  · intro K x hx amount
    exact (reachable_covered ⟨w, is, hw, rfl⟩).buysShare_iff hx amount

/-! ## A donation before the first deposit -/

/-- A pool of one donated token without any fT. -/
def donatedRun : List Instruction :=
  Sample.setup ++
    [.wallet [Sample.user]
      (.transfer Sample.userAccount (Sample.programs.poolAccount Sample.poolMint) Sample.user 1)]

def donatedWorld : World := run (exec Sample.programs .on) Sample.empty donatedRun

def swallowedDeposit : Instruction := .deposit Sample.accounts 100

theorem depositMints_iff_donated :
    EachStep (exec Sample.programs .on) DepositMints Sample.empty
        (donatedRun ++ [swallowedDeposit]) ↔
      EachStep (exec Sample.programs .on) (fun w i _ ↦ DepositBuysShare Sample.programs w i)
        Sample.empty (donatedRun ++ [swallowedDeposit]) :=
  (depositMints_iff Sample.genesis (donatedRun ++ [swallowedDeposit])).1

theorem depositMints_fails : ¬ ∀ (d : Programs) (w w' : World) (a : PoolAccounts) (amount : U64),
    Reachable (exec d .on) (Genesis d) w → 0 < amount.toNat →
      exec d .on w (.deposit a amount) = .ok w' →
        w.tokens.balance a.userFlufAccount < w'.tokens.balance a.userFlufAccount := by
  intro hall
  have hok : (exec Sample.programs .on donatedWorld swallowedDeposit).isOk = true := by
    decide +kernel
  have hgrows := hall _ _ _ _ _ ⟨Sample.empty, donatedRun, Sample.genesis, rfl⟩ (by decide)
    (eq_ok_advance hok)
  revert hgrows
  decide +kernel

end FlufProgram
