import CrossFluf.Fluf.Pools
import CrossFluf.Base.Proportion

/-!
# The principal of fT holders

With overflow checks on, every instruction changes a pool the way a common fund may change, so an
fT never loses value and is always worth at least one pool token.
-/

namespace FlufProgram

open Machine Solana Outcome Run Proportion

variable {d : Programs} {w w' : World} {K : Pubkey} {x : Pool}

/-- The pool tokens a pool holds. -/
def Pool.balance (d : Programs) (w : World) (x : Pool) : ℕ :=
  w.tokens.balance (d.poolAccount x.poolMint)

/-- The fT a pool has issued. -/
def Pool.supply (w : World) (x : Pool) : ℕ := w.tokens.supply x.flufMint

/-- The pool as a fund changed the way it may. -/
def PoolChange (d : Programs) (x : Pool) (w w' : World) : Prop :=
  Change (x.balance d w) (x.supply w) (x.balance d w') (x.supply w')

/-! ## One instruction -/

section Access

variable {a : PoolAccounts} {pa ua : TokenAccount} {fm : Mint}

/-- The user's account of pool tokens is not the pool's: their owners differ. -/
theorem PoolAccess.userAccount_ne (h : PoolAccess d w a pa fm ua) :
    a.userAccount ≠ a.poolAccount := by
  intro he
  obtain ⟨y, hy, -, ho⟩ := h.userAccount_ok
  rw [he, h.poolAccount_ok.1, Option.some_inj] at hy
  have hsigner := h.signer
  rw [← ho, ← hy, h.poolAccount_ok.2.2, h.pool_eq, d.isDerived_pool] at hsigner
  cases hsigner

/-- Nor is the account of fT: the mints differ. -/
theorem PoolAccess.userFlufAccount_ne (h : PoolAccess d w a pa fm ua)
    (hr : PoolReady d w a.pool ⟨a.poolMint, a.flufMint⟩) : a.poolAccount ≠ a.userFlufAccount := by
  intro he
  have hsome := h.userFlufAccount_ok.1
  rw [← he, h.poolAccount_ok.1, Option.some_inj] at hsome
  apply hr.distinct
  show a.poolMint = a.flufMint
  rw [← h.poolAccount_ok.2.1, hsome, h.userFlufAccount_ok.2.1]

theorem PoolAccess.balance_eq (h : PoolAccess d w a pa fm ua) :
    Pool.balance d w ⟨a.poolMint, a.flufMint⟩ = pa.amount.toNat := by
  rw [Pool.balance, ← h.poolAccount_eq, Tokens.balance_of_account h.poolAccount_ok.1]

theorem PoolAccess.supply_eq (h : PoolAccess d w a pa fm ua) :
    Pool.supply w ⟨a.poolMint, a.flufMint⟩ = fm.supply.toNat :=
  Tokens.supply_of_mint h.flufMint_ok.2.1

end Access

variable {oc : OverflowChecks}

/-- A deposit buys at most its share of the pool, under either profile. -/
theorem Deposited.change {a : PoolAccounts} {amount fluf : U64} {pa ua : TokenAccount} {fm : Mint}
    {paid minted : Tokens} (h : Deposited d oc w a amount pa fm ua fluf paid minted w')
    (hw : Inv d w) : PoolChange d ⟨a.poolMint, a.flufMint⟩ w w' := by
  have hne := h.access.userAccount_ne
  have hmint := h.access.userFlufAccount_ne (hw.ready _ _ h.access.loaded)
  have hassets : Pool.balance d w' ⟨a.poolMint, a.flufMint⟩ =
      pa.amount.toNat + amount.toNat := by
    rw [Pool.balance, ← h.access.poolAccount_eq, h.world, World.setTokens_tokens,
      Tokens.mintTo_balance_of_ne h.minted_ok hmint, (Tokens.transfer_balance h.paid_ok hne).2,
      Tokens.balance_of_account h.access.poolAccount_ok.1]
  have hshares : Pool.supply w' ⟨a.poolMint, a.flufMint⟩ = fm.supply.toNat + fluf.toNat := by
    rw [Pool.supply, h.world, World.setTokens_tokens, Tokens.mintTo_supply h.minted_ok,
      Tokens.transfer_supply h.paid_ok, Tokens.supply_of_mint h.access.flufMint_ok.2.1]
  rw [PoolChange, h.access.balance_eq, h.access.supply_eq, hassets, hshares]
  have hfluf := h.fluf_ok
  rw [amountFluf] at hfluf
  split at hfluf
  -- the first deposit buys one fT a token
  · rename_i hzero
    rw [pure_eq_ok] at hfluf
    subst hfluf
    refine .issue ?_ fun _ ↦ le_rfl
    rw [hzero]
    exact Nat.zero_le _
  · obtain ⟨hz, hf⟩ := mulDiv_eq_ok hfluf
    exact .issue (mod_floor_mul_le hf) fun he ↦ absurd he hz

/-- A withdrawal pays at most its share of the pool, under either profile. -/
theorem Withdrawn.change {a : PoolAccounts} {amount : U64} {pa ua : TokenAccount} {fm : Mint}
    {burned paid : Tokens} (h : Withdrawn d oc w a pa fm ua amount burned paid w')
    (hw : Inv d w) : PoolChange d ⟨a.poolMint, a.flufMint⟩ w w' := by
  have hne := h.access.userAccount_ne
  have hmint := h.access.userFlufAccount_ne (hw.ready _ _ h.access.loaded)
  have hassets : pa.amount.toNat =
      Pool.balance d w' ⟨a.poolMint, a.flufMint⟩ + amount.toNat := by
    rw [Pool.balance, ← h.access.poolAccount_eq, h.world, World.setTokens_tokens,
      ← (Tokens.transfer_balance h.paid_ok hne.symm).1,
      Tokens.burn_balance_of_ne h.burned_ok hmint,
      Tokens.balance_of_account h.access.poolAccount_ok.1]
  have hshares : fm.supply.toNat =
      Pool.supply w' ⟨a.poolMint, a.flufMint⟩ + ua.amount.toNat := by
    rw [Pool.supply, h.world, World.setTokens_tokens, Tokens.transfer_supply h.paid_ok,
      ← Tokens.burn_supply h.burned_ok, Tokens.supply_of_mint h.access.flufMint_ok.2.1]
  rw [PoolChange, h.access.balance_eq, h.access.supply_eq]
  refine .redeem (f := ua.amount.toNat) (x := amount.toNat) ?_ hassets hshares
  have hamount := h.amount_ok
  rw [amountPool] at hamount
  split at hamount
  · rw [pure_eq_ok] at hamount
    rw [← hamount]
    simp
  · exact mod_floor_mul_le (mulDiv_eq_ok hamount).2

section Loan

variable {a : LendAccounts} {amount total repaid fee burn : U64} {w₁ : World}
  {lent called charged burned : Tokens}

/-- The pool's own tokens are of another mint than those a loan moves. -/
theorem Lent.poolAccount_ne
    (h : Lent d oc w a amount w₁ lent called charged burned total repaid fee burn w')
    (hw : Inv d w) : a.poolAccount ≠ a.borrowerFlufAccount ∧
      a.poolAccount ≠ a.poolFlufAccount ∧ a.poolAccount ≠ a.feeAccount := by
  have hr := hw.ready _ _ h.loaded
  obtain ⟨y, hy, hym, -⟩ := (hr.preserve h.loaded
    (initTokenAccountIfNeeded_summary h.opened)).poolAccount_ok
  rw [← h.poolAccount_eq] at hy
  obtain ⟨y₁, hy₁, hym₁, -⟩ := (Tokens.mintTo_frame h.lent_ok).1.account _ y hy
  obtain ⟨y₂, hy₂, hym₂, -⟩ := h.charged_step.frame.account _ y₁ hy₁
  refine ⟨fun he ↦ ?_, fun he ↦ ?_, fun he ↦ ?_⟩
  · obtain ⟨z, hz, hzm, -⟩ := h.called_ok.borrower_ok
    have hsame : some y₁ = some z := (he ▸ hy₁).symm.trans hz
    rw [← Option.some_inj.mp hsame, hym₁, hym] at hzm
    exact hr.distinct hzm
  · obtain ⟨s, -, -, -, -, hs, hsm, -⟩ := Tokens.burn_eq_ok h.burned_ok
    rw [← he, hy₂, Option.some_inj] at hs
    rw [← hs, hym₂, hym₁, hym] at hsm
    exact hr.distinct hsm
  · obtain ⟨z, hz, hzm, -⟩ := initTokenAccountIfNeeded_account h.opened
    rw [← he, hy, Option.some_inj] at hz
    rw [← hz, hym] at hzm
    exact hr.distinct hzm

/-- A loan moves fT only, so the pool keeps its tokens. -/
theorem Lent.balance_eq
    (h : Lent d oc w a amount w₁ lent called charged burned total repaid fee burn w')
    (hw : Inv d w) : Pool.balance d w' ⟨a.poolMint, a.flufMint⟩ =
      Pool.balance d w ⟨a.poolMint, a.flufMint⟩ := by
  obtain ⟨hborrower, hlender, hfee⟩ := h.poolAccount_ne hw
  rw [Pool.balance, Pool.balance, ← h.poolAccount_eq, h.world, World.setTokens_tokens]
  calc
    burned.balance a.poolAccount = charged.balance a.poolAccount :=
      Tokens.burn_balance_of_ne h.burned_ok hlender
    _ = called.balance a.poolAccount := Tokens.transfer_balance_of_ne h.charged_ok hlender hfee
    _ = lent.balance a.poolAccount :=
      Tokens.transfer_balance_of_ne h.called_ok.moved hborrower hlender
    _ = w₁.tokens.balance a.poolAccount := Tokens.mintTo_balance_of_ne h.lent_ok hborrower
    _ = w.tokens.balance a.poolAccount := initTokenAccountIfNeeded_balance h.opened _

/-- Checked arithmetic burns at least what was lent. -/
theorem Lent.supply_le
    (h : Lent d .on w a amount w₁ lent called charged burned total repaid fee burn w') :
    Pool.supply w' ⟨a.poolMint, a.flufMint⟩ ≤ Pool.supply w ⟨a.poolMint, a.flufMint⟩ := by
  have hsupply := h.supply
  obtain ⟨-, hle, hfee, hsplit⟩ := splitRepayment_on h.split_ok
  show w'.tokens.supply a.flufMint ≤ w.tokens.supply a.flufMint
  omega

end Loan

/-- Every instruction treats every pool as a fund. -/
theorem exec_change {i : Instruction} (hw : Inv d w) (hx : w.pools K = some x)
    (h : exec d .on w i = .ok w') : PoolChange d x w w' := by
  by_cases hi : i.pool = some K
  -- the pool's own instructions
  · cases i with
    | deposit a amount =>
      obtain ⟨pa, fm, ua, fluf, paid, minted, hd⟩ := deposit_eq_ok h
      rw [← Option.some_inj.mp hi, hd.access.loaded, Option.some_inj] at hx
      exact hx ▸ hd.change hw
    | withdraw a =>
      obtain ⟨pa, fm, ua, amount, burned, paid, hd⟩ := withdraw_eq_ok.mp h
      rw [← Option.some_inj.mp hi, hd.access.loaded, Option.some_inj] at hx
      exact hx ▸ hd.change hw
    | lendAndCall a amount =>
      obtain ⟨w₁, lent, called, charged, burned, total, repaid, fee, burn, hl⟩ :=
        lendAndCall_eq_ok h
      rw [← Option.some_inj.mp hi, hl.loaded, Option.some_inj] at hx
      exact hx ▸ .outside (hl.balance_eq hw).ge hl.supply_le
    | initializeState a => cases hi
    | createPool a decimals => cases hi
    | withdrawFees a => cases hi
    | createAccounts a => cases hi
    | handleBorrow a amount => cases hi
    | wallet signers i => cases hi
  · obtain ⟨ha, hs⟩ := (exec_summary h).outside hw hx (exec_unsigned hw hx h hi)
    exact .outside ha hs

/-! ## Runs -/

/-- Every pool holds at least one token for each fT. -/
structure Covered (d : Programs) (w : World) : Prop extends Inv d w where
  covered : ∀ K x, w.pools K = some x → x.supply w ≤ x.balance d w

theorem Genesis.toCovered (h : Genesis d w) : Covered d w where
  toInv := h.inv
  covered K x hx := by
    rw [h.pools] at hx
    cases hx

theorem exec_covered {i : Instruction} (hw : Covered d w) (h : exec d .on w i = .ok w') :
    Covered d w' where
  toInv := exec_inv hw.toInv h
  covered K x hx := by
    cases hK : w.pools K with
    | some y =>
      have hy := (exec_summary h).pools K y hK
      rw [hx, Option.some_inj] at hy
      subst hy
      exact (exec_change hw.toInv hK h).covered (hw.covered K x hK)
    | none =>
      rcases exec_pools h with he | ⟨a, decimals, w₂, -, hc⟩
      · rw [he, hK] at hx
        cases hx
      · by_cases hk : K = a.pool
        · subst hk
          rw [hc.loaded, Option.some_inj] at hx
          subst hx
          show w'.tokens.supply a.flufMint ≤ _
          rw [hc.empty.2]
          exact Nat.zero_le _
        · rw [hc.pools_of_ne hk, hK] at hx
          cases hx

theorem reachable_covered (h : Reachable (exec d .on) (Genesis d) w) : Covered d w :=
  reachable_invariant (fun _ hg ↦ hg.toCovered) (fun _ _ _ hs hx ↦ exec_covered hs hx) h

/-! ## Redemption -/

/-- A withdrawal is worth `f * B / S`, untruncated when the pool is covered. -/
theorem amountPool_eq {pb fs f r : U64} (h : amountPool oc pb fs f = .ok r)
    (hfs : f.toNat ≤ fs.toNat) : r.toNat = f.toNat * pb.toNat / fs.toNat := by
  rw [amountPool] at h
  split at h
  · rename_i hz
    rw [pure_eq_ok] at h
    rw [← h, hz]
    exact (Nat.div_zero _).symm
  · have hle := floor_share_le (a := pb.toNat) hfs
    rw [(mulDiv_eq_ok h).2]
    exact Nat.mod_eq_of_lt (lt_of_le_of_lt hle pb.isLt)

theorem amountPool_succeeds (pb fs f : U64) : ∃ r, amountPool oc pb fs f = .ok r := by
  rw [amountPool]
  split
  · exact ⟨0, rfl⟩
  · rename_i hz
    apply mulDiv_succeeds
    intro he
    exact hz (BitVec.eq_of_toNat_eq he)

/-- Who may burn the fT of an account gets at least one token for each. -/
theorem PoolAccess.withdraw_succeeds {a : PoolAccounts} {pa ua : TokenAccount} {fm : Mint}
    (h : PoolAccess d w a pa fm ua) (oc : OverflowChecks) (hw : Inv d w)
    (hallow : ua.delegate = some a.user → ua.amount.toNat ≤ ua.delegatedAmount.toNat)
    (hcovered : fm.supply.toNat ≤ pa.amount.toNat) :
    ∃ w', withdraw d oc w a = .ok w' ∧
      w.tokens.balance a.userAccount + ua.amount.toNat ≤ w'.tokens.balance a.userAccount := by
  have hr := hw.ready _ _ h.loaded
  obtain ⟨y, hy, hym, hyo⟩ := h.userAccount_ok
  obtain ⟨hua, huam, huao⟩ := h.userFlufAccount_ok
  have hshare : ua.amount.toNat ≤ fm.supply.toNat := by
    have hle := hw.sound.balance_le hua
    rwa [huam, Tokens.supply_of_mint h.flufMint_ok.2.1] at hle
  obtain ⟨r, hr'⟩ : ∃ r, amountPool oc pa.amount fm.supply ua.amount = .ok r :=
    amountPool_succeeds pa.amount fm.supply ua.amount
  have hamount := amountPool_eq hr' hshare
  obtain ⟨burned, hburned⟩ : ∃ t, w.tokens.burn [a.user] a.userFlufAccount a.flufMint a.user
      ua.amount = .ok t :=
    Tokens.burn_succeeds hw.sound hua h.flufMint_ok.2.1 huam huao hallow List.mem_cons_self le_rfl
  -- the burn leaves the two accounts of pool tokens alone
  have hdst : a.userAccount ≠ a.userFlufAccount := fun he ↦ by
    rw [he, hua, Option.some_inj] at hy
    apply hr.distinct
    show a.poolMint = a.flufMint
    rw [← hym, ← hy, huam]
  have hpa : burned.account a.poolAccount = some pa := by
    rw [Tokens.burn_account_of_ne hburned (h.userFlufAccount_ne hr), h.poolAccount_ok.1]
  have hy' : burned.account a.userAccount = some y := by
    rw [Tokens.burn_account_of_ne hburned hdst, hy]
  have hpays : r.toNat ≤ pa.amount.toNat := hamount ▸ floor_share_le hshare
  have hnone : pa.delegate = none :=
    hw.undelegated _ pa h.poolAccount_ok.1 (by rw [h.poolAccount_ok.2.2, hr.isDerived])
  obtain ⟨paid, hpaid⟩ : ∃ t, burned.transfer [a.user, a.pool] a.poolAccount a.userAccount a.pool
      r = .ok t :=
    Tokens.transfer_succeeds (Tokens.burn_sound hw.sound hburned) hpa hy' h.userAccount_ne.symm
      (h.poolAccount_ok.2.1.trans hym.symm) h.poolAccount_ok.2.2
      (fun he ↦ absurd (hnone.symm.trans he) nofun)
      (List.mem_cons_of_mem _ List.mem_cons_self) hpays
  refine ⟨w.setTokens paid, ?_, ?_⟩
  · exact withdraw_eq_ok.mpr ⟨pa, fm, ua, r, burned, paid, h, hr', hburned, hpaid, rfl⟩
  · rw [World.setTokens_tokens, (Tokens.transfer_balance hpaid h.userAccount_ne.symm).2,
      Tokens.balance_of_account hy', Tokens.balance_of_account hy, hamount]
    apply Nat.add_le_add_left
    rcases Nat.eq_zero_or_pos fm.supply.toNat with hz | hpos
    · omega
    · exact le_floor_share hpos hcovered

/-- A holder of `f` fT, with an account of pool tokens to be paid into.  An owner who is also the
delegate of the account may spend no more than the allowance. -/
structure Holder (d : Programs) (w : World) (x : Pool) (user userAccount userFlufAccount : Pubkey)
    (f : U64) : Prop where
  signer : d.isDerived user = false
  userAccount_ok : ∃ y, w.tokens.account userAccount = some y ∧ y.mint = x.poolMint ∧
    y.owner = user
  userFlufAccount_ok : ∃ y, w.tokens.account userFlufAccount = some y ∧ y.mint = x.flufMint ∧
    y.owner = user ∧ y.amount = f ∧ (y.delegate = some user → f.toNat ≤ y.delegatedAmount.toNat)

/-- The accounts a holder passes to `withdraw`. -/
def Pool.accounts (d : Programs) (x : Pool) (user userAccount userFlufAccount : Pubkey) :
    PoolAccounts where
  user := user
  pool := d.pool x.poolMint
  poolMint := x.poolMint
  poolAccount := d.poolAccount x.poolMint
  userAccount := userAccount
  flufMint := x.flufMint
  poolFlufAccount := d.poolFlufAccount x.poolMint
  userFlufAccount := userFlufAccount

theorem Holder.access {user userAccount userFlufAccount : Pubkey} {f : U64}
    (h : Holder d w x user userAccount userFlufAccount f) (hx : w.pools K = some x)
    (hr : PoolReady d w K x) : ∃ pa fm ua,
      PoolAccess d w (x.accounts d user userAccount userFlufAccount) pa fm ua ∧ ua.amount = f ∧
        (ua.delegate = some user → f.toNat ≤ ua.delegatedAmount.toNat) := by
  obtain ⟨ua, hua, huam, huao, huaf, huad⟩ := h.userFlufAccount_ok
  obtain ⟨pa, hpa⟩ := hr.poolAccount_ok
  obtain ⟨fm, hfm⟩ := hr.flufMint_ok
  have hK := hr.pool_eq
  subst hK
  exact ⟨pa, fm, ua,
    { signer := h.signer
      pool_eq := rfl
      poolMint_some := hr.poolMint_some
      poolAccount_eq := rfl
      poolAccount_ok := hpa
      userAccount_ok := h.userAccount_ok
      flufMint_ok := ⟨hr.flufMint_eq, hfm⟩
      poolFlufAccount_eq := rfl
      poolFlufAccount_ok := hr.poolFlufAccount_ok
      userFlufAccount_ok := ⟨hua, huam, huao⟩
      loaded := hx }, huaf, huad⟩

/-! ## The guarantee -/

/-- In every reachable state, for every pool of `B` tokens and `S` fT: `S ≤ B`, so neither quotient
of `deposit` and `withdraw` leaves `u64`; no instruction lowers `B / S`; and every holder withdraws
at least one token for each fT. -/
theorem principalGuarantee (h : Reachable (exec d .on) (Genesis d) w)
    (hx : w.pools K = some x) :
    (x.supply w ≤ x.balance d w ∧
      (∀ amount : U64, amount.toNat * x.supply w / x.balance d w < 2 ^ 64) ∧
      ∀ k y, w.tokens.account k = some y → y.mint = x.flufMint →
        y.amount.toNat * x.balance d w / x.supply w < 2 ^ 64) ∧
    (∀ i w', exec d .on w i = .ok w' → 0 < x.supply w → 0 < x.supply w' →
      x.balance d w * x.supply w' ≤ x.balance d w' * x.supply w) ∧
    ∀ user userAccount userFlufAccount f, Holder d w x user userAccount userFlufAccount f →
      ∃ w', exec d .on w (.withdraw (x.accounts d user userAccount userFlufAccount)) = .ok w' ∧
        w.tokens.balance userAccount + f.toNat ≤ w'.tokens.balance userAccount := by
  have hw := reachable_covered h
  have hcovered := hw.covered K x hx
  refine ⟨⟨hcovered, ?_, ?_⟩, ?_, ?_⟩
  · intro amount
    exact lt_of_le_of_lt (floor_issue_le hcovered) amount.isLt
  · intro k y hy hm
    have hle := hw.sound.balance_le hy
    rw [hm] at hle
    obtain ⟨pa, hpa, -⟩ := (hw.ready K x hx).poolAccount_ok
    have hlt := pa.amount.isLt
    rw [← Tokens.balance_of_account hpa] at hlt
    exact lt_of_le_of_lt (floor_share_le hle) hlt
  · intro i w' hi _ _
    exact (exec_change hw.toInv hx hi).valuePerShareLE
  · intro user userAccount userFlufAccount f hf
    obtain ⟨pa, fm, ua, ha, hua, hallow⟩ := hf.access hx (hw.ready K x hx)
    have hcov : fm.supply.toNat ≤ pa.amount.toNat := by
      rw [← ha.supply_eq, ← ha.balance_eq]
      exact hcovered
    obtain ⟨w', hw', hpaid⟩ := ha.withdraw_succeeds .on hw.toInv (hua ▸ hallow) hcov
    exact ⟨w', hw', hua ▸ hpaid⟩

/-- A pool of 150 tokens, 50 of them donated, with 100 fT. -/
def fundedRun : List Instruction :=
  Sample.setup ++
    [.deposit Sample.accounts 100,
     .wallet [Sample.user]
      (.transfer Sample.userAccount (Sample.programs.poolAccount Sample.poolMint) Sample.user 50)]

def fundedWorld : World := run (exec Sample.programs .on) Sample.empty fundedRun

/-- The next deposit buys 66 fT for 100 tokens. -/
def secondDeposit : Instruction := .deposit Sample.accounts 100

def depositedWorld : World := advance (exec Sample.programs .on) fundedWorld secondDeposit

def samplePool : Pool := ⟨Sample.poolMint, Sample.flufMint⟩

theorem principalGuarantee_sample :
    samplePool.supply fundedWorld ≤ samplePool.balance Sample.programs fundedWorld ∧
      samplePool.balance Sample.programs fundedWorld * samplePool.supply depositedWorld ≤
        samplePool.balance Sample.programs depositedWorld * samplePool.supply fundedWorld ∧
      ∃ w', exec Sample.programs .on fundedWorld (.withdraw (samplePool.accounts Sample.programs
          Sample.user Sample.userAccount Sample.userFlufAccount)) = .ok w' ∧
        fundedWorld.tokens.balance Sample.userAccount + 100 ≤
          w'.tokens.balance Sample.userAccount := by
  have hpool : fundedWorld.pools Sample.pool = some samplePool := by decide +kernel
  have hok : (exec Sample.programs .on fundedWorld secondDeposit).isOk = true := by
    decide +kernel
  have hsupply : 0 < samplePool.supply fundedWorld ∧ 0 < samplePool.supply depositedWorld := by
    decide +kernel
  have haccounts : fundedWorld.tokens.account Sample.userAccount =
        some ⟨Sample.poolMint, Sample.user, 850, none, 0⟩ ∧
      fundedWorld.tokens.account Sample.userFlufAccount =
        some ⟨Sample.flufMint, Sample.user, 100, none, 0⟩ := by
    decide +kernel
  have hholder : Holder Sample.programs fundedWorld samplePool Sample.user Sample.userAccount
      Sample.userFlufAccount 100 :=
    { signer := by decide +kernel
      userAccount_ok := ⟨_, haccounts.1, rfl, rfl⟩
      userFlufAccount_ok := ⟨_, haccounts.2, rfl, rfl, rfl, nofun⟩ }
  obtain ⟨⟨hcovered, -, -⟩, hratio, hredeem⟩ :=
    principalGuarantee ⟨Sample.empty, fundedRun, Sample.genesis, rfl⟩ hpool
  exact ⟨hcovered, hratio _ _ (eq_ok_advance hok) hsupply.1 hsupply.2, hredeem _ _ _ _ hholder⟩

end FlufProgram
