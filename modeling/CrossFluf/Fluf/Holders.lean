import CrossFluf.Base.Exchange
import CrossFluf.Fluf.Principal

/-!
# A holder who sits still

Deposits, withdrawals, loans, donations and burns of others, in any order and in any number, never
take from the fT of a holder who signs nothing: at the end they redeem for what they were worth at
the start.
-/

namespace FlufProgram

open Machine Solana Outcome Run Proportion Exchange

variable {d : Programs} {oc : OverflowChecks} {w w' : World} {K : Pubkey} {x : Pool}

/-- `owner` keeps `f` fT of a pool and an account to be paid into, and nobody else may spend the
fT. -/
structure Sitting (x : Pool) (owner userAccount userFlufAccount : Pubkey) (f : ℕ) (w : World) :
    Prop where
  userAccount_ok : ∃ y, w.tokens.account userAccount = some y ∧ y.mint = x.poolMint ∧
    y.owner = owner
  userFlufAccount_ok : ∃ y, w.tokens.account userFlufAccount = some y ∧ y.mint = x.flufMint ∧
    y.owner = owner ∧ y.delegate = none ∧ f ≤ y.amount.toNat

variable {owner userAccount userFlufAccount : Pubkey} {f : ℕ}

theorem exec_sitting {i : Instruction} (hw : Sitting x owner userAccount userFlufAccount f w)
    (h : exec d oc w i = .ok w') (hi : owner ∉ i.signers) :
    Sitting x owner userAccount userFlufAccount f w' where
  userAccount_ok := by
    obtain ⟨y, hy, hm, ho⟩ := hw.userAccount_ok
    obtain ⟨y', hy', hm', ho', -⟩ := (exec_summary h).tokens.frame.account _ y hy
    exact ⟨y', hy', hm'.trans hm, ho'.trans ho⟩
  userFlufAccount_ok := by
    obtain ⟨y, hy, hm, ho, hd, hle⟩ := hw.userFlufAccount_ok
    obtain ⟨y', hy', hm', ho', hkeep⟩ := (exec_summary h).tokens.frame.account _ y hy
    obtain ⟨hd', hle'⟩ := hkeep (ho ▸ hi) hd
    exact ⟨y', hy', hm'.trans hm, ho'.trans ho, hd', le_trans hle hle'⟩

/-- The fT of a sitting holder are part of the supply. -/
theorem Sitting.le_supply (h : Sitting x owner userAccount userFlufAccount f w) (hw : Inv d w) :
    f ≤ x.supply w := by
  obtain ⟨y, hy, hm, -, -, hle⟩ := h.userFlufAccount_ok
  have hheld := hw.sound.balance_le hy
  rw [hm] at hheld
  exact le_trans hle hheld

theorem Sitting.holder (h : Sitting x owner userAccount userFlufAccount f w)
    (howner : d.isDerived owner = false) :
    ∃ g : U64, f ≤ g.toNat ∧ Holder d w x owner userAccount userFlufAccount g := by
  obtain ⟨y, hy, hm, ho, hd, hle⟩ := h.userFlufAccount_ok
  refine ⟨y.amount, hle, ⟨howner, h.userAccount_ok, y, hy, hm, ho, rfl, fun hs ↦ ?_⟩⟩
  rw [hd] at hs
  cases hs

/-! ## What a withdrawal pays -/

theorem Withdrawn.paid_eq {a : PoolAccounts} {pa ua : TokenAccount} {fm : Mint} {amount : U64}
    {burned paid : Tokens} (h : Withdrawn d oc w a pa fm ua amount burned paid w') (hw : Inv d w) :
    w'.tokens.balance a.userAccount =
      w.tokens.balance a.userAccount + ua.amount.toNat * pa.amount.toNat / fm.supply.toNat := by
  have hr := hw.ready _ _ h.access.loaded
  obtain ⟨y, hy, hym, -⟩ := h.access.userAccount_ok
  obtain ⟨hua, huam, -⟩ := h.access.userFlufAccount_ok
  have hshare : ua.amount.toNat ≤ fm.supply.toNat := by
    have hle := hw.sound.balance_le hua
    rwa [huam, Tokens.supply_of_mint h.access.flufMint_ok.2.1] at hle
  -- the burn takes from the fT account, which is not the one that is paid
  have hdst : a.userAccount ≠ a.userFlufAccount := fun he ↦ by
    rw [he, hua, Option.some_inj] at hy
    apply hr.distinct
    show a.poolMint = a.flufMint
    rw [← hym, ← hy, huam]
  rw [h.world, World.setTokens_tokens,
    (Tokens.transfer_balance h.paid_ok h.access.userAccount_ne.symm).2,
    Tokens.burn_balance_of_ne h.burned_ok hdst, amountPool_eq h.amount_ok hshare]

/-- In a covered pool every holder is paid exactly the floor of the share. -/
theorem Covered.withdraw_pays (hw : Covered d w) (hx : w.pools K = some x) {g : U64}
    (h : Holder d w x owner userAccount userFlufAccount g) :
    ∃ w', exec d .on w (.withdraw (x.accounts d owner userAccount userFlufAccount)) = .ok w' ∧
      w'.tokens.balance userAccount =
        w.tokens.balance userAccount + g.toNat * x.balance d w / x.supply w := by
  obtain ⟨pa, fm, ua, ha, rfl, hallow⟩ := h.access hx (hw.ready K x hx)
  have hbalance := ha.balance_eq
  have hsupply := ha.supply_eq
  have hcovered : fm.supply.toNat ≤ pa.amount.toNat := by
    rw [← hsupply, ← hbalance]
    exact hw.covered K x hx
  obtain ⟨w', hw', -⟩ := ha.withdraw_succeeds .on hw.toInv hallow hcovered
  obtain ⟨pa', fm', ua', amount, burned, paid, hout⟩ := withdraw_eq_ok.mp hw'
  have hpaid := hout.paid_eq hw.toInv
  obtain rfl : ua' = ua := Option.some_inj.mp
    (hout.access.userFlufAccount_ok.1.symm.trans ha.userFlufAccount_ok.1)
  rw [← hout.access.balance_eq, ← hout.access.supply_eq] at hpaid
  exact ⟨w', hw', hpaid⟩

/-! ## Over a run -/

section Sit

variable {is : List Instruction}

theorem always_sitting (hw : Covered d w) (hx : w.pools K = some x)
    (hsit : Sitting x owner userAccount userFlufAccount f w) (hi : ∀ i ∈ is, owner ∉ i.signers) :
    Always (exec d .on) (fun w ↦ Covered d w ∧ w.pools K = some x ∧
      Sitting x owner userAccount userFlufAccount f w) w is :=
  (eachStep_of_forall_mem hi w).always (fun _ _ _ hs hi h ↦
    ⟨exec_covered hs.1 h, (exec_summary h).pools K x hs.2.1, exec_sitting hs.2.2 h hi⟩)
    ⟨hw, hx, hsit⟩

/-- From any reachable state, after any run the holder does not sign in: the holder withdraws, and
gets at least what the fT were worth before the run. -/
theorem sitting_withdraws (hreach : Reachable (exec d .on) (Genesis d) w)
    (hx : w.pools K = some x) (howner : d.isDerived owner = false)
    (hsit : Sitting x owner userAccount userFlufAccount f w) (hf : 0 < f)
    (hi : ∀ i ∈ is, owner ∉ i.signers) :
    ∃ w', exec d .on (run (exec d .on) w is)
        (.withdraw (x.accounts d owner userAccount userFlufAccount)) = .ok w' ∧
      (run (exec d .on) w is).tokens.balance userAccount + f * x.balance d w / x.supply w ≤
        w'.tokens.balance userAccount := by
  have hruns := always_sitting (reachable_covered hreach) hx hsit hi
  have hpos : Always (exec d .on) (fun w ↦ 0 < x.supply w) w is :=
    hruns.mono fun _ h ↦ lt_of_lt_of_le hf (h.2.2.le_supply h.1.toInv)
  have hvalue : ValuePerShareLE (x.balance d w) (x.supply w)
      (x.balance d (run (exec d .on) w is)) (x.supply (run (exec d .on) w is)) :=
    value_run hpos (hruns.eachStep fun _ _ _ hs h ↦
      (exec_change hs.1.toInv hs.2.1 h).valuePerShareLE)
  obtain ⟨hcovered, hx', hsit'⟩ := hruns.last
  obtain ⟨g, hfg, hholder⟩ := hsit'.holder howner
  obtain ⟨w', hw', hpaid⟩ := hcovered.withdraw_pays hx' hholder
  refine ⟨w', hw', ?_⟩
  rw [hpaid]
  apply Nat.add_le_add_left
  calc
    f * x.balance d w / x.supply w ≤
        f * x.balance d (run (exec d .on) w is) / x.supply (run (exec d .on) w is) :=
      claim_le hvalue hpos.last f
    _ ≤ g.toNat * x.balance d (run (exec d .on) w is) / x.supply (run (exec d .on) w is) :=
      Nat.div_le_div_right (Nat.mul_le_mul_right _ hfg)

end Sit

/-! ## A holder among others -/

def sitter : Pubkey := 160
def sitterAccount : Pubkey := 192
def sitterFlufAccount : Pubkey := 224

/-- Of the 100 fT of a pool of 150 tokens, 40 belong to another. -/
def sharedRun : List Instruction :=
  fundedRun ++
    [.wallet [sitterAccount] (.initializeAccount sitterAccount Sample.poolMint sitter),
     .wallet [sitterFlufAccount] (.initializeAccount sitterFlufAccount Sample.flufMint sitter),
     .wallet [Sample.user] (.transfer Sample.userFlufAccount sitterFlufAccount Sample.user 40)]

def sharedWorld : World := run (exec Sample.programs .on) Sample.empty sharedRun

/-- The other holder deposits, burns some fT and withdraws. -/
def othersRun : List Instruction :=
  [.deposit Sample.accounts 100,
   .wallet [Sample.user] (.burn Sample.userFlufAccount Sample.flufMint Sample.user 7),
   .withdraw Sample.accounts]

theorem sitting_withdraws_sample : ∃ w', exec Sample.programs .on
      (run (exec Sample.programs .on) sharedWorld othersRun)
      (.withdraw (samplePool.accounts Sample.programs sitter sitterAccount sitterFlufAccount)) =
        .ok w' ∧
    (run (exec Sample.programs .on) sharedWorld othersRun).tokens.balance sitterAccount +
        40 * samplePool.balance Sample.programs sharedWorld / samplePool.supply sharedWorld ≤
      w'.tokens.balance sitterAccount := by
  have hpool : sharedWorld.pools Sample.pool = some samplePool := by decide +kernel
  have haccounts : sharedWorld.tokens.account sitterAccount =
        some ⟨Sample.poolMint, sitter, 0, none, 0⟩ ∧
      sharedWorld.tokens.account sitterFlufAccount =
        some ⟨Sample.flufMint, sitter, 40, none, 0⟩ := by
    decide +kernel
  have hsit : Sitting samplePool sitter sitterAccount sitterFlufAccount 40 sharedWorld :=
    { userAccount_ok := ⟨_, haccounts.1, rfl, rfl⟩
      userFlufAccount_ok := ⟨_, haccounts.2, rfl, rfl, rfl, le_rfl⟩ }
  have hsigners : ∀ i ∈ othersRun, sitter ∉ i.signers := by decide +kernel
  exact sitting_withdraws ⟨Sample.empty, sharedRun, Sample.genesis, rfl⟩ hpool
    (by decide +kernel) hsit (by decide) hsigners

end FlufProgram
