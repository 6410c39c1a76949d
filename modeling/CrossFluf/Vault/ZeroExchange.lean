import CrossFluf.Vault.Backing
import CrossFluf.Vault.FeeLedger
import CrossFluf.Vault.Harvest

/-!
# Exchanges for nothing

`deposit` refuses LP tokens that round down to zero, but before it takes its fee; and
`instant_withdraw` refuses nothing.  What is left can be zero on both paths.
-/

namespace VaultProgram

open Machine Solana Outcome Run

variable {p : ProgramAddresses} {env : Env} {w w' : World} {V : Pubkey} {v v' : Vault}
  {a : UserAccounts}

/-- A deposit mints LP tokens to the user and a withdrawal pays assets out of the vault to the
user.  The user's own balances show it when the two accounts are not one. -/
def Gives (w : World) (i : Env × Instruction) (w' : World) : Prop :=
  match i.2 with
  | .deposit a _ => w.tokens.supply a.lpMint < w'.tokens.supply a.lpMint ∧
    (a.userLpAccount ≠ a.userAssetAccount →
      w.tokens.balance a.userLpAccount < w'.tokens.balance a.userLpAccount)
  | .instantWithdraw a _ =>
    w'.tokens.balance a.vaultAssetAccount < w.tokens.balance a.vaultAssetAccount ∧
      (a.userLpAccount ≠ a.userAssetAccount →
        w.tokens.balance a.userAssetAccount < w'.tokens.balance a.userAssetAccount)
  | _ => True

/-- A fee of `bps` leaves something of `n`: it is a part of it, or the low 64 bits of the fee are
not `n` again. -/
def FeeLeaves (bps : U16) (n : ℕ) : Prop :=
  bps.toNat < 10000 ∨ ¬ 2 ^ 64 ∣ n * (bps.toNat - 10000) / 10000

def Instruction.WorthSomething (v : Vault) (now : I64) : Instruction → Prop
  | .deposit _ amount => FeeLeaves v.depositFeeBps (lpFor v now amount)
  | .instantWithdraw _ lpAmount =>
    v.lpSupply.toNat ≤ lpAmount.toNat * v.effective now ∧
      FeeLeaves v.withdrawalFeeBps (redeemable v now lpAmount)
  | _ => True

def WorthSomething (w : World) (i : Env × Instruction) : Prop :=
  ∀ V v, i.2.vault = some V → w.vaults V = some v → i.2.WorthSomething v i.1.now

/-! ## What the fee leaves -/

theorem rest_pos_iff {n fee rest : U64} {bps : U16} (hfee : feeOf n bps = .ok fee)
    (hsplit : n.toNat = fee.toNat + rest.toNat) (hpos : 0 < n.toNat) :
    0 < rest.toNat ↔ FeeLeaves bps n.toNat := by
  have hlt := n.isLt
  rw [feeOf_eq_ok] at hfee
  rw [FeeLeaves]
  rcases Nat.lt_or_ge bps.toNat 10000 with hb | hb
  · refine iff_of_true ?_ (Or.inl hb)
    have hpart : n.toNat * bps.toNat < n.toNat * 10000 := Nat.mul_lt_mul_of_pos_left hb hpos
    have hmod := Nat.mod_le (n.toNat * bps.toNat / 10000) (2 ^ 64)
    omega
  · rw [or_iff_right (Nat.not_lt_of_le hb)]
    -- the whole of it, and what is beyond
    have hwhole : n.toNat * bps.toNat = n.toNat * (bps.toNat - 10000) + n.toNat * 10000 := by
      rw [← Nat.mul_add, Nat.sub_add_cancel hb]
    rw [hwhole, Nat.add_mul_div_right _ _ (by decide)] at hfee
    omega

section Deposit

variable {amount lpToMint feeLp lpAfterFee : U64} {paid minted : Tokens}

theorem Deposited.gives_iff (hc : Custody p w)
    (h : Deposited p env w a amount w' v v' lpToMint feeLp lpAfterFee paid minted) :
    Gives w (env, .deposit a amount) w' ↔ FeeLeaves v.depositFeeBps (lpFor v env.now amount) := by
  have hpaid := (transferAsset_eq_ok h.paid_ok).2
  have hsupply : w'.tokens.supply a.lpMint =
      w.tokens.supply a.lpMint + lpAfterFee.toNat := by
    rw [h.world]
    show minted.supply a.lpMint = _
    rw [Tokens.mintTo_supply h.minted_ok, Tokens.transfer_supply hpaid]
  have hbalance : a.userLpAccount ≠ a.userAssetAccount →
      w'.tokens.balance a.userLpAccount =
        w.tokens.balance a.userLpAccount + lpAfterFee.toNat := by
    intro hne
    obtain ⟨-, hlp⟩ := hc.holds_ne h.vault h.signer h.holds
    rw [← h.holds.vaultAssetAccount] at hlp
    rw [h.world]
    show minted.balance a.userLpAccount = _
    rw [Tokens.mintTo_balance h.minted_ok, Tokens.transfer_balance_of_ne hpaid hne hlp]
  rw [← lpToMintFor_eq_ok h.lpToMint_ok, ← rest_pos_iff h.feeLp_ok h.lpAfterFee_add h.lpPositive]
  apply Iff.intro
  · intro hg
    have hgrows : w.tokens.supply a.lpMint < w'.tokens.supply a.lpMint := hg.1
    omega
  · intro hpos
    refine ⟨by omega, fun hne ↦ ?_⟩
    rw [hbalance hne]
    omega

end Deposit

section Withdrawal

variable {lpAmount effectiveAssets assetsToReturn fee assetsAfterFee : U64}
  {burned paid : Tokens}

/-- The redemption itself is worth something when it reaches the price of an LP token. -/
theorem Withdrawn.assets_pos_iff
    (h : Withdrawn p env w a lpAmount w' v v' effectiveAssets assetsToReturn fee assetsAfterFee
      burned paid) : 0 < assetsToReturn.toNat ↔
        v.lpSupply.toNat ≤ lpAmount.toNat * v.effective env.now := by
  have hz := (mulDiv_u64_eq_ok.mp h.assetsToReturn_ok).1
  rw [h.assets_eq, redeemable, Nat.div_pos_iff, Vault.effective]
  exact and_iff_right (Nat.pos_of_ne_zero hz)

theorem Withdrawn.gives_iff (hc : Custody p w)
    (h : Withdrawn p env w a lpAmount w' v v' effectiveAssets assetsToReturn fee assetsAfterFee
      burned paid) : Gives w (env, .instantWithdraw a lpAmount) w' ↔
        v.lpSupply.toNat ≤ lpAmount.toNat * v.effective env.now ∧
          FeeLeaves v.withdrawalFeeBps (redeemable v env.now lpAmount) := by
  have hpaid := (transferAsset_eq_ok h.paid_ok).2
  have hvault := h.balance_eq hc
  rw [← h.holds.vaultAssetAccount] at hvault
  have huser : a.userLpAccount ≠ a.userAssetAccount →
      w'.tokens.balance a.userAssetAccount =
        w.tokens.balance a.userAssetAccount + assetsAfterFee.toNat := by
    intro hne
    obtain ⟨hasset, -⟩ := hc.holds_ne h.vault h.signer h.holds
    rw [← h.holds.vaultAssetAccount] at hasset
    rw [h.world]
    show paid.balance a.userAssetAccount = _
    rw [(Tokens.transfer_balance hpaid hasset.symm).2,
      Tokens.burn_balance_of_ne h.burned_ok hne.symm]
  have hpays : Gives w (env, .instantWithdraw a lpAmount) w' ↔ 0 < assetsAfterFee.toNat := by
    apply Iff.intro
    · intro hg
      have hfalls : w'.tokens.balance a.vaultAssetAccount <
          w.tokens.balance a.vaultAssetAccount := hg.1
      omega
    · intro hpos
      refine ⟨by omega, fun hne ↦ ?_⟩
      rw [huser hne]
      omega
  rw [hpays, ← h.assets_pos_iff, ← h.assets_eq]
  have hsplit := h.assetsAfterFee_add
  rcases Nat.eq_zero_or_pos assetsToReturn.toNat with hz | hpos
  · exact iff_of_false (by omega) fun hboth ↦ absurd hboth.1 (by omega)
  · rw [and_iff_right hpos]
    exact rest_pos_iff h.fee_ok hsplit hpos

end Withdrawal

theorem exec_gives_iff {i : Env × Instruction} (hc : Custody p w) (h : exec p w i = .ok w') :
    Gives w i w' ↔ WorthSomething w i := by
  have hat : ∀ {V v}, i.2.vault = some V → w.vaults V = some v →
      (WorthSomething w i ↔ i.2.WorthSomething v i.1.now) := by
    intro V v hV hv
    apply Iff.intro
    · intro hall
      exact hall V v hV hv
    · intro hone U u hU hu
      obtain rfl := Option.some_inj.mp (hV.symm.trans hU)
      obtain rfl := Option.some_inj.mp (hv.symm.trans hu)
      exact hone
  obtain ⟨env, i⟩ := i
  cases i with
  | deposit a amount =>
    obtain ⟨v, v', lpToMint, feeLp, lpAfterFee, paid, minted, hd⟩ := deposit_eq_ok h
    rw [hat rfl hd.vault]
    exact hd.gives_iff hc
  | instantWithdraw a lpAmount =>
    obtain ⟨v, v', e, assets, fee, afterFee, burned, paid, hx⟩ := instantWithdraw_eq_ok h
    rw [hat rfl hx.vault]
    exact hx.gives_iff hc
  | _ => exact iff_of_true trivial fun _ _ _ _ ↦ trivial

/-- In a run every deposit and every withdrawal gives something exactly when the fee of each
leaves something and each withdrawal redeems something. -/
theorem gives_iff_worthSomething (hw : Genesis p w) (is : List (Env × Instruction)) :
    EachStep (exec p) Gives w is ↔ EachStep (exec p) (fun w i _ ↦ WorthSomething w i) w is := by
  refine eachStep_congr ?_ ?_ hw.custody is
  · intro w i w' hc h
    exact exec_custody hc h
  · intro w i w' hc h
    exact exec_gives_iff hc h

/-- A vault that keeps all of a deposit as its fee. -/
def feeOnlyRun : List (Env × Instruction) :=
  Sample.setup { Sample.config 0 0 with depositFeeBps := 10000 }

def feeOnlyDeposit : Env × Instruction := (Sample.clock 0, .deposit Sample.userAccounts 100)

/-- A vault that lost half of its assets, where an LP token is worth half a unit. -/
def halvedRun : List (Env × Instruction) :=
  Sample.setup (Sample.config 0 0) ++
    [(Sample.clock 0, .deposit Sample.userAccounts 1000),
     (Sample.clock 0, .addStrategy Sample.strategyAccounts [] []),
     (Sample.clock 0, .allocate Sample.strategyAccounts 500),
     (Sample.clock 0, .reportYield Sample.strategyAccounts 0)]

def halvedWithdrawal : Env × Instruction :=
  (Sample.clock 0, .instantWithdraw Sample.userAccounts 1)

theorem gives_iff_worthSomething_halved :
    EachStep (exec sampleAddresses) Gives Sample.empty (halvedRun ++ [halvedWithdrawal]) ↔
      EachStep (exec sampleAddresses) (fun w i _ ↦ WorthSomething w i) Sample.empty
        (halvedRun ++ [halvedWithdrawal]) :=
  gives_iff_worthSomething Sample.genesis (halvedRun ++ [halvedWithdrawal])

-- 100 assets for no LP token, and an LP token for no asset
theorem gives_fails :
    (¬ ∀ (p : ProgramAddresses) (w w' : World) (env : Env) (a : UserAccounts) (amount : U64),
      Reachable (exec p) (Genesis p) w → exec p w (env, .deposit a amount) = .ok w' →
        Gives w (env, .deposit a amount) w') ∧
    ¬ ∀ (p : ProgramAddresses) (w w' : World) (env : Env) (a : UserAccounts) (lpAmount : U64),
      Reachable (exec p) (Genesis p) w → exec p w (env, .instantWithdraw a lpAmount) = .ok w' →
        Gives w (env, .instantWithdraw a lpAmount) w' := by
  apply And.intro
  · intro h
    have hok : (exec sampleAddresses (run (exec sampleAddresses) Sample.empty feeOnlyRun)
        feeOnlyDeposit).isOk = true := by
      decide +kernel
    have hgrows := (h _ _ _ _ _ _ ⟨Sample.empty, feeOnlyRun, Sample.genesis, rfl⟩
      (eq_ok_advance hok)).1
    revert hgrows
    decide +kernel
  · intro h
    have hok : (exec sampleAddresses (run (exec sampleAddresses) Sample.empty halvedRun)
        halvedWithdrawal).isOk = true := by
      decide +kernel
    have hfalls := (h _ _ _ _ _ _ ⟨Sample.empty, halvedRun, Sample.genesis, rfl⟩
      (eq_ok_advance hok)).1
    revert hfalls
    decide +kernel

end VaultProgram
