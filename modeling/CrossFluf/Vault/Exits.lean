import CrossFluf.Vault.Backing
import CrossFluf.Vault.Trading

/-!
# Leaving a vault

In a reachable state an `instant_withdraw` fails for the reasons its holder can check beforehand
and for no other: none of its unwraps panics.  While the idle assets cover what the LP tokens can
redeem, everyone can leave, in any order.
-/

namespace VaultProgram

open Machine Solana Outcome Release Proportion Exchange Run

variable {p : ProgramAddresses} {env : Env} {w w' : World} {V : Pubkey} {v v' : Vault}
  {a : UserAccounts} {lpAmount : U64}

/-- What `lpAmount` LP tokens pay at `now`, after the fee. -/
def payoutFor (v : Vault) (now : I64) (lpAmount : U64) : ℕ :=
  redeemable v now lpAmount - withdrawalFee v now lpAmount

/-- The user may spend `amount` of the account `k`: an owner who is also its delegate has the
allowance for it. -/
def MaySpend (t : Tokens) (k user : Pubkey) (amount : ℕ) : Prop :=
  ∀ x, t.account k = some x → x.delegate = some user → amount ≤ x.delegatedAmount.toNat

/-- All that an `instant_withdraw` asks for. -/
structure CanRedeem (p : ProgramAddresses) (env : Env) (w : World) (a : UserAccounts)
    (lpAmount : U64) (v : Vault) : Prop where
  signer : p.isDerived a.user = false
  holds : UserHolds w a v
  assetMint : a.assetMint = v.assetMint
  noWait : v.withdrawalWaitPeriod = 0
  positive : 0 < lpAmount.toNat
  readable : LockReadable v env.now
  owned : lpAmount.toNat ≤ w.tokens.balance a.userLpAccount
  maySpend : MaySpend w.tokens a.userLpAccount a.user lpAmount.toNat
  feeFits : withdrawalFee v env.now lpAmount ≤ redeemable v env.now lpAmount
  idle : payoutFor v env.now lpAmount ≤ v.idleAssets.toNat
  backed : payoutFor v env.now lpAmount ≤ w.tokens.balance v.vaultAssetAccount
  hook : env.hookApproves = true

/-! ## A withdrawal that succeeds meets the conditions -/

theorem spend_maySpend {signers : List Pubkey} {x x' : TokenAccount} {authority : Pubkey}
    {amount : U64} (h : Tokens.spend signers x authority amount = .ok x')
    (hd : x.delegate = some authority) : amount.toNat ≤ x.delegatedAmount.toNat := by
  rw [Tokens.spend, if_pos hd] at h
  simp only [bind_eq_ok, require_eq_ok, orElse_eq_ok, checkedSub_eq_some, exists_const] at h
  obtain ⟨-, rest, hrest, -⟩ := h
  omega

theorem Withdrawn.payout_eq {effectiveAssets assetsToReturn fee assetsAfterFee : U64}
    {burned paid : Tokens}
    (h : Withdrawn p env w a lpAmount w' v v' effectiveAssets assetsToReturn fee assetsAfterFee
      burned paid) : assetsAfterFee.toNat = payoutFor v env.now lpAmount := by
  have hsplit := h.assetsAfterFee_add
  rw [h.assets_eq, h.fee_eq] at hsplit
  rw [payoutFor]
  omega

theorem transferAsset_approved {t t' : Tokens} {signers : List Pubkey}
    {src mint dst authority : Pubkey} {amount : U64}
    (h : transferAsset env t signers src mint dst authority amount = .ok t') :
    env.hookApproves = true := by
  simp only [transferAsset, bind_eq_ok, orElse_eq_ok, require_eq_ok, exists_const] at h
  obtain ⟨m, -, hook, -⟩ := h
  exact hook

theorem Deposited.assetMint_eq {amount lpToMint feeLp lpAfterFee : U64} {paid minted : Tokens}
    (hc : Custody p w)
    (h : Deposited p env w a amount w' v v' lpToMint feeLp lpAfterFee paid minted) :
    a.assetMint = v.assetMint := by
  obtain ⟨⟨s, hs, hsm⟩, htransfer⟩ := transferAsset_eq_ok h.paid_ok
  obtain ⟨s', d, -, hs', hd, hmints, -⟩ := Tokens.transfer_eq_ok htransfer
  obtain ⟨x, hx, -, hxm⟩ := hc.account a.vault v h.vault
  rw [h.holds.vaultAssetAccount, hx, Option.some_inj] at hd
  obtain rfl := Option.some_inj.mp (hs.symm.trans hs')
  rw [← hsm, hmints, ← hd, hxm]

theorem Withdrawn.canRedeem {effectiveAssets assetsToReturn fee assetsAfterFee : U64}
    {burned paid : Tokens} (hc : Custody p w)
    (h : Withdrawn p env w a lpAmount w' v v' effectiveAssets assetsToReturn fee assetsAfterFee
      burned paid) : CanRedeem p env w a lpAmount v := by
  have hpayout := h.payout_eq
  have hsplit := h.assetsAfterFee_add
  have hidle := h.idle
  have hbalance := h.balance_eq hc
  have hburned := Tokens.burn_balance h.burned_ok
  obtain ⟨s, hs, hmint⟩ := (transferAsset_eq_ok h.paid_ok).1
  refine
    { signer := h.signer
      holds := h.holds
      assetMint := ?_
      noWait := h.noWait
      positive := h.positive
      readable := (effectiveTotalAssets_eq_ok.mp h.effective).1
      owned := by omega
      maySpend := ?_
      feeFits := by rw [← h.assets_eq, ← h.fee_eq]; omega
      idle := by omega
      backed := by omega
      hook := transferAsset_approved h.paid_ok }
  · -- the burn leaves the asset account of the vault alone, so its mint is the one named
    obtain ⟨x, hx, -, hxm⟩ := hc.account a.vault v h.vault
    have hne := (hc.holds_ne h.vault h.signer h.holds).2
    rw [h.holds.vaultAssetAccount, Tokens.burn_account_of_ne h.burned_ok hne.symm, hx,
      Option.some_inj] at hs
    rw [← hmint, ← hs, hxm]
  · intro x hx hd
    obtain ⟨y, _, _, _, _, hy, -, -, hspent, -⟩ := Tokens.burn_eq_ok h.burned_ok
    obtain rfl := Option.some_inj.mp (hx.symm.trans hy)
    exact spend_maySpend hspent hd

/-! ## A withdrawal that meets the conditions succeeds -/

theorem isSome_mulDiv {x y z : U64} (hz : z.toNat ≠ 0) :
    ∃ r, mulDiv (asU128 x) (asU128 y) (asU128 z) = .ok r ∧
      r.toNat = x.toNat * y.toNat / z.toNat % 2 ^ 64 := by
  refine ⟨BitVec.ofNat 64 (x.toNat * y.toNat / z.toNat), mulDiv_u64_eq_ok.mpr ⟨hz, ?_⟩, ?_⟩
  · exact BitVec.toNat_ofNat _ _
  · exact BitVec.toNat_ofNat _ _

theorem isSome_feeOf (amount : U64) (bps : U16) : ∃ r, feeOf amount bps = .ok r ∧
    r.toNat = amount.toNat * bps.toNat / 10000 % 2 ^ 64 :=
  ⟨BitVec.ofNat 64 (amount.toNat * bps.toNat / 10000),
    feeOf_eq_ok.mpr (BitVec.toNat_ofNat _ _), BitVec.toNat_ofNat _ _⟩

theorem CanRedeem.le_counted (hb : LpBacked p a.vault w) (hv : w.vaults a.vault = some v)
    (h : CanRedeem p env w a lpAmount v) : lpAmount.toNat ≤ v.lpSupply.toNat := by
  obtain ⟨x, hx, hm, -⟩ := h.holds.lp
  have hheld := hb.custody.sound.balance_le hx
  have hcounted := hb.counted
  have howned := h.owned
  rw [lpMintedOf_of_vault hv, lpCountedOf_of_vault hv, ← h.holds.lpMint, ← hm] at hcounted
  rw [Tokens.balance_of_account hx] at howned
  omega

theorem CanRedeem.burn_succeeds (hb : LpBacked p a.vault w) (hv : w.vaults a.vault = some v)
    (h : CanRedeem p env w a lpAmount v) :
    ∃ burned, w.tokens.burn [a.user] a.userLpAccount a.lpMint a.user lpAmount = .ok burned := by
  obtain ⟨x, hx, hm, ho⟩ := h.holds.lp
  obtain ⟨m, hmint, -⟩ := hb.minted a.vault v hv
  rw [← h.holds.lpMint] at hmint
  exact Tokens.burn_succeeds hb.custody.sound hx hmint hm ho (h.maySpend x hx)
    (List.mem_singleton.mpr rfl) (Tokens.balance_of_account hx ▸ h.owned)

theorem CanRedeem.transfer_succeeds (hb : LpBacked p a.vault w) (hv : w.vaults a.vault = some v)
    (h : CanRedeem p env w a lpAmount v) {burned : Tokens} {assetsAfterFee : U64}
    (hburned : w.tokens.burn [a.user] a.userLpAccount a.lpMint a.user lpAmount = .ok burned)
    (hamount : assetsAfterFee.toNat = payoutFor v env.now lpAmount) :
    ∃ paid, transferAsset env burned [a.user, vaultAssetAuthority p a.vault] a.vaultAssetAccount
      a.assetMint a.userAssetAccount (vaultAssetAuthority p a.vault) assetsAfterFee =
        .ok paid := by
  have hc := hb.custody
  obtain ⟨x, hx, howner, hxm⟩ := hc.account a.vault v hv
  obtain ⟨y, hy, hym, -⟩ := h.holds.asset
  obtain ⟨m, hm⟩ := hc.mint a.vault v hv
  obtain ⟨hasset, hlp⟩ := hc.holds_ne hv h.signer h.holds
  have hframe := (Tokens.burn_frame hburned).1
  obtain ⟨d, hd, hdm, -⟩ := hframe.account _ y hy
  obtain ⟨m', hm', -⟩ := hframe.mint _ m hm
  have hsrc : burned.account v.vaultAssetAccount = some x := by
    rw [Tokens.burn_account_of_ne hburned hlp.symm, hx]
  have hle : assetsAfterFee.toNat ≤ x.amount.toNat := by
    rw [hamount, ← Tokens.balance_of_account hx]
    exact h.backed
  have hnone : x.delegate = none := hc.undelegated _ x hx (howner ▸ p.isDerived_find _)
  have hsig : vaultAssetAuthority p a.vault ∈ [a.user, vaultAssetAuthority p a.vault] :=
    List.mem_cons_of_mem _ (List.mem_singleton.mpr rfl)
  rw [h.holds.vaultAssetAccount, h.assetMint]
  obtain ⟨paid, hpaid⟩ := Tokens.transferChecked_succeeds (Tokens.burn_sound hc.sound hburned)
    hsrc hd hasset.symm hm' hxm (hdm.trans (hym.trans h.assetMint)) howner
    (fun he ↦ absurd (hnone.symm.trans he) nofun) hsig hle
  refine ⟨paid, ?_⟩
  simp only [transferAsset, bind_eq_ok, orElse_eq_ok, require_eq_ok, mapError_eq_ok, exists_const]
  exact ⟨m', hm', h.hook, hpaid⟩

theorem CanRedeem.toBurn (hb : LpBacked p a.vault w) (hv : w.vaults a.vault = some v)
    (h : CanRedeem p env w a lpAmount v) :
    ∃ b, withdrawToBurn p env w a lpAmount = .ok b ∧
      b.assetsAfterFee.toNat = payoutFor v env.now lpAmount ∧
      w.tokens.burn [a.user] a.userLpAccount a.lpMint a.user lpAmount = .ok b.burned := by
  have hcounted := h.le_counted hb hv
  have hpos := h.positive
  obtain ⟨e, he⟩ := effectiveTotalAssets_of_readable h.readable
  have heffective := (effectiveTotalAssets_eq_ok.mp he).2
  obtain ⟨assets, hassets, hassetsNat⟩ := isSome_mulDiv (x := lpAmount) (y := e)
    (z := v.lpSupply) (by omega)
  have hshare := floor_share_le (a := e.toNat) hcounted
  have hredeem : assets.toNat = redeemable v env.now lpAmount := by
    rw [hassetsNat, Nat.mod_eq_of_lt (lt_of_le_of_lt hshare e.isLt), redeemable, heffective]
  obtain ⟨fee, hfee, hfeeNat⟩ := isSome_feeOf assets v.withdrawalFeeBps
  have hfee' : fee.toNat = withdrawalFee v env.now lpAmount := by
    rw [hfeeNat, hredeem, withdrawalFee]
  have hfits := h.feeFits
  have hidle := h.idle
  have hsub : (assets - fee).toNat = assets.toNat - fee.toNat := sub_toNat_of_le (by omega)
  have hafter : (assets - fee).toNat = payoutFor v env.now lpAmount := by
    rw [hsub, hredeem, hfee', payoutFor]
  obtain ⟨burned, hburned⟩ := h.burn_succeeds hb hv
  refine ⟨⟨v, e, assets, assets - fee, burned⟩, ?_, hafter, hburned⟩
  simp only [withdrawToBurn, bind_eq_ok, requireSigner_eq_ok, orElse_eq_ok, require_eq_ok,
    checkUserAccounts_eq_ok, unwrap_eq_ok, checkedSub_eq_some, mapError_eq_ok, pure_eq_ok,
    exists_const]
  exact ⟨h.signer, v, hv, h.holds, h.noWait, hpos, e, he, assets, hassets, fee, hfee, assets - fee,
    by omega, by omega, burned, hburned, rfl⟩

theorem instantWithdraw_isOk_iff (hb : LpBacked p a.vault w) (hv : w.vaults a.vault = some v) :
    (instantWithdraw p env w a lpAmount).isOk = true ↔ CanRedeem p env w a lpAmount v := by
  apply Iff.intro
  · intro h
    obtain ⟨w', hw'⟩ := isOk_iff.mp h
    obtain ⟨u, u', _, _, _, _, _, _, hx⟩ := instantWithdraw_eq_ok hw'
    obtain rfl := Option.some_inj.mp (hx.vault.symm.trans hv)
    exact hx.canRedeem hb.custody
  · intro h
    obtain ⟨b, hburn, hamount, hburned⟩ := h.toBurn hb hv
    obtain ⟨paid, hpaid⟩ := h.transfer_succeeds hb hv hburned hamount
    have hcovered := withdrawToBurn_covered hb.counted hburn
    rw [instantWithdraw_eq, hburn]
    exact hcovered.succeeds hpaid

/-- In every reachable state an `instant_withdraw` succeeds exactly when it meets the conditions,
and then it pays what they say. -/
theorem instantWithdraw_exact (hreach : Reachable (exec p) (Genesis p) w)
    (ha : LpAuthorityApart p a.vault w) (hv : w.vaults a.vault = some v) (env : Env)
    (lpAmount : U64) :
    ((instantWithdraw p env w a lpAmount).isOk = true ↔ CanRedeem p env w a lpAmount v) ∧
      ∀ w', instantWithdraw p env w a lpAmount = .ok w' →
        w.tokens.balance v.vaultAssetAccount =
          w'.tokens.balance v.vaultAssetAccount + payoutFor v env.now lpAmount := by
  have hb := reachable_lpBacked hreach ha
  refine ⟨instantWithdraw_isOk_iff hb hv, fun w' hw' ↦ ?_⟩
  obtain ⟨u, u', _, _, _, _, _, _, hx⟩ := instantWithdraw_eq_ok hw'
  obtain rfl := Option.some_inj.mp (hx.vault.symm.trans hv)
  rw [hx.balance_eq hb.custody, hx.payout_eq]

theorem instantWithdraw_exact_shared : ∃ v, sharedWorld.vaults Sample.vault = some v ∧
    ¬ CanRedeem sampleAddresses (Sample.clock 50) sharedWorld Sample.userAccounts 601 v ∧
    CanRedeem sampleAddresses (Sample.clock 50) sharedWorld Sample.userAccounts 600 v := by
  have hlive : (sharedWorld.vaults Sample.vault).isSome = true := by decide +kernel
  have hruns : (instantWithdraw sampleAddresses (Sample.clock 50) sharedWorld Sample.userAccounts
        601).isOk = false ∧
      (instantWithdraw sampleAddresses (Sample.clock 50) sharedWorld Sample.userAccounts
        600).isOk = true := by
    decide +kernel
  obtain ⟨v, hv⟩ := Option.isSome_iff_exists.mp hlive
  have hapart : LpAuthorityApart sampleAddresses Sample.vault sharedWorld := by
    apply sample_lpApart
    simp [sharedRun, fundedRun, Sample.setup, Instruction.vault, Sample.userAccounts,
      Sample.strategyAccounts]
  have hreach : Reachable (exec sampleAddresses) (Genesis sampleAddresses) sharedWorld :=
    ⟨_, sharedRun, Sample.genesis, rfl⟩
  have hexact := instantWithdraw_exact (a := Sample.userAccounts) hreach hapart hv
    (Sample.clock 50)
  refine ⟨v, hv, fun h ↦ ?_, (hexact 600).1.mp hruns.2⟩
  have hok := (hexact 601).1.mpr h
  rw [hruns.1] at hok
  cases hok

/-! ## Everyone leaves -/

/-- Someone leaves with some of their LP tokens. -/
structure Exit where
  env : Env
  accounts : UserAccounts
  lpAmount : U64

def Exit.instruction (e : Exit) : Env × Instruction :=
  (e.env, .instantWithdraw e.accounts e.lpAmount)

/-- The LP tokens that some exits take from the account `k`. -/
def demand (es : List Exit) (k : Pubkey) : ℕ :=
  (es.map fun e ↦ if e.accounts.userLpAccount = k then e.lpAmount.toNat else 0).sum

theorem demand_cons (e : Exit) (es : List Exit) (k : Pubkey) : demand (e :: es) k =
    (if e.accounts.userLpAccount = k then e.lpAmount.toNat else 0) + demand es k :=
  List.sum_cons

theorem le_demand {e : Exit} {es : List Exit} (he : e ∈ es) :
    e.lpAmount.toNat ≤ demand es e.accounts.userLpAccount := by
  have hmem := List.mem_map_of_mem (f := fun x : Exit ↦
    if x.accounts.userLpAccount = e.accounts.userLpAccount then x.lpAmount.toNat else 0) he
  have hle := List.single_le_sum (fun _ _ ↦ Nat.zero_le _) _ hmem
  rwa [if_pos rfl] at hle

/-- What the one who leaves brings along: accounts of their own, which they may spend. -/
structure Exit.Ready (p : ProgramAddresses) (V : Pubkey) (now : I64) (w : World) (e : Exit) :
    Prop where
  vault : e.accounts.vault = V
  now : e.env.now = now
  hook : e.env.hookApproves = true
  signer : p.isDerived e.accounts.user = false
  positive : 0 < e.lpAmount.toNat
  accounts : ∃ v, w.vaults V = some v ∧ UserHolds w e.accounts v ∧
    e.accounts.assetMint = v.assetMint
  undelegated : ∀ x, w.tokens.account e.accounts.userLpAccount = some x →
    x.delegate ≠ some e.accounts.user

/-- Every asset the LP tokens can redeem is idle and in the token account, and nothing else stops
an `instant_withdraw`. -/
structure Liquid (now : I64) (w : World) (v : Vault) : Prop where
  noWait : v.withdrawalWaitPeriod = 0
  fee : v.withdrawalFeeBps.toNat ≤ 10000
  readable : LockReadable v now
  idle : v.totalAssets.toNat - remaining v now ≤ v.idleAssets.toNat
  backed : v.idleAssets.toNat ≤ w.tokens.balance v.vaultAssetAccount

/-! ### The payout -/

section Payout

variable {now : I64}

theorem redeemable_le (h : lpAmount.toNat ≤ v.lpSupply.toNat) :
    redeemable v now lpAmount ≤ v.totalAssets.toNat - remaining v now := floor_share_le h

theorem withdrawalFee_eq (hfee : v.withdrawalFeeBps.toNat ≤ 10000)
    (h : lpAmount.toNat ≤ v.lpSupply.toNat) : withdrawalFee v now lpAmount =
      redeemable v now lpAmount * v.withdrawalFeeBps.toNat / 10000 := by
  have hle : redeemable v now lpAmount ≤ v.totalAssets.toNat - remaining v now :=
    redeemable_le h
  have hlt := v.totalAssets.isLt
  have hpart : redeemable v now lpAmount * v.withdrawalFeeBps.toNat / 10000 ≤
      redeemable v now lpAmount :=
    Nat.div_le_of_le_mul (by rw [Nat.mul_comm]; exact Nat.mul_le_mul_right _ hfee)
  exact Nat.mod_eq_of_lt (by omega)

/-- A part of at most the whole, rounded down, leaves more of more. -/
theorem sub_part_mono {r r' b : ℕ} (hb : b ≤ 10000) (h : r ≤ r') :
    r - r * b / 10000 ≤ r' - r' * b / 10000 := by
  obtain ⟨d, rfl⟩ := Nat.exists_eq_add_of_le h
  have hsplit : (r + d) * b ≤ r * b + d * 10000 := by
    rw [Nat.add_mul]
    exact Nat.add_le_add_left (Nat.mul_le_mul_left d hb) _
  have hpart : (r + d) * b / 10000 ≤ r * b / 10000 + d := by
    rw [← Nat.add_mul_div_right _ _ (by decide : 0 < 10000)]
    exact Nat.div_le_div_right hsplit
  omega

theorem payoutFor_eq (hfee : v.withdrawalFeeBps.toNat ≤ 10000)
    (h : lpAmount.toNat ≤ v.lpSupply.toNat) : payoutFor v now lpAmount =
      redeemable v now lpAmount -
        redeemable v now lpAmount * v.withdrawalFeeBps.toNat / 10000 := by
  rw [payoutFor, withdrawalFee_eq hfee h]

end Payout

/-! ### One exit -/

section One

variable {now : I64} {e : Exit} {es : List Exit}

theorem Exit.Ready.canRedeem (hb : LpBacked p V w) (hv : w.vaults V = some v)
    (hl : Liquid now w v) (h : e.Ready p V now w)
    (howned : e.lpAmount.toNat ≤ w.tokens.balance e.accounts.userLpAccount) :
    CanRedeem p e.env w e.accounts e.lpAmount v := by
  obtain rfl := h.vault
  obtain rfl := h.now
  obtain ⟨u, hu, hholds, hmint⟩ := h.accounts
  obtain rfl := Option.some_inj.mp (hu.symm.trans hv)
  have hcounted : e.lpAmount.toNat ≤ u.lpSupply.toNat := by
    obtain ⟨x, hx, hm, -⟩ := hholds.lp
    have hheld := hb.custody.sound.balance_le hx
    have hsupply := hb.counted
    rw [lpMintedOf_of_vault hv, lpCountedOf_of_vault hv, ← hholds.lpMint, ← hm] at hsupply
    rw [Tokens.balance_of_account hx] at howned
    omega
  have hle : redeemable u e.env.now e.lpAmount ≤ u.totalAssets.toNat - remaining u e.env.now :=
    redeemable_le hcounted
  have hidle := hl.idle
  have hbacked := hl.backed
  have hpayout : payoutFor u e.env.now e.lpAmount ≤ redeemable u e.env.now e.lpAmount :=
    Nat.sub_le _ _
  exact
    { signer := h.signer
      holds := hholds
      assetMint := hmint
      noWait := hl.noWait
      positive := h.positive
      readable := hl.readable
      owned := howned
      maySpend := fun x hx hd ↦ absurd hd (h.undelegated x hx)
      feeFits := by
        rw [withdrawalFee_eq hl.fee hcounted]
        apply Nat.div_le_of_le_mul
        rw [Nat.mul_comm]
        exact Nat.mul_le_mul_right _ hl.fee
      idle := by omega
      backed := by omega
      hook := h.hook }

variable {effectiveAssets assetsToReturn fee assetsAfterFee : U64} {burned paid : Tokens}

/-- The vault stays liquid. -/
theorem Withdrawn.liquid (hc : Custody p w) (hl : Liquid env.now w v)
    (h : Withdrawn p env w a lpAmount w' v v' effectiveAssets assetsToReturn fee assetsAfterFee
      burned paid) : Liquid env.now w' v' := by
  have hidle := h.idle
  have htotal := h.total
  have hsplit := h.assetsAfterFee_add
  have hbalance := h.balance_eq hc
  have hcovered := hl.idle
  have hbacked := hl.backed
  have hread := (effectiveTotalAssets_eq_ok.mp h.effective).2
  have hlp := h.lpSupply
  have hshare : assetsToReturn.toNat ≤ effectiveAssets.toNat := by
    rw [(mulDiv_u64_eq_ok.mp h.assetsToReturn_ok).2]
    exact le_trans (Nat.mod_le _ _) (floor_share_le (by omega))
  have hvault : v'.vaultAssetAccount = v.vaultAssetAccount := by rw [h.kept]
  refine
    { noWait := by rw [h.kept]; exact hl.noWait
      fee := by rw [h.kept]; exact hl.fee
      readable := h.readable_iff.mpr hl.readable
      idle := ?_
      backed := by rw [hvault]; omega }
  rw [h.remaining_eq]
  omega

/-- An account that is not the vault's loses no more than the LP tokens redeemed from it. -/
theorem Withdrawn.balance_le {k : Pubkey} (hk : k ≠ v.vaultAssetAccount)
    (h : Withdrawn p env w a lpAmount w' v v' effectiveAssets assetsToReturn fee assetsAfterFee
      burned paid) : w.tokens.balance k ≤
      w'.tokens.balance k + (if a.userLpAccount = k then lpAmount.toNat else 0) := by
  have hpaid := (transferAsset_eq_ok h.paid_ok).2
  rw [h.holds.vaultAssetAccount] at hpaid
  have hrise := Tokens.transfer_le_balance hpaid hk
  have hworld : w'.tokens = paid := by rw [h.world]; rfl
  rw [hworld]
  split
  · rename_i he
    subst he
    have hburn := Tokens.burn_balance h.burned_ok
    omega
  · rename_i he
    rw [Tokens.burn_balance_of_ne h.burned_ok (fun hs ↦ he hs.symm)] at hrise
    omega

/-- The others who want to leave are as ready as before. -/
theorem Withdrawn.ready (hV : a.vault = V)
    (h : Withdrawn p env w a lpAmount w' v v' effectiveAssets assetsToReturn fee assetsAfterFee
      burned paid) (he : e.Ready p V now w) : e.Ready p V now w' := by
  subst hV
  obtain ⟨u, hu, hholds, hmint⟩ := he.accounts
  obtain rfl := Option.some_inj.mp (hu.symm.trans h.vault)
  have hworld : w'.tokens = paid := by rw [h.world]; rfl
  have hframe : Tokens.Frame [a.user, vaultAssetAuthority p a.vault] w.tokens w'.tokens := by
    rw [hworld]
    exact ((Tokens.burn_frame h.burned_ok).1.mono fun s hs ↦
      List.mem_cons.mpr (Or.inl (List.mem_singleton.mp hs))).trans
        (Tokens.transfer_frame (transferAsset_eq_ok h.paid_ok).2).1
  have hdelegates : Tokens.KeepsDelegates w.tokens w'.tokens := by
    rw [hworld]
    exact (Tokens.burn_keepsDelegates h.burned_ok).trans
      (Tokens.transfer_keepsDelegates (transferAsset_eq_ok h.paid_ok).2)
  have hkeeps : ∀ {k mint owner : Pubkey}, (∃ x, w.tokens.account k = some x ∧ x.mint = mint ∧
      x.owner = owner) → ∃ x, w'.tokens.account k = some x ∧ x.mint = mint ∧ x.owner = owner := by
    intro k mint owner hx
    obtain ⟨x, hx, hm, ho⟩ := hx
    obtain ⟨x', hx', hm', ho', -⟩ := hframe.account k x hx
    exact ⟨x', hx', hm'.trans hm, ho'.trans ho⟩
  refine
    { vault := he.vault
      now := he.now
      hook := he.hook
      signer := he.signer
      positive := he.positive
      accounts := ⟨v', h.vault_eq, ?_, ?_⟩
      undelegated := ?_ }
  · exact
      { asset := hkeeps hholds.asset
        lp := hkeeps hholds.lp
        vaultAssetAccount := by rw [h.kept]; exact hholds.vaultAssetAccount
        lpMint := by rw [h.kept]; exact hholds.lpMint }
  · rw [h.kept]
    exact hmint
  · intro x' hx' hd
    obtain ⟨x, hx, hsame⟩ := hdelegates _ x' hx' (by rw [hd]; exact Option.some_ne_none _)
    exact he.undelegated x hx (hsame.symm.trans hd)

theorem Withdrawn.lpApart (hV : a.vault = V) (ha : LpAuthorityApart p V w)
    (h : Withdrawn p env w a lpAmount w' v v' effectiveAssets assetsToReturn fee assetsAfterFee
      burned paid) : LpAuthorityApart p V w' := by
  intro U hU hne
  apply ha U _ hne
  rw [h.world, World.setVault_vaults_of_ne _ v' (hV ▸ hne)] at hU
  exact hU

end One

/-! ### All of them -/

/-- Every exit of the list succeeds, and is paid at least what it would have been paid first. -/
theorem exits_succeed {now : I64} {es : List Exit} (hb : LpBacked p V w)
    (ha : LpAuthorityApart p V w) (hv : w.vaults V = some v) (hl : Liquid now w v)
    (hes : ∀ e ∈ es, e.Ready p V now w) (hdemand : ∀ k, demand es k ≤ w.tokens.balance k) :
    Succeeds (exec p) w (es.map Exit.instruction) ∧
      ∀ es₁ e es₂, es = es₁ ++ e :: es₂ → ∃ v',
        (run (exec p) w (es₁.map Exit.instruction)).vaults V = some v' ∧
          payoutFor v now e.lpAmount ≤ payoutFor v' now e.lpAmount := by
  induction es generalizing w v with
  | nil => exact ⟨trivial, fun es₁ e es₂ h ↦ absurd h (by simp)⟩
  | cons e es ih =>
    have hready := hes e List.mem_cons_self
    have howned : e.lpAmount.toNat ≤ w.tokens.balance e.accounts.userLpAccount :=
      le_trans (le_demand List.mem_cons_self) (hdemand _)
    have hV := hready.vault
    obtain rfl := hready.now
    subst hV
    have hok : (exec p w e.instruction).isOk = true :=
      (instantWithdraw_isOk_iff hb hv).mpr (hready.canRedeem hb hv hl howned)
    have hstep := eq_ok_advance hok
    set w₁ := advance (exec p) w e.instruction with hw₁
    obtain ⟨u, v₁, _, _, _, _, _, _, hx⟩ := instantWithdraw_eq_ok
      (show instantWithdraw p e.env w e.accounts e.lpAmount = .ok w₁ from hstep)
    obtain rfl := Option.some_inj.mp (hx.vault.symm.trans hv)
    have hb₁ := exec_lpBacked hb ha hstep
    have hl₁ := hx.liquid hb.custody hl
    have hes₁ : ∀ x ∈ es, x.Ready p e.accounts.vault e.env.now w₁ := fun x hxmem ↦
      hx.ready rfl (hes x (List.mem_cons_of_mem e hxmem))
    -- what the others want to redeem is still in their accounts
    have hdemand₁ : ∀ x ∈ es, demand es x.accounts.userLpAccount ≤
        w₁.tokens.balance x.accounts.userLpAccount := by
      intro x hxmem
      have hxready := hes x (List.mem_cons_of_mem e hxmem)
      obtain ⟨v₀, hv₀, hholds, -⟩ := hxready.accounts
      obtain rfl := Option.some_inj.mp (hv₀.symm.trans hv)
      have hne : x.accounts.userLpAccount ≠ v₀.vaultAssetAccount := by
        obtain ⟨y, hy, -, hyo⟩ := hholds.lp
        exact hb.custody.user_ne_vaultAsset hv hxready.signer hy hyo
      have hfall := hx.balance_le hne
      have htotal := hdemand x.accounts.userLpAccount
      rw [demand_cons] at htotal
      omega
    have hdemand₂ : ∀ k, demand es k ≤ w₁.tokens.balance k := by
      intro k
      by_cases hk : ∃ x ∈ es, x.accounts.userLpAccount = k
      · obtain ⟨x, hxmem, rfl⟩ := hk
        exact hdemand₁ x hxmem
      · have hzero : demand es k = 0 := by
          apply List.sum_eq_zero
          intro n hn
          obtain ⟨x, hxmem, rfl⟩ := List.mem_map.mp hn
          exact if_neg fun he ↦ hk ⟨x, hxmem, he⟩
        omega
    obtain ⟨hsucc, hpaid⟩ := ih hb₁ (hx.lpApart rfl ha) hx.vault_eq hl₁ hes₁ hdemand₂
    refine ⟨⟨hok, hsucc⟩, fun es₁ x es₂ hsplit ↦ ?_⟩
    cases es₁ with
    | nil =>
      obtain ⟨rfl, -⟩ := List.cons.inj hsplit
      exact ⟨u, hv, le_rfl⟩
    | cons e' es₁ =>
      obtain ⟨rfl, rfl⟩ := List.cons.inj hsplit
      obtain ⟨v', hv', hle⟩ := hpaid es₁ x es₂ rfl
      refine ⟨v', hv', le_trans ?_ hle⟩
      -- the first exit took no value from the LP tokens that stay
      have hxmem : x ∈ es₁ ++ x :: es₂ := List.mem_append_right _ List.mem_cons_self
      have hxown : x.lpAmount.toNat ≤ w₁.tokens.balance x.accounts.userLpAccount :=
        le_trans (le_demand hxmem) (hdemand₂ _)
      have hcount : x.lpAmount.toNat ≤ v₁.lpSupply.toNat := by
        have hredeem := (hes₁ x hxmem).canRedeem hb₁ hx.vault_eq hl₁ hxown
        have hxV := (hes₁ x hxmem).vault
        rw [← hxV] at hb₁
        exact hredeem.le_counted hb₁ (hxV ▸ hx.vault_eq)
      have hpos := (hes₁ x hxmem).positive
      have hfair := hx.tradesFairly.value
      have hlp := hx.lpSupply
      have hworth : redeemable u e.env.now x.lpAmount ≤ redeemable v₁ e.env.now x.lpAmount := by
        rw [redeemable_eq hv, redeemable_eq hx.vault_eq]
        exact claim_le hfair (by rw [lpCountedOf_of_vault hx.vault_eq]; omega) _
      have hbps : v₁.withdrawalFeeBps = u.withdrawalFeeBps := by rw [hx.kept]
      rw [payoutFor_eq hl.fee (by omega), payoutFor_eq hl₁.fee hcount, hbps]
      exact sub_part_mono hl.fee hworth

/-- While the assets its LP tokens can redeem are idle, everyone can leave a vault, in any order
and at one time, and whoever leaves later is paid no less. -/
theorem everyone_can_leave {now : I64} {es : List Exit}
    (hreach : Reachable (exec p) (Genesis p) w) (ha : LpAuthorityApart p V w)
    (hv : w.vaults V = some v) (hl : Liquid now w v) (hes : ∀ e ∈ es, e.Ready p V now w)
    (hdemand : ∀ k, demand es k ≤ w.tokens.balance k) :
    Succeeds (exec p) w (es.map Exit.instruction) ∧
      ∀ es₁ e es₂, es = es₁ ++ e :: es₂ → ∃ v',
        (run (exec p) w (es₁.map Exit.instruction)).vaults V = some v' ∧
          payoutFor v now e.lpAmount ≤ payoutFor v' now e.lpAmount :=
  exits_succeed (reachable_lpBacked hreach ha) ha hv hl hes hdemand

/-! ### Two holders -/

def sitterAsset : Pubkey := 320

/-- The second holder has an account to be paid into. -/
def leaversRun : List (Env × Instruction) :=
  sharedRun ++
    [(Sample.clock 0, .wallet [sitterAsset]
      (.initializeAccount sitterAsset Sample.assetMint sitter))]

def leaversWorld : World := run (exec sampleAddresses) Sample.empty leaversRun

def sitterAccounts : UserAccounts :=
  { Sample.userAccounts with
    user := sitter
    userAssetAccount := sitterAsset
    userLpAccount := sitterLp }

/-- The second holder leaves before the first. -/
def sampleExits : List Exit :=
  [⟨Sample.clock 0, sitterAccounts, 400⟩, ⟨Sample.clock 0, Sample.userAccounts, 600⟩]

theorem leaversWorld_accounts :
    leaversWorld.tokens.account sitterAccounts.userAssetAccount =
        some ⟨Sample.assetMint, sitter, 0, none, 0⟩ ∧
      leaversWorld.tokens.account sitterAccounts.userLpAccount =
        some ⟨Sample.lpMint, sitter, 400, none, 0⟩ ∧
      leaversWorld.tokens.account Sample.userAccounts.userAssetAccount =
        some ⟨Sample.assetMint, Sample.user, 999000, none, 0⟩ ∧
      leaversWorld.tokens.account Sample.userAccounts.userLpAccount =
        some ⟨Sample.lpMint, Sample.user, 600, none, 0⟩ := by
  decide +kernel

theorem everyone_can_leave_sample :
    Succeeds (exec sampleAddresses) leaversWorld (sampleExits.map Exit.instruction) := by
  have hlive : (leaversWorld.vaults Sample.vault).map (fun v ↦ (v.assetMint, v.lpMint,
        v.vaultAssetAccount, v.withdrawalWaitPeriod, v.withdrawalFeeBps, v.totalAssets,
        v.idleAssets, v.lockedProfit, v.lockedProfitTs, v.lockedProfitDegradation)) =
      some (Sample.assetMint, Sample.lpMint, Sample.vaultAsset, 0, 0, 1100, 1000, 100, 0, 100) := by
    decide +kernel
  have hbalance : leaversWorld.tokens.balance Sample.vaultAsset = 1000 := by decide +kernel
  rw [Option.map_eq_some_iff] at hlive
  obtain ⟨v, hv, hfields⟩ := hlive
  simp only [Prod.mk.injEq] at hfields
  obtain ⟨hasset, hlp, hvaultAsset, hwait, hfee, htotal, hidle, hlocked, hts, hdeg⟩ := hfields
  obtain ⟨hsitterAsset, hsitterLp, huserAsset, huserLp⟩ := leaversWorld_accounts
  have hliquid : Liquid 0 leaversWorld v :=
    { noWait := hwait
      fee := by rw [hfee]; decide
      readable := Or.inr (Or.inr ⟨0, by rw [hts]; exact checkedSubI64_self 0⟩)
      idle := by
        rw [remaining, lockElapsed, htotal, hidle, hlocked, hts, hdeg]
        decide +kernel
      backed := by rw [hidle, hvaultAsset, hbalance]; decide }
  have hsitterHolds : UserHolds leaversWorld sitterAccounts v :=
    { asset := ⟨_, hsitterAsset, rfl, rfl⟩
      lp := ⟨_, hsitterLp, rfl, rfl⟩
      vaultAssetAccount := hvaultAsset.symm
      lpMint := hlp.symm }
  have huserHolds : UserHolds leaversWorld Sample.userAccounts v :=
    { asset := ⟨_, huserAsset, rfl, rfl⟩
      lp := ⟨_, huserLp, rfl, rfl⟩
      vaultAssetAccount := hvaultAsset.symm
      lpMint := hlp.symm }
  have hsitterFree : ∀ x, leaversWorld.tokens.account sitterAccounts.userLpAccount = some x →
      x.delegate ≠ some sitterAccounts.user := by
    intro x hx
    rw [hsitterLp, Option.some_inj] at hx
    subst hx
    intro he
    cases he
  have huserFree : ∀ x, leaversWorld.tokens.account Sample.userAccounts.userLpAccount = some x →
      x.delegate ≠ some Sample.userAccounts.user := by
    intro x hx
    rw [huserLp, Option.some_inj] at hx
    subst hx
    intro he
    cases he
  have hready : ∀ e ∈ sampleExits, e.Ready sampleAddresses Sample.vault 0 leaversWorld := by
    intro e he
    rcases List.mem_pair.mp he with rfl | rfl
    · exact
        { vault := rfl
          now := rfl
          hook := rfl
          signer := by decide +kernel
          positive := by decide
          accounts := ⟨v, hv, hsitterHolds, hasset.symm⟩
          undelegated := by simpa only using hsitterFree }
    · exact
        { vault := rfl
          now := rfl
          hook := rfl
          signer := by decide +kernel
          positive := by decide
          accounts := ⟨v, hv, huserHolds, hasset.symm⟩
          undelegated := by simpa only using huserFree }
  have hdemand : ∀ k, demand sampleExits k ≤ leaversWorld.tokens.balance k := by
    intro k
    have hbalances := And.intro (Tokens.balance_of_account hsitterLp)
      (Tokens.balance_of_account huserLp)
    by_cases hsitter : sitterAccounts.userLpAccount = k
    · subst hsitter
      rw [hbalances.1]
      decide
    · by_cases huser : Sample.userAccounts.userLpAccount = k
      · subst huser
        rw [hbalances.2]
        decide
      · have hzero : demand sampleExits k = 0 := by
          rw [sampleExits, demand_cons, demand_cons, if_neg hsitter, if_neg huser]
          rfl
        rw [hzero]
        exact Nat.zero_le _
  have hapart : LpAuthorityApart sampleAddresses Sample.vault leaversWorld := by
    apply sample_lpApart
    simp [leaversRun, sharedRun, fundedRun, Sample.setup, Instruction.vault, Sample.userAccounts,
      Sample.strategyAccounts]
  have hreach : Reachable (exec sampleAddresses) (Genesis sampleAddresses) leaversWorld :=
    ⟨_, leaversRun, Sample.genesis, rfl⟩
  exact (everyone_can_leave hreach hapart hv hliquid hready hdemand).1

end VaultProgram
