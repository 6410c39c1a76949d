import CrossFluf.Vault.Program
import CrossFluf.Base.Release

/-!
# What a successful instruction does

Each instruction has one lemma that reads a successful run of it backwards: the checks that
passed, the amounts in `ℕ`, and the world it left.  Everything else about the program is derived
from these.
-/

namespace VaultProgram

open Machine Solana Outcome Release

variable {p : ProgramAddresses} {env : Env} {w w' : World}

/-! ## Arithmetic -/

theorem mulDiv_eq_ok {x y z : U128} {r : U64} :
    mulDiv x y z = .ok r ↔ x.toNat * y.toNat < 2 ^ 128 ∧ z.toNat ≠ 0 ∧
      r.toNat = x.toNat * y.toNat / z.toNat % 2 ^ 64 := by
  simp only [mulDiv, bind_eq_ok, unwrap_eq_ok, pure_eq_ok, checkedMul_eq_some,
    checkedDiv_eq_some]
  constructor
  · rintro ⟨m, hm, q, ⟨hz, hq⟩, rfl⟩
    refine ⟨hm ▸ m.isLt, hz, ?_⟩
    rw [asU64_toNat, hq, hm]
  · rintro ⟨hlt, hz, hr⟩
    have hm : (BitVec.ofNat 128 (x.toNat * y.toNat)).toNat = x.toNat * y.toNat := by
      rw [BitVec.toNat_ofNat, Nat.mod_eq_of_lt hlt]
    refine ⟨BitVec.ofNat 128 (x.toNat * y.toNat), hm,
      BitVec.ofNat 128 (x.toNat * y.toNat) / z, ⟨hz, BitVec.toNat_udiv⟩, ?_⟩
    rw [← BitVec.toNat_inj, asU64_toNat, BitVec.toNat_udiv, hm, hr]

/-- On `u64` operands the product never overflows `u128`. -/
theorem mulDiv_u64_eq_ok {x y z r : U64} :
    mulDiv (asU128 x) (asU128 y) (asU128 z) = .ok r ↔
      z.toNat ≠ 0 ∧ r.toNat = x.toNat * y.toNat / z.toNat % 2 ^ 64 := by
  rw [mulDiv_eq_ok, asU128_toNat_u64, asU128_toNat_u64, asU128_toNat_u64]
  exact and_iff_right (u64_mul_lt x y.isLt)

theorem feeOf_eq_ok {amount : U64} {bps : U16} {r : U64} :
    feeOf amount bps = .ok r ↔ r.toNat = amount.toNat * bps.toNat / 10000 % 2 ^ 64 := by
  have hd : (asU128 BPS_DENOMINATOR).toNat = 10000 := by decide
  have hb := bps.isLt
  rw [feeOf]
  split
  · rw [mulDiv_eq_ok, asU128_toNat_u64, asU128_toNat_u16, hd]
    constructor
    · exact fun h ↦ h.2.2
    · exact fun h ↦ ⟨u64_mul_lt amount (by omega), by decide, h⟩
  · have hz : bps.toNat = 0 := by omega
    rw [pure_eq_ok, hz, Nat.mul_zero, Nat.zero_div, Nat.zero_mod, ← BitVec.toNat_inj]
    exact eq_comm

/-- Seconds since the profit lock, as the cast to `u64` reads them. -/
def lockElapsed (v : Vault) (now : I64) : ℕ :=
  ((now.toInt - v.lockedProfitTs.toInt) % 2 ^ 64).toNat

/-- The part of the locked profit that `effective_total_assets` withholds at `now`. -/
def remaining (v : Vault) (now : I64) : ℕ :=
  withheld v.lockedProfit.toNat (lockElapsed v now) v.lockedProfitDegradation.toNat

/-- The lock can be read at `now`: there is none, or the subtraction of times stays in `i64`. -/
def LockReadable (v : Vault) (now : I64) : Prop :=
  v.lockedProfit = 0 ∨ v.lockedProfitDegradation = 0 ∨
    ∃ d, checkedSubI64 now v.lockedProfitTs = some d

theorem lockElapsed_of_le {v : Vault} {now : I64} (h : v.lockedProfitTs.toInt ≤ now.toInt) :
    lockElapsed v now = (now.toInt - v.lockedProfitTs.toInt).toNat := by
  have h1 := Int64.le_toInt v.lockedProfitTs
  have h2 := Int64.toInt_lt now
  rw [lockElapsed, Int.emod_eq_of_lt (by omega) (by omega)]

theorem lockElapsed_of_checkedSub {v : Vault} {now d : I64}
    (hd : checkedSubI64 now v.lockedProfitTs = some d) :
    (i64AsU64 d).toNat = lockElapsed v now :=
  i64AsU64_checkedSub hd

/-- The branch of `effective_total_assets` that reads the clock. -/
theorem unlocking_eq_ok {v : Vault} {now d : I64} {e : U64}
    (hd : checkedSubI64 now v.lockedProfitTs = some d) :
    (if v.lockedProfitDegradation.toNat ≤ (i64AsU64 d).toNat then
      (pure v.totalAssets : VaultResult U64)
    else do
      let remainingLocked ← mulDiv (asU128 v.lockedProfit)
        (asU128 (v.lockedProfitDegradation - i64AsU64 d)) (asU128 v.lockedProfitDegradation)
      pure (saturatingSub v.totalAssets remainingLocked)) = .ok e ↔
      e.toNat = v.totalAssets.toNat - remaining v now := by
  have helapsed := lockElapsed_of_checkedSub hd
  split
  · rename_i hle
    rw [pure_eq_ok, remaining, ← helapsed, withheld_of_period_le hle, Nat.sub_zero,
      ← BitVec.toNat_inj]
    exact eq_comm
  · rename_i hlt
    have hleft := sub_toNat_of_le (Nat.le_of_not_le hlt)
    -- what is withheld is at most the locked profit, so the cast keeps it
    have hrem : v.lockedProfit.toNat * (v.lockedProfitDegradation - i64AsU64 d).toNat /
        v.lockedProfitDegradation.toNat = remaining v now := by
      rw [hleft, remaining, ← helapsed, withheld_of_lt (by omega)]
    have hfit : remaining v now < 2 ^ 64 :=
      lt_of_le_of_lt (withheld_le _ _ _) v.lockedProfit.isLt
    have hpos : v.lockedProfitDegradation.toNat ≠ 0 := by omega
    simp only [bind_eq_ok, pure_eq_ok, mulDiv_u64_eq_ok, hrem, Nat.mod_eq_of_lt hfit]
    constructor
    · rintro ⟨r, ⟨-, hr⟩, rfl⟩
      rw [saturatingSub_toNat, hr]
    · intro he
      refine ⟨BitVec.ofNat 64 (remaining v now), ⟨hpos, ?_⟩, ?_⟩
      · rw [BitVec.toNat_ofNat, Nat.mod_eq_of_lt hfit]
      · rw [← BitVec.toNat_inj, saturatingSub_toNat, BitVec.toNat_ofNat, Nat.mod_eq_of_lt hfit,
          he]

theorem effectiveTotalAssets_eq_ok {v : Vault} {now : I64} {e : U64} :
    effectiveTotalAssets v now = .ok e ↔
      LockReadable v now ∧ e.toNat = v.totalAssets.toNat - remaining v now := by
  have hzero : ∀ x : U64, x = 0 ↔ x.toNat = 0 := fun x ↦ by
    rw [← BitVec.toNat_inj]
    rfl
  rw [effectiveTotalAssets]
  split
  · -- nothing is locked, or nothing is ever withheld
    rename_i hopen
    have hrem : remaining v now = 0 := by
      rw [remaining]
      rcases hopen with h | h
      · rw [(hzero _).mp h, withheld_zero_amount]
      · rw [(hzero _).mp h, withheld_zero_period]
    have hread : LockReadable v now := by
      rcases hopen with h | h
      · exact Or.inl h
      · exact Or.inr (Or.inl h)
    rw [pure_eq_ok, hrem, Nat.sub_zero, and_iff_right hread, ← BitVec.toNat_inj]
    exact eq_comm
  · rename_i hlocked
    have hread : LockReadable v now ↔ ∃ d, checkedSubI64 now v.lockedProfitTs = some d := by
      rw [LockReadable, ← or_assoc, or_iff_right hlocked]
    rw [hread, bind_eq_ok]
    simp only [unwrap_eq_ok]
    constructor
    · rintro ⟨d, hd, he⟩
      exact ⟨⟨d, hd⟩, (unlocking_eq_ok hd).mp he⟩
    · rintro ⟨⟨d, hd⟩, he⟩
      exact ⟨d, hd, (unlocking_eq_ok hd).mpr he⟩

theorem effectiveTotalAssets_of_readable {v : Vault} {now : I64} (h : LockReadable v now) :
    ∃ e, effectiveTotalAssets v now = .ok e := by
  have hlt : v.totalAssets.toNat - remaining v now < 2 ^ 64 :=
    lt_of_le_of_lt (Nat.sub_le _ _) v.totalAssets.isLt
  refine ⟨BitVec.ofNat 64 (v.totalAssets.toNat - remaining v now), ?_⟩
  apply effectiveTotalAssets_eq_ok.mpr
  rw [BitVec.toNat_ofNat, Nat.mod_eq_of_lt hlt]
  exact ⟨h, rfl⟩

/-! ## deposit and instant_withdraw -/

/-- The token accounts the user brings are the user's own. -/
structure UserHolds (w : World) (a : UserAccounts) (v : Vault) : Prop where
  asset : ∃ x, w.tokens.account a.userAssetAccount = some x ∧ x.mint = a.assetMint ∧
    x.owner = a.user
  lp : ∃ x, w.tokens.account a.userLpAccount = some x ∧ x.mint = a.lpMint ∧ x.owner = a.user
  vaultAssetAccount : a.vaultAssetAccount = v.vaultAssetAccount
  lpMint : a.lpMint = v.lpMint

theorem checkUserAccounts_eq_ok {a : UserAccounts} {v : Vault} {u : Unit} :
    checkUserAccounts w a v = .ok u ↔ UserHolds w a v := by
  simp only [checkUserAccounts, bind_eq_ok, require_eq_ok, loadTokenAccount_eq_ok, pure_eq_ok,
    exists_const, and_true]
  apply Iff.intro
  · intro h
    obtain ⟨x, hx, hasset, hmint, hlp⟩ := h
    exact ⟨⟨x, hx⟩, hlp, hasset, hmint⟩
  · intro h
    obtain ⟨x, hx⟩ := h.asset
    exact ⟨x, hx, h.vaultAssetAccount, h.lpMint, h.lp⟩

structure Deposited (p : ProgramAddresses) (env : Env) (w : World) (a : UserAccounts)
    (amount : U64) (w' : World) (v v' : Vault) (lpToMint feeLp lpAfterFee : U64)
    (paid minted : Tokens) : Prop where
  signer : p.isDerived a.user = false
  vault : w.vaults a.vault = some v
  active : v.isActive = true
  holds : UserHolds w a v
  positive : 0 < amount.toNat
  cap : v'.totalAssets.toNat ≤ v.maxCap.toNat
  lpToMint_ok : lpToMintFor v env.now amount = .ok lpToMint
  lpPositive : 0 < lpToMint.toNat
  feeLp_ok : feeOf lpToMint v.depositFeeBps = .ok feeLp
  lpAfterFee_add : lpToMint.toNat = feeLp.toNat + lpAfterFee.toNat
  paid_ok : transferAsset env w.tokens [a.user] a.userAssetAccount a.assetMint
    a.vaultAssetAccount a.user amount = .ok paid
  minted_ok : paid.mintTo [a.user, lpMintAuthority p a.vault] a.lpMint a.userLpAccount
    (lpMintAuthority p a.vault) lpAfterFee = .ok minted
  total : v'.totalAssets.toNat = v.totalAssets.toNat + amount.toNat
  idle : v'.idleAssets.toNat = v.idleAssets.toNat + amount.toNat
  lpSupply : v'.lpSupply.toNat = v.lpSupply.toNat + lpAfterFee.toNat
  kept : v' = { v with
    totalAssets := v'.totalAssets
    idleAssets := v'.idleAssets
    lpSupply := v'.lpSupply
    accumulatedFees := v'.accumulatedFees }
  world : w' = (w.setTokens minted).setVault a.vault v'

theorem Deposited.vault_eq {a : UserAccounts} {amount lpToMint feeLp lpAfterFee : U64}
    {v v' : Vault} {paid minted : Tokens}
    (h : Deposited p env w a amount w' v v' lpToMint feeLp lpAfterFee paid minted) :
    w'.vaults a.vault = some v' := by
  rw [h.world, World.setVault_vaults_self]

theorem deposit_eq_ok {a : UserAccounts} {amount : U64} (h : deposit p env w a amount = .ok w') :
    ∃ v v' lpToMint feeLp lpAfterFee paid minted,
      Deposited p env w a amount w' v v' lpToMint feeLp lpAfterFee paid minted := by
  simp only [deposit, bind_eq_ok, requireSigner_eq_ok, orElse_eq_ok, require_eq_ok,
    checkUserAccounts_eq_ok, unwrap_eq_ok, checkedAdd_eq_some, checkedSub_eq_some,
    mapError_eq_ok, pure_eq_ok, exists_const] at h
  obtain ⟨hsigner, v, hv, hactive, hholds, hpos, total, htotal, hcap, lp, hlp, hlppos, fee, hfee,
    lpAfter, hlpAfter, paid, hpaid, minted, hminted, idle, hidle, lpSupply, hlpSupply, fees,
    hfees, hw⟩ := h
  exact ⟨v, _, lp, fee, lpAfter, paid, minted, hsigner, hv, hactive, hholds, hpos, hcap, hlp,
    hlppos, hfee, hlpAfter, hpaid, hminted, htotal, hidle, hlpSupply, rfl, hw.symm⟩

structure Withdrawn (p : ProgramAddresses) (env : Env) (w : World) (a : UserAccounts)
    (lpAmount : U64) (w' : World) (v v' : Vault) (effectiveAssets assetsToReturn fee : U64)
    (assetsAfterFee : U64) (burned paid : Tokens) : Prop where
  signer : p.isDerived a.user = false
  vault : w.vaults a.vault = some v
  holds : UserHolds w a v
  noWait : v.withdrawalWaitPeriod = 0
  positive : 0 < lpAmount.toNat
  effective : effectiveTotalAssets v env.now = .ok effectiveAssets
  assetsToReturn_ok : mulDiv (asU128 lpAmount) (asU128 effectiveAssets) (asU128 v.lpSupply) =
    .ok assetsToReturn
  fee_ok : feeOf assetsToReturn v.withdrawalFeeBps = .ok fee
  assetsAfterFee_add : assetsToReturn.toNat = fee.toNat + assetsAfterFee.toNat
  burned_ok : w.tokens.burn [a.user] a.userLpAccount a.lpMint a.user lpAmount = .ok burned
  paid_ok : transferAsset env burned [a.user, vaultAssetAuthority p a.vault] a.vaultAssetAccount
    a.assetMint a.userAssetAccount (vaultAssetAuthority p a.vault) assetsAfterFee = .ok paid
  total : v.totalAssets.toNat = assetsToReturn.toNat + v'.totalAssets.toNat
  idle : v.idleAssets.toNat = assetsAfterFee.toNat + v'.idleAssets.toNat
  lpSupply : v.lpSupply.toNat = lpAmount.toNat + v'.lpSupply.toNat
  kept : v' = { v with
    totalAssets := v'.totalAssets
    idleAssets := v'.idleAssets
    lpSupply := v'.lpSupply }
  world : w' = (w.setTokens paid).setVault a.vault v'

theorem Withdrawn.vault_eq {a : UserAccounts} {lpAmount effectiveAssets assetsToReturn fee : U64}
    {assetsAfterFee : U64} {v v' : Vault} {burned paid : Tokens}
    (h : Withdrawn p env w a lpAmount w' v v' effectiveAssets assetsToReturn fee assetsAfterFee
      burned paid) : w'.vaults a.vault = some v' := by
  rw [h.world, World.setVault_vaults_self]

theorem instantWithdraw_eq_ok {a : UserAccounts} {lpAmount : U64}
    (h : instantWithdraw p env w a lpAmount = .ok w') :
    ∃ v v' effectiveAssets assetsToReturn fee assetsAfterFee burned paid,
      Withdrawn p env w a lpAmount w' v v' effectiveAssets assetsToReturn fee assetsAfterFee
        burned paid := by
  simp only [instantWithdraw, bind_eq_ok, requireSigner_eq_ok, orElse_eq_ok, require_eq_ok,
    checkUserAccounts_eq_ok, unwrap_eq_ok, checkedSub_eq_some, mapError_eq_ok, pure_eq_ok,
    exists_const] at h
  obtain ⟨hsigner, v, hv, hholds, hwait, hpos, effective, heffective, assets, hassets, fee, hfee,
    afterFee, hafterFee, hidleLe, burned, hburned, paid, hpaid, total, htotal, idle, hidle,
    lpSupply, hlpSupply, hw⟩ := h
  exact ⟨v, _, effective, assets, fee, afterFee, burned, paid, hsigner, hv, hholds, hwait, hpos,
    heffective, hassets, hfee, hafterFee, hburned, hpaid, htotal, hidle, hlpSupply, rfl, hw.symm⟩

/-! ## Strategies -/

structure StrategyAdded (p : ProgramAddresses) (env : Env) (w : World) (a : StrategyAccounts)
    (name protocol : List U8) (w' : World) (v v' : Vault) : Prop where
  signer : p.isDerived a.authority = false
  vault : w.vaults a.vault = some v
  address : a.strategy = (strategyAddress p a.vault v.numStrategies).1
  noVault : w.vaults a.strategy = none
  noStrategy : w.strategies a.strategy = none
  admin : a.authority = v.admin
  below : v.numStrategies.toNat < MAX_STRATEGIES.toNat
  count : v'.numStrategies.toNat = v.numStrategies.toNat + 1
  kept : v' = { v with numStrategies := v'.numStrategies }
  world : w' = (w.setStrategy a.strategy (newStrategy p env a v name protocol)).setVault a.vault
    v'

theorem StrategyAdded.vault_eq {a : StrategyAccounts} {name protocol : List U8} {v v' : Vault}
    (h : StrategyAdded p env w a name protocol w' v v') : w'.vaults a.vault = some v' := by
  rw [h.world, World.setVault_vaults_self]

theorem addStrategy_eq_ok {a : StrategyAccounts} {name protocol : List U8}
    (h : addStrategy p env w a name protocol = .ok w') :
    ∃ v v', StrategyAdded p env w a name protocol w' v v' := by
  simp only [addStrategy, bind_eq_ok, requireSigner_eq_ok, orElse_eq_ok, require_eq_ok,
    unwrap_eq_ok, checkedAdd_eq_some, pure_eq_ok, exists_const] at h
  obtain ⟨hsigner, v, hv, haddr, hnone, -, hadmin, hbelow, n, hn, hw⟩ := h
  exact ⟨v, _, hsigner, hv, haddr, hnone.1, hnone.2, hadmin, hbelow, hn, rfl, hw.symm⟩

/-- The manager acts on a strategy of the vault, which becomes `s'`. -/
structure StrategyMoved (p : ProgramAddresses) (w : World) (a : StrategyAccounts) (w' : World)
    (v v' : Vault) (s s' : Strategy) : Prop where
  signer : p.isDerived a.authority = false
  vault : w.vaults a.vault = some v
  strategy : w.strategies a.strategy = some s
  ofVault : s.vault = a.vault
  ofVault' : s'.vault = a.vault
  world : w' = (w.setVault a.vault v').setStrategy a.strategy s'

theorem StrategyMoved.vault_eq {a : StrategyAccounts} {v v' : Vault} {s s' : Strategy}
    (h : StrategyMoved p w a w' v v' s s') : w'.vaults a.vault = some v' := by
  rw [h.world, World.setStrategy_vaults, World.setVault_vaults_self]

theorem loadStrategy_eq_ok {a : StrategyAccounts} {v : Vault} {s : Strategy} :
    loadStrategy w a = .ok (v, s) ↔ w.vaults a.vault = some v ∧
      w.strategies a.strategy = some s ∧ s.vault = a.vault := by
  simp only [loadStrategy, bind_eq_ok, orElse_eq_ok, require_eq_ok, pure_eq_ok, exists_const,
    Prod.mk.injEq]
  apply Iff.intro
  · intro h
    obtain ⟨v', hv, s', hs, ho, rfl, rfl⟩ := h
    exact ⟨hv, hs, ho⟩
  · intro h
    exact ⟨v, h.1, s, h.2.1, h.2.2, rfl, rfl⟩

structure Allocated (p : ProgramAddresses) (env : Env) (w : World) (a : StrategyAccounts)
    (amount : U64) (w' : World) (v v' : Vault) (s s' : Strategy) : Prop
    extends StrategyMoved p w a w' v v' s s' where
  active : s.isActive = true
  manager : a.authority = v.manager
  positive : 0 < amount.toNat
  idle : v.idleAssets.toNat = amount.toNat + v'.idleAssets.toNat
  position : s'.positionValue.toNat = s.positionValue.toNat + amount.toNat
  kept : v' = { v with idleAssets := v'.idleAssets }

theorem allocate_eq_ok {a : StrategyAccounts} {amount : U64}
    (h : allocate p env w a amount = .ok w') :
    ∃ v v' s s', Allocated p env w a amount w' v v' s s' := by
  simp only [allocate, bind_eq_ok, requireSigner_eq_ok, require_eq_ok, Prod.exists,
    loadStrategy_eq_ok, unwrap_eq_ok, checkedAdd_eq_some, checkedSub_eq_some, pure_eq_ok,
    exists_const] at h
  obtain ⟨hsigner, v, s, ⟨hv, hs, ho⟩, hactive, hmanager, hpos, -, idle, hidle, position,
    hposition, allocated, -, hw⟩ := h
  exact ⟨v, _, s, { s with
    positionValue := position
    allocated := allocated
    lastUpdateTs := env.now }, ⟨hsigner, hv, hs, ho, ho, hw.symm⟩, hactive, hmanager, hpos, hidle,
    hposition, rfl⟩

structure Deallocated (p : ProgramAddresses) (env : Env) (w : World) (a : StrategyAccounts)
    (amount : U64) (w' : World) (v v' : Vault) (s s' : Strategy) : Prop
    extends StrategyMoved p w a w' v v' s s' where
  active : s.isActive = true
  manager : a.authority = v.manager
  positive : 0 < amount.toNat
  idle : v'.idleAssets.toNat = v.idleAssets.toNat + amount.toNat
  position : s.positionValue.toNat = amount.toNat + s'.positionValue.toNat
  kept : v' = { v with idleAssets := v'.idleAssets }

theorem deallocate_eq_ok {a : StrategyAccounts} {amount : U64}
    (h : deallocate p env w a amount = .ok w') :
    ∃ v v' s s', Deallocated p env w a amount w' v v' s s' := by
  simp only [deallocate, bind_eq_ok, requireSigner_eq_ok, require_eq_ok, Prod.exists,
    loadStrategy_eq_ok, unwrap_eq_ok, checkedAdd_eq_some, checkedSub_eq_some, pure_eq_ok,
    exists_const] at h
  obtain ⟨hsigner, v, s, ⟨hv, hs, ho⟩, hactive, hmanager, hpos, -, position, hposition, idle,
    hidle, hw⟩ := h
  exact ⟨v, _, s, { s with positionValue := position, lastUpdateTs := env.now },
    ⟨hsigner, hv, hs, ho, ho, hw.symm⟩, hactive, hmanager, hpos, hidle, hposition, rfl⟩

/-! ## report_yield -/

/-- A gain is locked whole, together with what was still locked, from `now` on. -/
structure GainBooked (now : I64) (v v' : Vault) (profit : ℕ) : Prop where
  total : v'.totalAssets.toNat = v.totalAssets.toNat + profit
  lockedProfit : v'.lockedProfit.toNat = v.lockedProfit.toNat + profit
  kept : v' = { v with
    totalAssets := v'.totalAssets
    lockedProfit := v'.lockedProfit
    lockedProfitTs := now }

/-- A loss comes off the total, down to zero. -/
structure LossBooked (v v' : Vault) (loss : ℕ) : Prop where
  total : v'.totalAssets.toNat = v.totalAssets.toNat - loss
  kept : v' = { v with totalAssets := v'.totalAssets }

theorem bookYield_eq_ok {v v' : Vault} {now : I64} {oldValue newValue : U64}
    (h : bookYield v now oldValue newValue = .ok v') :
    (oldValue.toNat < newValue.toNat ∧
      GainBooked now v v' (newValue.toNat - oldValue.toNat)) ∨
    (newValue.toNat ≤ oldValue.toNat ∧
      LossBooked v v' (oldValue.toNat - newValue.toNat)) := by
  rw [bookYield] at h
  split at h
  · rename_i hgain
    simp only [bind_eq_ok, unwrap_eq_ok, checkedAdd_eq_some, pure_eq_ok,
      sub_toNat_of_le (Nat.le_of_lt hgain)] at h
    obtain ⟨total, htotal, locked, hlocked, rfl⟩ := h
    exact Or.inl ⟨hgain, htotal, hlocked, rfl⟩
  · rename_i hle
    right
    split at h
    · rename_i hloss
      rw [pure_eq_ok] at h
      subst h
      refine ⟨Nat.le_of_lt hloss, ?_, rfl⟩
      rw [saturatingSub_toNat, sub_toNat_of_le (Nat.le_of_lt hloss)]
    · rw [pure_eq_ok] at h
      subst h
      refine ⟨Nat.le_of_not_lt hle, ?_, rfl⟩
      omega

structure YieldReported (p : ProgramAddresses) (env : Env) (w : World) (a : StrategyAccounts)
    (newPositionValue : U64) (w' : World) (v v' : Vault) (s s' : Strategy) : Prop
    extends StrategyMoved p w a w' v v' s s' where
  manager : a.authority = v.manager
  booked : bookYield v env.now s.positionValue newPositionValue = .ok v'
  position : s'.positionValue = newPositionValue

theorem reportYield_eq_ok {a : StrategyAccounts} {newPositionValue : U64}
    (h : reportYield p env w a newPositionValue = .ok w') :
    ∃ v v' s s', YieldReported p env w a newPositionValue w' v v' s s' := by
  simp only [reportYield, bind_eq_ok, requireSigner_eq_ok, require_eq_ok, Prod.exists,
    loadStrategy_eq_ok, pure_eq_ok, exists_const] at h
  obtain ⟨hsigner, v, s, ⟨hv, hs, ho⟩, hmanager, v', hv', hw⟩ := h
  exact ⟨v, v', s, { s with positionValue := newPositionValue, lastUpdateTs := env.now },
    ⟨hsigner, hv, hs, ho, ho, hw.symm⟩, hmanager, hv', rfl⟩

theorem YieldReported.lpSupply_eq {a : StrategyAccounts} {newPositionValue : U64} {v v' : Vault}
    {s s' : Strategy} (h : YieldReported p env w a newPositionValue w' v v' s s') :
    v'.lpSupply = v.lpSupply := by
  rcases bookYield_eq_ok h.booked with ⟨-, hb⟩ | ⟨-, hb⟩
  · rw [hb.kept]
  · rw [hb.kept]

structure StrategyRemoved (p : ProgramAddresses) (w : World) (a : StrategyAccounts) (w' : World)
    (v : Vault) (s : Strategy) : Prop where
  signer : p.isDerived a.authority = false
  vault : w.vaults a.vault = some v
  strategy : w.strategies a.strategy = some s
  ofVault : s.vault = a.vault
  admin : a.authority = v.admin
  empty : s.positionValue = 0
  world : w' = w.setStrategy a.strategy { s with isActive := false }

theorem removeStrategy_eq_ok {a : StrategyAccounts} (h : removeStrategy p w a = .ok w') :
    ∃ v s, StrategyRemoved p w a w' v s := by
  simp only [removeStrategy, bind_eq_ok, requireSigner_eq_ok, require_eq_ok, Prod.exists,
    loadStrategy_eq_ok, pure_eq_ok, exists_const] at h
  obtain ⟨hsigner, v, s, ⟨hv, hs, ho⟩, hadmin, hempty, hw⟩ := h
  exact ⟨v, s, hsigner, hv, hs, ho, hadmin, hempty, hw.symm⟩

/-! ## Vault-only instructions -/

structure VaultInitialized (p : ProgramAddresses) (env : Env) (w : World)
    (a : InitializeVaultAccounts) (name : List U8) (config : VaultConfig) (w' : World) : Prop where
  signer : p.isDerived a.admin = false
  address : a.vault = (vaultAddress p a.admin name).1
  noVault : w.vaults a.vault = none
  noStrategy : w.strategies a.vault = none
  assetMint : (w.tokens.mint a.assetMint).isSome
  lpMint : ∃ m, w.tokens.mint a.lpMint = some m ∧
    m.mintAuthority = some (lpMintAuthority p a.vault) ∧ m.supply = 0
  vaultAssetAccount : ∃ x, w.tokens.account a.vaultAssetAccount = some x ∧
    x.mint = a.assetMint ∧ x.owner = vaultAssetAuthority p a.vault
  performanceFee : config.performanceFeeBps.toNat ≤ 5000
  managementFee : config.managementFeeBps.toNat ≤ 1000
  world : w' = w.setVault a.vault (newVault p env a name config)

theorem initializeVault_eq_ok {a : InitializeVaultAccounts} {name : List U8}
    {config : VaultConfig} (h : initializeVault p env w a name config = .ok w') :
    VaultInitialized p env w a name config w' := by
  simp only [initializeVault, bind_eq_ok, requireSigner_eq_ok, orElse_eq_ok, require_eq_ok,
    unwrap_eq_ok, loadTokenAccount_eq_ok, pure_eq_ok, exists_const] at h
  obtain ⟨hsigner, haddr, hnone, -, hasset, m, hm, authority, hauth, rfl, hsupply, x, hx, -,
    hperf, hmgmt, hw⟩ := h
  exact ⟨hsigner, haddr, hnone.1, hnone.2, hasset, ⟨m, hm, hauth, hsupply⟩, ⟨x, hx⟩, hperf, hmgmt,
    hw.symm⟩

/-- An instruction that only rewrites the configuration of a vault. -/
structure ConfigWritten (p : ProgramAddresses) (w : World) (a : ConfigAccounts) (w' : World)
    (v v' : Vault) : Prop where
  signer : p.isDerived a.admin = false
  vault : w.vaults a.vault = some v
  admin : a.admin = v.admin
  world : w' = w.setVault a.vault v'

theorem ConfigWritten.vault_eq {a : ConfigAccounts} {v v' : Vault}
    (h : ConfigWritten p w a w' v v') : w'.vaults a.vault = some v' := by
  rw [h.world, World.setVault_vaults_self]

/-- The vault under a new configuration. -/
def Vault.withConfig (v : Vault) (config : VaultConfig) : Vault :=
  { v with
    maxCap := config.maxCap
    performanceFeeBps := config.performanceFeeBps
    managementFeeBps := config.managementFeeBps
    depositFeeBps := config.depositFeeBps
    withdrawalFeeBps := config.withdrawalFeeBps
    lockedProfitDegradation := config.lockedProfitDegradation
    withdrawalWaitPeriod := config.withdrawalWaitPeriod }

theorem updateConfig_eq_ok {a : ConfigAccounts} {config : VaultConfig}
    (h : updateConfig p w a config = .ok w') :
    ∃ v, ConfigWritten p w a w' v (v.withConfig config) ∧
      config.performanceFeeBps.toNat ≤ 5000 := by
  simp only [updateConfig, bind_eq_ok, requireSigner_eq_ok, orElse_eq_ok, require_eq_ok,
    pure_eq_ok, exists_const] at h
  obtain ⟨hsigner, v, hv, hadmin, hperf, hw⟩ := h
  exact ⟨v, ⟨hsigner, hv, hadmin, hw.symm⟩, hperf⟩

theorem setActive_eq_ok {a : ConfigAccounts} {isActive : Bool}
    (h : setActive p w a isActive = .ok w') :
    ∃ v, ConfigWritten p w a w' v { v with isActive := isActive } := by
  simp only [setActive, bind_eq_ok, requireSigner_eq_ok, orElse_eq_ok, require_eq_ok,
    pure_eq_ok, exists_const] at h
  obtain ⟨hsigner, v, hv, hadmin, hw⟩ := h
  exact ⟨v, hsigner, hv, hadmin, hw.symm⟩

/-! ## harvest_fees -/

/-- Fees were harvested: LP tokens are minted to the admin and the vault's assets stay put. -/
structure FeesHarvested (p : ProgramAddresses) (env : Env) (w : World) (a : HarvestFeesAccounts)
    (w' : World) (v v' : Vault) (feeLp : U64) (minted : Tokens) : Prop where
  signer : p.isDerived a.admin = false
  vault : w.vaults a.vault = some v
  lpMint : a.lpMint = v.lpMint
  admin : a.admin = v.admin
  minted_ok : minted = w.tokens ∨ w.tokens.mintTo [a.admin, lpMintAuthority p a.vault] a.lpMint
    a.adminLpAccount (lpMintAuthority p a.vault) feeLp = .ok minted
  lpSupply : v'.lpSupply.toNat = v.lpSupply.toNat + feeLp.toNat
  kept : v' = { v with
    lpSupply := v'.lpSupply
    lastFeeHarvestTs := env.now
    accumulatedFees := v'.accumulatedFees
    highWaterMark := v'.highWaterMark }
  world : w' = (w.setTokens minted).setVault a.vault v'

theorem FeesHarvested.vault_eq {a : HarvestFeesAccounts} {v v' : Vault} {feeLp : U64}
    {minted : Tokens} (h : FeesHarvested p env w a w' v v' feeLp minted) :
    w'.vaults a.vault = some v' := by
  rw [h.world, World.setVault_vaults_self]

theorem mintFeeLp_eq_ok {a : HarvestFeesAccounts} {feeLp : U64} {minted : Tokens}
    (h : mintFeeLp p w a feeLp = .ok minted) :
    minted = w.tokens ∨ w.tokens.mintTo [a.admin, lpMintAuthority p a.vault] a.lpMint
      a.adminLpAccount (lpMintAuthority p a.vault) feeLp = .ok minted := by
  rw [mintFeeLp] at h
  split at h
  · exact Or.inr (mapError_eq_ok.mp h)
  · exact Or.inl (pure_eq_ok.mp h).symm

theorem harvestFees_eq_ok {a : HarvestFeesAccounts} (h : harvestFees p env w a = .ok w') :
    w' = w ∨ ∃ v v' feeLp minted, FeesHarvested p env w a w' v v' feeLp minted := by
  simp only [harvestFees, bind_eq_ok, requireSigner_eq_ok, orElse_eq_ok, require_eq_ok,
    loadTokenAccount_eq_ok, unwrap_eq_ok, exists_const] at h
  obtain ⟨hsigner, v, hv, hmint, x, -, hadmin, figures, -, totalFee, -, h⟩ := h
  split at h
  · rw [pure_eq_ok] at h
    exact Or.inl h.symm
  · right
    simp only [bind_eq_ok, unwrap_eq_ok, checkedAdd_eq_some, pure_eq_ok] at h
    obtain ⟨feeLp, -, minted, hminted, lpSupply, hlpSupply, fees, -, hw⟩ := h
    exact ⟨v, _, feeLp, minted, hsigner, hv, hmint, hadmin, mintFeeLp_eq_ok hminted, hlpSupply,
      rfl, hw.symm⟩

-- also when there was nothing to harvest
theorem harvestFees_admin {a : HarvestFeesAccounts} (h : harvestFees p env w a = .ok w') :
    ∃ v, w.vaults a.vault = some v ∧ p.isDerived a.admin = false ∧ a.admin = v.admin := by
  simp only [harvestFees, bind_eq_ok, requireSigner_eq_ok, orElse_eq_ok, require_eq_ok,
    exists_const] at h
  obtain ⟨hsigner, v, hv, -, -, -, hadmin, -⟩ := h
  exact ⟨v, hv, hsigner, hadmin⟩

/-! ## Wallets -/

structure WalletActed (p : ProgramAddresses) (w : World) (signers : List Pubkey)
    (i : TokenInstruction) (w' : World) (t : Tokens) : Prop where
  external : ∀ k ∈ signers, p.isDerived k = false
  created : ∀ k ∈ i.created, p.isDerived k = false
  tokens : i.exec w.tokens signers = .ok t
  world : w' = w.setTokens t

theorem walletStep_eq_ok {signers : List Pubkey} {i : TokenInstruction}
    (h : walletStep p w signers i = .ok w') : ∃ t, WalletActed p w signers i w' t := by
  simp only [walletStep, bind_eq_ok, require_eq_ok, mapError_eq_ok, pure_eq_ok, exists_const,
    List.all_eq_true, Option.all_eq_true, Bool.not_eq_true'] at h
  obtain ⟨hs, hc, t, ht, hw⟩ := h
  exact ⟨t, hs, hc, ht, hw.symm⟩

/-! ## All instructions -/

/-- What a successful instruction does to the world. -/
inductive Effect (p : ProgramAddresses) (w : World) : Env × Instruction → World → Prop
  | initializeVault {env a name config w'} (h : VaultInitialized p env w a name config w') :
    Effect p w (env, .initializeVault a name config) w'
  | deposit {env a amount w' v v' lpToMint feeLp lpAfterFee paid minted}
    (h : Deposited p env w a amount w' v v' lpToMint feeLp lpAfterFee paid minted) :
    Effect p w (env, .deposit a amount) w'
  | instantWithdraw {env a lpAmount w' v v' effectiveAssets assetsToReturn fee assetsAfterFee
      burned paid}
    (h : Withdrawn p env w a lpAmount w' v v' effectiveAssets assetsToReturn fee assetsAfterFee
      burned paid) :
    Effect p w (env, .instantWithdraw a lpAmount) w'
  | addStrategy {env a name protocol w' v v'}
    (h : StrategyAdded p env w a name protocol w' v v') :
    Effect p w (env, .addStrategy a name protocol) w'
  | allocate {env a amount w' v v' s s'} (h : Allocated p env w a amount w' v v' s s') :
    Effect p w (env, .allocate a amount) w'
  | deallocate {env a amount w' v v' s s'} (h : Deallocated p env w a amount w' v v' s s') :
    Effect p w (env, .deallocate a amount) w'
  | reportYield {env a newPositionValue w' v v' s s'}
    (h : YieldReported p env w a newPositionValue w' v v' s s') :
    Effect p w (env, .reportYield a newPositionValue) w'
  | harvestNothing {env a} : Effect p w (env, .harvestFees a) w
  | harvestFees {env a w' v v' feeLp minted}
    (h : FeesHarvested p env w a w' v v' feeLp minted) :
    Effect p w (env, .harvestFees a) w'
  | removeStrategy {env a w' v s} (h : StrategyRemoved p w a w' v s) :
    Effect p w (env, .removeStrategy a) w'
  | updateConfig {env a config w' v} (h : ConfigWritten p w a w' v (v.withConfig config))
    (performanceFee : config.performanceFeeBps.toNat ≤ 5000) :
    Effect p w (env, .updateConfig a config) w'
  | setActive {env a isActive w' v}
    (h : ConfigWritten p w a w' v { v with isActive := isActive }) :
    Effect p w (env, .setActive a isActive) w'
  | wallet {env signers i w' t} (h : WalletActed p w signers i w' t) :
    Effect p w (env, .wallet signers i) w'

/-- The same for the initialized vault at the named address, whose account goes from `v` to `v'`. -/
inductive VaultEffect (p : ProgramAddresses) (w : World) :
    Pubkey → Env × Instruction → World → Vault → Vault → Prop
  | deposit {env a amount w' v v' lpToMint feeLp lpAfterFee paid minted}
    (h : Deposited p env w a amount w' v v' lpToMint feeLp lpAfterFee paid minted) :
    VaultEffect p w a.vault (env, .deposit a amount) w' v v'
  | instantWithdraw {env a lpAmount w' v v' effectiveAssets assetsToReturn fee assetsAfterFee
      burned paid}
    (h : Withdrawn p env w a lpAmount w' v v' effectiveAssets assetsToReturn fee assetsAfterFee
      burned paid) :
    VaultEffect p w a.vault (env, .instantWithdraw a lpAmount) w' v v'
  | addStrategy {env a name protocol w' v v'}
    (h : StrategyAdded p env w a name protocol w' v v') :
    VaultEffect p w a.vault (env, .addStrategy a name protocol) w' v v'
  | allocate {env a amount w' v v' s s'} (h : Allocated p env w a amount w' v v' s s') :
    VaultEffect p w a.vault (env, .allocate a amount) w' v v'
  | deallocate {env a amount w' v v' s s'} (h : Deallocated p env w a amount w' v v' s s') :
    VaultEffect p w a.vault (env, .deallocate a amount) w' v v'
  | reportYield {env a newPositionValue w' v v' s s'}
    (h : YieldReported p env w a newPositionValue w' v v' s s') :
    VaultEffect p w a.vault (env, .reportYield a newPositionValue) w' v v'
  | harvestNothing {env a v} : VaultEffect p w a.vault (env, .harvestFees a) w v v
  | harvestFees {env a w' v v' feeLp minted}
    (h : FeesHarvested p env w a w' v v' feeLp minted) :
    VaultEffect p w a.vault (env, .harvestFees a) w' v v'
  | removeStrategy {env a w' v s} (h : StrategyRemoved p w a w' v s) :
    VaultEffect p w a.vault (env, .removeStrategy a) w' v v
  | updateConfig {env a config w' v} (h : ConfigWritten p w a w' v (v.withConfig config))
    (performanceFee : config.performanceFeeBps.toNat ≤ 5000) :
    VaultEffect p w a.vault (env, .updateConfig a config) w' v (v.withConfig config)
  | setActive {env a isActive w' v}
    (h : ConfigWritten p w a w' v { v with isActive := isActive }) :
    VaultEffect p w a.vault (env, .setActive a isActive) w' v { v with isActive := isActive }

theorem exec_effect {i : Env × Instruction} (h : exec p w i = .ok w') : Effect p w i w' := by
  obtain ⟨env, i⟩ := i
  cases i with
  | initializeVault a name config => exact .initializeVault (initializeVault_eq_ok h)
  | deposit a amount =>
    obtain ⟨_, _, _, _, _, _, _, hd⟩ := deposit_eq_ok h
    exact .deposit hd
  | instantWithdraw a lpAmount =>
    obtain ⟨_, _, _, _, _, _, _, _, hw⟩ := instantWithdraw_eq_ok h
    exact .instantWithdraw hw
  | addStrategy a name protocol =>
    obtain ⟨_, _, hs⟩ := addStrategy_eq_ok h
    exact .addStrategy hs
  | allocate a amount =>
    obtain ⟨_, _, _, _, ha⟩ := allocate_eq_ok h
    exact .allocate ha
  | deallocate a amount =>
    obtain ⟨_, _, _, _, hd⟩ := deallocate_eq_ok h
    exact .deallocate hd
  | reportYield a newPositionValue =>
    obtain ⟨_, _, _, _, hr⟩ := reportYield_eq_ok h
    exact .reportYield hr
  | harvestFees a =>
    rcases harvestFees_eq_ok h with rfl | ⟨_, _, _, _, hf⟩
    · exact .harvestNothing
    · exact .harvestFees hf
  | removeStrategy a =>
    obtain ⟨_, _, hr⟩ := removeStrategy_eq_ok h
    exact .removeStrategy hr
  | updateConfig a config =>
    obtain ⟨_, hc, hfee⟩ := updateConfig_eq_ok h
    exact .updateConfig hc hfee
  | setActive a isActive =>
    obtain ⟨_, hc⟩ := setActive_eq_ok h
    exact .setActive hc
  | wallet signers i =>
    obtain ⟨_, ht⟩ := walletStep_eq_ok h
    exact .wallet ht

end VaultProgram
