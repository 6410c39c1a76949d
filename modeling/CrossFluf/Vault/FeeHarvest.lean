import CrossFluf.Vault.FeeLedger

/-!
# What a harvest takes

A harvest pays its fees in new LP tokens and moves no assets.  The performance fee is part of the
profit over the high water mark, and the admin's new LP tokens are worth at most the fees, which is
what the other holders lose.
-/

namespace VaultProgram

open Machine Solana Outcome Run Proportion

variable {p : ProgramAddresses} {env : Env} {w w' : World} {v v' : Vault} {now : I64}
  {a : HarvestFeesAccounts}

/-- The effective assets over what the LP tokens were worth at the high water mark. -/
def profitAt (v : Vault) (now : I64) : ℚ :=
  v.effective now - v.highWaterMark.toNat * v.lpSupply.toNat / PRECISION.toNat

/-- A harvest at `now` took `managementFee` and `performanceFee` in `feeLp` new LP tokens. -/
structure TakesFee (w : World) (a : HarvestFeesAccounts) (now : I64) (v v' : Vault)
    (managementFee performanceFee feeLp : U64) (w' : World) : Prop where
  total : v'.totalAssets = v.totalAssets
  idle : v'.idleAssets = v.idleAssets
  lockedProfit : v'.lockedProfit = v.lockedProfit
  lockedProfitTs : v'.lockedProfitTs = v.lockedProfitTs
  effective : v'.effective now = v.effective now
  positions : w'.strategies = w.strategies
  performance : (performanceFee.toNat : ℚ) ≤
    v.performanceFeeBps.toNat / 10000 * max 0 (profitAt v now)
  minted : w'.tokens.balance a.adminLpAccount =
    w.tokens.balance a.adminLpAccount + feeLp.toNat
  lpSupply : v'.lpSupply.toNat = v.lpSupply.toNat + feeLp.toNat
  worth : redeemable v' now feeLp ≤ managementFee.toNat + performanceFee.toNat
  dilution : ∀ h : U64, (redeemable v now h : ℚ) < redeemable v' now h +
    (h.toNat : ℚ) * (managementFee.toNat + performanceFee.toNat : ℕ) / v.lpSupply.toNat + 1

/-! ## The performance fee -/

theorem precision_pos : (0 : ℚ) < PRECISION.toNat := by
  have hpos : 0 < PRECISION.toNat := by decide
  exact_mod_cast hpos

-- without profit the ratio is not above the mark
theorem excess_le_profit (v : Vault) (now : I64) :
    (((ratioOf v (v.effective now) - v.highWaterMark.toNat) * v.lpSupply.toNat /
      PRECISION.toNat : ℕ) : ℚ) ≤ max 0 (profitAt v now) := by
  have hP := precision_pos
  rcases Nat.le_total (ratioOf v (v.effective now)) v.highWaterMark.toNat with hle | hge
  · rw [Nat.sub_eq_zero_of_le hle, Nat.zero_mul, Nat.zero_div, Nat.cast_zero]
    exact le_max_left _ _
  · apply le_trans _ (le_max_right _ _)
    have hratio : ((ratioOf v (v.effective now) * v.lpSupply.toNat : ℕ) : ℚ) ≤
        (v.effective now * PRECISION.toNat : ℕ) := by
      exact_mod_cast ratioOf_mul_le v (v.effective now)
    have hfloor : (((ratioOf v (v.effective now) - v.highWaterMark.toNat) * v.lpSupply.toNat /
        PRECISION.toNat : ℕ) : ℚ) ≤
          (((ratioOf v (v.effective now) - v.highWaterMark.toNat) * v.lpSupply.toNat : ℕ) : ℚ) /
            PRECISION.toNat := Nat.cast_div_le
    refine hfloor.trans ?_
    rw [profitAt, div_le_iff₀ hP, sub_mul, div_mul_cancel₀ _ hP.ne', Nat.cast_mul,
      Nat.cast_sub hge, sub_mul]
    rw [Nat.cast_mul, Nat.cast_mul] at hratio
    linarith

theorem performanceQuotient_le_profit (v : Vault) (now : I64) :
    (performanceQuotient v (v.effective now) : ℚ) ≤
      v.performanceFeeBps.toNat / 10000 * max 0 (profitAt v now) := by
  rw [performanceQuotient]
  refine Nat.cast_div_le.trans ?_
  rw [Nat.cast_mul, Nat.cast_ofNat, mul_comm, mul_div_right_comm]
  exact mul_le_mul_of_nonneg_left (excess_le_profit v now) (by positivity)

section Computed

variable {elapsed : I64} {e m f t : U64} {r : U128}

theorem FeesComputed.performance_le (h : FeesComputed v now elapsed e m r f t) :
    (f.toNat : ℚ) ≤ v.performanceFeeBps.toNat / 10000 * max 0 (profitAt v now) := by
  have hmod : f.toNat ≤ performanceQuotient v (v.effective now) := by
    rw [h.performance_eq]
    exact Nat.mod_le _ _
  exact (Nat.cast_le.mpr hmod).trans (performanceQuotient_le_profit v now)

/-! ## The LP tokens -/

/-- Without fees nothing happens. -/
theorem FeesComputed.takesNothing (h : FeesComputed v now elapsed e m r f t)
    (hz : t.toNat = 0) : TakesFee w a now v v m f 0 w where
  total := rfl
  idle := rfl
  lockedProfit := rfl
  lockedProfitTs := rfl
  effective := rfl
  positions := rfl
  performance := h.performance_le
  minted := rfl
  lpSupply := rfl
  worth := by
    have hnone : redeemable v now 0 = 0 := by
      show 0 * (v.totalAssets.toNat - remaining v now) / v.lpSupply.toNat = 0
      rw [Nat.zero_mul, Nat.zero_div]
    rw [hnone]
    exact Nat.zero_le _
  dilution := by
    intro k
    rw [← h.total_add, hz, Nat.cast_zero, mul_zero, zero_div, add_zero]
    exact lt_add_one _

theorem FeesTaken.effective_eq {feeLp : U64} {minted : Tokens}
    (h : FeesTaken p env w a v v' e t r feeLp minted w') (now : I64) :
    v'.effective now = v.effective now := by
  rw [Vault.effective, Vault.effective, h.kept]
  rfl

theorem mintFeeLp_balance {feeLp : U64} {minted : Tokens}
    (h : mintFeeLp p w a feeLp = .ok minted) :
    minted.balance a.adminLpAccount = w.tokens.balance a.adminLpAccount + feeLp.toNat := by
  rw [mintFeeLp] at h
  split at h
  · exact Tokens.mintTo_balance (mapError_eq_ok.mp h)
  · rename_i hzero
    rw [pure_eq_ok] at h
    rw [← h, Nat.eq_zero_of_not_pos hzero, Nat.add_zero]

theorem FeesTaken.takesFee {feeLp : U64} {minted : Tokens}
    (h : FeesTaken p env w a v v' e t r feeLp minted w')
    (hc : FeesComputed v env.now elapsed e m r f t) (hL : 0 < v.lpSupply.toNat)
    (hE : 0 < v.effective env.now) : TakesFee w a env.now v v' m f feeLp w' := by
  have heffective := h.effective_eq env.now
  -- the LP tokens are at most what the fees would buy
  have hfair : feeLp.toNat * v.effective env.now ≤ t.toNat * v.lpSupply.toNat := by
    rw [← hc.effective_eq] at hE ⊢
    exact mod_floor_mul_le (feeLpFor_eq_ok h.feeLp_ok hL hE)
  have hafter : ∀ k : U64, redeemable v' env.now k =
      k.toNat * v.effective env.now / (v.lpSupply.toNat + feeLp.toNat) := by
    intro k
    rw [redeemable, ← h.lpSupply, ← heffective]
    rfl
  exact
    { total := by rw [h.kept]
      idle := by rw [h.kept]
      lockedProfit := by rw [h.kept]
      lockedProfitTs := by rw [h.kept]
      effective := heffective
      positions := by rw [h.world, World.setVault_strategies, World.setTokens_strategies]
      performance := hc.performance_le
      minted := by
        rw [h.world, World.setVault_tokens, World.setTokens_tokens]
        exact mintFeeLp_balance h.minted_ok
      lpSupply := h.lpSupply
      worth := by
        rw [hafter, ← hc.total_add]
        exact redeem_floor_le hfair (Nat.le_add_right _ _)
      dilution := by
        intro k
        rw [hafter, ← hc.total_add, redeemable, ← Vault.effective]
        exact floor_dilution_lt k.toNat hL hfair }

end Computed

/-- A harvest of a vault that has LP tokens and assets takes no more than its fees: no books or
positions change, the performance fee is at most its rate of the profit over the high water mark,
the admin's LP tokens are worth at most the fees, and a holder of `h` LP tokens loses less than
their part of them and one unit. -/
theorem harvestFees_takesFee (h : exec p w (env, .harvestFees a) = .ok w')
    (hv : w.vaults a.vault = some v) (hL : 0 < v.lpSupply.toNat)
    (hE : 0 < v.effective env.now) :
    ∃ v' managementFee performanceFee feeLp, w'.vaults a.vault = some v' ∧
      harvestedFees v env.now = .ok (managementFee, performanceFee) ∧
        TakesFee w a env.now v v' managementFee performanceFee feeLp w' := by
  obtain ⟨x, elapsed, e, m, r, f, t, hx, hc, hcase⟩ := harvestFees_computed h
  obtain rfl := Option.some_inj.mp (hv.symm.trans hx)
  rcases hcase with ⟨hz, rfl⟩ | ⟨-, v', feeLp, minted, ht⟩
  · exact ⟨v, m, f, 0, hv, hc.harvested, hc.takesNothing (by rw [hz]; rfl)⟩
  · exact ⟨v', m, f, feeLp, ht.vault_eq, hc.harvested, ht.takesFee hc hL hE⟩

def adminLp : Pubkey := 256

def harvestAccounts : HarvestFeesAccounts where
  admin := Sample.admin
  vault := Sample.vault
  lpMint := Sample.lpMint
  adminLpAccount := adminLp

/-- A deposit of 1000 that has earned 100, at a performance fee of 10 and a management fee of 1
percent. -/
def earnedRun : List (Env × Instruction) :=
  Sample.setup { Sample.config 0 0 with performanceFeeBps := 1000, managementFeeBps := 100 } ++
    [(Sample.clock 0, .wallet [adminLp]
       (.initializeAccount adminLp Sample.lpMint Sample.admin)),
     (Sample.clock 0, .deposit Sample.userAccounts 1000),
     (Sample.clock 0, .addStrategy Sample.strategyAccounts [] []),
     (Sample.clock 0, .reportYield Sample.strategyAccounts 100)]

def earnedWorld : World := run (exec sampleAddresses) Sample.empty earnedRun

/-- After a year. -/
def yearlyHarvest : Env × Instruction := (Sample.clock 31536000, .harvestFees harvestAccounts)

def harvestedWorld : World := advance (exec sampleAddresses) earnedWorld yearlyHarvest

theorem harvestFees_takesFee_yearly : ∃ v v' managementFee performanceFee feeLp,
    earnedWorld.vaults Sample.vault = some v ∧
      harvestedFees v 31536000 = .ok (managementFee, performanceFee) ∧
      TakesFee earnedWorld harvestAccounts 31536000 v v' managementFee performanceFee feeLp
        harvestedWorld := by
  have hok : (exec sampleAddresses earnedWorld yearlyHarvest).isOk = true := by decide +kernel
  have hvault : (earnedWorld.vaults Sample.vault).map
      (fun v ↦ (v.lpSupply.toNat, v.effective 31536000)) = some (1000, 1100) := by
    decide +kernel
  rw [Option.map_eq_some_iff] at hvault
  obtain ⟨v, hv, hvalues⟩ := hvault
  rw [Prod.mk.injEq] at hvalues
  have hL : 0 < v.lpSupply.toNat := by rw [hvalues.1]; decide
  have hE : 0 < v.effective 31536000 := by rw [hvalues.2]; decide
  obtain ⟨v', m, f, feeLp, -, hfees, htakes⟩ :=
    harvestFees_takesFee (eq_ok_advance hok) hv hL hE
  exact ⟨v, v', m, f, feeLp, hv, hfees, htakes⟩

end VaultProgram
