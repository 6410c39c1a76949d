import CrossFluf.Vault.Books

/-!
# What a harvest computes

The management fee, the ratio of assets to LP tokens, the performance fee on what that ratio
gained, and the LP tokens minted for the two: each as the quotient the handler takes, in `ℕ`.
-/

namespace VaultProgram

open Machine Solana Outcome Run

variable {p : ProgramAddresses} {env : Env} {w w' : World} {v v' : Vault} {now : I64}
  {a : HarvestFeesAccounts}

/-! ## The quotients -/

/-- What `effective_total_assets` returns. -/
def Vault.effective (v : Vault) (now : I64) : ℕ := v.totalAssets.toNat - remaining v now

/-- The management fee before it is narrowed. -/
def managementQuotient (v : Vault) (effectiveAssets elapsed : ℕ) : ℕ :=
  effectiveAssets * v.managementFeeBps.toNat / 10000 * elapsed / 31536000

/-- The ratio a harvest compares with the high water mark. -/
def ratioOf (v : Vault) (effectiveAssets : ℕ) : ℕ :=
  if v.lpSupply.toNat = 0 then PRECISION.toNat
  else effectiveAssets * PRECISION.toNat / v.lpSupply.toNat

/-- The performance fee before it is narrowed. -/
def performanceQuotient (v : Vault) (effectiveAssets : ℕ) : ℕ :=
  (ratioOf v effectiveAssets - v.highWaterMark.toNat) * v.lpSupply.toNat / PRECISION.toNat *
    v.performanceFeeBps.toNat / 10000

theorem effectiveTotalAssets_toNat {e : U64} (h : effectiveTotalAssets v now = .ok e) :
    e.toNat = v.effective now :=
  (effectiveTotalAssets_eq_ok.mp h).2

theorem managementFeeFor_eq_ok {e elapsed fee : U64}
    (h : managementFeeFor v e elapsed = .ok fee) :
    fee.toNat = managementQuotient v e.toNat elapsed.toNat % 2 ^ 64 := by
  rw [managementFeeFor] at h
  rw [managementQuotient]
  split at h
  · simp only [bind_eq_ok, unwrap_eq_ok, pure_eq_ok, checkedMul_eq_some, checkedDiv_eq_some,
      asU128_toNat_u64, asU128_toNat_u16] at h
    obtain ⟨product, hproduct, annual, ⟨-, hannual⟩, prorated, hprorated, rfl⟩ := h
    have hbps : (asU128 BPS_DENOMINATOR).toNat = 10000 := by decide
    have hyear : SECONDS_PER_YEAR.toNat = 31536000 := by decide
    rw [asU64_toNat, BitVec.toNat_udiv, hyear, hprorated, hannual, BPS_DENOMINATOR, hproduct]
    rfl
  · rename_i hnone
    rw [pure_eq_ok] at h
    have hzero : v.managementFeeBps.toNat = 0 ∨ elapsed.toNat = 0 := by omega
    rw [← h]
    rcases hzero with hz | hz
    · rw [hz, Nat.mul_zero, Nat.zero_div, Nat.zero_mul, Nat.zero_div]
      rfl
    · rw [hz, Nat.mul_zero, Nat.zero_div]
      rfl

theorem currentRatioFor_eq_ok {e : U64} {ratio : U128} (h : currentRatioFor v e = .ok ratio) :
    ratio.toNat = ratioOf v e.toNat := by
  rw [currentRatioFor] at h
  rw [ratioOf]
  split at h
  · rename_i hpos
    simp only [bind_eq_ok, unwrap_eq_ok, checkedMul_eq_some, checkedDiv_eq_some,
      asU128_toNat_u64] at h
    obtain ⟨product, hproduct, -, hratio⟩ := h
    rw [if_neg (by omega), hratio, hproduct]
  · rename_i hzero
    rw [pure_eq_ok] at h
    rw [if_pos (by omega), h]

theorem performanceFeeFor_eq_ok {e fee : U64} {ratio : U128}
    (hratio : ratio.toNat = ratioOf v e.toNat) (h : performanceFeeFor v ratio = .ok fee) :
    fee.toNat = performanceQuotient v e.toNat % 2 ^ 64 := by
  rw [performanceFeeFor] at h
  rw [performanceQuotient, ← hratio]
  split at h
  · rename_i habove
    simp only [bind_eq_ok, unwrap_eq_ok, pure_eq_ok, checkedMul_eq_some, asU128_toNat_u64,
      asU128_toNat_u16] at h
    obtain ⟨product, hproduct, scaled, hscaled, rfl⟩ := h
    have hbps : (asU128 BPS_DENOMINATOR).toNat = 10000 := by decide
    rw [asU64_toNat, BitVec.toNat_udiv, hbps, hscaled, BitVec.toNat_udiv, hproduct,
      sub_toNat_of_le (Nat.le_of_lt habove.1)]
  · rename_i hnone
    rw [pure_eq_ok] at h
    have hzero : ratio.toNat - v.highWaterMark.toNat = 0 ∨ v.performanceFeeBps.toNat = 0 := by
      omega
    rw [← h]
    rcases hzero with hz | hz
    · rw [hz, Nat.zero_mul, Nat.zero_div, Nat.zero_mul, Nat.zero_div]
      rfl
    · rw [hz, Nat.mul_zero, Nat.zero_div]
      rfl

theorem feeLpFor_eq_ok {e total feeLp : U64} (h : feeLpFor v e total = .ok feeLp)
    (hlp : 0 < v.lpSupply.toNat) (he : 0 < e.toNat) :
    feeLp.toNat = total.toNat * v.lpSupply.toNat / e.toNat % 2 ^ 64 := by
  rw [feeLpFor, if_pos ⟨hlp, he⟩] at h
  exact (mulDiv_u64_eq_ok.mp h).2

theorem ratioOf_mul_le (v : Vault) (e : ℕ) :
    ratioOf v e * v.lpSupply.toNat ≤ e * PRECISION.toNat := by
  rw [ratioOf]
  split
  · rename_i hz
    rw [hz, Nat.mul_zero]
    exact Nat.zero_le _
  · exact Proportion.floor_mul_le _ _

/-! ## Backwards -/

/-- The fees of `v` as a harvest at `now` computes them. -/
structure FeesComputed (v : Vault) (now elapsed : I64) (effectiveAssets managementFee : U64)
    (currentRatio : U128) (performanceFee totalFeeAssets : U64) : Prop where
  elapsed_ok : checkedSubI64 now v.lastFeeHarvestTs = some elapsed
  effective_ok : effectiveTotalAssets v now = .ok effectiveAssets
  management_ok : managementFeeFor v effectiveAssets (i64AsU64 elapsed) = .ok managementFee
  ratio_ok : currentRatioFor v effectiveAssets = .ok currentRatio
  performance_ok : performanceFeeFor v currentRatio = .ok performanceFee
  total_add : totalFeeAssets.toNat = managementFee.toNat + performanceFee.toNat

section Computed

variable {elapsed : I64} {effectiveAssets managementFee performanceFee totalFeeAssets : U64}
  {currentRatio : U128}

theorem harvestFigures_eq_ok
    (h : harvestFigures v now = .ok ⟨effectiveAssets, managementFee, currentRatio, performanceFee⟩)
    (htotal : totalFeeAssets.toNat = managementFee.toNat + performanceFee.toNat) :
    ∃ elapsed, FeesComputed v now elapsed effectiveAssets managementFee currentRatio performanceFee
      totalFeeAssets := by
  simp only [harvestFigures, bind_eq_ok, unwrap_eq_ok, pure_eq_ok, HarvestFigures.mk.injEq] at h
  obtain ⟨elapsed, helapsed, e, heffective, m, hmanagement, r, hratio, f, hperformance, rfl, rfl,
    rfl, rfl⟩ := h
  exact ⟨elapsed, helapsed, heffective, hmanagement, hratio, hperformance, htotal⟩

theorem FeesComputed.effective_eq (h : FeesComputed v now elapsed effectiveAssets managementFee
    currentRatio performanceFee totalFeeAssets) : effectiveAssets.toNat = v.effective now :=
  effectiveTotalAssets_toNat h.effective_ok

theorem FeesComputed.ratio_eq (h : FeesComputed v now elapsed effectiveAssets managementFee
    currentRatio performanceFee totalFeeAssets) :
    currentRatio.toNat = ratioOf v (v.effective now) := by
  rw [currentRatioFor_eq_ok h.ratio_ok, h.effective_eq]

theorem FeesComputed.performance_eq (h : FeesComputed v now elapsed effectiveAssets
    managementFee currentRatio performanceFee totalFeeAssets) :
    performanceFee.toNat = performanceQuotient v (v.effective now) % 2 ^ 64 := by
  rw [performanceFeeFor_eq_ok (currentRatioFor_eq_ok h.ratio_ok) h.performance_ok,
    h.effective_eq]

end Computed

/-- What a harvest leaves when there is a fee: LP tokens are minted for it to the admin, the clock
and the high water mark move, and the assets stay put. -/
structure FeesTaken (p : ProgramAddresses) (env : Env) (w : World) (a : HarvestFeesAccounts)
    (v v' : Vault) (effectiveAssets totalFeeAssets : U64) (currentRatio : U128) (feeLp : U64)
    (minted : Tokens) (w' : World) : Prop where
  feeLp_ok : feeLpFor v effectiveAssets totalFeeAssets = .ok feeLp
  minted_ok : mintFeeLp p w a feeLp = .ok minted
  lpSupply : v'.lpSupply.toNat = v.lpSupply.toNat + feeLp.toNat
  accumulatedFees : v'.accumulatedFees.toNat = v.accumulatedFees.toNat + totalFeeAssets.toNat
  highWaterMark : v'.highWaterMark.toNat = max v.highWaterMark.toNat currentRatio.toNat
  kept : v' = { v with
    lpSupply := v'.lpSupply
    lastFeeHarvestTs := env.now
    accumulatedFees := v'.accumulatedFees
    highWaterMark := v'.highWaterMark }
  world : w' = (w.setTokens minted).setVault a.vault v'

theorem FeesTaken.vault_eq {effectiveAssets totalFeeAssets feeLp : U64} {currentRatio : U128}
    {minted : Tokens} (h : FeesTaken p env w a v v' effectiveAssets totalFeeAssets currentRatio
      feeLp minted w') : w'.vaults a.vault = some v' := by
  rw [h.world, World.setVault_vaults_self]

/-- A harvest computes the fees, and leaves everything as it is or takes them. -/
theorem harvestFees_computed (h : harvestFees p env w a = .ok w') :
    ∃ v elapsed effectiveAssets managementFee currentRatio performanceFee totalFeeAssets,
      w.vaults a.vault = some v ∧
        FeesComputed v env.now elapsed effectiveAssets managementFee currentRatio performanceFee
          totalFeeAssets ∧
        (totalFeeAssets = 0 ∧ w' = w ∨ totalFeeAssets ≠ 0 ∧ ∃ v' feeLp minted,
          FeesTaken p env w a v v' effectiveAssets totalFeeAssets currentRatio feeLp minted
            w') := by
  simp only [harvestFees, bind_eq_ok, requireSigner_eq_ok, orElse_eq_ok, require_eq_ok,
    loadTokenAccount_eq_ok, unwrap_eq_ok, checkedAdd_eq_some, exists_const] at h
  obtain ⟨-, v, hv, -, x, -, -, ⟨effective, management, ratio, performance⟩, hcomputed, totalFee,
    htotal, h⟩ := h
  obtain ⟨elapsed, hfees⟩ := harvestFigures_eq_ok hcomputed htotal
  refine ⟨v, elapsed, effective, management, ratio, performance, totalFee, hv, hfees, ?_⟩
  split at h
  · rename_i hzero
    rw [pure_eq_ok] at h
    exact Or.inl ⟨hzero, h.symm⟩
  · rename_i hne
    simp only [bind_eq_ok, unwrap_eq_ok, checkedAdd_eq_some, pure_eq_ok] at h
    obtain ⟨feeLp, hfeeLp, minted, hminted, lpSupply, hlpSupply, fees, hfees, hw⟩ := h
    refine Or.inr ⟨hne, _, feeLp, minted, hfeeLp, hminted, hlpSupply, hfees, ?_, rfl, hw.symm⟩
    show (if v.highWaterMark.toNat < ratio.toNat then ratio else v.highWaterMark).toNat = _
    split
    · rename_i hlt
      exact (max_eq_right (Nat.le_of_lt hlt)).symm
    · rename_i hle
      exact (max_eq_left (Nat.le_of_not_lt hle)).symm

end VaultProgram
