import CrossFluf.Vault.FeeLedger

/-!
# The casts to `u64`

Every quotient the handlers take is computed in `u128` and then narrowed with `as`, which drops
the high bits.  Some quotients are bounded by a `u64` they are a share of; the LP tokens of a
deposit, the management fee and the LP tokens of a harvest are not.
-/

namespace VaultProgram

open Machine Solana Outcome Release Run Proportion

variable {p : ProgramAddresses} {env : Env} {w w' : World} {V : Pubkey} {v v' : Vault}
  {now : I64}

/-! ## One cast -/

/-- The cast at the end of `mulDiv` keeps the quotient. -/
def MulDivLossless (x y z : U128) : Prop :=
  ∀ r, mulDiv x y z = .ok r → r.toNat = x.toNat * y.toNat / z.toNat

theorem mulDivLossless_of_lt {x y z : U128} (h : x.toNat * y.toNat < 2 ^ 64 * z.toNat) :
    MulDivLossless x y z := by
  intro r hr
  have hlt : x.toNat * y.toNat / z.toNat < 2 ^ 64 :=
    Nat.div_lt_of_lt_mul (by rwa [Nat.mul_comm z.toNat])
  rw [(mulDiv_eq_ok.mp hr).2.2, Nat.mod_eq_of_lt hlt]

theorem mulDivLossless_iff {x y z : U128} {r : U64} (h : mulDiv x y z = .ok r) :
    MulDivLossless x y z ↔ x.toNat * y.toNat < 2 ^ 64 * z.toNat := by
  obtain ⟨-, hz, -⟩ := mulDiv_eq_ok.mp h
  apply Iff.intro
  · intro hl
    have hlt := r.isLt
    rw [hl r h] at hlt
    exact (Nat.div_lt_iff_lt_mul (Nat.pos_of_ne_zero hz)).mp hlt
  · exact mulDivLossless_of_lt

/-! The same for the quotients of `u64` amounts. -/

theorem mulDivLossless_u64_of_lt {x y z : U64} (h : x.toNat * y.toNat < 2 ^ 64 * z.toNat) :
    MulDivLossless (asU128 x) (asU128 y) (asU128 z) := by
  apply mulDivLossless_of_lt
  rwa [asU128_toNat_u64, asU128_toNat_u64, asU128_toNat_u64]

theorem mulDivLossless_u64_iff {x y z r : U64}
    (h : mulDiv (asU128 x) (asU128 y) (asU128 z) = .ok r) :
    MulDivLossless (asU128 x) (asU128 y) (asU128 z) ↔
      x.toNat * y.toNat < 2 ^ 64 * z.toNat := by
  rw [mulDivLossless_iff h, asU128_toNat_u64, asU128_toNat_u64, asU128_toNat_u64]

/-- The cast in `effective_total_assets`. -/
def LockLossless (v : Vault) (now : I64) : Prop :=
  ∀ elapsed, checkedSubI64 now v.lockedProfitTs = some elapsed →
    (i64AsU64 elapsed).toNat < v.lockedProfitDegradation.toNat →
      MulDivLossless (asU128 v.lockedProfit)
        (asU128 (v.lockedProfitDegradation - i64AsU64 elapsed))
        (asU128 v.lockedProfitDegradation)

-- what is still locked is a part of the locked profit
theorem lockLossless (v : Vault) (now : I64) : LockLossless v now := by
  intro elapsed _ hlt
  apply mulDivLossless_u64_of_lt
  rw [sub_toNat_of_le (Nat.le_of_lt hlt)]
  calc
    v.lockedProfit.toNat * (v.lockedProfitDegradation.toNat - (i64AsU64 elapsed).toNat) ≤
        v.lockedProfit.toNat * v.lockedProfitDegradation.toNat :=
      Nat.mul_le_mul_left _ (Nat.sub_le _ _)
    _ < 2 ^ 64 * v.lockedProfitDegradation.toNat :=
      Nat.mul_lt_mul_of_pos_right v.lockedProfit.isLt (by omega)

/-- The cast of a fee of `bps` on `amount`, where one is taken. -/
def FeeLossless (amount : U64) (bps : U16) : Prop :=
  0 < bps.toNat → MulDivLossless (asU128 amount) (asU128 bps) (asU128 BPS_DENOMINATOR)

theorem feeLossless_iff {amount : U64} {bps : U16} :
    FeeLossless amount bps ↔ amount.toNat * bps.toNat < 2 ^ 64 * 10000 := by
  have hd : (asU128 BPS_DENOMINATOR).toNat = 10000 := by decide
  have hb := bps.isLt
  rcases Nat.eq_zero_or_pos bps.toNat with hz | hpos
  · rw [hz, Nat.mul_zero]
    exact iff_of_true (fun h ↦ absurd h (by omega)) (by decide)
  · obtain ⟨fee, hfee⟩ : ∃ fee, mulDiv (asU128 amount) (asU128 bps) (asU128 BPS_DENOMINATOR) =
        .ok fee := by
      refine ⟨BitVec.ofNat 64 (amount.toNat * bps.toNat / 10000), mulDiv_eq_ok.mpr ?_⟩
      rw [asU128_toNat_u64, asU128_toNat_u16, hd, BitVec.toNat_ofNat]
      exact ⟨u64_mul_lt amount (by omega), by decide, rfl⟩
    rw [FeeLossless, imp_iff_right hpos, mulDivLossless_iff hfee, asU128_toNat_u64,
      asU128_toNat_u16, hd]

/-! ## The casts of an instruction -/

structure DepositLossless (v : Vault) (now : I64) (amount : U64) : Prop where
  lock : LockLossless v now
  lpToMint : v.lpSupply ≠ 0 → ∀ e, effectiveTotalAssets v now = .ok e →
    MulDivLossless (asU128 amount) (asU128 v.lpSupply) (asU128 e)
  feeLp : ∀ lp, lpToMintFor v now amount = .ok lp → FeeLossless lp v.depositFeeBps

structure WithdrawLossless (v : Vault) (now : I64) (lpAmount : U64) : Prop where
  lock : LockLossless v now
  assetsToReturn : ∀ e, effectiveTotalAssets v now = .ok e →
    MulDivLossless (asU128 lpAmount) (asU128 e) (asU128 v.lpSupply)
  fee : ∀ e assets, effectiveTotalAssets v now = .ok e →
    mulDiv (asU128 lpAmount) (asU128 e) (asU128 v.lpSupply) = .ok assets →
      FeeLossless assets v.withdrawalFeeBps

structure HarvestLossless (v : Vault) (now : I64) : Prop where
  lock : LockLossless v now
  managementFee : ∀ elapsed e m r f t, FeesComputed v now elapsed e m r f t →
    m.toNat = managementQuotient v e.toNat (i64AsU64 elapsed).toNat
  performanceFee : ∀ elapsed e m r f t, FeesComputed v now elapsed e m r f t →
    f.toNat = performanceQuotient v e.toNat
  feeLp : ∀ elapsed e m r f t, FeesComputed v now elapsed e m r f t → t ≠ 0 →
    0 < v.lpSupply.toNat → 0 < e.toNat →
      MulDivLossless (asU128 t) (asU128 v.lpSupply) (asU128 e)

/-- No cast of the instruction loses a bit. -/
def Instruction.Lossless (v : Vault) (now : I64) : Instruction → Prop
  | .deposit _ amount => DepositLossless v now amount
  | .instantWithdraw _ lpAmount => WithdrawLossless v now lpAmount
  | .harvestFees _ => HarvestLossless v now
  | _ => True

def Lossless (w : World) (i : Env × Instruction) : Prop :=
  ∀ V v, i.2.vault = some V → w.vaults V = some v → i.2.Lossless v i.1.now

/-! ## What has to fit -/

/-- The LP tokens a deposit is worth, over `ℕ`. -/
def depositQuotient (v : Vault) (now : I64) (amount : U64) : ℕ :=
  if v.lpSupply = 0 then amount.toNat
  else amount.toNat * v.lpSupply.toNat / v.effective now

/-- Seconds since the last harvest, as the cast to `u64` reads them. -/
def harvestElapsed (v : Vault) (now : I64) : ℕ :=
  ((now.toInt - v.lastFeeHarvestTs.toInt) % 2 ^ 64).toNat

/-- The fees of a harvest, over `ℕ`. -/
def harvestQuotient (v : Vault) (now : I64) : ℕ :=
  managementQuotient v (v.effective now) (harvestElapsed v now) +
    performanceQuotient v (v.effective now)

/-- The products an instruction divides are small enough for what it divides them by. -/
def Instruction.Fits (v : Vault) (now : I64) : Instruction → Prop
  | .deposit _ amount =>
    (v.lpSupply ≠ 0 → amount.toNat * v.lpSupply.toNat < 2 ^ 64 * v.effective now) ∧
      depositQuotient v now amount * v.depositFeeBps.toNat < 2 ^ 64 * 10000
  | .instantWithdraw _ lpAmount =>
    redeemable v now lpAmount * v.withdrawalFeeBps.toNat < 2 ^ 64 * 10000
  | .harvestFees _ =>
    v.effective now * v.managementFeeBps.toNat / 10000 * harvestElapsed v now <
        2 ^ 64 * 31536000 ∧
      (0 < v.lpSupply.toNat → 0 < v.effective now →
        harvestQuotient v now * v.lpSupply.toNat < 2 ^ 64 * v.effective now)
  | _ => True

def Fits (w : World) (i : Env × Instruction) : Prop :=
  ∀ V v, i.2.vault = some V → w.vaults V = some v → i.2.Fits v i.1.now

/-! ## Deposits and withdrawals -/

theorem lpToMintFor_quotient {amount lp : U64}
    (h : lpToMintFor v now amount = .ok lp) (hl : v.lpSupply ≠ 0 →
      amount.toNat * v.lpSupply.toNat < 2 ^ 64 * v.effective now) :
    lp.toNat = depositQuotient v now amount := by
  rw [lpToMintFor_eq_ok h, lpFor, depositQuotient]
  split
  · rfl
  · rename_i hne
    exact Nat.mod_eq_of_lt (Nat.div_lt_of_lt_mul ((hl hne).trans_eq (Nat.mul_comm _ _)))

theorem Deposited.lossless_iff {a : UserAccounts} {amount lpToMint feeLp lpAfterFee : U64}
    {paid minted : Tokens}
    (h : Deposited p env w a amount w' v v' lpToMint feeLp lpAfterFee paid minted) :
    (Instruction.deposit a amount).Lossless v env.now ↔
      (Instruction.deposit a amount).Fits v env.now := by
  have hcast : (v.lpSupply ≠ 0 → ∀ e, effectiveTotalAssets v env.now = .ok e →
      MulDivLossless (asU128 amount) (asU128 v.lpSupply) (asU128 e)) ↔
        (v.lpSupply ≠ 0 → amount.toNat * v.lpSupply.toNat < 2 ^ 64 * v.effective env.now) := by
    refine forall_congr' fun hne ↦ ?_
    have hlp := h.lpToMint_ok
    rw [lpToMintFor, if_neg hne, bind_eq_ok] at hlp
    obtain ⟨e, he, hmint⟩ := hlp
    rw [← effectiveTotalAssets_toNat he, ← mulDivLossless_u64_iff hmint]
    refine ⟨fun hall ↦ hall e he, fun hl e' he' ↦ ?_⟩
    rw [he, Except.ok.injEq] at he'
    exact he' ▸ hl
  apply Iff.intro
  · intro hl
    have hfit := hcast.mp hl.lpToMint
    refine ⟨hfit, ?_⟩
    rw [← lpToMintFor_quotient h.lpToMint_ok hfit]
    exact feeLossless_iff.mp (hl.feeLp _ h.lpToMint_ok)
  · intro hf
    refine ⟨lockLossless v env.now, hcast.mpr hf.1, fun lp hlp ↦ ?_⟩
    rw [feeLossless_iff, lpToMintFor_quotient hlp hf.1]
    exact hf.2

theorem Withdrawn.lossless_iff {a : UserAccounts}
    {lpAmount effectiveAssets assetsToReturn fee assetsAfterFee : U64} {burned paid : Tokens}
    (h : Withdrawn p env w a lpAmount w' v v' effectiveAssets assetsToReturn fee assetsAfterFee
      burned paid) : (Instruction.instantWithdraw a lpAmount).Lossless v env.now ↔
      (Instruction.instantWithdraw a lpAmount).Fits v env.now := by
  have hsame : ∀ {e}, effectiveTotalAssets v env.now = .ok e → e = effectiveAssets := by
    intro e he
    rw [h.effective, Except.ok.injEq] at he
    exact he.symm
  apply Iff.intro
  · intro hl
    have hfee := feeLossless_iff.mp (hl.fee _ _ h.effective h.assetsToReturn_ok)
    rwa [h.assets_eq] at hfee
  · intro hf
    refine ⟨lockLossless v env.now, fun e he ↦ ?_, fun e assets he hassets ↦ ?_⟩
    -- the burned LP tokens are part of the supply
    · obtain rfl := hsame he
      have hlp := h.lpSupply
      have hlt := e.isLt
      apply mulDivLossless_u64_of_lt
      rw [Nat.mul_comm]
      exact Nat.mul_lt_mul_of_lt_of_le hlt (by omega) (by have hpos := h.positive; omega)
    · obtain rfl := hsame he
      rw [h.assetsToReturn_ok, Except.ok.injEq] at hassets
      rw [← hassets, feeLossless_iff, h.assets_eq]
      exact hf

/-! ## Harvests -/

/-- Up to a rate of all of it, the performance fee is a part of the effective assets. -/
theorem performanceQuotient_le {e : ℕ} (hcap : v.performanceFeeBps.toNat ≤ 10000) :
    performanceQuotient v e ≤ e := by
  have hprofit : (ratioOf v e - v.highWaterMark.toNat) * v.lpSupply.toNat / PRECISION.toNat ≤
      e := by
    apply Nat.div_le_of_le_mul
    calc
      (ratioOf v e - v.highWaterMark.toNat) * v.lpSupply.toNat ≤
          ratioOf v e * v.lpSupply.toNat := Nat.mul_le_mul_right _ (Nat.sub_le _ _)
      _ ≤ e * PRECISION.toNat := ratioOf_mul_le v e
      _ = PRECISION.toNat * e := Nat.mul_comm _ _
  rw [performanceQuotient]
  apply Nat.div_le_of_le_mul
  rw [Nat.mul_comm 10000]
  exact Nat.mul_le_mul hprofit hcap

section Harvest

variable {elapsed : I64} {e m f t : U64} {r : U128}

theorem FeesComputed.elapsed_eq (h : FeesComputed v now elapsed e m r f t) :
    (i64AsU64 elapsed).toNat = harvestElapsed v now :=
  i64AsU64_checkedSub h.elapsed_ok

theorem FeesComputed.performance_exact (h : FeesComputed v now elapsed e m r f t)
    (hcap : v.performanceFeeBps.toNat ≤ 10000) :
    f.toNat = performanceQuotient v (v.effective now) := by
  have hlt := e.isLt
  have hle := performanceQuotient_le (e := v.effective now) hcap
  rw [← h.effective_eq] at hle ⊢
  rw [h.performance_eq, ← h.effective_eq, Nat.mod_eq_of_lt (lt_of_le_of_lt hle hlt)]

theorem managementQuotient_lt_iff {n elapsed : ℕ} : managementQuotient v n elapsed < 2 ^ 64 ↔
    n * v.managementFeeBps.toNat / 10000 * elapsed < 2 ^ 64 * 31536000 :=
  Nat.div_lt_iff_lt_mul (by decide)

theorem FeesComputed.lossless_iff {a : HarvestFeesAccounts}
    (h : FeesComputed v now elapsed e m r f t) (hcap : v.performanceFeeBps.toNat ≤ 10000)
    (hfeeLp : t ≠ 0 → ∃ feeLp, feeLpFor v e t = .ok feeLp) :
    (Instruction.harvestFees a).Lossless v now ↔ (Instruction.harvestFees a).Fits v now := by
  have hsum : ∀ {elapsed e m r f t}, FeesComputed v now elapsed e m r f t →
      m.toNat = managementQuotient v e.toNat (i64AsU64 elapsed).toNat →
        t.toNat = harvestQuotient v now := by
    intro elapsed e m r f t hc hm
    rw [hc.total_add, hm, hc.performance_exact hcap, hc.effective_eq, hc.elapsed_eq,
      harvestQuotient]
  apply Iff.intro
  · intro hl
    have hm := hl.managementFee _ _ _ _ _ _ h
    refine ⟨?_, fun hlp he ↦ ?_⟩
    · have hlt := m.isLt
      rwa [hm, h.effective_eq, h.elapsed_eq, managementQuotient_lt_iff] at hlt
    · rw [← hsum h hm]
      rw [← h.effective_eq] at he ⊢
      by_cases hz : t = 0
      · rw [hz]
        show 0 * v.lpSupply.toNat < 2 ^ 64 * e.toNat
        omega
      · obtain ⟨feeLp, hfeeLp⟩ := hfeeLp hz
        rw [feeLpFor, if_pos ⟨hlp, he⟩] at hfeeLp
        exact (mulDivLossless_u64_iff hfeeLp).mp (hl.feeLp _ _ _ _ _ _ h hz hlp he)
  · intro hf
    have hmanagement : ∀ elapsed e m r f t, FeesComputed v now elapsed e m r f t →
        m.toNat = managementQuotient v e.toNat (i64AsU64 elapsed).toNat := by
      intro elapsed e m r f t hc
      have hlt := managementQuotient_lt_iff.mpr hf.1
      rw [← hc.effective_eq, ← hc.elapsed_eq] at hlt
      rw [managementFeeFor_eq_ok hc.management_ok, Nat.mod_eq_of_lt hlt]
    refine ⟨lockLossless v now, hmanagement, ?_, ?_⟩
    · intro elapsed e m r f t hc
      rw [hc.performance_exact hcap, hc.effective_eq]
    · intro elapsed e m r f t hc _ hlp he
      apply mulDivLossless_u64_of_lt
      rw [hsum hc (hmanagement _ _ _ _ _ _ hc)]
      rw [hc.effective_eq] at he ⊢
      exact hf.2 hlp he

end Harvest

/-! ## Runs -/

/-- Both instructions that write the performance fee check it. -/
def PerformanceCapped (w : World) : Prop :=
  ∀ V v, w.vaults V = some v → v.performanceFeeBps.toNat ≤ 5000

theorem exec_performanceCapped {i : Env × Instruction} (hw : PerformanceCapped w)
    (h : exec p w i = .ok w') : PerformanceCapped w' := by
  refine (forall_vaults_step hw h (fun _ ↦ trivial) ?_ ?_).mpr trivial
  · intro V v' _ hv hv'
    obtain ⟨env, a, name, config, hi, -, rfl⟩ := exec_initializes h hv hv'
    exact iff_of_true hi.performanceFee trivial
  · intro V v v' hV hv hv'
    refine iff_of_true ?_ trivial
    have hcap := hw V v hv
    obtain ⟨env, i⟩ := i
    cases hstep : exec_vaultStep h hV hv hv' with
    | counters kept => rwa [kept]
    | report kept => rwa [kept]
    | config => exact (updateConfig_eq_ok h).choose_spec.2

theorem exec_lossless_iff {i : Env × Instruction} (hw : PerformanceCapped w)
    (h : exec p w i = .ok w') : Lossless w i ↔ Fits w i := by
  refine forall_congr' fun V ↦ forall_congr' fun v ↦ forall_congr' fun hV ↦
    forall_congr' fun hv ↦ ?_
  have hcap := hw V v hv
  obtain ⟨env, i⟩ := i
  cases i with
  | deposit a amount =>
    obtain ⟨x, x', lpToMint, feeLp, lpAfterFee, paid, minted, hd⟩ := deposit_eq_ok h
    obtain rfl := Option.some_inj.mp hV
    obtain rfl := Option.some_inj.mp (hv.symm.trans hd.vault)
    exact hd.lossless_iff
  | instantWithdraw a lpAmount =>
    obtain ⟨x, x', e, assets, fee, afterFee, burned, paid, hx⟩ := instantWithdraw_eq_ok h
    obtain rfl := Option.some_inj.mp hV
    obtain rfl := Option.some_inj.mp (hv.symm.trans hx.vault)
    exact hx.lossless_iff
  | harvestFees a =>
    obtain ⟨x, elapsed, e, m, r, f, t, hx, hc, hcase⟩ := harvestFees_computed h
    obtain rfl := Option.some_inj.mp hV
    obtain rfl := Option.some_inj.mp (hv.symm.trans hx)
    refine hc.lossless_iff (by omega) fun hne ↦ ?_
    rcases hcase with ⟨hz, -⟩ | ⟨-, v', feeLp, minted, ht⟩
    · exact absurd hz hne
    · exact ⟨feeLp, ht.feeLp_ok⟩
  | _ => exact Iff.rfl

/-- No cast of a run loses a bit exactly when every product that is divided fits.  A deposit that
does fit uses the floor of its share. -/
theorem lossless_iff_fits (hw : Genesis p w) (is : List (Env × Instruction)) :
    (EachStep (exec p) (fun w i _ ↦ Lossless w i) w is ↔
        EachStep (exec p) (fun w i _ ↦ Fits w i) w is) ∧
      ∀ v now amount lp, v.lpSupply ≠ 0 → lpToMintFor v now amount = .ok lp →
        (lp.toNat = amount.toNat * v.lpSupply.toNat / v.effective now ↔
          amount.toNat * v.lpSupply.toNat < 2 ^ 64 * v.effective now) := by
  have hgenesis : PerformanceCapped w := by
    intro V v hv
    rw [hw.vaults] at hv
    cases hv
  apply And.intro
  · refine eachStep_congr ?_ ?_ hgenesis is
    · intro w i w' hc h
      exact exec_performanceCapped hc h
    · intro w i w' hc h
      exact exec_lossless_iff hc h
  · intro v now amount lp hne hlp
    rw [lpToMintFor, if_neg hne, bind_eq_ok] at hlp
    obtain ⟨e, he, hmint⟩ := hlp
    rw [← effectiveTotalAssets_toNat he, ← mulDivLossless_u64_iff hmint]
    apply Iff.intro
    · intro hexact r hr
      rw [hmint, Except.ok.injEq] at hr
      rw [← hr, hexact, asU128_toNat_u64, asU128_toNat_u64, asU128_toNat_u64]
    · intro hl
      rw [hl lp hmint, asU128_toNat_u64, asU128_toNat_u64, asU128_toNat_u64]

/-- 2^32 LP tokens over one asset: the rest was reported as a loss.  The next deposit of 2^32 + 1
is worth 2^64 + 2^32 LP tokens. -/
def truncatedRun : List (Env × Instruction) :=
  Sample.setup { Sample.config 0 0 with maxCap := 10000000000 } ++
    [(Sample.clock 0, .wallet [Sample.user]
       (.mintTo Sample.assetMint Sample.userAsset Sample.user 10000000000)),
     (Sample.clock 0, .deposit Sample.userAccounts 4294967296),
     (Sample.clock 0, .addStrategy Sample.strategyAccounts [] []),
     (Sample.clock 0, .allocate Sample.strategyAccounts 4294967295),
     (Sample.clock 0, .reportYield Sample.strategyAccounts 0)]

def truncatedWorld : World := run (exec sampleAddresses) Sample.empty truncatedRun

def truncatedDeposit : Env × Instruction :=
  (Sample.clock 0, .deposit Sample.userAccounts 4294967297)

theorem lossless_iff_fits_truncated :
    EachStep (exec sampleAddresses) (fun w i _ ↦ Lossless w i) Sample.empty
        (truncatedRun ++ [truncatedDeposit]) ↔
      EachStep (exec sampleAddresses) (fun w i _ ↦ Fits w i) Sample.empty
        (truncatedRun ++ [truncatedDeposit]) :=
  (lossless_iff_fits Sample.genesis (truncatedRun ++ [truncatedDeposit])).1

-- the deposit goes through with 2^32 LP tokens
theorem lossless_fails : ¬ ∀ (p : ProgramAddresses) (w w' : World) (i : Env × Instruction),
    Reachable (exec p) (Genesis p) w → exec p w i = .ok w' → Lossless w i := by
  intro h
  have hok : (exec sampleAddresses truncatedWorld truncatedDeposit).isOk = true := by
    decide +kernel
  have hlp : (truncatedWorld.vaults Sample.vault).map (fun v ↦ (v.lpSupply,
      (effectiveTotalAssets v 0).toOption,
      (mulDiv (asU128 (4294967297 : U64)) (asU128 v.lpSupply) (asU128 (1 : U64))).toOption)) =
        some (4294967296, some 1, some 4294967296) := by
    decide +kernel
  rw [Option.map_eq_some_iff] at hlp
  obtain ⟨v, hv, hvalues⟩ := hlp
  simp only [Prod.mk.injEq] at hvalues
  obtain ⟨hsupply, heffective, hmint⟩ := hvalues
  have hl : DepositLossless v 0 4294967297 :=
    h sampleAddresses _ _ truncatedDeposit ⟨Sample.empty, truncatedRun, Sample.genesis, rfl⟩
      (eq_ok_advance hok) Sample.vault v rfl hv
  have hne : v.lpSupply ≠ 0 := by
    rw [hsupply]
    decide
  have hexact := hl.lpToMint hne 1 (toOption_eq_some.mp heffective) 4294967296
    (toOption_eq_some.mp hmint)
  rw [hsupply] at hexact
  exact absurd hexact (by decide)

end VaultProgram
