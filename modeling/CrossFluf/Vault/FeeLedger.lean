import CrossFluf.Vault.Accounting
import CrossFluf.Vault.Harvest
import CrossFluf.Base.Accrual

/-!
# The ledger of fees

`accumulated_fees` is meant to count, in assets, every fee the vault charges.  A deposit adds the
LP tokens it withholds, a withdrawal adds nothing, and a harvest adds the fees it computed.
-/

namespace VaultProgram

open Machine Solana Outcome Run Proportion

variable {p : ProgramAddresses} {env : Env} {w w' : World} {V : Pubkey} {v v' : Vault}

/-! ## What is charged -/

/-- The fee on a deposit, in assets. -/
def depositFee (v : Vault) (amount : U64) : ℚ := amount.toNat * v.depositFeeBps.toNat / 10000

/-- What an LP token is worth at `now`; the first ones are worth one unit each. -/
def lpWorth (v : Vault) (now : I64) : ℚ :=
  if v.lpSupply = 0 then 1
  else (v.totalAssets.toNat - remaining v now : ℕ) / v.lpSupply.toNat

/-- The management and the performance fee a harvest computes. -/
def harvestedFees (vault : Vault) (now : I64) : VaultResult (U64 × U64) := do
  let figures ← harvestFigures vault now
  pure (figures.managementFee, figures.performanceFee)

def harvestFee (v : Vault) (now : I64) : ℕ :=
  match harvestedFees v now with
  | .ok (managementFee, performanceFee) => managementFee.toNat + performanceFee.toNat
  | .error _ => 0

/-- The fee an instruction charges in the vault it names, in assets. -/
def Instruction.fee (v : Vault) (now : I64) : Instruction → ℚ
  | .deposit _ amount => depositFee v amount
  | .instantWithdraw _ lpAmount => withdrawalFee v now lpAmount
  | .harvestFees _ => harvestFee v now
  | _ => 0

/-- How far the ledger may miss it: by a unit of rounding and an LP token for a deposit. -/
def Instruction.feeTolerance (v : Vault) (now : I64) : Instruction → ℚ
  | .deposit _ _ => 1 + lpWorth v now
  | _ => 0

/-- The same for the vault at `V`. -/
def feeCharged (V : Pubkey) (w : World) (i : Env × Instruction) : ℚ :=
  if i.2.vault = some V then (w.vaults V).elim 0 fun v ↦ i.2.fee v i.1.now else 0

def feeTolerance (V : Pubkey) (w : World) (i : Env × Instruction) : ℚ :=
  if i.2.vault = some V then (w.vaults V).elim 0 fun v ↦ i.2.feeTolerance v i.1.now else 0

/-- `accumulated_fees` of the vault at `V`, zero before it is initialized. -/
def accumulatedFeesOf (V : Pubkey) (w : World) : ℚ :=
  (w.vaults V).elim 0 fun v ↦ (v.accumulatedFees.toNat : ℚ)

/-! ## What is booked -/

/-- The LP tokens a deposit is worth, as the cast to `u64` leaves them. -/
def lpFor (v : Vault) (now : I64) (amount : U64) : ℕ :=
  if v.lpSupply = 0 then amount.toNat
  else amount.toNat * v.lpSupply.toNat / (v.totalAssets.toNat - remaining v now) % 2 ^ 64

/-- The LP tokens a deposit withholds as its fee. -/
def depositFeeLp (v : Vault) (now : I64) (amount : U64) : ℕ :=
  lpFor v now amount * v.depositFeeBps.toNat / 10000 % 2 ^ 64

/-- What an instruction adds to `accumulated_fees`. -/
def Instruction.booked (v : Vault) (now : I64) : Instruction → ℕ
  | .deposit _ amount => depositFeeLp v now amount
  | .harvestFees _ => harvestFee v now
  | _ => 0

theorem lpToMintFor_eq_ok {now : I64} {amount lp : U64} (h : lpToMintFor v now amount = .ok lp) :
    lp.toNat = lpFor v now amount := by
  rw [lpToMintFor] at h
  rw [lpFor]
  split at h
  · rename_i hzero
    rw [pure_eq_ok] at h
    rw [if_pos hzero, h]
  · rename_i hne
    simp only [bind_eq_ok] at h
    obtain ⟨e, he, hmint⟩ := h
    rw [if_neg hne, ← (effectiveTotalAssets_eq_ok.mp he).2]
    exact (mulDiv_u64_eq_ok.mp hmint).2

theorem deposit_booked {a : UserAccounts} {amount : U64} (h : deposit p env w a amount = .ok w') :
    ∃ v v', w.vaults a.vault = some v ∧ w'.vaults a.vault = some v' ∧
      v'.accumulatedFees.toNat = v.accumulatedFees.toNat + depositFeeLp v env.now amount := by
  simp only [deposit, bind_eq_ok, requireSigner_eq_ok, orElse_eq_ok, require_eq_ok,
    checkUserAccounts_eq_ok, unwrap_eq_ok, checkedAdd_eq_some, mapError_eq_ok, pure_eq_ok,
    exists_const] at h
  obtain ⟨-, v, hv, -, -, -, total, -, -, lp, hlp, -, fee, hfee, lpAfterFee, -, paid, -, minted, -,
    idle, -, lpSupply, -, fees, hfees, rfl⟩ := h
  refine ⟨v, _, hv, World.setVault_vaults_self _ _ _, ?_⟩
  show fees.toNat = _
  rw [hfees, feeOf_eq_ok.mp hfee, lpToMintFor_eq_ok hlp, depositFeeLp]

theorem FeesComputed.harvested {now elapsed : I64} {e m f t : U64} {r : U128}
    (h : FeesComputed v now elapsed e m r f t) : harvestedFees v now = .ok (m, f) := by
  simp only [harvestedFees, harvestFigures, bind_eq_ok, unwrap_eq_ok, pure_eq_ok]
  exact ⟨⟨e, m, r, f⟩, ⟨elapsed, h.elapsed_ok, e, h.effective_ok, m, h.management_ok, r,
    h.ratio_ok, f, h.performance_ok, rfl⟩, rfl⟩

theorem FeesComputed.harvestFee_eq {now elapsed : I64} {e m f t : U64} {r : U128}
    (h : FeesComputed v now elapsed e m r f t) : harvestFee v now = t.toNat := by
  rw [harvestFee, h.harvested, h.total_add]

theorem harvestFees_booked {a : HarvestFeesAccounts} (h : harvestFees p env w a = .ok w') :
    ∃ v v', w.vaults a.vault = some v ∧ w'.vaults a.vault = some v' ∧
      v'.accumulatedFees.toNat = v.accumulatedFees.toNat + harvestFee v env.now := by
  obtain ⟨v, elapsed, e, m, r, f, t, hv, hc, hcase⟩ := harvestFees_computed h
  rcases hcase with ⟨hzero, rfl⟩ | ⟨-, v', feeLp, minted, ht⟩
  · refine ⟨v, v, hv, hv, ?_⟩
    rw [hc.harvestFee_eq, hzero]
    rfl
  · refine ⟨v, v', hv, ht.vault_eq, ?_⟩
    rw [hc.harvestFee_eq, ht.accumulatedFees]

/-- At the vault it names, an instruction books what `booked` says. -/
theorem exec_booked {i : Env × Instruction} (h : exec p w i = .ok w')
    (hV : i.2.vault = some V) (hv : w.vaults V = some v) (hv' : w'.vaults V = some v') :
    v'.accumulatedFees.toNat = v.accumulatedFees.toNat + i.2.booked v i.1.now := by
  have hfind : ∀ {n : Vault → ℕ}, (∃ x x', w.vaults V = some x ∧ w'.vaults V = some x' ∧
      x'.accumulatedFees.toNat = x.accumulatedFees.toNat + n x) →
      v'.accumulatedFees.toNat = v.accumulatedFees.toNat + n v := by
    intro n hx
    obtain ⟨x, x', hx, hx', hn⟩ := hx
    obtain rfl := Option.some_inj.mp (hv.symm.trans hx)
    obtain rfl := Option.some_inj.mp (hv'.symm.trans hx')
    exact hn
  cases exec_vaultEffect_of h hV hv hv' with
  | deposit hd => exact hfind (deposit_booked h)
  | instantWithdraw hx =>
    rw [hx.kept]
    rfl
  | addStrategy hs =>
    rw [hs.kept]
    rfl
  | allocate ha =>
    rw [ha.kept]
    rfl
  | deallocate hd =>
    rw [hd.kept]
    rfl
  | reportYield hr =>
    rcases bookYield_eq_ok hr.booked with ⟨-, hb⟩ | ⟨-, hb⟩
    · rw [hb.kept]
      rfl
    · rw [hb.kept]
      rfl
  | harvestNothing => exact hfind (harvestFees_booked h)
  | harvestFees hf => exact hfind (harvestFees_booked h)
  | removeStrategy hr => rfl
  | updateConfig hc => rfl
  | setActive hc => rfl

/-! ## When they agree -/

/-- The step adds to `accumulated_fees` of every vault what it charges there, up to the tolerance
for it. -/
def BooksFee (w : World) (i : Env × Instruction) (w' : World) : Prop :=
  ∀ V, |accumulatedFeesOf V w' - accumulatedFeesOf V w - feeCharged V w i| ≤ feeTolerance V w i

/-- A deposit gets `priceShares` LP tokens for `priceAssets` assets. -/
def priceShares (v : Vault) : ℕ := if v.lpSupply = 0 then 1 else v.lpSupply.toNat

def priceAssets (v : Vault) (now : I64) : ℕ := if v.lpSupply = 0 then 1 else v.effective now

/-- No quotient the fee is taken from or computed as loses its upper bits. -/
def Instruction.FeesFit (v : Vault) (now : I64) : Instruction → Prop
  | .deposit _ amount => amount.toNat * priceShares v * max v.depositFeeBps.toNat 10000 <
      2 ^ 64 * 10000 * priceAssets v now
  | .instantWithdraw _ lpAmount => lpAmount.toNat * v.effective now * v.withdrawalFeeBps.toNat <
      2 ^ 64 * 10000 * v.lpSupply.toNat
  | _ => True

/-- The price at which the LP tokens withheld number about as many as the assets the fee is worth:
what the deposit gets is enough for a fee of that less the tolerance, and too little for a fee of
more than that and the tolerance. -/
def PricedForFee (v : Vault) (now : I64) (amount : U64) : Prop :=
  let least := leastWithFee v.depositFeeBps.toNat 10000
  least ⌈depositFee v amount - (1 + lpWorth v now)⌉₊ * priceAssets v now ≤
      amount.toNat * priceShares v ∧
    amount.toNat * priceShares v <
      least (⌊depositFee v amount + (1 + lpWorth v now)⌋₊ + 1) * priceAssets v now

/-- A deposit has no fee, or no cast loses anything and its price is one or suits its fee, and a
withdrawal has no fee, or redeems too little for one. -/
def Instruction.FeeCounted (v : Vault) (now : I64) : Instruction → Prop
  | .deposit a amount => v.depositFeeBps = 0 ∨ (Instruction.deposit a amount).FeesFit v now ∧
      (priceAssets v now = priceShares v ∨ PricedForFee v now amount)
  | .instantWithdraw _ lpAmount => v.withdrawalFeeBps = 0 ∨
      lpAmount.toNat * v.effective now <
        leastWithFee v.withdrawalFeeBps.toNat 10000 1 * v.lpSupply.toNat
  | _ => True

def FeesFit (w : World) (i : Env × Instruction) : Prop :=
  ∀ V v, i.2.vault = some V → w.vaults V = some v → i.2.FeesFit v i.1.now

def FeeCounted (w : World) (i : Env × Instruction) : Prop :=
  ∀ V v, i.2.vault = some V → w.vaults V = some v → i.2.FeeCounted v i.1.now

section Deposits

variable {now : I64} {amount : U64} {a : UserAccounts}

theorem toNat_pos_of_ne_zero {n : ℕ} {x : BitVec n} (h : x ≠ 0) : 0 < x.toNat := by
  apply Nat.pos_of_ne_zero
  intro hz
  exact h (BitVec.toNat_inj.mp hz)

theorem priceShares_pos (v : Vault) : 0 < priceShares v := by
  rw [priceShares]
  split
  · exact Nat.one_pos
  · rename_i hne
    exact toNat_pos_of_ne_zero hne

theorem lpWorth_eq (v : Vault) (now : I64) :
    lpWorth v now = (priceAssets v now : ℚ) / priceShares v := by
  rw [lpWorth, priceAssets, priceShares]
  split
  · norm_num
  · rfl

theorem lpWorth_nonneg (v : Vault) (now : I64) : 0 ≤ lpWorth v now := by
  rw [lpWorth_eq]
  positivity

theorem lpFor_eq (v : Vault) (now : I64) (amount : U64) :
    lpFor v now amount = amount.toNat * priceShares v / priceAssets v now % 2 ^ 64 := by
  rw [lpFor, priceShares, priceAssets]
  split
  · rw [Nat.mul_one, Nat.div_one, Nat.mod_eq_of_lt amount.isLt]
  · rfl

theorem priceAssets_pos (h : (Instruction.deposit a amount).FeesFit v now) :
    0 < priceAssets v now := by
  apply Nat.pos_of_ne_zero
  intro hz
  simp only [Instruction.FeesFit, hz, Nat.mul_zero] at h
  exact absurd h (Nat.not_lt_zero _)

/-- Without truncation the fee is one of the floored quotient. -/
theorem depositFeeLp_eq (h : (Instruction.deposit a amount).FeesFit v now) :
    depositFeeLp v now amount =
      amount.toNat * priceShares v / priceAssets v now * v.depositFeeBps.toNat / 10000 := by
  have hpos := priceAssets_pos h
  simp only [Instruction.FeesFit] at h
  have hlp : amount.toNat * priceShares v / priceAssets v now < 2 ^ 64 := by
    rw [Nat.div_lt_iff_lt_mul hpos]
    have hscaled : amount.toNat * priceShares v * 10000 ≤
        amount.toNat * priceShares v * max v.depositFeeBps.toNat 10000 :=
      Nat.mul_le_mul_left _ (le_max_right _ _)
    omega
  have hfee : amount.toNat * priceShares v / priceAssets v now * v.depositFeeBps.toNat / 10000 <
      2 ^ 64 := by
    apply floor_fee_lt (by decide)
    exact lt_of_le_of_lt (Nat.mul_le_mul_left _ (le_max_left _ _)) h
  rw [depositFeeLp, lpFor_eq, Nat.mod_eq_of_lt hlp, Nat.mod_eq_of_lt hfee]

theorem floor_div_close (n : ℕ) : |((n / 10000 : ℕ) : ℚ) - (n : ℚ) / 10000| ≤ 1 := by
  have hsplit : (n : ℚ) = ((n / 10000 : ℕ) : ℚ) * 10000 + ((n % 10000 : ℕ) : ℚ) := by
    exact_mod_cast (Nat.div_add_mod' n 10000).symm
  have hrest : ((n % 10000 : ℕ) : ℚ) < 10000 := by
    exact_mod_cast Nat.mod_lt n (by decide)
  have hpos : (0 : ℚ) ≤ ((n % 10000 : ℕ) : ℚ) := Nat.cast_nonneg _
  rw [abs_le]
  constructor
  · linarith
  · linarith

/-- The fee of a deposit at par is counted: into a vault without LP tokens, or with as many LP
tokens as effective assets. -/
theorem depositFeeLp_at_par (h : (Instruction.deposit a amount).FeesFit v now)
    (hpar : priceAssets v now = priceShares v) :
    |(depositFeeLp v now amount : ℚ) - depositFee v amount| ≤ 1 + lpWorth v now := by
  have hclose := floor_div_close (amount.toNat * v.depositFeeBps.toNat)
  have hworth := lpWorth_nonneg v now
  rw [depositFeeLp_eq h, hpar, Nat.mul_div_cancel _ (priceShares_pos v), depositFee]
  rw [Nat.cast_mul] at hclose
  linarith

theorem depositFee_free (hbps : v.depositFeeBps = 0) :
    |(depositFeeLp v now amount : ℚ) - depositFee v amount| ≤ 1 + lpWorth v now := by
  have hworth := lpWorth_nonneg v now
  have hzero : v.depositFeeBps.toNat = 0 := by rw [hbps]; rfl
  rw [depositFeeLp, depositFee, hzero, Nat.mul_zero, Nat.zero_div, Nat.zero_mod, Nat.cast_zero,
    mul_zero, zero_div, sub_zero, abs_zero]
  linarith

theorem depositFee_counted_iff (hbps : v.depositFeeBps ≠ 0)
    (h : (Instruction.deposit a amount).FeesFit v now) :
    |(depositFeeLp v now amount : ℚ) - depositFee v amount| ≤ 1 + lpWorth v now ↔
      priceAssets v now = priceShares v ∨ PricedForFee v now amount := by
  have hworth := lpWorth_nonneg v now
  have hfee : 0 ≤ depositFee v amount := by
    rw [depositFee]
    positivity
  have hpriced : |(depositFeeLp v now amount : ℚ) - depositFee v amount| ≤ 1 + lpWorth v now ↔
      PricedForFee v now amount := by
    rw [depositFeeLp_eq h]
    exact abs_floor_fee_sub_le_iff (toNat_pos_of_ne_zero hbps) (by decide) (priceAssets_pos h)
      (by linarith)
  apply Iff.intro
  · intro hclose
    exact Or.inr (hpriced.mp hclose)
  · intro hcond
    rcases hcond with hpar | hp
    · exact depositFeeLp_at_par h hpar
    · exact hpriced.mpr hp

end Deposits

section Withdrawals

variable {now : I64} {lpAmount : U64} {a : UserAccounts}

theorem withdrawalFee_of_bps (h : v.withdrawalFeeBps = 0) : withdrawalFee v now lpAmount = 0 := by
  have hzero : v.withdrawalFeeBps.toNat = 0 := by rw [h]; rfl
  rw [withdrawalFee, hzero, Nat.mul_zero, Nat.zero_div, Nat.zero_mod]

/-- What is redeemed has no fee exactly when it is too little for one. -/
theorem redeemable_fee_iff (hbps : v.withdrawalFeeBps ≠ 0) (hlp : 0 < v.lpSupply.toNat) :
    redeemable v now lpAmount * v.withdrawalFeeBps.toNat / 10000 = 0 ↔
      lpAmount.toNat * v.effective now <
        leastWithFee v.withdrawalFeeBps.toNat 10000 1 * v.lpSupply.toNat :=
  floor_fee_eq_zero_iff (toNat_pos_of_ne_zero hbps) (by decide) hlp

theorem withdrawalFee_eq_zero (h : (Instruction.instantWithdraw a lpAmount).FeeCounted v now) :
    withdrawalFee v now lpAmount = 0 := by
  by_cases hbps : v.withdrawalFeeBps = 0
  · exact withdrawalFee_of_bps hbps
  · have hlt := h.resolve_left hbps
    have hlp : 0 < v.lpSupply.toNat :=
      Nat.pos_of_ne_zero fun hz ↦ absurd (hz ▸ hlt) (Nat.not_lt_zero _)
    rw [withdrawalFee, (redeemable_fee_iff hbps hlp).mpr hlt, Nat.zero_mod]

theorem withdrawalFee_counted_iff (h : (Instruction.instantWithdraw a lpAmount).FeesFit v now) :
    withdrawalFee v now lpAmount = 0 ↔
      (Instruction.instantWithdraw a lpAmount).FeeCounted v now := by
  apply Iff.intro
  · intro hzero
    by_cases hbps : v.withdrawalFeeBps = 0
    · exact Or.inl hbps
    · simp only [Instruction.FeesFit] at h
      have hlp : 0 < v.lpSupply.toNat :=
        Nat.pos_of_ne_zero fun hz ↦ absurd (hz ▸ h) (Nat.not_lt_zero _)
      have hfit : redeemable v now lpAmount * v.withdrawalFeeBps.toNat / 10000 < 2 ^ 64 :=
        floor_fee_lt (by decide) h
      rw [withdrawalFee, Nat.mod_eq_of_lt hfit] at hzero
      exact Or.inr ((redeemable_fee_iff hbps hlp).mp hzero)
  · exact withdrawalFee_eq_zero

end Withdrawals

theorem abs_neg_cast_nonpos_iff (n : ℕ) : |((0 : ℕ) : ℚ) - n| ≤ 0 ↔ n = 0 := by
  rw [abs_nonpos_iff, Nat.cast_zero, zero_sub, neg_eq_zero, Nat.cast_eq_zero]

theorem Instruction.FeeCounted.close {i : Instruction} {now : I64} (h : i.FeeCounted v now) :
    |(i.booked v now : ℚ) - i.fee v now| ≤ i.feeTolerance v now := by
  cases i with
  | deposit a amount =>
    by_cases hbps : v.depositFeeBps = 0
    · exact depositFee_free hbps
    · obtain ⟨hfit, hcond⟩ := h.resolve_left hbps
      exact (depositFee_counted_iff hbps hfit).mpr hcond
  | instantWithdraw a lpAmount => exact (abs_neg_cast_nonpos_iff _).mpr (withdrawalFee_eq_zero h)
  | harvestFees a =>
    show |(harvestFee v now : ℚ) - (harvestFee v now : ℚ)| ≤ 0
    rw [sub_self, abs_zero]
  | _ =>
    show |((0 : ℕ) : ℚ) - 0| ≤ 0
    rw [Nat.cast_zero, sub_zero, abs_zero]

theorem Instruction.FeesFit.counted {i : Instruction} {now : I64} (hfit : i.FeesFit v now)
    (h : |(i.booked v now : ℚ) - i.fee v now| ≤ i.feeTolerance v now) : i.FeeCounted v now := by
  cases i with
  | deposit a amount =>
    by_cases hbps : v.depositFeeBps = 0
    · exact Or.inl hbps
    · exact Or.inr ⟨hfit, (depositFee_counted_iff hbps hfit).mp h⟩
  | instantWithdraw a lpAmount =>
    exact (withdrawalFee_counted_iff hfit).mp ((abs_neg_cast_nonpos_iff _).mp h)
  | _ => trivial

theorem accumulatedFeesOf_of_vault (hv : w.vaults V = some v) :
    accumulatedFeesOf V w = v.accumulatedFees.toNat := by
  rw [accumulatedFeesOf, hv, Option.elim_some]

theorem accumulatedFeesOf_of_none (hv : w.vaults V = none) : accumulatedFeesOf V w = 0 := by
  rw [accumulatedFeesOf, hv, Option.elim_none]

-- the vault appears without fees
theorem exec_accumulatedFees_new {i : Env × Instruction} (h : exec p w i = .ok w')
    (hv : w.vaults V = none) : accumulatedFeesOf V w' = 0 := by
  cases hv' : w'.vaults V with
  | none => exact accumulatedFeesOf_of_none hv'
  | some v' =>
    obtain ⟨env, a, name, config, -, -, rfl⟩ := exec_initializes h hv hv'
    rw [accumulatedFeesOf_of_vault hv']
    rfl

/-- Of the vaults a step can only miss the fee of the one it names. -/
theorem booksFee_iff {i : Env × Instruction} (h : exec p w i = .ok w') :
    BooksFee w i w' ↔ ∀ V v, i.2.vault = some V → w.vaults V = some v →
      |(i.2.booked v i.1.now : ℚ) - i.2.fee v i.1.now| ≤ i.2.feeTolerance v i.1.now := by
  refine forall_congr' fun V ↦ ?_
  cases hv : w.vaults V with
  | none =>
    refine iff_of_true ?_ nofun
    have hcharged : feeCharged V w i = 0 := by
      rw [feeCharged, hv, Option.elim_none, ite_self]
    have htolerance : feeTolerance V w i = 0 := by
      rw [feeTolerance, hv, Option.elim_none, ite_self]
    rw [accumulatedFeesOf_of_none hv, exec_accumulatedFees_new h hv, hcharged, htolerance,
      sub_self, sub_zero, abs_zero]
  | some v =>
    obtain ⟨v', hv', -⟩ := exec_moves h hv
    rw [accumulatedFeesOf_of_vault hv, accumulatedFeesOf_of_vault hv', feeCharged, feeTolerance]
    by_cases hV : i.2.vault = some V
    · rw [if_pos hV, if_pos hV, hv, Option.elim_some, Option.elim_some, exec_booked h hV hv hv',
        Nat.cast_add, add_sub_cancel_left]
      simp only [hV, Option.some_inj, forall_eq', forall_const]
    · have hsame := (exec_sameVault h hV).vault
      rw [hv', hv, Option.some_inj] at hsame
      rw [if_neg hV, if_neg hV, hsame, sub_self, sub_zero, abs_zero]
      exact iff_of_true le_rfl fun _ hn ↦ absurd hn hV

theorem booksFee_of_counted {i : Env × Instruction} (h : exec p w i = .ok w')
    (hc : FeeCounted w i) : BooksFee w i w' :=
  (booksFee_iff h).mpr fun V v hV hv ↦ (hc V v hV hv).close

theorem counted_of_booksFee {i : Env × Instruction} (h : exec p w i = .ok w') (hfit : FeesFit w i)
    (hb : BooksFee w i w') : FeeCounted w i :=
  fun V v hV hv ↦ (hfit V v hV hv).counted ((booksFee_iff h).mp hb V v hV hv)

/-- Along a run of steps whose fees are counted, `accumulated_fees` is the sum of the fees, up to
the tolerances of its deposits.  While no cast loses anything, those are exactly the steps that
book their fee. -/
theorem feeLedger_iff (hw : Genesis p w) (is : List (Env × Instruction)) :
    (EachStep (exec p) (fun w i _ ↦ FeeCounted w i) w is →
        ∀ V is₁ is₂, is = is₁ ++ is₂ →
          |accumulatedFeesOf V (run (exec p) w is₁) - accrued (exec p) (feeCharged V) w is₁| ≤
            accrued (exec p) (feeTolerance V) w is₁) ∧
      (EachStep (exec p) (fun w i _ ↦ FeesFit w i) w is →
        (EachStep (exec p) BooksFee w is ↔
          EachStep (exec p) (fun w i _ ↦ FeeCounted w i) w is)) := by
  apply And.intro
  · intro hcounted V is₁ is₂ he
    rw [he, eachStep_append] at hcounted
    have hbooks : EachStep (exec p) BooksFee w is₁ :=
      hcounted.1.mono fun _ _ _ h hc ↦ booksFee_of_counted h hc
    have hledger := EachStep.accrued_le (x := accumulatedFeesOf V) (f := feeCharged V)
      (g := feeTolerance V) (hbooks.mono fun _ _ _ _ hb ↦ hb V)
    rw [accumulatedFeesOf_of_none (hw.vaults V), sub_zero] at hledger
    exact hledger
  · intro hfit
    apply Iff.intro
    · intro hbooks
      exact (hfit.and hbooks).mono fun _ _ _ h hboth ↦ counted_of_booksFee h hboth.1 hboth.2
    · intro hcounted
      exact hcounted.mono fun _ _ _ h hc ↦ booksFee_of_counted h hc

theorem feeLedger_iff_charged :
    (EachStep (exec sampleAddresses) (fun w i _ ↦ FeeCounted w i) Sample.empty chargedRun →
        ∀ V is₁ is₂, chargedRun = is₁ ++ is₂ →
          |accumulatedFeesOf V (run (exec sampleAddresses) Sample.empty is₁) -
              accrued (exec sampleAddresses) (feeCharged V) Sample.empty is₁| ≤
            accrued (exec sampleAddresses) (feeTolerance V) Sample.empty is₁) ∧
      (EachStep (exec sampleAddresses) (fun w i _ ↦ FeesFit w i) Sample.empty chargedRun →
        (EachStep (exec sampleAddresses) BooksFee Sample.empty chargedRun ↔
          EachStep (exec sampleAddresses) (fun w i _ ↦ FeeCounted w i) Sample.empty chargedRun)) :=
  feeLedger_iff Sample.genesis chargedRun

-- of a fee of 100 nothing is booked
theorem feeLedger_fails :
    ¬ ∀ (p : ProgramAddresses) (w : World) (is : List (Env × Instruction)) (V : Pubkey),
      Genesis p w →
      |accumulatedFeesOf V (run (exec p) w is) - accrued (exec p) (feeCharged V) w is| ≤
        accrued (exec p) (feeTolerance V) w is := by
  intro h
  have hcharged : accrued (exec sampleAddresses) (feeCharged Sample.vault) Sample.empty
      chargedRun = 100 := by
    decide +kernel
  have htolerance : accrued (exec sampleAddresses) (feeTolerance Sample.vault) Sample.empty
      chargedRun = 2 := by
    decide +kernel
  have hbooked : accumulatedFeesOf Sample.vault (run (exec sampleAddresses) Sample.empty
      chargedRun) = 0 := by
    decide +kernel
  have hledger := h sampleAddresses Sample.empty chargedRun Sample.vault Sample.genesis
  rw [hbooked, hcharged, htolerance] at hledger
  norm_num at hledger

end VaultProgram
