import CrossFluf.Vault.ProfitLock

/-!
# The value of an LP token

Deposits and withdrawals of others round in favour of the vault, and time only releases profit, so
none of them takes value from the LP tokens that stay.
-/

namespace VaultProgram

open Machine Solana Outcome Release Proportion Run

variable {p : ProgramAddresses} {env : Env} {w w' : World} {V : Pubkey} {v v' : Vault}
  {now now' : I64} {a : UserAccounts}

/-- An LP token is worth no less in `v'` at `now'` than in `v` at `now`, where both can be read. -/
def ValuePerLpLE (v : Vault) (now : I64) (v' : Vault) (now' : I64) : Prop :=
  ∀ e e', effectiveTotalAssets v now = .ok e → effectiveTotalAssets v' now' = .ok e' →
    e.toNat * v'.lpSupply.toNat ≤ e'.toNat * v.lpSupply.toNat

/-- Both can be read at `now`, and an LP token is worth no less in `v'` than in `v`. -/
def ValuePerLpKept (v v' : Vault) (now : I64) : Prop :=
  ∃ e e', effectiveTotalAssets v now = .ok e ∧ effectiveTotalAssets v' now = .ok e' ∧
    e.toNat * v'.lpSupply.toNat ≤ e'.toNat * v.lpSupply.toNat

section Deposit

variable {amount lpToMint feeLp lpAfterFee : U64} {paid minted : Tokens}

-- the fee and the rounding both go against the depositor
theorem Deposited.fair
    (h : Deposited p env w a amount w' v v' lpToMint feeLp lpAfterFee paid minted)
    (hL : 0 < v.lpSupply.toNat) :
    ∃ e, effectiveTotalAssets v env.now = .ok e ∧ 0 < e.toNat ∧
      lpAfterFee.toNat * e.toNat ≤ amount.toNat * v.lpSupply.toNat := by
  have hlp := h.lpToMint_ok
  rw [lpToMintFor, if_neg (fun hz ↦ by rw [hz] at hL; exact absurd hL (by decide)),
    bind_eq_ok] at hlp
  obtain ⟨e, he, hmint⟩ := hlp
  have hmul := mulDiv_u64_eq_ok.mp hmint
  have hfloor := mod_floor_mul_le hmul.2
  have hsplit := h.lpAfterFee_add
  refine ⟨e, he, Nat.pos_of_ne_zero hmul.1, ?_⟩
  calc
    lpAfterFee.toNat * e.toNat ≤ lpToMint.toNat * e.toNat :=
      Nat.mul_le_mul_right _ (by omega)
    _ ≤ amount.toNat * v.lpSupply.toNat := hfloor

theorem Deposited.remaining_eq
    (h : Deposited p env w a amount w' v v' lpToMint feeLp lpAfterFee paid minted) (now : I64) :
    remaining v' now = remaining v now :=
  remaining_congr (by rw [h.kept]) (by rw [h.kept]) (by rw [h.kept]) now

theorem Deposited.readable_iff
    (h : Deposited p env w a amount w' v v' lpToMint feeLp lpAfterFee paid minted) :
    LockReadable v' now ↔ LockReadable v now :=
  lockReadable_congr (by rw [h.kept]) (by rw [h.kept]) (by rw [h.kept])

-- the deposit itself is never withheld
theorem Deposited.effective_eq {e e' : U64}
    (h : Deposited p env w a amount w' v v' lpToMint feeLp lpAfterFee paid minted)
    (he : effectiveTotalAssets v env.now = .ok e) (hpos : 0 < e.toNat)
    (he' : effectiveTotalAssets v' env.now = .ok e') :
    e'.toNat = e.toNat + amount.toNat := by
  have hold := (effectiveTotalAssets_eq_ok.mp he).2
  have hnew := (effectiveTotalAssets_eq_ok.mp he').2
  rw [h.remaining_eq, h.total] at hnew
  omega

theorem Deposited.valuePerLp
    (h : Deposited p env w a amount w' v v' lpToMint feeLp lpAfterFee paid minted)
    (hL : 0 < v.lpSupply.toNat) : ValuePerLpKept v v' env.now := by
  obtain ⟨e, he, hpos, hfair⟩ := h.fair hL
  obtain ⟨e', he'⟩ := effectiveTotalAssets_of_readable
    (h.readable_iff.mpr (effectiveTotalAssets_eq_ok.mp he).1)
  refine ⟨e, e', he, he', ?_⟩
  rw [h.effective_eq he hpos he', h.lpSupply]
  exact ValuePerShareLE.issue hfair

end Deposit

section Withdrawal

variable {lpAmount effectiveAssets assetsToReturn fee assetsAfterFee : U64}
  {burned paid : Tokens}

theorem Withdrawn.remaining_eq
    (h : Withdrawn p env w a lpAmount w' v v' effectiveAssets assetsToReturn fee assetsAfterFee
      burned paid) (now : I64) : remaining v' now = remaining v now :=
  remaining_congr (by rw [h.kept]) (by rw [h.kept]) (by rw [h.kept]) now

theorem Withdrawn.readable_iff
    (h : Withdrawn p env w a lpAmount w' v v' effectiveAssets assetsToReturn fee assetsAfterFee
      burned paid) : LockReadable v' now ↔ LockReadable v now :=
  lockReadable_congr (by rw [h.kept]) (by rw [h.kept]) (by rw [h.kept])

theorem Withdrawn.valuePerLp
    (h : Withdrawn p env w a lpAmount w' v v' effectiveAssets assetsToReturn fee assetsAfterFee
      burned paid) : ValuePerLpKept v v' env.now := by
  have hread := effectiveTotalAssets_eq_ok.mp h.effective
  obtain ⟨e', he'⟩ := effectiveTotalAssets_of_readable (h.readable_iff.mpr hread.1)
  refine ⟨effectiveAssets, e', h.effective, he', ?_⟩
  have hnew := (effectiveTotalAssets_eq_ok.mp he').2
  have hold := hread.2
  have htotal := h.total
  have hlp := h.lpSupply
  have hfloor := mod_floor_mul_le (mulDiv_u64_eq_ok.mp h.assetsToReturn_ok).2
  -- the redeemed share is part of the effective total, so the subtractions below do not truncate
  have hshare : assetsToReturn.toNat ≤ effectiveAssets.toNat := by
    rw [(mulDiv_u64_eq_ok.mp h.assetsToReturn_ok).2]
    exact le_trans (Nat.mod_le _ _) (floor_share_le (by omega))
  rw [h.remaining_eq] at hnew
  have hsum : effectiveAssets.toNat = e'.toNat + assetsToReturn.toNat := by omega
  have hsupply : v.lpSupply.toNat = v'.lpSupply.toNat + lpAmount.toNat := by omega
  exact ValuePerShareLE.redeem hfloor hsum hsupply

end Withdrawal

theorem lockElapsed_le (hts : v.lockedProfitTs.toInt ≤ now.toInt)
    (hnow : now.toInt ≤ now'.toInt) : lockElapsed v now ≤ lockElapsed v now' := by
  rw [lockElapsed_of_le hts, lockElapsed_of_le (le_trans hts hnow)]
  omega

theorem remaining_antitone (hts : v.lockedProfitTs.toInt ≤ now.toInt)
    (hnow : now.toInt ≤ now'.toInt) : remaining v now' ≤ remaining v now :=
  withheld_antitone (lockElapsed_le hts hnow)

theorem valuePerLp_of_clock (hts : v.lockedProfitTs.toInt ≤ now.toInt)
    (hnow : now.toInt ≤ now'.toInt) : ValuePerLpLE v now v now' := by
  intro e e' he he'
  have hold := (effectiveTotalAssets_eq_ok.mp he).2
  have hnew := (effectiveTotalAssets_eq_ok.mp he').2
  have hle := remaining_antitone hts hnow
  exact Nat.mul_le_mul_right _ (by omega)

/-- Deposits and withdrawals of anyone, and the passing of time, keep the value of LP tokens. -/
theorem valuePerLp_monotone (p : ProgramAddresses) (v v' : Vault) :
    (∀ env w w' a amount, deposit p env w a amount = .ok w' → w.vaults a.vault = some v →
      w'.vaults a.vault = some v' → 0 < v.lpSupply.toNat → ValuePerLpKept v v' env.now) ∧
    (∀ env w w' a lpAmount, instantWithdraw p env w a lpAmount = .ok w' →
      w.vaults a.vault = some v → w'.vaults a.vault = some v' → 0 < v.lpSupply.toNat →
      0 < v'.lpSupply.toNat → ValuePerLpKept v v' env.now) ∧
    (∀ now now', v.lockedProfitTs.toInt ≤ now.toInt → now.toInt ≤ now'.toInt →
      ValuePerLpLE v now v now') := by
  refine ⟨?_, ?_, fun now now' hts hnow ↦ valuePerLp_of_clock hts hnow⟩
  · intro env w w' a amount h hv hv' hL
    obtain ⟨x, x', _, _, _, _, _, hd⟩ := deposit_eq_ok h
    obtain rfl := Option.some_inj.mp (hd.vault.symm.trans hv)
    rw [hd.vault_eq, Option.some_inj] at hv'
    exact hv' ▸ hd.valuePerLp hL
  · intro env w w' a lpAmount h hv hv' _ _
    obtain ⟨x, x', _, _, _, _, _, _, hd⟩ := instantWithdraw_eq_ok h
    obtain rfl := Option.some_inj.mp (hd.vault.symm.trans hv)
    rw [hd.vault_eq, Option.some_inj] at hv'
    exact hv' ▸ hd.valuePerLp

/-- A vault with 1000 LP tokens and a gain of 100, released over 100 seconds. -/
def fundedRun : List (Env × Instruction) :=
  Sample.setup (Sample.config 0 100) ++
    [(Sample.clock 0, .deposit Sample.userAccounts 1000),
     (Sample.clock 0, .addStrategy Sample.strategyAccounts [] []),
     (Sample.clock 0, .reportYield Sample.strategyAccounts 100)]

def fundedWorld : World := run (exec sampleAddresses) Sample.empty fundedRun

/-- Half way through the release a second deposit comes in, and part of it goes out. -/
def secondDeposit : Env × Instruction := (Sample.clock 50, .deposit Sample.userAccounts 500)

def depositedWorld : World := advance (exec sampleAddresses) fundedWorld secondDeposit

def withdrawal : Env × Instruction := (Sample.clock 50, .instantWithdraw Sample.userAccounts 100)

def withdrawnWorld : World := advance (exec sampleAddresses) depositedWorld withdrawal

theorem valuePerLp_monotone_sample : ∃ v v' v'',
    fundedWorld.vaults Sample.vault = some v ∧ depositedWorld.vaults Sample.vault = some v' ∧
      withdrawnWorld.vaults Sample.vault = some v'' ∧ ValuePerLpKept v v' 50 ∧
      ValuePerLpKept v' v'' 50 ∧ ValuePerLpLE v 50 v 60 := by
  have hlive : (fundedWorld.vaults Sample.vault).map (fun v ↦ (v.lpSupply, v.lockedProfitTs)) =
        some (1000, 0) ∧
      (depositedWorld.vaults Sample.vault).map (fun v ↦ v.lpSupply) = some 1476 ∧
      (withdrawnWorld.vaults Sample.vault).map (fun v ↦ v.lpSupply) = some 1376 := by
    decide +kernel
  have hok : (exec sampleAddresses fundedWorld secondDeposit).isOk = true ∧
      (exec sampleAddresses depositedWorld withdrawal).isOk = true := by
    decide +kernel
  simp only [Option.map_eq_some_iff, Prod.mk.injEq] at hlive
  obtain ⟨⟨v, hv, hL, hts⟩, ⟨v', hv', hL'⟩, v'', hv'', hL''⟩ := hlive
  refine ⟨v, v', v'', hv, hv', hv'', ?_, ?_, ?_⟩
  · exact (valuePerLp_monotone sampleAddresses v v').1 (Sample.clock 50) fundedWorld
      depositedWorld Sample.userAccounts 500 (eq_ok_advance hok.1) hv hv' (by rw [hL]; decide)
  · exact (valuePerLp_monotone sampleAddresses v' v'').2.1 (Sample.clock 50) depositedWorld
      withdrawnWorld Sample.userAccounts 100 (eq_ok_advance hok.2) hv' hv'' (by rw [hL']; decide)
      (by rw [hL'']; decide)
  · exact (valuePerLp_monotone sampleAddresses v v').2.2 50 60 (by rw [hts]; decide) (by decide)

end VaultProgram
