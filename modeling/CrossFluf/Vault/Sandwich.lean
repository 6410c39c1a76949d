import CrossFluf.Vault.Custody
import CrossFluf.Vault.Dilution

/-!
# Sandwiching a yield report

A deposit redeemed at the time it was made pays back at most what it brought, whatever is reported
in between: a gain is locked at that time and a loss is shared.
-/

namespace VaultProgram

open Machine Solana Outcome Release Proportion Run

variable {p : ProgramAddresses} {env env' : Env} {w w' : World} {V : Pubkey} {v v' : Vault}
  {now : I64} {a a' : UserAccounts}

/-- `report_yield` of a new position value for a strategy. -/
def reportAt (p : ProgramAddresses) (env : Env) (w : World) (r : StrategyAccounts × U64) :
    VaultResult World :=
  reportYield p env w r.1 r.2

/-- The vault at `V` has the LP supply of `v` and at `now` at most its effective total. -/
def Unprofited (V : Pubkey) (v : Vault) (now : I64) (w : World) : Prop :=
  ∃ x, w.vaults V = some x ∧ x.lpSupply = v.lpSupply ∧ 0 < x.lockedProfitDegradation.toNat ∧
    x.totalAssets.toNat - remaining x now ≤ v.totalAssets.toNat - remaining v now

theorem bookYield_unprofited {oldValue newValue : U64} (hd : 0 < v.lockedProfitDegradation.toNat)
    (h : bookYield v now oldValue newValue = .ok v') :
    v'.lpSupply = v.lpSupply ∧ v'.lockedProfitDegradation = v.lockedProfitDegradation ∧
      v'.totalAssets.toNat - remaining v' now ≤ v.totalAssets.toNat - remaining v now := by
  rcases bookYield_eq_ok h with ⟨-, hb⟩ | ⟨-, hb⟩
  · -- the gain is withheld whole, with everything that had been released
    have hnew := hb.remaining_eq hd
    have htotal := hb.total
    have hold : remaining v now ≤ v.lockedProfit.toNat := withheld_le _ _ _
    exact ⟨by rw [hb.kept], by rw [hb.kept], by omega⟩
  · have hsame : remaining v' now = remaining v now :=
      remaining_congr (by rw [hb.kept]) (by rw [hb.kept]) (by rw [hb.kept]) now
    have htotal := hb.total
    exact ⟨by rw [hb.kept], by rw [hb.kept], by omega⟩

theorem reportAt_unprofited {r : StrategyAccounts × U64} (hw : Unprofited V v env.now w)
    (h : reportAt p env w r = .ok w') : Unprofited V v env.now w' := by
  obtain ⟨x, hx, hlp, hd, hle⟩ := hw
  obtain ⟨y, y', s, s', hr⟩ := reportYield_eq_ok h
  by_cases hV : r.1.vault = V
  · subst hV
    obtain rfl := Option.some_inj.mp (hr.vault.symm.trans hx)
    have hb := bookYield_unprofited hd hr.booked
    exact ⟨y', hr.vault_eq, hb.1.trans hlp, by rw [hb.2.1]; exact hd, le_trans hb.2.2 hle⟩
  · have hsame := hr.sameVault hV
    exact ⟨x, hsame.vault.trans hx, hlp, hd, hle⟩

section Redemption

variable {amount lpToMint feeLp lpAfterFee : U64} {paid minted : Tokens}

-- the fresh LP tokens are worth the deposit at most, in any vault with no more per LP token
theorem Deposited.redeemable_le {lpAmount : U64}
    (h : Deposited p env w a amount w' v v' lpToMint feeLp lpAfterFee paid minted)
    (hL : 0 < v.lpSupply.toNat) (hlp : lpAmount.toNat ≤ lpAfterFee.toNat) {x : Vault}
    (hsupply : x.lpSupply = v'.lpSupply)
    (hle : x.totalAssets.toNat - remaining x env.now ≤
      v'.totalAssets.toNat - remaining v' env.now) :
    redeemable x env.now lpAmount ≤ amount.toNat := by
  obtain ⟨e, he, hpos, hfair⟩ := h.fair hL
  have hold := (effectiveTotalAssets_eq_ok.mp he).2
  have htotal := h.total
  rw [h.remaining_eq] at hle
  have hloss : x.totalAssets.toNat - remaining x env.now ≤ e.toNat + amount.toNat := by omega
  have hfresh := redeem_floor_le hfair hloss
  rw [redeemable, hsupply, h.lpSupply]
  refine le_trans (Nat.div_le_div_right ?_) hfresh
  exact Nat.mul_le_mul_right _ hlp

theorem Deposited.lp_received_le {lpAmount : U64} (hw : Custody p w)
    (h : Deposited p env w a amount w' v v' lpToMint feeLp lpAfterFee paid minted)
    (hlp : w'.tokens.balance a.userLpAccount =
      w.tokens.balance a.userLpAccount + lpAmount.toNat) :
    lpAmount.toNat ≤ lpAfterFee.toNat := by
  have hne : a.userLpAccount ≠ a.vaultAssetAccount := by
    rw [h.holds.vaultAssetAccount]
    exact (hw.holds_ne h.vault h.signer h.holds).2
  have hpaid := Tokens.transfer_balance_le (transferAsset_eq_ok h.paid_ok).2 hne
  have hminted := Tokens.mintTo_balance h.minted_ok
  have hfinal : w'.tokens.balance a.userLpAccount = minted.balance a.userLpAccount := by
    rw [h.world]
    rfl
  omega

end Redemption

theorem Withdrawn.paid_le {lpAmount effectiveAssets assetsToReturn fee assetsAfterFee : U64}
    {burned paid : Tokens}
    (h : Withdrawn p env w a lpAmount w' v v' effectiveAssets assetsToReturn fee assetsAfterFee
      burned paid) :
    w'.tokens.balance a.userAssetAccount ≤
      w.tokens.balance a.userAssetAccount + redeemable v env.now lpAmount := by
  have hburned := Tokens.burn_balance_le h.burned_ok a.userAssetAccount
  have hpaid := Tokens.transfer_balance_dst_le (transferAsset_eq_ok h.paid_ok).2
  have hassets := h.assets_eq
  have hsplit := h.assetsAfterFee_add
  have hfinal : w'.tokens.balance a.userAssetAccount = paid.balance a.userAssetAccount := by
    rw [h.world]
    rfl
  omega

theorem sandwich_unprofitable {w₀ w₁ w₂ w₃ : World} {amount lpAmount : U64}
    {reports : List (StrategyAccounts × U64)} (hreach : Reachable (exec p) (Genesis p) w₀)
    (hv : w₀.vaults a.vault = some v) (hL : 0 < v.lpSupply.toNat)
    (hd : 0 < v.lockedProfitDegradation.toNat) (hdeposit : deposit p env w₀ a amount = .ok w₁)
    (hlp : w₁.tokens.balance a.userLpAccount =
      w₀.tokens.balance a.userLpAccount + lpAmount.toNat)
    (hreports : run (reportAt p env) w₁ reports = w₂) (hnow : env'.now = env.now)
    (hvault : a'.vault = a.vault) (hredeem : instantWithdraw p env' w₂ a' lpAmount = .ok w₃) :
    w₃.tokens.balance a'.userAssetAccount ≤
      w₂.tokens.balance a'.userAssetAccount + amount.toNat := by
  obtain ⟨y, v₁, _, _, _, _, _, hdep⟩ := deposit_eq_ok hdeposit
  obtain rfl := Option.some_inj.mp (hdep.vault.symm.trans hv)
  have hd₁ : 0 < v₁.lockedProfitDegradation.toNat := by
    rw [hdep.kept]
    exact hd
  have hstart : Unprofited a.vault v₁ env.now w₁ := ⟨v₁, hdep.vault_eq, rfl, hd₁, le_rfl⟩
  have hend : Unprofited a.vault v₁ env.now w₂ := hreports ▸
    run_invariant (fun _ _ _ hs h ↦ reportAt_unprofited hs h) hstart reports
  obtain ⟨x, hx, hsupply, -, hle⟩ := hend
  obtain ⟨z, z', _, _, _, _, _, _, hwith⟩ := instantWithdraw_eq_ok hredeem
  have hz := hwith.vault
  rw [hvault] at hz
  obtain rfl := Option.some_inj.mp (hx.symm.trans hz)
  have hworth := hdep.redeemable_le hL (hdep.lp_received_le (reachable_custody hreach) hlp)
    hsupply hle
  have hpaid := hwith.paid_le
  rw [hnow] at hpaid
  omega

/-- Between the deposit of 500 and its redemption the strategy goes from 100 to 200 and to 150. -/
def sampleReports : List (StrategyAccounts × U64) :=
  [(Sample.strategyAccounts, 200), (Sample.strategyAccounts, 150)]

def reportedWorld : World :=
  run (reportAt sampleAddresses (Sample.clock 50)) depositedWorld sampleReports

def redemption : Env × Instruction := (Sample.clock 50, .instantWithdraw Sample.userAccounts 476)

def redeemedWorld : World := advance (exec sampleAddresses) reportedWorld redemption

theorem sandwich_unprofitable_sample :
    redeemedWorld.tokens.balance Sample.userAsset ≤
      reportedWorld.tokens.balance Sample.userAsset + (500 : U64).toNat := by
  have hlive : (fundedWorld.vaults Sample.vault).map
      (fun v ↦ (v.lpSupply, v.lockedProfitDegradation)) = some (1000, 100) := by
    decide +kernel
  have hok : (exec sampleAddresses fundedWorld secondDeposit).isOk = true ∧
      (exec sampleAddresses reportedWorld redemption).isOk = true := by
    decide +kernel
  have hlp : depositedWorld.tokens.balance Sample.userLp =
      fundedWorld.tokens.balance Sample.userLp + (476 : U64).toNat := by
    decide +kernel
  simp only [Option.map_eq_some_iff, Prod.mk.injEq] at hlive
  obtain ⟨v, hv, hL, hd⟩ := hlive
  exact sandwich_unprofitable (a := Sample.userAccounts) ⟨Sample.empty, fundedRun, Sample.genesis,
    rfl⟩ hv (by rw [hL]; decide) (by rw [hd]; decide) (eq_ok_advance hok.1) hlp
    (show _ = reportedWorld from rfl) rfl rfl (eq_ok_advance hok.2)

end VaultProgram
