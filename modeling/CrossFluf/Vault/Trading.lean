import CrossFluf.Base.Exchange
import CrossFluf.Vault.Dilution
import CrossFluf.Vault.Ownership
import CrossFluf.Vault.ShareLedger

/-!
# Trading with a vault at one time

Between two reports, fee harvests and changes of the configuration, everyone who trades with a
vault at one timestamp trades with a fund whose shares never lose value.  Whatever depositors and
withdrawers do together, in any order, costs a holder who sits still nothing and earns them nothing.
-/

namespace VaultProgram

open Machine Solana Outcome Proportion Exchange Run

variable {p : ProgramAddresses} {env : Env} {w w' : World} {V : Pubkey} {v v' : Vault} {now : I64}

/-! ## The fund behind the LP tokens -/

/-- The assets of the vault at `V` that its LP tokens can redeem at `now`. -/
def fundOf (V : Pubkey) (now : I64) (w : World) : ℕ :=
  (w.vaults V).elim 0 fun v ↦ v.totalAssets.toNat - remaining v now

theorem fundOf_of_vault (hv : w.vaults V = some v) :
    fundOf V now w = v.totalAssets.toNat - remaining v now := by
  rw [fundOf, hv, Option.elim_some]

theorem redeemable_eq (hv : w.vaults V = some v) (lpAmount : U64) :
    redeemable v now lpAmount = lpAmount.toNat * fundOf V now w / lpCountedOf V w := by
  rw [redeemable, fundOf_of_vault hv, lpCountedOf_of_vault hv]

/-- Paid into the vault at `V` by the instruction. -/
def paidInto (V : Pubkey) (w : World) (i : Env × Instruction) : ℕ := (movement w V i).inflow

/-- Paid out by it. -/
def paidOut (V : Pubkey) (w : World) (i : Env × Instruction) : ℕ := (movement w V i).outflow

/-- If the instruction names the vault at `V`, it is none of those that move the value of an LP
token, and where it trades, it trades at `now`. -/
def TradesAt (V : Pubkey) (now : I64) (i : Env × Instruction) : Prop :=
  i.2.vault = some V →
    match i.2 with
    | .deposit _ _ => i.1.now = now
    | .instantWithdraw _ _ => i.1.now = now
    | .reportYield _ _ => False
    | .harvestFees _ => False
    | .updateConfig _ _ => False
    | _ => True

/-- The instruction is a fair trade with the fund behind the LP tokens. -/
abbrev TradesFairly (V : Pubkey) (now : I64) : World → Env × Instruction → World → Prop :=
  Exchange.Step (fundOf V now) (lpCountedOf V) (paidInto V) (paidOut V)

/-! ## One step -/

theorem movement_of_vault {i : Env × Instruction} (hV : i.2.vault = some V) :
    movement w V i = i.2.movement w V i.1.now := by
  rw [movement, if_pos hV]

theorem tradesFairly_of_same (hfund : fundOf V now w' = fundOf V now w)
    (hlp : lpCountedOf V w' = lpCountedOf V w) {i : Env × Instruction}
    (hmove : movement w V i = .still) : TradesFairly V now w i w' := by
  have hin : paidInto V w i = 0 := by rw [paidInto, hmove]; rfl
  have hout : paidOut V w i = 0 := by rw [paidOut, hmove]; rfl
  show Fair _ _ _ _ _ _
  rw [hfund, hlp, hin, hout]
  exact .refl _ _

/-- The same for an instruction that moves neither the total nor the count of LP tokens. -/
theorem tradesFairly_of_kept (hv : w.vaults V = some v) (hv' : w'.vaults V = some v')
    (htotal : v'.totalAssets = v.totalAssets) (hlp : v'.lpSupply = v.lpSupply)
    (hlock : remaining v' now = remaining v now) {i : Env × Instruction}
    (hin : paidInto V w i = 0) (hout : paidOut V w i = 0) : TradesFairly V now w i w' := by
  show Fair _ _ _ _ _ _
  rw [fundOf_of_vault hv, fundOf_of_vault hv', lpCountedOf_of_vault hv, lpCountedOf_of_vault hv',
    htotal, hlp, hlock, hin, hout]
  exact .refl _ _

theorem Deposited.tradesFairly {a : UserAccounts} {amount lpToMint feeLp lpAfterFee : U64}
    {paid minted : Tokens}
    (h : Deposited p env w a amount w' v v' lpToMint feeLp lpAfterFee paid minted)
    (hpos : 0 < v.lpSupply.toNat) :
    TradesFairly a.vault env.now w (env, .deposit a amount) w' := by
  obtain ⟨e, he, hepos, hfair⟩ := h.fair hpos
  have hold := (effectiveTotalAssets_eq_ok.mp he).2
  have hin : paidInto a.vault w (env, .deposit a amount) = amount.toNat := by
    rw [paidInto, movement_of_vault rfl]
    rfl
  have hout : paidOut a.vault w (env, .deposit a amount) = 0 := by
    rw [paidOut, movement_of_vault rfl]
    rfl
  have hfund : v'.totalAssets.toNat - remaining v' env.now = e.toNat + amount.toNat := by
    rw [h.remaining_eq, h.total]
    omega
  show Fair _ _ _ _ _ _
  rw [fundOf_of_vault h.vault, fundOf_of_vault h.vault_eq, lpCountedOf_of_vault h.vault,
    lpCountedOf_of_vault h.vault_eq, hin, hout, ← hold, hfund, h.lpSupply]
  exact .issue hfair

theorem Withdrawn.tradesFairly {a : UserAccounts}
    {lpAmount effectiveAssets assetsToReturn fee assetsAfterFee : U64} {burned paid : Tokens}
    (h : Withdrawn p env w a lpAmount w' v v' effectiveAssets assetsToReturn fee assetsAfterFee
      burned paid) : TradesFairly a.vault env.now w (env, .instantWithdraw a lpAmount) w' := by
  have hread := (effectiveTotalAssets_eq_ok.mp h.effective).2
  have hfloor := mod_floor_mul_le (mulDiv_u64_eq_ok.mp h.assetsToReturn_ok).2
  have htotal := h.total
  have hlp := h.lpSupply
  have hmove : movement w a.vault (env, .instantWithdraw a lpAmount) =
      .withdraw (redeemable v env.now lpAmount)
        (redeemable v env.now lpAmount - withdrawalFee v env.now lpAmount) := by
    rw [movement_of_vault rfl]
    show (w.vaults a.vault).elim _ _ = _
    rw [h.vault, Option.elim_some]
  have hin : paidInto a.vault w (env, .instantWithdraw a lpAmount) = 0 := by
    rw [paidInto, hmove]
    rfl
  have hout : paidOut a.vault w (env, .instantWithdraw a lpAmount) ≤ assetsToReturn.toNat := by
    rw [paidOut, hmove, h.assets_eq]
    exact Nat.sub_le _ _
  -- the burned share is part of the fund, so nothing below truncates
  have hshare : assetsToReturn.toNat ≤ effectiveAssets.toNat := by
    rw [(mulDiv_u64_eq_ok.mp h.assetsToReturn_ok).2]
    exact le_trans (Nat.mod_le _ _) (floor_share_le (by omega))
  have hfund : effectiveAssets.toNat =
      v'.totalAssets.toNat - remaining v' env.now + assetsToReturn.toNat := by
    rw [h.remaining_eq]
    omega
  show Fair _ _ _ _ _ _
  rw [fundOf_of_vault h.vault, fundOf_of_vault h.vault_eq, lpCountedOf_of_vault h.vault,
    lpCountedOf_of_vault h.vault_eq, hin, ← hread]
  exact .redeem hfloor hfund (by omega) hout

/-- While LP tokens are counted, each instruction that trades at `now` trades fairly. -/
theorem exec_tradesFairly {i : Env × Instruction} (h : exec p w i = .ok w')
    (hpos : 0 < lpCountedOf V w) (ht : TradesAt V now i) : TradesFairly V now w i w' := by
  by_cases hV : i.2.vault = some V
  · have hrule := ht hV
    cases hv : w.vaults V with
    | none =>
      rw [lpCountedOf, hv, Option.elim_none] at hpos
      omega
    | some v =>
      rw [lpCountedOf_of_vault hv] at hpos
      obtain ⟨v', hv', he⟩ := exec_vaultEffect h hV hv
      have hstill : movement w V i = i.2.movement w V i.1.now := movement_of_vault hV
      cases he with
      | deposit hd =>
        obtain rfl : _ = now := hrule
        exact hd.tradesFairly hpos
      | instantWithdraw hx =>
        obtain rfl : _ = now := hrule
        exact hx.tradesFairly
      | addStrategy hs =>
        refine tradesFairly_of_kept hv hv' ?_ ?_ ?_ (by rw [paidInto, hstill]; rfl)
          (by rw [paidOut, hstill]; rfl)
        · rw [hs.kept]
        · rw [hs.kept]
        · exact remaining_congr (by rw [hs.kept]) (by rw [hs.kept]) (by rw [hs.kept]) now
      | allocate ha =>
        refine tradesFairly_of_kept hv hv' ?_ ?_ ?_ (by rw [paidInto, hstill]; rfl)
          (by rw [paidOut, hstill]; rfl)
        · rw [ha.kept]
        · rw [ha.kept]
        · exact remaining_congr (by rw [ha.kept]) (by rw [ha.kept]) (by rw [ha.kept]) now
      | deallocate hd =>
        refine tradesFairly_of_kept hv hv' ?_ ?_ ?_ (by rw [paidInto, hstill]; rfl)
          (by rw [paidOut, hstill]; rfl)
        · rw [hd.kept]
        · rw [hd.kept]
        · exact remaining_congr (by rw [hd.kept]) (by rw [hd.kept]) (by rw [hd.kept]) now
      | reportYield hr => exact hrule.elim
      | harvestNothing => exact hrule.elim
      | harvestFees hf => exact hrule.elim
      | removeStrategy hr =>
        exact tradesFairly_of_kept hv hv' rfl rfl rfl (by rw [paidInto, hstill]; rfl)
          (by rw [paidOut, hstill]; rfl)
      | updateConfig hc hfee => exact hrule.elim
      | setActive hc =>
        exact tradesFairly_of_kept hv hv' rfl rfl rfl (by rw [paidInto, hstill]; rfl)
          (by rw [paidOut, hstill]; rfl)
  · have hsame := (exec_sameVault h hV).vault
    exact tradesFairly_of_same (by rw [fundOf, fundOf, hsame])
      (by rw [lpCountedOf, lpCountedOf, hsame]) (by rw [movement, if_neg hV])

/-! ## A holder who sits still -/

/-- `owner` keeps `o` LP tokens of `V` at `k`, and nobody else may spend them. -/
def Sitting (V k owner : Pubkey) (o : ℕ) (w : World) : Prop :=
  ∃ v x, w.vaults V = some v ∧ w.tokens.account k = some x ∧ x.mint = v.lpMint ∧
    x.owner = owner ∧ x.delegate = none ∧ o ≤ x.amount.toNat

theorem exec_sitting {i : Env × Instruction} {k owner : Pubkey} {o : ℕ}
    (hw : Sitting V k owner o w) (h : exec p w i = .ok w') (hi : owner ∉ i.2.signers p) :
    Sitting V k owner o w' := by
  obtain ⟨v, x, hv, hx, hm, ho, hd, hle⟩ := hw
  obtain ⟨v', hv', -⟩ := exec_moves h hv
  obtain ⟨x', hx', hm', ho', hkeep⟩ := (exec_tokenStep h).frame.account k x hx
  obtain ⟨hd', hle'⟩ := hkeep (ho ▸ hi) hd
  refine ⟨v', x', hv', hx', ?_, ho'.trans ho, hd', le_trans hle hle'⟩
  rw [hm', hm, (exec_sameKeys h hv hv').lpMint]

/-- The token ledger is sound and the vault counts every LP token there is. -/
structure LpBacked (p : ProgramAddresses) (V : Pubkey) (w : World) : Prop where
  custody : Custody p w
  minted : LpMinted p w
  counted : lpMintedOf V w ≤ lpCountedOf V w

theorem exec_lpBacked {i : Env × Instruction} (hw : LpBacked p V w)
    (ha : LpAuthorityApart p V w) (h : exec p w i = .ok w') : LpBacked p V w' where
  custody := exec_custody hw.custody h
  minted := exec_lpMinted hw.minted h
  counted := by
    have hshares := exec_shares hw.minted ha h
    have hold := hw.counted
    omega

theorem reachable_lpBacked (h : Reachable (exec p) (Genesis p) w) (ha : LpAuthorityApart p V w) :
    LpBacked p V w := by
  obtain ⟨w₀, is, hg, rfl⟩ := h
  have hapart : Always (exec p) (LpAuthorityApart p V) w₀ is :=
    always_of_last (fun _ _ _ h hw' ↦ hw'.of_exec h) ha
  have hbase : LpBacked p V w₀ := by
    refine ⟨hg.custody, hg.lpMinted, ?_⟩
    rw [lpMintedOf, hg.vaults, Option.elim_none]
    exact Nat.zero_le _
  have hsteps := hapart.eachStep (P := fun w _ _ ↦ LpAuthorityApart p V w)
    fun _ _ _ ha _ ↦ ha
  exact (hsteps.always (fun _ _ _ hb ha h ↦ exec_lpBacked hb ha h) hbase).last

/-- The tokens of a sitting holder are counted. -/
theorem Sitting.le_counted {k owner : Pubkey} {o : ℕ} (h : Sitting V k owner o w)
    (hb : LpBacked p V w) : o ≤ lpCountedOf V w := by
  obtain ⟨v, x, hv, hx, hm, -, -, hle⟩ := h
  have hheld := hb.custody.sound.balance_le hx
  have hcounted := hb.counted
  rw [lpMintedOf_of_vault hv, ← hm] at hcounted
  omega

/-! ## A run of trades -/

section Trading

variable {is : List (Env × Instruction)} {k owner : Pubkey} {o : ℕ}

theorem always_sitting (hw : LpBacked p V w) (ha : LpAuthorityApart p V (run (exec p) w is))
    (hsit : Sitting V k owner o w) (hi : ∀ i ∈ is, owner ∉ i.2.signers p) :
    Always (exec p) (fun w ↦ LpBacked p V w ∧ Sitting V k owner o w) w is := by
  have hapart : Always (exec p) (LpAuthorityApart p V) w is :=
    always_of_last (fun _ _ _ h hw' ↦ hw'.of_exec h) ha
  have hsteps := (hapart.eachStep (P := fun w _ _ ↦ LpAuthorityApart p V w)
    fun _ _ _ ha _ ↦ ha).and (eachStep_of_forall_mem hi w)
  exact hsteps.always (fun _ _ _ hs hp h ↦
    ⟨exec_lpBacked hs.1 hp.1 h, exec_sitting hs.2 h hp.2⟩) ⟨hw, hsit⟩

/-- While a holder sits still with `o` of the LP tokens, a run of trades is one fair trade. -/
theorem run_fair (hw : LpBacked p V w) (ha : LpAuthorityApart p V (run (exec p) w is))
    (hsit : Sitting V k owner o w) (ho : 0 < o) (hi : ∀ i ∈ is, owner ∉ i.2.signers p)
    (ht : ∀ i ∈ is, TradesAt V now i) :
    Fair (fundOf V now w) (lpCountedOf V w) (tally (exec p) (paidInto V) w is)
      (tally (exec p) (paidOut V) w is) (fundOf V now (run (exec p) w is))
      (lpCountedOf V (run (exec p) w is)) := by
  have hpos : Always (exec p) (fun w ↦ 0 < lpCountedOf V w) w is :=
    (always_sitting hw ha hsit hi).mono fun _ h ↦ lt_of_lt_of_le ho (h.2.le_counted h.1)
  have hfair := (hpos.eachStep (P := fun w _ _ ↦ 0 < lpCountedOf V w) fun _ _ _ h _ ↦ h).and
    (eachStep_of_forall_mem ht w)
  exact fair_run hpos (hfair.mono fun _ _ _ h hp ↦ exec_tradesFairly h hp.1 hp.2)

/-- From any reachable state, whatever all others do at one time: the LP tokens of a holder who
sits still redeem for no less afterwards, and the others together, all their LP tokens included,
own no more than before and what they paid in. -/
theorem traders_never_gain (hreach : Reachable (exec p) (Genesis p) w)
    (ha : LpAuthorityApart p V (run (exec p) w is)) (hsit : Sitting V k owner o w) (ho : 0 < o)
    (hi : ∀ i ∈ is, owner ∉ i.2.signers p) (ht : ∀ i ∈ is, TradesAt V now i) {v v' : Vault}
    (hv : w.vaults V = some v) (hv' : (run (exec p) w is).vaults V = some v') :
    (∀ lpAmount, redeemable v now lpAmount ≤ redeemable v' now lpAmount) ∧
      worth ℚ (v'.totalAssets.toNat - remaining v' now) v'.lpSupply.toNat
          (v'.lpSupply.toNat - o) + tally (exec p) (paidOut V) w is ≤
        worth ℚ (v.totalAssets.toNat - remaining v now) v.lpSupply.toNat
          (v.lpSupply.toNat - o) + tally (exec p) (paidInto V) w is := by
  have hapart : LpAuthorityApart p V w :=
    (always_of_last (fun _ _ _ h hw' ↦ hw'.of_exec h) ha).head
  have hbacked := reachable_lpBacked hreach hapart
  have hfair := run_fair hbacked ha hsit ho hi ht
  have hlast := (always_sitting hbacked ha hsit hi).last
  have hle := hsit.le_counted hbacked
  have hle' := hlast.2.le_counted hlast.1
  refine ⟨fun lpAmount ↦ ?_, ?_⟩
  · rw [redeemable_eq hv, redeemable_eq hv']
    exact claim_le hfair.value (by omega) _
  · rw [fundOf_of_vault hv, fundOf_of_vault hv', lpCountedOf_of_vault hv,
      lpCountedOf_of_vault hv'] at hfair
    rw [lpCountedOf_of_vault hv] at hle
    rw [lpCountedOf_of_vault hv'] at hle'
    exact hfair.wealth_le (by omega) (by omega) (Nat.sub_add_cancel hle) (Nat.sub_add_cancel hle')

end Trading

/-! ## A holder and a trader -/

theorem sample_lpApart {is : List (Env × Instruction)}
    (hnamed : ∀ i ∈ is, i.2.vault = none ∨ i.2.vault = some Sample.vault) :
    LpAuthorityApart sampleAddresses Sample.vault
      (run (exec sampleAddresses) Sample.empty is) := by
  intro U hU hne
  exact absurd (sample_vault_of_isSome hnamed hU) hne

def sitter : Pubkey := 256
def sitterLp : Pubkey := 288

/-- Of the LP tokens of a vault with a gain half released, 400 belong to another. -/
def sharedRun : List (Env × Instruction) :=
  fundedRun ++
    [(Sample.clock 0, .wallet [sitterLp] (.initializeAccount sitterLp Sample.lpMint sitter)),
     (Sample.clock 0, .wallet [Sample.user]
      (.transfer Sample.userLp sitterLp Sample.user 400))]

def sharedWorld : World := run (exec sampleAddresses) Sample.empty sharedRun

def sampleTrades : List (Env × Instruction) :=
  [(Sample.clock 50, .deposit Sample.userAccounts 500),
   (Sample.clock 50, .instantWithdraw Sample.userAccounts 100),
   (Sample.clock 50, .deposit Sample.userAccounts 7)]

def tradedWorld : World := run (exec sampleAddresses) sharedWorld sampleTrades

theorem sharedWorld_sitting : Sitting Sample.vault sitterLp sitter 400 sharedWorld := by
  have hv : (sharedWorld.vaults Sample.vault).map (fun v ↦ v.lpMint) = some Sample.lpMint := by
    decide +kernel
  have hx : sharedWorld.tokens.account sitterLp = some ⟨Sample.lpMint, sitter, 400, none, 0⟩ := by
    decide +kernel
  rw [Option.map_eq_some_iff] at hv
  obtain ⟨v, hv, hm⟩ := hv
  exact ⟨v, _, hv, hx, hm.symm, rfl, rfl, le_rfl⟩

theorem tradedWorld_apart : LpAuthorityApart sampleAddresses Sample.vault tradedWorld := by
  have hrun : tradedWorld = run (exec sampleAddresses) Sample.empty (sharedRun ++ sampleTrades) :=
    (run_append _ _ _).symm
  rw [hrun]
  apply sample_lpApart
  simp [sharedRun, fundedRun, sampleTrades, Sample.setup, Instruction.vault, Sample.userAccounts,
    Sample.strategyAccounts]

theorem traders_never_gain_sample : ∃ v v', sharedWorld.vaults Sample.vault = some v ∧
    tradedWorld.vaults Sample.vault = some v' ∧
    (∀ lpAmount, redeemable v 50 lpAmount ≤ redeemable v' 50 lpAmount) ∧
    worth ℚ (v'.totalAssets.toNat - remaining v' 50) v'.lpSupply.toNat
        (v'.lpSupply.toNat - 400) +
        tally (exec sampleAddresses) (paidOut Sample.vault) sharedWorld sampleTrades ≤
      worth ℚ (v.totalAssets.toNat - remaining v 50) v.lpSupply.toNat (v.lpSupply.toNat - 400) +
        tally (exec sampleAddresses) (paidInto Sample.vault) sharedWorld sampleTrades := by
  have hlive : (sharedWorld.vaults Sample.vault).isSome = true ∧
      (tradedWorld.vaults Sample.vault).isSome = true := by
    decide +kernel
  obtain ⟨v, hv⟩ := Option.isSome_iff_exists.mp hlive.1
  obtain ⟨v', hv'⟩ := Option.isSome_iff_exists.mp hlive.2
  have hsigners : ∀ i ∈ sampleTrades, sitter ∉ i.2.signers sampleAddresses := by decide +kernel
  have htrades : ∀ i ∈ sampleTrades, TradesAt Sample.vault 50 i := by
    simp [sampleTrades, TradesAt, Sample.clock]
  exact ⟨v, v', hv, hv', traders_never_gain ⟨_, sharedRun, Sample.genesis, rfl⟩ tradedWorld_apart
    sharedWorld_sitting (by decide) hsigners htrades hv hv'⟩

end VaultProgram
