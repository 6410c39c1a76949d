import CrossFluf.Bot.Numbers

/-!
# What the vault refuses of a pass

Every allocation of a pass was cut to the idle balance read at its start, and not to what the
earlier ones left of it.  The vault takes all the moves of a pass exactly when the idle assets last
along the strategies in the order the loop goes through them, measured by the target the script
arrives at.
-/

namespace RebalanceBot

open Machine Solana Outcome VaultProgram Run Levelling

variable {p : ProgramAddresses} {bot : Bot} {w : World} {e : Env × Move} {es : List (Env × Move)}
  {t : ℕ}

/-! ## Guards -/

/-- The guards of the vault program on the amount of a move. -/
def MeetsGuards (bot : Bot) (w : World) : Move → Prop
  | .allocate _ amount => ∃ v, w.vaults bot.vault = some v ∧
      0 < amount.toNat ∧ amount.toNat ≤ v.idleAssets.toNat
  | .deallocate k amount => ∃ s, w.strategies k = some s ∧
      0 < amount.toNat ∧ amount.toNat ≤ s.positionValue.toNat

/-- Every transaction meets its guards where it is made, and goes through. -/
def NeverRefused (p : ProgramAddresses) (bot : Bot) (w : World) (es : List (Env × Move)) : Prop :=
  ∀ es₁ e es₂, es = es₁ ++ e :: es₂ →
    MeetsGuards bot (run (sendMove p bot) w es₁) e.2 ∧
      (sendMove p bot (run (sendMove p bot) w es₁) e).isOk = true

theorem meetsGuards_of_isOk (h : (sendMove p bot w e).isOk = true) : MeetsGuards bot w e.2 := by
  obtain ⟨env, m⟩ := e
  obtain ⟨w', hw'⟩ := isOk_iff.mp h
  cases m with
  | allocate k amount =>
    obtain ⟨v, v', s, s', ha⟩ := allocate_eq_ok hw'
    exact ⟨v, ha.vault, ha.positive, Nat.le.intro ha.idle.symm⟩
  | deallocate k amount =>
    obtain ⟨v, v', s, s', hd⟩ := deallocate_eq_ok hw'
    exact ⟨s, hd.strategy, hd.positive, Nat.le.intro hd.position.symm⟩

theorem neverRefused_iff_succeeds : NeverRefused p bot w es ↔ Succeeds (sendMove p bot) w es := by
  rw [succeeds_iff_split]
  refine forall₄_congr fun es₁ e es₂ _ ↦ ?_
  exact and_iff_right_of_imp meetsGuards_of_isOk

/-! ## The idle assets along a pass -/

/-- What a strategy lacks to the target, as far as the idle balance of the snapshot goes. -/
def shortfall (t : ℕ) (bot : Bot) (w : World) (i : StrategyInfo) : ℕ :=
  min (t - i.account.positionValue.toNat) (idleBalance bot w)

/-- What a strategy has above the target. -/
def surplus (t : ℕ) (i : StrategyInfo) : ℕ := i.account.positionValue.toNat - t

/-- Going through the strategies in their order, the idle assets and the surpluses so far cover
the shortfalls so far, and no amount outgrows its 64 bits. -/
structure IdleLasts (t : ℕ) (bot : Bot) (w : World) : Prop where
  covers : ∀ l, l <+: fetchStrategies bot w →
    (l.map (shortfall t bot w)).sum ≤ idleBalance bot w + (l.map (surplus t)).sum
  idle : ∀ l, l <+: fetchStrategies bot w →
    idleBalance bot w + (l.map (surplus t)).sum < 2 ^ 64 + (l.map (shortfall t bot w)).sum
  counters : ∀ i ∈ fetchStrategies bot w,
    i.account.positionValue.toNat + shortfall t bot w i < 2 ^ 64 ∧
      i.account.allocated.toNat + shortfall t bot w i < 2 ^ 64

theorem shortfall_eq {i : StrategyInfo} (hi : i ∈ fetchStrategies bot w) :
    shortfall t bot w i = (fundOf bot w).lacks t i.pubkey := by
  rw [shortfall, Fund.lacks, fundOf_share (mem_fetchStrategies hi)]
  rfl

theorem surplus_eq {i : StrategyInfo} (hi : i ∈ fetchStrategies bot w) :
    surplus t i = (fundOf bot w).exceeds t i.pubkey := by
  rw [surplus, Fund.exceeds, fundOf_share (mem_fetchStrategies hi)]

/-- The sums over the first strategies, and over their keys. -/
theorem sum_map_keys {x : StrategyInfo → ℕ} {y : Pubkey → ℕ} {l : List StrategyInfo}
    (hl : l <+: fetchStrategies bot w) (h : ∀ i ∈ fetchStrategies bot w, x i = y i.pubkey) :
    ((l.map StrategyInfo.pubkey).map y).sum = (l.map x).sum := by
  rw [List.map_map]
  exact congrArg List.sum (List.map_congr_left fun i hi ↦ (h i (hl.subset hi)).symm)

theorem idleLasts_iff : IdleLasts t bot w ↔
    Covers (2 ^ 64) t (fundOf bot w) (fundOf bot w).pot (activeKeys bot w) ∧
      ∀ k ∈ activeKeys bot w,
        (fundOf bot w).share k + (fundOf bot w).lacks t k < 2 ^ 64 ∧
          (fundOf bot w).given k + (fundOf bot w).lacks t k < 2 ^ 64 := by
  have hcounters : (∀ k ∈ activeKeys bot w,
      (fundOf bot w).share k + (fundOf bot w).lacks t k < 2 ^ 64 ∧
        (fundOf bot w).given k + (fundOf bot w).lacks t k < 2 ^ 64) ↔
      ∀ i ∈ fetchStrategies bot w, i.account.positionValue.toNat + shortfall t bot w i < 2 ^ 64 ∧
        i.account.allocated.toNat + shortfall t bot w i < 2 ^ 64 := by
    rw [activeKeys, List.forall_mem_map]
    refine forall₂_congr fun i hi ↦ ?_
    rw [fundOf_share (mem_fetchStrategies hi), fundOf_given (mem_fetchStrategies hi),
      shortfall_eq hi]
  rw [hcounters]
  apply Iff.intro
  · intro hlasts
    obtain ⟨hcovers, hidle, hcount⟩ := hlasts
    refine ⟨fun l hl ↦ ?_, hcount⟩
    obtain ⟨is, his, rfl⟩ := List.prefix_map_iff.mp hl
    rw [sum_map_keys his fun i ↦ shortfall_eq, sum_map_keys his fun i ↦ surplus_eq]
    exact ⟨hcovers is his, hidle is his⟩
  · intro hfund
    obtain ⟨hcovers, hcount⟩ := hfund
    have hall : ∀ l, l <+: fetchStrategies bot w →
        (l.map (shortfall t bot w)).sum ≤ idleBalance bot w + (l.map (surplus t)).sum ∧
          idleBalance bot w + (l.map (surplus t)).sum <
            2 ^ 64 + (l.map (shortfall t bot w)).sum := by
      intro l hl
      have hone := hcovers (l.map StrategyInfo.pubkey) (hl.map StrategyInfo.pubkey)
      rwa [sum_map_keys hl fun i ↦ shortfall_eq, sum_map_keys hl fun i ↦ surplus_eq] at hone
    exact ⟨fun l hl ↦ (hall l hl).1, fun l hl ↦ (hall l hl).2, hcount⟩

/-! ## Whole passes -/

theorem fundOf_small (hm : Manages p bot w) :
    (fundOf bot w).pot < 2 ^ 64 ∧ ∀ k ∈ activeKeys bot w,
      (fundOf bot w).share k < 2 ^ 64 ∧ (fundOf bot w).given k < 2 ^ 64 := by
  obtain ⟨v, hv, -⟩ := hm.vault
  refine ⟨fundOf_pot hv ▸ v.idleAssets.isLt, fun k hk ↦ ?_⟩
  obtain ⟨i, hi, rfl⟩ := List.mem_map.mp hk
  rw [fundOf_share (mem_fetchStrategies hi), fundOf_given (mem_fetchStrategies hi)]
  exact ⟨i.account.positionValue.isLt, i.account.allocated.isLt⟩

/-- The moves to a target all go through exactly when the idle assets last. -/
theorem neverRefused_iff_of_moves (hm : Manages p bot w)
    (hes : es.map (fun e ↦ e.2.transfer) = moves t (fundOf bot w) (activeKeys bot w)) :
    NeverRefused p bot w es ↔ IdleLasts t bot w := by
  obtain ⟨hpot, hsmall⟩ := fundOf_small hm
  have hplace : ∀ e ∈ es, e.2.transfer.place ∈ active bot w := by
    intro e he
    have hmem : e.2.transfer ∈ es.map (fun e ↦ e.2.transfer) := List.mem_map_of_mem he
    rw [hes] at hmem
    exact List.mem_toFinset.mpr (place_mem_of_mem_moves hmem)
  rw [neverRefused_iff_succeeds,
    (sendMove_simulates p bot (active bot w)).succeeds_iff ⟨hm, rfl⟩ hplace, hes,
    succeeds_moves_iff (enumerates_active bot w).nodup hpot (fun _ _ ↦ ⟨rfl, rfl⟩) hsmall,
    ← idleLasts_iff]

theorem neverRefused_nil : NeverRefused p bot w [] := neverRefused_iff_succeeds.mpr trivial

theorem Script.IsPass.neverRefused_iff (hes : Script.IsPass bot w es) (hm : Manages p bot w) :
    NeverRefused p bot w es ↔
      (Script.NeedsRebalance bot w → IdleLasts (Script.targetPerStrategy bot w) bot w) := by
  obtain ⟨v, hv, -⟩ := hm.vault
  by_cases hneeds : Script.NeedsRebalance bot w
  · have hmap : es.map (fun e ↦ e.2.transfer) =
        moves (Script.targetPerStrategy bot w) (fundOf bot w) (activeKeys bot w) := by
      rw [← map_transfer_movesTo hv, ← Script.rebalanceMoves_eq_movesTo hv hneeds, ← hes,
        List.map_map]
      rfl
    rw [neverRefused_iff_of_moves hm hmap]
    exact ⟨fun h _ ↦ h, fun h ↦ h hneeds⟩
  · obtain rfl : es = [] := List.map_eq_nil_iff.mp
      (hes.trans (Script.rebalanceMoves_eq_nil hv hneeds))
    exact iff_of_true neverRefused_nil fun h ↦ absurd h hneeds

/-- The vault refuses nothing of a pass exactly when the script finds no rebalance due or the idle
assets last along it, measured by its target.  Where fifty times the total value is below
`2 ^ 53`, the pass, the decision and the target are those of exact integers. -/
theorem neverRefused_iff_idleLasts (hm : Manages p bot w) (hes : Script.IsPass bot w es) :
    (NeverRefused p bot w es ↔
        (Script.NeedsRebalance bot w → IdleLasts (Script.targetPerStrategy bot w) bot w)) ∧
      (totalValue bot w * REBALANCE_THRESHOLD_BPS < 2 ^ 53 → IsPass bot w es ∧
        (NeverRefused p bot w es ↔
          (NeedsRebalance bot w → IdleLasts (targetPerStrategy bot w) bot w))) := by
  have hiff := hes.neverRefused_iff hm
  refine ⟨hiff, fun hsmall ↦ ⟨hes.trans (Script.rebalanceMoves_exact hsmall), ?_⟩⟩
  rw [hiff, Script.needsRebalance_exact hsmall, Script.targetPerStrategy_exact hsmall]

theorem neverRefused_iff_idleLasts_three :
    (NeverRefused indexedAddresses threeBot threeWorld firstPass ↔
        (Script.NeedsRebalance threeBot threeWorld →
          IdleLasts (Script.targetPerStrategy threeBot threeWorld) threeBot threeWorld)) ∧
      IsPass threeBot threeWorld firstPass ∧
      (NeverRefused indexedAddresses threeBot threeWorld firstPass ↔
        (NeedsRebalance threeBot threeWorld →
          IdleLasts (targetPerStrategy threeBot threeWorld) threeBot threeWorld)) := by
  have hpass : Script.IsPass threeBot threeWorld firstPass := by decide +kernel
  obtain ⟨hscript, hexact⟩ := neverRefused_iff_idleLasts threeBot_manages hpass
  exact ⟨hscript, hexact (by decide +kernel)⟩

/-- The first strategy takes all that is idle, and the second is sent the same amount again. -/
theorem neverRefused_fails : ¬ ∀ (p : ProgramAddresses) (bot : Bot) (w : World)
    (es : List (Env × Move)), Manages p bot w → Script.IsPass bot w es →
      NeverRefused p bot w es := by
  intro hall
  have hpass := hall indexedAddresses threeBot threeWorld firstPass threeBot_manages
    (by decide +kernel)
  have hsecond := (hpass [(Sample.clock 0, .allocate (strategyKey 0) 100)]
    (Sample.clock 0, .allocate (strategyKey 1) 100)
    [(Sample.clock 0, .deallocate (strategyKey 2) 167)] rfl).2
  revert hsecond
  decide +kernel

end RebalanceBot
