import CrossFluf.Bot.Passes

/-!
# Two passes are enough

The first pass of the rebalance loop works from an idle balance it read once, so some of its
allocations may be cut or rejected.  But every deallocation goes through, so that after it no
strategy is above its target, and the second pass finds the idle assets for all that is missing.
-/

namespace RebalanceBot

open Machine Solana Outcome VaultProgram Run Levelling

variable {p : ProgramAddresses} {bot : Bot} {w : World} {es₁ es₂ : List (Env × Move)}

/-- Amounts that doubles hold exactly, added up or apart, and counters that have room for all of
them.  The threshold the script compares with needs fifty times the total value below `2 ^ 53`. -/
structure ExactAmounts (bot : Bot) (w : World) : Prop where
  total : totalValue bot w < 2 ^ 53
  allocated : ∀ i ∈ fetchStrategies bot w,
    i.account.allocated.toNat + totalValue bot w < 2 ^ 64

theorem ExactAmounts.value_lt (h : ExactAmounts bot w) :
    (fundOf bot w).value (active bot w) < 2 ^ 64 := by
  have htotal := h.total
  rw [totalValue_eq] at htotal
  omega

theorem ExactAmounts.demand_lt (h : ExactAmounts bot w) :
    ∀ k ∈ active bot w,
      (fundOf bot w).demand ((fundOf bot w).target (active bot w)) k < 2 ^ 64 := by
  intro k hk
  obtain ⟨i, hi, rfl⟩ := List.mem_map.mp (List.mem_toFinset.mp hk)
  have hcount := h.allocated i hi
  have hgiven : (fundOf bot w).given i.pubkey = i.account.allocated.toNat :=
    fundOf_given (mem_fetchStrategies hi)
  have htarget := target_le_value (active bot w) (fundOf bot w)
  rw [totalValue_eq] at hcount
  rw [Fund.demand]
  omega

/-- Neither pass needs to go through as a whole for the two together to end levelled. -/
theorem not_needsRebalance_of_passes {w₁ w₂ : World} (hm : Manages p bot w)
    (hx : ExactAmounts bot w) (h₁ : IsPass bot w es₁) (hw₁ : run (sendMove p bot) w es₁ = w₁)
    (h₂ : IsPass bot w₁ es₂) (hw₂ : run (sendMove p bot) w₁ es₂ = w₂) :
    ¬ NeedsRebalance bot w₂ := by
  obtain ⟨⟨hm₁, hactive₁⟩, hf₁⟩ := h₁.run_eq hm hw₁
  obtain ⟨⟨hm₂, hactive₂⟩, hf₂⟩ := h₂.run_eq hm₁ hw₂
  have heven := not_uneven_run_pass (enumerates_active bot w)
    (hactive₁ ▸ enumerates_active bot w₁) hx.value_lt hx.demand_lt hf₁
  rw [hactive₁] at hf₂
  rw [needsRebalance_iff, hactive₂, hactive₁, ← hf₂]
  exact heven

/-- What a world that needs no rebalance says about the strategies of an earlier one. -/
theorem near_of_not_needsRebalance {w' : World} (hactive : active bot w' = active bot w)
    (hvalue : totalValue bot w' = totalValue bot w) (h : ¬ NeedsRebalance bot w') :
    ∀ i ∈ fetchStrategies bot w, ∃ x, position w' i.pubkey = some x ∧
      ((targetPerStrategy bot w : ℤ) - x.toNat).natAbs * 200 ≤ totalValue bot w := by
  intro i hi
  have hmem := mem_active_of_fetched hi
  rw [← hactive] at hmem
  obtain ⟨j, hj, hkey⟩ := List.mem_map.mp (List.mem_toFinset.mp hmem)
  refine ⟨j.account.positionValue, ?_, ?_⟩
  · rw [← hkey, position, mem_fetchStrategies hj, Option.map_some]
  · by_contra hfar
    refine h ⟨j, hj, ?_⟩
    rw [hvalue, targetPerStrategy_congr hactive hvalue]
    unfold REBALANCE_THRESHOLD_BPS
    omega

/-- After two passes every active strategy is within half a percent of the total value from the
equal share, the total value is what it was at every point, and a third pass sends nothing. -/
theorem rebalance_converges (hm : Manages p bot w) (hx : ExactAmounts bot w)
    (h₁ : IsPass bot w es₁) (h₂ : IsPass bot (run (sendMove p bot) w es₁) es₂) :
    (∀ i ∈ fetchStrategies bot w, ∃ x,
      position (run (sendMove p bot) w (es₁ ++ es₂)) i.pubkey = some x ∧
        ((targetPerStrategy bot w : ℤ) - x.toNat).natAbs * 200 ≤ totalValue bot w) ∧
      Always (sendMove p bot) (fun w' ↦ totalValue bot w' = totalValue bot w) w (es₁ ++ es₂) ∧
        rebalanceMoves bot (run (sendMove p bot) w (es₁ ++ es₂)) = [] := by
  have heven := not_needsRebalance_of_passes hm hx h₁ rfl h₂ rfl
  obtain ⟨⟨hm₁, hactive₁⟩, -⟩ := h₁.run_eq hm rfl
  obtain ⟨⟨hm₂, hactive₂⟩, -⟩ := h₂.run_eq hm₁ rfl
  have hactive := hactive₂.trans hactive₁
  have hplace : ∀ e ∈ es₁ ++ es₂, e.2.transfer.place ∈ active bot w := by
    intro e he
    rcases List.mem_append.mp he with he | he
    · exact h₁.place_mem hm e he
    · exact hactive₁ ▸ h₂.place_mem hm₁ e he
  have hkept := always_totalValue hm hplace
  have hlast := hkept.last
  rw [run_append] at hlast ⊢
  exact ⟨near_of_not_needsRebalance hactive hlast heven, hkept, rebalanceMoves_eq_nil hm₂ heven⟩

def secondPass : List (Env × Move) :=
  [(Sample.clock 600, .allocate (strategyKey 0) 33),
   (Sample.clock 600, .allocate (strategyKey 1) 133)]

theorem rebalance_converges_three :
    (∀ i ∈ fetchStrategies threeBot threeWorld, ∃ x,
      position (run (sendMove indexedAddresses threeBot) threeWorld (firstPass ++ secondPass))
          i.pubkey = some x ∧
        ((targetPerStrategy threeBot threeWorld : ℤ) - x.toNat).natAbs * 200 ≤
          totalValue threeBot threeWorld) ∧
      Always (sendMove indexedAddresses threeBot)
        (fun w ↦ totalValue threeBot w = totalValue threeBot threeWorld) threeWorld
        (firstPass ++ secondPass) ∧
        rebalanceMoves threeBot
          (run (sendMove indexedAddresses threeBot) threeWorld (firstPass ++ secondPass)) = [] :=
  rebalance_converges threeBot_manages ⟨by decide +kernel, by decide +kernel⟩ (by decide +kernel)
    (by decide +kernel)

end RebalanceBot
