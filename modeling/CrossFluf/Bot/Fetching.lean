import CrossFluf.Bot.Passes

/-!
# What the bot reads

The nodes return the strategy accounts of a vault in no particular order.  Sorted by index they are
the active strategies in the order in which they were added, whatever order they came in.
-/

namespace RebalanceBot

open Machine Solana Outcome VaultProgram Run

variable {p : ProgramAddresses} {bot : Bot} {w : World} {v : Vault}

/-- Every strategy of the vault is among the accounts the node returns. -/
def Bot.Complete (bot : Bot) (w : World) : Prop :=
  ∀ k s, w.strategies k = some s → s.vault = bot.vault → k ∈ bot.strategies

/-- The strategy of a number, unless it has been removed. -/
def strategyOf (p : ProgramAddresses) (V : Pubkey) (w : World) (n : ℕ) : Option StrategyInfo :=
  let k := (strategyAddress p V (BitVec.ofNat 8 n)).1
  (w.strategies k).bind fun s ↦ if s.isActive then some ⟨k, s⟩ else none

theorem strategyOf_eq_some {V : Pubkey} {n : ℕ} {i : StrategyInfo} :
    strategyOf p V w n = some i ↔ i.pubkey = (strategyAddress p V (BitVec.ofNat 8 n)).1 ∧
      w.strategies i.pubkey = some i.account ∧ i.account.isActive = true := by
  simp only [strategyOf, Option.bind_eq_some_iff, Option.ite_none_right_eq_some, Option.some_inj]
  apply Iff.intro
  · intro h
    obtain ⟨s, hs, hactive, rfl⟩ := h
    exact ⟨rfl, hs, hactive⟩
  · intro h
    obtain ⟨hk, hs, hactive⟩ := h
    exact ⟨i.account, hk ▸ hs, hactive, by rw [← hk]⟩

/-- The active strategies by number. -/
def strategiesByNumber (p : ProgramAddresses) (V : Pubkey) (w : World) : List StrategyInfo :=
  (List.range (numStrategiesOf V w)).filterMap (strategyOf p V w)

section Numbers

variable (hw : Numbered p w)
include hw

theorem ofNat_number {V : Pubkey} {n : ℕ} (hn : n < numStrategiesOf V w) :
    (BitVec.ofNat 8 n).toNat = n := by
  have hcap := hw.capped V
  have hmax : MAX_STRATEGIES.toNat = 10 := rfl
  rw [BitVec.toNat_ofNat]
  omega

/-- The strategy of a number carries it. -/
theorem strategyOf_number {V : Pubkey} {n : ℕ} {i : StrategyInfo}
    (hn : n < numStrategiesOf V w) (h : strategyOf p V w n = some i) :
    i.account.vault = V ∧ i.account.index.toNat = n := by
  obtain ⟨hk, hs, -⟩ := strategyOf_eq_some.mp h
  obtain ⟨s, hs', hV, hindex⟩ :=
    hw.filled V (BitVec.ofNat 8 n) (by rw [ofNat_number hw hn]; exact hn)
  rw [hk, hs', Option.some_inj] at hs
  rw [← hs, hindex]
  exact ⟨hV, ofNat_number hw hn⟩

theorem mem_strategiesByNumber {V : Pubkey} {i : StrategyInfo} :
    i ∈ strategiesByNumber p V w ↔
      w.strategies i.pubkey = some i.account ∧ i.account.vault = V ∧
        i.account.isActive = true := by
  rw [strategiesByNumber, List.mem_filterMap]
  apply Iff.intro
  · intro h
    obtain ⟨n, hn, hi⟩ := h
    obtain ⟨-, hs, hactive⟩ := strategyOf_eq_some.mp hi
    exact ⟨hs, (strategyOf_number hw (List.mem_range.mp hn) hi).1, hactive⟩
  · intro h
    obtain ⟨hs, rfl, hactive⟩ := h
    obtain ⟨hlt, hk⟩ := hw.placed _ _ hs
    refine ⟨i.account.index.toNat, List.mem_range.mpr hlt, strategyOf_eq_some.mpr ⟨?_, hs, hactive⟩⟩
    rw [BitVec.ofNat_toNat, BitVec.setWidth_eq]
    exact hk

theorem pairwise_strategiesByNumber (V : Pubkey) :
    (strategiesByNumber p V w).Pairwise fun i j ↦
      i.account.index.toNat < j.account.index.toNat := by
  rw [strategiesByNumber, List.pairwise_filterMap]
  refine List.pairwise_lt_range.imp_of_mem fun {m n} hm hn hlt i hi j hj ↦ ?_
  rw [(strategyOf_number hw (List.mem_range.mp hm) hi).2,
    (strategyOf_number hw (List.mem_range.mp hn) hj).2]
  exact hlt

theorem fetchStrategies_eq (hall : bot.Complete w) :
    fetchStrategies bot w = strategiesByNumber p bot.vault w := by
  have hsorted : (fetchStrategies bot w).Pairwise fun i j ↦
      i.account.index.toNat ≤ j.account.index.toNat := by
    have htotal : Std.Total fun i j : StrategyInfo ↦
        i.account.index.toNat ≤ j.account.index.toNat := ⟨fun _ _ ↦ Nat.le_total _ _⟩
    have htrans : IsTrans StrategyInfo fun i j ↦
        i.account.index.toNat ≤ j.account.index.toNat := ⟨fun _ _ _ ↦ Nat.le_trans⟩
    exact List.pairwise_insertionSort _ _
  have hnumbers := pairwise_strategiesByNumber hw bot.vault
  have hmem : ∀ i, i ∈ fetchStrategies bot w ↔ i ∈ strategiesByNumber p bot.vault w := by
    intro i
    rw [mem_fetchStrategies_iff, mem_strategiesByNumber hw]
    exact and_iff_right_of_imp fun h ↦ hall _ _ h.1 h.2.1
  have hperm : (fetchStrategies bot w).Perm (strategiesByNumber p bot.vault w) := by
    rw [List.perm_ext_iff_of_nodup]
    · exact hmem
    · exact (pairwise_fetchStrategies bot w).imp fun hne he ↦ hne (congrArg _ he)
    · exact hnumbers.imp fun hlt he ↦ absurd (congrArg (·.account.index.toNat) he) hlt.ne
  refine hperm.eq_of_pairwise ?_ hsorted (hnumbers.imp Nat.le_of_lt)
  -- two strategies of the vault with one index are one
  intro i j hi hj hij hji
  obtain ⟨-, hi, hVi, -⟩ := mem_fetchStrategies_iff.mp hi
  obtain ⟨hj, hVj, -⟩ := (mem_strategiesByNumber hw).mp hj
  have hindex : i.account.index = j.account.index := BitVec.eq_of_toNat_eq (le_antisymm hij hji)
  have hkey : i.pubkey = j.pubkey := hw.eq_of_index hi hj (hVi.trans hVj.symm) hindex
  rw [hkey, hj, Option.some_inj] at hi
  obtain ⟨k, s⟩ := i
  obtain ⟨k', s'⟩ := j
  obtain rfl : k = k' := hkey
  obtain rfl : s' = s := hi
  rfl

end Numbers

/-- In every reachable state a bot that is shown all strategies of its vault reads the active ones
in the order in which they were added. -/
theorem fetchStrategies_by_number (hw : Reachable (exec p) (Genesis p) w)
    (hv : w.vaults bot.vault = some v) (hall : bot.Complete w) :
    fetchStrategies bot w =
      (List.range v.numStrategies.toNat).filterMap (strategyOf p bot.vault w) := by
  rw [← numStrategiesOf_of_vault hv]
  exact fetchStrategies_eq (reachable_numbered hw) hall

/-! ## A bot whose node answers backwards -/

def backwardBot : Bot where
  manager := Sample.admin
  vault := Sample.vault
  strategies := [strategyKey 2, strategyKey 1, strategyKey 0]
  nodup := by decide
  yieldAmount _ := 0

theorem threeWorld_reachable :
    Reachable (exec indexedAddresses) (Genesis indexedAddresses) threeWorld :=
  ⟨Sample.empty, threeRun, launch_indexed.toGenesis, rfl⟩

theorem backwardBot_complete : backwardBot.Complete threeWorld := by
  intro k s hk hV
  have hn := reachable_numbered threeWorld_reachable
  obtain ⟨hlt, rfl⟩ := hn.placed k s hk
  have hcount : numStrategiesOf Sample.vault threeWorld = 3 := by decide +kernel
  rw [hV] at hlt ⊢
  rw [show backwardBot.vault = Sample.vault from rfl, hcount] at hlt
  have hnumbers : ∀ i : U8, i.toNat < 3 →
      (strategyAddress indexedAddresses Sample.vault i).1 ∈ backwardBot.strategies := by
    decide +kernel
  exact hnumbers s.index hlt

theorem fetchStrategies_by_number_backward : fetchStrategies backwardBot threeWorld =
    (List.range 3).filterMap (strategyOf indexedAddresses Sample.vault threeWorld) := by
  have hv : (threeWorld.vaults Sample.vault).map (fun v ↦ v.numStrategies) = some 3 := by
    decide +kernel
  rw [Option.map_eq_some_iff] at hv
  obtain ⟨v, hv, hcount⟩ := hv
  have hread := fetchStrategies_by_number threeWorld_reachable hv backwardBot_complete
  rw [hcount] at hread
  exact hread

end RebalanceBot
