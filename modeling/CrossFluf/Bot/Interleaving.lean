import CrossFluf.Bot.Loops
import CrossFluf.Vault.Steps

/-!
# Interleavings of the two loops

A report carries an absolute value that was computed from an earlier read.  It books its yield
exactly when the capital the other loop moved since that read cancels out.
-/

namespace RebalanceBot

open Machine Solana Outcome VaultProgram Run

variable {p : ProgramAddresses} {bot : Bot} {w w' : World} {s s' : State} {t : Env × Loop}
  {env : Env}

/-- The `total_assets` of the vault. -/
def Bot.total (bot : Bot) (w : World) : ℕ :=
  (w.vaults bot.vault).elim 0 fun v ↦ v.totalAssets.toNat

theorem newValue_eq_some {r : Report} {x : U64} (h : r.newValue = some x) :
    x.toNat = r.currentValue.toNat + r.yieldAmount := by
  unfold Report.newValue at h
  split at h
  · rename_i hlt
    rw [← Option.some_inj.mp h, BitVec.toNat_ofNat, Nat.mod_eq_of_lt (by omega)]
  · cases h

/-- The position of a strategy. -/
def position (w : World) (k : Pubkey) : Option U64 := (w.strategies k).map (·.positionValue)

theorem position_self {a : StrategyAccounts} {v v' : Vault} {x x' : Strategy}
    (h : StrategyMoved p w a w' v v' x x') : position w' a.strategy = some x'.positionValue := by
  rw [position, h.world, World.setStrategy_strategies_self, Option.map_some]

theorem position_of_ne {a : StrategyAccounts} {v v' : Vault} {x x' : Strategy} {k : Pubkey}
    (h : StrategyMoved p w a w' v v' x x') (hk : k ≠ a.strategy) :
    position w' k = position w k := by
  rw [position, position, h.world, World.setStrategy_strategies_of_ne _ _ hk,
    World.setVault_strategies]

/-- What a move brings into a strategy. -/
def Move.inflow (k : Pubkey) : Move → ℕ
  | .allocate k' amount => if k' = k then amount.toNat else 0
  | .deallocate _ _ => 0

/-- What a move takes out of a strategy. -/
def Move.outflow (k : Pubkey) : Move → ℕ
  | .allocate _ _ => 0
  | .deallocate k' amount => if k' = k then amount.toNat else 0

theorem mem_fetchStrategies {i : StrategyInfo} (h : i ∈ fetchStrategies bot w) :
    w.strategies i.pubkey = some i.account := by
  have hmem := List.mem_of_mem_filter ((List.perm_insertionSort _ _).mem_iff.mp h)
  obtain ⟨k, -, hk⟩ := List.mem_filterMap.mp hmem
  obtain ⟨s, hs, rfl⟩ := Option.map_eq_some_iff.mp hk
  exact hs

/-- A read returns each strategy once. -/
theorem pairwise_fetchStrategies (bot : Bot) (w : World) :
    (fetchStrategies bot w).Pairwise fun i j ↦ i.pubkey ≠ j.pubkey := by
  have hall : (bot.strategies.filterMap fun k ↦ (w.strategies k).map (StrategyInfo.mk k)).Pairwise
      fun i j ↦ i.pubkey ≠ j.pubkey := by
    refine List.Pairwise.filterMap _ (fun k k' hne i hi j hj ↦ ?_) bot.nodup
    obtain ⟨s, -, rfl⟩ := Option.map_eq_some_iff.mp hi
    obtain ⟨s', -, rfl⟩ := Option.map_eq_some_iff.mp hj
    exact hne
  exact (hall.filter _).perm (List.perm_insertionSort _ _).symm Ne.symm

theorem mem_refreshReports {r : Report} (h : r ∈ refreshReports bot w) :
    position w r.strategy = some r.currentValue := by
  obtain ⟨i, hi, hr⟩ := List.mem_filterMap.mp h
  have hfetched := (List.takeWhile_sublist _).mem hi
  split at hr
  · obtain rfl := Option.some_inj.mp hr
    rw [position, mem_fetchStrategies hfetched, Option.map_some]
  · cases hr

/-- The reports still to send. -/
def State.pending (s : State) : List Report :=
  match s.refresh with
  | .waiting => []
  | .sending rs => rs

def State.hasRead (s : State) : Bool :=
  match s.refresh with
  | .waiting => false
  | .sending _ => true

/-- Every pending report was computed from the present position, less `a k` and plus `d k`, what
was moved in and out of its strategy since. -/
structure Tracked (s : State) (a d : Pubkey → ℕ) : Prop where
  waiting : s.hasRead = false → s.pending = [] ∧ ∀ k, a k = 0 ∧ d k = 0
  once : s.pending.Pairwise fun r r' ↦ r.strategy ≠ r'.strategy
  position : ∀ r ∈ s.pending, ∃ x, RebalanceBot.position s.world r.strategy = some x ∧
    x.toNat + d r.strategy = r.currentValue.toNat + a r.strategy

theorem Tracked.start (w : World) : Tracked (.start w) (fun _ ↦ 0) fun _ ↦ 0 where
  waiting _ := ⟨rfl, fun _ ↦ ⟨rfl, rfl⟩⟩
  once := List.Pairwise.nil
  position _ h := by cases h

end RebalanceBot
