import CrossFluf.Vault.Program
import CrossFluf.Base.Run

/-!
# The loops of the rebalancing bot

One pass of the refresh loop and one of the rebalance loop, each a read of the vault and its
strategies followed by the transactions it computed from that read.  The amounts of a rebalance are
computed here with exact integers.  The script computes them in doubles, which `Bot.Numbers` does
too, and gets the same moves while fifty times the total value is below `2 ^ 53`.
-/

namespace RebalanceBot

open Machine Solana Outcome VaultProgram

def REBALANCE_THRESHOLD_BPS : ℕ := 50

structure StrategyInfo where
  pubkey : Pubkey
  account : Strategy
  deriving DecidableEq

/-- The vault, its manager, the strategy accounts on the chain, and the yields to report. -/
structure Bot where
  manager : Pubkey
  vault : Pubkey
  strategies : List Pubkey
  nodup : strategies.Nodup
  yieldAmount : StrategyInfo → ℕ

variable (p : ProgramAddresses) (bot : Bot)

def fetchStrategies (w : World) : List StrategyInfo :=
  let all := bot.strategies.filterMap fun k ↦ (w.strategies k).map (⟨k, ·⟩)
  let active := all.filter fun s ↦ s.account.vault = bot.vault && s.account.isActive
  active.insertionSort fun s t ↦ s.account.index.toNat ≤ t.account.index.toNat

/-! ## The rebalance loop -/

structure AllocationTarget where
  strategy : StrategyInfo
  currentValue : ℕ
  targetValue : ℕ
  delta : ℤ

def calculateEqualWeightTargets (strategies : List StrategyInfo)
    (totalDeployed idleBalance : ℕ) : List AllocationTarget :=
  let totalValue := totalDeployed + idleBalance
  let targetPerStrategy := totalValue / strategies.length
  strategies.map fun s ↦
    let currentValue := s.account.positionValue.toNat
    ⟨s, currentValue, targetPerStrategy, targetPerStrategy - currentValue⟩

def shouldRebalance (targets : List AllocationTarget) (totalValue : ℕ) : Bool :=
  targets.any fun t ↦ totalValue * REBALANCE_THRESHOLD_BPS < t.delta.natAbs * 10000

/-- A transaction of the rebalance loop. -/
inductive Move
  | allocate (strategy : Pubkey) (amount : U64)
  | deallocate (strategy : Pubkey) (amount : U64)
  deriving DecidableEq

def moveFor (idleBalance : ℕ) (t : AllocationTarget) : Option Move :=
  if 0 < t.delta ∧ 0 < idleBalance then
    some (.allocate t.strategy.pubkey (BitVec.ofNat 64 (min t.delta.toNat idleBalance)))
  else if t.delta < 0 then
    some (.deallocate t.strategy.pubkey (BitVec.ofNat 64 (min t.delta.natAbs t.currentValue)))
  else none

/-- The moves for a vault and its strategies, which two different reads have returned. -/
def movesFrom (vault : Vault) (strategies : List StrategyInfo) : List Move :=
  let totalDeployed := (strategies.map fun s ↦ s.account.positionValue.toNat).sum
  let idleBalance := vault.idleAssets.toNat
  let targets := calculateEqualWeightTargets strategies totalDeployed idleBalance
  if strategies.isEmpty || !shouldRebalance targets (totalDeployed + idleBalance) then []
  else targets.filterMap (moveFor idleBalance)

/-- The moves of a pass, where one read of both returned what is there. -/
def rebalanceMoves (w : World) : List Move :=
  match w.vaults bot.vault with
  | none => []
  | some vault => movesFrom vault (fetchStrategies bot w)

def Move.instruction : Move → Instruction
  | .allocate k amount => .allocate ⟨bot.manager, bot.vault, k⟩ amount
  | .deallocate k amount => .deallocate ⟨bot.manager, bot.vault, k⟩ amount

/-! ## The refresh loop -/

/-- A transaction of the refresh loop: the position it read and the yield on it. -/
structure Report where
  strategy : Pubkey
  currentValue : U64
  yieldAmount : ℕ
  positive : 0 < yieldAmount

/-- The loop ends at the first position `toNumber` cannot return. -/
def refreshReports (w : World) : List Report :=
  let readable := (fetchStrategies bot w).takeWhile fun s ↦ s.account.positionValue.toNat < 2 ^ 53
  readable.filterMap fun s ↦
    if h : 0 < bot.yieldAmount s then
      some ⟨s.pubkey, s.account.positionValue, bot.yieldAmount s, h⟩
    else none

/-- `new anchor.BN(newValue)`, which refuses numbers from `2 ^ 53` on. -/
def Report.newValue (r : Report) : Option U64 :=
  if r.currentValue.toNat + r.yieldAmount < 2 ^ 53 then
    some (BitVec.ofNat 64 (r.currentValue.toNat + r.yieldAmount))
  else none

/-! ## Both loops at once -/

def Move.send (env : Env) (w : World) (m : Move) : VaultResult World :=
  exec p w (env, m.instruction bot)

def Report.send (env : Env) (w : World) (r : Report) : VaultResult World := do
  let newValue ← orElse r.newValue .invalidInstructionData
  exec p w (env, .reportYield ⟨bot.manager, bot.vault, r.strategy⟩ newValue)

/-- A pass of a loop, before its read and after it. -/
inductive Pass (α : Type)
  | waiting
  | sending (todo : List α)

structure State where
  world : World
  refresh : Pass Report
  rebalance : Pass Move

def State.start (w : World) : State := ⟨w, .waiting, .waiting⟩

inductive Loop
  | refresh
  | rebalance
  deriving DecidableEq

/-- The report a turn sends. -/
def State.report (s : State) (t : Env × Loop) : Option Report :=
  match t.2, s.refresh with
  | .refresh, .sending (r :: _) => some r
  | _, _ => none

/-- The move a turn sends. -/
def State.move (s : State) (t : Env × Loop) : Option Move :=
  match t.2, s.rebalance with
  | .rebalance, .sending (m :: _) => some m
  | _, _ => none

end RebalanceBot
