import CrossFluf.Base.Floating
import CrossFluf.Bot.Passes

/-!
# The numbers of the script

The script computes a rebalance in doubles, and `toNumber` and `new BN` refuse `2 ^ 53` and more.
Its sums and quotients are rounded, but the amounts it moves are those of its target exactly.  Where
fifty times the total value is below `2 ^ 53` the target, the decision and the moves are those of
exact integers.
-/

namespace RebalanceBot.Script

open Machine Solana VaultProgram Floating

variable {bot : Bot} {w : World} {v : Vault}

/-! ## A pass -/

/-- A result as a double holds it; the values here stay far from the bounds of its exponent. -/
def double (x : ℚ) : ℚ := round 53 x

/-- `toNumber()`, which throws from `2 ^ 53` on. -/
def toNumber (x : U64) : Option ℚ := if x.toNat < 2 ^ 53 then some x.toNat else none

/-- `new anchor.BN(x)`, which throws from `2 ^ 53` on. -/
def newBN (x : ℚ) : Option U64 := if x < 2 ^ 53 then some (BitVec.ofNat 64 ⌊x⌋₊) else none

structure AllocationTarget where
  strategy : StrategyInfo
  currentValue : ℚ
  targetValue : ℚ
  delta : ℚ

def totalDeployedOf (strategies : List StrategyInfo) : Option ℚ :=
  strategies.foldlM
    (fun sum s ↦ do
      let value ← toNumber s.account.positionValue
      pure (double (sum + value))) 0

def calculateEqualWeightTargets (strategies : List StrategyInfo)
    (totalDeployed idleBalance : ℚ) : Option (List AllocationTarget) :=
  let totalValue := double (totalDeployed + idleBalance)
  let targetPerStrategy : ℚ := ⌊double (totalValue / strategies.length)⌋
  strategies.mapM fun s ↦ do
    let currentValue ← toNumber s.account.positionValue
    pure ⟨s, currentValue, targetPerStrategy, double (targetPerStrategy - currentValue)⟩

def shouldRebalance (targets : List AllocationTarget) (totalValue : ℚ) : Bool :=
  let threshold := double (double (totalValue * REBALANCE_THRESHOLD_BPS) / 10000)
  targets.any fun t ↦ threshold < |t.delta|

def moveFor (idleBalance : ℚ) (t : AllocationTarget) : Option Move :=
  if 0 < t.delta ∧ 0 < idleBalance then
    (newBN (min t.delta idleBalance)).map (.allocate t.strategy.pubkey)
  else if t.delta < 0 then
    (newBN (min |t.delta| t.currentValue)).map (.deallocate t.strategy.pubkey)
  else none

def movesFrom (vault : Vault) (strategies : List StrategyInfo) : Option (List Move) :=
  if strategies.isEmpty then some []
  else do
    let totalDeployed ← totalDeployedOf strategies
    let idleBalance ← toNumber vault.idleAssets
    let targets ← calculateEqualWeightTargets strategies totalDeployed idleBalance
    if shouldRebalance targets (double (totalDeployed + idleBalance)) then
      pure (targets.filterMap (moveFor idleBalance))
    else pure []

/-- The moves of a pass.  What `toNumber` throws is caught before the first of them. -/
def rebalanceMoves (bot : Bot) (w : World) : List Move :=
  match w.vaults bot.vault with
  | none => []
  | some vault => (movesFrom vault (fetchStrategies bot w)).getD []

/-- What one pass of the script sends from `w`, whenever each of its transactions is made. -/
def IsPass (bot : Bot) (w : World) (es : List (Env × Move)) : Prop :=
  es.map Prod.snd = rebalanceMoves bot w

instance (bot : Bot) (w : World) (es : List (Env × Move)) : Decidable (IsPass bot w es) :=
  inferInstanceAs (Decidable (_ = _))

/-! ## Its figures -/

/-- `toNumber` returns every amount the pass reads. -/
structure Readable (bot : Bot) (w : World) : Prop where
  idle : idleBalance bot w < 2 ^ 53
  positions : ∀ i ∈ fetchStrategies bot w, i.account.positionValue.toNat < 2 ^ 53

/-- The positions added up one by one. -/
def totalDeployed (bot : Bot) (w : World) : ℚ :=
  (fetchStrategies bot w).foldl (fun sum i ↦ double (sum + i.account.positionValue.toNat)) 0

def totalValue (bot : Bot) (w : World) : ℚ := double (totalDeployed bot w + idleBalance bot w)

def targetPerStrategy (bot : Bot) (w : World) : ℕ :=
  ⌊double (totalValue bot w / (fetchStrategies bot w).length)⌋₊

/-- Half a percent of the total value. -/
def threshold (bot : Bot) (w : World) : ℚ :=
  double (double (totalValue bot w * REBALANCE_THRESHOLD_BPS) / 10000)

def delta (bot : Bot) (w : World) (i : StrategyInfo) : ℚ :=
  double (targetPerStrategy bot w - i.account.positionValue.toNat)

/-- The pass gets to its moves: nothing it reads throws, and some strategy is further than the
threshold from its target. -/
structure NeedsRebalance (bot : Bot) (w : World) : Prop where
  readable : Readable bot w
  exceeds : ∃ i ∈ fetchStrategies bot w, threshold bot w < |delta bot w i|

/-! ## What is read -/

section Read

variable {l : List StrategyInfo}

theorem toNumber_of_lt {x : U64} (h : x.toNat < 2 ^ 53) : toNumber x = some (x.toNat : ℚ) :=
  if_pos h

theorem toNumber_eq_some {x : U64} {r : ℚ} (h : toNumber x = some r) : x.toNat < 2 ^ 53 := by
  rw [toNumber] at h
  split at h
  · assumption
  · cases h

theorem totalDeployedOf_eq (h : ∀ i ∈ l, i.account.positionValue.toNat < 2 ^ 53) :
    totalDeployedOf l =
      some (l.foldl (fun sum i ↦ double (sum + i.account.positionValue.toNat)) 0) := by
  rw [totalDeployedOf]
  generalize (0 : ℚ) = sum
  induction l generalizing sum with
  | nil => rfl
  | cons i l ih =>
    rw [List.forall_mem_cons] at h
    rw [List.foldlM_cons, toNumber_of_lt h.1]
    exact ih h.2 _

theorem totalDeployedOf_eq_some {r : ℚ} (h : totalDeployedOf l = some r) :
    ∀ i ∈ l, i.account.positionValue.toNat < 2 ^ 53 := by
  rw [totalDeployedOf] at h
  generalize (0 : ℚ) = sum at h
  induction l generalizing sum with
  | nil => exact fun i hi ↦ absurd hi List.not_mem_nil
  | cons i l ih =>
    simp only [List.foldlM_cons, Option.bind_eq_bind, Option.bind_eq_some_iff] at h
    obtain ⟨next, ⟨value, hvalue, -⟩, hrest⟩ := h
    exact List.forall_mem_cons.mpr ⟨toNumber_eq_some hvalue, ih next hrest⟩

theorem targets_eq (h : ∀ i ∈ l, i.account.positionValue.toNat < 2 ^ 53) (deployed idle : ℚ) :
    calculateEqualWeightTargets l deployed idle = some (l.map fun i ↦
      let target : ℚ := ⌊double (double (deployed + idle) / l.length)⌋
      ⟨i, i.account.positionValue.toNat, target,
        double (target - i.account.positionValue.toNat)⟩) := by
  rw [calculateEqualWeightTargets]
  dsimp only
  generalize (⌊double (double (deployed + idle) / l.length)⌋ : ℚ) = target
  induction l with
  | nil => rfl
  | cons i l ih =>
    rw [List.forall_mem_cons] at h
    rw [List.mapM_cons, toNumber_of_lt h.1, ih h.2]
    rfl

end Read

/-! ## What is moved -/

theorem double_sub_of_le {m t : ℕ} (h : m ≤ t) :
    double ((t : ℚ) - m) = double ((t - m : ℕ) : ℚ) := by
  rw [Nat.cast_sub h]

/-- Rounding the difference to the target changes no amount: one that is rounded is above all
that is idle. -/
theorem moveFor_eq {i : StrategyInfo} {idle t : ℕ} (hidle : idle < 2 ^ 53)
    (hposition : i.account.positionValue.toNat < 2 ^ 53) :
    moveFor idle ⟨i, i.account.positionValue.toNat, t,
        double ((t : ℚ) - i.account.positionValue.toNat)⟩ =
      RebalanceBot.moveFor idle ⟨i, i.account.positionValue.toNat, t,
        (t : ℤ) - i.account.positionValue.toNat⟩ := by
  have hnew : ∀ n : ℕ, n < 2 ^ 53 → newBN (n : ℚ) = some (BitVec.ofNat 64 n) := by
    intro n hn
    rw [newBN, if_pos (by exact_mod_cast hn), Nat.floor_natCast]
  generalize i.account.positionValue.toNat = position at *
  unfold moveFor RebalanceBot.moveFor
  dsimp only
  rcases Nat.lt_or_ge t position with hover | hshort
  -- above its target, where the difference is exact
  · have hdelta : double ((t : ℚ) - position) = -((position - t : ℕ) : ℚ) := by
      have hexact := round_intCast (p := 53) (n := (t : ℤ) - position) (by
        rw [abs_lt]
        omega)
      push_cast at hexact
      rw [double, hexact, Nat.cast_sub hover.le, neg_sub]
    have hpos : (0 : ℚ) < (position - t : ℕ) := by exact_mod_cast Nat.sub_pos_of_lt hover
    have hmin : min |(-((position - t : ℕ) : ℚ))| (position : ℚ) = (position - t : ℕ) := by
      rw [abs_neg, Nat.abs_cast, ← Nat.cast_min, Nat.min_eq_left (Nat.sub_le _ _)]
    rw [hdelta, if_neg (by rintro ⟨h, -⟩; linarith), if_pos (by linarith), hmin,
      hnew _ (by omega), if_neg (by omega), if_pos (by omega), Option.map_some]
    congr 3
    omega
  · have hmin := min_round_natCast (p := 53) (t - position) hidle
    have hnonneg : ¬ double ((t - position : ℕ) : ℚ) < 0 :=
      not_lt.mpr (round_nonneg 53 (Nat.cast_nonneg _))
    rw [double_sub_of_le hshort, if_neg hnonneg, if_neg (by omega : ¬ (t : ℤ) - position < 0)]
    have hgives : (0 < double ((t - position : ℕ) : ℚ) ∧ (0 : ℚ) < idle) ↔
        0 < min (t - position) idle := by
      rw [← lt_min_iff, double, hmin, Nat.cast_pos]
    by_cases hamount : 0 < min (t - position) idle
    · have hnat : min ((t : ℤ) - position).toNat idle = min (t - position) idle := by omega
      rw [if_pos (hgives.mpr hamount), if_pos (by omega), double, hmin, hnew _ (by omega), hnat,
        Option.map_some]
    · rw [if_neg (mt hgives.mp hamount), if_neg (by omega)]

theorem targetPerStrategy_floor (bot : Bot) (w : World) :
    ((targetPerStrategy bot w : ℕ) : ℚ) =
      ⌊double (totalValue bot w / (fetchStrategies bot w).length)⌋ := by
  have hdeployed : ∀ (l : List StrategyInfo) (sum : ℚ), 0 ≤ sum →
      0 ≤ l.foldl (fun sum i ↦ double (sum + i.account.positionValue.toNat)) sum := by
    intro l
    induction l with
    | nil => exact fun _ h ↦ h
    | cons i l ih => exact fun sum h ↦ ih _ (round_nonneg 53 (by positivity))
  have htotal : 0 ≤ totalValue bot w := by
    apply round_nonneg
    have hsum := hdeployed (fetchStrategies bot w) 0 le_rfl
    rw [totalDeployed]
    positivity
  exact natCast_floor_eq_intCast_floor (round_nonneg 53 (by positivity))

theorem movesFrom_of_readable (hv : w.vaults bot.vault = some v) (hr : Readable bot w) :
    movesFrom v (fetchStrategies bot w) =
      some (if ∃ i ∈ fetchStrategies bot w, threshold bot w < |delta bot w i| then
        movesTo bot w v (targetPerStrategy bot w) else []) := by
  have hidle : idleBalance bot w = v.idleAssets.toNat := by
    rw [idleBalance, hv, Option.elim_some]
  have hsmall : v.idleAssets.toNat < 2 ^ 53 := hidle ▸ hr.idle
  cases hempty : (fetchStrategies bot w).isEmpty with
  | true =>
    have hnil := List.isEmpty_iff.mp hempty
    rw [movesFrom, if_pos hempty, if_neg (by simp [hnil])]
  | false =>
    rw [movesFrom, if_neg (by simp [hempty]), totalDeployedOf_eq hr.positions,
      toNumber_of_lt hsmall]
    simp only [Option.bind_eq_bind, Option.bind_some, targets_eq hr.positions]
    have hshould : ∀ l : List AllocationTarget, shouldRebalance l (totalValue bot w) = true ↔
        ∃ t ∈ l, threshold bot w < |t.delta| := by
      intro l
      rw [shouldRebalance, List.any_eq_true]
      simp only [decide_eq_true_eq, threshold]
    rw [← totalDeployed, ← hidle, ← totalValue, ← targetPerStrategy_floor]
    simp only [hshould, List.mem_map, exists_exists_and_eq_and, List.filterMap_map]
    rw [apply_ite some]
    refine ite_congr rfl (fun _ ↦ congrArg some (List.filterMap_congr fun i hi ↦ ?_)) fun _ ↦ rfl
    rw [hidle]
    exact moveFor_eq hsmall (hr.positions i hi)

theorem readable_of_movesFrom (hv : w.vaults bot.vault = some v) {ms : List Move}
    (h : movesFrom v (fetchStrategies bot w) = some ms) : ms = [] ∨ Readable bot w := by
  rw [movesFrom] at h
  split at h
  · exact Or.inl (Option.some_inj.mp h).symm
  · simp only [Option.bind_eq_bind, Option.bind_eq_some_iff] at h
    obtain ⟨deployed, hdeployed, idle, hidle, -⟩ := h
    refine Or.inr ⟨?_, totalDeployedOf_eq_some hdeployed⟩
    rw [idleBalance, hv]
    exact toNumber_eq_some hidle

/-- The script sends the moves to its target, where it gets to them. -/
theorem rebalanceMoves_eq_movesTo (hv : w.vaults bot.vault = some v)
    (h : NeedsRebalance bot w) :
    rebalanceMoves bot w = movesTo bot w v (targetPerStrategy bot w) := by
  rw [rebalanceMoves, hv]
  dsimp only
  rw [movesFrom_of_readable hv h.readable, if_pos h.exceeds, Option.getD_some]

theorem rebalanceMoves_eq_nil (hv : w.vaults bot.vault = some v) (h : ¬ NeedsRebalance bot w) :
    rebalanceMoves bot w = [] := by
  rw [rebalanceMoves, hv]
  dsimp only
  by_cases hr : Readable bot w
  · rw [movesFrom_of_readable hv hr, if_neg fun hx ↦ h ⟨hr, hx⟩, Option.getD_some]
  · cases hms : movesFrom v (fetchStrategies bot w) with
    | none => rfl
    | some ms => exact (readable_of_movesFrom hv hms).resolve_right hr

/-! ## Exact integers -/

section Exact

variable (h : RebalanceBot.totalValue bot w * REBALANCE_THRESHOLD_BPS < 2 ^ 53)
include h

theorem totalValue_lt : RebalanceBot.totalValue bot w < 2 ^ 53 := by
  rw [REBALANCE_THRESHOLD_BPS] at h
  omega

theorem readable_of_small : Readable bot w where
  idle := lt_of_le_of_lt (Nat.le_add_right _ _) (totalValue_lt h)
  positions := by
    intro i hi
    have hle : i.account.positionValue.toNat ≤
        ((fetchStrategies bot w).map fun i ↦ i.account.positionValue.toNat).sum :=
      List.le_sum_of_mem (List.mem_map_of_mem hi)
    have hlt := totalValue_lt h
    rw [RebalanceBot.totalValue] at hlt
    omega

theorem totalValue_exact : totalValue bot w = RebalanceBot.totalValue bot w := by
  have hsum : ∀ (l : List StrategyInfo) (n : ℕ),
      n + (l.map fun i ↦ i.account.positionValue.toNat).sum < 2 ^ 53 →
        l.foldl (fun sum i ↦ double (sum + i.account.positionValue.toNat)) (n : ℚ) =
          (n + (l.map fun i ↦ i.account.positionValue.toNat).sum : ℕ) := by
    intro l
    induction l with
    | nil => exact fun n _ ↦ rfl
    | cons i l ih =>
      intro n hn
      rw [List.map_cons, List.sum_cons, ← Nat.add_assoc] at hn ⊢
      rw [List.foldl_cons, ← Nat.cast_add, double, round_natCast (by omega)]
      exact ih _ hn
  have hlt := totalValue_lt h
  rw [RebalanceBot.totalValue] at hlt
  have hdeployed := hsum (fetchStrategies bot w) 0 (by omega)
  rw [Nat.cast_zero, Nat.zero_add] at hdeployed
  rw [totalValue, totalDeployed, hdeployed, ← Nat.cast_add, double, round_natCast (by omega),
    RebalanceBot.totalValue, Nat.add_comm]

theorem targetPerStrategy_exact :
    targetPerStrategy bot w = RebalanceBot.targetPerStrategy bot w := by
  rw [targetPerStrategy, RebalanceBot.targetPerStrategy, totalValue_exact h]
  rcases Nat.eq_zero_or_pos (fetchStrategies bot w).length with hz | hpos
  · rw [hz, Nat.div_zero, Nat.cast_zero, div_zero, double]
    exact_mod_cast congrArg Nat.floor (round_natCast (p := 53) (n := 0) (by norm_num))
  · exact floor_round_div hpos (totalValue_lt h)

theorem delta_exact {i : StrategyInfo} (hi : i ∈ fetchStrategies bot w) :
    |delta bot w i| = (((RebalanceBot.targetPerStrategy bot w : ℤ) -
      i.account.positionValue.toNat).natAbs : ℕ) := by
  have htarget : RebalanceBot.targetPerStrategy bot w < 2 ^ 53 :=
    lt_of_le_of_lt (Nat.div_le_self _ _) (totalValue_lt h)
  have hposition := (readable_of_small h).positions i hi
  have hexact := round_intCast (p := 53)
    (n := (RebalanceBot.targetPerStrategy bot w : ℤ) - i.account.positionValue.toNat) (by
      rw [abs_lt]
      omega)
  rw [Nat.cast_natAbs, Int.cast_abs, ← hexact, delta, targetPerStrategy_exact h, double]
  push_cast
  rfl

theorem needsRebalance_exact : NeedsRebalance bot w ↔ RebalanceBot.NeedsRebalance bot w := by
  have hexceeds : ∀ i ∈ fetchStrategies bot w, threshold bot w < |delta bot w i| ↔
      RebalanceBot.totalValue bot w * REBALANCE_THRESHOLD_BPS <
        ((RebalanceBot.targetPerStrategy bot w : ℤ) -
          i.account.positionValue.toNat).natAbs * 10000 := by
    intro i hi
    have hscaled : double (totalValue bot w * REBALANCE_THRESHOLD_BPS) =
        (RebalanceBot.totalValue bot w * REBALANCE_THRESHOLD_BPS : ℕ) := by
      rw [totalValue_exact h, ← Nat.cast_mul, double, round_natCast h]
    have hle := natCast_le_round_div_iff (m := ((RebalanceBot.targetPerStrategy bot w : ℤ) -
      i.account.positionValue.toNat).natAbs) (n := 10000) (by decide) h
    rw [delta_exact h hi, threshold, hscaled, ← not_le, ← not_le]
    exact not_congr hle
  apply Iff.intro
  · intro hneeds
    obtain ⟨-, i, hi, hlt⟩ := hneeds
    exact ⟨i, hi, (hexceeds i hi).mp hlt⟩
  · intro hneeds
    obtain ⟨i, hi, hlt⟩ := hneeds
    exact ⟨readable_of_small h, i, hi, (hexceeds i hi).mpr hlt⟩

theorem rebalanceMoves_exact : rebalanceMoves bot w = RebalanceBot.rebalanceMoves bot w := by
  cases hv : w.vaults bot.vault with
  | none => rw [rebalanceMoves, RebalanceBot.rebalanceMoves, hv]
  | some v =>
    rw [rebalanceMoves_of_vault hv]
    by_cases hneeds : NeedsRebalance bot w
    · rw [rebalanceMoves_eq_movesTo hv hneeds, if_pos ((needsRebalance_exact h).mp hneeds),
        targetPerStrategy_exact h]
    · rw [rebalanceMoves_eq_nil hv hneeds, if_neg (mt (needsRebalance_exact h).mpr hneeds)]

end Exact

end RebalanceBot.Script
