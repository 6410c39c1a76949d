import CrossFluf.Base.Levelling
import CrossFluf.Bot.Interleaving
import CrossFluf.Vault.Numbering

/-!
# The rebalance loop as a levelling pass

With the bot as the manager of its vault, the idle assets and the positions are a fund, a move is
a transfer of it, and the vault refuses a move exactly where the fund refuses the transfer.  What
one pass of the loop sends is a levelling pass over the active strategies in the order it fetched
them.
-/

namespace RebalanceBot

open Machine Solana Outcome VaultProgram Run Levelling

variable {p : ProgramAddresses} {bot : Bot} {w w' : World} {env : Env} {v : Vault} {s s' : Strategy}
  {k : Pubkey} {es : List (Env × Move)}

/-! ## Passes -/

/-- A transaction of the loop, with the environment it is made in. -/
def sendMove (p : ProgramAddresses) (bot : Bot) (w : World) (e : Env × Move) : VaultResult World :=
  e.2.send p bot e.1 w

/-- What one pass sends from `w`, whenever each of its transactions is made. -/
def IsPass (bot : Bot) (w : World) (es : List (Env × Move)) : Prop :=
  es.map Prod.snd = rebalanceMoves bot w

instance (bot : Bot) (w : World) (es : List (Env × Move)) : Decidable (IsPass bot w es) :=
  inferInstanceAs (Decidable (_ = _))

/-- The key of the bot signs for the manager of the vault. -/
structure Manages (p : ProgramAddresses) (bot : Bot) (w : World) : Prop where
  signer : p.isDerived bot.manager = false
  vault : ∃ v, w.vaults bot.vault = some v ∧ v.manager = bot.manager

def idleBalance (bot : Bot) (w : World) : ℕ :=
  (w.vaults bot.vault).elim 0 fun v ↦ v.idleAssets.toNat

/-- The idle assets and the positions of the active strategies. -/
def totalValue (bot : Bot) (w : World) : ℕ :=
  idleBalance bot w + ((fetchStrategies bot w).map fun i ↦ i.account.positionValue.toNat).sum

def targetPerStrategy (bot : Bot) (w : World) : ℕ :=
  totalValue bot w / (fetchStrategies bot w).length

/-- Some active strategy is further than the threshold from its target. -/
def NeedsRebalance (bot : Bot) (w : World) : Prop :=
  ∃ i ∈ fetchStrategies bot w, totalValue bot w * REBALANCE_THRESHOLD_BPS <
    ((targetPerStrategy bot w : ℤ) - i.account.positionValue.toNat).natAbs * 10000

/-! ## The fund -/

def fundOf (bot : Bot) (w : World) : Fund Pubkey where
  pot := idleBalance bot w
  share k := (w.strategies k).elim 0 fun s ↦ s.positionValue.toNat
  given k := (w.strategies k).elim 0 fun s ↦ s.allocated.toNat

def Move.transfer : Move → Transfer Pubkey
  | .allocate k amount => .give k amount.toNat
  | .deallocate k amount => .take k amount.toNat

/-- The active strategies in the order the loop goes through them. -/
def activeKeys (bot : Bot) (w : World) : List Pubkey :=
  (fetchStrategies bot w).map StrategyInfo.pubkey

def active (bot : Bot) (w : World) : Finset Pubkey := (activeKeys bot w).toFinset

theorem fundOf_pot (h : w.vaults bot.vault = some v) :
    (fundOf bot w).pot = v.idleAssets.toNat := by
  rw [fundOf, idleBalance, h, Option.elim_some]

theorem fundOf_share (h : w.strategies k = some s) :
    (fundOf bot w).share k = s.positionValue.toNat := by
  simp only [fundOf, h, Option.elim_some]

theorem fundOf_given (h : w.strategies k = some s) :
    (fundOf bot w).given k = s.allocated.toNat := by
  simp only [fundOf, h, Option.elim_some]

theorem elim_setStrategy (x : Strategy → ℕ) (w : World) (k : Pubkey) (s : Strategy) :
    (fun j ↦ ((w.setStrategy k s).strategies j).elim 0 x) =
      Function.update (fun j ↦ (w.strategies j).elim 0 x) k (x s) := by
  funext j
  by_cases hj : j = k
  · subst hj
    rw [World.setStrategy_strategies_self, Option.elim_some, Function.update_self]
  · rw [World.setStrategy_strategies_of_ne _ _ hj, Function.update_of_ne hj]

theorem fundOf_set (bot : Bot) (w : World) (v : Vault) (k : Pubkey) (s : Strategy) :
    fundOf bot ((w.setVault bot.vault v).setStrategy k s) = {
      pot := v.idleAssets.toNat
      share := Function.update (fundOf bot w).share k s.positionValue.toNat
      given := Function.update (fundOf bot w).given k s.allocated.toNat } :=
  Fund.ext (fundOf_pot (World.setVault_vaults_self _ _ _))
    (elim_setStrategy (·.positionValue.toNat) (w.setVault bot.vault v) k s)
    (elim_setStrategy (·.allocated.toNat) (w.setVault bot.vault v) k s)

/-! ## The active strategies -/

theorem mem_fetchStrategies_iff {i : StrategyInfo} :
    i ∈ fetchStrategies bot w ↔ i.pubkey ∈ bot.strategies ∧
      w.strategies i.pubkey = some i.account ∧ i.account.vault = bot.vault ∧
        i.account.isActive = true := by
  rw [fetchStrategies, (List.perm_insertionSort _ _).mem_iff, List.mem_filter, List.mem_filterMap,
    Bool.and_eq_true, decide_eq_true_eq]
  apply Iff.intro
  · intro h
    obtain ⟨⟨k, hk, hi⟩, hvault, hactive⟩ := h
    obtain ⟨s, hs, rfl⟩ := Option.map_eq_some_iff.mp hi
    exact ⟨hk, hs, hvault, hactive⟩
  · intro h
    obtain ⟨hk, hs, hvault, hactive⟩ := h
    exact ⟨⟨i.pubkey, hk, by rw [hs, Option.map_some]⟩, hvault, hactive⟩

theorem mem_active : k ∈ active bot w ↔ ∃ s, k ∈ bot.strategies ∧ w.strategies k = some s ∧
    s.vault = bot.vault ∧ s.isActive = true := by
  rw [active, List.mem_toFinset, activeKeys, List.mem_map]
  apply Iff.intro
  · intro h
    obtain ⟨i, hi, rfl⟩ := h
    exact ⟨i.account, mem_fetchStrategies_iff.mp hi⟩
  · intro h
    obtain ⟨s, hs⟩ := h
    exact ⟨⟨k, s⟩, mem_fetchStrategies_iff.mpr hs, rfl⟩

theorem mem_active_of_fetched {i : StrategyInfo} (h : i ∈ fetchStrategies bot w) :
    i.pubkey ∈ active bot w := List.mem_toFinset.mpr (List.mem_map_of_mem h)

theorem active_set (hs : w.strategies k = some s) (hvault : s'.vault = s.vault)
    (hactive : s'.isActive = s.isActive) (b : Pubkey) (v : Vault) :
    active bot ((w.setVault b v).setStrategy k s') = active bot w := by
  ext j
  rw [mem_active, mem_active]
  by_cases hj : j = k
  · subst hj
    rw [World.setStrategy_strategies_self, hs]
    simp only [Option.some_inj, exists_and_left, exists_eq_left', hvault, hactive]
  · rw [World.setStrategy_strategies_of_ne _ _ hj, World.setVault_strategies]

theorem enumerates_active (bot : Bot) (w : World) :
    Enumerates (activeKeys bot w) (active bot w) where
  nodup := List.pairwise_map.mpr (pairwise_fetchStrategies bot w)
  mem _ := List.mem_toFinset.symm

theorem totalValue_eq (bot : Bot) (w : World) :
    totalValue bot w = (fundOf bot w).value (active bot w) := by
  rw [totalValue, Fund.value, ← (enumerates_active bot w).sum_map, activeKeys, List.map_map]
  refine congrArg (_ + ·) (congrArg List.sum (List.map_congr_left fun i hi ↦ ?_))
  exact (fundOf_share (mem_fetchStrategies hi)).symm

theorem length_fetchStrategies (bot : Bot) (w : World) :
    (fetchStrategies bot w).length = (active bot w).card := by
  rw [← (enumerates_active bot w).length, activeKeys, List.length_map]

theorem targetPerStrategy_eq (bot : Bot) (w : World) :
    targetPerStrategy bot w = (fundOf bot w).target (active bot w) := by
  rw [targetPerStrategy, Fund.target, totalValue_eq, length_fetchStrategies]

theorem targetPerStrategy_congr (hactive : active bot w' = active bot w)
    (hvalue : totalValue bot w' = totalValue bot w) :
    targetPerStrategy bot w' = targetPerStrategy bot w := by
  rw [targetPerStrategy, hvalue, length_fetchStrategies, hactive, ← length_fetchStrategies,
    targetPerStrategy]

/-! ## Moves and transfers -/

/-- The manager acts on an active strategy of the vault. -/
structure Acts (p : ProgramAddresses) (w : World) (a : StrategyAccounts) (v : Vault)
    (s : Strategy) : Prop where
  signer : p.isDerived a.authority = false
  vault : w.vaults a.vault = some v
  strategy : w.strategies a.strategy = some s
  ofVault : s.vault = a.vault
  isActive : s.isActive = true
  manager : a.authority = v.manager

variable {a : StrategyAccounts} {amount : U64}

theorem Acts.allocate_eq_ok (h : Acts p w a v s) :
    allocate p env w a amount = .ok w' ↔ ∃ idle positionValue allocated : U64,
      0 < amount.toNat ∧ v.idleAssets.toNat = amount.toNat + idle.toNat ∧
        positionValue.toNat = s.positionValue.toNat + amount.toNat ∧
          allocated.toNat = s.allocated.toNat + amount.toNat ∧
            (w.setVault a.vault { v with idleAssets := idle }).setStrategy a.strategy
              { s with
                positionValue := positionValue
                allocated := allocated
                lastUpdateTs := env.now } = w' := by
  have hload := loadStrategy_eq_ok.mpr ⟨h.vault, h.strategy, h.ofVault⟩
  simp only [allocate, requireSigner, require_of h.signer, hload, require_of h.isActive,
    require_of h.manager, ok_bind, bind_eq_ok, require_eq_ok, unwrap_eq_ok, checkedAdd_eq_some,
    checkedSub_eq_some, pure_eq_ok, exists_const]
  apply Iff.intro
  · intro hcall
    obtain ⟨hpos, -, idle, hidle, position, hposition, allocated, hallocated, hw⟩ := hcall
    exact ⟨idle, position, allocated, hpos, hidle, hposition, hallocated, hw⟩
  · intro hfields
    obtain ⟨idle, position, allocated, hpos, hidle, hposition, hallocated, hw⟩ := hfields
    exact ⟨hpos, by omega, idle, hidle, position, hposition, allocated, hallocated, hw⟩

theorem Acts.deallocate_eq_ok (h : Acts p w a v s) :
    deallocate p env w a amount = .ok w' ↔ ∃ idle positionValue : U64,
      0 < amount.toNat ∧ s.positionValue.toNat = amount.toNat + positionValue.toNat ∧
        idle.toNat = v.idleAssets.toNat + amount.toNat ∧
          (w.setVault a.vault { v with idleAssets := idle }).setStrategy a.strategy
            { s with positionValue := positionValue, lastUpdateTs := env.now } = w' := by
  have hload := loadStrategy_eq_ok.mpr ⟨h.vault, h.strategy, h.ofVault⟩
  simp only [deallocate, requireSigner, require_of h.signer, hload, require_of h.isActive,
    require_of h.manager, ok_bind, bind_eq_ok, require_eq_ok, unwrap_eq_ok, checkedAdd_eq_some,
    checkedSub_eq_some, pure_eq_ok, exists_const]
  apply Iff.intro
  · intro hcall
    obtain ⟨hpos, -, position, hposition, idle, hidle, hw⟩ := hcall
    exact ⟨idle, position, hpos, hposition, hidle, hw⟩
  · intro hfields
    obtain ⟨idle, position, hpos, hposition, hidle, hw⟩ := hfields
    exact ⟨hpos, by omega, position, hposition, idle, hidle, hw⟩

theorem Manages.acts (hm : Manages p bot w) (hk : k ∈ active bot w) :
    ∃ v s, Acts p w ⟨bot.manager, bot.vault, k⟩ v s := by
  obtain ⟨v, hv, hmanager⟩ := hm.vault
  obtain ⟨s, -, hs, hvault, hactive⟩ := mem_active.mp hk
  exact ⟨v, s, hm.signer, hv, hs, hvault, hactive, hmanager.symm⟩

theorem Acts.fund (h : Acts p w ⟨bot.manager, bot.vault, k⟩ v s) :
    (fundOf bot w).pot = v.idleAssets.toNat ∧
      (fundOf bot w).share k = s.positionValue.toNat ∧
        (fundOf bot w).given k = s.allocated.toNat :=
  ⟨fundOf_pot h.vault, fundOf_share h.strategy, fundOf_given h.strategy⟩

/-- Writing back the accounts the manager acts on leaves the bot in charge of the same
strategies. -/
theorem Acts.kept {s' : Strategy} {idle : U64} (h : Acts p w ⟨bot.manager, bot.vault, k⟩ v s)
    (hw : (w.setVault bot.vault { v with idleAssets := idle }).setStrategy k s' = w')
    (hvault : s'.vault = s.vault) (hactive : s'.isActive = s.isActive) :
    Manages p bot w' ∧ active bot w' = active bot w := by
  subst hw
  refine ⟨⟨h.signer, { v with idleAssets := idle }, ?_, h.manager.symm⟩, ?_⟩
  · rw [World.setStrategy_vaults, World.setVault_vaults_self]
  · exact active_set h.strategy hvault hactive _ _

theorem sendMove_ok {e : Env × Move} (hm : Manages p bot w)
    (hk : e.2.transfer.place ∈ active bot w) (h : sendMove p bot w e = .ok w') :
    (Manages p bot w' ∧ active bot w' = active bot w) ∧
      Levelling.exec (2 ^ 64) (fundOf bot w) e.2.transfer = .ok (fundOf bot w') := by
  obtain ⟨env, m⟩ := e
  cases m with
  | allocate k amount =>
    obtain ⟨v, s, ha⟩ := hm.acts (k := k) hk
    obtain ⟨hpot, hshare, hgiven⟩ := ha.fund
    obtain ⟨idle, position, allocated, hpos, hidle, hposition, hallocated, hw⟩ :=
      ha.allocate_eq_ok.mp h
    refine ⟨ha.kept hw rfl rfl, exec_eq_ok.mpr ⟨⟨hpos, ?_, ?_, ?_⟩, ?_⟩⟩
    · omega
    · have hlt := position.isLt
      show (fundOf bot w).share k + _ < _
      omega
    · have hlt := allocated.isLt
      show (fundOf bot w).given k + _ < _
      omega
    · rw [← hw, fundOf_set, hposition, hallocated, ← hshare, ← hgiven]
      refine Fund.ext ?_ rfl rfl
      show (fundOf bot w).pot - amount.toNat = idle.toNat
      omega
  | deallocate k amount =>
    obtain ⟨v, s, ha⟩ := hm.acts (k := k) hk
    obtain ⟨hpot, hshare, hgiven⟩ := ha.fund
    obtain ⟨idle, position, hpos, hposition, hidle, hw⟩ := ha.deallocate_eq_ok.mp h
    refine ⟨ha.kept hw rfl rfl, exec_eq_ok.mpr ⟨⟨hpos, ?_, ?_⟩, ?_⟩⟩
    · show _ ≤ (fundOf bot w).share k
      omega
    · have hlt := idle.isLt
      omega
    · rw [← hw, fundOf_set]
      refine Fund.ext ?_ ?_ ?_
      · show (fundOf bot w).pot + amount.toNat = idle.toNat
        omega
      · refine congrArg (Function.update _ k) ?_
        show (fundOf bot w).share k - amount.toNat = position.toNat
        omega
      -- the counter of what was allocated is not taken back
      · rw [← hgiven]
        exact (Function.update_eq_self k _).symm

theorem exists_toNat_eq {n : ℕ} (h : n < 2 ^ 64) : ∃ x : U64, x.toNat = n :=
  ⟨BitVec.ofNat 64 n, by rw [BitVec.toNat_ofNat, Nat.mod_eq_of_lt h]⟩

theorem sendMove_of_accepted {e : Env × Move} (hm : Manages p bot w)
    (hk : e.2.transfer.place ∈ active bot w)
    (hacc : e.2.transfer.Accepted (2 ^ 64) (fundOf bot w)) : ∃ w', sendMove p bot w e = .ok w' := by
  obtain ⟨env, m⟩ := e
  cases m with
  | allocate k amount =>
    obtain ⟨v, s, ha⟩ := hm.acts (k := k) hk
    obtain ⟨hpot, hshare, hgiven⟩ := ha.fund
    obtain ⟨hpos, hidle, hposition, hallocated⟩ := hacc
    have hlt := v.idleAssets.isLt
    obtain ⟨idle, hi⟩ := exists_toNat_eq (show v.idleAssets.toNat - amount.toNat < 2 ^ 64 by omega)
    obtain ⟨position, hp⟩ := exists_toNat_eq hposition
    obtain ⟨allocated, hc⟩ := exists_toNat_eq hallocated
    exact ⟨_, ha.allocate_eq_ok.mpr ⟨idle, position, allocated, hpos, by omega,
      hp.trans (congrArg (· + _) hshare), hc.trans (congrArg (· + _) hgiven), rfl⟩⟩
  | deallocate k amount =>
    obtain ⟨v, s, ha⟩ := hm.acts (k := k) hk
    obtain ⟨hpot, hshare, hgiven⟩ := ha.fund
    obtain ⟨hpos, hposition, hidle⟩ := hacc
    have hle : amount.toNat ≤ s.positionValue.toNat := hshare ▸ hposition
    have hlt := s.positionValue.isLt
    obtain ⟨idle, hi⟩ := exists_toNat_eq hidle
    obtain ⟨position, hp⟩ :=
      exists_toNat_eq (show s.positionValue.toNat - amount.toNat < 2 ^ 64 by omega)
    exact ⟨_, ha.deallocate_eq_ok.mpr ⟨idle, position, hpos, by omega, by omega, rfl⟩⟩

/-- The vault accepts and refuses the moves at active strategies as the fund does. -/
theorem sendMove_simulates (p : ProgramAddresses) (bot : Bot) (S : Finset Pubkey) :
    Simulates (sendMove p bot) (Levelling.exec (2 ^ 64))
      (fun w ↦ Manages p bot w ∧ active bot w = S) (fun e ↦ e.2.transfer.place ∈ S) (fundOf bot)
      (fun e ↦ e.2.transfer) where
  ok w e w' hw he h := by
    obtain ⟨hm, rfl⟩ := hw
    exact sendMove_ok hm he h
  error w e err hw he h := by
    obtain ⟨hm, rfl⟩ := hw
    refine ⟨(), exec_of_not_accepted fun hacc ↦ ?_⟩
    obtain ⟨w', hw'⟩ := sendMove_of_accepted hm he hacc
    rw [h] at hw'
    cases hw'

/-! ## What a pass sends -/

theorem moveFor_eq {i : StrategyInfo} (hv : w.vaults bot.vault = some v)
    (hi : w.strategies i.pubkey = some i.account) (t : ℕ) :
    (moveFor v.idleAssets.toNat ⟨i, i.account.positionValue.toNat, t,
      (t : ℤ) - i.account.positionValue.toNat⟩).map Move.transfer =
        moveAt t (fundOf bot w) i.pubkey := by
  have hpot := fundOf_pot hv
  have hshare : (fundOf bot w).share i.pubkey = i.account.positionValue.toNat := fundOf_share hi
  have hidle := v.idleAssets.isLt
  have hposition := i.account.positionValue.isLt
  have hlacks : (fundOf bot w).lacks t i.pubkey =
      min (t - i.account.positionValue.toNat) v.idleAssets.toNat := by
    rw [Fund.lacks, hpot, hshare]
  have hexceeds : (fundOf bot w).exceeds t i.pubkey = i.account.positionValue.toNat - t := by
    rw [Fund.exceeds, hshare]
  unfold moveFor moveAt
  rw [hlacks, hexceeds]
  dsimp only
  by_cases hshort : i.account.positionValue.toNat < t ∧ 0 < v.idleAssets.toNat
  · have hamount : min ((t : ℤ) - i.account.positionValue.toNat).toNat v.idleAssets.toNat =
        min (t - i.account.positionValue.toNat) v.idleAssets.toNat := by omega
    rw [if_pos (by omega), if_pos (by omega), Option.map_some, Move.transfer, hamount,
      BitVec.toNat_ofNat, Nat.mod_eq_of_lt (by omega)]
  · have hnone : ¬ (0 < (t : ℤ) - i.account.positionValue.toNat ∧ 0 < v.idleAssets.toNat) := by
      omega
    have hlack : ¬ 0 < min (t - i.account.positionValue.toNat) v.idleAssets.toNat := by omega
    rw [if_neg hnone, if_neg hlack]
    by_cases hover : t < i.account.positionValue.toNat
    · have hamount : min ((t : ℤ) - i.account.positionValue.toNat).natAbs
          i.account.positionValue.toNat = i.account.positionValue.toNat - t := by omega
      rw [if_pos (by omega), if_pos (by omega), Option.map_some, Move.transfer, hamount,
        BitVec.toNat_ofNat, Nat.mod_eq_of_lt (by omega)]
    · have hdelta : ¬ (t : ℤ) - i.account.positionValue.toNat < 0 := by omega
      rw [if_neg hdelta, if_neg (by omega), Option.map_none]

/-- The moves of a pass that levels to `t`. -/
def movesTo (bot : Bot) (w : World) (v : Vault) (t : ℕ) : List Move :=
  (fetchStrategies bot w).filterMap fun i ↦
    moveFor v.idleAssets.toNat ⟨i, i.account.positionValue.toNat, t,
      (t : ℤ) - i.account.positionValue.toNat⟩

theorem map_transfer_movesTo (hv : w.vaults bot.vault = some v) (t : ℕ) :
    (movesTo bot w v t).map Move.transfer = moves t (fundOf bot w) (activeKeys bot w) := by
  rw [movesTo, List.map_filterMap, moves, activeKeys, List.filterMap_map]
  exact List.filterMap_congr fun i hi ↦ moveFor_eq hv (mem_fetchStrategies hi) t

theorem totalValue_of_vault (hv : w.vaults bot.vault = some v) :
    totalValue bot w = ((fetchStrategies bot w).map fun i ↦ i.account.positionValue.toNat).sum +
      v.idleAssets.toNat := by
  rw [totalValue, idleBalance, hv, Option.elim_some, Nat.add_comm]

theorem shouldRebalance_iff (hv : w.vaults bot.vault = some v) :
    shouldRebalance (calculateEqualWeightTargets (fetchStrategies bot w)
        ((fetchStrategies bot w).map fun i ↦ i.account.positionValue.toNat).sum
        v.idleAssets.toNat)
      (((fetchStrategies bot w).map fun i ↦ i.account.positionValue.toNat).sum +
        v.idleAssets.toNat) = true ↔ NeedsRebalance bot w := by
  rw [shouldRebalance, calculateEqualWeightTargets, List.any_map, List.any_eq_true,
    ← totalValue_of_vault hv, ← targetPerStrategy, NeedsRebalance]
  simp only [Function.comp_apply, decide_eq_true_eq]

/-- The loop goes on exactly when the fund is uneven. -/
theorem needsRebalance_iff : NeedsRebalance bot w ↔
    (fundOf bot w).Uneven REBALANCE_THRESHOLD_BPS 10000 (active bot w) := by
  rw [NeedsRebalance, Fund.Uneven, ← totalValue_eq, ← targetPerStrategy_eq]
  apply Iff.intro
  · intro hneeds
    obtain ⟨i, hi, hlt⟩ := hneeds
    refine ⟨i.pubkey, mem_active_of_fetched hi, ?_⟩
    rw [fundOf_share (mem_fetchStrategies hi)]
    exact hlt
  · intro huneven
    obtain ⟨k, hk, hlt⟩ := huneven
    obtain ⟨i, hi, rfl⟩ := List.mem_map.mp (List.mem_toFinset.mp hk)
    rw [fundOf_share (mem_fetchStrategies hi)] at hlt
    exact ⟨i, hi, hlt⟩

instance (bot : Bot) (w : World) : Decidable (NeedsRebalance bot w) :=
  inferInstanceAs (Decidable (∃ i ∈ fetchStrategies bot w, _))

theorem rebalanceMoves_of_vault (hv : w.vaults bot.vault = some v) :
    rebalanceMoves bot w =
      if NeedsRebalance bot w then movesTo bot w v (targetPerStrategy bot w) else [] := by
  rw [rebalanceMoves, hv]
  dsimp only
  rw [movesFrom]
  by_cases hneeds : NeedsRebalance bot w
  · have hne : (fetchStrategies bot w).isEmpty = false := by
      obtain ⟨i, hi, -⟩ := hneeds
      exact List.isEmpty_eq_false_iff_exists_mem.mpr ⟨i, hi⟩
    rw [hne, (shouldRebalance_iff hv).mpr hneeds, if_neg (by decide), if_pos hneeds,
      calculateEqualWeightTargets, List.filterMap_map, ← totalValue_of_vault hv,
      ← targetPerStrategy]
    rfl
  · have hshould := mt (shouldRebalance_iff hv).mp hneeds
    rw [Bool.not_eq_true] at hshould
    rw [hshould, Bool.not_false, Bool.or_true, if_pos rfl, if_neg hneeds]

/-- A pass of the loop is a levelling pass over the active strategies. -/
theorem map_transfer_rebalanceMoves (hm : Manages p bot w) :
    (rebalanceMoves bot w).map Move.transfer =
      pass REBALANCE_THRESHOLD_BPS 10000 (active bot w) (fundOf bot w) (activeKeys bot w) := by
  obtain ⟨v, hv, -⟩ := hm.vault
  rw [rebalanceMoves_of_vault hv]
  by_cases hneeds : NeedsRebalance bot w
  · rw [if_pos hneeds, map_transfer_movesTo hv, targetPerStrategy_eq,
      pass_of_uneven (needsRebalance_iff.mp hneeds)]
  · rw [if_neg hneeds, pass_of_even (mt needsRebalance_iff.mpr hneeds), List.map_nil]

theorem rebalanceMoves_eq_nil (hm : Manages p bot w) (h : ¬ NeedsRebalance bot w) :
    rebalanceMoves bot w = [] := by
  have hnil := map_transfer_rebalanceMoves hm
  rw [pass_of_even (mt needsRebalance_iff.mpr h)] at hnil
  exact List.map_eq_nil_iff.mp hnil

/-! ## Running a pass -/

theorem IsPass.map_transfer (h : IsPass bot w es) (hm : Manages p bot w) :
    es.map (fun e ↦ e.2.transfer) =
      pass REBALANCE_THRESHOLD_BPS 10000 (active bot w) (fundOf bot w) (activeKeys bot w) := by
  rw [← map_transfer_rebalanceMoves hm, ← h, List.map_map]
  rfl

theorem IsPass.place_mem (h : IsPass bot w es) (hm : Manages p bot w) :
    ∀ e ∈ es, e.2.transfer.place ∈ active bot w := by
  intro e he
  have hmem : e.2.transfer ∈ es.map (fun e ↦ e.2.transfer) := List.mem_map_of_mem he
  rw [h.map_transfer hm] at hmem
  exact place_mem_of_mem_pass (enumerates_active bot w) hmem

/-- A pass leaves the bot in charge of the same strategies, and levels the fund. -/
theorem IsPass.run_eq (h : IsPass bot w es) (hm : Manages p bot w)
    (hw : run (sendMove p bot) w es = w') :
    (Manages p bot w' ∧ active bot w' = active bot w) ∧
      run (Levelling.exec (2 ^ 64)) (fundOf bot w)
        (pass REBALANCE_THRESHOLD_BPS 10000 (active bot w) (fundOf bot w) (activeKeys bot w)) =
          fundOf bot w' := by
  obtain ⟨hkept, hrun⟩ :=
    (sendMove_simulates p bot (active bot w)).run ⟨hm, rfl⟩ (h.place_mem hm)
  rw [h.map_transfer hm, hw] at hrun
  exact ⟨hw ▸ hkept, hrun.symm⟩

/-- Whether or not they go through, moves at active strategies keep the total value. -/
theorem always_totalValue (hm : Manages p bot w)
    (hes : ∀ e ∈ es, e.2.transfer.place ∈ active bot w) :
    Always (sendMove p bot) (fun w' ↦ totalValue bot w' = totalValue bot w) w es := by
  have hin : EachStep (sendMove p bot) (fun _ e _ ↦ e.2.transfer.place ∈ active bot w) w es :=
    eachStep_of_forall_mem hes w
  have hall : Always (sendMove p bot) (fun w' ↦ (Manages p bot w' ∧
      active bot w' = active bot w) ∧ totalValue bot w' = totalValue bot w) w es := by
    refine hin.always ?_ ⟨⟨hm, rfl⟩, rfl⟩
    rintro w₁ e w₂ ⟨⟨hm₁, hactive⟩, hvalue⟩ he hsend
    rw [← hactive] at he
    obtain ⟨hkept, hexec⟩ := sendMove_ok hm₁ he hsend
    refine ⟨⟨hkept.1, hkept.2.trans hactive⟩, ?_⟩
    rw [← hvalue, totalValue_eq, totalValue_eq, hkept.2]
    exact value_exec he hexec
  exact hall.mono fun _ h ↦ h.2

/-! ## A bot for a vault with three strategies -/

def threeBot : Bot where
  manager := Sample.admin
  vault := Sample.vault
  strategies := [strategyKey 0, strategyKey 1, strategyKey 2]
  nodup := by decide
  yieldAmount _ := 0

/-- The idle 100 go to the first strategy, and again to the second. -/
def firstPass : List (Env × Move) :=
  [(Sample.clock 0, .allocate (strategyKey 0) 100), (Sample.clock 0, .allocate (strategyKey 1) 100),
   (Sample.clock 0, .deallocate (strategyKey 2) 167)]

theorem threeBot_manages : Manages indexedAddresses threeBot threeWorld where
  signer := by decide
  vault := Option.map_eq_some_iff.mp (show (threeWorld.vaults threeBot.vault).map Vault.manager =
    some threeBot.manager by decide +kernel)

end RebalanceBot
