import CrossFluf.Base.FiniteSum
import CrossFluf.Bot.Daemon
import CrossFluf.Vault.Strategies

/-!
# Any schedule of the running bot

What holds however the timers fire, however many calls of the loops are under way at once and
wherever they stop for what others do to the chain.
-/

namespace RebalanceBot

open Machine Solana Outcome Run FiniteSum VaultProgram

variable {p : ProgramAddresses} {d : Daemon} {s s' : Process} {w w' : World}

/-! ## How much the bot sends -/

/-- The transactions a call has still to send, at most. -/
def Task.budget : Task → ℕ
  | .rebalance | .rebalanceOf _ | .refresh => MAX_STRATEGIES.toNat
  | .moving todo => todo.length
  | .reporting todo => todo.length
  | .feeHarvest | .harvesting _ => 1
  | .finished => 0

def Process.budget (s : Process) : ℕ := (s.tasks.map Task.budget).sum

/-- What a timer adds to it. -/
def granted (_ : Process) (e : Env × Event) : ℕ :=
  match e.2 with
  | .timer t => t.task.budget
  | _ => 0

/-- The transactions of the bot. -/
def transactions (d : Daemon) (s : Process) (e : Env × Event) : ℕ :=
  match e.2 with
  | .resume _ => (sent d s e).length
  | _ => 0

theorem length_fetchStrategies_le {bot : Bot} (hw : Numbered p w) :
    (fetchStrategies bot w).length ≤ MAX_STRATEGIES.toNat := by
  have hnodup : ((fetchStrategies bot w).map fun i ↦ i.account.index.toNat).Nodup := by
    rw [List.Nodup, List.pairwise_map]
    refine (pairwise_fetchStrategies bot w).imp_of_mem fun {i j} hi hj hne he ↦ hne ?_
    obtain ⟨-, hi, hVi, -⟩ := mem_fetchStrategies_iff.mp hi
    obtain ⟨-, hj, hVj, -⟩ := mem_fetchStrategies_iff.mp hj
    exact hw.eq_of_index hi hj (hVi.trans hVj.symm) (BitVec.eq_of_toNat_eq he)
  have hbelow : ((fetchStrategies bot w).map fun i ↦ i.account.index.toNat) ⊆
      List.range MAX_STRATEGIES.toNat := by
    intro n hn
    obtain ⟨i, hi, rfl⟩ := List.mem_map.mp hn
    have hlt := (hw.placed _ _ (mem_fetchStrategies hi)).1
    exact List.mem_range.mpr (hlt.trans_le (hw.capped _))
  have hle := (List.subperm_of_subset hnodup hbelow).length_le
  rwa [List.length_map, List.length_range] at hle

theorem length_movesFrom_le (v : Vault) (l : List StrategyInfo) :
    (movesFrom v l).length ≤ l.length := by
  unfold movesFrom
  dsimp only
  split
  · exact Nat.zero_le _
  · refine (List.length_filterMap_le _ _).trans ?_
    rw [calculateEqualWeightTargets, List.length_map]

/-- Going on takes one from the budget for each transaction. -/
theorem Task.budget_next (hw : Numbered p w) (t : Task) :
    (t.next d w).budget + (t.transaction d).toList.length ≤ t.budget := by
  have hcap : (fetchStrategies d.toBot w).length ≤ MAX_STRATEGIES.toNat :=
    length_fetchStrategies_le hw
  cases t with
  | rebalance =>
    unfold Task.next
    cases w.vaults d.vault with
    | none => exact Nat.zero_le _
    | some v => exact le_rfl
  | rebalanceOf v => exact (length_movesFrom_le v _).trans hcap
  | moving todo =>
    cases todo with
    | nil => exact le_rfl
    | cons m ms => exact le_rfl
  | refresh =>
    have hreadable := (List.takeWhile_sublist (l := fetchStrategies d.toBot w) fun i ↦
      i.account.positionValue.toNat < 2 ^ 53).length_le
    exact (List.length_filterMap_le _ _).trans (hreadable.trans hcap)
  | reporting todo =>
    cases todo with
    | nil => exact le_rfl
    | cons r rs =>
      have hone : (r.newValue.map
          (VaultProgram.Instruction.reportYield ⟨d.manager, d.vault, r.strategy⟩)).toList.length ≤
            1 := by
        cases r.newValue with
        | none => exact Nat.zero_le 1
        | some x => exact le_rfl
      exact Nat.add_le_add_left hone _
  | feeHarvest =>
    unfold Task.next
    cases w.vaults d.vault with
    | none => exact Nat.zero_le _
    | some v => exact le_rfl
  | harvesting lpMint => exact le_rfl
  | finished => exact le_rfl

theorem handle_budget {e : Env × Event} (hw : Numbered p s.world)
    (h : handle p d s e = .ok s') :
    s'.budget + transactions d s e ≤ s.budget + granted s e := by
  obtain ⟨env, e⟩ := e
  cases e with
  | timer t =>
    rw [← Except.ok.inj h]
    show ((s.tasks ++ [t.task]).map Task.budget).sum + 0 ≤ s.budget + t.task.budget
    rw [List.map_append, List.sum_append, Process.budget]
    exact le_rfl
  | resume n =>
    obtain ⟨t, ht, htasks, hsent⟩ := handle_resume h
    have hset := sum_map_set (f := Task.budget) ht (t.next d s.world)
    have hnext := t.budget_next (d := d) hw
    show s'.budget + (sent d s (env, .resume n)).length ≤ s.budget + 0
    rw [hsent, Option.toList_map, List.length_map, Process.budget, Process.budget, htasks]
    omega
  | outside i =>
    rw [← Except.ok.inj h]
    exact le_rfl

theorem handle_numbered {e : Env × Event} (hw : Numbered p s.world)
    (h : handle p d s e = .ok s') : Numbered p s'.world := by
  rw [handle_world h]
  exact run_invariant (fun _ _ _ hs hx ↦ exec_numbered hs hx) hw _

/-- In any schedule, and whatever others do meanwhile, the bot sends no more transactions than ten
for each rebalance and each refresh a timer has started and one for each fee harvest. -/
theorem transactions_bounded (hw : Reachable (exec p) (Genesis p) w) (es : List (Env × Event)) :
    tally (handle p d) (transactions d) (.start w) es ≤
      tally (handle p d) granted (.start w) es := by
  have hnumbered : Always (handle p d) (fun s ↦ Numbered p s.world) (.start w) es :=
    always_of_invariant (fun _ _ _ hs h ↦ handle_numbered hs h) (reachable_numbered hw) es
  have hstep : EachStep (handle p d)
      (fun s e s' ↦ s'.budget + transactions d s e ≤ s.budget + granted s e) (.start w) es :=
    hnumbered.eachStep fun _ _ _ hs h ↦ handle_budget hs h
  have hrun := hstep.tally_add_le (x := Process.budget)
  have hstart : (Process.start w).budget = 0 := rfl
  omega

/-! ## Two refreshes at once -/

/-- A bot that reports a yield of one percent. -/
def onePercent : Daemon where
  toBot := { threeBot with yieldAmount := fun i ↦ i.account.positionValue.toNat / 100 }
  getAssociatedTokenAddress _ _ := Sample.userLp

/-- The second refresh reads before the first has reported. -/
def twoRefreshes : List (Env × Event) :=
  [(Sample.clock 0, .timer .refresh), (Sample.clock 300, .timer .refresh),
   (Sample.clock 300, .resume 0), (Sample.clock 300, .resume 1), (Sample.clock 301, .resume 1),
   (Sample.clock 302, .resume 0)]

theorem transactions_bounded_twice :
    tally (handle indexedAddresses onePercent) (transactions onePercent) (.start threeWorld)
        twoRefreshes ≤ 20 := by
  have hgranted : tally (handle indexedAddresses onePercent) granted (.start threeWorld)
      twoRefreshes = 20 := by
    decide +kernel
  have hbound := transactions_bounded (d := onePercent) threeWorld_reachable twoRefreshes
  rwa [hgranted] at hbound

/-! ## Refreshing alone -/

/-- One report of a yield on a position. -/
def grow (y : ℕ → ℕ) (x : ℕ) : ℕ := x + y x

theorem grow_monotone {y : ℕ → ℕ} (hy : Monotone y) : Monotone (grow y) :=
  fun _ _ h ↦ Nat.add_le_add h (hy h)

theorem iterate_grow_le (y : ℕ → ℕ) (n x : ℕ) : (grow y)^[n] x ≤ (grow y)^[n + 1] x := by
  rw [Function.iterate_succ_apply']
  exact Nat.le_add_right _ _

/-- The yields are a function of the position, and no less on a larger one. -/
structure YieldsOnPosition (bot : Bot) (y : ℕ → ℕ) : Prop where
  monotone : Monotone y
  yieldAmount : ∀ i, bot.yieldAmount i = y i.account.positionValue.toNat

/-- An instruction that writes the position of the strategy at `k`. -/
def WritesPosition (k : Pubkey) : Instruction → Prop
  | .allocate a _ | .deallocate a _ | .reportYield a _ => a.strategy = k
  | _ => False

/-- No rebalance is started, and nobody else writes the position. -/
def Quiet (k : Pubkey) (e : Env × Event) : Prop :=
  match e.2 with
  | .timer t => t ≠ .rebalance
  | .resume _ => True
  | .outside i => ¬ WritesPosition k i

/-- Whether a call of the refresh loop reads the strategies. -/
def reads (s : Process) (e : Env × Event) : ℕ :=
  match e.2 with
  | .resume n =>
    match s.tasks[n]? with
    | some .refresh => 1
    | _ => 0
  | _ => 0

theorem exec_position {env : Env} {i : Instruction} {k : Pubkey} {x : U64}
    (h : exec p w (env, i) = .ok w') (hi : ¬ WritesPosition k i) (hx : position w k = some x) :
    position w' k = some x := by
  obtain ⟨a, ha, rfl⟩ := Option.map_eq_some_iff.mp hx
  obtain ⟨a', ha', hstep⟩ := exec_strategyStep h ha
  rw [position, ha', Option.map_some]
  cases hstep with
  | same => rfl
  | allocate at_k => exact absurd at_k hi
  | deallocate at_k => exact absurd at_k hi
  | report at_k => exact absurd at_k hi
  | remove => rfl

theorem exec_reported {env : Env} {a : StrategyAccounts} {k : Pubkey} {x y : U64}
    (h : exec p w (env, .reportYield a y) = .ok w') (hx : position w k = some x) :
    position w' k = some (if a.strategy = k then y else x) := by
  obtain ⟨v, v', b, b', hy⟩ := reportYield_eq_ok h
  split
  · rename_i hk
    rw [← hk, position_self hy.toStrategyMoved, hy.position]
  · rename_i hk
    rw [position_of_ne hy.toStrategyMoved fun he ↦ hk he.symm, hx]

def PositionIn (k : Pubkey) (lo hi : ℕ) (w : World) : Prop :=
  ∃ x, position w k = some x ∧ lo ≤ x.toNat ∧ x.toNat ≤ hi

/-- What a call of the loops may write to the position of the strategy at `k`. -/
def Task.Within (k : Pubkey) (lo hi : ℕ) : Task → Prop
  | .rebalance | .rebalanceOf _ | .moving _ => False
  | .reporting todo => ∀ r ∈ todo, r.strategy = k →
    lo ≤ r.currentValue.toNat + r.yieldAmount ∧ r.currentValue.toNat + r.yieldAmount ≤ hi
  | _ => True

/-- The position, and the values the calls have yet to report for it, are between the first
position and what `n` reports in turn make of it. -/
structure Compounded (k : Pubkey) (y : ℕ → ℕ) (x₀ n : ℕ) (s : Process) : Prop where
  position : PositionIn k x₀ ((grow y)^[n] x₀) s.world
  tasks : ∀ t ∈ s.tasks, t.Within k x₀ ((grow y)^[n] x₀)

theorem Task.Within.mono {k : Pubkey} {lo hi hi' : ℕ} {t : Task} (h : t.Within k lo hi)
    (hle : hi ≤ hi') : t.Within k lo hi' := by
  cases t with
  | reporting todo =>
    intro r hr hk
    obtain ⟨hlo, hhi⟩ := h r hr hk
    exact ⟨hlo, hhi.trans hle⟩
  | _ => exact h

/-- A report of a read carries the yield on the position it was read from. -/
theorem mem_refreshReports_grow {bot : Bot} {y : ℕ → ℕ} {r : Report}
    (hy : YieldsOnPosition bot y) (h : r ∈ refreshReports bot w) :
    r.currentValue.toNat + r.yieldAmount = grow y r.currentValue.toNat := by
  obtain ⟨i, -, hr⟩ := List.mem_filterMap.mp h
  split at hr
  · obtain rfl := Option.some_inj.mp hr
    exact congrArg _ (hy.yieldAmount i)
  · cases hr

section Refreshing

variable {k : Pubkey} {y : ℕ → ℕ} {x₀ n : ℕ}

/-- A read makes reports of what one more yield makes of the position. -/
theorem Compounded.refreshReports (hs : Compounded k y x₀ n s)
    (hy : YieldsOnPosition d.toBot y) :
    (Task.reporting (refreshReports d.toBot s.world)).Within k x₀ ((grow y)^[n + 1] x₀) := by
  intro r hr hk
  obtain ⟨x, hx, hlo, hhi⟩ := hs.position
  have hread := mem_refreshReports hr
  rw [hk, hx, Option.some_inj] at hread
  rw [mem_refreshReports_grow hy hr, ← hread, Function.iterate_succ_apply']
  exact ⟨hlo.trans (Nat.le_add_right _ _), grow_monotone hy.monotone hhi⟩

/-- Where a call goes on to, it may write what it could before, and one more yield after a read. -/
theorem Compounded.next (hs : Compounded k y x₀ n s) (hy : YieldsOnPosition d.toBot y) {t : Task}
    (ht : t ∈ s.tasks) {m : ℕ} (hm : n ≤ m) (hread : t = .refresh → m = n + 1) :
    (t.next d s.world).Within k x₀ ((grow y)^[m] x₀) := by
  have hgrow : Monotone fun n ↦ (grow y)^[n] x₀ :=
    monotone_nat_of_le_succ fun n ↦ iterate_grow_le y n x₀
  have hold := (hs.tasks t ht).mono (hgrow hm)
  cases t with
  | rebalance | rebalanceOf _ | moving _ => exact hold.elim
  | refresh =>
    rw [hread rfl]
    exact hs.refreshReports hy
  | reporting todo =>
    cases todo with
    | nil => trivial
    | cons r rs => exact fun r' hr' ↦ hold r' (List.mem_cons_of_mem r hr')
  | feeHarvest =>
    unfold Task.next
    cases s.world.vaults d.vault with
    | none => trivial
    | some v => trivial
  | harvesting lpMint => trivial
  | finished => trivial

theorem Task.Within.position {lo hi : ℕ} {t : Task} (ht : t.Within k lo hi)
    (hw : PositionIn k lo hi w) (env : Env) :
    PositionIn k lo hi
      (run (exec p) w ((t.transaction d).map fun i ↦ (env, i)).toList) := by
  cases hsend : t.transaction d with
  | none => exact hw
  | some i =>
    show PositionIn k lo hi (advance (exec p) w (env, i))
    refine advance_induct hw fun w' h ↦ ?_
    obtain ⟨x, hx, hlo, hhi⟩ := hw
    cases t with
    | reporting todo =>
      cases todo with
      | nil => cases hsend
      | cons r rs =>
        obtain ⟨z, hz, rfl⟩ := Option.map_eq_some_iff.mp hsend
        refine ⟨_, exec_reported h hx, ?_⟩
        show lo ≤ (if r.strategy = k then z else x).toNat ∧
          (if r.strategy = k then z else x).toNat ≤ hi
        split
        · rename_i hk
          rw [newValue_eq_some hz]
          exact ht r List.mem_cons_self hk
        · exact ⟨hlo, hhi⟩
    | harvesting lpMint =>
      obtain rfl := Option.some_inj.mp hsend
      exact ⟨x, exec_position h (fun he ↦ he) hx, hlo, hhi⟩
    | moving todo => exact ht.elim
    | rebalance | rebalanceOf _ | refresh | feeHarvest | finished => cases hsend

theorem handle_compounded (hy : YieldsOnPosition d.toBot y) {e : Env × Event}
    (hs : Compounded k y x₀ n s) (he : Quiet k e) (h : handle p d s e = .ok s') :
    Compounded k y x₀ (n + reads s e) s' := by
  have hgrow : Monotone fun n ↦ (grow y)^[n] x₀ :=
    monotone_nat_of_le_succ fun n ↦ iterate_grow_le y n x₀
  obtain ⟨env, e⟩ := e
  cases e with
  | timer t =>
    obtain rfl := Except.ok.inj h
    refine ⟨hs.position, fun t' ht' ↦ ?_⟩
    rcases List.mem_append.mp ht' with hold | hnew
    · exact hs.tasks t' hold
    · obtain rfl := List.mem_singleton.mp hnew
      cases t with
      | rebalance => exact absurd rfl he
      | refresh | feeHarvest => trivial
  | resume m =>
    obtain ⟨t, ht, htasks, hsent⟩ := handle_resume h
    have hmem := List.mem_of_getElem? ht
    have hle : (grow y)^[n] x₀ ≤ (grow y)^[n + reads s (env, .resume m)] x₀ :=
      hgrow (Nat.le_add_right _ _)
    have hread : t = .refresh → n + reads s (env, .resume m) = n + 1 := by
      intro he
      subst he
      simp only [reads, ht]
    apply Compounded.mk
    · obtain ⟨x, hx, hlo, hhi⟩ := (hs.tasks t hmem).position (p := p) (d := d) hs.position env
      rw [handle_world h, hsent]
      exact ⟨x, hx, hlo, hhi.trans hle⟩
    · intro t' ht'
      rw [htasks] at ht'
      rcases List.mem_or_eq_of_mem_set ht' with hold | rfl
      · exact (hs.tasks t' hold).mono hle
      · exact hs.next hy hmem (Nat.le_add_right _ _) hread
  | outside i =>
    obtain rfl := Except.ok.inj h
    refine ⟨?_, hs.tasks⟩
    obtain ⟨x, hx, hlo, hhi⟩ := hs.position
    show PositionIn k x₀ ((grow y)^[n] x₀) (advance (exec p) s.world (env, i))
    exact advance_induct ⟨x, hx, hlo, hhi⟩ fun w' h' ↦ ⟨x, exec_position h' he hx, hlo, hhi⟩

end Refreshing

/-- While only refreshes and fee harvests run, however many at once and however they overlap, the
position of a strategy never falls below where it was, and never exceeds what as many yields in
turn make of it as a refresh has read the strategies. -/
theorem refresh_compounds {y : ℕ → ℕ} {k : Pubkey} {x₀ : U64}
    (hy : YieldsOnPosition d.toBot y) (hx : position w k = some x₀) {es : List (Env × Event)}
    (hes : ∀ e ∈ es, Quiet k e) :
    ∃ x, position (run (handle p d) (.start w) es).world k = some x ∧ x₀.toNat ≤ x.toNat ∧
      x.toNat ≤ (grow y)^[tally (handle p d) reads (.start w) es] x₀.toNat := by
  have hstart : Compounded k y x₀.toNat 0 (.start w) :=
    ⟨⟨x₀, hx, le_rfl, le_rfl⟩, nofun⟩
  have hrun := run_tally_invariant (J := Quiet k)
    (fun _ _ _ _ hs he h ↦ handle_compounded (p := p) hy hs he h) hstart hes
  rw [Nat.zero_add] at hrun
  exact hrun.position

theorem refresh_compounds_twice :
    ∃ x, position (run (handle indexedAddresses onePercent) (.start threeWorld)
        twoRefreshes).world (strategyKey 2) = some x ∧ 300 ≤ x.toNat ∧ x.toNat ≤ 306 := by
  have hyields : YieldsOnPosition onePercent.toBot fun x ↦ x / 100 :=
    ⟨fun _ _ h ↦ Nat.div_le_div_right h, fun _ ↦ rfl⟩
  have hx : position threeWorld (strategyKey 2) = some 300 := by decide +kernel
  have hquiet : ∀ e ∈ twoRefreshes, Quiet (strategyKey 2) e := by
    intro e he
    simp only [twoRefreshes, List.mem_cons, List.not_mem_nil, or_false] at he
    rcases he with rfl | rfl | rfl | rfl | rfl | rfl <;> first | trivial | nofun
  have hreads : tally (handle indexedAddresses onePercent) reads (.start threeWorld)
      twoRefreshes = 2 := by
    decide +kernel
  have hbound := refresh_compounds hyields hx hquiet (p := indexedAddresses)
  rwa [hreads] at hbound

/-! ## Alone on the chain -/

/-- What the bot leaves alone: other vaults and their strategies, the roles and the configuration
of its own vault, and every token account but the one its fees go to. -/
structure Footprint (d : Daemon) (v : Vault) (w w' : World) : Prop where
  vaults : ∀ U, U ≠ d.vault → w'.vaults U = w.vaults U
  vault : ∃ v', w'.vaults d.vault = some v' ∧ v' = { v with
    totalAssets := v'.totalAssets
    idleAssets := v'.idleAssets
    lpSupply := v'.lpSupply
    accumulatedFees := v'.accumulatedFees
    lockedProfit := v'.lockedProfit
    lockedProfitTs := v'.lockedProfitTs
    lastFeeHarvestTs := v'.lastFeeHarvestTs
    highWaterMark := v'.highWaterMark }
  unopened : ∀ k, w.strategies k = none → w'.strategies k = none
  strategies : ∀ k s, w.strategies k = some s → ∃ s', w'.strategies k = some s' ∧
    (s.vault ≠ d.vault → s' = s) ∧ s' = { s with
      positionValue := s'.positionValue
      allocated := s'.allocated
      lastUpdateTs := s'.lastUpdateTs }
  accounts : ∀ k, k ≠ d.getAssociatedTokenAddress v.lpMint d.manager →
    w'.tokens.account k = w.tokens.account k
  mints : ∀ m, m ≠ v.lpMint → w'.tokens.mint m = w.tokens.mint m

theorem Footprint.refl {v : Vault} (hv : w.vaults d.vault = some v) : Footprint d v w w where
  vaults _ _ := rfl
  vault := ⟨v, hv, rfl⟩
  unopened _ h := h
  strategies _ s h := ⟨s, h, fun _ ↦ rfl, rfl⟩
  accounts _ _ := rfl
  mints _ _ := rfl

theorem Footprint.trans {v v' : Vault} {w'' : World} (h : Footprint d v w w')
    (hv : w'.vaults d.vault = some v') (h' : Footprint d v' w' w'') : Footprint d v w w'' := by
  obtain ⟨u, hu, hkept⟩ := h.vault
  obtain rfl := Option.some_inj.mp (hu.symm.trans hv)
  have hlp : u.lpMint = v.lpMint := by rw [hkept]
  refine ⟨fun U hU ↦ (h'.vaults U hU).trans (h.vaults U hU), ?_,
    fun k hk ↦ h'.unopened k (h.unopened k hk), fun k s hk ↦ ?_,
    fun k hk ↦ (h'.accounts k (hlp ▸ hk)).trans (h.accounts k hk),
    fun m hm ↦ (h'.mints m (hlp ▸ hm)).trans (h.mints m hm)⟩
  · obtain ⟨u', hu', hkept'⟩ := h'.vault
    refine ⟨u', hu', ?_⟩
    rw [hkept', hkept]
  · obtain ⟨s', hs', hforeign, hsame⟩ := h.strategies k s hk
    obtain ⟨s'', hs'', hforeign', hsame'⟩ := h'.strategies k s' hs'
    have hvault : s'.vault = s.vault := by rw [hsame]
    refine ⟨s'', hs'', fun hne ↦ ?_, ?_⟩
    · rw [hforeign' (hvault ▸ hne), hforeign hne]
    · rw [hsame', hsame]

/-- The strategies after a transaction of the bot. -/
theorem Sends.strategies {i : Instruction} {env : Env} {k : Pubkey} {a : Strategy}
    (hi : Sends d i) (h : exec p w (env, i) = .ok w') (hk : w.strategies k = some a) :
    ∃ a', w'.strategies k = some a' ∧ (a.vault ≠ d.vault → a' = a) ∧ a' = { a with
      positionValue := a'.positionValue
      allocated := a'.allocated
      lastUpdateTs := a'.lastUpdateTs } := by
  obtain ⟨a', ha', hstep⟩ := exec_strategyStep h hk
  refine ⟨a', ha', ?_⟩
  cases hi with
  | allocate j amount =>
    cases hstep with
    | same => exact ⟨fun _ ↦ rfl, rfl⟩
    | allocate at_k ofVault vault active manager kept =>
      exact ⟨fun hne ↦ absurd ofVault hne, by rw [kept]⟩
  | deallocate j amount =>
    cases hstep with
    | same => exact ⟨fun _ ↦ rfl, rfl⟩
    | deallocate at_k ofVault vault active manager kept =>
      exact ⟨fun hne ↦ absurd ofVault hne, by rw [kept]⟩
  | reportYield j x =>
    cases hstep with
    | same => exact ⟨fun _ ↦ rfl, rfl⟩
    | report at_k ofVault vault manager kept =>
      exact ⟨fun hne ↦ absurd ofVault hne, by rw [kept]⟩
  | harvestFees lpMint =>
    cases hstep with
    | same => exact ⟨fun _ ↦ rfl, rfl⟩

theorem Sends.vault {i : Instruction} (hi : Sends d i) : i.vault = some d.vault := by
  cases hi <;> rfl

theorem moved_tokens {a : StrategyAccounts} {v v' : Vault} {x x' : Strategy}
    (h : StrategyMoved p w a w' v v' x x') : w'.tokens = w.tokens := by
  rw [h.world]
  rfl

/-- One transaction of the bot. -/
theorem Sends.footprint {i : Instruction} {env : Env} {v : Vault} (hi : Sends d i)
    (hv : w.vaults d.vault = some v) (h : exec p w (env, i) = .ok w') : Footprint d v w w' := by
  have hvaults : ∀ U, U ≠ d.vault → w'.vaults U = w.vaults U := by
    intro U hU
    refine (exec_sameVault h fun he ↦ hU ?_).vault
    exact Option.some_inj.mp (he.symm.trans hi.vault)
  have hunopened : ∀ k, w.strategies k = none → w'.strategies k = none := by
    intro k hk
    by_contra hne
    obtain ⟨a', ha'⟩ := Option.ne_none_iff_exists'.mp hne
    obtain ⟨env, a, v', name, protocol, he, -⟩ := exec_newStrategy h hk ha'
    obtain ⟨-, rfl⟩ := Prod.mk.inj he
    cases hi
  have hstrategies := fun k a (hk : w.strategies k = some a) ↦ hi.strategies h hk
  cases hi with
  | allocate k amount =>
    obtain ⟨u, v', a, a', hx⟩ := allocate_eq_ok h
    obtain rfl := Option.some_inj.mp (hx.vault.symm.trans hv)
    have htokens := moved_tokens hx.toStrategyMoved
    exact ⟨hvaults, ⟨v', hx.vault_eq, by rw [hx.kept]⟩, hunopened, hstrategies,
      fun _ _ ↦ by rw [htokens], fun _ _ ↦ by rw [htokens]⟩
  | deallocate k amount =>
    obtain ⟨u, v', a, a', hx⟩ := deallocate_eq_ok h
    obtain rfl := Option.some_inj.mp (hx.vault.symm.trans hv)
    have htokens := moved_tokens hx.toStrategyMoved
    exact ⟨hvaults, ⟨v', hx.vault_eq, by rw [hx.kept]⟩, hunopened, hstrategies,
      fun _ _ ↦ by rw [htokens], fun _ _ ↦ by rw [htokens]⟩
  | reportYield k x =>
    obtain ⟨u, v', a, a', hx⟩ := reportYield_eq_ok h
    obtain rfl := Option.some_inj.mp (hx.vault.symm.trans hv)
    have htokens := moved_tokens hx.toStrategyMoved
    refine ⟨hvaults, ⟨v', hx.vault_eq, ?_⟩, hunopened, hstrategies,
      fun _ _ ↦ by rw [htokens], fun _ _ ↦ by rw [htokens]⟩
    rcases bookYield_eq_ok hx.booked with ⟨-, hb⟩ | ⟨-, hb⟩
    · rw [hb.kept]
    · rw [hb.kept]
  | harvestFees lpMint =>
    rcases harvestFees_eq_ok h with rfl | ⟨u, v', feeLp, minted, hf⟩
    · exact Footprint.refl hv
    obtain rfl := Option.some_inj.mp (hf.vault.symm.trans hv)
    have hlp : lpMint = u.lpMint := hf.lpMint
    have htokens : w'.tokens = minted := by
      rw [hf.world]
      rfl
    refine ⟨hvaults, ⟨v', hf.vault_eq, by rw [hf.kept]⟩, hunopened, hstrategies,
      fun k hk ↦ ?_, fun m hm ↦ ?_⟩
    · rw [htokens]
      rcases hf.minted_ok with he | hm
      · rw [he]
      · exact Tokens.mintTo_account_of_ne hm (hlp ▸ hk)
    · rw [htokens]
      rcases hf.minted_ok with he | hmint
      · rw [he]
      · exact Tokens.mintTo_mint_of_ne hmint (hlp ▸ hm)

theorem handle_footprint {e : Env × Event} {v : Vault} (hv : s.world.vaults d.vault = some v)
    (halone : Event.outsider e = none) (h : handle p d s e = .ok s') :
    Footprint d v s.world s'.world := by
  rw [handle_world h]
  obtain ⟨env, e⟩ := e
  cases e with
  | timer t => exact Footprint.refl hv
  | resume n =>
    rcases sent_resume (d := d) (s := s) env n with hnone | ⟨i, hi, hone⟩
    · rw [hnone]
      exact Footprint.refl hv
    · rw [hone]
      exact advance_induct (Footprint.refl hv) fun w' h' ↦ hi.footprint hv h'
  | outside i => cases halone

/-- While nobody else acts, no schedule lets the bot touch more than that. -/
theorem run_footprint {v : Vault} (hv : w.vaults d.vault = some v) {es : List (Env × Event)}
    (halone : ∀ e ∈ es, Event.outsider e = none) :
    Footprint d v w (run (handle p d) (.start w) es).world := by
  have hsteps : EachStep (handle p d) (fun _ e _ ↦ Event.outsider e = none) (Process.start w) es :=
    eachStep_of_forall_mem halone _
  refine (hsteps.always (I := fun s ↦ Footprint d v w s.world) (fun s e s' hs he h ↦ ?_)
    (Footprint.refl hv)).last
  obtain ⟨v', hv', -⟩ := hs.vault
  exact hs.trans hv' (handle_footprint hv' he h)

theorem run_footprint_twice : ∃ v, threeWorld.vaults Sample.vault = some v ∧
    Footprint onePercent v threeWorld
      (run (handle indexedAddresses onePercent) (.start threeWorld) twoRefreshes).world := by
  have hlive : (threeWorld.vaults Sample.vault).isSome = true := by decide +kernel
  obtain ⟨v, hv⟩ := Option.isSome_iff_exists.mp hlive
  exact ⟨v, hv, run_footprint (d := onePercent) hv (by decide)⟩

end RebalanceBot
