import CrossFluf.Vault.Books
import CrossFluf.Base.Run

/-!
# What becomes of a strategy

A strategy is deactivated once, when it is empty, and there is no way back.  `allocate` and
`deallocate` ask for an active strategy and `report_yield` does not, so only a report can give an
inactive strategy a position, and nothing brings that position back.
-/

namespace VaultProgram

open Machine Solana Outcome Run

variable {p : ProgramAddresses} {env : Env} {w w' : World} {k : Pubkey} {v v' : Vault}
  {s s' : Strategy}

/-! ## What the manager writes -/

theorem allocate_writes {a : StrategyAccounts} {amount : U64}
    (h : allocate p env w a amount = .ok w') :
    ∃ v s position allocated, w.vaults a.vault = some v ∧ w.strategies a.strategy = some s ∧
      s.vault = a.vault ∧ s.isActive = true ∧ a.authority = v.manager ∧
      w'.strategies = (w.setStrategy a.strategy { s with
        positionValue := position
        allocated := allocated
        lastUpdateTs := env.now }).strategies := by
  simp only [allocate, bind_eq_ok, requireSigner_eq_ok, require_eq_ok, Prod.exists,
    loadStrategy_eq_ok, unwrap_eq_ok, pure_eq_ok, exists_const] at h
  obtain ⟨-, v, s, ⟨hv, hs, ho⟩, hactive, hmanager, -, -, idle, -, position, -, allocated, -,
    rfl⟩ := h
  exact ⟨v, s, position, allocated, hv, hs, ho, hactive, hmanager, rfl⟩

theorem deallocate_writes {a : StrategyAccounts} {amount : U64}
    (h : deallocate p env w a amount = .ok w') :
    ∃ v s position, w.vaults a.vault = some v ∧ w.strategies a.strategy = some s ∧
      s.vault = a.vault ∧ s.isActive = true ∧ a.authority = v.manager ∧
      w'.strategies = (w.setStrategy a.strategy { s with
        positionValue := position
        lastUpdateTs := env.now }).strategies := by
  simp only [deallocate, bind_eq_ok, requireSigner_eq_ok, require_eq_ok, Prod.exists,
    loadStrategy_eq_ok, unwrap_eq_ok, pure_eq_ok, exists_const] at h
  obtain ⟨-, v, s, ⟨hv, hs, ho⟩, hactive, hmanager, -, -, position, -, idle, -, rfl⟩ := h
  exact ⟨v, s, position, hv, hs, ho, hactive, hmanager, rfl⟩

theorem reportYield_writes {a : StrategyAccounts} {newPositionValue : U64}
    (h : reportYield p env w a newPositionValue = .ok w') :
    ∃ v s, w.vaults a.vault = some v ∧ w.strategies a.strategy = some s ∧
      s.vault = a.vault ∧ a.authority = v.manager ∧
      w'.strategies = (w.setStrategy a.strategy { s with
        positionValue := newPositionValue
        lastUpdateTs := env.now }).strategies := by
  simp only [reportYield, bind_eq_ok, requireSigner_eq_ok, require_eq_ok, Prod.exists,
    loadStrategy_eq_ok, pure_eq_ok, exists_const] at h
  obtain ⟨-, v, s, ⟨hv, hs, ho⟩, hmanager, booked, -, rfl⟩ := h
  exact ⟨v, s, hv, hs, ho, hmanager, rfl⟩

/-! ## One step -/

/-- How an instruction may rewrite the strategy at `k`: the manager of its vault moves its position
while it is active, the manager reports its position, or the admin deactivates it empty. -/
inductive StrategyStep (w : World) (k : Pubkey) : Instruction → Strategy → Strategy → Prop
  | same {i : Instruction} {s : Strategy} : StrategyStep w k i s s
  | allocate {a : StrategyAccounts} {amount : U64} {v : Vault} {s s' : Strategy}
    (at_k : a.strategy = k) (ofVault : s.vault = a.vault) (vault : w.vaults s.vault = some v)
    (active : s.isActive = true)
    (manager : a.authority = v.manager) (kept : s' = { s with
      positionValue := s'.positionValue
      allocated := s'.allocated
      lastUpdateTs := s'.lastUpdateTs }) : StrategyStep w k (.allocate a amount) s s'
  | deallocate {a : StrategyAccounts} {amount : U64} {v : Vault} {s s' : Strategy}
    (at_k : a.strategy = k) (ofVault : s.vault = a.vault) (vault : w.vaults s.vault = some v)
    (active : s.isActive = true)
    (manager : a.authority = v.manager) (kept : s' = { s with
      positionValue := s'.positionValue
      lastUpdateTs := s'.lastUpdateTs }) : StrategyStep w k (.deallocate a amount) s s'
  | report {a : StrategyAccounts} {newPositionValue : U64} {v : Vault} {s s' : Strategy}
    (at_k : a.strategy = k) (ofVault : s.vault = a.vault) (vault : w.vaults s.vault = some v)
    (manager : a.authority = v.manager)
    (kept : s' = { s with
      positionValue := newPositionValue
      lastUpdateTs := s'.lastUpdateTs }) : StrategyStep w k (.reportYield a newPositionValue) s s'
  | remove {a : StrategyAccounts} {v : Vault} {s : Strategy} (at_k : a.strategy = k)
    (ofVault : s.vault = a.vault) (vault : w.vaults s.vault = some v)
    (admin : a.authority = v.admin) (empty : s.positionValue = 0) :
    StrategyStep w k (.removeStrategy a) s { s with isActive := false }

theorem strategies_setStrategy {x : Strategy} {j : Pubkey}
    (hw : w'.strategies = (w.setStrategy j x).strategies) (hk : w.strategies k = some s) :
    w'.strategies k = some (if k = j then x else s) := by
  rw [hw]
  by_cases he : k = j
  · rw [if_pos he, he, World.setStrategy_strategies_self]
  · rw [if_neg he, World.setStrategy_strategies_of_ne w x he, hk]

/-- A strategy persists, and changes as its step allows. -/
theorem exec_strategyStep {i : Env × Instruction} (h : exec p w i = .ok w')
    (hk : w.strategies k = some s) :
    ∃ s', w'.strategies k = some s' ∧ StrategyStep w k i.2 s s' := by
  have hsame : w'.strategies = w.strategies →
      ∃ s', w'.strategies k = some s' ∧ StrategyStep w k i.2 s s' := by
    intro he
    exact ⟨s, by rw [he, hk], .same⟩
  cases exec_effect h with
  | initializeVault hi => exact hsame (by rw [hi.world]; rfl)
  | deposit hd => exact hsame (by rw [hd.world]; rfl)
  | instantWithdraw hx => exact hsame (by rw [hx.world]; rfl)
  | @addStrategy env a name protocol _ v v' hs =>
    have hne : k ≠ a.strategy := fun he ↦ by
      rw [he, hs.noStrategy] at hk
      cases hk
    have hw : w'.strategies k = some s := by
      rw [hs.world]
      exact (World.setStrategy_strategies_of_ne w _ hne).trans hk
    exact ⟨s, hw, .same⟩
  | @allocate env a amount _ _ _ _ _ _ =>
    obtain ⟨v, x, position, allocated, hv, hx, ho, hactive, hmanager, hw⟩ :=
      allocate_writes (show allocate p env w a amount = _ from h)
    refine ⟨_, strategies_setStrategy hw hk, ?_⟩
    split
    · rename_i he
      obtain rfl := Option.some_inj.mp ((he ▸ hk).symm.trans hx)
      exact .allocate he.symm ho (ho ▸ hv) hactive hmanager rfl
    · exact .same
  | @deallocate env a amount _ _ _ _ _ _ =>
    obtain ⟨v, x, position, hv, hx, ho, hactive, hmanager, hw⟩ :=
      deallocate_writes (show deallocate p env w a amount = _ from h)
    refine ⟨_, strategies_setStrategy hw hk, ?_⟩
    split
    · rename_i he
      obtain rfl := Option.some_inj.mp ((he ▸ hk).symm.trans hx)
      exact .deallocate he.symm ho (ho ▸ hv) hactive hmanager rfl
    · exact .same
  | @reportYield env a newValue _ _ _ _ _ _ =>
    obtain ⟨v, x, hv, hx, ho, hmanager, hw⟩ :=
      reportYield_writes (show reportYield p env w a newValue = _ from h)
    refine ⟨_, strategies_setStrategy hw hk, ?_⟩
    split
    · rename_i he
      obtain rfl := Option.some_inj.mp ((he ▸ hk).symm.trans hx)
      exact .report he.symm ho (ho ▸ hv) hmanager rfl
    · exact .same
  | harvestNothing => exact hsame rfl
  | harvestFees hf => exact hsame (by rw [hf.world]; rfl)
  | @removeStrategy _ a _ v x hr =>
    refine ⟨_, strategies_setStrategy (by rw [hr.world]) hk, ?_⟩
    split
    · rename_i he
      obtain rfl := Option.some_inj.mp ((he ▸ hk).symm.trans hr.strategy)
      exact .remove he.symm hr.ofVault (hr.ofVault ▸ hr.vault) hr.admin hr.empty
    · exact .same
  | updateConfig hc => exact hsame (by rw [hc.world]; rfl)
  | setActive hc => exact hsame (by rw [hc.world]; rfl)
  | wallet ht => exact hsame (by rw [ht.world]; rfl)

-- an account that holds no strategy gets none from a write to one that does
theorem strategies_none {x y : Strategy} {j : Pubkey} (hj : w.strategies j = some x)
    (hw : w'.strategies = (w.setStrategy j y).strategies) (hk : w.strategies k = none) :
    w'.strategies k = none := by
  have hne : k ≠ j := by
    intro he
    rw [he, hj] at hk
    cases hk
  rw [hw, World.setStrategy_strategies_of_ne w y hne, hk]

-- a new strategy is active and empty
theorem exec_newStrategy {i : Env × Instruction} (h : exec p w i = .ok w')
    (hk : w.strategies k = none) (hk' : w'.strategies k = some s') :
    ∃ env a v name protocol, i = (env, .addStrategy a name protocol) ∧ w.vaults a.vault = some v ∧
      s' = newStrategy p env a v name protocol := by
  have hnone : w'.strategies k ≠ none := by
    rw [hk']
    exact Option.some_ne_none s'
  have hsame : w'.strategies ≠ w.strategies := by
    intro he
    exact hnone (by rw [he, hk])
  cases exec_effect h with
  | initializeVault hi => exact absurd (by rw [hi.world]; rfl) hsame
  | deposit hd => exact absurd (by rw [hd.world]; rfl) hsame
  | instantWithdraw hx => exact absurd (by rw [hx.world]; rfl) hsame
  | @addStrategy env a name protocol _ v _ hs =>
    rw [hs.world] at hk'
    by_cases ha : k = a.strategy
    · have hself : some (newStrategy p env a v name protocol) = some s' :=
        (World.setStrategy_strategies_self w a.strategy _).symm.trans (ha ▸ hk')
      exact ⟨env, a, v, name, protocol, rfl, hs.vault, (Option.some_inj.mp hself).symm⟩
    · have hold := (World.setStrategy_strategies_of_ne w
        (newStrategy p env a v name protocol) ha).symm.trans hk'
      rw [hk] at hold
      cases hold
  | allocate ha => exact absurd (strategies_none ha.strategy (by rw [ha.world]; rfl) hk) hnone
  | deallocate hd => exact absurd (strategies_none hd.strategy (by rw [hd.world]; rfl) hk) hnone
  | reportYield hr => exact absurd (strategies_none hr.strategy (by rw [hr.world]; rfl) hk) hnone
  | harvestNothing => exact absurd rfl hsame
  | harvestFees hf => exact absurd (by rw [hf.world]; rfl) hsame
  | removeStrategy hr => exact absurd (strategies_none hr.strategy (by rw [hr.world]) hk) hnone
  | updateConfig hc => exact absurd (by rw [hc.world]; rfl) hsame
  | setActive hc => exact absurd (by rw [hc.world]; rfl) hsame
  | wallet ht => exact absurd (by rw [ht.world]; rfl) hsame

/-! ## Deactivated strategies -/

/-- Every deactivated strategy is empty. -/
def DeactivatedEmpty (w : World) : Prop :=
  ∀ k s, w.strategies k = some s → s.isActive = false → s.positionValue = 0

/-- The manager of its vault can bring any part of a position back to idle that `idle_assets` has
room for. -/
def Recoverable (p : ProgramAddresses) (w : World) : Prop :=
  ∀ k s, w.strategies k = some s → ∃ v, w.vaults s.vault = some v ∧
    (p.isDerived v.manager = false → ∀ env amount, 0 < amount.toNat →
      amount.toNat ≤ s.positionValue.toNat → v.idleAssets.toNat + amount.toNat < 2 ^ 64 →
      (deallocate p env w ⟨v.manager, s.vault, k⟩ amount).isOk = true)

/-- A report on a deactivated strategy says that it is still empty. -/
def InactiveReportsZero (w : World) (i : Env × Instruction) : Prop :=
  match i.2 with
  | .reportYield a newPositionValue => ∀ s, w.strategies a.strategy = some s →
    s.isActive = false → newPositionValue = 0
  | _ => True

theorem Genesis.deactivatedEmpty (h : Genesis p w) : DeactivatedEmpty w := by
  intro k s hk
  rw [h.strategies] at hk
  cases hk

theorem deallocate_succeeds {a : StrategyAccounts} {amount : U64} {v : Vault} {s : Strategy}
    (hsigner : p.isDerived a.authority = false) (hv : w.vaults a.vault = some v)
    (hs : w.strategies a.strategy = some s) (ho : s.vault = a.vault) (hactive : s.isActive = true)
    (hmanager : a.authority = v.manager) (hpos : 0 < amount.toNat)
    (hle : amount.toNat ≤ s.positionValue.toNat)
    (hfit : v.idleAssets.toNat + amount.toNat < 2 ^ 64) :
    (deallocate p env w a amount).isOk = true := by
  obtain ⟨idle, hidle⟩ := isSome_checkedAdd.mpr hfit
  have hposition : checkedSub s.positionValue amount = some (s.positionValue - amount) := by
    rw [checkedSub, if_pos hle]
  rw [isOk_iff]
  simp only [deallocate, bind_eq_ok, requireSigner_eq_ok, require_eq_ok, Prod.exists,
    loadStrategy_eq_ok, unwrap_eq_ok, pure_eq_ok, exists_const]
  exact ⟨_, hsigner, v, s, ⟨hv, hs, ho⟩, hactive, hmanager, hpos, hle, _, hposition, idle, hidle,
    rfl⟩

theorem DeactivatedEmpty.recoverable (hh : Homed w) (hw : DeactivatedEmpty w) :
    Recoverable p w := by
  intro k s hk
  obtain ⟨v, hv⟩ := Option.isSome_iff_exists.mp (hh k s hk)
  refine ⟨v, hv, ?_⟩
  intro hmanager env amount hpos hle hfit
  have hactive : s.isActive = true := by
    by_contra hn
    have hzero := hw k s hk (Bool.eq_false_of_not_eq_true hn)
    rw [hzero] at hle
    exact absurd (lt_of_lt_of_le hpos hle) (by decide)
  exact deallocate_succeeds hmanager hv hk rfl hactive rfl hpos hle hfit

-- of the instructions that write a position only a report reaches a deactivated strategy
theorem StrategyStep.empty {i : Instruction} (h : StrategyStep w k i s s')
    (hs : s.isActive = false → s.positionValue = 0)
    (hreport : ∀ a newPositionValue, i = .reportYield a newPositionValue → a.strategy = k →
      s.isActive = false → newPositionValue = 0) :
    s'.isActive = false → s'.positionValue = 0 := by
  intro hoff
  cases h with
  | same => exact hs hoff
  | allocate _ _ _ active _ kept =>
    rw [kept] at hoff
    rw [active] at hoff
    cases hoff
  | deallocate _ _ _ active _ kept =>
    rw [kept] at hoff
    rw [active] at hoff
    cases hoff
  | report at_k _ _ _ kept =>
    rw [kept] at hoff ⊢
    exact hreport _ _ rfl at_k hoff
  | remove _ _ _ _ empty => exact empty

theorem deactivatedEmpty_step {i : Env × Instruction} (hw : DeactivatedEmpty w)
    (h : exec p w i = .ok w') : DeactivatedEmpty w' ↔ InactiveReportsZero w i := by
  apply Iff.intro
  · intro hw'
    obtain ⟨env, i⟩ := i
    cases i with
    | reportYield a newPositionValue =>
      show ∀ s, w.strategies a.strategy = some s → s.isActive = false → newPositionValue = 0
      intro s hs hoff
      obtain ⟨v, x, -, hx, -, -, hwrite⟩ := reportYield_writes h
      obtain rfl := Option.some_inj.mp (hx.symm.trans hs)
      have hk := strategies_setStrategy hwrite hs
      rw [if_pos rfl] at hk
      exact hw' a.strategy _ hk hoff
    | _ => trivial
  · intro hreport k s' hk'
    cases hk : w.strategies k with
    | none =>
      obtain ⟨env, a, v, name, protocol, -, -, rfl⟩ := exec_newStrategy h hk hk'
      intro _
      rfl
    | some s =>
      obtain ⟨x, hx, hstep⟩ := exec_strategyStep h hk
      obtain rfl := Option.some_inj.mp (hx.symm.trans hk')
      refine hstep.empty (hw k s hk) ?_
      intro a newPositionValue hi ha hoff
      rw [InactiveReportsZero, hi] at hreport
      exact hreport s (ha ▸ hk) hoff

/-- Deactivated strategies stay empty, and all positions recoverable, exactly when nothing is
reported on a deactivated strategy. -/
theorem deactivatedEmpty_iff_reportsZero (hw : Genesis p w) (is : List (Env × Instruction)) :
    Always (exec p) (fun w ↦ DeactivatedEmpty w ∧ Recoverable p w) w is ↔
      EachStep (exec p) (fun w i _ ↦ InactiveReportsZero w i) w is := by
  have hhomed : Always (exec p) Homed w is :=
    always_of_invariant (fun _ _ _ hs h ↦ exec_homed hs h) hw.homed is
  apply hhomed.iff_eachStep
  · intro w i w' _ hh' hd h
    have hstep := deactivatedEmpty_step hd.1 h
    apply Iff.intro
    · intro hd'
      exact hstep.mp hd'.1
    · intro hreport
      have hempty := hstep.mpr hreport
      exact ⟨hempty, hempty.recoverable hh'⟩
  · exact ⟨hw.deactivatedEmpty, hw.deactivatedEmpty.recoverable hw.homed⟩

/-- A strategy is added, removed and then reported to hold 100. -/
def strandedRun : List (Env × Instruction) :=
  Sample.setup (Sample.config 0 0) ++
    [(Sample.clock 0, .addStrategy Sample.strategyAccounts [] []),
     (Sample.clock 0, .removeStrategy Sample.strategyAccounts),
     (Sample.clock 0, .reportYield Sample.strategyAccounts 100)]

theorem strandedRun_strategy :
    ((run (exec sampleAddresses) Sample.empty strandedRun).strategies Sample.strategy).map
      (fun s ↦ (s.isActive, s.positionValue)) = some (false, 100) := by
  decide +kernel

theorem deactivatedEmpty_iff_reportsZero_stranded :
    Always (exec sampleAddresses) (fun w ↦ DeactivatedEmpty w ∧ Recoverable sampleAddresses w)
        Sample.empty strandedRun ↔
      EachStep (exec sampleAddresses) (fun w i _ ↦ InactiveReportsZero w i) Sample.empty
        strandedRun :=
  deactivatedEmpty_iff_reportsZero Sample.genesis strandedRun

theorem deactivatedEmpty_fails :
    ¬ ∀ (p : ProgramAddresses) (w : World), Reachable (exec p) (Genesis p) w →
      DeactivatedEmpty w := by
  intro h
  have hempty := h sampleAddresses _ ⟨Sample.empty, strandedRun, Sample.genesis, rfl⟩
  have hrun := strandedRun_strategy
  rw [Option.map_eq_some_iff] at hrun
  obtain ⟨s, hs, hfields⟩ := hrun
  rw [Prod.mk.injEq] at hfields
  have hzero := hempty Sample.strategy s hs hfields.1
  rw [hfields.2] at hzero
  exact absurd hzero (by decide)

end VaultProgram
