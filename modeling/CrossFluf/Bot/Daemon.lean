import CrossFluf.Bot.Fetching

/-!
# The running bot

The timers start a loop function whether or not earlier calls of it have finished, so any number of
calls are under way at once.  Each waits for a read or for a transaction between its steps, and
anything may happen on the chain meanwhile.
-/

namespace RebalanceBot

open Machine Solana Outcome Run VaultProgram

/-- A bot that also harvests the fees, to the token account associated with its wallet. -/
structure Daemon extends Bot where
  getAssociatedTokenAddress : Pubkey → Pubkey → Pubkey

/-- A call of a loop function, at the point where it waits. -/
inductive Task
  | rebalance
  /-- The vault has been fetched, the strategies have not. -/
  | rebalanceOf (vault : Vault)
  | moving (todo : List Move)
  | refresh
  | reporting (todo : List Report)
  | feeHarvest
  | harvesting (lpMint : Pubkey)
  | finished

/-- The calls that timers start. -/
inductive Timer
  | rebalance
  | refresh
  | feeHarvest
  deriving DecidableEq

def Timer.task : Timer → Task
  | .rebalance => .rebalance
  | .refresh => .refresh
  | .feeHarvest => .feeHarvest

variable (p : ProgramAddresses) (d : Daemon)

/-- The transaction a call sends next.  A value too large for its argument is not sent. -/
def Task.transaction : Task → Option Instruction
  | .moving (m :: _) => some (m.instruction d.toBot)
  | .reporting (r :: _) => r.newValue.map (.reportYield ⟨d.manager, d.vault, r.strategy⟩ ·)
  | .harvesting lpMint =>
    some (.harvestFees
      ⟨d.manager, d.vault, lpMint, d.getAssociatedTokenAddress lpMint d.manager⟩)
  | _ => none

/-- Where a call waits after its next read or transaction.  It catches every error. -/
def Task.next (w : World) : Task → Task
  | .rebalance =>
    match w.vaults d.vault with
    | none => .finished
    | some vault => .rebalanceOf vault
  | .rebalanceOf vault => .moving (movesFrom vault (fetchStrategies d.toBot w))
  | .moving (_ :: ms) => .moving ms
  | .refresh => .reporting (refreshReports d.toBot w)
  | .reporting (_ :: rs) => .reporting rs
  | .feeHarvest =>
    match w.vaults d.vault with
    | none => .finished
    | some vault => .harvesting vault.lpMint
  | .moving [] | .reporting [] | .harvesting _ | .finished => .finished

structure Process where
  world : World
  tasks : List Task

def Process.start (w : World) : Process := ⟨w, []⟩

inductive Event
  | timer (t : Timer)
  /-- The call at a position in the list goes on. -/
  | resume (n : ℕ)
  /-- A transaction of anyone else. -/
  | outside (i : Instruction)

/-- What an event sends to the chain. -/
def sent (s : Process) (e : Env × Event) : List (Env × Instruction) :=
  match e.2 with
  | .timer _ => []
  | .resume n => ((s.tasks[n]?.bind fun t ↦ t.transaction d).map fun i ↦ (e.1, i)).toList
  | .outside i => [(e.1, i)]

def handle (s : Process) (e : Env × Event) : Except Unit Process :=
  let world := run (exec p) s.world (sent d s e)
  match e.2 with
  | .timer t => .ok ⟨world, s.tasks ++ [t.task]⟩
  | .resume n =>
    match s.tasks[n]? with
    | none => .error ()
    | some t => .ok ⟨world, s.tasks.set n (t.next d s.world)⟩
  | .outside _ => .ok ⟨world, s.tasks⟩

variable {p d} {s s' : Process} {w : World} {e : Env × Event} {es : List (Env × Event)}

theorem handle_world (h : handle p d s e = .ok s') :
    s'.world = run (exec p) s.world (sent d s e) := by
  unfold handle at h
  split at h
  · rw [← Except.ok.inj h]
  · split at h
    · cases h
    · rw [← Except.ok.inj h]
  · rw [← Except.ok.inj h]

theorem handle_resume {env : Env} {n : ℕ} (h : handle p d s (env, .resume n) = .ok s') :
    ∃ t, s.tasks[n]? = some t ∧ s'.tasks = s.tasks.set n (t.next d s.world) ∧
      sent d s (env, .resume n) = ((t.transaction d).map fun i ↦ (env, i)).toList := by
  unfold handle at h
  cases ht : s.tasks[n]? with
  | none =>
    simp only [ht] at h
    cases h
  | some t =>
    simp only [ht] at h
    refine ⟨t, rfl, by rw [← Except.ok.inj h], ?_⟩
    simp only [sent, ht, Option.bind_some]

theorem sent_of_error {u : Unit} (h : handle p d s e = .error u) : sent d s e = [] := by
  obtain ⟨env, e⟩ := e
  unfold handle at h
  cases e with
  | timer t => cases h
  | resume n =>
    cases ht : s.tasks[n]? with
    | none => simp [sent, ht]
    | some t =>
      simp only [ht] at h
      cases h
  | outside i => cases h

theorem advance_world (p : ProgramAddresses) (d : Daemon) (s : Process) (e : Env × Event) :
    (advance (handle p d) s e).world = run (exec p) s.world (sent d s e) := by
  cases h : handle p d s e with
  | ok s' => rw [advance_of_ok h, handle_world h]
  | error u =>
    rw [advance_of_error h, sent_of_error h]
    rfl

/-! ## What the bot can send -/

/-- A transaction of the bot: its wallet signs, and it names the vault of the bot. -/
inductive Sends (d : Daemon) : Instruction → Prop
  | allocate (k : Pubkey) (amount : U64) : Sends d (.allocate ⟨d.manager, d.vault, k⟩ amount)
  | deallocate (k : Pubkey) (amount : U64) : Sends d (.deallocate ⟨d.manager, d.vault, k⟩ amount)
  | reportYield (k : Pubkey) (x : U64) : Sends d (.reportYield ⟨d.manager, d.vault, k⟩ x)
  | harvestFees (lpMint : Pubkey) : Sends d (.harvestFees
      ⟨d.manager, d.vault, lpMint, d.getAssociatedTokenAddress lpMint d.manager⟩)

theorem Task.sends {t : Task} {i : Instruction} (h : t.transaction d = some i) : Sends d i := by
  cases t with
  | moving todo =>
    cases todo with
    | nil => cases h
    | cons m ms =>
      obtain rfl := Option.some_inj.mp h
      cases m with
      | allocate k amount => exact .allocate k amount
      | deallocate k amount => exact .deallocate k amount
  | reporting todo =>
    cases todo with
    | nil => cases h
    | cons r rs =>
      obtain ⟨x, -, rfl⟩ := Option.map_eq_some_iff.mp h
      exact .reportYield r.strategy x
  | harvesting lpMint =>
    obtain rfl := Option.some_inj.mp h
    exact .harvestFees lpMint
  | rebalance | rebalanceOf _ | refresh | feeHarvest | finished => cases h

theorem sent_resume (env : Env) (n : ℕ) : sent d s (env, .resume n) = [] ∨
    ∃ i, Sends d i ∧ sent d s (env, .resume n) = [(env, i)] := by
  cases h : s.tasks[n]?.bind fun t ↦ t.transaction d with
  | none => exact Or.inl (by simp only [sent, h, Option.map_none, Option.toList_none])
  | some i =>
    obtain ⟨t, -, ht⟩ := Option.bind_eq_some_iff.mp h
    exact Or.inr ⟨i, Task.sends ht, by simp only [sent, h, Option.map_some, Option.toList_some]⟩

/-! ## A wallet without a role -/

theorem Sends.role {i : Instruction} {env : Env} {v : Vault} {w' : World} (hi : Sends d i)
    (hv : w.vaults d.vault = some v) (h : exec p w (env, i) = .ok w') :
    v.manager = d.manager ∨ v.admin = d.manager := by
  cases hi with
  | allocate k amount =>
    obtain ⟨u, u', s, s', hx⟩ := allocate_eq_ok h
    obtain rfl := Option.some_inj.mp (hx.vault.symm.trans hv)
    exact Or.inl hx.manager.symm
  | deallocate k amount =>
    obtain ⟨u, u', s, s', hx⟩ := deallocate_eq_ok h
    obtain rfl := Option.some_inj.mp (hx.vault.symm.trans hv)
    exact Or.inl hx.manager.symm
  | reportYield k x =>
    obtain ⟨u, u', s, s', hx⟩ := reportYield_eq_ok h
    obtain rfl := Option.some_inj.mp (hx.vault.symm.trans hv)
    exact Or.inl hx.manager.symm
  | harvestFees lpMint =>
    obtain ⟨u, hu, -, ha⟩ := harvestFees_admin h
    obtain rfl := Option.some_inj.mp (hu.symm.trans hv)
    exact Or.inr ha.symm

/-- What the rest of the world sends meanwhile. -/
def Event.outsider (e : Env × Event) : Option (Env × Instruction) :=
  match e.2 with
  | .outside i => some (e.1, i)
  | _ => none

theorem advance_inert {v : Vault} (hv : s.world.vaults d.vault = some v)
    (hmanager : v.manager ≠ d.manager) (hadmin : v.admin ≠ d.manager) (e : Env × Event) :
    (advance (handle p d) s e).world =
      run (exec p) s.world (Event.outsider e).toList := by
  rw [advance_world]
  obtain ⟨env, e⟩ := e
  cases e with
  | timer t => rfl
  | outside i => rfl
  | resume n =>
    rcases sent_resume (d := d) (s := s) env n with hnone | ⟨i, hi, hone⟩
    · rw [hnone]
      rfl
    · rw [hone]
      show advance (exec p) s.world (env, i) = s.world
      cases h : exec p s.world (env, i) with
      | error e => exact advance_of_error h
      | ok w' => exact absurd (hi.role hv h) (not_or.mpr ⟨hmanager, hadmin⟩)

/-- A daemon whose wallet is neither the manager nor the admin of its vault changes nothing on the
chain, in any schedule and whatever others do: the chain is where it would be without it. -/
theorem inert_without_role {v : Vault} (hv : s.world.vaults d.vault = some v)
    (hmanager : v.manager ≠ d.manager) (hadmin : v.admin ≠ d.manager) (es : List (Env × Event)) :
    (run (handle p d) s es).world =
      run (exec p) s.world (es.filterMap Event.outsider) := by
  induction es generalizing s v with
  | nil => rfl
  | cons e es ih =>
    have hstep := advance_inert (p := p) hv hmanager hadmin e
    obtain ⟨v', hv', hkeys⟩ := run_sameKeys (p := p) hv (Event.outsider e).toList
    rw [← hstep] at hv'
    -- nobody can give the wallet a role later
    have hrest := ih hv' (hkeys.manager ▸ hmanager) (hkeys.admin ▸ hadmin)
    rw [run, hrest, hstep, ← run_append]
    congr 1
    cases h : Event.outsider e with
    | none => rw [List.filterMap_cons_none h, Option.toList_none, List.nil_append]
    | some i =>
      rw [List.filterMap_cons_some h, Option.toList_some, List.singleton_append]

def visitor : Daemon where
  toBot := { threeBot with manager := Sample.user }
  getAssociatedTokenAddress _ _ := Sample.userLp

def visit : List (Env × Event) :=
  [(Sample.clock 0, .timer .rebalance), (Sample.clock 0, .timer .feeHarvest),
   (Sample.clock 1, .resume 0), (Sample.clock 1, .resume 1), (Sample.clock 2, .resume 0),
   (Sample.clock 3, .outside (.deposit Sample.userAccounts 100)), (Sample.clock 4, .resume 1),
   (Sample.clock 5, .resume 0)]

theorem inert_without_role_visitor :
    (run (handle indexedAddresses visitor) (.start threeWorld) visit).world =
      run (exec indexedAddresses) threeWorld
        [(Sample.clock 3, .deposit Sample.userAccounts 100)] := by
  have hv : (threeWorld.vaults Sample.vault).map (fun v ↦ (v.manager, v.admin)) =
      some (Sample.admin, Sample.admin) := by
    decide +kernel
  rw [Option.map_eq_some_iff] at hv
  obtain ⟨v, hv, hroles⟩ := hv
  obtain ⟨hmanager, hadmin⟩ := Prod.mk.inj hroles
  have hne : Sample.admin ≠ Sample.user := by decide
  exact inert_without_role (s := .start threeWorld) (d := visitor) hv (hmanager ▸ hne)
    (hadmin ▸ hne) visit

end RebalanceBot
