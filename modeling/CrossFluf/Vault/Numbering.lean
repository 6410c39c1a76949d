import CrossFluf.Vault.Dilution
import CrossFluf.Vault.Roles

/-!
# The numbers of the strategies

A vault numbers its strategies from zero, each at the address its number derives, and gives no
number twice.  A number stays taken when its strategy is removed, so ten successful `add_strategy`
are all a vault ever sees.
-/

namespace VaultProgram

open Bytes Machine Solana Outcome Run

variable {p : ProgramAddresses} {env : Env} {w w' : World} {V k : Pubkey} {v v' : Vault}
  {s s' : Strategy}

/-! ## Counting them -/

def numStrategiesOf (V : Pubkey) (w : World) : ℕ :=
  (w.vaults V).elim 0 fun v ↦ v.numStrategies.toNat

theorem numStrategiesOf_of_vault (hv : w.vaults V = some v) :
    numStrategiesOf V w = v.numStrategies.toNat := by
  rw [numStrategiesOf, hv, Option.elim_some]

/-- One for an `add_strategy` on the vault at `V`. -/
def addsTo (V : Pubkey) (i : Env × Instruction) : ℕ :=
  match i.2 with
  | .addStrategy a _ _ => if a.vault = V then 1 else 0
  | _ => 0

theorem addsTo_cases (V : Pubkey) (i : Env × Instruction) :
    addsTo V i = 0 ∨ ∃ env a name protocol, i = (env, .addStrategy a name protocol) ∧
      a.vault = V ∧ addsTo V i = 1 := by
  obtain ⟨env, i⟩ := i
  cases i with
  | addStrategy a name protocol =>
    by_cases hV : a.vault = V
    · exact Or.inr ⟨env, a, name, protocol, rfl, hV, if_pos hV⟩
    · exact Or.inl (if_neg hV)
  | _ => exact Or.inl rfl

theorem addsTo_of_ne {i : Env × Instruction} (hV : i.2.vault ≠ some V) : addsTo V i = 0 := by
  rcases addsTo_cases V i with hzero | ⟨env, a, name, protocol, rfl, ha, -⟩
  · exact hzero
  · exact absurd (congrArg some ha) hV

theorem exec_numStrategies {i : Env × Instruction} (h : exec p w i = .ok w') :
    numStrategiesOf V w' = numStrategiesOf V w + addsTo V i := by
  by_cases hV : i.2.vault = some V
  · cases hv : w.vaults V with
    | none =>
      -- only `initialize_vault` names a vault that does not exist
      rcases exec_named h hV with ⟨v, v', hv', -⟩ | ⟨env, a, name, config, rfl⟩
      · rw [hv] at hv'
        cases hv'
      · have hi := initializeVault_eq_ok (show initializeVault p env w a name config = _ from h)
        obtain rfl := Option.some_inj.mp hV
        have hnew : w'.vaults a.vault = some (newVault p env a name config) := by
          rw [hi.world, World.setVault_vaults_self]
        rw [numStrategiesOf_of_vault hnew, numStrategiesOf, hv, Option.elim_none]
        rfl
    | some v =>
      obtain ⟨v', hv', he⟩ := exec_vaultEffect h hV hv
      rw [numStrategiesOf_of_vault hv, numStrategiesOf_of_vault hv']
      cases he with
      | addStrategy hs => rw [hs.count]; exact congrArg _ (if_pos rfl).symm
      | deposit hd => rw [hd.kept]; rfl
      | instantWithdraw hx => rw [hx.kept]; rfl
      | allocate ha => rw [ha.kept]; rfl
      | deallocate hd => rw [hd.kept]; rfl
      | reportYield hr => rw [(bookYield_sameAdminFields hr.booked).numStrategies]; rfl
      | harvestNothing => rfl
      | harvestFees hf => rw [hf.kept]; rfl
      | removeStrategy hr => rfl
      | updateConfig hc => rfl
      | setActive hc => rfl
  · rw [addsTo_of_ne hV, numStrategiesOf, numStrategiesOf, (exec_sameVault h hV).vault,
      Nat.add_zero]

/-! ## The invariant -/

/-- Every strategy is at the address of its number, which its vault has given away, and every
number given away has its strategy. -/
structure Numbered (p : ProgramAddresses) (w : World) : Prop where
  placed : ∀ k s, w.strategies k = some s → s.index.toNat < numStrategiesOf s.vault w ∧
    k = (strategyAddress p s.vault s.index).1
  filled : ∀ V (i : U8), i.toNat < numStrategiesOf V w →
    ∃ s, w.strategies (strategyAddress p V i).1 = some s ∧ s.vault = V ∧ s.index = i
  capped : ∀ V, numStrategiesOf V w ≤ MAX_STRATEGIES.toNat

theorem Genesis.numbered (h : Genesis p w) : Numbered p w where
  placed k s hk := by
    rw [h.strategies] at hk
    cases hk
  filled V i hi := by
    rw [numStrategiesOf, h.vaults, Option.elim_none] at hi
    omega
  capped V := by
    rw [numStrategiesOf, h.vaults, Option.elim_none]
    exact Nat.zero_le _

theorem StrategyStep.index_eq {i : Instruction} (h : StrategyStep w k i s s') :
    s'.index = s.index := by
  cases h with
  | same => rfl
  | allocate _ _ _ _ _ kept => rw [kept]
  | deallocate _ _ _ _ _ kept => rw [kept]
  | report _ _ _ _ kept => rw [kept]
  | remove => rfl

theorem StrategyAdded.strategy_eq {a : StrategyAccounts} {name protocol : List U8}
    (h : StrategyAdded p env w a name protocol w' v v') :
    w'.strategies a.strategy = some (newStrategy p env a v name protocol) := by
  rw [h.world]
  exact World.setStrategy_strategies_self w a.strategy _

theorem StrategyAdded.strategies_of_ne {a : StrategyAccounts} {name protocol : List U8}
    (h : StrategyAdded p env w a name protocol w' v v') (hk : k ≠ a.strategy) :
    w'.strategies k = w.strategies k := by
  rw [h.world]
  exact World.setStrategy_strategies_of_ne w _ hk

/-- A strategy that was not there is the one `add_strategy` puts at the next number. -/
theorem exec_addedStrategy {i : Env × Instruction} (h : exec p w i = .ok w')
    (hk : w.strategies k = none) (hk' : w'.strategies k = some s) :
    ∃ env a v v' name protocol, StrategyAdded p env w a name protocol w' v v' ∧
      k = a.strategy ∧ s = newStrategy p env a v name protocol := by
  obtain ⟨env, a, -, name, protocol, rfl, -, -⟩ := exec_newStrategy h hk hk'
  obtain ⟨v, v', hs⟩ := addStrategy_eq_ok (show addStrategy p env w a name protocol = _ from h)
  by_cases hne : k = a.strategy
  · refine ⟨env, a, v, v', name, protocol, hs, hne, ?_⟩
    rw [hne, hs.strategy_eq] at hk'
    exact (Option.some_inj.mp hk').symm
  · rw [hs.strategies_of_ne hne, hk] at hk'
    cases hk'

theorem exec_numbered {i : Env × Instruction} (hw : Numbered p w) (h : exec p w i = .ok w') :
    Numbered p w' where
  placed k s' hk' := by
    have hcount := exec_numStrategies (V := s'.vault) h
    cases hk : w.strategies k with
    | some s =>
      obtain ⟨x, hx, hstep⟩ := exec_strategyStep h hk
      obtain rfl := Option.some_inj.mp (hx.symm.trans hk')
      obtain ⟨hlt, hplace⟩ := hw.placed k s hk
      rw [hstep.vault_eq, hstep.index_eq] at *
      exact ⟨by omega, hplace⟩
    | none =>
      obtain ⟨env, a, v, v', name, protocol, hs, rfl, rfl⟩ := exec_addedStrategy h hk hk'
      refine ⟨?_, hs.address⟩
      show v.numStrategies.toNat < numStrategiesOf a.vault w'
      rw [numStrategiesOf_of_vault hs.vault_eq, hs.count]
      omega
  filled V n hn := by
    by_cases hold : n.toNat < numStrategiesOf V w
    · obtain ⟨s, hs, hV, hindex⟩ := hw.filled V n hold
      obtain ⟨s', hs', hstep⟩ := exec_strategyStep h hs
      exact ⟨s', hs', hstep.vault_eq.trans hV, hstep.index_eq.trans hindex⟩
    · -- the count went up, so the instruction is an `add_strategy` on `V`
      have hcount := exec_numStrategies (V := V) h
      rcases addsTo_cases V i with hzero | ⟨env, a, name, protocol, rfl, rfl, -⟩
      · omega
      · obtain ⟨v, v', hs⟩ := addStrategy_eq_ok
          (show addStrategy p env w a name protocol = _ from h)
        rw [numStrategiesOf_of_vault hs.vault] at hold
        rw [numStrategiesOf_of_vault hs.vault_eq, hs.count] at hn
        have hnumber : v.numStrategies = n := BitVec.eq_of_toNat_eq (by omega)
        refine ⟨newStrategy p env a v name protocol, ?_, rfl, hnumber⟩
        rw [← hnumber, ← hs.address]
        exact hs.strategy_eq
  capped V := by
    have hcount := exec_numStrategies (V := V) h
    have hcap := hw.capped V
    rcases addsTo_cases V i with hzero | ⟨env, a, name, protocol, rfl, rfl, -⟩
    · omega
    · obtain ⟨v, v', hs⟩ := addStrategy_eq_ok
        (show addStrategy p env w a name protocol = _ from h)
      have hbelow := hs.below
      rw [numStrategiesOf_of_vault hs.vault_eq, hs.count]
      omega

theorem reachable_numbered (h : Reachable (exec p) (Genesis p) w) : Numbered p w :=
  reachable_invariant (fun _ hg ↦ hg.numbered) (fun _ _ _ hs hx ↦ exec_numbered hs hx) h

/-! ## The strategies of a vault -/

/-- The addresses that hold a strategy of the vault at `V`. -/
def strategiesOf (V : Pubkey) (w : World) : Set Pubkey :=
  {k | ∃ s, w.strategies k = some s ∧ s.vault = V}

theorem Numbered.mem_strategiesOf (hw : Numbered p w) : k ∈ strategiesOf V w ↔
    ∃ i : U8, i.toNat < numStrategiesOf V w ∧ k = (strategyAddress p V i).1 := by
  apply Iff.intro
  · intro h
    obtain ⟨s, hk, rfl⟩ := h
    exact ⟨s.index, hw.placed k s hk⟩
  · intro h
    obtain ⟨i, hi, rfl⟩ := h
    obtain ⟨s, hs, hV, -⟩ := hw.filled V i hi
    exact ⟨s, hs, hV⟩

/-- Two strategies of a vault with one number are one. -/
theorem Numbered.eq_of_index (hw : Numbered p w) {k' : Pubkey} (hk : w.strategies k = some s)
    (hk' : w.strategies k' = some s') (hV : s.vault = s'.vault) (hi : s.index = s'.index) :
    k = k' := by
  rw [(hw.placed k s hk).2, (hw.placed k' s' hk').2, hV, hi]

theorem Numbered.ncard_strategiesOf (hw : Numbered p w) (V : Pubkey) :
    (strategiesOf V w).ncard = numStrategiesOf V w := by
  have hcap := hw.capped V
  have hmax : MAX_STRATEGIES.toNat = 10 := rfl
  have htoNat : ∀ n, n < numStrategiesOf V w → (BitVec.ofNat 8 n).toNat = n := by
    intro n hn
    rw [BitVec.toNat_ofNat]
    omega
  refine (Set.ncard_eq_of_bijective
    (fun n _ ↦ (strategyAddress p V (BitVec.ofNat 8 n)).1) ?_ ?_ ?_)
  · intro k hk
    obtain ⟨i, hi, rfl⟩ := hw.mem_strategiesOf.mp hk
    exact ⟨i.toNat, hi, by rw [BitVec.ofNat_toNat, BitVec.setWidth_eq]⟩
  · intro n hn
    exact hw.mem_strategiesOf.mpr ⟨_, by rw [htoNat n hn]; exact hn, rfl⟩
  · intro m n hm hn he
    -- the strategy at a number's address carries that number
    obtain ⟨s, hs, -, hindex⟩ := hw.filled V (BitVec.ofNat 8 m) (by rw [htoNat m hm]; exact hm)
    obtain ⟨s', hs', -, hindex'⟩ := hw.filled V (BitVec.ofNat 8 n) (by rw [htoNat n hn]; exact hn)
    rw [he, hs', Option.some_inj] at hs
    have hnumbers : BitVec.ofNat 8 m = BitVec.ofNat 8 n := by rw [← hindex, ← hindex', hs]
    rw [← htoNat m hm, ← htoNat n hn, hnumbers]

/-- In every reachable state the strategies of a vault stand at the addresses of the numbers below
`num_strategies`, one for each and no others, and there are at most ten. -/
theorem strategies_numbered (hw : Reachable (exec p) (Genesis p) w) (hv : w.vaults V = some v) :
    v.numStrategies.toNat ≤ 10 ∧ (strategiesOf V w).ncard = v.numStrategies.toNat ∧
      (∀ k, k ∈ strategiesOf V w ↔
        ∃ i : U8, i.toNat < v.numStrategies.toNat ∧ k = (strategyAddress p V i).1) ∧
      ∀ k s, w.strategies k = some s → s.vault = V → k = (strategyAddress p V s.index).1 := by
  have hn := reachable_numbered hw
  have hcount := numStrategiesOf_of_vault hv
  refine ⟨hcount ▸ hn.capped V, hcount ▸ hn.ncard_strategiesOf V, fun k ↦ ?_, ?_⟩
  · rw [← hcount]
    exact hn.mem_strategiesOf
  · intro k s hk hV
    exact hV ▸ (hn.placed k s hk).2

theorem strategies_numbered_funded : ∃ v, fundedWorld.vaults Sample.vault = some v ∧
    (strategiesOf Sample.vault fundedWorld).ncard = v.numStrategies.toNat := by
  have hlive : (fundedWorld.vaults Sample.vault).isSome = true := by decide +kernel
  obtain ⟨v, hv⟩ := Option.isSome_iff_exists.mp hlive
  exact ⟨v, hv, (strategies_numbered ⟨_, fundedRun, Sample.genesis, rfl⟩ hv).2.1⟩

/-! ## Ten of them, and no more -/

/-- A chain on which the program has run nothing yet and no token account or mint stands at an
address it derives. -/
structure Launch (p : ProgramAddresses) (w : World) : Prop extends Genesis p w where
  accounts : ∀ k, p.isDerived k = true → w.tokens.account k = none
  mints : ∀ k, p.isDerived k = true → w.tokens.mint k = none

/-- No token account or mint stands at a derived address. -/
def Unsquatted (p : ProgramAddresses) (t : Tokens) : Prop :=
  ∀ k, p.isDerived k = true → t.account k = none ∧ t.mint k = none

theorem transferAsset_unsquatted {t t' : Tokens} {signers : List Pubkey}
    {src mint dst authority : Pubkey} {amount : U64} (ht : Unsquatted p t)
    (h : transferAsset env t signers src mint dst authority amount = .ok t') :
    Unsquatted p t' := by
  intro k hk
  have hmoved := (transferAsset_eq_ok h).2
  rw [Tokens.transfer_mint hmoved]
  exact ⟨Tokens.transfer_account_none hmoved (ht k hk).1, (ht k hk).2⟩

theorem mintTo_unsquatted {t t' : Tokens} {signers : List Pubkey} {mint dst authority : Pubkey}
    {amount : U64} (ht : Unsquatted p t)
    (h : t.mintTo signers mint dst authority amount = .ok t') : Unsquatted p t' :=
  fun k hk ↦ ⟨Tokens.mintTo_account_none h (ht k hk).1, Tokens.mintTo_mint_none h (ht k hk).2⟩

theorem burn_unsquatted {t t' : Tokens} {signers : List Pubkey} {src mint authority : Pubkey}
    {amount : U64} (ht : Unsquatted p t)
    (h : t.burn signers src mint authority amount = .ok t') : Unsquatted p t' :=
  fun k hk ↦ ⟨Tokens.burn_account_none h (ht k hk).1, Tokens.burn_mint_none h (ht k hk).2⟩

-- wallets create at addresses they sign for, and the program creates no token account at all
theorem exec_unsquatted {i : Env × Instruction} (hw : Unsquatted p w.tokens)
    (h : exec p w i = .ok w') : Unsquatted p w'.tokens := by
  cases exec_effect h with
  | initializeVault hi => exact hi.world ▸ hw
  | deposit hd =>
    rw [hd.world]
    exact mintTo_unsquatted (transferAsset_unsquatted hw hd.paid_ok) hd.minted_ok
  | instantWithdraw hx =>
    rw [hx.world]
    exact transferAsset_unsquatted (burn_unsquatted hw hx.burned_ok) hx.paid_ok
  | addStrategy hs => exact hs.world ▸ hw
  | allocate ha => exact ha.world ▸ hw
  | deallocate hd => exact hd.world ▸ hw
  | reportYield hr => exact hr.world ▸ hw
  | harvestNothing => exact hw
  | harvestFees hf =>
    rw [hf.world]
    rcases hf.minted_ok with he | hm
    · exact he ▸ hw
    · exact mintTo_unsquatted hw hm
  | removeStrategy hr => exact hr.world ▸ hw
  | updateConfig hc => exact hc.world ▸ hw
  | setActive hc => exact hc.world ▸ hw
  | wallet ht =>
    rw [ht.world]
    intro k hk
    have hcreated : _ ≠ some k := fun he ↦ by
      rw [ht.created k he] at hk
      cases hk
    exact ⟨Tokens.exec_account_none (hw k hk).1 hcreated ht.tokens,
      Tokens.exec_mint_none (hw k hk).2 hcreated ht.tokens⟩

theorem Launch.run_unsquatted (h : Launch p w) (is : List (Env × Instruction)) :
    Unsquatted p (run (exec p) w is).tokens :=
  run_invariant (I := fun w ↦ Unsquatted p w.tokens) (fun _ _ _ hs h ↦ exec_unsquatted hs h)
    (fun k hk ↦ ⟨h.accounts k hk, h.mints k hk⟩) is

/-- The address of a number of `V` is that of no vault and of no other strategy. -/
def AddressApart (p : ProgramAddresses) (V : Pubkey) (i : U8) (w : World) : Prop :=
  ∀ U, (w.vaults U).isSome → U ≠ (strategyAddress p V i).1 ∧
    ∀ j, (strategyAddress p U j).1 = (strategyAddress p V i).1 → U = V ∧ j = i

theorem Numbered.next_free (hw : Numbered p w) (hh : Homed w) (hv : w.vaults V = some v)
    (ha : AddressApart p V v.numStrategies w) :
    w.vaults (strategyAddress p V v.numStrategies).1 = none ∧
      w.strategies (strategyAddress p V v.numStrategies).1 = none := by
  apply And.intro
  · rw [← Option.not_isSome_iff_eq_none]
    exact fun hU ↦ (ha _ hU).1 rfl
  · rw [Option.eq_none_iff_forall_not_mem]
    intro s hs
    have hplaced := hw.placed _ s hs
    obtain ⟨hV, hi⟩ := (ha s.vault (hh _ s hs)).2 s.index hplaced.2.symm
    rw [hV, hi, numStrategiesOf_of_vault hv] at hplaced
    exact absurd hplaced.1 (lt_irrefl _)

/-- Over any run the number of a vault's strategies is the number of successful `add_strategy` on
it, and the next one succeeds exactly when the admin sends it for the next address and fewer than
ten have, whether or not their strategies have been removed since. -/
theorem addStrategy_slots {w₀ : World} {is : List (Env × Instruction)} (hw : Launch p w₀)
    (hv : (run (exec p) w₀ is).vaults V = some v)
    (ha : AddressApart p V v.numStrategies (run (exec p) w₀ is)) :
    v.numStrategies.toNat = tally (exec p) (fun _ i ↦ addsTo V i) w₀ is ∧
      ∀ env authority strategy name protocol,
        (addStrategy p env (run (exec p) w₀ is) ⟨authority, V, strategy⟩ name protocol).isOk =
            true ↔
          p.isDerived authority = false ∧ authority = v.admin ∧
            strategy = (strategyAddress p V v.numStrategies).1 ∧
            tally (exec p) (fun _ i ↦ addsTo V i) w₀ is < 10 := by
  have hcount : v.numStrategies.toNat = tally (exec p) (fun _ i ↦ addsTo V i) w₀ is := by
    have hsteps : EachStep (exec p)
        (fun w i w' ↦ numStrategiesOf V w' = numStrategiesOf V w + addsTo V i) w₀ is :=
      (always_of_invariant (I := fun _ ↦ True) (fun _ _ _ _ _ ↦ trivial) trivial is).eachStep
        fun _ _ _ _ h ↦ exec_numStrategies h
    have hsum := hsteps.tally_eq
    rw [numStrategiesOf_of_vault hv, numStrategiesOf, hw.vaults, Option.elim_none,
      Nat.zero_add] at hsum
    exact hsum
  refine ⟨hcount, fun env authority strategy name protocol ↦ ?_⟩
  have hreach : Reachable (exec p) (Genesis p) (run (exec p) w₀ is) :=
    ⟨w₀, is, hw.toGenesis, rfl⟩
  obtain ⟨hnoVault, hnoStrategy⟩ :=
    (reachable_numbered hreach).next_free (reachable_homed hreach) hv ha
  obtain ⟨hnoAccount, hnoMint⟩ :=
    hw.run_unsquatted is (strategyAddress p V v.numStrategies).1 (p.isDerived_find _)
  have hmax : MAX_STRATEGIES.toNat = 10 := rfl
  apply Iff.intro
  · intro h
    obtain ⟨w', hw'⟩ := isOk_iff.mp h
    obtain ⟨u, u', hs⟩ := addStrategy_eq_ok hw'
    obtain rfl := Option.some_inj.mp (hs.vault.symm.trans hv)
    have hbelow := hs.below
    exact ⟨hs.signer, hs.admin, hs.address, by omega⟩
  · intro h
    obtain ⟨hsigner, hadmin, rfl, hbelow⟩ := h
    have hnext : (v.numStrategies + 1).toNat = v.numStrategies.toNat + 1 := by
      rw [BitVec.toNat_add]
      show (v.numStrategies.toNat + 1) % 256 = _
      omega
    rw [isOk_iff]
    simp only [addStrategy, bind_eq_ok, requireSigner_eq_ok, orElse_eq_ok, require_eq_ok,
      unwrap_eq_ok, checkedAdd_eq_some, pure_eq_ok, exists_const]
    exact ⟨_, hsigner, v, hv, rfl, ⟨hnoVault, hnoStrategy⟩, ⟨hnoAccount, hnoMint⟩, hadmin,
      by omega, v.numStrategies + 1, hnext, rfl⟩

/-! ## A vault with three strategies -/

/-- In the sample derivation the bytes past an address are cut off, so the index of a strategy is
put before its vault. -/
def indexFirst : List (List U8) → List (List U8)
  | [tag, vault, index] =>
    if tag = ascii "strategy" then [tag, index, vault] else [tag, vault, index]
  | seeds => seeds

def indexedAddresses : ProgramAddresses where
  find seeds := sampleAddresses.find (indexFirst seeds)
  create seeds := sampleAddresses.create (indexFirst seeds)
  isDerived := sampleAddresses.isDerived
  create_find seeds := sampleAddresses.create_find (indexFirst seeds)
  isDerived_create seeds := sampleAddresses.isDerived_create (indexFirst seeds)

def strategyKey (index : U8) : Pubkey := (strategyAddress indexedAddresses Sample.vault index).1

/-- Of 400 the last strategy holds 300, the others nothing, and 100 are idle. -/
def threeRun : List (Env × Instruction) :=
  Sample.setup (Sample.config 0 0) ++
    [(Sample.clock 0, .deposit Sample.userAccounts 400),
     (Sample.clock 0, .addStrategy ⟨Sample.admin, Sample.vault, strategyKey 0⟩ [] []),
     (Sample.clock 0, .addStrategy ⟨Sample.admin, Sample.vault, strategyKey 1⟩ [] []),
     (Sample.clock 0, .addStrategy ⟨Sample.admin, Sample.vault, strategyKey 2⟩ [] []),
     (Sample.clock 0, .allocate ⟨Sample.admin, Sample.vault, strategyKey 2⟩ 300)]

def threeWorld : World := run (exec indexedAddresses) Sample.empty threeRun

theorem launch_indexed : Launch indexedAddresses Sample.empty where
  vaults _ := rfl
  strategies _ := rfl
  sound := Tokens.sound_of_account_none fun _ ↦ rfl
  undelegated k a h := by cases h
  accounts _ _ := rfl
  mints _ _ := rfl

theorem threeWorld_apart : AddressApart indexedAddresses Sample.vault 3 threeWorld := by
  intro U hU
  obtain rfl : U = Sample.vault := by
    by_contra hne
    have hnone : threeWorld.vaults U = Sample.empty.vaults U := by
      apply run_vaults_of_ne
      have hnamed : ∀ i ∈ threeRun, i.2.vault = none ∨ i.2.vault = some Sample.vault := by
        simp [threeRun, Sample.setup, Instruction.vault, Sample.userAccounts]
      intro i hi he
      rcases hnamed i hi with h | h
      · rw [h] at he
        cases he
      · exact hne (Option.some_inj.mp (he.symm.trans h))
    rw [hnone] at hU
    cases hU
  have hvault : Sample.vault ≠ strategyKey 3 := by decide +kernel
  have hnumbers : ∀ j : U8, strategyKey j = strategyKey 3 → j = 3 := by decide +kernel
  exact ⟨hvault, fun j hj ↦ ⟨rfl, hnumbers j hj⟩⟩

theorem addStrategy_slots_three :
    tally (exec indexedAddresses) (fun _ i ↦ addsTo Sample.vault i) Sample.empty threeRun = 3 ∧
      (addStrategy indexedAddresses (Sample.clock 0) threeWorld
        ⟨Sample.admin, Sample.vault, strategyKey 3⟩ [] []).isOk = true := by
  have hv : (threeWorld.vaults Sample.vault).map (fun v ↦ (v.numStrategies, v.admin)) =
      some (3, Sample.admin) := by
    decide +kernel
  rw [Option.map_eq_some_iff] at hv
  obtain ⟨v, hv, hx⟩ := hv
  obtain ⟨hcount, hadmin⟩ := Prod.mk.inj hx
  obtain ⟨htally, hadd⟩ := addStrategy_slots launch_indexed hv (hcount ▸ threeWorld_apart)
  rw [hcount] at htally hadd
  refine ⟨htally.symm, (hadd (Sample.clock 0) Sample.admin (strategyKey 3) [] []).mpr
    ⟨by decide +kernel, hadmin.symm, rfl, ?_⟩⟩
  rw [← htally]
  decide

end VaultProgram
