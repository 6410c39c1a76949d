import CrossFluf.Kyc.Noninterference

/-!
# The hook and the history of a wallet

The byte the hook reads for a wallet is the flag of the last `set_kyc_status` for it that went
through, whoever made it.
-/

namespace KycHook

open Machine Solana Outcome Bytes Run

variable {p : ProgramAddresses} {spl : Token2022} {w w' : World} {m u v : Pubkey}
  {l : List (List (List U8))} {i : I64 × Instruction} {is : List (I64 × Instruction)}

/-! ## Addresses that do not collide -/

/-- The seeds of the registry or of the status an instruction creates. -/
def Instruction.seeds : Instruction → List (List (List U8))
  | .call (.initializeRegistry a) => [registrySeeds a.mint]
  | .call (.setKycStatus a _ _) => [statusSeeds a.user]
  | _ => []

/-- No two of the listed seeds derive one address. -/
def InjectiveOn (p : ProgramAddresses) (l : List (List (List U8))) : Prop :=
  ∀ s ∈ l, ∀ t ∈ l, (p.find s).1 = (p.find t).1 → s = t

instance (p : ProgramAddresses) (l : List (List (List U8))) : Decidable (InjectiveOn p l) :=
  inferInstanceAs (Decidable (∀ s ∈ l, ∀ t ∈ l, _ → _))

theorem registrySeeds_ne_statusSeeds (m u : Pubkey) : registrySeeds m ≠ statusSeeds u := by
  intro he
  have htag : ascii "kyc-registry" = ascii "kyc-status" := (List.cons.inj he).1
  revert htag
  decide

theorem statusSeeds_injective (h : statusSeeds u = statusSeeds v) : u = v := by
  have hbytes : Pubkey.bytes u = Pubkey.bytes v := (List.cons.inj (List.cons.inj h).2).1
  rw [← Pubkey.ofBytes_bytes u, hbytes, Pubkey.ofBytes_bytes]

theorem InjectiveOn.registry_ne (h : InjectiveOn p l) (hm : registrySeeds m ∈ l)
    (hu : statusSeeds u ∈ l) : statusAddress p u ≠ registryAddress p m := by
  intro he
  exact registrySeeds_ne_statusSeeds m u (h _ hm _ hu he.symm)

theorem InjectiveOn.status_ne (h : InjectiveOn p l) (hv : statusSeeds v ∈ l)
    (hu : statusSeeds u ∈ l) (hne : v ≠ u) : statusAddress p u ≠ statusAddress p v := by
  intro he
  exact hne (statusSeeds_injective (h _ hv _ hu he.symm))

/-! ## One instruction -/

/-- What an instruction sets the verification of a wallet to. -/
def setsStatus (u : Pubkey) (i : I64 × Instruction) : Option Bool :=
  match i.2 with
  | .call (.setKycStatus a isVerified _) => if a.user = u then some isVerified else none
  | _ => none

/-- The registries are those of mints with listed seeds. -/
def Listed (l : List (List (List U8))) (w : World) : Prop :=
  ∀ k r, w.Holds registryAccount k r → registrySeeds r.mint ∈ l

theorem exec_listed (hl : Listed l w) (hi : ∀ s ∈ i.2.seeds, s ∈ l)
    (h : exec p spl w i = .ok w') : Listed l w' := by
  intro k r hr
  rcases exec_registry h hr with ⟨r₀, hr₀, hm⟩ | ⟨a, hia, -, hm⟩
  · rw [← hm]
    exact hl k r₀ hr₀
  · rw [hm]
    apply hi
    rw [hia]
    exact List.mem_singleton_self _

/-- Only a `set_kyc_status` for a wallet changes what the hook reads for it. -/
theorem exec_verified (hinj : InjectiveOn p l) (hu : statusSeeds u ∈ l) (hw : Homed p w)
    (hl : Listed l w) (hi : ∀ s ∈ i.2.seeds, s ∈ l) (h : exec p spl w i = .ok w') :
    verified p w' u = (setsStatus u i).getD (verified p w u) := by
  have hkeep : statusAddress p u ∉ i.2.writes → verified p w' u = verified p w u := by
    intro hk
    rw [verified, exec_accounts_of_notMem h hk, verified]
  have hregistry : ∀ {k r}, w.Holds registryAccount k r → statusAddress p u ≠ k := by
    intro k r hr
    rw [hw.registry k r hr]
    exact hinj.registry_ne (hl k r hr) hu
  obtain ⟨now, i⟩ := i
  cases i with
  | call c =>
    cases c with
    | initializeRegistry a =>
      apply hkeep
      show statusAddress p u ∉ [a.registry]
      rw [(initializeRegistry_eq_ok h).registry_eq, List.mem_singleton]
      exact hinj.registry_ne (hi _ (List.mem_singleton_self _)) hu
    | setKycStatus a isVerified expiresAt =>
      obtain ⟨r, total, hs⟩ := setKycStatus_eq_ok h
      show _ = (if a.user = u then some isVerified else none).getD _
      by_cases hau : a.user = u
      · rw [if_pos hau, verified, hs.world, ← hau, ← hs.kycStatus_eq,
          World.setData_accounts_self, passesKyc_store]
        rfl
      · rw [if_neg hau]
        apply hkeep
        have hstatus := hinj.status_ne (hi _ (List.mem_singleton_self _)) hu hau
        show statusAddress p u ∉ [a.registry, a.kycStatus]
        rw [hs.kycStatus_eq, List.mem_cons, List.mem_singleton, not_or]
        exact ⟨hregistry hs.registry_ok, hstatus⟩
    | transferAuthority a newAuthority =>
      obtain ⟨r, ht⟩ := transferAuthority_eq_ok h
      apply hkeep
      show statusAddress p u ∉ [a.registry]
      rw [List.mem_singleton]
      exact hregistry ht.registry_ok
  | initializeExtraAccountMetaList a => exact hkeep List.not_mem_nil
  | createMint k data =>
    apply hkeep
    show statusAddress p u ∉ [k]
    rw [List.mem_singleton]
    exact p.find_ne_signer (createMint_eq_ok h).1 _

/-! ## Runs -/

/-- A chain on which the hook has not run yet: its addresses are unused. -/
structure Launch (p : ProgramAddresses) (w : World) : Prop extends Genesis w where
  unused : ∀ k, p.isDerived k = true → w.accounts k = ⟨.system, []⟩

theorem Launch.verified_eq (hw : Launch p w) (u : Pubkey) : verified p w u = false := by
  have hunused : w.accounts (statusAddress p u) = ⟨.system, []⟩ :=
    hw.unused _ (p.isDerived_find _)
  rw [verified, hunused]
  rfl

/-- The flag of the last `set_kyc_status` for a wallet that went through in a run. -/
def lastStatus (p : ProgramAddresses) (spl : Token2022) (w : World)
    (is : List (I64 × Instruction)) (u : Pubkey) : Option Bool :=
  latest (exec p spl) (setsStatus u) w is

theorem run_verified (hw : Launch p w) (hinj : InjectiveOn p l) (hu : statusSeeds u ∈ l)
    (his : ∀ i ∈ is, ∀ s ∈ i.2.seeds, s ∈ l) :
    verified p (run (exec p spl) w is) u = true ↔ lastStatus p spl w is u = some true := by
  have hlisted : Listed l w := fun k r hr ↦ absurd hr.1 (hw.accounts k)
  have hseeds : EachStep (exec p spl) (fun _ i _ ↦ ∀ s ∈ i.2.seeds, s ∈ l) w is :=
    eachStep_of_forall_mem his w
  -- both invariants need the seeds of the step to be listed
  have hinv : Always (exec p spl) (fun w ↦ Homed p w ∧ Listed l w) w is := by
    refine hseeds.always ?_ ⟨hw.toGenesis.homed, hlisted⟩
    intro w₁ i w₂ h₁ hi h
    exact ⟨exec_homed h₁.1 h, exec_listed h₁.2 hi h⟩
  have hstates := hinv.eachStep (P := fun w₁ _ _ ↦ Homed p w₁ ∧ Listed l w₁) fun _ _ _ h₁ _ ↦ h₁
  have hstep : EachStep (exec p spl)
      (fun w₁ i w₂ ↦ verified p w₂ u = (setsStatus u i).getD (verified p w₁ u)) w is := by
    apply (hstates.and hseeds).mono
    intro w₁ i w₂ h hx
    exact exec_verified hinj hu hx.1.1 hx.1.2 hx.2 h
  have hlast := hstep.eq_latest
  rw [hw.verified_eq] at hlast
  rw [hlast, lastStatus]
  cases latest (exec p spl) (setsStatus u) w is with
  | none => decide
  | some b => exact Option.some_inj.symm

/-! ## Transfers -/

theorem fallback_eq_error {accounts : List AccountInfo} {data : List U8}
    (h : ∀ amount, spl.unpackInstruction data ≠ some (.execute amount)) :
    fallback spl accounts data = .error .invalidInstructionData := by
  unfold fallback
  cases hdata : spl.unpackInstruction data with
  | none => rfl
  | some t =>
    cases t with
    | execute amount => exact absurd hdata (h amount)
    | initializeExtraAccountMetaList => rfl
    | updateExtraAccountMetaList => rfl

/-- The hook approves a transfer after a run exactly when the last status set for either owner
verified it. -/
theorem fallback_follows_history {x : Transfer} {a b : TokenAccountState}
    {accounts : List AccountInfo} (hw : Launch p w)
    (hinj : InjectiveOn p (is.flatMap (·.2.seeds) ++ [statusSeeds a.owner, statusSeeds b.owner]))
    (ha : spl.unpackAccount x.source.data = some a)
    (hb : spl.unpackAccount x.destination.data = some b) (htr : a.transferring = some true)
    (hres : resolve p (run (exec p spl) w is) x = some accounts) (data : List U8) :
    (fallback spl accounts data = .ok () →
        lastStatus p spl w is a.owner = some true ∧ lastStatus p spl w is b.owner = some true) ∧
      (lastStatus p spl w is a.owner = some true → lastStatus p spl w is b.owner = some true →
        fallback spl accounts data ≠ .error (.custom .sourceNotVerified) ∧
          fallback spl accounts data ≠ .error (.custom .destinationNotVerified) ∧
          ∀ amount, spl.unpackInstruction data = some (.execute amount) →
            fallback spl accounts data = .ok ()) := by
  have hhome : Homed p (run (exec p spl) w is) := reachable_homed ⟨w, is, hw.toGenesis, rfl⟩
  have his : ∀ i ∈ is, ∀ s ∈ i.2.seeds,
      s ∈ is.flatMap (·.2.seeds) ++ [statusSeeds a.owner, statusSeeds b.owner] := by
    intro i hi s hs
    exact List.mem_append_left _ (List.mem_flatMap.mpr ⟨i, hi, hs⟩)
  have hsource : verified p (run (exec p spl) w is) a.owner = true ↔
      lastStatus p spl w is a.owner = some true :=
    run_verified hw hinj (List.mem_append_right _ List.mem_cons_self) his
  have hdest : verified p (run (exec p spl) w is) b.owner = true ↔
      lastStatus p spl w is b.owner = some true :=
    run_verified hw hinj (List.mem_append_right _ (List.mem_cons_of_mem _ List.mem_cons_self)) his
  -- the two statuses the hook reads are those of the owners
  have hexecute : ∀ amount, spl.unpackInstruction data = some (.execute amount) →
      (fallback spl accounts data = .ok () ↔
        lastStatus p spl w is a.owner = some true ∧ lastStatus p spl w is b.owner = some true) := by
    intro amount hdata
    cases hms : (run (exec p spl) w is).metas (metasAddress p x.mint) with
    | none =>
      rw [resolve, hms] at hres
      cases hres
    | some ms =>
      rw [hhome.metas _ _ hms] at hms
      rw [resolve_eq hms ha hb, Option.some_inj] at hres
      rw [← hres, fallback_eq_ok hdata ha, ← hsource, ← hdest]
      exact and_iff_right htr
  by_cases hdata : ∃ amount, spl.unpackInstruction data = some (.execute amount)
  · obtain ⟨amount, hamount⟩ := hdata
    refine ⟨(hexecute amount hamount).mp, ?_⟩
    intro hs hd
    have hok := (hexecute amount hamount).mpr ⟨hs, hd⟩
    rw [hok]
    simp only [ne_eq, reduceCtorEq, not_false_eq_true, implies_true, and_self]
  · rw [not_exists] at hdata
    rw [fallback_eq_error hdata]
    simp only [ne_eq, reduceCtorEq, Except.error.injEq, not_false_eq_true, false_imp_iff, true_and]
    intro _ _ amount hamount
    exact absurd hamount (hdata amount)

/-! ## A wallet that is verified, revoked and verified again -/

def historyRun (flags : List Bool) : List (I64 × Instruction) :=
  Sample.setup ++ flags.map fun isVerified ↦
    (0, .call (Sample.setStatus Sample.authority Sample.registry Sample.wallet isVerified (-1)))

def historyWorld (flags : List Bool) : World :=
  run (exec sampleAddresses sampleToken2022) Sample.empty (historyRun flags)

theorem launch_sample : Launch sampleAddresses Sample.empty where
  toGenesis := Sample.genesis
  unused _ _ := rfl

theorem historyWorld_resolve (flags : List Bool)
    (h : (historyWorld flags).metas (metasAddress sampleAddresses Sample.mint) =
      some extraAccountMetas) :
    resolve sampleAddresses
        (run (exec sampleAddresses sampleToken2022) Sample.empty (historyRun flags))
        sampleTransfer = some (sampleAccounts (historyWorld flags)) :=
  resolve_eq (x := sampleTransfer) (a := sampleToken) (b := sampleToken) h
    (sampleToken2022.unpack_pack sampleToken) (sampleToken2022.unpack_pack sampleToken)

/-- The seeds a transfer after the run depends on. -/
def historySeeds (flags : List Bool) : List (List (List U8)) :=
  (historyRun flags).flatMap (·.2.seeds) ++
    [statusSeeds sampleToken.owner, statusSeeds sampleToken.owner]

theorem fallback_follows_history_twice :
    fallback sampleToken2022 (sampleAccounts (historyWorld [true, false]))
        (sampleToken2022.packExecute 5) ≠ .ok () ∧
      fallback sampleToken2022 (sampleAccounts (historyWorld [true, false, true]))
        (sampleToken2022.packExecute 5) = .ok () := by
  have htoken := sampleToken2022.unpack_pack sampleToken
  constructor
  · intro hok
    have hinj : InjectiveOn sampleAddresses (historySeeds [true, false]) := by decide +kernel
    have hres := historyWorld_resolve [true, false] (by decide +kernel)
    have hhook := fallback_follows_history (x := sampleTransfer) launch_sample hinj htoken htoken
      rfl hres (sampleToken2022.packExecute 5)
    have hlast := (hhook.1 hok).1
    revert hlast
    decide +kernel
  · have hinj : InjectiveOn sampleAddresses (historySeeds [true, false, true]) := by
      decide +kernel
    have hres := historyWorld_resolve [true, false, true] (by decide +kernel)
    have hhook := fallback_follows_history (x := sampleTransfer) launch_sample hinj htoken htoken
      rfl hres (sampleToken2022.packExecute 5)
    have happroved := hhook.2 (by decide +kernel) (by decide +kernel)
    exact happroved.2.2 5 (sampleToken2022.unpack_execute 5)

end KycHook
