import CrossFluf.Kyc.EntryPoints

/-!
# Registries of different mints

The status of a wallet is not kept per mint.  Whoever controls any registry decides about the
transfers of every mint.
-/

namespace KycHook

open Machine Solana Outcome Bytes Run

variable {p : ProgramAddresses} {spl : Token2022} {w w' : World} {M u : Pubkey} {c : I64 × Call}

/-- The pairs of owners between which the hook approves some transfer of a mint. -/
def approvedPairs (p : ProgramAddresses) (spl : Token2022) (w : World) (M : Pubkey) :
    Set (Pubkey × Pubkey) :=
  {o | ∃ (x : Transfer) (tr : Option Bool) (accounts : List AccountInfo) (amount : U64),
    x.mint = M ∧ spl.unpackAccount x.source.data = some ⟨M, o.1, some true⟩ ∧
      spl.unpackAccount x.destination.data = some ⟨M, o.2, tr⟩ ∧
      resolve p w x = some accounts ∧ fallback spl accounts (spl.packExecute amount) = .ok ()}

/-- The byte the hook reads for a wallet. -/
def verified (p : ProgramAddresses) (w : World) (u : Pubkey) : Bool :=
  passesKyc (w.accounts (statusAddress p u)).data

theorem mem_approvedPairs (hw : Homed p w) {s t : Pubkey} :
    (s, t) ∈ approvedPairs p spl w M ↔ (w.metas (metasAddress p M)).isSome ∧
      verified p w s = true ∧ verified p w t = true := by
  constructor
  · rintro ⟨x, tr, accounts, amount, rfl, hs, ht, hr, hf⟩
    cases hms : w.metas (metasAddress p x.mint) with
    | none =>
      rw [resolve, hms] at hr
      cases hr
    | some ms =>
      rw [hw.metas _ _ hms] at hms
      rw [resolve_eq hms hs ht, Option.some_inj] at hr
      subst hr
      exact ⟨rfl, ((fallback_eq_ok (spl.unpack_execute amount) hs).mp hf).2⟩
  · rintro ⟨hms, hs, ht⟩
    obtain ⟨ms, hms⟩ := Option.isSome_iff_exists.mp hms
    have hms' := hw.metas _ _ hms ▸ hms
    have hsource := spl.unpack_pack ⟨M, s, some true⟩
    have hdest := spl.unpack_pack ⟨M, t, none⟩
    let x : Transfer :=
      ⟨⟨s, .token2022, spl.packAccount ⟨M, s, some true⟩⟩, M,
        ⟨t, .token2022, spl.packAccount ⟨M, t, none⟩⟩, s⟩
    have hresolve := resolve_eq (x := x) hms' hsource hdest
    exact ⟨x, none, _, 0, rfl, hsource, hdest, hresolve,
      (fallback_eq_ok (spl.unpack_execute 0) hsource).mpr ⟨rfl, hs, ht⟩⟩

/-- Verified wallets are all the hook tells apart, once a mint has its list of extra accounts. -/
theorem approvedPairs_eq_iff (hw : Homed p w) (hw' : Homed p w') (hms : w'.metas = w.metas) :
    approvedPairs p spl w' M = approvedPairs p spl w M ↔
      w.metas (metasAddress p M) = none ∨ ∀ u, verified p w' u = verified p w u := by
  constructor
  · intro he
    refine or_iff_not_imp_left.mpr fun hsome u ↦ ?_
    have hmem := Set.ext_iff.mp he (u, u)
    rw [mem_approvedPairs hw, mem_approvedPairs hw', hms] at hmem
    have hlist : (w.metas (metasAddress p M)).isSome := Option.isSome_iff_ne_none.mpr hsome
    simp only [hlist, and_self, true_and] at hmem
    exact Bool.eq_iff_iff.mpr hmem
  · intro h
    ext ⟨s, t⟩
    rw [mem_approvedPairs hw, mem_approvedPairs hw', hms]
    rcases h with hnone | hsame
    · rw [hnone]
      simp
    · rw [hsame, hsame]

/-! ## One call -/

/-- A status is set to the flag it already has. -/
def KeepsFlag (w : World) (c : I64 × Call) (_ : World) : Prop :=
  match c.2 with
  | .setKycStatus a isVerified _ => passesKyc (w.accounts a.kycStatus).data = isVerified
  | _ => True

/-- Registries are never where statuses are. -/
def Separate (p : ProgramAddresses) : Prop :=
  ∀ mint wallet, registryAddress p mint ≠ statusAddress p wallet

-- a registry that is written changes no flag
theorem verified_setRegistry (hsep : Separate p) {k : Pubkey} {data : List U8} {m : Pubkey}
    (hk : k = registryAddress p m) (u : Pubkey) :
    verified p (w.setData k data) u = verified p w u := by
  have hne : statusAddress p u ≠ k := fun he ↦ hsep m u (hk ▸ he.symm)
  rw [verified, verified, World.setData_accounts_of_ne _ _ hne]

theorem execCall_verified (hsep : Separate p) (hw : Homed p w)
    (h : execCall p spl w c = .ok w') :
    (∀ u, verified p w' u = verified p w u) ↔ KeepsFlag w c w' := by
  obtain ⟨now, c⟩ := c
  cases c with
  | initializeRegistry a =>
    have hi := initializeRegistry_eq_ok h
    rw [hi.world]
    exact iff_of_true (verified_setRegistry hsep hi.registry_eq) trivial
  | transferAuthority a newAuthority =>
    obtain ⟨r, ht⟩ := transferAuthority_eq_ok h
    rw [ht.world]
    exact iff_of_true (verified_setRegistry hsep (hw.registry _ r ht.registry_ok)) trivial
  | setKycStatus a isVerified expiresAt =>
    obtain ⟨r, total, hs⟩ := setKycStatus_eq_ok h
    have hregistry := hw.registry _ r hs.registry_ok
    have hself : verified p w' a.user = isVerified := by
      rw [verified, hs.world, ← hs.kycStatus_eq, World.setData_accounts_self, passesKyc_store]
    show _ ↔ passesKyc (w.accounts a.kycStatus).data = isVerified
    rw [hs.kycStatus_eq]
    constructor
    · intro hsame
      rw [← hself]
      exact (hsame a.user).symm
    · intro hkeep u
      by_cases hu : statusAddress p u = statusAddress p a.user
      · rw [verified, hu]
        exact hself.trans (hkeep.symm.trans (by rw [verified, hu]))
      · rw [verified, hs.world, World.setData_accounts_of_ne _ _ (hs.kycStatus_eq ▸ hu)]
        exact verified_setRegistry hsep hregistry u

/-! ## Runs -/

/-- The call is not signed by the authority of the registry of `M`. -/
def ForeignTo (p : ProgramAddresses) (M : Pubkey) (w : World) (c : I64 × Call) (_ : World) :
    Prop :=
  ∀ r, w.Holds registryAccount (registryAddress p M) r → c.2.signer ≠ r.authority

/-- A status is set in the name of another mint. -/
def ThroughOther (M : Pubkey) (w : World) (c : I64 × Call) (_ : World) : Prop :=
  match c.2 with
  | .setKycStatus a _ _ => ∃ r, w.Holds registryAccount a.registry r ∧ r.mint ≠ M
  | _ => True

theorem ForeignTo.throughOther (hw : Homed p w) (hf : ForeignTo p M w c w')
    (h : execCall p spl w c = .ok w') : ThroughOther M w c w' := by
  obtain ⟨now, c⟩ := c
  cases c with
  | initializeRegistry a => trivial
  | transferAuthority a newAuthority => trivial
  | setKycStatus a isVerified expiresAt =>
    obtain ⟨r, total, hs⟩ := setKycStatus_eq_ok h
    refine ⟨r, hs.registry_ok, fun hm ↦ ?_⟩
    have hk := hw.registry _ r hs.registry_ok
    rw [hm] at hk
    exact hf r (hk ▸ hs.registry_ok) hs.authority_eq

/-- Calls that the authority of `M` does not sign leave the transfers of `M` as they are exactly
when each status they set, always through a registry of another mint, keeps its flag (or `M` has no
list of extra accounts, so that nothing is approved). -/
theorem noninterference_iff (hsep : Separate p) (hw : Reachable (exec p spl) Genesis w)
    {cs : List (I64 × Call)} (hforeign : EachStep (execCall p spl) (ForeignTo p M) w cs) :
    EachStep (execCall p spl) (ThroughOther M) w cs ∧
      (Always (execCall p spl)
          (fun w' ↦ approvedPairs p spl w' M = approvedPairs p spl w M) w cs ↔
        w.metas (metasAddress p M) = none ∨ EachStep (execCall p spl) KeepsFlag w cs) := by
  have hhome := reachable_homed hw
  have hinv : Always (execCall p spl) (fun w' ↦ Homed p w' ∧ w'.metas = w.metas) w cs :=
    always_of_invariant
      (fun _ _ _ hi h ↦ ⟨execCall_homed hi.1 h, (execCall_metas h).trans hi.2⟩) ⟨hhome, rfl⟩ cs
  constructor
  · have hhomes := hinv.eachStep (P := fun w₁ _ _ ↦ Homed p w₁) fun _ _ _ hi _ ↦ hi.1
    exact (hhomes.and hforeign).mono fun _ _ _ h hw ↦ hw.2.throughOther hw.1 h
  -- one call keeps the pairs exactly when it keeps the flag
  have hrun := hinv.iff_eachStep
    (J := fun w' ↦ approvedPairs p spl w' M = approvedPairs p spl w M)
    (P := fun w₁ c w₂ ↦ w.metas (metasAddress p M) = none ∨ KeepsFlag w₁ c w₂)
    (by
      intro w₁ c w₂ h₁ h₂ hsame hstep
      rw [← hsame, approvedPairs_eq_iff h₁.1 h₂.1 (h₂.2.trans h₁.2.symm), h₁.2,
        execCall_verified hsep h₁.1 hstep])
    rfl
  rw [hrun]
  constructor
  · intro h
    refine or_iff_not_imp_left.mpr fun hsome ↦ ?_
    exact h.mono fun _ _ _ _ hor ↦ hor.resolve_left hsome
  · rintro (hnone | hkeep)
    · exact hinv.eachStep fun _ _ _ _ _ ↦ Or.inl hnone
    · exact hkeep.mono fun _ _ _ _ hk ↦ Or.inr hk

/-! ## A registry of a stranger -/

theorem separate_sample : Separate sampleAddresses := by
  intro mint wallet he
  have hmod : (registryAddress sampleAddresses mint).toNat % 32 =
      (statusAddress sampleAddresses wallet).toNat % 32 := congrArg (BitVec.toNat · % 32) he
  have hregistry : (registryAddress sampleAddresses mint).toNat % 32 = 13 :=
    sampleDigest_mod (registrySeeds mint)
  have hstatus : (statusAddress sampleAddresses wallet).toNat % 32 = 11 :=
    sampleDigest_mod (statusSeeds wallet)
  omega

/-- A stranger has set up a mint and a registry. -/
def strangerRun : List (I64 × Instruction) :=
  Sample.setup ++
    [(0, .createMint Sample.otherMint Sample.mintData),
     (0, .call (.initializeRegistry
       ⟨Sample.stranger, registryAddress sampleAddresses Sample.otherMint, Sample.otherMint⟩))]

def strangerWorld : World := run (exec sampleAddresses sampleToken2022) Sample.empty strangerRun

theorem strangerWorld_reachable :
    Reachable (exec sampleAddresses sampleToken2022) Genesis strangerWorld :=
  ⟨Sample.empty, strangerRun, Sample.genesis, rfl⟩

/-- The stranger verifies a wallet, or does not. -/
def verify (isVerified : Bool) : I64 × Call :=
  (0, Sample.setStatus Sample.stranger (registryAddress sampleAddresses Sample.otherMint)
    Sample.wallet isVerified (-1))

-- the registry of the first mint has another authority
theorem verify_foreign (isVerified : Bool) :
    EachStep (execCall sampleAddresses sampleToken2022) (ForeignTo sampleAddresses Sample.mint)
      strangerWorld [verify isVerified] := by
  refine ⟨fun w' _ r hr ↦ ?_, trivial⟩
  have hauthority : (registryAccount.load (strangerWorld.accounts Sample.registry).data).map
      KycRegistry.authority = some Sample.authority := by
    decide +kernel
  rw [show registryAccount.load (strangerWorld.accounts Sample.registry).data = some r from hr.2,
    Option.map_some, Option.some_inj] at hauthority
  rw [hauthority]
  show Sample.stranger ≠ Sample.authority
  decide

theorem noninterference_iff_refused :
    EachStep (execCall sampleAddresses sampleToken2022) (ThroughOther Sample.mint) strangerWorld
        [verify false] ∧
      (Always (execCall sampleAddresses sampleToken2022)
          (fun w' ↦ approvedPairs sampleAddresses sampleToken2022 w' Sample.mint =
            approvedPairs sampleAddresses sampleToken2022 strangerWorld Sample.mint)
          strangerWorld [verify false] ↔
        strangerWorld.metas (metasAddress sampleAddresses Sample.mint) = none ∨
          EachStep (execCall sampleAddresses sampleToken2022) KeepsFlag strangerWorld
            [verify false]) :=
  noninterference_iff separate_sample strangerWorld_reachable (verify_foreign false)

theorem noninterference_fails : ¬ ∀ (p : ProgramAddresses) (spl : Token2022) (w : World)
    (M : Pubkey) (cs : List (I64 × Call)), Separate p → Reachable (exec p spl) Genesis w →
      (∃ r, w.Holds registryAccount (registryAddress p M) r) →
      EachStep (execCall p spl) (ForeignTo p M) w cs →
        approvedPairs p spl (run (execCall p spl) w cs) M = approvedPairs p spl w M := by
  intro hall
  have hregistry : ∃ r, strangerWorld.Holds registryAccount
      (registryAddress sampleAddresses Sample.mint) r := by
    refine ⟨⟨Sample.authority, Sample.mint, 0, 255⟩, ?_⟩
    rw [World.Holds]
    decide +kernel
  have hsame := hall sampleAddresses sampleToken2022 strangerWorld Sample.mint [verify true]
    separate_sample strangerWorld_reachable hregistry (verify_foreign true)
  have hhome : Homed sampleAddresses strangerWorld := reachable_homed strangerWorld_reachable
  have hhome' : Homed sampleAddresses
      (run (execCall sampleAddresses sampleToken2022) strangerWorld [verify true]) :=
    run_invariant (fun _ _ _ hw h ↦ execCall_homed hw h) hhome _
  have hafter : (Sample.wallet, Sample.wallet) ∈ approvedPairs sampleAddresses sampleToken2022
      (run (execCall sampleAddresses sampleToken2022) strangerWorld [verify true])
      Sample.mint := by
    rw [mem_approvedPairs hhome']
    decide +kernel
  rw [hsame, mem_approvedPairs hhome] at hafter
  revert hafter
  decide +kernel

end KycHook
