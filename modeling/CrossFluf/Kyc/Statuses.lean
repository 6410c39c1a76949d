import CrossFluf.Kyc.History

/-!
# The records of the wallets

The call of an authority to set a status goes through in every reachable state, and the record it
leaves stays until the next one: who set it, when, and what they said.
-/

namespace KycHook

open Machine Solana Outcome Bytes Run

variable {p : ProgramAddresses} {spl : Token2022} {w w' : World} {k u : Pubkey}
  {i : I64 × Instruction} {is : List (I64 × Instruction)}

/-- The addresses of statuses are those of nothing else. -/
structure StatusesApart (p : ProgramAddresses) : Prop where
  registry : ∀ mint wallet, registryAddress p mint ≠ statusAddress p wallet
  metas : ∀ mint wallet, metasAddress p mint ≠ statusAddress p wallet

/-! ## What the calls rely on -/

/-- `set_kyc_status` finds no account at the address of a status, or one it can read. -/
def Loadable (w : World) (k : Pubkey) : Prop :=
  w.Free k ∨ w.metas k = none ∧
    ∃ s, w.accounts k = ⟨.kycHook, statusAccount.store s⟩

theorem Loadable.load (h : Loadable w k) : ∃ s, loadStatusIfNeeded w k = .ok s := by
  rcases h with hfree | ⟨hms, s, hs⟩
  · exact ⟨.zero, if_pos hfree⟩
  · have hnot : ¬ w.Free k := by
      intro hf
      have howner := congrArg Account.owner (hs.symm.trans hf.1)
      cases howner
    refine ⟨s, ?_⟩
    rw [loadStatusIfNeeded, if_neg hnot]
    simp only [bind_eq_ok, load_eq_ok, require_eq_ok, pure_eq_ok, exists_const]
    refine ⟨s, ⟨?_, ?_⟩, ?_, rfl⟩
    · rw [World.info, hs]
    · rw [World.info, hs, Tagged.load_store]
    · rw [hs, statusAccount_store_length]

/-- The registries are where their mints say, under the canonical bump, and every status can be
loaded. -/
structure Settable (p : ProgramAddresses) (w : World) : Prop where
  homed : Homed p w
  bump : ∀ k r, w.Holds registryAccount k r → r.bump = (p.find (registrySeeds r.mint)).2
  status : ∀ u, Loadable w (statusAddress p u)

theorem Launch.settable (h : Launch p w) : Settable p w where
  homed := h.toGenesis.homed
  bump k _ hr := absurd hr.1 (h.accounts k)
  status _ := Or.inl ⟨h.unused _ (p.isDerived_find _), h.metas _⟩

theorem exec_bump (hw : ∀ k r, w.Holds registryAccount k r →
      r.bump = (p.find (registrySeeds r.mint)).2)
    (h : exec p spl w i = .ok w') {r : KycRegistry} (hr : w'.Holds registryAccount k r) :
    r.bump = (p.find (registrySeeds r.mint)).2 := by
  by_cases hk : k ∈ i.2.writes
  swap
  · exact hw k r (hr.congr (exec_accounts_of_notMem h hk))
  obtain ⟨now, i⟩ := i
  cases i with
  | call c =>
    cases c with
    | initializeRegistry a =>
      rw [List.mem_singleton.mp hk, (initializeRegistry_eq_ok h).world, holds_setData_self,
        Tagged.load_store, Option.some_inj] at hr
      rw [← hr]
    | setKycStatus a isVerified expiresAt =>
      obtain ⟨r₀, total, hs⟩ := setKycStatus_eq_ok h
      rw [hs.world] at hr
      by_cases hstatus : k = a.kycStatus
      · rw [hstatus, holds_setData_self,
          registryAccount.load_store_of_ne statusAccount registry_tag_ne] at hr
        cases hr
      · have hregistry : k = a.registry :=
          (List.mem_cons.mp hk).resolve_right fun hmem ↦ hstatus (List.mem_singleton.mp hmem)
        rw [holds_setData_of_ne hstatus, hregistry, holds_setData_self, Tagged.load_store,
          Option.some_inj] at hr
        rw [← hr]
        exact hw _ r₀ hs.registry_ok
    | transferAuthority a newAuthority =>
      obtain ⟨r₀, ht⟩ := transferAuthority_eq_ok h
      rw [List.mem_singleton.mp hk, ht.world, holds_setData_self, Tagged.load_store,
        Option.some_inj] at hr
      rw [← hr]
      exact hw _ r₀ ht.registry_ok
  | initializeExtraAccountMetaList a => cases hk
  | createMint m data =>
    obtain ⟨-, -, rfl⟩ := createMint_eq_ok h
    rw [List.mem_singleton.mp hk, World.Holds, World.setMint_accounts_self] at hr
    cases hr.1

/-- Only a `set_kyc_status` at that address writes to the address of a status. -/
theorem exec_status_kept (hapart : StatusesApart p) (hw : Homed p w)
    (hi : ∀ a isVerified expiresAt, i.2 = .call (.setKycStatus a isVerified expiresAt) →
      a.kycStatus ≠ statusAddress p u)
    (h : exec p spl w i = .ok w') :
    w'.accounts (statusAddress p u) = w.accounts (statusAddress p u) := by
  have hregistry : ∀ {k r}, w.Holds registryAccount k r → statusAddress p u ≠ k := by
    intro k r hr
    rw [hw.registry k r hr]
    exact (hapart.registry r.mint u).symm
  apply exec_accounts_of_notMem h
  obtain ⟨now, i⟩ := i
  cases i with
  | call c =>
    cases c with
    | initializeRegistry a =>
      show statusAddress p u ∉ [a.registry]
      rw [(initializeRegistry_eq_ok h).registry_eq, List.mem_singleton]
      exact (hapart.registry a.mint u).symm
    | setKycStatus a isVerified expiresAt =>
      obtain ⟨r, total, hs⟩ := setKycStatus_eq_ok h
      show statusAddress p u ∉ [a.registry, a.kycStatus]
      rw [List.mem_cons, List.mem_singleton, not_or]
      exact ⟨hregistry hs.registry_ok, (hi a isVerified expiresAt rfl).symm⟩
    | transferAuthority a newAuthority =>
      obtain ⟨r, ht⟩ := transferAuthority_eq_ok h
      show statusAddress p u ∉ [a.registry]
      rw [List.mem_singleton]
      exact hregistry ht.registry_ok
  | initializeExtraAccountMetaList a => exact List.not_mem_nil
  | createMint k data =>
    show statusAddress p u ∉ [k]
    rw [List.mem_singleton]
    exact p.find_ne_signer (createMint_eq_ok h).1 _

theorem exec_metas_status (hapart : StatusesApart p) (h : exec p spl w i = .ok w')
    (hms : w.metas (statusAddress p u) = none) : w'.metas (statusAddress p u) = none := by
  obtain ⟨now, i⟩ := i
  cases i with
  | call c => rw [execCall_metas h, hms]
  | initializeExtraAccountMetaList a =>
    have hw' := initializeExtraAccountMetaList_eq_ok h
    simp only [exec, initializeExtraAccountMetaList, bind_eq_ok, require_eq_ok,
      exists_const] at h
    obtain ⟨-, -, ha, -⟩ := h
    rw [hw', World.setMetas_metas_of_ne _ _ (ha ▸ (hapart.metas a.mint u).symm), hms]
  | createMint k data =>
    obtain ⟨-, -, rfl⟩ := createMint_eq_ok h
    exact hms

theorem exec_settable (hapart : StatusesApart p) (hw : Settable p w)
    (h : exec p spl w i = .ok w') : Settable p w' where
  homed := exec_homed hw.homed h
  bump k r hr := exec_bump hw.bump h hr
  status u := by
    have hms : w.metas (statusAddress p u) = none := (hw.status u).elim (·.2) (·.1)
    have hms' := exec_metas_status hapart h hms
    by_cases hset : ∃ a isVerified expiresAt, i.2 = .call (.setKycStatus a isVerified expiresAt) ∧
        a.kycStatus = statusAddress p u
    · obtain ⟨a, isVerified, expiresAt, hi, ha⟩ := hset
      obtain ⟨now, i⟩ := i
      obtain rfl : i = _ := hi
      obtain ⟨r, total, hs⟩ := setKycStatus_eq_ok h
      refine Or.inr ⟨hms', ⟨isVerified, a.user, now, expiresAt, a.authority,
        (p.find (statusSeeds a.user)).2⟩, ?_⟩
      rw [hs.world, ← ha, World.setData_accounts_self]
    · have hkept := exec_status_kept hapart hw.homed
        (fun a b e hi ha ↦ hset ⟨a, b, e, hi, ha⟩) h
      rcases hw.status u with hfree | ⟨-, s, hs⟩
      · exact Or.inl ⟨hkept.trans hfree.1, hms'⟩
      · exact Or.inr ⟨hms', s, hkept.trans hs⟩

theorem run_settable (hw : Launch p w) (hapart : StatusesApart p)
    (is : List (I64 × Instruction)) : Settable p (run (exec p spl) w is) :=
  run_invariant (fun _ _ _ hs h ↦ exec_settable hapart hs h) hw.settable is

/-! ## When the calls go through -/

/-- The signer holds the authority of the registry. -/
def IsAuthority (p : ProgramAddresses) (w : World) (authority registry : Pubkey) : Prop :=
  p.isDerived authority = false ∧
    ∃ r, w.Holds registryAccount registry r ∧ r.authority = authority

theorem Settable.loadRegistry {r : KycRegistry} (hw : Settable p w)
    (hr : w.Holds registryAccount k r) : loadRegistry p w k = .ok r := by
  refine loadRegistry_eq_ok.mpr ⟨hr, ?_⟩
  rw [hw.bump k r hr, p.create_find, hw.homed.registry k r hr, registryAddress]

theorem createMint_of_free {data : List U8} (hk : p.isDerived k = false) (hfree : w.Free k)
    (hdata : spl.unpackMint data = true) : createMint p spl w k data = .ok (w.setMint k data) := by
  simp only [createMint, bind_eq_ok, requireSigner_eq_ok, require_eq_ok, pure_eq_ok, exists_const]
  exact ⟨hk, hfree, hdata, trivial⟩

theorem initializeRegistry_of_free {a : InitializeRegistryAccounts}
    (hsigner : p.isDerived a.authority = false) (hregistry : a.registry = registryAddress p a.mint)
    (hfree : w.Free a.registry) (hmint : (w.info a.mint).loadMint spl = .ok ()) :
    ∃ w', initializeRegistry p spl w a = .ok w' := by
  simp only [initializeRegistry, bind_eq_ok, requireSigner_eq_ok, require_eq_ok, pure_eq_ok,
    exists_const]
  exact ⟨_, hsigner, hregistry, hfree, (), hmint, rfl⟩

theorem setKycStatus_isOk_iff (hw : Settable p w) {now expiresAt : I64}
    {a : SetKycStatusAccounts} {isVerified : Bool} :
    (setKycStatus p now w a isVerified expiresAt).isOk = true ↔
      a.kycStatus = statusAddress p a.user ∧ IsAuthority p w a.authority a.registry := by
  rw [isOk_iff]
  simp only [setKycStatus, bind_eq_ok, requireSigner_eq_ok, require_eq_ok, pure_eq_ok,
    exists_const, loadRegistry_eq_ok]
  apply Iff.intro
  · intro h
    obtain ⟨_, hsigner, r, ⟨hr, -⟩, hstatus, _, -, ha, -⟩ := h
    exact ⟨hstatus, hsigner, r, hr, ha.symm⟩
  · intro h
    obtain ⟨hstatus, hsigner, r, hr, ha⟩ := h
    obtain ⟨s, hs⟩ := (hw.status a.user).load
    have hcreate := (loadRegistry_eq_ok.mp (hw.loadRegistry hr)).2
    exact ⟨_, hsigner, r, ⟨hr, hcreate⟩, hstatus, s, hstatus ▸ hs, ha.symm, rfl⟩

theorem transferAuthority_isOk_iff (hw : Settable p w) {a : TransferAuthorityAccounts}
    {newAuthority : Pubkey} : (transferAuthority p w a newAuthority).isOk = true ↔
      IsAuthority p w a.authority a.registry := by
  rw [isOk_iff]
  simp only [transferAuthority, bind_eq_ok, requireSigner_eq_ok, require_eq_ok, pure_eq_ok,
    exists_const, loadRegistry_eq_ok]
  apply Iff.intro
  · intro h
    obtain ⟨_, hsigner, r, ⟨hr, -⟩, ha, -⟩ := h
    exact ⟨hsigner, r, hr, ha.symm⟩
  · intro h
    obtain ⟨hsigner, r, hr, ha⟩ := h
    have hcreate := (loadRegistry_eq_ok.mp (hw.loadRegistry hr)).2
    exact ⟨_, hsigner, r, ⟨hr, hcreate⟩, ha.symm, rfl⟩

/-- After any run the calls of a registry go through exactly for its authority: whatever anyone
has done before, the authority can set every wallet's status and can hand the registry on. -/
theorem registry_calls_exact (hw : Launch p w) (hapart : StatusesApart p)
    (is : List (I64 × Instruction)) :
    (∀ now a isVerified expiresAt,
      (setKycStatus p now (run (exec p spl) w is) a isVerified expiresAt).isOk = true ↔
        a.kycStatus = statusAddress p a.user ∧
          IsAuthority p (run (exec p spl) w is) a.authority a.registry) ∧
    ∀ a newAuthority,
      (transferAuthority p (run (exec p spl) w is) a newAuthority).isOk = true ↔
        IsAuthority p (run (exec p spl) w is) a.authority a.registry := by
  have hset : Settable p (run (exec p spl) w is) := run_settable hw hapart is
  exact ⟨fun _ _ _ _ ↦ setKycStatus_isOk_iff hset, fun _ _ ↦ transferAuthority_isOk_iff hset⟩

/-! ## The record of a wallet -/

def recordOf (p : ProgramAddresses) (w : World) (u : Pubkey) : Option KycStatus :=
  if (w.accounts (statusAddress p u)).owner = .kycHook then
    statusAccount.load (w.accounts (statusAddress p u)).data
  else none

/-- The record that an instruction writes for a wallet. -/
def setsRecord (p : ProgramAddresses) (u : Pubkey) (i : I64 × Instruction) : Option KycStatus :=
  match i.2 with
  | .call (.setKycStatus a isVerified expiresAt) =>
    if a.user = u then
      some ⟨isVerified, u, i.1, expiresAt, a.authority, (p.find (statusSeeds u)).2⟩
    else none
  | _ => none

/-- No other wallet of the run shares the wallet's status address. -/
def WalletApart (p : ProgramAddresses) (u : Pubkey) (i : I64 × Instruction) : Prop :=
  ∀ a isVerified expiresAt, i.2 = .call (.setKycStatus a isVerified expiresAt) →
    statusAddress p a.user = statusAddress p u → a.user = u

theorem recordOf_congr (h : w'.accounts (statusAddress p u) = w.accounts (statusAddress p u)) :
    recordOf p w' u = recordOf p w u := by
  rw [recordOf, h, recordOf]

theorem exec_record (hapart : StatusesApart p) (hu : WalletApart p u i) (hw : Homed p w)
    (h : exec p spl w i = .ok w') : recordOf p w' u = (setsRecord p u i).or (recordOf p w u) := by
  by_cases hset : ∃ a isVerified expiresAt, i.2 = .call (.setKycStatus a isVerified expiresAt) ∧
      a.kycStatus = statusAddress p u
  · obtain ⟨a, isVerified, expiresAt, hi, ha⟩ := hset
    obtain ⟨now, i⟩ := i
    obtain rfl : i = _ := hi
    obtain ⟨r, total, hs⟩ := setKycStatus_eq_ok h
    obtain rfl : a.user = u := hu a isVerified expiresAt rfl (hs.kycStatus_eq.symm.trans ha)
    have hsets : setsRecord p a.user (now, .call (.setKycStatus a isVerified expiresAt)) =
        some ⟨isVerified, a.user, now, expiresAt, a.authority, (p.find (statusSeeds a.user)).2⟩ :=
      if_pos rfl
    rw [hsets, recordOf, hs.world, ← ha, World.setData_accounts_self, if_pos rfl,
      Tagged.load_store]
    rfl
  · have hkept := exec_status_kept hapart hw (fun a b e hi ha ↦ hset ⟨a, b, e, hi, ha⟩) h
    have hnone : setsRecord p u i = none := by
      obtain ⟨now, i⟩ := i
      rw [setsRecord]
      split
      · rename_i a isVerified expiresAt hi
        obtain rfl : i = _ := hi
        obtain ⟨r, total, hs⟩ := setKycStatus_eq_ok h
        refine if_neg fun hau ↦ hset ⟨a, isVerified, expiresAt, rfl, ?_⟩
        rw [hs.kycStatus_eq, hau]
      · rfl
    rw [hnone, recordOf_congr hkept]
    rfl

/-- After any run the record of a wallet is what the last `set_kyc_status` for it said, under the
time of that call and the name of its signer, who held the authority of a registry then. -/
theorem record_follows_calls (hw : Launch p w) (hapart : StatusesApart p)
    (hu : ∀ i ∈ is, WalletApart p u i) :
    recordOf p (run (exec p spl) w is) u = latest (exec p spl) (setsRecord p u) w is ∧
      ∀ s, recordOf p (run (exec p spl) w is) u = some s →
        ∃ is₁ i is₂ registry, is = is₁ ++ i :: is₂ ∧ i.1 = s.verifiedAt ∧
          setsRecord p u i = some s ∧
          IsAuthority p (run (exec p spl) w is₁) s.verifiedBy registry := by
  have hstates : Always (exec p spl) (Homed p) w is :=
    always_of_invariant (fun _ _ _ hs h ↦ exec_homed hs h) hw.toGenesis.homed is
  have hstep : EachStep (exec p spl)
      (fun w₁ i w₂ ↦ recordOf p w₂ u = (setsRecord p u i).or (recordOf p w₁ u)) w is := by
    have hhomed := hstates.eachStep (P := fun w₁ _ _ ↦ Homed p w₁) fun _ _ _ h₁ _ ↦ h₁
    apply (hhomed.and (eachStep_of_forall_mem hu w)).mono
    intro w₁ i w₂ h hx
    exact exec_record hapart hx.2 hx.1 h
  have hlaunch : recordOf p w u = none := by
    rw [recordOf, statusAddress, hw.unused _ (p.isDerived_find _)]
    exact if_neg (by decide)
  have hlatest := hstep.eq_latest_or
  rw [hlaunch, Option.or_none] at hlatest
  refine ⟨hlatest, fun s hs ↦ ?_⟩
  rw [hlatest] at hs
  obtain ⟨is₁, ⟨now, i⟩, is₂, rfl, hok, hi⟩ := exists_of_latest hs
  have hsets := hi
  rw [setsRecord] at hsets
  split at hsets
  · rename_i a isVerified expiresAt hcall
    obtain rfl : i = _ := hcall
    split at hsets
    · obtain rfl := Option.some_inj.mp hsets
      have hset : Settable p (run (exec p spl) w is₁) := run_settable hw hapart is₁
      exact ⟨is₁, _, is₂, a.registry, rfl, rfl, hi, ((setKycStatus_isOk_iff hset).mp hok).2⟩
    · cases hsets
  · cases hsets

/-! ## A record written twice -/

theorem statusesApart_sample : StatusesApart sampleAddresses where
  registry := separate_sample
  metas mint wallet he := by
    have hmod : (metasAddress sampleAddresses mint).toNat % 32 =
        (statusAddress sampleAddresses wallet).toNat % 32 := congrArg (BitVec.toNat · % 32) he
    have hmetas : (metasAddress sampleAddresses mint).toNat % 32 = 20 :=
      sampleDigest_mod (metasSeeds mint)
    have hstatus : (statusAddress sampleAddresses wallet).toNat % 32 = 11 :=
      sampleDigest_mod (statusSeeds wallet)
    omega

theorem registry_calls_exact_stranger :
    IsAuthority sampleAddresses strangerWorld Sample.stranger
        (registryAddress sampleAddresses Sample.otherMint) ∧
      ¬ IsAuthority sampleAddresses strangerWorld Sample.stranger Sample.registry := by
  have hcalls := @registry_calls_exact sampleAddresses sampleToken2022 Sample.empty launch_sample
    statusesApart_sample strangerRun
  have hown := (hcalls.2 ⟨Sample.stranger, registryAddress sampleAddresses Sample.otherMint⟩
    Sample.stranger).mp (by decide +kernel)
  have hother := hcalls.2 ⟨Sample.stranger, Sample.registry⟩ Sample.stranger
  refine ⟨hown, fun h ↦ ?_⟩
  have hok := hother.mpr h
  revert hok
  decide +kernel

/-- The stranger withdraws at 5 what the authority of the mint said at 0. -/
def rewrittenRun : List (I64 × Instruction) :=
  strangerRun ++
    [(0, .call (Sample.setStatus Sample.authority Sample.registry Sample.wallet true (-1))),
     (5, .call (verify false).2)]

theorem rewrittenRun_apart : ∀ i ∈ rewrittenRun, WalletApart sampleAddresses Sample.wallet i := by
  intro i hi a isVerified expiresAt hcall _
  simp only [rewrittenRun, strangerRun, Sample.setup, Sample.setStatus, verify, List.mem_append,
    List.mem_cons, List.not_mem_nil, or_false] at hi
  rcases hi with ((rfl | rfl | rfl) | rfl | rfl) | rfl | rfl <;> cases hcall <;> rfl

theorem record_follows_calls_rewritten :
    recordOf sampleAddresses
        (run (exec sampleAddresses sampleToken2022) Sample.empty rewrittenRun) Sample.wallet =
      some ⟨false, Sample.wallet, 5, -1, Sample.stranger, 255⟩ := by
  rw [(record_follows_calls launch_sample statusesApart_sample rewrittenRun_apart).1]
  decide +kernel

end KycHook
