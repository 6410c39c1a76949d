import CrossFluf.Kyc.Program
import CrossFluf.Base.Run

/-!
# Registries in reachable states

What the instructions write, and where registries and lists of extra accounts stand.
-/

namespace KycHook

open Machine Solana Outcome Bytes Run

variable {p : ProgramAddresses} {spl : Token2022} {w w' : World} {k : Pubkey}

/-- An account of the hook with a record of some type. -/
def World.Holds {α : Type} (w : World) (c : Tagged α) (k : Pubkey) (a : α) : Prop :=
  (w.accounts k).owner = .kycHook ∧ c.load (w.accounts k).data = some a

theorem load_eq_ok {α : Type} {c : Tagged α} {i : AccountInfo} {a : α} :
    i.load c = .ok a ↔ i.owner = .kycHook ∧ c.load i.data = some a := by
  simp only [AccountInfo.load, bind_eq_ok, require_eq_ok, orElse_eq_ok, exists_const]
  constructor
  · rintro ⟨-, ho, ha⟩
    exact ⟨ho, ha⟩
  · rintro ⟨ho, ha⟩
    exact ⟨by rw [ho]; decide, ho, ha⟩

theorem loadRegistry_eq_ok {r : KycRegistry} :
    loadRegistry p w k = .ok r ↔
      w.Holds registryAccount k r ∧ p.create (registrySeeds r.mint) r.bump = some k := by
  simp only [loadRegistry, bind_eq_ok, load_eq_ok, require_eq_ok, pure_eq_ok, exists_const]
  constructor
  · rintro ⟨r', hr, hc, rfl⟩
    exact ⟨hr, hc⟩
  · rintro ⟨hr, hc⟩
    exact ⟨r, hr, hc, rfl⟩

theorem holds_setData_self {α : Type} {c : Tagged α} {data : List U8} {a : α} :
    (w.setData k data).Holds c k a ↔ c.load data = some a := by
  rw [World.Holds, World.setData_accounts_self]
  exact and_iff_right rfl

theorem holds_setData_of_ne {α : Type} {c : Tagged α} {k' : Pubkey} {data : List U8} {a : α}
    (h : k' ≠ k) : (w.setData k data).Holds c k' a ↔ w.Holds c k' a := by
  rw [World.Holds, World.Holds, World.setData_accounts_of_ne w data h]

/-! ## The instructions -/

structure RegistryInitialized (p : ProgramAddresses) (w : World) (a : InitializeRegistryAccounts)
    (w' : World) : Prop where
  registry_eq : a.registry = registryAddress p a.mint
  free : w.Free a.registry
  world : w' = w.setData a.registry
    (registryAccount.store ⟨a.authority, a.mint, 0, (p.find (registrySeeds a.mint)).2⟩)

theorem initializeRegistry_eq_ok {a : InitializeRegistryAccounts}
    (h : initializeRegistry p spl w a = .ok w') : RegistryInitialized p w a w' := by
  simp only [initializeRegistry, bind_eq_ok, require_eq_ok, pure_eq_ok, exists_const] at h
  obtain ⟨-, -, ha, hf, -, -, rfl⟩ := h
  exact ⟨ha, hf, rfl⟩

structure StatusSet (p : ProgramAddresses) (now : I64) (w : World) (a : SetKycStatusAccounts)
    (isVerified : Bool) (expiresAt : I64) (r : KycRegistry) (total : U64) (w' : World) :
    Prop where
  registry_ok : w.Holds registryAccount a.registry r
  kycStatus_eq : a.kycStatus = statusAddress p a.user
  authority_eq : a.authority = r.authority
  world : w' = (w.setData a.registry
      (registryAccount.store ⟨r.authority, r.mint, total, r.bump⟩)).setData a.kycStatus
    (statusAccount.store
      ⟨isVerified, a.user, now, expiresAt, a.authority, (p.find (statusSeeds a.user)).2⟩)

theorem setKycStatus_eq_ok {now expiresAt : I64} {a : SetKycStatusAccounts} {isVerified : Bool}
    (h : setKycStatus p now w a isVerified expiresAt = .ok w') :
    ∃ r total, StatusSet p now w a isVerified expiresAt r total w' := by
  simp only [setKycStatus, bind_eq_ok, require_eq_ok, pure_eq_ok, exists_const,
    loadRegistry_eq_ok] at h
  obtain ⟨-, -, r, ⟨hr, -⟩, hs, status, -, ha, rfl⟩ := h
  exact ⟨r, _, hr, hs, ha, rfl⟩

structure AuthorityTransferred (w : World) (a : TransferAuthorityAccounts)
    (newAuthority : Pubkey) (r : KycRegistry) (w' : World) : Prop where
  registry_ok : w.Holds registryAccount a.registry r
  authority_eq : a.authority = r.authority
  world : w' = w.setData a.registry
    (registryAccount.store ⟨newAuthority, r.mint, r.totalVerified, r.bump⟩)

theorem transferAuthority_eq_ok {a : TransferAuthorityAccounts} {newAuthority : Pubkey}
    (h : transferAuthority p w a newAuthority = .ok w') :
    ∃ r, AuthorityTransferred w a newAuthority r w' := by
  simp only [transferAuthority, bind_eq_ok, require_eq_ok, pure_eq_ok, exists_const,
    loadRegistry_eq_ok] at h
  obtain ⟨-, -, r, ⟨hr, -⟩, ha, rfl⟩ := h
  exact ⟨r, hr, ha, rfl⟩

theorem execCall_metas {c : I64 × Call} (h : execCall p spl w c = .ok w') :
    w'.metas = w.metas := by
  obtain ⟨now, c⟩ := c
  cases c with
  | initializeRegistry a => rw [(initializeRegistry_eq_ok h).world, World.setData_metas]
  | setKycStatus a isVerified expiresAt =>
    obtain ⟨r, total, hs⟩ := setKycStatus_eq_ok h
    rw [hs.world, World.setData_metas, World.setData_metas]
  | transferAuthority a newAuthority =>
    obtain ⟨r, ht⟩ := transferAuthority_eq_ok h
    rw [ht.world, World.setData_metas]

theorem initializeExtraAccountMetaList_eq_ok {a : InitializeMetasAccounts}
    (h : initializeExtraAccountMetaList p spl w a = .ok w') :
    w' = w.setMetas a.extraAccountMetaList extraAccountMetas := by
  simp only [initializeExtraAccountMetaList, bind_eq_ok, require_eq_ok, pure_eq_ok,
    exists_const] at h
  obtain ⟨-, -, -, -, -, -, rfl⟩ := h
  rfl

-- a mint is created by its own key, and derived addresses have none
theorem createMint_eq_ok {data : List U8} (h : createMint p spl w k data = .ok w') :
    p.isDerived k = false ∧ w.Free k ∧ w' = w.setMint k data := by
  simp only [createMint, bind_eq_ok, requireSigner_eq_ok, require_eq_ok, pure_eq_ok,
    exists_const] at h
  obtain ⟨hs, hf, -, rfl⟩ := h
  exact ⟨hs, hf, rfl⟩

/-! ## What stays in place -/

/-- The accounts an instruction writes. -/
def Instruction.writes : Instruction → List Pubkey
  | .call (.initializeRegistry a) => [a.registry]
  | .call (.setKycStatus a _ _) => [a.registry, a.kycStatus]
  | .call (.transferAuthority a _) => [a.registry]
  | .initializeExtraAccountMetaList _ => []
  | .createMint k _ => [k]

theorem exec_accounts_of_notMem {i : I64 × Instruction} (h : exec p spl w i = .ok w')
    (hk : k ∉ i.2.writes) : w'.accounts k = w.accounts k := by
  obtain ⟨now, i⟩ := i
  cases i with
  | call c =>
    cases c with
    | initializeRegistry a =>
      have hne : k ≠ a.registry := List.ne_of_not_mem_cons hk
      rw [(initializeRegistry_eq_ok h).world, World.setData_accounts_of_ne _ _ hne]
    | setKycStatus a isVerified expiresAt =>
      obtain ⟨r, total, hs⟩ := setKycStatus_eq_ok h
      have hne : k ≠ a.registry := List.ne_of_not_mem_cons hk
      have hne' : k ≠ a.kycStatus := List.ne_of_not_mem_cons (List.not_mem_of_not_mem_cons hk)
      rw [hs.world, World.setData_accounts_of_ne _ _ hne', World.setData_accounts_of_ne _ _ hne]
    | transferAuthority a newAuthority =>
      obtain ⟨r, ht⟩ := transferAuthority_eq_ok h
      have hne : k ≠ a.registry := List.ne_of_not_mem_cons hk
      rw [ht.world, World.setData_accounts_of_ne _ _ hne]
  | initializeExtraAccountMetaList a =>
    rw [initializeExtraAccountMetaList_eq_ok h, World.setMetas_accounts]
  | createMint m data =>
    obtain ⟨-, -, rfl⟩ := createMint_eq_ok h
    exact World.setMint_accounts_of_ne _ _ (List.ne_of_not_mem_cons hk)

theorem World.Holds.congr {α : Type} {c : Tagged α} {a : α} (h : w'.accounts k = w.accounts k)
    (hw : w'.Holds c k a) : w.Holds c k a := by
  rw [World.Holds, ← h]
  exact hw

/-- A registry was there before with the same mint, or it has just been set up. -/
theorem exec_registry {i : I64 × Instruction} {r : KycRegistry} (h : exec p spl w i = .ok w')
    (hr : w'.Holds registryAccount k r) :
    (∃ r₀, w.Holds registryAccount k r₀ ∧ r₀.mint = r.mint) ∨
      ∃ a, i.2 = .call (.initializeRegistry a) ∧ k = registryAddress p a.mint ∧
        r.mint = a.mint := by
  by_cases hk : k ∈ i.2.writes
  swap
  · exact Or.inl ⟨r, hr.congr (exec_accounts_of_notMem h hk), rfl⟩
  obtain ⟨now, i⟩ := i
  cases i with
  | call c =>
    cases c with
    | initializeRegistry a =>
      have hi := initializeRegistry_eq_ok h
      rw [List.mem_singleton.mp hk, hi.world, holds_setData_self, Tagged.load_store,
        Option.some_inj] at hr
      exact Or.inr ⟨a, rfl, (List.mem_singleton.mp hk).trans hi.registry_eq, by rw [← hr]⟩
    | setKycStatus a isVerified expiresAt =>
      obtain ⟨r₀, total, hs⟩ := setKycStatus_eq_ok h
      rw [hs.world] at hr
      by_cases hstatus : k = a.kycStatus
      -- a status is not read as a registry
      · rw [hstatus, holds_setData_self,
          registryAccount.load_store_of_ne statusAccount registry_tag_ne] at hr
        cases hr
      · have hregistry : k = a.registry :=
          (List.mem_cons.mp hk).resolve_right fun hmem ↦ hstatus (List.mem_singleton.mp hmem)
        rw [holds_setData_of_ne hstatus, hregistry, holds_setData_self, Tagged.load_store,
          Option.some_inj] at hr
        exact Or.inl ⟨r₀, hregistry ▸ hs.registry_ok, by rw [← hr]⟩
    | transferAuthority a newAuthority =>
      obtain ⟨r₀, ht⟩ := transferAuthority_eq_ok h
      rw [List.mem_singleton.mp hk, ht.world, holds_setData_self, Tagged.load_store,
        Option.some_inj] at hr
      exact Or.inl ⟨r₀, List.mem_singleton.mp hk ▸ ht.registry_ok, by rw [← hr]⟩
  | initializeExtraAccountMetaList a => cases hk
  | createMint m data =>
    obtain ⟨-, -, rfl⟩ := createMint_eq_ok h
    rw [List.mem_singleton.mp hk, World.Holds, World.setMint_accounts_self] at hr
    cases hr.1

/-! ## The invariant -/

/-- A registry stands at the address its mint derives, and every list of extra accounts is the one
of the hook. -/
structure Homed (p : ProgramAddresses) (w : World) : Prop where
  registry : ∀ k r, w.Holds registryAccount k r → k = registryAddress p r.mint
  metas : ∀ k ms, w.metas k = some ms → ms = extraAccountMetas

theorem Genesis.homed (h : Genesis w) : Homed p w where
  registry k _ hr := absurd hr.1 (h.accounts k)
  metas k _ hms := by
    rw [h.metas] at hms
    cases hms

theorem exec_homed {i : I64 × Instruction} (hw : Homed p w) (h : exec p spl w i = .ok w') :
    Homed p w' where
  registry k r hr := by
    rcases exec_registry h hr with ⟨r₀, hr₀, hm⟩ | ⟨a, -, hk, hm⟩
    · rw [← hm]
      exact hw.registry k r₀ hr₀
    · rw [hm]
      exact hk
  metas k ms hms := by
    obtain ⟨now, i⟩ := i
    cases i with
    | call c =>
      rw [execCall_metas h] at hms
      exact hw.metas k ms hms
    | initializeExtraAccountMetaList a =>
      rw [initializeExtraAccountMetaList_eq_ok h] at hms
      by_cases hk : k = a.extraAccountMetaList
      · rw [hk, World.setMetas_metas_self, Option.some_inj] at hms
        exact hms.symm
      · rw [World.setMetas_metas_of_ne _ _ hk] at hms
        exact hw.metas k ms hms
    | createMint m data =>
      obtain ⟨-, -, rfl⟩ := createMint_eq_ok h
      exact hw.metas k ms hms

theorem execCall_homed {c : I64 × Call} (hw : Homed p w) (h : execCall p spl w c = .ok w') :
    Homed p w' :=
  exec_homed (i := (c.1, .call c.2)) hw h

theorem reachable_homed (h : Reachable (exec p spl) Genesis w) : Homed p w :=
  reachable_invariant (fun _ hg ↦ hg.homed) (fun _ _ _ hs hx ↦ exec_homed hs hx) h

/-! ## The accounts of a transfer -/

-- the list of the hook resolves to the registry and to the statuses of the two owners
theorem resolve_eq {x : Transfer} {a b : TokenAccountState}
    (hms : w.metas (metasAddress p x.mint) = some extraAccountMetas)
    (ha : spl.unpackAccount x.source.data = some a)
    (hb : spl.unpackAccount x.destination.data = some b) :
    resolve p w x = some [x.source, w.info x.mint, x.destination, w.info x.authority,
      w.info (metasAddress p x.mint), w.info (registryAddress p x.mint),
      w.info (statusAddress p a.owner), w.info (statusAddress p b.owner)] := by
  have hsource := spl.owner_bytes _ a ha
  have hdest := spl.owner_bytes _ b hb
  have hfit : ∀ {data : List U8} {o : Pubkey}, (data.drop 32).take 32 = Pubkey.bytes o →
      64 ≤ data.length := by
    intro data o ho
    have hlen := congrArg List.length ho
    rw [Pubkey.bytes_length, List.length_take, List.length_drop] at hlen
    omega
  simp [resolve, hms, extraAccountMetas, resolveMetas, Seed.resolve, hfit hsource, hfit hdest,
    hsource, hdest, registryAddress, statusAddress, registrySeeds, statusSeeds, World.info]

end KycHook
