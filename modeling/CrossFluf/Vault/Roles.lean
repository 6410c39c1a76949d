import CrossFluf.Vault.ShareLedger
import CrossFluf.Vault.Strategies

/-!
# Who may change what

The admin of a vault sets its configuration, the manager moves its positions, and an instruction
for one vault leaves every other vault alone.
-/

namespace VaultProgram

open Machine Solana Outcome Run

variable {p : ProgramAddresses} {env : Env} {w w' : World} {V W k : Pubkey} {v v' : Vault}
  {s s' : Strategy}

/-- The key that signs an instruction of the program. -/
def Instruction.signer : Instruction → Option Pubkey
  | .initializeVault a _ _ => some a.admin
  | .deposit a _ => some a.user
  | .instantWithdraw a _ => some a.user
  | .addStrategy a _ _ => some a.authority
  | .allocate a _ => some a.authority
  | .deallocate a _ => some a.authority
  | .reportYield a _ => some a.authority
  | .harvestFees a => some a.admin
  | .removeStrategy a => some a.authority
  | .updateConfig a _ => some a.admin
  | .setActive a _ => some a.admin
  | .wallet _ _ => none

/-! ## The fields of a role -/

/-- The configuration a vault runs under. -/
def Vault.config (v : Vault) : VaultConfig where
  maxCap := v.maxCap
  performanceFeeBps := v.performanceFeeBps
  managementFeeBps := v.managementFeeBps
  depositFeeBps := v.depositFeeBps
  withdrawalFeeBps := v.withdrawalFeeBps
  lockedProfitDegradation := v.lockedProfitDegradation
  withdrawalWaitPeriod := v.withdrawalWaitPeriod

/-- The fields of a vault that are the admin's. -/
structure SameAdminFields (v v' : Vault) : Prop where
  config : v'.config = v.config
  isActive : v'.isActive = v.isActive
  numStrategies : v'.numStrategies = v.numStrategies
  highWaterMark : v'.highWaterMark = v.highWaterMark
  lastFeeHarvestTs : v'.lastFeeHarvestTs = v.lastFeeHarvestTs

/-- The fields of a vault that are the manager's. -/
structure SameManagerFields (v v' : Vault) : Prop where
  lockedProfit : v'.lockedProfit = v.lockedProfit
  lockedProfitTs : v'.lockedProfitTs = v.lockedProfitTs

/-- From `v` to `v'` only the admin's and the manager's signature changes what is theirs. -/
structure RolesKept (signer : Option Pubkey) (v v' : Vault) : Prop where
  admin : ¬ SameAdminFields v v' → signer = some v.admin
  manager : ¬ SameManagerFields v v' → signer = some v.manager

-- no role is needed for the counters of assets and LP tokens
theorem rolesKept_of_same {signer : Option Pubkey} (ha : SameAdminFields v v')
    (hm : SameManagerFields v v') : RolesKept signer v v' :=
  ⟨fun hn ↦ absurd ha hn, fun hn ↦ absurd hm hn⟩

theorem rolesKept_of_admin {signer : Option Pubkey} (ha : signer = some v.admin)
    (hm : SameManagerFields v v') : RolesKept signer v v' :=
  ⟨fun _ ↦ ha, fun hn ↦ absurd hm hn⟩

theorem rolesKept_of_manager {signer : Option Pubkey} (ha : SameAdminFields v v')
    (hm : signer = some v.manager) : RolesKept signer v v' :=
  ⟨fun hn ↦ absurd ha hn, fun _ ↦ hm⟩

theorem SameAdminFields.refl (v : Vault) : SameAdminFields v v := ⟨rfl, rfl, rfl, rfl, rfl⟩

theorem SameManagerFields.refl (v : Vault) : SameManagerFields v v := ⟨rfl, rfl⟩

theorem bookYield_sameAdminFields {now : I64} {oldValue newValue : U64}
    (h : bookYield v now oldValue newValue = .ok v') : SameAdminFields v v' := by
  rcases bookYield_eq_ok h with ⟨-, hb⟩ | ⟨-, hb⟩
  · rw [hb.kept]
    exact ⟨rfl, rfl, rfl, rfl, rfl⟩
  · rw [hb.kept]
    exact ⟨rfl, rfl, rfl, rfl, rfl⟩

/-- At the vault it names, an instruction keeps to the roles. -/
theorem exec_rolesKept {i : Env × Instruction} (h : exec p w i = .ok w')
    (hV : i.2.vault = some V) (hv : w.vaults V = some v) (hv' : w'.vaults V = some v') :
    RolesKept i.2.signer v v' := by
  cases exec_vaultEffect_of h hV hv hv' with
  | deposit hd =>
    rw [hd.kept]
    exact rolesKept_of_same ⟨rfl, rfl, rfl, rfl, rfl⟩ ⟨rfl, rfl⟩
  | instantWithdraw hx =>
    rw [hx.kept]
    exact rolesKept_of_same ⟨rfl, rfl, rfl, rfl, rfl⟩ ⟨rfl, rfl⟩
  | addStrategy hs =>
    rw [hs.kept]
    exact rolesKept_of_admin (congrArg some hs.admin) ⟨rfl, rfl⟩
  | allocate ha =>
    rw [ha.kept]
    exact rolesKept_of_same ⟨rfl, rfl, rfl, rfl, rfl⟩ ⟨rfl, rfl⟩
  | deallocate hd =>
    rw [hd.kept]
    exact rolesKept_of_same ⟨rfl, rfl, rfl, rfl, rfl⟩ ⟨rfl, rfl⟩
  | reportYield hr =>
    exact rolesKept_of_manager (bookYield_sameAdminFields hr.booked) (congrArg some hr.manager)
  | harvestNothing => exact rolesKept_of_same (.refl v) (.refl v)
  | harvestFees hf =>
    rw [hf.kept]
    exact rolesKept_of_admin (congrArg some hf.admin) ⟨rfl, rfl⟩
  | removeStrategy hr => exact rolesKept_of_same (.refl v) (.refl v)
  | updateConfig hc => exact rolesKept_of_admin (congrArg some hc.admin) ⟨rfl, rfl⟩
  | setActive hc => exact rolesKept_of_admin (congrArg some hc.admin) ⟨rfl, rfl⟩

/-- From `s` to `s'` only the admin and the manager of its vault change what is theirs. -/
structure StrategyRolesKept (signer : Option Pubkey) (v : Vault) (s s' : Strategy) : Prop where
  admin : s'.isActive ≠ s.isActive → signer = some v.admin
  manager : s'.positionValue ≠ s.positionValue ∨ s'.allocated ≠ s.allocated →
    signer = some v.manager

theorem StrategyStep.rolesKept {i : Instruction} (h : StrategyStep w k i s s')
    (hv : w.vaults s.vault = some v) : StrategyRolesKept i.signer v s s' := by
  cases h with
  | same =>
    constructor
    · intro hne
      exact absurd rfl hne
    · intro hne
      exact hne.elim (absurd rfl) (absurd rfl)
  | allocate _ _ vault _ manager kept =>
    obtain rfl := Option.some_inj.mp (hv.symm.trans vault)
    constructor
    · intro hne
      exact absurd (by rw [kept]) hne
    · intro _
      exact congrArg some manager
  | deallocate _ _ vault _ manager kept =>
    obtain rfl := Option.some_inj.mp (hv.symm.trans vault)
    constructor
    · intro hne
      exact absurd (by rw [kept]) hne
    · intro _
      exact congrArg some manager
  | report _ _ vault manager kept =>
    obtain rfl := Option.some_inj.mp (hv.symm.trans vault)
    constructor
    · intro hne
      exact absurd (by rw [kept]) hne
    · intro _
      exact congrArg some manager
  | remove _ _ vault admin _ =>
    obtain rfl := Option.some_inj.mp (hv.symm.trans vault)
    constructor
    · intro _
      exact congrArg some admin
    · intro hne
      exact hne.elim (absurd rfl) (absurd rfl)

/-! ## Other vaults -/

/-- The vault at `W`, its strategies, its LP mint and its asset account are as before. -/
structure Untouched (W : Pubkey) (w w' : World) : Prop where
  vault : w'.vaults W = w.vaults W
  strategies : ∀ k s, s.vault = W → (w'.strategies k = some s ↔ w.strategies k = some s)
  lpMint : ∀ v, w.vaults W = some v → w'.tokens.mint v.lpMint = w.tokens.mint v.lpMint
  vaultAssetAccount : ∀ v, w.vaults W = some v →
    w'.tokens.account v.vaultAssetAccount = w.tokens.account v.vaultAssetAccount

/-- The addresses derived for the vaults at `V` and `W` differ. -/
structure AuthoritiesApart (p : ProgramAddresses) (V W : Pubkey) : Prop where
  lpMint : lpMintAuthority p V ≠ lpMintAuthority p W
  vaultAsset : vaultAssetAuthority p V ≠ vaultAssetAuthority p W

theorem StrategyStep.vault_eq {i : Instruction} (h : StrategyStep w k i s s') :
    s'.vault = s.vault := by
  cases h with
  | same => rfl
  | allocate _ _ _ _ _ kept => rw [kept]
  | deallocate _ _ _ _ _ kept => rw [kept]
  | report _ _ _ _ kept => rw [kept]
  | remove => rfl

theorem StrategyStep.eq_of_vault_ne {i : Instruction} (h : StrategyStep w k i s s')
    (hne : i.vault ≠ some s.vault) : s' = s := by
  cases h with
  | same => rfl
  | allocate _ ofVault => exact absurd (congrArg some ofVault.symm) hne
  | deallocate _ ofVault => exact absurd (congrArg some ofVault.symm) hne
  | report _ ofVault => exact absurd (congrArg some ofVault.symm) hne
  | remove _ ofVault => exact absurd (congrArg some ofVault.symm) hne

theorem exec_strategies_iff {i : Env × Instruction} (h : exec p w i = .ok w')
    (hW : i.2.vault ≠ some W) (hs : s.vault = W) :
    w'.strategies k = some s ↔ w.strategies k = some s := by
  apply Iff.intro
  · intro hk'
    cases hk : w.strategies k with
    | none =>
      obtain ⟨env, a, v, name, protocol, rfl, -, rfl⟩ := exec_newStrategy h hk hk'
      exact absurd (congrArg some hs) hW
    | some x =>
      obtain ⟨y, hy, hstep⟩ := exec_strategyStep h hk
      obtain rfl := Option.some_inj.mp (hy.symm.trans hk')
      rw [hstep.eq_of_vault_ne (by rw [← hstep.vault_eq, hs]; exact hW)]
  · intro hk
    obtain ⟨s', hk', hstep⟩ := exec_strategyStep h hk
    rw [hk', hstep.eq_of_vault_ne (by rw [hs]; exact hW)]

/-! ## Their tokens -/

-- an account of a derived address is not one that a signer owns
theorem account_ne_of_owner {t : Tokens} {j user : Pubkey} {x y : TokenAccount}
    (hk : t.account k = some x) (hx : p.isDerived x.owner = true) (hj : t.account j = some y)
    (hy : y.owner = user) (huser : p.isDerived user = false) : k ≠ j := by
  intro he
  rw [he, hj, Option.some_inj] at hk
  rw [← hk, hy, huser] at hx
  cases hx

theorem harvestFees_account {a : HarvestFeesAccounts} (h : harvestFees p env w a = .ok w') :
    ∃ x, w.tokens.account a.adminLpAccount = some x ∧ x.owner = a.admin ∧
      p.isDerived a.admin = false := by
  simp only [harvestFees, bind_eq_ok, requireSigner_eq_ok, orElse_eq_ok, require_eq_ok,
    loadTokenAccount_eq_ok, exists_const] at h
  obtain ⟨hsigner, v, -, -, x, ⟨hx, -, howner⟩, -⟩ := h
  exact ⟨x, hx, howner, hsigner⟩

/-- Of the accounts that belong to derived addresses an instruction writes only the asset account
of its own vault. -/
theorem exec_account_of_ne {i : Env × Instruction} {x : TokenAccount}
    (h : exec p w i = .ok w') (hV : i.2.vault = some V)
    (hk : w.tokens.account k = some x) (hx : p.isDerived x.owner = true)
    (hne : ∀ v, w.vaults V = some v → k ≠ v.vaultAssetAccount) :
    w'.tokens.account k = w.tokens.account k := by
  have hsame : w'.tokens = w.tokens → w'.tokens.account k = w.tokens.account k := by
    intro he
    rw [he]
  cases exec_effect h with
  | initializeVault hi => exact hsame (by rw [hi.world]; rfl)
  | deposit hd =>
    obtain rfl := Option.some_inj.mp hV
    obtain ⟨y, hy, -, hyo⟩ := hd.holds.asset
    obtain ⟨z, hz, -, hzo⟩ := hd.holds.lp
    have hasset := account_ne_of_owner hk hx hy hyo hd.signer
    have hlp := account_ne_of_owner hk hx hz hzo hd.signer
    have hvault := hne _ hd.vault
    rw [← hd.holds.vaultAssetAccount] at hvault
    rw [hd.world, World.setVault_tokens, World.setTokens_tokens,
      Tokens.mintTo_account_of_ne hd.minted_ok hlp,
      Tokens.transfer_account_of_ne (transferAsset_eq_ok hd.paid_ok).2 hasset hvault]
  | instantWithdraw hw =>
    obtain rfl := Option.some_inj.mp hV
    obtain ⟨y, hy, -, hyo⟩ := hw.holds.asset
    obtain ⟨z, hz, -, hzo⟩ := hw.holds.lp
    have hasset := account_ne_of_owner hk hx hy hyo hw.signer
    have hlp := account_ne_of_owner hk hx hz hzo hw.signer
    have hvault := hne _ hw.vault
    rw [← hw.holds.vaultAssetAccount] at hvault
    rw [hw.world, World.setVault_tokens, World.setTokens_tokens,
      Tokens.transfer_account_of_ne (transferAsset_eq_ok hw.paid_ok).2 hvault hasset,
      Tokens.burn_account_of_ne hw.burned_ok hlp]
  | addStrategy hs => exact hsame (by rw [hs.world]; rfl)
  | allocate ha => exact hsame (by rw [ha.world]; rfl)
  | deallocate hd => exact hsame (by rw [hd.world]; rfl)
  | reportYield hr => exact hsame (by rw [hr.world]; rfl)
  | harvestNothing => exact hsame rfl
  | harvestFees hf =>
    obtain ⟨y, hy, hyo, hsigner⟩ := harvestFees_account h
    have hlp := account_ne_of_owner hk hx hy hyo hsigner
    rw [hf.world, World.setVault_tokens, World.setTokens_tokens]
    rcases hf.minted_ok with he | hm
    · rw [he]
    · exact Tokens.mintTo_account_of_ne hm hlp
  | removeStrategy hr => exact hsame (by rw [hr.world]; rfl)
  | updateConfig hc => exact hsame (by rw [hc.world]; rfl)
  | setActive hc => exact hsame (by rw [hc.world]; rfl)
  | wallet ht => cases hV

theorem exec_untouched {i : Env × Instruction} (hc : Custody p w) (hm : LpMinted p w)
    (h : exec p w i = .ok w') (hV : i.2.vault = some V) (hne : V ≠ W)
    (ha : AuthoritiesApart p V W) : Untouched W w w' := by
  have hW : i.2.vault ≠ some W := by
    rw [hV]
    exact fun he ↦ hne (Option.some_inj.mp he)
  constructor
  · exact (exec_sameVault h hW).vault
  · intro k s hs
    exact exec_strategies_iff h hW hs
  · intro v hv
    rcases exec_named h hV with ⟨u, u', hu, hu'⟩ | ⟨env, a, name, config, rfl⟩
    · exact (exec_lpBooked h hV hu hu').other v.lpMint (hm.lpMint_ne ha.lpMint hu hv)
    · rw [(initializeVault_eq_ok h).world]
      rfl
  · intro v hv
    obtain ⟨x, hx, howner, -⟩ := hc.account W v hv
    apply exec_account_of_ne h hV hx (howner ▸ p.isDerived_find _)
    intro u hu he
    obtain ⟨y, hy, hyo, -⟩ := hc.account V u hu
    rw [← he, hx, Option.some_inj] at hy
    rw [← hy, howner] at hyo
    exact ha.vaultAsset hyo.symm

theorem reachable_lpMinted (h : Reachable (exec p) (Genesis p) w) : LpMinted p w :=
  reachable_invariant (fun _ hg ↦ hg.lpMinted) (fun _ _ _ hs hx ↦ exec_lpMinted hs hx) h

theorem reachable_homed (h : Reachable (exec p) (Genesis p) w) : Homed w :=
  reachable_invariant (fun _ hg ↦ hg.homed) (fun _ _ _ hs hx ↦ exec_homed hs hx) h

/-- From any reachable state every instruction keeps to the roles of every vault and of every
strategy, and leaves all vaults but its own untouched. -/
theorem roles_separated {i : Env × Instruction} (hw : Reachable (exec p) (Genesis p) w)
    (h : exec p w i = .ok w') :
    (∀ V v, w.vaults V = some v → ∃ v', w'.vaults V = some v' ∧ RolesKept i.2.signer v v') ∧
      (∀ k s, w.strategies k = some s → ∃ v s', w.vaults s.vault = some v ∧
        w'.strategies k = some s' ∧ StrategyRolesKept i.2.signer v s s') ∧
      ∀ V W, i.2.vault = some V → V ≠ W → AuthoritiesApart p V W → Untouched W w w' := by
  refine ⟨?_, ?_, ?_⟩
  · intro V v hv
    obtain ⟨v', hv', -⟩ := exec_moves h hv
    refine ⟨v', hv', ?_⟩
    by_cases hV : i.2.vault = some V
    · exact exec_rolesKept h hV hv hv'
    · rw [(exec_sameVault h hV).vault, hv, Option.some_inj] at hv'
      rw [← hv']
      exact rolesKept_of_same (.refl v) (.refl v)
  · intro k s hk
    obtain ⟨v, hv⟩ := Option.isSome_iff_exists.mp (reachable_homed hw k s hk)
    obtain ⟨s', hk', hstep⟩ := exec_strategyStep h hk
    exact ⟨v, s', hv, hk', hstep.rolesKept hv⟩
  · intro V W hV hne ha
    exact exec_untouched (reachable_custody hw) (reachable_lpMinted hw) h hV hne ha

/-- A second vault, of another admin. -/
def secondVault : Pubkey := (vaultAddress sampleAddresses Sample.user Sample.name).1

/-- Two vaults on one asset, and a strategy in the first. -/
def twoVaultsRun : List (Env × Instruction) :=
  Sample.setup (Sample.config 0 0) ++
    [(Sample.clock 0, .wallet [256]
      (.initializeMint 256 (some (lpMintAuthority sampleAddresses secondVault)) 9)),
     (Sample.clock 0, .wallet [288] (.initializeAccount 288 Sample.assetMint
      (vaultAssetAuthority sampleAddresses secondVault))),
     (Sample.clock 0, .initializeVault ⟨Sample.user, Sample.user, secondVault, Sample.assetMint,
      256, 288⟩ Sample.name (Sample.config 0 0)),
     (Sample.clock 0, .addStrategy Sample.strategyAccounts [] [])]

def twoVaultsWorld : World := run (exec sampleAddresses) Sample.empty twoVaultsRun

def reportToFirst : Env × Instruction := (Sample.clock 0, .reportYield Sample.strategyAccounts 7)

theorem roles_separated_twoVaults :
    (twoVaultsWorld.vaults secondVault).isSome ∧
      Untouched secondVault twoVaultsWorld
        (advance (exec sampleAddresses) twoVaultsWorld reportToFirst) := by
  have hvault : (twoVaultsWorld.vaults secondVault).isSome ∧
      (exec sampleAddresses twoVaultsWorld reportToFirst).isOk = true := by
    decide +kernel
  have hapart : Sample.vault ≠ secondVault ∧
      lpMintAuthority sampleAddresses Sample.vault ≠
        lpMintAuthority sampleAddresses secondVault ∧
      vaultAssetAuthority sampleAddresses Sample.vault ≠
        vaultAssetAuthority sampleAddresses secondVault := by
    decide +kernel
  have hreach : Reachable (exec sampleAddresses) (Genesis sampleAddresses) twoVaultsWorld :=
    ⟨Sample.empty, twoVaultsRun, Sample.genesis, rfl⟩
  have hroles := roles_separated hreach (eq_ok_advance hvault.2)
  exact ⟨hvault.1, hroles.2.2 Sample.vault secondVault rfl hapart.1 ⟨hapart.2.1, hapart.2.2⟩⟩

end VaultProgram
