import CrossFluf.Gate.Access
import CrossFluf.Kyc.Statuses

/-!
# Locking a vault from outside

Anyone can set up a mint and a registry of their own, and the authority of any registry sets the
status of any wallet.  So a stranger can take the verification of a vault's asset authority away,
and then nobody pays in or out until someone gives it back.
-/

namespace PermissionedVault

open Machine Solana Outcome Run
open KycHook (verified registryAddress statusAddress StatusesApart Settable)
open VaultProgram (vaultAssetAuthority UserAccounts)

variable {c : Chain} {w w₀ : World} {env : Env} {u k M V : Pubkey} {data : List U8}
  {is js : List (Env × Instruction)}

/-! ## The calls of the stranger -/

/-- A key that signs, and the address of a mint nobody has used yet. -/
structure Stranger (c : Chain) (w : KycHook.World) (k M : Pubkey) (data : List U8) : Prop where
  signer : c.kyc.isDerived k = false
  mint : c.kyc.isDerived M = false
  unused : w.Free M
  registry : w.Free (registryAddress c.kyc M)
  layout : c.spl.unpackMint data = true

/-- A mint, its registry, and the status of a wallet withdrawn through it. -/
def revocations (c : Chain) (k M : Pubkey) (data : List U8) (u : Pubkey) :
    List KycHook.Instruction :=
  [.createMint M data,
   .call (.initializeRegistry ⟨k, registryAddress c.kyc M, M⟩),
   .call (.setKycStatus ⟨k, registryAddress c.kyc M, statusAddress c.kyc u, u⟩ false 0)]

def lockout (c : Chain) (env : Env) (k M : Pubkey) (data : List U8) (V : Pubkey) :
    List (Env × Instruction) :=
  (revocations c k M data (vaultAssetAuthority c.vault V)).map fun i ↦ (env, .kyc i)

theorem stranger_revokes {w : KycHook.World} (hw : Settable c.kyc w) (hapart : StatusesApart c.kyc)
    (h : Stranger c w k M data) (now : I64) (u : Pubkey) :
    Succeeds (KycHook.exec c.kyc c.spl) w ((revocations c k M data u).map (now, ·)) ∧
      verified c.kyc (run (KycHook.exec c.kyc c.spl) w
        ((revocations c k M data u).map (now, ·))) u = false := by
  have hne : registryAddress c.kyc M ≠ M := c.kyc.find_ne_signer h.mint _
  have hcreate : KycHook.exec c.kyc c.spl w (now, .createMint M data) = .ok (w.setMint M data) :=
    KycHook.createMint_of_free h.mint h.unused h.layout
  have hfree : (w.setMint M data).Free (registryAddress c.kyc M) :=
    ⟨(w.setMint_accounts_of_ne data hne).trans h.registry.1, h.registry.2⟩
  have hmint : ((w.setMint M data).info M).loadMint c.spl = .ok () := by
    simp only [KycHook.AccountInfo.loadMint, bind_eq_ok, require_eq_ok, exists_const,
      KycHook.World.info, KycHook.World.setMint_accounts_self]
    exact ⟨Or.inr trivial, h.layout⟩
  obtain ⟨w₂, hinitialize⟩ := KycHook.initializeRegistry_of_free
    (a := ⟨k, registryAddress c.kyc M, M⟩) h.signer rfl hfree hmint
  have hw₂ : KycHook.exec c.kyc c.spl (w.setMint M data)
      (now, .call (.initializeRegistry ⟨k, registryAddress c.kyc M, M⟩)) = .ok w₂ := hinitialize
  have hset₂ := KycHook.exec_settable hapart (KycHook.exec_settable hapart hw hcreate) hw₂
  have hrevoke : ∃ w₃, KycHook.exec c.kyc c.spl w₂ (now, .call (.setKycStatus
      ⟨k, registryAddress c.kyc M, statusAddress c.kyc u, u⟩ false 0)) = .ok w₃ := by
    refine isOk_iff.mp ((KycHook.setKycStatus_isOk_iff hset₂).mpr ⟨rfl, h.signer, ?_⟩)
    rw [(KycHook.initializeRegistry_eq_ok hw₂).world]
    exact ⟨_, KycHook.holds_setData_self.mpr (Bytes.Tagged.load_store _ _), rfl⟩
  obtain ⟨w₃, hw₃⟩ := hrevoke
  obtain ⟨r, total, hs⟩ := KycHook.setKycStatus_eq_ok hw₃
  rw [revocations, List.map_cons, List.map_cons, List.map_cons, List.map_nil]
  simp only [Succeeds, run, advance_of_ok hcreate, advance_of_ok hw₂, advance_of_ok hw₃, hcreate,
    hw₂, hw₃]
  refine ⟨⟨rfl, rfl, rfl, trivial⟩, ?_⟩
  rw [verified, hs.world, KycHook.World.setData_accounts_self, KycHook.passesKyc_store]

/-! ## The same on the chain of both programs -/

theorem exec_kyc_advance (c : Chain) (w : World) (env : Env) (j : KycHook.Instruction) :
    advance (exec c) w (env, .kyc j) =
        ⟨advance (KycHook.exec c.kyc c.spl) w.kyc (env.now, j), w.vault⟩ ∧
      ((exec c w (env, .kyc j)).isOk = true ↔
        (KycHook.exec c.kyc c.spl w.kyc (env.now, j)).isOk = true) := by
  cases h : KycHook.exec c.kyc c.spl w.kyc (env.now, j) with
  | ok w' =>
    have hok : exec c w (env, .kyc j) = .ok ⟨w', w.vault⟩ := exec_kyc_eq_ok.mpr ⟨h, rfl⟩
    rw [advance_of_ok hok, advance_of_ok h, hok]
    exact ⟨rfl, Iff.rfl⟩
  | error e =>
    have herror : exec c w (env, .kyc j) = .error (.kyc e) := by
      simp only [exec, h]
      rfl
    rw [advance_of_error herror, advance_of_error h, herror]
    exact ⟨rfl, Iff.rfl⟩

theorem run_kyc_calls (c : Chain) (w : World) (env : Env) (is : List KycHook.Instruction) :
    run (exec c) w (is.map fun i ↦ (env, .kyc i)) =
        ⟨run (KycHook.exec c.kyc c.spl) w.kyc (is.map (env.now, ·)), w.vault⟩ ∧
      (Succeeds (exec c) w (is.map fun i ↦ (env, .kyc i)) ↔
        Succeeds (KycHook.exec c.kyc c.spl) w.kyc (is.map (env.now, ·))) := by
  induction is generalizing w with
  | nil => exact ⟨rfl, Iff.rfl⟩
  | cons j is ih =>
    obtain ⟨hadvance, hok⟩ := exec_kyc_advance c w env j
    rw [List.map_cons, List.map_cons, run, run, Succeeds, Succeeds, hadvance, hok]
    exact ⟨(ih _).1, and_congr_right fun _ ↦ (ih _).2⟩

/-! ## Locked -/

/-- The instruction sets the status kept at an address. -/
def SetsStatusAt (k : Pubkey) (i : Env × Instruction) : Prop :=
  ∃ a isVerified expiresAt, i.2 = .kyc (.call (.setKycStatus a isVerified expiresAt)) ∧
    a.kycStatus = k

theorem exec_unverified {i : Env × Instruction} {w' : World} (hapart : StatusesApart c.kyc)
    (hw : KycHook.Homed c.kyc w.kyc) (hi : ¬ SetsStatusAt (statusAddress c.kyc u) i)
    (h : exec c w i = .ok w') : verified c.kyc w'.kyc u = verified c.kyc w.kyc u := by
  obtain ⟨env, i⟩ := i
  cases i with
  | vault j => rw [(exec_vault_eq_ok.mp h).2.2]
  | kyc j =>
    have hkept := KycHook.exec_status_kept (u := u) hapart hw
      (fun a b e hj ha ↦ hi ⟨a, b, e, congrArg Instruction.kyc hj, ha⟩) (exec_kyc_eq_ok.mp h).1
    rw [verified, hkept, verified]

theorem run_unverified (hapart : StatusesApart c.kyc) (hw : KycHook.Homed c.kyc w.kyc)
    (hu : verified c.kyc w.kyc u = false)
    (hjs : ∀ j ∈ js, ¬ SetsStatusAt (statusAddress c.kyc u) j) :
    verified c.kyc (run (exec c) w js).kyc u = false := by
  have hinv : Always (exec c)
      (fun w ↦ KycHook.Homed c.kyc w.kyc ∧ verified c.kyc w.kyc u = false) w js := by
    refine (eachStep_of_forall_mem hjs w).always ?_ ⟨hw, hu⟩
    intro w₁ j w₂ h₁ hj hx
    exact ⟨exec_homed h₁.1 hx, (exec_unverified hapart h₁.1 hj hx).trans h₁.2⟩
  exact hinv.last.2

/-- A vault whose asset authority is not verified takes nothing in and pays nothing out. -/
theorem refused_of_unverified {a : UserAccounts} {v : VaultProgram.Vault} (hw : Launch c w₀)
    (hv : (run (exec c) w₀ is).vault.vaults a.vault = some v)
    (hhook : c.hooked v.assetMint = true)
    (hu : verified c.kyc (run (exec c) w₀ is).kyc (vaultAssetAuthority c.vault a.vault) = false)
    (env : Env) (amount : U64) :
    (exec c (run (exec c) w₀ is) (env, .vault (.deposit a amount))).isOk = false ∧
      (exec c (run (exec c) w₀ is) (env, .vault (.instantWithdraw a amount))).isOk = false := by
  have hh := KycHook.reachable_homed (hw.reachable_kyc is)
  have hc := VaultProgram.reachable_custody (hw.reachable_vault is)
  have hrefused : ¬ MayMove c (run (exec c) w₀ is) env v.assetMint a.user
      (vaultAssetAuthority c.vault a.vault) := by
    intro hmay
    have hverified := hmay.destination
    rw [hu] at hverified
    cases hverified
  rw [← Bool.not_eq_true, ← Bool.not_eq_true, deposit_isOk_iff hh hc hv hhook,
    instantWithdraw_isOk_iff hh hc hv hhook]
  exact ⟨fun h ↦ hrefused h.2, fun h ↦ hrefused h.2⟩

/-- From any state of the chain, three calls of a stranger go through, and from then on a vault of
a hooked asset refuses every deposit and every withdrawal, whatever else happens, until someone
sets the status of its asset authority again. -/
theorem stranger_locks_vault {v : VaultProgram.Vault} (hw : Launch c w₀)
    (hapart : StatusesApart c.kyc) (hv : (run (exec c) w₀ is).vault.vaults V = some v)
    (hhook : c.hooked v.assetMint = true)
    (hk : Stranger c (run (exec c) w₀ is).kyc k M data) (env : Env) :
    Succeeds (exec c) (run (exec c) w₀ is) (lockout c env k M data V) ∧
      ∀ js, (∀ j ∈ js,
          ¬ SetsStatusAt (statusAddress c.kyc (vaultAssetAuthority c.vault V)) j) →
        ∀ env' a amount, a.vault = V →
          (exec c (run (exec c) w₀ (is ++ lockout c env k M data V ++ js))
              (env', .vault (.deposit a amount))).isOk = false ∧
            (exec c (run (exec c) w₀ (is ++ lockout c env k M data V ++ js))
              (env', .vault (.instantWithdraw a amount))).isOk = false := by
  have hset : Settable c.kyc (run (exec c) w₀ is).kyc := by
    rw [run_kyc]
    exact KycHook.run_settable hw.kyc hapart _
  obtain ⟨hcalls, hrevoked⟩ := stranger_revokes hset hapart hk env.now
    (vaultAssetAuthority c.vault V)
  obtain ⟨hrun, hsucceeds⟩ := run_kyc_calls c (run (exec c) w₀ is) env
    (revocations c k M data (vaultAssetAuthority c.vault V))
  refine ⟨hsucceeds.mpr hcalls, fun js hjs env' a amount ha ↦ ?_⟩
  subst ha
  have hlocked : verified c.kyc (run (exec c) w₀ (is ++ lockout c env k M data a.vault)).kyc
      (vaultAssetAuthority c.vault a.vault) = false := by
    rw [run_append, lockout, hrun]
    exact hrevoked
  have hhomed := KycHook.reachable_homed
    (hw.reachable_kyc (is ++ lockout c env k M data a.vault))
  have hstill := run_unverified hapart hhomed hlocked hjs
  rw [← run_append] at hstill
  -- the vault is still there, with the same asset
  have hlive : ∃ v', (run (exec c) w₀ (is ++ lockout c env k M data a.vault ++ js)).vault.vaults
      a.vault = some v' ∧ VaultProgram.SameKeys v v' := by
    rw [List.append_assoc, run_append, run_vault]
    exact VaultProgram.run_sameKeys hv _
  obtain ⟨v', hv', hkeys⟩ := hlive
  rw [← hkeys.assetMint] at hhook
  exact refused_of_unverified hw hv' hhook hstill env' amount

/-! ## A vault open to its user until then -/

def openRun : List (Env × Instruction) :=
  sampleSetup ++ [setStatus VaultProgram.Sample.user true, setStatus sampleAuthority true]

def outsider : Pubkey := 352

def outsiderMint : Pubkey := 384

theorem outsider_stranger : Stranger sampleChain (run (exec sampleChain) emptyWorld openRun).kyc
    outsider outsiderMint KycHook.Sample.mintData where
  signer := by decide
  mint := by decide
  unused := by decide +kernel
  registry := by decide +kernel
  layout := by decide

theorem stranger_locks_vault_open :
    (exec sampleChain (run (exec sampleChain) emptyWorld openRun)
        (at0, .vault (.deposit VaultProgram.Sample.userAccounts 400))).isOk = true ∧
      ∀ env a amount, a.vault = VaultProgram.Sample.vault →
        (exec sampleChain (run (exec sampleChain) emptyWorld (openRun ++ lockout sampleChain at0
            outsider outsiderMint KycHook.Sample.mintData VaultProgram.Sample.vault ++ []))
          (env, .vault (.deposit a amount))).isOk = false := by
  have hlive : ((run (exec sampleChain) emptyWorld openRun).vault.vaults
      VaultProgram.Sample.vault).map (·.assetMint) = some VaultProgram.Sample.assetMint := by
    decide +kernel
  obtain ⟨v, hv, hasset⟩ := Option.map_eq_some_iff.mp hlive
  have hhook : sampleChain.hooked v.assetMint = true := decide_eq_true hasset
  have hlocked := (stranger_locks_vault launch_sample KycHook.statusesApart_sample hv hhook
    outsider_stranger at0).2 [] (fun _ h ↦ absurd h List.not_mem_nil)
  exact ⟨by decide +kernel, fun env a amount ha ↦ (hlocked env a amount ha).1⟩

end PermissionedVault
