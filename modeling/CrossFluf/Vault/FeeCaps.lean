import CrossFluf.Vault.Books

/-!
# The caps on fees

`initialize_vault` caps the performance and the management fee and `update_config` only the
performance fee; nothing caps the fees of `deposit` and `instant_withdraw`, which subtract their
fee from what it is taken of.
-/

namespace VaultProgram

open Machine Solana Outcome Run

variable {p : ProgramAddresses} {w w' : World} {V : Pubkey} {v v' : Vault} {bps : U16}

/-! ## A fee of basis points and what it is taken of -/

/-- The fee of `bps` is computed and subtracted from any amount. -/
def FeeCovered (bps : U16) : Prop :=
  ∀ amount, ∃ fee rest, feeOf amount bps = .ok fee ∧ checkedSub amount fee = some rest

theorem feeOf_succeeds (amount : U64) (bps : U16) : ∃ fee, feeOf amount bps = .ok fee := by
  refine ⟨BitVec.ofNat 64 (amount.toNat * bps.toNat / 10000), ?_⟩
  rw [feeOf_eq_ok, BitVec.toNat_ofNat]

theorem feeOf_le {amount fee : U64} (hb : bps.toNat ≤ 10000) (h : feeOf amount bps = .ok fee) :
    fee.toNat ≤ amount.toNat := by
  have hscaled : amount.toNat * bps.toNat ≤ amount.toNat * 10000 := Nat.mul_le_mul_left _ hb
  have hfloor : amount.toNat * bps.toNat / 10000 ≤ amount.toNat := by omega
  rw [feeOf_eq_ok.mp h]
  exact le_trans (Nat.mod_le _ _) hfloor

/-- Up to 10000 basis points every fee can be subtracted; beyond, that of 10000 cannot. -/
theorem feeCovered_iff : FeeCovered bps ↔ bps.toNat ≤ 10000 := by
  apply Iff.intro
  · intro h
    obtain ⟨fee, rest, hfee, hrest⟩ := h 10000
    rw [feeOf_eq_ok] at hfee
    rw [checkedSub_eq_some] at hrest
    have hamount : (10000 : U64).toNat = 10000 := by decide
    have hbps := bps.isLt
    rw [hamount] at hfee hrest
    omega
  · intro hb amount
    obtain ⟨fee, hfee⟩ := feeOf_succeeds amount bps
    exact ⟨fee, _, hfee, if_pos (feeOf_le hb hfee)⟩

/-! ## The parameters of a vault -/

structure Vault.FeesCapped (v : Vault) : Prop where
  performanceFee : v.performanceFeeBps.toNat ≤ 5000
  managementFee : v.managementFeeBps.toNat ≤ 1000
  depositFee : v.depositFeeBps.toNat ≤ 10000
  withdrawalFee : v.withdrawalFeeBps.toNat ≤ 10000

/-- The fees of all vaults are capped, and what they take can always be subtracted. -/
def FeesCapped (w : World) : Prop :=
  ∀ V v, w.vaults V = some v →
    v.FeesCapped ∧ FeeCovered v.depositFeeBps ∧ FeeCovered v.withdrawalFeeBps

/-- The caps the instruction does not check itself. -/
def CapsKept : Instruction → Prop
  | .initializeVault _ _ config =>
    config.depositFeeBps.toNat ≤ 10000 ∧ config.withdrawalFeeBps.toNat ≤ 10000
  | .updateConfig _ config => config.managementFeeBps.toNat ≤ 1000 ∧
    config.depositFeeBps.toNat ≤ 10000 ∧ config.withdrawalFeeBps.toNat ≤ 10000
  | _ => True

theorem Vault.FeesCapped.covered (h : v.FeesCapped) :
    v.FeesCapped ∧ FeeCovered v.depositFeeBps ∧ FeeCovered v.withdrawalFeeBps :=
  ⟨h, feeCovered_iff.mpr h.depositFee, feeCovered_iff.mpr h.withdrawalFee⟩

theorem VaultInitialized.feesCapped_iff {env : Env} {a : InitializeVaultAccounts}
    {name : List U8} {config : VaultConfig} (h : VaultInitialized p env w a name config w') :
    (newVault p env a name config).FeesCapped ↔
      CapsKept (.initializeVault a name config) := by
  apply Iff.intro
  · intro hc
    exact ⟨hc.depositFee, hc.withdrawalFee⟩
  · intro hk
    exact ⟨h.performanceFee, h.managementFee, hk.1, hk.2⟩

theorem Vault.feesCapped_withConfig {a : ConfigAccounts} {config : VaultConfig}
    (hperf : config.performanceFeeBps.toNat ≤ 5000) :
    (v.withConfig config).FeesCapped ↔ CapsKept (.updateConfig a config) := by
  apply Iff.intro
  · intro hc
    exact ⟨hc.managementFee, hc.depositFee, hc.withdrawalFee⟩
  · intro hk
    exact ⟨hperf, hk.1, hk.2.1, hk.2.2⟩

-- at the vault the instruction names
theorem VaultStep.feesCapped_iff {i : Instruction} (h : VaultStep i v v') (hc : v.FeesCapped)
    (hperf : ∀ a config, i = .updateConfig a config → config.performanceFeeBps.toNat ≤ 5000)
    (hinit : ∀ a name config, i ≠ .initializeVault a name config) :
    v'.FeesCapped ↔ CapsKept i := by
  cases h with
  | counters kept _ noConfig =>
    apply iff_of_true
    · rw [kept]
      exact ⟨hc.performanceFee, hc.managementFee, hc.depositFee, hc.withdrawalFee⟩
    · cases i with
      | initializeVault a name config => exact absurd rfl (hinit a name config)
      | updateConfig a config => exact absurd rfl (noConfig a config)
      | _ => trivial
  | report kept =>
    apply iff_of_true
    · rw [kept]
      exact ⟨hc.performanceFee, hc.managementFee, hc.depositFee, hc.withdrawalFee⟩
    · trivial
  | config => exact Vault.feesCapped_withConfig (hperf _ _ rfl)

theorem exec_feesCapped {i : Env × Instruction} (h : exec p w i = .ok w')
    (hV : i.2.vault = some V) (hw : FeesCapped w) (hv' : w'.vaults V = some v') :
    v'.FeesCapped ↔ CapsKept i.2 := by
  cases hv : w.vaults V with
  | none =>
    obtain ⟨env, a, name, config, rfl, hi, -, rfl⟩ := exec_initializeVault h hv hv'
    exact hi.feesCapped_iff
  | some v =>
    obtain ⟨env, i⟩ := i
    refine (exec_vaultStep h hV hv hv').feesCapped_iff (hw V v hv).1 ?_ ?_
    · rintro a config rfl
      exact (updateConfig_eq_ok h).choose_spec.2
    · rintro a name config rfl
      have hnone := (initializeVault_eq_ok h).noVault
      rw [Option.some_inj.mp hV, hv] at hnone
      cases hnone

theorem feesCapped_step {i : Env × Instruction} (hw : FeesCapped w) (h : exec p w i = .ok w') :
    FeesCapped w' ↔ CapsKept i.2 := by
  have hat : ∀ V v', i.2.vault = some V → w'.vaults V = some v' →
      (v'.FeesCapped ∧ FeeCovered v'.depositFeeBps ∧ FeeCovered v'.withdrawalFeeBps ↔
        CapsKept i.2) := by
    intro V v' hV hv'
    rw [← exec_feesCapped h hV hw hv']
    exact ⟨fun hc ↦ hc.1, fun hc ↦ hc.covered⟩
  refine forall_vaults_step hw h ?_ (fun V v' hV _ hv' ↦ hat V v' hV hv')
    (fun V _ v' hV _ hv' ↦ hat V v' hV hv')
  intro hV
  obtain ⟨env, i⟩ := i
  cases i with
  | wallet signers i => trivial
  | _ => cases hV

/-- The caps hold all along a run, and no fee can underflow, exactly when every configuration
written keeps the caps its instruction does not check. -/
theorem feesCapped_iff_capsKept (hw : Genesis p w) (is : List (Env × Instruction)) :
    Always (exec p) FeesCapped w is ↔ EachStep (exec p) (fun _ i _ ↦ CapsKept i.2) w is := by
  have hgenesis : FeesCapped w := by
    intro V v hv
    rw [hw.vaults] at hv
    cases hv
  refine always_iff_eachStep ?_ hgenesis is
  intro w i w' hc h
  exact feesCapped_step hc h

/-- The admin raises the management fee beyond its cap and the withdrawal fee beyond the whole. -/
def uncappedRun : List (Env × Instruction) :=
  Sample.setup (Sample.config 0 0) ++
    [(Sample.clock 0, .updateConfig ⟨Sample.admin, Sample.vault⟩
      { Sample.config 20000 0 with managementFeeBps := 1001 })]

theorem uncappedRun_vault :
    ((run (exec sampleAddresses) Sample.empty uncappedRun).vaults Sample.vault).map
      (fun v ↦ (v.managementFeeBps, v.withdrawalFeeBps)) = some (1001, 20000) := by
  decide +kernel

theorem feesCapped_iff_capsKept_uncapped :
    Always (exec sampleAddresses) FeesCapped Sample.empty uncappedRun ↔
      EachStep (exec sampleAddresses) (fun _ i _ ↦ CapsKept i.2) Sample.empty uncappedRun :=
  feesCapped_iff_capsKept Sample.genesis uncappedRun

theorem feesCapped_fails :
    ¬ ∀ (p : ProgramAddresses) (w : World), Reachable (exec p) (Genesis p) w → FeesCapped w := by
  intro h
  have hrun := uncappedRun_vault
  rw [Option.map_eq_some_iff] at hrun
  obtain ⟨v, hv, hfees⟩ := hrun
  rw [Prod.mk.injEq] at hfees
  have hcapped := h sampleAddresses _ ⟨Sample.empty, uncappedRun, Sample.genesis, rfl⟩
  have hmanagement := (hcapped Sample.vault v hv).1.managementFee
  rw [hfees.1] at hmanagement
  exact absurd hmanagement (by decide)

end VaultProgram
