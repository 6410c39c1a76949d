import CrossFluf.Vault.Books
import CrossFluf.Base.Run

/-!
# The accounting identity

The books of every vault stay balanced in exactly the runs whose withdrawals charge no fee: the
fee leaves `total_assets` and stays in `idle_assets`.
-/

namespace VaultProgram

open Machine Solana Run

variable {p : ProgramAddresses} {w w' : World}

/-- `total_assets = idle_assets + sum of position_value`, for every vault. -/
def AccountingIdentity (w : World) : Prop :=
  ∀ V v, w.vaults V = some v → v.totalAssets.toNat = v.idleAssets.toNat + deployed w V

/-- The loss a `report_yield` books is at most the total it is taken from. -/
def LossCovered (w : World) (i : Env × Instruction) : Prop :=
  match i.2 with
  | .reportYield a newPositionValue =>
    ∀ v s, w.vaults a.vault = some v → w.strategies a.strategy = some s →
      s.positionValue.toNat - newPositionValue.toNat ≤ v.totalAssets.toNat
  | _ => True

/-- The withdrawal fee of an `instant_withdraw` rounds down to nothing. -/
def FeeFree (w : World) (i : Env × Instruction) : Prop :=
  match i.2 with
  | .instantWithdraw a lpAmount =>
    ∀ v, w.vaults a.vault = some v → withdrawalFee v i.1.now lpAmount = 0
  | _ => True

theorem withdrawal_exact_iff (v : Vault) (now : I64) (lpAmount : U64) :
    redeemable v now lpAmount = redeemable v now lpAmount - withdrawalFee v now lpAmount ↔
      withdrawalFee v now lpAmount = 0 := by
  have hzero : redeemable v now lpAmount = 0 → withdrawalFee v now lpAmount = 0 := by
    intro h
    rw [withdrawalFee, h, Nat.zero_mul, Nat.zero_div, Nat.zero_mod]
  omega

theorem FeeFree.exact {V : Pubkey} {i : Env × Instruction} (h : FeeFree w i) :
    (movement w V i).Exact := by
  obtain ⟨env, i⟩ := i
  rw [movement]
  split
  · rename_i hV
    cases i with
    | instantWithdraw a lpAmount =>
      obtain rfl := Option.some_inj.mp hV
      have hfree : ∀ v, w.vaults a.vault = some v → withdrawalFee v env.now lpAmount = 0 := h
      show Movement.Exact ((w.vaults a.vault).elim _ _)
      cases hv : w.vaults a.vault with
      | none => trivial
      | some v => exact (withdrawal_exact_iff v env.now lpAmount).mpr (hfree v hv)
    | _ => trivial
  · trivial

-- a step can only unbalance the books of the vault it names, by the fee of a withdrawal
theorem accountingIdentity_step {i : Env × Instruction} (hw : Homed w)
    (hid : AccountingIdentity w) (h : exec p w i = .ok w') :
    AccountingIdentity w' ↔ FeeFree w i := by
  apply Iff.intro
  · intro hid'
    obtain ⟨env, i⟩ := i
    cases i with
    | instantWithdraw a lpAmount =>
      show ∀ v, w.vaults a.vault = some v → withdrawalFee v env.now lpAmount = 0
      intro v hv
      obtain ⟨v', hv', hmoves⟩ := exec_moves h hv
      have hexact := (hmoves.balanced_iff (hid a.vault v hv)).mp (hid' a.vault v' hv')
      rw [movement, if_pos (by rfl), Instruction.movement, hv] at hexact
      exact (withdrawal_exact_iff v env.now lpAmount).mp hexact
    | _ => trivial
  · intro hfree V v' hv'
    cases hV : w.vaults V with
    | none =>
      have hopen := exec_opens hw h hV hv'
      have hbalanced : (books w' V v').Balanced := by
        rw [hopen]
        rfl
      exact hbalanced
    | some v =>
      obtain ⟨x, hx, hmoves⟩ := exec_moves h hV
      obtain rfl := Option.some_inj.mp (hx.symm.trans hv')
      exact (hmoves.balanced_iff (hid V v hV)).mpr hfree.exact

theorem AccountingIdentity.lossCovered {i : Env × Instruction} (hid : AccountingIdentity w)
    (h : exec p w i = .ok w') : LossCovered w i := by
  cases exec_effect h with
  | @reportYield env a newValue _ v v' s s' hr =>
    show ∀ v s, w.vaults a.vault = some v → w.strategies a.strategy = some s →
      s.positionValue.toNat - newValue.toNat ≤ v.totalAssets.toNat
    intro x y hx hy
    obtain rfl := Option.some_inj.mp (hr.vault.symm.trans hx)
    obtain rfl := Option.some_inj.mp (hr.strategy.symm.trans hy)
    have hle := hr.position_le
    have htotal := hid a.vault v hr.vault
    omega
  | _ => trivial

theorem accountingIdentity_iff_feeFree (hw : Genesis p w) (is : List (Env × Instruction)) :
    Always (exec p) AccountingIdentity w is ∧
        EachStep (exec p) (fun w i _ ↦ LossCovered w i) w is ↔
      EachStep (exec p) (fun w i _ ↦ FeeFree w i) w is := by
  have hgenesis : AccountingIdentity w := by
    intro V v hv
    rw [hw.vaults] at hv
    cases hv
  have hiff : Always (exec p) AccountingIdentity w is ↔
      EachStep (exec p) (fun w i _ ↦ FeeFree w i) w is :=
    (always_of_invariant (fun _ _ _ hs h ↦ exec_homed hs h) hw.homed is).iff_eachStep
      (fun _ _ _ hs _ hid h ↦ accountingIdentity_step hs hid h) hgenesis
  apply Iff.intro
  · intro h
    exact hiff.mp h.1
  · intro h
    have halways := hiff.mpr h
    exact ⟨halways, halways.eachStep fun _ _ _ hid h ↦ hid.lossCovered h⟩

/-- A deposit of 1000 redeemed at a fee of a tenth. -/
def chargedRun : List (Env × Instruction) :=
  Sample.setup (Sample.config 1000 0) ++
    [(Sample.clock 0, .deposit Sample.userAccounts 1000),
     (Sample.clock 0, .instantWithdraw Sample.userAccounts 1000)]

-- the fee of 100 is gone from the total and still idle
theorem chargedRun_vault :
    ((run (exec sampleAddresses) Sample.empty chargedRun).vaults Sample.vault).map
      (fun v ↦ (v.totalAssets, v.idleAssets)) = some (0, 100) := by
  decide +kernel

theorem accountingIdentity_iff_feeFree_charged :
    Always (exec sampleAddresses) AccountingIdentity Sample.empty chargedRun ∧
        EachStep (exec sampleAddresses) (fun w i _ ↦ LossCovered w i) Sample.empty chargedRun ↔
      EachStep (exec sampleAddresses) (fun w i _ ↦ FeeFree w i) Sample.empty chargedRun :=
  accountingIdentity_iff_feeFree Sample.genesis chargedRun

theorem accountingIdentity_fails :
    ¬ ∀ (p : ProgramAddresses) (w : World) (is : List (Env × Instruction)), Genesis p w →
      AccountingIdentity (run (exec p) w is) := by
  intro h
  have hid := h sampleAddresses Sample.empty chargedRun Sample.genesis
  have hrun := chargedRun_vault
  rw [Option.map_eq_some_iff] at hrun
  obtain ⟨v, hv, hbooks⟩ := hrun
  have htotal := hid Sample.vault v hv
  rw [Prod.mk.injEq] at hbooks
  rw [hbooks.1, hbooks.2] at htotal
  have hidle : (100 : U64).toNat = 100 := by decide
  have hzero : (0 : U64).toNat = 0 := by decide
  omega

end VaultProgram
