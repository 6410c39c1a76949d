import CrossFluf.Vault.Custody

/-!
# Who owns the assets of a vault

The first deposit into a vault without LP tokens is minted one to one, whatever the vault holds.
That is fair as long as a vault without LP tokens has no assets.
-/

namespace VaultProgram

open Machine Solana Outcome Run

variable {p : ProgramAddresses} {env : Env} {w w' : World} {V : Pubkey} {v v' : Vault}

/-! ## Assets without an owner -/

/-- A vault without LP tokens has no assets. -/
def Vault.Owned (v : Vault) : Prop := v.lpSupply = 0 → v.totalAssets = 0

def AssetsOwned (w : World) : Prop := ∀ V v, w.vaults V = some v → v.Owned

/-- The instruction leaves no assets in a vault without LP tokens: a first deposit is not all fee,
the whole supply is not redeemed while profit is withheld, and no gain is reported to nobody. -/
def LeavesNothing (w : World) (i : Env × Instruction) : Prop :=
  match i.2 with
  | .deposit a amount => ∀ v, w.vaults a.vault = some v → v.lpSupply = 0 →
    feeOf amount v.depositFeeBps ≠ .ok amount
  | .instantWithdraw a lpAmount => ∀ v, w.vaults a.vault = some v → lpAmount = v.lpSupply →
    v.totalAssets = 0 ∨ remaining v i.1.now = 0
  | .reportYield a newPositionValue => ∀ v s, w.vaults a.vault = some v →
    w.strategies a.strategy = some s → v.lpSupply = 0 →
    newPositionValue.toNat ≤ s.positionValue.toNat
  | _ => True

theorem eq_zero_iff_toNat {x : U64} : x = 0 ↔ x.toNat = 0 := by
  rw [← BitVec.toNat_inj]
  exact Iff.rfl

theorem Vault.owned_iff_toNat : v.Owned ↔ (v.lpSupply.toNat = 0 → v.totalAssets.toNat = 0) := by
  rw [Vault.Owned, eq_zero_iff_toNat, eq_zero_iff_toNat]

-- what neither takes LP tokens away nor adds assets
theorem Vault.Owned.mono (h : v.Owned) (hlp : v.lpSupply.toNat ≤ v'.lpSupply.toNat)
    (htotal : v'.totalAssets.toNat ≤ v.totalAssets.toNat) : v'.Owned := by
  rw [Vault.owned_iff_toNat] at h ⊢
  intro hzero
  have hold := h (by omega)
  omega

theorem Deposited.owned_iff {a : UserAccounts} {amount lpToMint feeLp lpAfterFee : U64}
    {paid minted : Tokens}
    (h : Deposited p env w a amount w' v v' lpToMint feeLp lpAfterFee paid minted) :
    v'.Owned ↔ (v.lpSupply = 0 → feeOf amount v.depositFeeBps ≠ .ok amount) := by
  have hpos := h.positive
  have htotal := h.total
  have hlp := h.lpSupply
  have hsplit := h.lpAfterFee_add
  rw [Vault.owned_iff_toNat, eq_zero_iff_toNat]
  -- the deposit adds assets, so it has to leave LP tokens
  have hnew : (v'.lpSupply.toNat = 0 → v'.totalAssets.toNat = 0) ↔
      (v.lpSupply.toNat = 0 → lpAfterFee.toNat ≠ 0) := by omega
  rw [hnew]
  refine imp_congr_right fun hzero ↦ not_congr ?_
  have hmint := h.lpToMint_ok
  rw [lpToMintFor, if_pos (eq_zero_iff_toNat.mpr hzero), pure_eq_ok] at hmint
  have hfee := h.feeLp_ok
  rw [← hmint] at hfee hsplit
  rw [hfee, Except.ok.injEq, ← BitVec.toNat_inj]
  omega

theorem Withdrawn.owned_iff {a : UserAccounts}
    {lpAmount effectiveAssets assetsToReturn fee assetsAfterFee : U64} {burned paid : Tokens}
    (h : Withdrawn p env w a lpAmount w' v v' effectiveAssets assetsToReturn fee assetsAfterFee
      burned paid) :
    v'.Owned ↔ (lpAmount = v.lpSupply → v.totalAssets = 0 ∨ remaining v env.now = 0) := by
  have hlp := h.lpSupply
  have htotal := h.total
  have hpos := h.positive
  have hassets := h.assets_eq
  rw [Vault.owned_iff_toNat, eq_zero_iff_toNat, ← BitVec.toNat_inj]
  have hall : v'.lpSupply.toNat = 0 ↔ lpAmount.toNat = v.lpSupply.toNat := by omega
  rw [hall]
  refine imp_congr_right fun he ↦ ?_
  -- the whole supply redeems for everything that is not withheld
  have hwhole : redeemable v env.now lpAmount = v.totalAssets.toNat - remaining v env.now := by
    rw [redeemable, he]
    exact Nat.mul_div_cancel_left _ (by omega)
  omega

theorem YieldReported.owned_iff {a : StrategyAccounts} {newPositionValue : U64} {s s' : Strategy}
    (h : YieldReported p env w a newPositionValue w' v v' s s') (hv : v.Owned) :
    v'.Owned ↔ (v.lpSupply = 0 → newPositionValue.toNat ≤ s.positionValue.toNat) := by
  rw [Vault.owned_iff_toNat] at hv ⊢
  rw [eq_zero_iff_toNat, h.lpSupply_eq]
  rcases bookYield_eq_ok h.booked with ⟨hlt, hb⟩ | ⟨hle, hb⟩
  · have htotal := hb.total
    omega
  · have htotal := hb.total
    omega

/-- At the vault it names, an instruction keeps the assets owned exactly when it leaves nothing
behind. -/
theorem exec_owned_iff {i : Env × Instruction} (h : exec p w i = .ok w')
    (hV : i.2.vault = some V) (hv : w.vaults V = some v) (hv' : w'.vaults V = some v')
    (ho : v.Owned) : v'.Owned ↔ LeavesNothing w i := by
  cases exec_vaultEffect_of h hV hv hv' with
  | deposit hd =>
    rw [hd.owned_iff]
    apply Iff.symm
    exact forall_eq_some_iff hv
  | instantWithdraw hx =>
    rw [hx.owned_iff]
    apply Iff.symm
    exact forall_eq_some_iff hv
  | reportYield hr =>
    rw [hr.owned_iff ho]
    apply Iff.intro
    · intro hgain y t hy ht
      obtain rfl := Option.some_inj.mp (hv.symm.trans hy)
      obtain rfl := Option.some_inj.mp (hr.strategy.symm.trans ht)
      exact hgain
    · intro hgain
      exact hgain v _ hv hr.strategy
  | addStrategy hs => exact iff_of_true (ho.mono (by rw [hs.kept]) (by rw [hs.kept])) trivial
  | allocate ha => exact iff_of_true (ho.mono (by rw [ha.kept]) (by rw [ha.kept])) trivial
  | deallocate hd => exact iff_of_true (ho.mono (by rw [hd.kept]) (by rw [hd.kept])) trivial
  | harvestNothing => exact iff_of_true ho trivial
  | harvestFees hf =>
    have hlp := hf.lpSupply
    exact iff_of_true (ho.mono (by omega) (by rw [hf.kept])) trivial
  | removeStrategy hr => exact iff_of_true ho trivial
  | updateConfig hc => exact iff_of_true (ho.mono le_rfl le_rfl) trivial
  | setActive hc => exact iff_of_true (ho.mono le_rfl le_rfl) trivial

theorem assetsOwned_step {i : Env × Instruction} (hw : AssetsOwned w) (h : exec p w i = .ok w') :
    AssetsOwned w' ↔ LeavesNothing w i := by
  refine forall_vaults_step hw h ?_ ?_ ?_
  · intro hV
    obtain ⟨env, i⟩ := i
    cases i with
    | wallet signers i => trivial
    | _ => cases hV
  · intro V v' hV hv hv'
    obtain ⟨env, a, name, config, rfl, -, -, rfl⟩ := exec_initializeVault h hv hv'
    exact iff_of_true (fun _ ↦ rfl) trivial
  · intro V v v' hV hv hv'
    exact exec_owned_iff h hV hv hv' (hw V v hv)

/-! ## What a first deposit can take out -/

/-- The total of the vault at `V`, zero before it is initialized. -/
def totalOf (V : Pubkey) (w : World) : ℕ := (w.vaults V).elim 0 fun v ↦ v.totalAssets.toNat

theorem totalOf_of_vault (hv : w.vaults V = some v) : totalOf V w = v.totalAssets.toNat := by
  rw [totalOf, hv, Option.elim_some]

-- only deposits and gains add to the total
theorem Books.Moves.total_le {b b' : Books} {m : Movement} (h : b.Moves m b') :
    b'.total ≤ b.total + m.inflow + m.gain := by
  cases m with
  | still =>
    have he : b' = b := h
    rw [he]
    exact le_rfl
  | deposit amount =>
    have he : b' = ⟨b.total + amount, b.idle + amount, b.deployed⟩ := h
    rw [he]
    exact le_rfl
  | withdraw assets paid =>
    have htotal := h.1
    show b'.total ≤ b.total + 0 + 0
    omega
  | allocate amount => exact le_of_eq h.1
  | deallocate amount => exact le_of_eq h.1
  | report oldValue newValue =>
    have htotal := h.2.2.2
    show b'.total ≤ b.total + 0 + (newValue - oldValue)
    omega

theorem exec_totalOf {i : Env × Instruction} (h : exec p w i = .ok w') :
    totalOf V w' ≤ totalOf V w + (movement w V i).inflow + (movement w V i).gain := by
  cases hv : w.vaults V with
  | some v =>
    obtain ⟨v', hv', hmoves⟩ := exec_moves h hv
    rw [totalOf_of_vault hv, totalOf_of_vault hv']
    exact hmoves.total_le
  | none =>
    have hzero : totalOf V w' = 0 := by
      cases hv' : w'.vaults V with
      | none => rw [totalOf, hv', Option.elim_none]
      | some v' =>
        obtain ⟨env, a, name, config, -, -, rfl⟩ := exec_initializes h hv hv'
        rw [totalOf_of_vault hv']
        rfl
    omega

/-- No successful step of a run reports a gain to the vault at `V`. -/
def NoGain (p : ProgramAddresses) (V : Pubkey) (w : World) (is : List (Env × Instruction)) : Prop :=
  EachStep (exec p) (fun w i _ ↦ (movement w V i).gain = 0) w is

/-- What the successful deposits of a run bring to the vault at `V`. -/
def depositsOf (p : ProgramAddresses) (V : Pubkey) (w : World) (is : List (Env × Instruction)) :
    ℕ :=
  tally (exec p) (fun w i ↦ (movement w V i).inflow) w is

theorem totalOf_run_le {is : List (Env × Instruction)} (h : NoGain p V w is) :
    totalOf V (run (exec p) w is) ≤ totalOf V w + depositsOf p V w is := by
  apply EachStep.le_tally
  apply h.mono
  intro w i w' hi hgain
  have hstep := exec_totalOf (V := V) hi
  omega

-- a withdrawal pays out at most the total
theorem instantWithdraw_pays {a : UserAccounts} {lpAmount : U64}
    (h : instantWithdraw p env w a lpAmount = .ok w') :
    w'.tokens.balance a.userAssetAccount ≤
      w.tokens.balance a.userAssetAccount + totalOf a.vault w := by
  obtain ⟨v, v', effectiveAssets, assetsToReturn, fee, assetsAfterFee, burned, paid, hx⟩ :=
    instantWithdraw_eq_ok h
  have hpaid := Tokens.transfer_balance_dst_le (transferAsset_eq_ok hx.paid_ok).2
  have hburned := Tokens.burn_balance_le hx.burned_ok a.userAssetAccount
  have hsplit := hx.assetsAfterFee_add
  have htotal := hx.total
  rw [totalOf_of_vault hx.vault, hx.world]
  show paid.balance a.userAssetAccount ≤ _
  omega

/-- After a deposit into a vault without LP tokens, a withdrawal at any later time pays at most
what that deposit and the later ones brought, unless a gain is reported in between. -/
def FirstDepositFair (p : ProgramAddresses) (w : World) : Prop :=
  ∀ env a amount w₁ v, deposit p env w a amount = .ok w₁ → w.vaults a.vault = some v →
    v.lpSupply = 0 → ∀ is, NoGain p a.vault w₁ is →
    ∀ env' b lpAmount w₂, b.vault = a.vault →
      instantWithdraw p env' (run (exec p) w₁ is) b lpAmount = .ok w₂ →
      w₂.tokens.balance b.userAssetAccount ≤
        (run (exec p) w₁ is).tokens.balance b.userAssetAccount +
          (amount.toNat + depositsOf p a.vault w₁ is)

theorem AssetsOwned.firstDepositFair (hw : AssetsOwned w) : FirstDepositFair p w := by
  intro env a amount w₁ v h hv hzero is hgain env' b lpAmount w₂ hb hwithdraw
  obtain ⟨x, x', _, _, _, _, _, hd⟩ := deposit_eq_ok h
  obtain rfl := Option.some_inj.mp (hv.symm.trans hd.vault)
  -- the newcomer finds no assets
  have hold : v.totalAssets.toNat = 0 := eq_zero_iff_toNat.mp (hw a.vault v hv hzero)
  have hfirst : totalOf a.vault w₁ = amount.toNat := by
    rw [totalOf_of_vault hd.vault_eq, hd.total, hold, Nat.zero_add]
  have hlater := totalOf_run_le hgain
  have hpays := instantWithdraw_pays hwithdraw
  rw [hb] at hpays
  omega

theorem Genesis.assetsOwned (h : Genesis p w) : AssetsOwned w := by
  intro V v hv
  rw [h.vaults] at hv
  cases hv

/-- No vault of a run ever has assets but no LP tokens, and first deposits are fair, exactly when
every step leaves nothing behind. -/
theorem assetsOwned_iff_leavesNothing (hw : Genesis p w) (is : List (Env × Instruction)) :
    Always (exec p) (fun w ↦ AssetsOwned w ∧ FirstDepositFair p w) w is ↔
      EachStep (exec p) (fun w i _ ↦ LeavesNothing w i) w is := by
  refine always_iff_eachStep ?_ ?_ is
  · intro w i w' ho h
    have hstep := assetsOwned_step ho.1 h
    apply Iff.intro
    · intro ho'
      exact hstep.mp ho'.1
    · intro hleaves
      have howned := hstep.mpr hleaves
      exact ⟨howned, howned.firstDepositFair⟩
  · exact ⟨hw.assetsOwned, hw.assetsOwned.firstDepositFair⟩

/-- A deposit of 100 is redeemed whole while a gain of 100 is still locked. -/
def orphanedRun : List (Env × Instruction) :=
  Sample.setup (Sample.config 0 100) ++
    [(Sample.clock 0, .deposit Sample.userAccounts 100),
     (Sample.clock 0, .addStrategy Sample.strategyAccounts [] []),
     (Sample.clock 0, .reportYield Sample.strategyAccounts 100),
     (Sample.clock 0, .instantWithdraw Sample.userAccounts 100)]

theorem orphanedRun_vault :
    ((run (exec sampleAddresses) Sample.empty orphanedRun).vaults Sample.vault).map
      (fun v ↦ (v.lpSupply, v.totalAssets)) = some (0, 100) := by
  decide +kernel

theorem assetsOwned_iff_leavesNothing_orphaned :
    Always (exec sampleAddresses) (fun w ↦ AssetsOwned w ∧ FirstDepositFair sampleAddresses w)
        Sample.empty orphanedRun ↔
      EachStep (exec sampleAddresses) (fun w i _ ↦ LeavesNothing w i) Sample.empty orphanedRun :=
  assetsOwned_iff_leavesNothing Sample.genesis orphanedRun

theorem assetsOwned_fails :
    ¬ ∀ (p : ProgramAddresses) (w : World) (is : List (Env × Instruction)), Genesis p w →
      is.Pairwise (fun i j ↦ i.1.now.toInt ≤ j.1.now.toInt) →
      AssetsOwned (run (exec p) w is) := by
  intro h
  have htimes : orphanedRun.Pairwise (fun i j ↦ i.1.now.toInt ≤ j.1.now.toInt) := by
    decide
  have howned := h sampleAddresses Sample.empty orphanedRun Sample.genesis htimes
  have hrun := orphanedRun_vault
  rw [Option.map_eq_some_iff] at hrun
  obtain ⟨v, hv, hfields⟩ := hrun
  rw [Prod.mk.injEq] at hfields
  have hzero := howned Sample.vault v hv hfields.1
  rw [hfields.2] at hzero
  exact absurd hzero (by decide)

end VaultProgram
