import CrossFluf.Vault.Custody

/-!
# What backs the idle assets

Allocations, deallocations and reports move no tokens.  The idle assets of a vault are covered by
its token account up to what was reported as profit, and stay covered as long as no deallocation
brings back more than the account holds.
-/

namespace VaultProgram

open Machine Solana Outcome Run

variable {p : ProgramAddresses} {env : Env} {w w' : World} {V : Pubkey} {v v' : Vault}

/-! ## Who can move the tokens of a vault -/

/-- No other address of an initialized vault is the authority over the tokens of the one at `V`. -/
def AuthorityApart (p : ProgramAddresses) (V : Pubkey) (w : World) : Prop :=
  ∀ U, (w.vaults U).isSome → lpMintAuthority p U ≠ vaultAssetAuthority p V ∧
    (U ≠ V → vaultAssetAuthority p U ≠ vaultAssetAuthority p V)

theorem AuthorityApart.of_exec {i : Env × Instruction} (h : exec p w i = .ok w')
    (hw' : AuthorityApart p V w') : AuthorityApart p V w :=
  fun U hU ↦ hw' U (exec_vaults_isSome h hU)

theorem authority_ne_signer {k : Pubkey} (h : p.isDerived k = false) (V : Pubkey) :
    vaultAssetAuthority p V ≠ k :=
  p.find_ne_signer h _

-- only a withdrawal from the vault itself carries its signature
theorem authority_notMem_signers {i : Env × Instruction} (hw : AuthorityApart p V w)
    (h : exec p w i = .ok w') (hi : ∀ a lpAmount, i.2 = .instantWithdraw a lpAmount → a.vault ≠ V) :
    vaultAssetAuthority p V ∉ i.2.signers p := by
  have hpair : ∀ {user authority : Pubkey}, p.isDerived user = false →
      authority ≠ vaultAssetAuthority p V → vaultAssetAuthority p V ∉ [user, authority] := by
    intro user authority huser hne hmem
    simp only [List.mem_cons, List.not_mem_nil, or_false] at hmem
    rcases hmem with he | he
    · exact authority_ne_signer huser V he
    · exact hne he.symm
  have hsome : ∀ {U u}, w.vaults U = some u → (w.vaults U).isSome := by
    intro U u hU
    rw [hU]
    rfl
  cases exec_effect h with
  | deposit hd => exact hpair hd.signer (hw _ (hsome hd.vault)).1
  | instantWithdraw hx => exact hpair hx.signer ((hw _ (hsome hx.vault)).2 (hi _ _ rfl))
  | harvestNothing =>
    obtain ⟨u, hu, hsigner, -⟩ := harvestFees_admin h
    exact hpair hsigner (hw _ (hsome hu)).1
  | harvestFees hf => exact hpair hf.signer (hw _ (hsome hf.vault)).1
  | wallet ht =>
    intro hmem
    exact authority_ne_signer (ht.external _ hmem) V rfl
  | _ => exact List.not_mem_nil

theorem Custody.balance_mono {i : Env × Instruction} (hc : Custody p w)
    (hw : AuthorityApart p V w) (hv : w.vaults V = some v) (h : exec p w i = .ok w')
    (hi : ∀ a lpAmount, i.2 = .instantWithdraw a lpAmount → a.vault ≠ V) :
    w.tokens.balance v.vaultAssetAccount ≤ w'.tokens.balance v.vaultAssetAccount := by
  obtain ⟨x, hx, howner, -⟩ := hc.account V v hv
  have hnone : x.delegate = none :=
    hc.undelegated _ x hx (howner ▸ p.isDerived_find _)
  exact (exec_tokenStep h).balance_mono hx (howner ▸ authority_notMem_signers hw h hi) hnone

section Deposit

variable {a : UserAccounts} {amount lpToMint feeLp lpAfterFee : U64} {paid minted : Tokens}

theorem Deposited.balance_eq (hc : Custody p w)
    (h : Deposited p env w a amount w' v v' lpToMint feeLp lpAfterFee paid minted) :
    w'.tokens.balance v.vaultAssetAccount =
      w.tokens.balance v.vaultAssetAccount + amount.toNat := by
  obtain ⟨hasset, hlp⟩ := hc.holds_ne h.vault h.signer h.holds
  have hpaid := (transferAsset_eq_ok h.paid_ok).2
  rw [h.holds.vaultAssetAccount] at hpaid
  rw [h.world]
  show minted.balance v.vaultAssetAccount = _
  rw [Tokens.mintTo_balance_of_ne h.minted_ok hlp.symm, (Tokens.transfer_balance hpaid hasset).2]

end Deposit

section Withdrawal

variable {a : UserAccounts} {lpAmount effectiveAssets assetsToReturn fee assetsAfterFee : U64}
  {burned paid : Tokens}

theorem Withdrawn.balance_eq (hc : Custody p w)
    (h : Withdrawn p env w a lpAmount w' v v' effectiveAssets assetsToReturn fee assetsAfterFee
      burned paid) :
    w.tokens.balance v.vaultAssetAccount =
      w'.tokens.balance v.vaultAssetAccount + assetsAfterFee.toNat := by
  obtain ⟨hasset, hlp⟩ := hc.holds_ne h.vault h.signer h.holds
  have hpaid := (transferAsset_eq_ok h.paid_ok).2
  rw [h.holds.vaultAssetAccount] at hpaid
  rw [h.world]
  show _ = paid.balance v.vaultAssetAccount + _
  rw [← Tokens.burn_balance_of_ne h.burned_ok hlp.symm,
    (Tokens.transfer_balance hpaid hasset.symm).1]

end Withdrawal

theorem movement_inflow {i : Env × Instruction}
    (hi : ∀ a amount, i.2 = .deposit a amount → a.vault ≠ V) : (movement w V i).inflow = 0 := by
  obtain ⟨env, i⟩ := i
  rw [movement]
  split
  · rename_i hV
    cases i with
    | deposit a amount => exact absurd (Option.some_inj.mp hV) (hi a amount rfl)
    | instantWithdraw a lpAmount =>
      show ((w.vaults V).elim Movement.still _).inflow = 0
      cases w.vaults V with
      | none => rfl
      | some v => rfl
    | _ => rfl
  · rfl

/-- The token account of a vault follows the movements of its books, and may get more. -/
theorem exec_balance {i : Env × Instruction} (hc : Custody p w) (hw : AuthorityApart p V w)
    (hv : w.vaults V = some v) (h : exec p w i = .ok w') :
    w.tokens.balance v.vaultAssetAccount + (movement w V i).inflow ≤
      w'.tokens.balance v.vaultAssetAccount + (movement w V i).outflow := by
  by_cases hd : ∃ a amount, i.2 = .deposit a amount ∧ a.vault = V
  · obtain ⟨env, _⟩ := i
    obtain ⟨a, amount, rfl, rfl⟩ := hd
    obtain ⟨x, x', _, _, _, _, _, hdep⟩ := deposit_eq_ok (show deposit p env w a amount = _ from h)
    obtain rfl := Option.some_inj.mp (hdep.vault.symm.trans hv)
    rw [hdep.balance_eq hc, movement, if_pos (by rfl)]
    exact le_rfl
  · by_cases hx : ∃ a lpAmount, i.2 = .instantWithdraw a lpAmount ∧ a.vault = V
    · obtain ⟨env, _⟩ := i
      obtain ⟨a, lpAmount, rfl, rfl⟩ := hx
      obtain ⟨x, x', _, _, _, _, _, _, hwith⟩ :=
        instantWithdraw_eq_ok (show instantWithdraw p env w a lpAmount = _ from h)
      obtain rfl := Option.some_inj.mp (hwith.vault.symm.trans hv)
      have hsplit := hwith.assetsAfterFee_add
      rw [hwith.assets_eq, hwith.fee_eq] at hsplit
      rw [hwith.balance_eq hc, movement, if_pos (by rfl), Instruction.movement, hv]
      show _ ≤ _ + (redeemable x env.now lpAmount - withdrawalFee x env.now lpAmount)
      rw [hsplit, Nat.add_sub_cancel_left]
      exact le_rfl
    · have hin : (movement w V i).inflow = 0 :=
        movement_inflow fun a amount he hV ↦ hd ⟨a, amount, he, hV⟩
      have hmono := hc.balance_mono hw hv h fun a lpAmount he hV ↦ hx ⟨a, lpAmount, he, hV⟩
      omega

/-! ## Idle assets -/

/-- The idle assets of the vault at `V` are covered by its token account. -/
def IdleBacked (V : Pubkey) (w : World) : Prop :=
  ∀ v, w.vaults V = some v → v.idleAssets.toNat ≤ w.tokens.balance v.vaultAssetAccount

/-- A deallocation to the vault at `V` leaves its idle assets within its tokens. -/
def DeallocationBacked (V : Pubkey) (w : World) (i : Env × Instruction) : Prop :=
  match i.2 with
  | .deallocate a amount => a.vault = V → ∀ v, w.vaults V = some v →
    v.idleAssets.toNat + amount.toNat ≤ w.tokens.balance v.vaultAssetAccount
  | _ => True

theorem movement_recalled {i : Env × Instruction}
    (hi : ∀ a amount, i.2 = .deallocate a amount → a.vault ≠ V) :
    (movement w V i).recalled = 0 := by
  obtain ⟨env, i⟩ := i
  rw [movement]
  split
  · rename_i hV
    cases i with
    | deallocate a amount => exact absurd (Option.some_inj.mp hV) (hi a amount rfl)
    | instantWithdraw a lpAmount =>
      show ((w.vaults V).elim Movement.still _).recalled = 0
      cases w.vaults V with
      | none => rfl
      | some v => rfl
    | _ => rfl
  · rfl

-- tokens that move are booked, so only a deallocation can outgrow the account
theorem idleBacked_step {i : Env × Instruction} (hc : Custody p w) (hw : AuthorityApart p V w)
    (hb : IdleBacked V w) (h : exec p w i = .ok w') :
    IdleBacked V w' ↔ DeallocationBacked V w i := by
  by_cases hd : ∃ a amount, i.2 = .deallocate a amount ∧ a.vault = V
  · obtain ⟨env, _⟩ := i
    obtain ⟨a, amount, rfl, rfl⟩ := hd
    obtain ⟨v, v', s, s', hde⟩ := deallocate_eq_ok (show deallocate p env w a amount = _ from h)
    have htokens : w'.tokens = w.tokens := by rw [hde.world]; rfl
    have hkeys := exec_sameKeys h hde.vault hde.vault_eq
    have hidle := hde.idle
    apply Iff.intro
    · intro hb' _ x hx
      obtain rfl := Option.some_inj.mp (hde.vault.symm.trans hx)
      have hle := hb' v' hde.vault_eq
      rw [hkeys.vaultAssetAccount, htokens, hidle] at hle
      exact hle
    · intro hcover x hx
      obtain rfl := Option.some_inj.mp (hde.vault_eq.symm.trans hx)
      rw [hkeys.vaultAssetAccount, htokens, hidle]
      exact hcover rfl v hde.vault
  · have hcover : DeallocationBacked V w i := by
      obtain ⟨env, i⟩ := i
      cases i with
      | deallocate a amount => exact fun hV ↦ absurd ⟨a, amount, rfl, hV⟩ hd
      | _ => trivial
    refine iff_of_true ?_ hcover
    intro v' hv'
    cases hV : w.vaults V with
    | none =>
      obtain ⟨env, a, name, config, hi, -, rfl⟩ := exec_initializes h hV hv'
      exact Nat.zero_le _
    | some v =>
      obtain ⟨x, hx, hmoves⟩ := exec_moves h hV
      obtain rfl := Option.some_inj.mp (hx.symm.trans hv')
      have hidle := hmoves.idle_add_le
      have hbalance := exec_balance hc hw hV h
      have hrecalled := movement_recalled (w := w) (V := V) (i := i)
        fun a amount he hn ↦ hd ⟨a, amount, he, hn⟩
      have hbacked := hb v hV
      rw [(exec_sameKeys h hV hv').vaultAssetAccount]
      show (books w' V x).idle ≤ _
      have hold : (books w V v).idle = v.idleAssets.toNat := rfl
      omega

/-! ## What the vault claims -/

/-- The idle and deployed assets of the vault at `V`, nothing before it is initialized. -/
def claimed (V : Pubkey) (w : World) : ℕ :=
  (w.vaults V).elim 0 fun v ↦ v.idleAssets.toNat + deployed w V

def backing (V : Pubkey) (w : World) : ℕ :=
  (w.vaults V).elim 0 fun v ↦ w.tokens.balance v.vaultAssetAccount

theorem claimed_of_vault (hv : w.vaults V = some v) :
    claimed V w = v.idleAssets.toNat + deployed w V := by
  rw [claimed, hv, Option.elim_some]

theorem backing_of_vault (hv : w.vaults V = some v) :
    backing V w = w.tokens.balance v.vaultAssetAccount := by
  rw [backing, hv, Option.elim_some]

/-- The profit and the loss an instruction books. -/
def gainOf (V : Pubkey) (w : World) (i : Env × Instruction) : ℕ :=
  (w.vaults V).elim 0 fun _ ↦ (movement w V i).gain

def lossOf (V : Pubkey) (w : World) (i : Env × Instruction) : ℕ :=
  (w.vaults V).elim 0 fun _ ↦ (movement w V i).loss

theorem claimed_step {i : Env × Instruction} (hc : Custody p w) (hh : Homed w)
    (hw : AuthorityApart p V w) (h : exec p w i = .ok w') :
    claimed V w' + lossOf V w i + backing V w ≤ backing V w' + gainOf V w i + claimed V w := by
  cases hV : w.vaults V with
  | some v =>
    obtain ⟨v', hv', hmoves⟩ := exec_moves h hV
    have hclaim := hmoves.claim_add
    have hbalance := exec_balance hc hw hV h
    rw [claimed_of_vault hV, claimed_of_vault hv', backing_of_vault hV, backing_of_vault hv',
      (exec_sameKeys h hV hv').vaultAssetAccount, lossOf, gainOf, hV, Option.elim_some,
      Option.elim_some]
    have hold : (books w V v).idle + (books w V v).deployed =
      v.idleAssets.toNat + deployed w V := rfl
    have hnew : (books w' V v').idle + (books w' V v').deployed =
      v'.idleAssets.toNat + deployed w' V := rfl
    omega
  | none =>
    have hclaimed' : claimed V w' = 0 := by
      cases hV' : w'.vaults V with
      | none => rw [claimed, hV', Option.elim_none]
      | some v' =>
        have hopen := exec_opens hh h hV hV'
        rw [claimed_of_vault hV']
        show (books w' V v').idle + (books w' V v').deployed = 0
        rw [hopen]
        rfl
    rw [hclaimed', lossOf, backing, hV, Option.elim_none, Option.elim_none]
    omega

/-! ## Withdrawals -/

/-- An `instant_withdraw` of the vault's asset that got as far as its token transfer: it passed the
`InsufficientIdle` check and burned the LP tokens. -/
structure PassesIdleCheck (p : ProgramAddresses) (w : World) (a : UserAccounts) (lpAmount : U64)
    (v : Vault) (assetsAfterFee : U64) (burned : Tokens) : Prop where
  signer : p.isDerived a.user = false
  vault : w.vaults a.vault = some v
  holds : UserHolds w a v
  assetMint : a.assetMint = v.assetMint
  passes : assetsAfterFee.toNat ≤ v.idleAssets.toNat
  burned_ok : w.tokens.burn [a.user] a.userLpAccount a.lpMint a.user lpAmount = .ok burned

theorem PassesIdleCheck.transfer_succeeds {a : UserAccounts} {lpAmount assetsAfterFee : U64}
    {burned : Tokens} (hc : Custody p w) (hook : env.hookApproves = true)
    (hb : IdleBacked a.vault w) (h : PassesIdleCheck p w a lpAmount v assetsAfterFee burned) :
    ∃ paid, transferAsset env burned [a.user, vaultAssetAuthority p a.vault] a.vaultAssetAccount
      a.assetMint a.userAssetAccount (vaultAssetAuthority p a.vault) assetsAfterFee =
        .ok paid := by
  obtain ⟨x, hx, howner, hxm⟩ := hc.account a.vault v h.vault
  obtain ⟨y, hy, hym, -⟩ := h.holds.asset
  obtain ⟨m, hm⟩ := hc.mint a.vault v h.vault
  obtain ⟨hasset, hlp⟩ := hc.holds_ne h.vault h.signer h.holds
  have hframe := (Tokens.burn_frame h.burned_ok).1
  obtain ⟨d, hd, hdm, -⟩ := hframe.account _ y hy
  obtain ⟨m', hm', -⟩ := hframe.mint _ m hm
  have hsrc : burned.account v.vaultAssetAccount = some x := by
    rw [Tokens.burn_account_of_ne h.burned_ok hlp.symm, hx]
  have hle : assetsAfterFee.toNat ≤ x.amount.toNat := by
    have hbacked := hb v h.vault
    rw [Tokens.balance_of_account hx] at hbacked
    exact le_trans h.passes hbacked
  have hnone : x.delegate = none := hc.undelegated _ x hx (howner ▸ p.isDerived_find _)
  have hsig : vaultAssetAuthority p a.vault ∈ [a.user, vaultAssetAuthority p a.vault] :=
    List.mem_cons_of_mem _ (List.mem_singleton.mpr rfl)
  rw [h.holds.vaultAssetAccount, h.assetMint]
  obtain ⟨paid, hpaid⟩ := Tokens.transferChecked_succeeds (Tokens.burn_sound hc.sound h.burned_ok)
    hsrc hd hasset.symm hm' hxm (hdm.trans (hym.trans h.assetMint)) howner
    (fun he ↦ absurd (hnone.symm.trans he) nofun) hsig hle
  refine ⟨paid, ?_⟩
  simp only [transferAsset, bind_eq_ok, orElse_eq_ok, require_eq_ok, mapError_eq_ok, exists_const]
  exact ⟨m', hm', hook, hpaid⟩

/-! ## Whole runs -/

theorem idleBacked_run (hw : Genesis p w) (is : List (Env × Instruction))
    (hapart : AuthorityApart p V (run (exec p) w is)) :
    (Always (exec p) (IdleBacked V) w is ↔
      EachStep (exec p) (fun w i _ ↦ DeallocationBacked V w i) w is) ∧
    claimed V (run (exec p) w is) + tally (exec p) (lossOf V) w is ≤
      backing V (run (exec p) w is) + tally (exec p) (gainOf V) w is ∧
    (IdleBacked V (run (exec p) w is) → ∀ env a lpAmount v assetsAfterFee burned,
      a.vault = V → env.hookApproves = true →
      PassesIdleCheck p (run (exec p) w is) a lpAmount v assetsAfterFee burned →
      ∃ paid, transferAsset env burned [a.user, vaultAssetAuthority p a.vault]
        a.vaultAssetAccount a.assetMint a.userAssetAccount (vaultAssetAuthority p a.vault)
        assetsAfterFee = .ok paid) := by
  have hcustody : Always (exec p) (Custody p) w is :=
    always_of_invariant (fun _ _ _ hs h ↦ exec_custody hs h) hw.custody is
  have hhomed : Always (exec p) Homed w is :=
    always_of_invariant (fun _ _ _ hs h ↦ exec_homed hs h) hw.homed is
  have halways : Always (exec p) (AuthorityApart p V) w is :=
    always_of_last (fun _ _ _ h hs ↦ AuthorityApart.of_exec h hs) hapart
  have hnone : w.vaults V = none := hw.vaults V
  refine ⟨?_, ?_, ?_⟩
  · apply (hcustody.and halways).iff_eachStep
    · intro s i s' hs _ hb h
      exact idleBacked_step hs.1 hs.2 hb h
    · intro v hv
      rw [hnone] at hv
      cases hv
  · have htally := ((hcustody.and hhomed).and halways).tally_le (x := claimed V) (y := backing V)
      (f := gainOf V) (g := lossOf V)
      fun s i s' hs _ h ↦ claimed_step hs.1.1 hs.1.2 hs.2 h
    have hclaimed : claimed V w = 0 := by rw [claimed, hnone, Option.elim_none]
    have hbacking : backing V w = 0 := by rw [backing, hnone, Option.elim_none]
    omega
  · intro hb env a lpAmount v assetsAfterFee burned hV hook hpass
    subst hV
    exact hpass.transfer_succeeds hcustody.last hook hb

/-- A deposit of 100 and a reported gain of 100. -/
def gainRun : List (Env × Instruction) :=
  Sample.setup (Sample.config 0 0) ++
    [(Sample.clock 0, .deposit Sample.userAccounts 100),
     (Sample.clock 0, .addStrategy Sample.strategyAccounts [] []),
     (Sample.clock 0, .reportYield Sample.strategyAccounts 100)]

/-- The gain called back as idle assets. -/
def phantomRun : List (Env × Instruction) :=
  gainRun ++ [(Sample.clock 0, .deallocate Sample.strategyAccounts 100)]

def gainWorld : World := run (exec sampleAddresses) Sample.empty gainRun

def phantomWorld : World := run (exec sampleAddresses) Sample.empty phantomRun

-- there is no other vault
theorem sample_apart {is : List (Env × Instruction)}
    (hnamed : ∀ i ∈ is, i.2.vault = none ∨ i.2.vault = some Sample.vault) :
    AuthorityApart sampleAddresses Sample.vault (run (exec sampleAddresses) Sample.empty is) := by
  intro U hU
  obtain rfl := sample_vault_of_isSome hnamed hU
  exact ⟨by decide +kernel, fun h ↦ absurd rfl h⟩

theorem gain_apart : AuthorityApart sampleAddresses Sample.vault gainWorld := by
  apply sample_apart
  simp [gainRun, Sample.setup, Instruction.vault, Sample.userAccounts, Sample.strategyAccounts]

theorem phantom_apart : AuthorityApart sampleAddresses Sample.vault phantomWorld := by
  apply sample_apart
  simp [phantomRun, gainRun, Sample.setup, Instruction.vault, Sample.userAccounts,
    Sample.strategyAccounts]

theorem gainWorld_passes : ∃ v burned, IdleBacked Sample.vault gainWorld ∧
    PassesIdleCheck sampleAddresses gainWorld Sample.userAccounts 40 v 40 burned := by
  have hbooks : (gainWorld.vaults Sample.vault).map (fun v ↦ (v.idleAssets, v.assetMint,
      v.lpMint, v.vaultAssetAccount)) =
        some (100, Sample.assetMint, Sample.lpMint, Sample.vaultAsset) := by
    decide +kernel
  have haccounts : gainWorld.tokens.account Sample.userAsset =
        some ⟨Sample.assetMint, Sample.user, 999900, none, 0⟩ ∧
      gainWorld.tokens.account Sample.userLp =
        some ⟨Sample.lpMint, Sample.user, 100, none, 0⟩ ∧
      gainWorld.tokens.balance Sample.vaultAsset = 100 := by
    decide +kernel
  have hburn : (gainWorld.tokens.burn [Sample.user] Sample.userLp Sample.lpMint Sample.user
      40).isOk = true := by
    decide +kernel
  simp only [Option.map_eq_some_iff, Prod.mk.injEq] at hbooks
  obtain ⟨v, hv, hidle, hasset, hlp, haccount⟩ := hbooks
  obtain ⟨burned, hburned⟩ := isOk_iff.mp hburn
  refine ⟨v, burned, ?_, ?_⟩
  · intro x hx
    obtain rfl := Option.some_inj.mp (hv.symm.trans hx)
    rw [hidle, haccount, haccounts.2.2]
    decide
  · exact
      { signer := by decide +kernel
        vault := hv
        holds :=
          { asset := ⟨_, haccounts.1, rfl, rfl⟩
            lp := ⟨_, haccounts.2.1, rfl, rfl⟩
            vaultAssetAccount := haccount.symm
            lpMint := hlp.symm }
        assetMint := hasset.symm
        passes := by rw [hidle]; decide
        burned_ok := hburned }

-- the unbacked gain does not keep a withdrawal of 40 from being paid
theorem idleBacked_run_gain :
    (Always (exec sampleAddresses) (IdleBacked Sample.vault) Sample.empty gainRun ↔
      EachStep (exec sampleAddresses) (fun w i _ ↦ DeallocationBacked Sample.vault w i)
        Sample.empty gainRun) ∧
    claimed Sample.vault gainWorld +
        tally (exec sampleAddresses) (lossOf Sample.vault) Sample.empty gainRun ≤
      backing Sample.vault gainWorld +
        tally (exec sampleAddresses) (gainOf Sample.vault) Sample.empty gainRun ∧
    ∃ burned paid,
      gainWorld.tokens.burn [Sample.user] Sample.userLp Sample.lpMint Sample.user 40 =
        .ok burned ∧
      transferAsset (Sample.clock 0) burned
        [Sample.user, vaultAssetAuthority sampleAddresses Sample.vault] Sample.vaultAsset
        Sample.assetMint Sample.userAsset (vaultAssetAuthority sampleAddresses Sample.vault) 40 =
          .ok paid := by
  obtain ⟨v, burned, hbacked, hpasses⟩ := gainWorld_passes
  obtain ⟨hiff, hclaim, hpays⟩ := idleBacked_run Sample.genesis gainRun gain_apart
  obtain ⟨paid, hpaid⟩ := hpays hbacked (Sample.clock 0) Sample.userAccounts 40 v 40 burned rfl
    rfl hpasses
  exact ⟨hiff, hclaim, burned, paid, hpasses.burned_ok, hpaid⟩

-- 200 idle assets on 100 tokens
theorem idleBacked_fails :
    ¬ ∀ (p : ProgramAddresses) (w : World) (is : List (Env × Instruction)) (V : Pubkey),
      Genesis p w → AuthorityApart p V (run (exec p) w is) →
        IdleBacked V (run (exec p) w is) := by
  intro h
  have hb := h sampleAddresses Sample.empty phantomRun Sample.vault Sample.genesis phantom_apart
  have hbooks : (phantomWorld.vaults Sample.vault).map
      (fun v ↦ (v.idleAssets, phantomWorld.tokens.balance v.vaultAssetAccount)) =
        some (200, 100) := by
    decide +kernel
  rw [Option.map_eq_some_iff] at hbooks
  obtain ⟨v, hv, hpair⟩ := hbooks
  rw [Prod.mk.injEq] at hpair
  have hle := hb v hv
  have hbal : (run (exec sampleAddresses) Sample.empty phantomRun).tokens.balance
    v.vaultAssetAccount = 100 := hpair.2
  rw [hpair.1, hbal] at hle
  exact absurd hle (by decide)

end VaultProgram
