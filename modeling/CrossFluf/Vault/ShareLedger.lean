import CrossFluf.Vault.Custody

/-!
# LP tokens and their count

`lp_supply` is the program's own count of a vault's LP tokens.  Only the program mints them, and
what it burns it takes off the count; what holders burn on their own it does not see.
-/

namespace VaultProgram

open Machine Solana Outcome Run

variable {p : ProgramAddresses} {env : Env} {w w' : World} {V : Pubkey} {v v' : Vault}

/-! ## LP tokens of an instruction -/

/-- From `w` to `w'` the supply of the LP mint of `v` moved as the count, and no other mint did. -/
structure LpBooked (w w' : World) (v v' : Vault) : Prop where
  other : ∀ m, m ≠ v.lpMint → w'.tokens.mint m = w.tokens.mint m
  own : w'.tokens.supply v.lpMint + v.lpSupply.toNat =
    w.tokens.supply v.lpMint + v'.lpSupply.toNat

theorem lpBooked_of_tokens (ht : w'.tokens = w.tokens) (hlp : v'.lpSupply = v.lpSupply) :
    LpBooked w w' v v' where
  other m _ := by rw [ht]
  own := by rw [ht, hlp]

theorem Deposited.lpBooked {a : UserAccounts} {amount lpToMint feeLp lpAfterFee : U64}
    {paid minted : Tokens}
    (h : Deposited p env w a amount w' v v' lpToMint feeLp lpAfterFee paid minted) :
    LpBooked w w' v v' := by
  have hminted := h.minted_ok
  rw [h.holds.lpMint] at hminted
  have hpaid := (transferAsset_eq_ok h.paid_ok).2
  have htokens : w'.tokens = minted := by rw [h.world]; rfl
  constructor
  · intro m hm
    rw [htokens, Tokens.mintTo_mint_of_ne hminted hm, Tokens.transfer_mint hpaid]
  · have hlp := h.lpSupply
    rw [htokens, Tokens.mintTo_supply hminted, Tokens.transfer_supply hpaid]
    omega

theorem Withdrawn.lpBooked {a : UserAccounts}
    {lpAmount effectiveAssets assetsToReturn fee assetsAfterFee : U64} {burned paid : Tokens}
    (h : Withdrawn p env w a lpAmount w' v v' effectiveAssets assetsToReturn fee assetsAfterFee
      burned paid) : LpBooked w w' v v' := by
  have hburned := h.burned_ok
  rw [h.holds.lpMint] at hburned
  have hpaid := (transferAsset_eq_ok h.paid_ok).2
  have htokens : w'.tokens = paid := by rw [h.world]; rfl
  constructor
  · intro m hm
    rw [htokens, Tokens.transfer_mint hpaid, Tokens.burn_mint_of_ne hburned hm]
  · have hlp := h.lpSupply
    have hsupply := Tokens.burn_supply hburned
    rw [htokens, Tokens.transfer_supply hpaid]
    omega

theorem mintFeeLp_mint {a : HarvestFeesAccounts} {feeLp : U64} {minted : Tokens}
    (h : mintFeeLp p w a feeLp = .ok minted) :
    (∀ m, m ≠ a.lpMint → minted.mint m = w.tokens.mint m) ∧
      minted.supply a.lpMint = w.tokens.supply a.lpMint + feeLp.toNat := by
  rw [mintFeeLp] at h
  split at h
  · rw [mapError_eq_ok] at h
    exact ⟨fun m hm ↦ Tokens.mintTo_mint_of_ne h hm, Tokens.mintTo_supply h⟩
  · rw [pure_eq_ok] at h
    subst h
    exact ⟨fun _ _ ↦ rfl, by omega⟩

theorem harvestFees_lpBooked {a : HarvestFeesAccounts} (h : harvestFees p env w a = .ok w')
    (hv : w.vaults a.vault = some v) (hv' : w'.vaults a.vault = some v') :
    LpBooked w w' v v' := by
  simp only [harvestFees, bind_eq_ok, requireSigner_eq_ok, orElse_eq_ok, require_eq_ok,
    loadTokenAccount_eq_ok, unwrap_eq_ok, exists_const] at h
  obtain ⟨-, x, hx, hmint, y, -, -, figures, -, totalFee, -, h⟩ := h
  obtain rfl := Option.some_inj.mp (hv.symm.trans hx)
  split at h
  · rw [pure_eq_ok] at h
    subst h
    obtain rfl := Option.some_inj.mp (hv.symm.trans hv')
    exact lpBooked_of_tokens rfl rfl
  · simp only [bind_eq_ok, unwrap_eq_ok, checkedAdd_eq_some, pure_eq_ok] at h
    obtain ⟨feeLp, -, minted, hminted, lpSupply, hlp, fees, -, rfl⟩ := h
    rw [World.setVault_vaults_self, Option.some_inj] at hv'
    obtain ⟨hother, hown⟩ := mintFeeLp_mint hminted
    rw [hmint] at hother hown
    constructor
    · exact hother
    · rw [← hv']
      show minted.supply v.lpMint + v.lpSupply.toNat =
        w.tokens.supply v.lpMint + lpSupply.toNat
      omega

/-- At the vault it names, every instruction books the LP tokens it mints and burns. -/
theorem exec_lpBooked {i : Env × Instruction} (h : exec p w i = .ok w')
    (hV : i.2.vault = some V) (hv : w.vaults V = some v) (hv' : w'.vaults V = some v') :
    LpBooked w w' v v' := by
  cases exec_vaultEffect_of h hV hv hv' with
  | deposit hd => exact hd.lpBooked
  | instantWithdraw hx => exact hx.lpBooked
  | addStrategy hs => exact lpBooked_of_tokens (by rw [hs.world]; rfl) (by rw [hs.kept])
  | allocate ha => exact lpBooked_of_tokens (by rw [ha.world]; rfl) (by rw [ha.kept])
  | deallocate hd => exact lpBooked_of_tokens (by rw [hd.world]; rfl) (by rw [hd.kept])
  | reportYield hr => exact lpBooked_of_tokens (by rw [hr.world]; rfl) hr.lpSupply_eq
  | harvestNothing => exact harvestFees_lpBooked h hv hv'
  | harvestFees hf => exact harvestFees_lpBooked h hv hv'
  | removeStrategy hr => exact lpBooked_of_tokens (by rw [hr.world]; rfl) rfl
  | updateConfig hc => exact lpBooked_of_tokens (by rw [hc.world]; rfl) rfl
  | setActive hc => exact lpBooked_of_tokens (by rw [hc.world]; rfl) rfl

/-! ## Whose LP mint it is -/

/-- The LP mint of every vault is under the vault's own authority. -/
def LpMinted (p : ProgramAddresses) (w : World) : Prop :=
  ∀ V v, w.vaults V = some v → ∃ x, w.tokens.mint v.lpMint = some x ∧
    x.mintAuthority = some (lpMintAuthority p V)

theorem Genesis.lpMinted (h : Genesis p w) : LpMinted p w := by
  intro V v hv
  rw [h.vaults] at hv
  cases hv

theorem exec_lpMinted {i : Env × Instruction} (hw : LpMinted p w) (h : exec p w i = .ok w') :
    LpMinted p w' := by
  intro V v' hv'
  cases hV : w.vaults V with
  | some v =>
    obtain ⟨x, hx, hauth⟩ := hw V v hV
    obtain ⟨x', hx', ha, -⟩ := (exec_tokenStep h).frame.mint _ x hx
    rw [(exec_sameKeys h hV hv').lpMint]
    exact ⟨x', hx', ha.trans hauth⟩
  | none =>
    obtain ⟨env, a, name, config, hi, rfl, rfl⟩ := exec_initializes h hV hv'
    obtain ⟨x, hx, hauth, -⟩ := hi.lpMint
    rw [hi.world]
    exact ⟨x, hx, hauth⟩

/-- No other initialized vault has the LP mint authority of the one at `V`. -/
def LpAuthorityApart (p : ProgramAddresses) (V : Pubkey) (w : World) : Prop :=
  ∀ U, (w.vaults U).isSome → U ≠ V → lpMintAuthority p U ≠ lpMintAuthority p V

theorem LpAuthorityApart.of_exec {i : Env × Instruction} (h : exec p w i = .ok w')
    (hw' : LpAuthorityApart p V w') : LpAuthorityApart p V w :=
  fun U hU ↦ hw' U (exec_vaults_isSome h hU)

theorem LpMinted.lpMint_ne {U : Pubkey} {u : Vault} (hw : LpMinted p w)
    (ha : lpMintAuthority p U ≠ lpMintAuthority p V) (hu : w.vaults U = some u)
    (hv : w.vaults V = some v) : v.lpMint ≠ u.lpMint := by
  intro he
  obtain ⟨x, hx, hxa⟩ := hw U u hu
  obtain ⟨y, hy, hya⟩ := hw V v hv
  rw [he, hx, Option.some_inj] at hy
  rw [← hy, hxa, Option.some_inj] at hya
  exact ha hya

/-! ## The mint follows the count -/

/-- What holders burn of the LP tokens of the vault at `V` outside the program. -/
def burnedOutside (V : Pubkey) (w : World) (i : Env × Instruction) : ℕ :=
  match i.2 with
  | .wallet _ t => (w.vaults V).elim 0 fun v ↦ Tokens.burned v.lpMint t
  | _ => 0

/-- The supply of the LP mint of the vault at `V`, zero before it is initialized. -/
def lpMintedOf (V : Pubkey) (w : World) : ℕ :=
  (w.vaults V).elim 0 fun v ↦ w.tokens.supply v.lpMint

/-- What the vault at `V` counts of it. -/
def lpCountedOf (V : Pubkey) (w : World) : ℕ := (w.vaults V).elim 0 fun v ↦ v.lpSupply.toNat

theorem lpMintedOf_of_vault (hv : w.vaults V = some v) :
    lpMintedOf V w = w.tokens.supply v.lpMint := by
  rw [lpMintedOf, hv, Option.elim_some]

theorem lpCountedOf_of_vault (hv : w.vaults V = some v) :
    lpCountedOf V w = v.lpSupply.toNat := by
  rw [lpCountedOf, hv, Option.elim_some]

theorem burnedOutside_of_vault {i : Env × Instruction} (hV : i.2.vault ≠ none) :
    burnedOutside V w i = 0 := by
  obtain ⟨env, i⟩ := i
  cases i with
  | wallet signers t => exact absurd rfl hV
  | _ => rfl

-- another vault's instruction leaves the LP mint alone
theorem exec_supply_of_ne {i : Env × Instruction} {U : Pubkey} (hw : LpMinted p w)
    (ha : LpAuthorityApart p V w) (hv : w.vaults V = some v) (h : exec p w i = .ok w')
    (hU : i.2.vault = some U) (hne : U ≠ V) :
    w'.tokens.supply v.lpMint = w.tokens.supply v.lpMint := by
  rcases exec_named h hU with ⟨u, u', hu, hu'⟩ | ⟨env, a, name, config, rfl⟩
  · exact Tokens.supply_congr ((exec_lpBooked h hU hu hu').other v.lpMint
      (hw.lpMint_ne (ha U (by rw [hu]; rfl) hne) hu hv))
  · rw [(initializeVault_eq_ok h).world]
    rfl

theorem lpMintedOf_initialized {a : InitializeVaultAccounts} {name : List U8}
    {config : VaultConfig} (h : VaultInitialized p env w a name config w') :
    lpMintedOf a.vault w' = 0 ∧ lpCountedOf a.vault w' = 0 := by
  have hnew : w'.vaults a.vault = some (newVault p env a name config) := by
    rw [h.world, World.setVault_vaults_self]
  obtain ⟨x, hx, -, hzero⟩ := h.lpMint
  rw [lpMintedOf_of_vault hnew, lpCountedOf_of_vault hnew]
  constructor
  · have hmint : w'.tokens.mint a.lpMint = some x := by
      rw [h.world]
      exact hx
    show w'.tokens.supply a.lpMint = 0
    rw [Tokens.supply_of_mint hmint, hzero]
    rfl
  · rfl

-- a vault starts with an LP mint of no supply
theorem exec_shares_new {i : Env × Instruction} (h : exec p w i = .ok w')
    (hv : w.vaults V = none) : lpMintedOf V w' = 0 ∧ lpCountedOf V w' = 0 := by
  cases hv' : w'.vaults V with
  | none =>
    rw [lpMintedOf, lpCountedOf, hv', Option.elim_none, Option.elim_none]
    exact ⟨rfl, rfl⟩
  | some v' =>
    obtain ⟨env, a, name, config, hi, rfl, -⟩ := exec_initializes h hv hv'
    exact lpMintedOf_initialized hi

theorem wallet_supply {signers : List Pubkey} {t : TokenInstruction} (hw : LpMinted p w)
    (hv : w.vaults V = some v) (h : exec p w (env, .wallet signers t) = .ok w') :
    w'.tokens.supply v.lpMint + Tokens.burned v.lpMint t = w.tokens.supply v.lpMint := by
  obtain ⟨t', ht⟩ := walletStep_eq_ok h
  obtain ⟨x, hx, hauth⟩ := hw V v hv
  rw [ht.world]
  apply Tokens.exec_supply hx _ ht.tokens
  intro s hs he
  rw [hauth, Option.some_inj] at he
  exact p.find_ne_signer (ht.external s hs) _ he

/-- One step moves the mint and the count together, but for what holders burn. -/
theorem exec_shares {i : Env × Instruction} (hw : LpMinted p w) (ha : LpAuthorityApart p V w)
    (h : exec p w i = .ok w') :
    lpMintedOf V w' + burnedOutside V w i + lpCountedOf V w =
      lpCountedOf V w' + lpMintedOf V w := by
  cases hv : w.vaults V with
  | none =>
    have hburned : burnedOutside V w i = 0 := by
      rw [burnedOutside, hv]
      split
      · rfl
      · rfl
    have hminted : lpMintedOf V w = 0 := by rw [lpMintedOf, hv, Option.elim_none]
    have hcounted : lpCountedOf V w = 0 := by rw [lpCountedOf, hv, Option.elim_none]
    obtain ⟨hminted', hcounted'⟩ := exec_shares_new h hv
    omega
  | some v =>
    obtain ⟨v', hv', -⟩ := exec_moves h hv
    rw [lpMintedOf_of_vault hv, lpMintedOf_of_vault hv', lpCountedOf_of_vault hv,
      lpCountedOf_of_vault hv', (exec_sameKeys h hv hv').lpMint]
    have hsame : i.2.vault ≠ some V → v'.lpSupply = v.lpSupply := by
      intro hne
      have hvault := (exec_sameVault h hne).vault
      rw [hv', hv, Option.some_inj] at hvault
      rw [hvault]
    cases hU : i.2.vault with
    | some U =>
      rw [burnedOutside_of_vault (by rw [hU]; exact Option.some_ne_none U)]
      by_cases he : U = V
      · subst he
        have hown := (exec_lpBooked h hU hv hv').own
        omega
      · rw [exec_supply_of_ne hw ha hv h hU he,
          hsame (by rw [hU, ne_eq, Option.some_inj]; exact he)]
        omega
    | none =>
      rw [hsame (by rw [hU]; exact nofun)]
      obtain ⟨env, i⟩ := i
      cases i with
      | wallet signers t =>
        have hwallet := wallet_supply hw hv h
        have hburned : burnedOutside V w (env, .wallet signers t) = Tokens.burned v.lpMint t := by
          show (w.vaults V).elim 0 _ = _
          rw [hv, Option.elim_some]
        omega
      | _ => cases hU

/-- The count of a vault is the supply of its LP mint and what holders burned of it. -/
theorem lpCounted_eq {is : List (Env × Instruction)} (hw : Genesis p w)
    (ha : LpAuthorityApart p V (run (exec p) w is)) :
    lpCountedOf V (run (exec p) w is) =
      lpMintedOf V (run (exec p) w is) + tally (exec p) (burnedOutside V) w is := by
  have hminted : Always (exec p) (LpMinted p) w is :=
    always_of_invariant (fun _ _ _ hs h ↦ exec_lpMinted hs h) hw.lpMinted is
  have hapart : Always (exec p) (LpAuthorityApart p V) w is :=
    always_of_last (fun _ _ _ h hw' ↦ hw'.of_exec h) ha
  have hzero : lpMintedOf V w = 0 ∧ lpCountedOf V w = 0 := by
    rw [lpMintedOf, lpCountedOf, hw.vaults, Option.elim_none, Option.elim_none]
    exact ⟨rfl, rfl⟩
  have hrun := (hminted.and hapart).tally_eq (x := lpMintedOf V) (y := lpCountedOf V)
    (f := burnedOutside V) fun _ _ _ hs _ h ↦ exec_shares hs.1 hs.2 h
  omega

/-! ## The end of a withdrawal -/

/-- What `instant_withdraw` has at hand when the LP tokens are burned. -/
structure BurnResult where
  vault : Vault
  effectiveAssets : U64
  assetsToReturn : U64
  assetsAfterFee : U64
  burned : Tokens

/-- `instant_withdraw` up to the burn. -/
def withdrawToBurn (p : ProgramAddresses) (env : Env) (w : World) (a : UserAccounts)
    (lpAmount : U64) : VaultResult BurnResult := do
  requireSigner p a.user
  let vault ← orElse (w.vaults a.vault) .accountNotInitialized
  checkUserAccounts w a vault
  require (vault.withdrawalWaitPeriod = 0) (.custom .instantWithdrawNotAllowed)
  require (0 < lpAmount.toNat) (.custom .zeroAmount)
  let effectiveAssets ← effectiveTotalAssets vault env.now
  let assetsToReturn ← mulDiv (asU128 lpAmount) (asU128 effectiveAssets) (asU128 vault.lpSupply)
  let fee ← feeOf assetsToReturn vault.withdrawalFeeBps
  let assetsAfterFee ← unwrap (checkedSub assetsToReturn fee)
  require (assetsAfterFee.toNat ≤ vault.idleAssets.toNat) (.custom .insufficientIdle)
  let burned ← (w.tokens.burn [a.user] a.userLpAccount a.lpMint a.user lpAmount).mapError .token
  pure ⟨vault, effectiveAssets, assetsToReturn, assetsAfterFee, burned⟩

/-- The rest of it: the payment and the three subtractions. -/
def withdrawFromBurn (p : ProgramAddresses) (env : Env) (w : World) (a : UserAccounts)
    (lpAmount : U64) (b : BurnResult) : VaultResult World := do
  let paid ← transferAsset env b.burned [a.user, vaultAssetAuthority p a.vault]
    a.vaultAssetAccount a.assetMint a.userAssetAccount (vaultAssetAuthority p a.vault)
    b.assetsAfterFee
  let total ← unwrap (checkedSub b.vault.totalAssets b.assetsToReturn)
  let idle ← unwrap (checkedSub b.vault.idleAssets b.assetsAfterFee)
  let lpSupply ← unwrap (checkedSub b.vault.lpSupply lpAmount)
  pure ((w.setTokens paid).setVault a.vault
    { b.vault with totalAssets := total, idleAssets := idle, lpSupply := lpSupply })

theorem instantWithdraw_eq (p : ProgramAddresses) (env : Env) (w : World) (a : UserAccounts)
    (lpAmount : U64) : instantWithdraw p env w a lpAmount =
      withdrawToBurn p env w a lpAmount >>= withdrawFromBurn p env w a lpAmount := by
  simp only [instantWithdraw, withdrawToBurn, withdrawFromBurn, bind_assoc, pure_bind]

/-- The three subtractions at the end of the withdrawal go through. -/
structure BurnResult.Covered (lpAmount : U64) (b : BurnResult) : Prop where
  lpAmount_le : lpAmount.toNat ≤ b.vault.lpSupply.toNat
  assets_le : b.assetsToReturn.toNat ≤ b.effectiveAssets.toNat
  effective_le : b.effectiveAssets.toNat ≤ b.vault.totalAssets.toNat
  total : (checkedSub b.vault.totalAssets b.assetsToReturn).isSome
  idle : (checkedSub b.vault.idleAssets b.assetsAfterFee).isSome
  lpSupply : (checkedSub b.vault.lpSupply lpAmount).isSome

theorem withdrawToBurn_eq_ok {a : UserAccounts} {lpAmount : U64} {b : BurnResult}
    (h : withdrawToBurn p env w a lpAmount = .ok b) :
    w.vaults a.vault = some b.vault ∧ a.lpMint = b.vault.lpMint ∧
      effectiveTotalAssets b.vault env.now = .ok b.effectiveAssets ∧
      mulDiv (asU128 lpAmount) (asU128 b.effectiveAssets) (asU128 b.vault.lpSupply) =
        .ok b.assetsToReturn ∧
      b.assetsAfterFee.toNat ≤ b.vault.idleAssets.toNat ∧
      w.tokens.burn [a.user] a.userLpAccount a.lpMint a.user lpAmount = .ok b.burned := by
  simp only [withdrawToBurn, bind_eq_ok, requireSigner_eq_ok, orElse_eq_ok, require_eq_ok,
    checkUserAccounts_eq_ok, unwrap_eq_ok, checkedSub_eq_some, mapError_eq_ok, pure_eq_ok,
    exists_const] at h
  obtain ⟨-, v, hv, hholds, -, -, effective, heffective, assets, hassets, fee, -, afterFee, -,
    hidle, burned, hburned, rfl⟩ := h
  exact ⟨hv, hholds.lpMint, heffective, hassets, hidle, hburned⟩

theorem isSome_checkedSub {x y : U64} (h : y.toNat ≤ x.toNat) : (checkedSub x y).isSome := by
  rw [checkedSub, if_pos h]
  rfl

theorem withdrawToBurn_covered {a : UserAccounts} {lpAmount : U64} {b : BurnResult}
    (hle : lpMintedOf a.vault w ≤ lpCountedOf a.vault w)
    (h : withdrawToBurn p env w a lpAmount = .ok b) : b.Covered lpAmount := by
  obtain ⟨hv, hmint, heffective, hassets, hidle, hburned⟩ := withdrawToBurn_eq_ok h
  rw [hmint] at hburned
  rw [lpMintedOf_of_vault hv, lpCountedOf_of_vault hv] at hle
  have hsupply := Tokens.burn_supply hburned
  have hlp : lpAmount.toNat ≤ b.vault.lpSupply.toNat := by omega
  have hshare : b.assetsToReturn.toNat ≤ b.effectiveAssets.toNat := by
    rw [(mulDiv_u64_eq_ok.mp hassets).2]
    exact le_trans (Nat.mod_le _ _) (Proportion.floor_share_le hlp)
  have htotal : b.effectiveAssets.toNat ≤ b.vault.totalAssets.toNat := by
    rw [(effectiveTotalAssets_eq_ok.mp heffective).2]
    exact Nat.sub_le _ _
  exact ⟨hlp, hshare, htotal, isSome_checkedSub (le_trans hshare htotal),
    isSome_checkedSub hidle, isSome_checkedSub hlp⟩

-- after the burn only the payment can fail
theorem BurnResult.Covered.succeeds {a : UserAccounts} {lpAmount : U64} {b : BurnResult}
    {paid : Tokens} (h : b.Covered lpAmount)
    (hpaid : transferAsset env b.burned [a.user, vaultAssetAuthority p a.vault]
      a.vaultAssetAccount a.assetMint a.userAssetAccount (vaultAssetAuthority p a.vault)
      b.assetsAfterFee = .ok paid) :
    (withdrawFromBurn p env w a lpAmount b).isOk = true := by
  obtain ⟨total, htotal⟩ := Option.isSome_iff_exists.mp h.total
  obtain ⟨idle, hidle⟩ := Option.isSome_iff_exists.mp h.idle
  obtain ⟨lpSupply, hlpSupply⟩ := Option.isSome_iff_exists.mp h.lpSupply
  rw [isOk_iff]
  simp only [withdrawFromBurn, bind_eq_ok, unwrap_eq_ok, pure_eq_ok]
  exact ⟨_, paid, hpaid, total, htotal, idle, hidle, lpSupply, hlpSupply, rfl⟩

/-- The LP mint never outgrows the count, and falls behind it only by what holders burn; so a
withdrawal that has burned its LP tokens gets through its subtractions. -/
theorem lpSupply_agrees (hw : Genesis p w) (is : List (Env × Instruction))
    (ha : LpAuthorityApart p V (run (exec p) w is))
    (hv : (run (exec p) w is).vaults V = some v) :
    (run (exec p) w is).tokens.supply v.lpMint ≤ v.lpSupply.toNat ∧
      (EachStep (exec p) (fun w i _ ↦ burnedOutside V w i = 0) w is →
        (run (exec p) w is).tokens.supply v.lpMint = v.lpSupply.toNat) ∧
      ∀ env a lpAmount b, a.vault = V →
        withdrawToBurn p env (run (exec p) w is) a lpAmount = .ok b →
        b.vault = v ∧ b.Covered lpAmount ∧
          ∀ paid, transferAsset env b.burned [a.user, vaultAssetAuthority p a.vault]
            a.vaultAssetAccount a.assetMint a.userAssetAccount (vaultAssetAuthority p a.vault)
            b.assetsAfterFee = .ok paid →
          (instantWithdraw p env (run (exec p) w is) a lpAmount).isOk = true := by
  have hcount := lpCounted_eq hw ha
  rw [lpMintedOf_of_vault hv, lpCountedOf_of_vault hv] at hcount
  refine ⟨by omega, ?_, ?_⟩
  · intro hburned
    have hzero := hburned.tally_eq_zero
    omega
  · intro env a lpAmount b hV hb
    have hvault := (withdrawToBurn_eq_ok hb).1
    rw [hV, hv, Option.some_inj] at hvault
    have hcovered : b.Covered lpAmount := by
      apply withdrawToBurn_covered _ hb
      rw [hV, lpMintedOf_of_vault hv, lpCountedOf_of_vault hv]
      omega
    refine ⟨hvault.symm, hcovered, ?_⟩
    intro paid hpaid
    rw [instantWithdraw_eq, hb]
    exact hcovered.succeeds hpaid

/-- A holder of 1000 LP tokens burns 10 of them. -/
def burnedRun : List (Env × Instruction) :=
  Sample.setup (Sample.config 100 0) ++
    [(Sample.clock 0, .deposit Sample.userAccounts 1000),
     (Sample.clock 0, .wallet [Sample.user]
      (.burn Sample.userLp Sample.lpMint Sample.user 10))]

def burnedWorld : World := run (exec sampleAddresses) Sample.empty burnedRun

theorem burned_apart : LpAuthorityApart sampleAddresses Sample.vault burnedWorld := by
  intro U hU hne
  refine absurd (sample_vault_of_isSome ?_ hU) hne
  simp [burnedRun, Sample.setup, Instruction.vault, Sample.userAccounts]

theorem lpSupply_agrees_burned : ∃ v b, burnedWorld.vaults Sample.vault = some v ∧
    v.lpSupply = 1000 ∧ burnedWorld.tokens.supply v.lpMint ≤ v.lpSupply.toNat ∧
    withdrawToBurn sampleAddresses (Sample.clock 0) burnedWorld Sample.userAccounts 500 = .ok b ∧
    b.Covered 500 := by
  have hrun : (burnedWorld.vaults Sample.vault).map (fun v ↦ v.lpSupply) = some 1000 := by
    decide +kernel
  have hok : (withdrawToBurn sampleAddresses (Sample.clock 0) burnedWorld Sample.userAccounts
      500).isOk = true := by
    decide +kernel
  rw [Option.map_eq_some_iff] at hrun
  obtain ⟨v, hv, hlp⟩ := hrun
  obtain ⟨b, hb⟩ := isOk_iff.mp hok
  have hledger := lpSupply_agrees Sample.genesis burnedRun burned_apart hv
  exact ⟨v, b, hv, hlp, hledger.1, hb,
    (hledger.2.2 (Sample.clock 0) Sample.userAccounts 500 b rfl hb).2.1⟩

end VaultProgram
