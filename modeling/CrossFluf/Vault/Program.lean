import CrossFluf.Vault.State
import CrossFluf.Solana.TokenLaws

/-!
# The vault program

One definition for each instruction, in the order of the source.  The account checks of the
instruction's accounts struct come first, then the body of its handler.
-/

namespace VaultProgram

open Machine Solana Outcome Bytes

abbrev VaultResult (α : Type) := Except (Failure VaultError) α

variable (p : ProgramAddresses)

/-! ## Arithmetic of the handlers -/

/-- `x.checked_mul(y).unwrap().checked_div(z).unwrap() as u64`. -/
def mulDiv (x y z : U128) : VaultResult U64 := do
  let product ← unwrap (checkedMul x y)
  let quotient ← unwrap (checkedDiv product z)
  pure (asU64 quotient)

/-- Total assets less the part of the locked profit that has not been released yet. -/
def effectiveTotalAssets (vault : Vault) (now : I64) : VaultResult U64 :=
  if vault.lockedProfit = 0 ∨ vault.lockedProfitDegradation = 0 then
    pure vault.totalAssets
  else do
    let elapsed ← unwrap (checkedSubI64 now vault.lockedProfitTs)
    if vault.lockedProfitDegradation.toNat ≤ (i64AsU64 elapsed).toNat then
      -- all profit unlocked
      pure vault.totalAssets
    else do
      let remainingLocked ← mulDiv (asU128 vault.lockedProfit)
        (asU128 (vault.lockedProfitDegradation - i64AsU64 elapsed))
        (asU128 vault.lockedProfitDegradation)
      pure (saturatingSub vault.totalAssets remainingLocked)

/-- The fee of `bps` basis points that `deposit` takes in LP and `instant_withdraw` in assets. -/
def feeOf (amount : U64) (bps : U16) : VaultResult U64 :=
  if 0 < bps.toNat then mulDiv (asU128 amount) (asU128 bps) (asU128 BPS_DENOMINATOR)
  else pure 0

/-- The LP tokens a deposit is worth, before its fee. -/
def lpToMintFor (vault : Vault) (now : I64) (amount : U64) : VaultResult U64 :=
  if vault.lpSupply = 0 then
    -- first deposit: 1:1 ratio
    pure amount
  else do
    let effectiveAssets ← effectiveTotalAssets vault now
    mulDiv (asU128 amount) (asU128 vault.lpSupply) (asU128 effectiveAssets)

/-- The annual fee on `effectiveAssets`, pro rata for `elapsed` seconds. -/
def managementFeeFor (vault : Vault) (effectiveAssets elapsed : U64) : VaultResult U64 :=
  if 0 < vault.managementFeeBps.toNat ∧ 0 < elapsed.toNat then do
    let product ← unwrap (checkedMul (asU128 effectiveAssets) (asU128 vault.managementFeeBps))
    let annualFee ← unwrap (checkedDiv product (asU128 BPS_DENOMINATOR))
    let prorated ← unwrap (checkedMul annualFee (asU128 elapsed))
    pure (asU64 (prorated / SECONDS_PER_YEAR))
  else pure 0

def currentRatioFor (vault : Vault) (effectiveAssets : U64) : VaultResult U128 :=
  if 0 < vault.lpSupply.toNat then do
    let product ← unwrap (checkedMul (asU128 effectiveAssets) PRECISION)
    unwrap (checkedDiv product (asU128 vault.lpSupply))
  else pure PRECISION

/-- The fee on the part of the ratio above the high water mark. -/
def performanceFeeFor (vault : Vault) (currentRatio : U128) : VaultResult U64 :=
  if vault.highWaterMark.toNat < currentRatio.toNat ∧ 0 < vault.performanceFeeBps.toNat then do
    let excess := currentRatio - vault.highWaterMark
    let product ← unwrap (checkedMul excess (asU128 vault.lpSupply))
    let profitValue := product / PRECISION
    let scaled ← unwrap (checkedMul profitValue (asU128 vault.performanceFeeBps))
    pure (asU64 (scaled / asU128 BPS_DENOMINATOR))
  else pure 0

def feeLpFor (vault : Vault) (effectiveAssets totalFeeAssets : U64) : VaultResult U64 :=
  if 0 < vault.lpSupply.toNat ∧ 0 < effectiveAssets.toNat then
    mulDiv (asU128 totalFeeAssets) (asU128 vault.lpSupply) (asU128 effectiveAssets)
  else pure totalFeeAssets

/-- A `[u8; 32]` holding at most 32 bytes of a string. -/
def fixedBytes (bs : List U8) : List U8 :=
  bs.take 32 ++ List.replicate (32 - bs.length) 0

/-- `invoke_transfer_checked` on the asset: the hook has a say, then the token program. -/
def transferAsset (env : Env) (t : Tokens) (signers : List Pubkey)
    (src mint dst authority : Pubkey) (amount : U64) : VaultResult Tokens := do
  let m ← orElse (t.mint mint) .accountNotInitialized
  require env.hookApproves .hookRejected
  (t.transferChecked signers src mint dst authority amount m.decimals).mapError .token

/-! ## initialize_vault -/

structure InitializeVaultAccounts where
  admin : Pubkey
  manager : Pubkey
  vault : Pubkey
  assetMint : Pubkey
  lpMint : Pubkey
  vaultAssetAccount : Pubkey

/-- The state `initialize_vault` writes. -/
def newVault (env : Env) (a : InitializeVaultAccounts) (name : List U8) (config : VaultConfig) :
    Vault where
  name := fixedBytes name
  admin := a.admin
  manager := a.manager
  assetMint := a.assetMint
  lpMint := a.lpMint
  vaultAssetAccount := a.vaultAssetAccount
  totalAssets := 0
  idleAssets := 0
  lpSupply := 0
  maxCap := config.maxCap
  performanceFeeBps := config.performanceFeeBps
  managementFeeBps := config.managementFeeBps
  depositFeeBps := config.depositFeeBps
  withdrawalFeeBps := config.withdrawalFeeBps
  lockedProfitDegradation := config.lockedProfitDegradation
  withdrawalWaitPeriod := config.withdrawalWaitPeriod
  -- 1:1 initial ratio
  highWaterMark := PRECISION
  lastFeeHarvestTs := env.now
  lockedProfit := 0
  lockedProfitTs := env.now
  numStrategies := 0
  accumulatedFees := 0
  isActive := true
  bump := (vaultAddress p a.admin name).2

def initializeVault (env : Env) (w : World) (a : InitializeVaultAccounts) (name : List U8)
    (config : VaultConfig) : VaultResult World := do
  requireSigner p a.admin
  -- init, seeds = [b"vault", admin, name]
  require (a.vault = (vaultAddress p a.admin name).1) (.constraint .seeds)
  require (w.vaults a.vault = none ∧ w.strategies a.vault = none) .accountAlreadyInUse
  require (w.tokens.account a.vault = none ∧ w.tokens.mint a.vault = none) .accountAlreadyInUse
  require (w.tokens.mint a.assetMint).isSome .accountNotInitialized
  let lpMint ← orElse (w.tokens.mint a.lpMint) .accountNotInitialized
  let mintAuthority ← unwrap lpMint.mintAuthority
  require (mintAuthority = lpMintAuthority p a.vault) (.custom .invalidLpMint)
  require (lpMint.supply = 0) (.custom .invalidLpMint)
  let _ ← loadTokenAccount w.tokens a.vaultAssetAccount a.assetMint
    (vaultAssetAuthority p a.vault)
  require (name.length ≤ 32) (.custom .nameTooLong)
  require (config.performanceFeeBps.toNat ≤ 5000) (.custom .feeTooHigh)
  require (config.managementFeeBps.toNat ≤ 1000) (.custom .feeTooHigh)
  pure (w.setVault a.vault (newVault p env a name config))

/-! ## deposit and instant_withdraw -/

/-- The accounts of `Deposit` and of `InstantWithdraw`. -/
structure UserAccounts where
  user : Pubkey
  vault : Pubkey
  userAssetAccount : Pubkey
  vaultAssetAccount : Pubkey
  assetMint : Pubkey
  lpMint : Pubkey
  userLpAccount : Pubkey

/-- The constraints `Deposit` and `InstantWithdraw` share. -/
def checkUserAccounts (w : World) (a : UserAccounts) (vault : Vault) : VaultResult Unit := do
  let _ ← loadTokenAccount w.tokens a.userAssetAccount a.assetMint a.user
  require (a.vaultAssetAccount = vault.vaultAssetAccount) (.custom .invalidAccount)
  require (a.lpMint = vault.lpMint) (.custom .invalidLpMint)
  let _ ← loadTokenAccount w.tokens a.userLpAccount a.lpMint a.user
  pure ()

def deposit (env : Env) (w : World) (a : UserAccounts) (amount : U64) : VaultResult World := do
  requireSigner p a.user
  let vault ← orElse (w.vaults a.vault) .accountNotInitialized
  require vault.isActive (.custom .vaultInactive)
  checkUserAccounts w a vault
  require (0 < amount.toNat) (.custom .zeroAmount)
  let total ← unwrap (checkedAdd vault.totalAssets amount)
  require (total.toNat ≤ vault.maxCap.toNat) (.custom .maxCapExceeded)
  let lpToMint ← lpToMintFor vault env.now amount
  require (0 < lpToMint.toNat) (.custom .zeroLpTokens)
  let feeLp ← feeOf lpToMint vault.depositFeeBps
  let lpAfterFee ← unwrap (checkedSub lpToMint feeLp)
  -- transfer assets from user to vault, then mint LP tokens to the user
  let paid ← transferAsset env w.tokens [a.user] a.userAssetAccount a.assetMint
    a.vaultAssetAccount a.user amount
  let minted ← (paid.mintTo [a.user, lpMintAuthority p a.vault] a.lpMint a.userLpAccount
    (lpMintAuthority p a.vault) lpAfterFee).mapError .token
  let idle ← unwrap (checkedAdd vault.idleAssets amount)
  let lpSupply ← unwrap (checkedAdd vault.lpSupply lpAfterFee)
  let fees ← unwrap (checkedAdd vault.accumulatedFees feeLp)
  pure ((w.setTokens minted).setVault a.vault
    { vault with
      totalAssets := total
      idleAssets := idle
      lpSupply := lpSupply
      accumulatedFees := fees })

def instantWithdraw (env : Env) (w : World) (a : UserAccounts) (lpAmount : U64) :
    VaultResult World := do
  requireSigner p a.user
  let vault ← orElse (w.vaults a.vault) .accountNotInitialized
  checkUserAccounts w a vault
  require (vault.withdrawalWaitPeriod = 0) (.custom .instantWithdrawNotAllowed)
  require (0 < lpAmount.toNat) (.custom .zeroAmount)
  let effectiveAssets ← effectiveTotalAssets vault env.now
  let assetsToReturn ← mulDiv (asU128 lpAmount) (asU128 effectiveAssets) (asU128 vault.lpSupply)
  let fee ← feeOf assetsToReturn vault.withdrawalFeeBps
  let assetsAfterFee ← unwrap (checkedSub assetsToReturn fee)
  require (assetsAfterFee.toNat ≤ vault.idleAssets.toNat) (.custom .insufficientIdle)
  -- burn LP tokens, then transfer assets from vault to user
  let burned ← (w.tokens.burn [a.user] a.userLpAccount a.lpMint a.user lpAmount).mapError .token
  let paid ← transferAsset env burned [a.user, vaultAssetAuthority p a.vault]
    a.vaultAssetAccount a.assetMint a.userAssetAccount (vaultAssetAuthority p a.vault)
    assetsAfterFee
  let total ← unwrap (checkedSub vault.totalAssets assetsToReturn)
  let idle ← unwrap (checkedSub vault.idleAssets assetsAfterFee)
  let lpSupply ← unwrap (checkedSub vault.lpSupply lpAmount)
  pure ((w.setTokens paid).setVault a.vault
    { vault with totalAssets := total, idleAssets := idle, lpSupply := lpSupply })

/-! ## add_strategy -/

structure StrategyAccounts where
  authority : Pubkey
  vault : Pubkey
  strategy : Pubkey

/-- The state `add_strategy` writes. -/
def newStrategy (env : Env) (a : StrategyAccounts) (vault : Vault) (name protocol : List U8) :
    Strategy where
  vault := a.vault
  index := vault.numStrategies
  name := fixedBytes name
  protocol := fixedBytes protocol
  positionValue := 0
  allocated := 0
  isActive := true
  lastUpdateTs := env.now
  bump := (strategyAddress p a.vault vault.numStrategies).2

def addStrategy (env : Env) (w : World) (a : StrategyAccounts) (name protocol : List U8) :
    VaultResult World := do
  requireSigner p a.authority
  let vault ← orElse (w.vaults a.vault) .accountNotInitialized
  -- init, seeds = [b"strategy", vault, num_strategies]
  require (a.strategy = (strategyAddress p a.vault vault.numStrategies).1) (.constraint .seeds)
  require (w.vaults a.strategy = none ∧ w.strategies a.strategy = none) .accountAlreadyInUse
  require (w.tokens.account a.strategy = none ∧ w.tokens.mint a.strategy = none)
    .accountAlreadyInUse
  require (a.authority = vault.admin) (.custom .unauthorized)
  require (vault.numStrategies.toNat < MAX_STRATEGIES.toNat) (.custom .maxStrategies)
  let numStrategies ← unwrap (checkedAdd vault.numStrategies 1)
  pure ((w.setStrategy a.strategy (newStrategy p env a vault name protocol)).setVault a.vault
    { vault with numStrategies := numStrategies })

/-! ## allocate, deallocate and report_yield -/

/-- The vault and a strategy of it, with `strategy.vault == vault.key()`. -/
def loadStrategy (w : World) (a : StrategyAccounts) : VaultResult (Vault × Strategy) := do
  let vault ← orElse (w.vaults a.vault) .accountNotInitialized
  let strategy ← orElse (w.strategies a.strategy) .accountNotInitialized
  require (strategy.vault = a.vault) (.custom .invalidStrategy)
  pure (vault, strategy)

def allocate (env : Env) (w : World) (a : StrategyAccounts) (amount : U64) :
    VaultResult World := do
  requireSigner p a.authority
  let (vault, strategy) ← loadStrategy w a
  require strategy.isActive (.custom .strategyInactive)
  require (a.authority = vault.manager) (.custom .unauthorized)
  require (0 < amount.toNat) (.custom .zeroAmount)
  require (amount.toNat ≤ vault.idleAssets.toNat) (.custom .insufficientIdle)
  let idle ← unwrap (checkedSub vault.idleAssets amount)
  let positionValue ← unwrap (checkedAdd strategy.positionValue amount)
  let allocated ← unwrap (checkedAdd strategy.allocated amount)
  pure ((w.setVault a.vault { vault with idleAssets := idle }).setStrategy a.strategy
    { strategy with
      positionValue := positionValue
      allocated := allocated
      lastUpdateTs := env.now })

def deallocate (env : Env) (w : World) (a : StrategyAccounts) (amount : U64) :
    VaultResult World := do
  requireSigner p a.authority
  let (vault, strategy) ← loadStrategy w a
  require strategy.isActive (.custom .strategyInactive)
  require (a.authority = vault.manager) (.custom .unauthorized)
  require (0 < amount.toNat) (.custom .zeroAmount)
  require (amount.toNat ≤ strategy.positionValue.toNat) (.custom .insufficientStrategyBalance)
  let positionValue ← unwrap (checkedSub strategy.positionValue amount)
  let idle ← unwrap (checkedAdd vault.idleAssets amount)
  pure ((w.setVault a.vault { vault with idleAssets := idle }).setStrategy a.strategy
    { strategy with positionValue := positionValue, lastUpdateTs := env.now })

/-- The vault after a position went from `oldValue` to `newValue`. -/
def bookYield (vault : Vault) (now : I64) (oldValue newValue : U64) : VaultResult Vault :=
  if oldValue.toNat < newValue.toNat then do
    let profit := newValue - oldValue
    let total ← unwrap (checkedAdd vault.totalAssets profit)
    -- lock profits for anti-sandwich
    let lockedProfit ← unwrap (checkedAdd vault.lockedProfit profit)
    pure { vault with
      totalAssets := total
      lockedProfit := lockedProfit
      lockedProfitTs := now }
  else if newValue.toNat < oldValue.toNat then
    pure { vault with totalAssets := saturatingSub vault.totalAssets (oldValue - newValue) }
  else pure vault

-- `ReportYield` does not ask for an active strategy
def reportYield (env : Env) (w : World) (a : StrategyAccounts) (newPositionValue : U64) :
    VaultResult World := do
  requireSigner p a.authority
  let (vault, strategy) ← loadStrategy w a
  require (a.authority = vault.manager) (.custom .unauthorized)
  let booked ← bookYield vault env.now strategy.positionValue newPositionValue
  pure ((w.setVault a.vault booked).setStrategy a.strategy
    { strategy with positionValue := newPositionValue, lastUpdateTs := env.now })

/-! ## harvest_fees -/

structure HarvestFeesAccounts where
  admin : Pubkey
  vault : Pubkey
  lpMint : Pubkey
  adminLpAccount : Pubkey

/-- Mint the fee to the admin, unless it rounded down to nothing. -/
def mintFeeLp (w : World) (a : HarvestFeesAccounts) (feeLp : U64) : VaultResult Tokens :=
  if 0 < feeLp.toNat then
    (w.tokens.mintTo [a.admin, lpMintAuthority p a.vault] a.lpMint a.adminLpAccount
      (lpMintAuthority p a.vault) feeLp).mapError .token
  else pure w.tokens

/-- What a harvest computes before it adds up the fees. -/
structure HarvestFigures where
  effectiveAssets : U64
  managementFee : U64
  currentRatio : U128
  performanceFee : U64

def harvestFigures (vault : Vault) (now : I64) : VaultResult HarvestFigures := do
  let elapsed ← unwrap (checkedSubI64 now vault.lastFeeHarvestTs)
  let effectiveAssets ← effectiveTotalAssets vault now
  let managementFee ← managementFeeFor vault effectiveAssets (i64AsU64 elapsed)
  let currentRatio ← currentRatioFor vault effectiveAssets
  let performanceFee ← performanceFeeFor vault currentRatio
  pure ⟨effectiveAssets, managementFee, currentRatio, performanceFee⟩

def harvestFees (env : Env) (w : World) (a : HarvestFeesAccounts) : VaultResult World := do
  requireSigner p a.admin
  let vault ← orElse (w.vaults a.vault) .accountNotInitialized
  require (a.lpMint = vault.lpMint) (.custom .invalidLpMint)
  let _ ← loadTokenAccount w.tokens a.adminLpAccount a.lpMint a.admin
  require (a.admin = vault.admin) (.custom .unauthorized)
  let figures ← harvestFigures vault env.now
  let totalFeeAssets ← unwrap (checkedAdd figures.managementFee figures.performanceFee)
  if totalFeeAssets = 0 then
    -- no fees to harvest
    pure w
  else do
    let feeLp ← feeLpFor vault figures.effectiveAssets totalFeeAssets
    let minted ← mintFeeLp p w a feeLp
    let lpSupply ← unwrap (checkedAdd vault.lpSupply feeLp)
    let fees ← unwrap (checkedAdd vault.accumulatedFees totalFeeAssets)
    pure ((w.setTokens minted).setVault a.vault
      { vault with
        lpSupply := lpSupply
        lastFeeHarvestTs := env.now
        accumulatedFees := fees
        highWaterMark :=
          if vault.highWaterMark.toNat < figures.currentRatio.toNat then figures.currentRatio
          else vault.highWaterMark })

/-! ## remove_strategy, update_config and set_active -/

def removeStrategy (w : World) (a : StrategyAccounts) : VaultResult World := do
  requireSigner p a.authority
  let (vault, strategy) ← loadStrategy w a
  require (a.authority = vault.admin) (.custom .unauthorized)
  require (strategy.positionValue = 0) (.custom .strategyNotEmpty)
  pure (w.setStrategy a.strategy { strategy with isActive := false })

structure ConfigAccounts where
  admin : Pubkey
  vault : Pubkey

-- unlike `initialize_vault`, nothing caps the management fee here
def updateConfig (w : World) (a : ConfigAccounts) (config : VaultConfig) : VaultResult World := do
  requireSigner p a.admin
  let vault ← orElse (w.vaults a.vault) .accountNotInitialized
  require (a.admin = vault.admin) (.custom .unauthorized)
  require (config.performanceFeeBps.toNat ≤ 5000) (.custom .feeTooHigh)
  pure (w.setVault a.vault
    { vault with
      maxCap := config.maxCap
      performanceFeeBps := config.performanceFeeBps
      managementFeeBps := config.managementFeeBps
      depositFeeBps := config.depositFeeBps
      withdrawalFeeBps := config.withdrawalFeeBps
      lockedProfitDegradation := config.lockedProfitDegradation
      withdrawalWaitPeriod := config.withdrawalWaitPeriod })

def setActive (w : World) (a : ConfigAccounts) (isActive : Bool) : VaultResult World := do
  requireSigner p a.admin
  let vault ← orElse (w.vaults a.vault) .accountNotInitialized
  require (a.admin = vault.admin) (.custom .unauthorized)
  pure (w.setVault a.vault { vault with isActive := isActive })

/-! ## Transactions -/

inductive Instruction
  | initializeVault (a : InitializeVaultAccounts) (name : List U8) (config : VaultConfig)
  | deposit (a : UserAccounts) (amount : U64)
  | instantWithdraw (a : UserAccounts) (lpAmount : U64)
  | addStrategy (a : StrategyAccounts) (name protocol : List U8)
  | allocate (a : StrategyAccounts) (amount : U64)
  | deallocate (a : StrategyAccounts) (amount : U64)
  | reportYield (a : StrategyAccounts) (newPositionValue : U64)
  | harvestFees (a : HarvestFeesAccounts)
  | removeStrategy (a : StrategyAccounts)
  | updateConfig (a : ConfigAccounts) (config : VaultConfig)
  | setActive (a : ConfigAccounts) (isActive : Bool)
  /-- What wallets do with their tokens outside the program. -/
  | wallet (signers : List Pubkey) (i : TokenInstruction)

/-- No derived address of the program signs for a wallet's instruction or is created by it. -/
def walletStep (w : World) (signers : List Pubkey) (i : TokenInstruction) :
    VaultResult World := do
  require (signers.all fun k ↦ !p.isDerived k) .missingRequiredSignature
  require (i.created.all fun k ↦ !p.isDerived k) .missingRequiredSignature
  let t ← (i.exec w.tokens signers).mapError .token
  pure (w.setTokens t)

def exec (w : World) (i : Env × Instruction) : VaultResult World :=
  match i.2 with
  | .initializeVault a name config => initializeVault p i.1 w a name config
  | .deposit a amount => deposit p i.1 w a amount
  | .instantWithdraw a lpAmount => instantWithdraw p i.1 w a lpAmount
  | .addStrategy a name protocol => addStrategy p i.1 w a name protocol
  | .allocate a amount => allocate p i.1 w a amount
  | .deallocate a amount => deallocate p i.1 w a amount
  | .reportYield a newPositionValue => reportYield p i.1 w a newPositionValue
  | .harvestFees a => harvestFees p i.1 w a
  | .removeStrategy a => removeStrategy p w a
  | .updateConfig a config => updateConfig p w a config
  | .setActive a isActive => setActive p w a isActive
  | .wallet signers i => walletStep p w signers i

/-- A chain on which the program has run nothing yet.  Token accounts may already exist, also
ones opened for addresses the program will derive. -/
structure Genesis (w : World) : Prop where
  vaults : ∀ k, w.vaults k = none
  strategies : ∀ k, w.strategies k = none
  sound : w.tokens.Sound
  undelegated : w.tokens.Undelegated p.isDerived

/-! ## A chain to run on -/

namespace Sample

def empty : World := ⟨fun _ ↦ none, fun _ ↦ none, ⟨fun _ ↦ none, fun _ ↦ none⟩⟩

def admin : Pubkey := 32
def user : Pubkey := 64
def assetMint : Pubkey := 96
def lpMint : Pubkey := 128
def userAsset : Pubkey := 160
def userLp : Pubkey := 192
def vaultAsset : Pubkey := 224

def name : List U8 := ascii "v"

def vault : Pubkey := (vaultAddress sampleAddresses admin name).1

def strategy : Pubkey := (strategyAddress sampleAddresses vault 0).1

def clock (now : I64) : Env := ⟨now, true⟩

/-- Only the fees, the release period and the waiting period differ between samples. -/
def config (withdrawalFeeBps : U16) (degradation : U64) : VaultConfig where
  maxCap := 1000000
  performanceFeeBps := 0
  managementFeeBps := 0
  depositFeeBps := 0
  withdrawalFeeBps := withdrawalFeeBps
  lockedProfitDegradation := degradation
  withdrawalWaitPeriod := 0

/-- Mints and token accounts, a user with 1000000 of the asset, and the vault. -/
def setup (c : VaultConfig) : List (Env × Instruction) :=
  [(clock 0, .wallet [assetMint] (.initializeMint assetMint (some user) 6)),
   (clock 0, .wallet [lpMint]
    (.initializeMint lpMint (some (lpMintAuthority sampleAddresses vault)) 9)),
   (clock 0, .wallet [userAsset] (.initializeAccount userAsset assetMint user)),
   (clock 0, .wallet [userLp] (.initializeAccount userLp lpMint user)),
   (clock 0, .wallet [vaultAsset]
    (.initializeAccount vaultAsset assetMint (vaultAssetAuthority sampleAddresses vault))),
   (clock 0, .wallet [user] (.mintTo assetMint userAsset user 1000000)),
   (clock 0, .initializeVault ⟨admin, admin, vault, assetMint, lpMint, vaultAsset⟩ name c)]

def userAccounts : UserAccounts where
  user := user
  vault := vault
  userAssetAccount := userAsset
  vaultAssetAccount := vaultAsset
  assetMint := assetMint
  lpMint := lpMint
  userLpAccount := userLp

def strategyAccounts : StrategyAccounts := ⟨admin, vault, strategy⟩

theorem genesis : Genesis sampleAddresses empty where
  vaults _ := rfl
  strategies _ := rfl
  sound := Tokens.sound_of_account_none fun _ ↦ rfl
  undelegated k a h := by cases h

end Sample

end VaultProgram
