import CrossFluf.Solana.Anchor

/-! The accounts of the vault program and the world its instructions run in. -/

namespace VaultProgram

open Machine Solana Bytes

/-- Precision of the asset-per-LP ratio, 18 decimal places. -/
def PRECISION : U128 := 1000000000000000000

def BPS_DENOMINATOR : U64 := 10000

def MAX_STRATEGIES : U8 := 10

def SECONDS_PER_YEAR : U128 := 31536000

inductive VaultError
  | nameTooLong
  | feeTooHigh
  | vaultInactive
  | zeroAmount
  | maxCapExceeded
  | zeroLpTokens
  | insufficientIdle
  | instantWithdrawNotAllowed
  | unauthorized
  | maxStrategies
  | strategyInactive
  | invalidAccount
  | invalidLpMint
  | invalidStrategy
  | strategyNotEmpty
  | insufficientStrategyBalance
  deriving DecidableEq, Repr

structure VaultConfig where
  maxCap : U64
  performanceFeeBps : U16
  managementFeeBps : U16
  depositFeeBps : U16
  withdrawalFeeBps : U16
  lockedProfitDegradation : U64
  withdrawalWaitPeriod : U64
  deriving DecidableEq

structure Vault where
  name : List U8
  admin : Pubkey
  manager : Pubkey
  assetMint : Pubkey
  lpMint : Pubkey
  vaultAssetAccount : Pubkey
  totalAssets : U64
  idleAssets : U64
  lpSupply : U64
  maxCap : U64
  performanceFeeBps : U16
  managementFeeBps : U16
  depositFeeBps : U16
  withdrawalFeeBps : U16
  lockedProfitDegradation : U64
  withdrawalWaitPeriod : U64
  highWaterMark : U128
  lastFeeHarvestTs : I64
  lockedProfit : U64
  lockedProfitTs : I64
  numStrategies : U8
  accumulatedFees : U64
  isActive : Bool
  bump : U8
  deriving DecidableEq

structure Strategy where
  vault : Pubkey
  index : U8
  name : List U8
  protocol : List U8
  positionValue : U64
  allocated : U64
  isActive : Bool
  lastUpdateTs : I64
  bump : U8
  deriving DecidableEq

/-- The accounts the program owns, and the token program's. -/
structure World where
  vaults : Pubkey → Option Vault
  strategies : Pubkey → Option Strategy
  tokens : Tokens

/-- What an instruction reads besides its accounts: the clock sysvar, and whether the transfer
hook of the asset mint lets the transfer made in it through. -/
structure Env where
  now : I64
  hookApproves : Bool

/-! ## Derived addresses -/

def vaultAddress (p : ProgramAddresses) (admin : Pubkey) (name : List U8) : Pubkey × U8 :=
  p.find [ascii "vault", Pubkey.bytes admin, name]

def lpMintAuthority (p : ProgramAddresses) (vault : Pubkey) : Pubkey :=
  (p.find [ascii "lp_mint_auth", Pubkey.bytes vault]).1

def vaultAssetAuthority (p : ProgramAddresses) (vault : Pubkey) : Pubkey :=
  (p.find [ascii "vault_asset_auth", Pubkey.bytes vault]).1

def strategyAddress (p : ProgramAddresses) (vault : Pubkey) (index : U8) : Pubkey × U8 :=
  p.find [ascii "strategy", Pubkey.bytes vault, [index]]

/-! ## Updates -/

namespace World

def setVault (w : World) (k : Pubkey) (v : Vault) : World :=
  { w with vaults := Function.update w.vaults k (some v) }

def setStrategy (w : World) (k : Pubkey) (s : Strategy) : World :=
  { w with strategies := Function.update w.strategies k (some s) }

def setTokens (w : World) (t : Tokens) : World := { w with tokens := t }

variable (w : World) (k k' : Pubkey) (v : Vault) (s : Strategy) (t : Tokens)

@[simp] theorem setVault_vaults_self : (w.setVault k v).vaults k = some v :=
  Function.update_self _ _ _

theorem setVault_vaults_of_ne {k k' : Pubkey} (h : k' ≠ k) :
    (w.setVault k v).vaults k' = w.vaults k' := Function.update_of_ne h _ _

@[simp] theorem setVault_strategies : (w.setVault k v).strategies = w.strategies := rfl

@[simp] theorem setVault_tokens : (w.setVault k v).tokens = w.tokens := rfl

@[simp] theorem setStrategy_strategies_self : (w.setStrategy k s).strategies k = some s :=
  Function.update_self _ _ _

theorem setStrategy_strategies_of_ne {k k' : Pubkey} (h : k' ≠ k) :
    (w.setStrategy k s).strategies k' = w.strategies k' := Function.update_of_ne h _ _

@[simp] theorem setStrategy_vaults : (w.setStrategy k s).vaults = w.vaults := rfl

@[simp] theorem setStrategy_tokens : (w.setStrategy k s).tokens = w.tokens := rfl

@[simp] theorem setTokens_vaults : (w.setTokens t).vaults = w.vaults := rfl

@[simp] theorem setTokens_strategies : (w.setTokens t).strategies = w.strategies := rfl

@[simp] theorem setTokens_tokens : (w.setTokens t).tokens = t := rfl

end World

end VaultProgram
