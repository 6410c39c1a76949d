import CrossFluf.Fluf.State
import CrossFluf.Solana.TokenLaws

/-!
# The lending pool and the sample borrower

Both crates are outside the workspace whose profile turns overflow checks on, so the plain
operators of their handlers take the build profile as an argument.
-/

namespace FlufProgram

open Machine Solana Outcome Bytes

abbrev FlufResult (α : Type) := Except (Failure FlufError) α

variable (d : Programs) (oc : OverflowChecks)

def checkSigner (k : Pubkey) : FlufResult Unit :=
  require (d.isDerived k = false) .missingRequiredSignature

/-- `#[account(init, ...)]` of a token account. -/
def initTokenAccount (w : World) (k mint owner : Pubkey) : FlufResult World := do
  require (w.Free k) .accountAlreadyInUse
  require (w.tokens.mint mint).isSome .accountNotInitialized
  pure (w.setTokens (w.tokens.setAccount k ⟨mint, owner, 0, none, 0⟩))

/-- `#[account(init_if_needed, ...)]` of a token account. -/
def initTokenAccountIfNeeded (w : World) (k mint owner : Pubkey) : FlufResult World :=
  if (w.tokens.account k).isSome then do
    let _ ← loadTokenAccount w.tokens k mint owner
    pure w
  else initTokenAccount w k mint owner

/-! ## Borrower -/

structure CreateAccountsAccounts where
  user : Pubkey
  borrowerAccount : Pubkey
  mint : Pubkey
  deriving DecidableEq

def createAccounts (w : World) (a : CreateAccountsAccounts) : FlufResult World := do
  checkSigner d a.user
  require (w.tokens.mint a.mint).isSome .accountNotInitialized
  require (a.borrowerAccount = d.borrowerAccount a.mint) (.constraint .seeds)
  initTokenAccountIfNeeded w a.borrowerAccount a.mint a.borrowerAccount

structure HandleBorrowAccounts where
  user : Pubkey
  borrowerAccount : Pubkey
  lenderAccount : Pubkey
  userAccount : Pubkey
  mint : Pubkey
  deriving DecidableEq

/-- What the borrower pays back for a loan. -/
def totalRepayment (amount : U64) : FlufResult U64 := do
  let product ← unwrap (oc.mul amount 25)
  let fee := product / 1000
  unwrap (oc.add amount fee)

def handleBorrow (t : Tokens) (a : HandleBorrowAccounts) (amount : U64) : FlufResult Tokens := do
  checkSigner d a.user
  require (a.borrowerAccount = d.borrowerAccount a.mint) (.constraint .seeds)
  let borrower ← loadTokenAccount t a.borrowerAccount a.mint a.borrowerAccount
  require (t.account a.lenderAccount).isSome .accountNotInitialized
  require (t.account a.userAccount).isSome .accountNotInitialized
  require (t.mint a.mint).isSome .accountNotInitialized
  let total ← totalRepayment oc amount
  require (total.toNat ≤ borrower.amount.toNat) (.custom .insufficientFunds)
  (t.transfer [a.user, a.borrowerAccount] a.borrowerAccount a.lenderAccount a.borrowerAccount
    total).mapError .token

/-! ## Pool set-up -/

structure InitializeAccounts where
  deployer : Pubkey
  state : Pubkey
  deriving DecidableEq

def initializeState (w : World) (a : InitializeAccounts) : FlufResult World := do
  checkSigner d a.deployer
  require (a.state = d.stateAddress) (.constraint .seeds)
  require (w.Free a.state) .accountAlreadyInUse
  pure (w.setState a.state ⟨a.deployer⟩)

structure CreatePoolAccounts where
  user : Pubkey
  pool : Pubkey
  poolMint : Pubkey
  poolAccount : Pubkey
  flufMint : Pubkey
  poolFlufAccount : Pubkey
  deriving DecidableEq

def createPool (w : World) (a : CreatePoolAccounts) (decimals : U8) : FlufResult World := do
  checkSigner d a.user
  require (a.pool = d.pool a.poolMint) (.constraint .seeds)
  require (w.Free a.pool) .accountAlreadyInUse
  let w₁ := w.setPool a.pool ⟨a.poolMint, a.flufMint⟩
  let poolMint ← orElse (w₁.tokens.mint a.poolMint) .accountNotInitialized
  require (a.poolAccount = d.poolAccount a.poolMint) (.constraint .seeds)
  let w₂ ← initTokenAccount w₁ a.poolAccount a.poolMint a.pool
  require (a.flufMint = d.flufMint a.poolMint) (.constraint .seeds)
  require (w₂.Free a.flufMint) .accountAlreadyInUse
  let w₃ := w₂.setTokens (w₂.tokens.setMint a.flufMint ⟨0, some a.pool, decimals⟩)
  require (a.poolFlufAccount = d.poolFlufAccount a.poolMint) (.constraint .seeds)
  let w₄ ← initTokenAccount w₃ a.poolFlufAccount a.flufMint a.pool
  require (poolMint.decimals = decimals) (.custom .decimalsMismatch)
  pure w₄

/-! ## Deposits and withdrawals -/

/-- The accounts of `Deposit` and of `Withdraw`. -/
structure PoolAccounts where
  user : Pubkey
  pool : Pubkey
  poolMint : Pubkey
  poolAccount : Pubkey
  userAccount : Pubkey
  flufMint : Pubkey
  poolFlufAccount : Pubkey
  userFlufAccount : Pubkey
  deriving DecidableEq

/-- The pool at an address, which has to be the one of `poolMint` and `flufMint`. -/
def loadPool (w : World) (pool poolMint flufMint : Pubkey) : FlufResult Unit := do
  let x ← orElse (w.pools pool) .accountNotInitialized
  require (x.poolMint = poolMint) (.custom .invalidPool)
  require (x.flufMint = flufMint) (.custom .invalidPool)

def loadFlufMint (w : World) (pool poolMint flufMint : Pubkey) : FlufResult Mint := do
  require (flufMint = d.flufMint poolMint) (.constraint .seeds)
  let x ← orElse (w.tokens.mint flufMint) .accountNotInitialized
  require (x.mintAuthority = some pool) (.constraint .mintMintAuthority)
  pure x

/-- The constraints of `Deposit` and `Withdraw`.  The pool account, the fluf mint and the user's
fluf account are what the handlers read. -/
def checkPoolAccounts (w : World) (a : PoolAccounts) :
    FlufResult (TokenAccount × Mint × TokenAccount) := do
  checkSigner d a.user
  require (a.pool = d.pool a.poolMint) (.constraint .seeds)
  require (w.tokens.mint a.poolMint).isSome .accountNotInitialized
  require (a.poolAccount = d.poolAccount a.poolMint) (.constraint .seeds)
  let poolAccount ← loadTokenAccount w.tokens a.poolAccount a.poolMint a.pool
  let _ ← loadTokenAccount w.tokens a.userAccount a.poolMint a.user
  let flufMint ← loadFlufMint d w a.pool a.poolMint a.flufMint
  require (a.poolFlufAccount = d.poolFlufAccount a.poolMint) (.constraint .seeds)
  let _ ← loadTokenAccount w.tokens a.poolFlufAccount a.flufMint a.pool
  let userFlufAccount ← loadTokenAccount w.tokens a.userFlufAccount a.flufMint a.user
  loadPool w a.pool a.poolMint a.flufMint
  pure (poolAccount, flufMint, userFlufAccount)

/-- `(x as u128 * y as u128 / z as u128) as u64`. -/
def mulDiv (x y z : U64) : FlufResult U64 := do
  let numerator ← unwrap (oc.mul (asU128 x) (asU128 y))
  let quotient ← unwrap (checkedDiv numerator (asU128 z))
  pure (asU64 quotient)

def amountFluf (poolBalance flufTotalSupply amount : U64) : FlufResult U64 :=
  if poolBalance = 0 then pure amount else mulDiv oc amount flufTotalSupply poolBalance

def amountPool (poolBalance flufTotalSupply amountFluf : U64) : FlufResult U64 :=
  if flufTotalSupply = 0 then pure 0 else mulDiv oc amountFluf poolBalance flufTotalSupply

def deposit (w : World) (a : PoolAccounts) (amount : U64) : FlufResult World := do
  let (poolAccount, flufMint, _) ← checkPoolAccounts d w a
  let fluf ← amountFluf oc poolAccount.amount flufMint.supply amount
  let paid ← (w.tokens.transfer [a.user] a.userAccount a.poolAccount a.user amount).mapError .token
  let minted ← (paid.mintTo [a.user, a.pool] a.flufMint a.userFlufAccount a.pool fluf).mapError
    .token
  pure (w.setTokens minted)

def withdraw (w : World) (a : PoolAccounts) : FlufResult World := do
  let (poolAccount, flufMint, userFlufAccount) ← checkPoolAccounts d w a
  let amount ← amountPool oc poolAccount.amount flufMint.supply userFlufAccount.amount
  let burned ← (w.tokens.burn [a.user] a.userFlufAccount a.flufMint a.user
    userFlufAccount.amount).mapError .token
  let paid ← (burned.transfer [a.user, a.pool] a.poolAccount a.userAccount a.pool amount).mapError
    .token
  pure (w.setTokens paid)

/-! ## lend_and_call -/

structure LendAccounts where
  user : Pubkey
  pool : Pubkey
  poolMint : Pubkey
  poolAccount : Pubkey
  flufMint : Pubkey
  poolFlufAccount : Pubkey
  borrowerFlufAccount : Pubkey
  userFlufAccount : Pubkey
  feeAccount : Pubkey
  deriving DecidableEq

def LendAccounts.handleBorrow (a : LendAccounts) : HandleBorrowAccounts where
  user := a.user
  borrowerAccount := a.borrowerFlufAccount
  lenderAccount := a.poolFlufAccount
  userAccount := a.userFlufAccount
  mint := a.flufMint

/-- The constraints of `LendAndCall`.  They name neither the owner nor the mint of the lender's,
the borrower's and the user's account. -/
def checkLendAccounts (w : World) (a : LendAccounts) : FlufResult (TokenAccount × World) := do
  checkSigner d a.user
  require (a.pool = d.pool a.poolMint) (.constraint .seeds)
  require (w.tokens.mint a.poolMint).isSome .accountNotInitialized
  require (a.poolAccount = d.poolAccount a.poolMint) (.constraint .seeds)
  let poolAccount ← loadTokenAccount w.tokens a.poolAccount a.poolMint a.pool
  let _ ← loadFlufMint d w a.pool a.poolMint a.flufMint
  require (w.tokens.account a.poolFlufAccount).isSome .accountNotInitialized
  require (w.tokens.account a.borrowerFlufAccount).isSome .accountNotInitialized
  require (w.tokens.account a.userFlufAccount).isSome .accountNotInitialized
  require (a.feeAccount = d.feeAccount a.poolMint) (.constraint .seeds)
  let w₁ ← initTokenAccountIfNeeded w a.feeAccount a.flufMint a.pool
  loadPool w a.pool a.poolMint a.flufMint
  pure (poolAccount, w₁)

/-- The check of the repayment, and its split into the fee and what is burned. -/
def splitRepayment (repaid amount : U64) : FlufResult (U64 × U64) := do
  let due ← unwrap (oc.mul amount 1025)
  require ((due / 1000).toNat ≤ repaid.toNat) (.custom .feesNotPaidBack)
  let fees ← unwrap (oc.sub repaid amount)
  -- 1000 * 5 / 25 = 200
  let feeAmount := fees / 200
  let amountToBurn ← unwrap (oc.sub repaid feeAmount)
  pure (feeAmount, amountToBurn)

/-- `lend_and_call` until the borrower has paid back. -/
def lendAndRepay (w : World) (a : LendAccounts) (amount : U64) :
    FlufResult (World × Tokens) := do
  let (poolAccount, w₁) ← checkLendAccounts d w a
  require (0 < poolAccount.amount.toNat) (.custom .emptyPool)
  let lent ← (w₁.tokens.mintTo [a.user, a.pool] a.flufMint a.borrowerFlufAccount a.pool
    amount).mapError .token
  let called ← handleBorrow d oc lent a.handleBorrow amount
  pure (w₁, called)

def lendAndCall (w : World) (a : LendAccounts) (amount : U64) : FlufResult World := do
  let (w₁, called) ← lendAndRepay d oc w a amount
  let lender ← orElse (called.account a.poolFlufAccount) .accountNotInitialized
  let (feeAmount, amountToBurn) ← splitRepayment oc lender.amount amount
  let charged ← (called.transfer [a.user, a.pool] a.poolFlufAccount a.feeAccount a.pool
    feeAmount).mapError .token
  let burned ← (charged.burn [a.user, a.pool] a.poolFlufAccount a.flufMint a.pool
    amountToBurn).mapError .token
  pure (w₁.setTokens burned)

/-! ## withdraw_fees -/

structure WithdrawFeesAccounts where
  user : Pubkey
  state : Pubkey
  pool : Pubkey
  poolMint : Pubkey
  flufMint : Pubkey
  feeAccount : Pubkey
  collectorAccount : Pubkey
  deriving DecidableEq

-- the transfer is not signed with the seeds of the pool
def withdrawFees (w : World) (a : WithdrawFeesAccounts) : FlufResult World := do
  checkSigner d a.user
  require (a.state = d.stateAddress) (.constraint .seeds)
  let state ← orElse (w.states a.state) .accountNotInitialized
  require (a.pool = d.pool a.poolMint) (.constraint .seeds)
  let pool ← orElse (w.pools a.pool) .accountNotInitialized
  require (w.tokens.mint a.poolMint).isSome .accountNotInitialized
  require (a.flufMint = d.flufMint a.poolMint) (.constraint .seeds)
  require (w.tokens.mint a.flufMint).isSome .accountNotInitialized
  require (a.feeAccount = d.feeAccount a.poolMint) (.constraint .seeds)
  let fees ← loadTokenAccount w.tokens a.feeAccount a.flufMint a.pool
  require (w.tokens.account a.collectorAccount).isSome .accountNotInitialized
  require (a.user = state.deployer) (.custom .invalidAdmin)
  require (pool.flufMint = a.flufMint) (.custom .invalidPool)
  let paid ← (w.tokens.transfer [a.user] a.feeAccount a.collectorAccount a.pool
    fees.amount).mapError .token
  pure (w.setTokens paid)

/-! ## Transactions -/

inductive Instruction
  | initializeState (a : InitializeAccounts)
  | createPool (a : CreatePoolAccounts) (decimals : U8)
  | deposit (a : PoolAccounts) (amount : U64)
  | withdraw (a : PoolAccounts)
  | lendAndCall (a : LendAccounts) (amount : U64)
  | withdrawFees (a : WithdrawFeesAccounts)
  | createAccounts (a : CreateAccountsAccounts)
  | handleBorrow (a : HandleBorrowAccounts) (amount : U64)
  /-- What wallets do with their tokens on their own. -/
  | wallet (signers : List Pubkey) (i : TokenInstruction)
  deriving DecidableEq

def walletStep (w : World) (signers : List Pubkey) (i : TokenInstruction) : FlufResult World := do
  require (signers.all fun k ↦ !d.isDerived k) .missingRequiredSignature
  require (i.created.all fun k ↦ !d.isDerived k) .missingRequiredSignature
  let t ← (i.exec w.tokens signers).mapError .token
  pure (w.setTokens t)

def exec (w : World) : Instruction → FlufResult World
  | .initializeState a => initializeState d w a
  | .createPool a decimals => createPool d w a decimals
  | .deposit a amount => deposit d oc w a amount
  | .withdraw a => withdraw d oc w a
  | .lendAndCall a amount => lendAndCall d oc w a amount
  | .withdrawFees a => withdrawFees d w a
  | .createAccounts a => createAccounts d w a
  | .handleBorrow a amount => do
    let t ← handleBorrow d oc w.tokens a amount
    pure (w.setTokens t)
  | .wallet signers i => walletStep d w signers i

/-- A chain on which neither program has run yet. -/
structure Genesis (w : World) : Prop where
  states : ∀ k, w.states k = none
  pools : ∀ k, w.pools k = none
  sound : w.tokens.Sound
  undelegated : w.tokens.Undelegated d.isDerived

/-! ## A chain to run on -/

namespace Sample

def programs : Programs := ⟨sampleAddresses, sampleAddresses⟩

def empty : World := ⟨fun _ ↦ none, fun _ ↦ none, ⟨fun _ ↦ none, fun _ ↦ none⟩⟩

def user : Pubkey := 32
def poolMint : Pubkey := 64
def userAccount : Pubkey := 96
def userFlufAccount : Pubkey := 128

def pool : Pubkey := programs.pool poolMint

def flufMint : Pubkey := programs.flufMint poolMint

def accounts : PoolAccounts where
  user := user
  pool := pool
  poolMint := poolMint
  poolAccount := programs.poolAccount poolMint
  userAccount := userAccount
  flufMint := flufMint
  poolFlufAccount := programs.poolFlufAccount poolMint
  userFlufAccount := userFlufAccount

def lendAccounts : LendAccounts where
  user := user
  pool := pool
  poolMint := poolMint
  poolAccount := programs.poolAccount poolMint
  flufMint := flufMint
  poolFlufAccount := programs.poolFlufAccount poolMint
  borrowerFlufAccount := programs.borrowerAccount flufMint
  userFlufAccount := userFlufAccount
  feeAccount := programs.feeAccount poolMint

/-- A pool, a user with 1000 of its token, and the borrower's account. -/
def setup : List Instruction :=
  [.wallet [poolMint] (.initializeMint poolMint (some user) 6),
   .wallet [userAccount] (.initializeAccount userAccount poolMint user),
   .wallet [user] (.mintTo poolMint userAccount user 1000),
   .createPool ⟨user, pool, poolMint, programs.poolAccount poolMint, flufMint,
     programs.poolFlufAccount poolMint⟩ 6,
   .wallet [userFlufAccount] (.initializeAccount userFlufAccount flufMint user),
   .createAccounts ⟨user, programs.borrowerAccount flufMint, flufMint⟩]

theorem genesis : Genesis programs empty where
  states _ := rfl
  pools _ := rfl
  sound := Tokens.sound_of_account_none fun _ ↦ rfl
  undelegated k a h := by cases h

end Sample

end FlufProgram
