import CrossFluf.Solana.Anchor

/-! The accounts of the lending pool and of the sample borrower. -/

namespace FlufProgram

open Machine Solana Outcome Bytes

inductive FlufError
  | decimalsMismatch
  | invalidPool
  | emptyPool
  | invalidAdmin
  | feesNotPaidBack
  /-- The only error of the borrower program. -/
  | insufficientFunds
  deriving DecidableEq, Repr

structure ProgramState where
  deployer : Pubkey
  deriving DecidableEq

structure Pool where
  poolMint : Pubkey
  flufMint : Pubkey
  deriving DecidableEq

/-- The accounts the lender program owns, and the token program's. -/
structure World where
  states : Pubkey → Option ProgramState
  pools : Pubkey → Option Pool
  tokens : Tokens

/-- The derived addresses of the two programs. -/
structure Programs where
  fluf : ProgramAddresses
  borrower : ProgramAddresses

namespace Programs

variable (d : Programs) (mint : Pubkey)

/-- Addresses no transaction carries a signature for. -/
def isDerived (k : Pubkey) : Bool := d.fluf.isDerived k || d.borrower.isDerived k

def stateAddress : Pubkey := (d.fluf.find [ascii "program_state"]).1

def pool : Pubkey := (d.fluf.find [ascii "pool", Pubkey.bytes mint]).1

def poolAccount : Pubkey := (d.fluf.find [ascii "pool_account", Pubkey.bytes mint]).1

def flufMint : Pubkey := (d.fluf.find [ascii "fluf_mint", Pubkey.bytes mint]).1

def poolFlufAccount : Pubkey := (d.fluf.find [ascii "pool_fluf_account", Pubkey.bytes mint]).1

def feeAccount : Pubkey := (d.fluf.find [ascii "fee_account", Pubkey.bytes mint]).1

def borrowerAccount : Pubkey := (d.borrower.find [ascii "borrower_account", Pubkey.bytes mint]).1

theorem isDerived_pool : d.isDerived (d.pool mint) = true := by
  rw [isDerived, pool, d.fluf.isDerived_find, Bool.true_or]

theorem isDerived_borrowerAccount : d.isDerived (d.borrowerAccount mint) = true := by
  rw [isDerived, borrowerAccount, d.borrower.isDerived_find, Bool.or_true]

end Programs

namespace World

/-- No account exists at an address. -/
def Free (w : World) (k : Pubkey) : Prop :=
  w.states k = none ∧ w.pools k = none ∧ w.tokens.account k = none ∧ w.tokens.mint k = none

instance (w : World) (k : Pubkey) : Decidable (w.Free k) :=
  inferInstanceAs (Decidable (_ ∧ _ ∧ _ ∧ _))

def setState (w : World) (k : Pubkey) (s : ProgramState) : World :=
  { w with states := Function.update w.states k (some s) }

def setPool (w : World) (k : Pubkey) (x : Pool) : World :=
  { w with pools := Function.update w.pools k (some x) }

def setTokens (w : World) (t : Tokens) : World := { w with tokens := t }

variable (w : World) {k k' : Pubkey} (x : Pool) (s : ProgramState) (t : Tokens)

@[simp] theorem setState_pools : (w.setState k s).pools = w.pools := rfl

@[simp] theorem setState_tokens : (w.setState k s).tokens = w.tokens := rfl

@[simp] theorem setPool_pools_self : (w.setPool k x).pools k = some x := Function.update_self _ _ _

theorem setPool_pools_of_ne (h : k' ≠ k) : (w.setPool k x).pools k' = w.pools k' :=
  Function.update_of_ne h _ _

@[simp] theorem setPool_tokens : (w.setPool k x).tokens = w.tokens := rfl

@[simp] theorem setTokens_pools : (w.setTokens t).pools = w.pools := rfl

@[simp] theorem setTokens_tokens : (w.setTokens t).tokens = t := rfl

end World

end FlufProgram
