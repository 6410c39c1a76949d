import CrossFluf.Base.FiniteSum
import CrossFluf.Base.Outcome
import CrossFluf.Solana.Address

/-!
# The token program

Mints and token accounts as the SPL token program keeps them, and the instructions other programs
call.  An instruction runs under a list of signers: the signers of the transaction and the derived
addresses whose seeds come with the call.
-/

namespace Solana

open Machine Outcome FiniteSum

structure Mint where
  supply : U64
  mintAuthority : Option Pubkey
  decimals : U8
  deriving DecidableEq, Repr

structure TokenAccount where
  mint : Pubkey
  owner : Pubkey
  amount : U64
  delegate : Option Pubkey
  delegatedAmount : U64
  deriving DecidableEq, Repr

def Mint.withSupply (x : Mint) (supply : U64) : Mint := { x with supply := supply }

def TokenAccount.withAmount (a : TokenAccount) (amount : U64) : TokenAccount :=
  { a with amount := amount }

@[simp] theorem Mint.withSupply_supply (x : Mint) (n : U64) : (x.withSupply n).supply = n := rfl

@[simp] theorem Mint.withSupply_mintAuthority (x : Mint) (n : U64) :
    (x.withSupply n).mintAuthority = x.mintAuthority := rfl

@[simp] theorem Mint.withSupply_decimals (x : Mint) (n : U64) :
    (x.withSupply n).decimals = x.decimals := rfl

@[simp] theorem TokenAccount.withAmount_amount (a : TokenAccount) (n : U64) :
    (a.withAmount n).amount = n := rfl

@[simp] theorem TokenAccount.withAmount_mint (a : TokenAccount) (n : U64) :
    (a.withAmount n).mint = a.mint := rfl

@[simp] theorem TokenAccount.withAmount_owner (a : TokenAccount) (n : U64) :
    (a.withAmount n).owner = a.owner := rfl

@[simp] theorem TokenAccount.withAmount_delegate (a : TokenAccount) (n : U64) :
    (a.withAmount n).delegate = a.delegate := rfl

inductive TokenError
  | uninitializedState
  | insufficientFunds
  | mintMismatch
  | mintDecimalsMismatch
  | fixedSupply
  | ownerMismatch
  | missingRequiredSignature
  | overflow
  | alreadyInUse
  deriving DecidableEq, Repr

structure Tokens where
  mint : Pubkey → Option Mint
  account : Pubkey → Option TokenAccount

namespace Tokens

def setMint (t : Tokens) (k : Pubkey) (m : Mint) : Tokens :=
  { t with mint := Function.update t.mint k (some m) }

def setAccount (t : Tokens) (k : Pubkey) (a : TokenAccount) : Tokens :=
  { t with account := Function.update t.account k (some a) }

def balance (t : Tokens) (k : Pubkey) : ℕ := (t.account k).elim 0 fun a ↦ a.amount.toNat

def supply (t : Tokens) (k : Pubkey) : ℕ := (t.mint k).elim 0 fun m ↦ m.supply.toNat

@[simp] theorem setMint_mint_self (t : Tokens) (k : Pubkey) (m : Mint) :
    (t.setMint k m).mint k = some m := Function.update_self _ _ _

theorem setMint_mint_of_ne (t : Tokens) {k k' : Pubkey} (m : Mint) (h : k' ≠ k) :
    (t.setMint k m).mint k' = t.mint k' := Function.update_of_ne h _ _

@[simp] theorem setMint_account (t : Tokens) (k : Pubkey) (m : Mint) :
    (t.setMint k m).account = t.account := rfl

@[simp] theorem setAccount_account_self (t : Tokens) (k : Pubkey) (a : TokenAccount) :
    (t.setAccount k a).account k = some a := Function.update_self _ _ _

theorem setAccount_account_of_ne (t : Tokens) {k k' : Pubkey} (a : TokenAccount) (h : k' ≠ k) :
    (t.setAccount k a).account k' = t.account k' := Function.update_of_ne h _ _

@[simp] theorem setAccount_mint (t : Tokens) (k : Pubkey) (a : TokenAccount) :
    (t.setAccount k a).mint = t.mint := rfl

theorem balance_of_account {t : Tokens} {k : Pubkey} {a : TokenAccount}
    (h : t.account k = some a) : t.balance k = a.amount.toNat := by
  rw [balance, h, Option.elim_some]

theorem supply_of_mint {t : Tokens} {k : Pubkey} {m : Mint} (h : t.mint k = some m) :
    t.supply k = m.supply.toNat := by
  rw [supply, h, Option.elim_some]

/-! ## Instructions -/

/-- Check the authority over `amount` tokens of an account and use up a delegate's allowance. -/
def spend (signers : List Pubkey) (a : TokenAccount) (authority : Pubkey) (amount : U64) :
    Except TokenError TokenAccount :=
  if a.delegate = some authority then do
    require (authority ∈ signers) .missingRequiredSignature
    let rest ← orElse (checkedSub a.delegatedAmount amount) .insufficientFunds
    pure { a with delegatedAmount := rest, delegate := if rest = 0 then none else a.delegate }
  else do
    require (a.owner = authority) .ownerMismatch
    require (authority ∈ signers) .missingRequiredSignature
    pure a

def transfer (t : Tokens) (signers : List Pubkey) (src dst authority : Pubkey) (amount : U64) :
    Except TokenError Tokens := do
  let s ← orElse (t.account src) .uninitializedState
  let d ← orElse (t.account dst) .uninitializedState
  let s' ← orElse (checkedSub s.amount amount) .insufficientFunds
  require (s.mint = d.mint) .mintMismatch
  let spent ← spend signers s authority amount
  -- a transfer to the same account is checked and moves nothing
  if src = dst then
    pure t
  else do
    let d' ← orElse (checkedAdd d.amount amount) .overflow
    pure ((t.setAccount src (spent.withAmount s')).setAccount dst (d.withAmount d'))

/-- `transfer_checked` also names the mint and its decimals. -/
def transferChecked (t : Tokens) (signers : List Pubkey) (src mint dst authority : Pubkey)
    (amount : U64) (decimals : U8) : Except TokenError Tokens := do
  let s ← orElse (t.account src) .uninitializedState
  let m ← orElse (t.mint mint) .uninitializedState
  require (s.mint = mint) .mintMismatch
  require (m.decimals = decimals) .mintDecimalsMismatch
  transfer t signers src dst authority amount

def mintTo (t : Tokens) (signers : List Pubkey) (mint dst authority : Pubkey) (amount : U64) :
    Except TokenError Tokens := do
  let d ← orElse (t.account dst) .uninitializedState
  require (d.mint = mint) .mintMismatch
  let m ← orElse (t.mint mint) .uninitializedState
  require (m.mintAuthority.isSome) .fixedSupply
  require (m.mintAuthority = some authority) .ownerMismatch
  require (authority ∈ signers) .missingRequiredSignature
  let d' ← orElse (checkedAdd d.amount amount) .overflow
  let supply' ← orElse (checkedAdd m.supply amount) .overflow
  pure ((t.setAccount dst (d.withAmount d')).setMint mint (m.withSupply supply'))

def burn (t : Tokens) (signers : List Pubkey) (src mint authority : Pubkey) (amount : U64) :
    Except TokenError Tokens := do
  let s ← orElse (t.account src) .uninitializedState
  let m ← orElse (t.mint mint) .uninitializedState
  let s' ← orElse (checkedSub s.amount amount) .insufficientFunds
  require (s.mint = mint) .mintMismatch
  let spent ← spend signers s authority amount
  let supply' ← orElse (checkedSub m.supply amount) .overflow
  pure ((t.setAccount src (spent.withAmount s')).setMint mint (m.withSupply supply'))

def approve (t : Tokens) (signers : List Pubkey) (src delegate owner : Pubkey) (amount : U64) :
    Except TokenError Tokens := do
  let s ← orElse (t.account src) .uninitializedState
  require (s.owner = owner) .ownerMismatch
  require (owner ∈ signers) .missingRequiredSignature
  pure (t.setAccount src { s with delegate := some delegate, delegatedAmount := amount })

/-- Anyone may open a token account for any owner at an address of their own. -/
def initializeAccount (t : Tokens) (k mint owner : Pubkey) : Except TokenError Tokens := do
  require (t.account k = none) .alreadyInUse
  require (t.mint k = none) .alreadyInUse
  require ((t.mint mint).isSome) .uninitializedState
  pure (t.setAccount k ⟨mint, owner, 0, none, 0⟩)

def initializeMint (t : Tokens) (k : Pubkey) (authority : Option Pubkey) (decimals : U8) :
    Except TokenError Tokens := do
  require (t.account k = none) .alreadyInUse
  require (t.mint k = none) .alreadyInUse
  pure (t.setMint k ⟨0, authority, decimals⟩)

end Tokens

/-- What wallets send to the token program on their own. -/
inductive TokenInstruction
  | transfer (src dst authority : Pubkey) (amount : U64)
  | mintTo (mint dst authority : Pubkey) (amount : U64)
  | burn (src mint authority : Pubkey) (amount : U64)
  | approve (src delegate owner : Pubkey) (amount : U64)
  | initializeAccount (k mint owner : Pubkey)
  | initializeMint (k : Pubkey) (authority : Option Pubkey) (decimals : U8)
  deriving DecidableEq, Repr

def TokenInstruction.exec (t : Tokens) (signers : List Pubkey) :
    TokenInstruction → Except TokenError Tokens
  | .transfer src dst authority amount => t.transfer signers src dst authority amount
  | .mintTo mint dst authority amount => t.mintTo signers mint dst authority amount
  | .burn src mint authority amount => t.burn signers src mint authority amount
  | .approve src delegate owner amount => t.approve signers src delegate owner amount
  | .initializeAccount k mint owner => t.initializeAccount k mint owner
  | .initializeMint k authority decimals => t.initializeMint k authority decimals

/-- The address an instruction creates an account at, which has to sign for it. -/
def TokenInstruction.created : TokenInstruction → Option Pubkey
  | .initializeAccount k _ _ => some k
  | .initializeMint k _ _ => some k
  | _ => none

namespace Tokens

/-! ## What an instruction does when it succeeds -/

variable {t t' : Tokens} {signers : List Pubkey} {src dst mint authority k : Pubkey}
  {amount : U64} {a a' : TokenAccount}

theorem spend_eq_ok (h : spend signers a authority amount = .ok a') :
    authority ∈ signers ∧ a'.mint = a.mint ∧ a'.owner = a.owner ∧ a'.amount = a.amount ∧
      (a.owner = authority ∨ a.delegate = some authority) ∧ (a.delegate = none → a' = a) := by
  rw [spend] at h
  split at h
  · rename_i hd
    simp only [bind_eq_ok, require_eq_ok, orElse_eq_ok, pure_eq_ok, exists_const] at h
    obtain ⟨hs, rest, -, rfl⟩ := h
    refine ⟨hs, rfl, rfl, rfl, Or.inr hd, ?_⟩
    intro hn
    rw [hn] at hd
    cases hd
  · simp only [bind_eq_ok, require_eq_ok, pure_eq_ok, exists_const] at h
    obtain ⟨ho, hs, rfl⟩ := h
    exact ⟨hs, rfl, rfl, rfl, Or.inl ho, fun _ ↦ rfl⟩

theorem transfer_eq_ok (h : t.transfer signers src dst authority amount = .ok t') :
    ∃ s d spent, t.account src = some s ∧ t.account dst = some d ∧ s.mint = d.mint ∧
      amount.toNat ≤ s.amount.toNat ∧ spend signers s authority amount = .ok spent ∧
      (src = dst ∧ t' = t ∨ src ≠ dst ∧ ∃ s' d' : U64,
        s.amount.toNat = amount.toNat + s'.toNat ∧ d'.toNat = d.amount.toNat + amount.toNat ∧
        t' = (t.setAccount src (spent.withAmount s')).setAccount dst
          (d.withAmount d')) := by
  simp only [transfer, bind_eq_ok, require_eq_ok, orElse_eq_ok, exists_const,
    checkedSub_eq_some] at h
  obtain ⟨s, hs, d, hd, s', hs', hm, spent, hspent, h⟩ := h
  refine ⟨s, d, spent, hs, hd, hm, by omega, hspent, ?_⟩
  split at h
  · rename_i he
    rw [pure_eq_ok] at h
    exact Or.inl ⟨he, h.symm⟩
  · rename_i hne
    simp only [bind_eq_ok, orElse_eq_ok, pure_eq_ok, checkedAdd_eq_some] at h
    obtain ⟨d', hd', rfl⟩ := h
    exact Or.inr ⟨hne, s', d', hs', hd', rfl⟩

theorem transferChecked_eq_ok {decimals : U8}
    (h : t.transferChecked signers src mint dst authority amount decimals = .ok t') :
    (∃ s, t.account src = some s ∧ s.mint = mint) ∧
      t.transfer signers src dst authority amount = .ok t' := by
  simp only [transferChecked, bind_eq_ok, require_eq_ok, orElse_eq_ok, exists_const] at h
  obtain ⟨s, hs, m, -, hm, -, h⟩ := h
  exact ⟨⟨s, hs, hm⟩, h⟩

theorem mintTo_eq_ok (h : t.mintTo signers mint dst authority amount = .ok t') :
    ∃ d m d' supply', t.account dst = some d ∧ d.mint = mint ∧ t.mint mint = some m ∧
      m.mintAuthority = some authority ∧ authority ∈ signers ∧
      d'.toNat = d.amount.toNat + amount.toNat ∧
      supply'.toNat = m.supply.toNat + amount.toNat ∧
      t' = (t.setAccount dst (d.withAmount d')).setMint mint
        (m.withSupply supply') := by
  simp only [mintTo, bind_eq_ok, require_eq_ok, orElse_eq_ok, pure_eq_ok, exists_const,
    checkedAdd_eq_some] at h
  obtain ⟨d, hd, hm, m, hmint, -, ha, hs, d', hd', supply', hsup, rfl⟩ := h
  exact ⟨d, m, d', supply', hd, hm, hmint, ha, hs, hd', hsup, rfl⟩

theorem burn_eq_ok (h : t.burn signers src mint authority amount = .ok t') :
    ∃ s m spent s' supply', t.account src = some s ∧ s.mint = mint ∧ t.mint mint = some m ∧
      spend signers s authority amount = .ok spent ∧
      s.amount.toNat = amount.toNat + s'.toNat ∧
      m.supply.toNat = amount.toNat + supply'.toNat ∧
      t' = (t.setAccount src (spent.withAmount s')).setMint mint
        (m.withSupply supply') := by
  simp only [burn, bind_eq_ok, require_eq_ok, orElse_eq_ok, pure_eq_ok, checkedSub_eq_some,
    exists_const] at h
  obtain ⟨s, hs, m, hm, s', hs', he, spent, hspent, supply', hsup, rfl⟩ := h
  exact ⟨s, m, spent, s', supply', hs, he, hm, hspent, hs', hsup, rfl⟩

theorem approve_eq_ok {delegate owner : Pubkey}
    (h : t.approve signers src delegate owner amount = .ok t') :
    ∃ s, t.account src = some s ∧ s.owner ∈ signers ∧
      t' = t.setAccount src { s with delegate := some delegate, delegatedAmount := amount } := by
  simp only [approve, bind_eq_ok, require_eq_ok, orElse_eq_ok, pure_eq_ok, exists_const] at h
  obtain ⟨s, hs, rfl, hsig, rfl⟩ := h
  exact ⟨s, hs, hsig, rfl⟩

theorem initializeAccount_eq_ok {owner : Pubkey}
    (h : t.initializeAccount k mint owner = .ok t') :
    t.account k = none ∧ t.mint k = none ∧ t' = t.setAccount k ⟨mint, owner, 0, none, 0⟩ := by
  simp only [initializeAccount, bind_eq_ok, require_eq_ok, pure_eq_ok, exists_const] at h
  exact ⟨h.1, h.2.1, h.2.2.2.symm⟩

theorem initializeMint_eq_ok {owner : Option Pubkey} {decimals : U8}
    (h : t.initializeMint k owner decimals = .ok t') :
    t.account k = none ∧ t.mint k = none ∧ t' = t.setMint k ⟨0, owner, decimals⟩ := by
  simp only [initializeMint, bind_eq_ok, require_eq_ok, pure_eq_ok, exists_const] at h
  exact ⟨h.1, h.2.1, h.2.2.symm⟩

end Tokens

end Solana
