import CrossFluf.Solana.Token

/-!
# Account checks an Anchor program makes

The ways an instruction stops, and the constraints of an accounts struct that several programs
use.  A stopped instruction leaves every account as it was.
-/

namespace Solana

open Machine Outcome

inductive Constraint
  | seeds
  | tokenMint
  | tokenOwner
  | mintMintAuthority
  | tokenTokenProgram
  | space
  deriving DecidableEq, Repr

/-- How an instruction fails: with an error of the program, by a panic, in a token call, in the
transfer hook of the asset, in an account check, or on input it cannot read. -/
inductive Failure (ε : Type)
  | custom (e : ε)
  | panic
  | token (e : TokenError)
  | hookRejected
  | missingRequiredSignature
  | accountNotInitialized
  | accountAlreadyInUse
  | accountOwnedByWrongProgram
  | invalidAccountData
  | invalidInstructionData
  | notEnoughAccountKeys
  | constraint (c : Constraint)
  deriving DecidableEq, Repr

variable {ε : Type}

/-- `Signer<'info>`. -/
def requireSigner (p : ProgramAddresses) (k : Pubkey) : Except (Failure ε) Unit :=
  require (p.isDerived k = false) .missingRequiredSignature

/-- A token account with `token::mint = mint, token::authority = owner`. -/
def loadTokenAccount (t : Tokens) (k mint owner : Pubkey) : Except (Failure ε) TokenAccount := do
  let a ← orElse (t.account k) .accountNotInitialized
  require (a.mint = mint) (.constraint .tokenMint)
  require (a.owner = owner) (.constraint .tokenOwner)
  pure a

/-- `o.unwrap()`. -/
def unwrap {α : Type} (o : Option α) : Except (Failure ε) α := orElse o .panic

@[simp] theorem requireSigner_eq_ok {p : ProgramAddresses} {k : Pubkey} {u : Unit} :
    (requireSigner p k : Except (Failure ε) Unit) = .ok u ↔ p.isDerived k = false :=
  require_eq_ok

@[simp] theorem loadTokenAccount_eq_ok {t : Tokens} {k mint owner : Pubkey} {a : TokenAccount} :
    (loadTokenAccount t k mint owner : Except (Failure ε) TokenAccount) = .ok a ↔
      t.account k = some a ∧ a.mint = mint ∧ a.owner = owner := by
  simp only [loadTokenAccount, bind_eq_ok, orElse_eq_ok, require_eq_ok, pure_eq_ok, exists_const]
  constructor
  · rintro ⟨a', ha, hm, ho, rfl⟩
    exact ⟨ha, hm, ho⟩
  · rintro ⟨ha, hm, ho⟩
    exact ⟨a, ha, hm, ho, rfl⟩

@[simp] theorem unwrap_eq_ok {α : Type} {o : Option α} {a : α} :
    (unwrap o : Except (Failure ε) α) = .ok a ↔ o = some a :=
  orElse_eq_ok

end Solana
