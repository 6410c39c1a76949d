import CrossFluf.Kyc.State

/-!
# The transfer hook

The instructions of the registries, and the two entry points that approve a transfer: `fallback`,
which the token program calls, and the typed `transfer_hook`.
-/

namespace KycHook

open Machine Solana Outcome Bytes

variable (p : ProgramAddresses) (spl : Token2022)

/-- `Account<'info, T>`. -/
def AccountInfo.load {α : Type} (i : AccountInfo) (c : Tagged α) : KycResult α := do
  require (i.owner ≠ .system) .accountNotInitialized
  require (i.owner = .kycHook) .accountOwnedByWrongProgram
  orElse (c.load i.data) .invalidAccountData

/-- `InterfaceAccount<'info, Mint>`. -/
def AccountInfo.loadMint (i : AccountInfo) : KycResult Unit := do
  require (i.owner = .token ∨ i.owner = .token2022) .accountOwnedByWrongProgram
  require (spl.unpackMint i.data) .invalidAccountData

/-- `InterfaceAccount<'info, TokenAccount>` with `token::mint` and `token::token_program`. -/
def AccountInfo.loadTokenAccount (i : AccountInfo) (mint : Pubkey) :
    KycResult TokenAccountState := do
  require (i.owner = .token ∨ i.owner = .token2022) .accountOwnedByWrongProgram
  let a ← orElse (spl.unpackAccount i.data) .invalidAccountData
  require (a.mint = mint) (.constraint .tokenMint)
  require (i.owner = .token2022) (.constraint .tokenTokenProgram)
  pure a

/-! ## Registries and statuses -/

structure InitializeRegistryAccounts where
  authority : Pubkey
  registry : Pubkey
  mint : Pubkey
  deriving DecidableEq

def initializeRegistry (w : World) (a : InitializeRegistryAccounts) : KycResult World := do
  requireSigner p a.authority
  require (a.registry = registryAddress p a.mint) (.constraint .seeds)
  require (w.Free a.registry) .accountAlreadyInUse
  (w.info a.mint).loadMint spl
  let bump := (p.find (registrySeeds a.mint)).2
  pure (w.setData a.registry (registryAccount.store ⟨a.authority, a.mint, 0, bump⟩))

/-- The registry, the status of the sender's owner and that of the receiver's owner. -/
def extraAccountMetas : List ExtraAccountMeta :=
  [⟨[.literal (ascii "kyc-registry"), .accountKey 1], false, false⟩,
   ⟨[.literal (ascii "kyc-status"), .accountData 0 32 32], false, false⟩,
   ⟨[.literal (ascii "kyc-status"), .accountData 2 32 32], false, false⟩]

structure InitializeMetasAccounts where
  payer : Pubkey
  extraAccountMetaList : Pubkey
  mint : Pubkey
  deriving DecidableEq

def initializeExtraAccountMetaList (w : World) (a : InitializeMetasAccounts) :
    KycResult World := do
  requireSigner p a.payer
  require (a.extraAccountMetaList = metasAddress p a.mint) (.constraint .seeds)
  (w.info a.mint).loadMint spl
  require (w.Free a.extraAccountMetaList) .accountAlreadyInUse
  pure (w.setMetas a.extraAccountMetaList extraAccountMetas)

structure SetKycStatusAccounts where
  authority : Pubkey
  registry : Pubkey
  kycStatus : Pubkey
  user : Pubkey
  deriving DecidableEq

/-- A registry at the address its own mint and bump derive. -/
def loadRegistry (w : World) (k : Pubkey) : KycResult KycRegistry := do
  let registry ← (w.info k).load registryAccount
  require (p.create (registrySeeds registry.mint) registry.bump = some k) (.constraint .seeds)
  pure registry

/-- `#[account(init_if_needed, ...)]` of a status. -/
def loadStatusIfNeeded (w : World) (k : Pubkey) : KycResult KycStatus :=
  if w.Free k then pure .zero
  else do
    let status ← (w.info k).load statusAccount
    require ((w.accounts k).data.length = statusSpace) (.constraint .space)
    pure status

def setKycStatus (now : I64) (w : World) (a : SetKycStatusAccounts) (isVerified : Bool)
    (expiresAt : I64) : KycResult World := do
  requireSigner p a.authority
  let registry ← loadRegistry p w a.registry
  require (a.kycStatus = statusAddress p a.user) (.constraint .seeds)
  let status ← loadStatusIfNeeded w a.kycStatus
  require (a.authority = registry.authority) (.custom .unauthorizedAuthority)
  let wasVerified := status.isVerified
  let bump := (p.find (statusSeeds a.user)).2
  let status' := ⟨isVerified, a.user, now, expiresAt, a.authority, bump⟩
  let total :=
    if isVerified && !wasVerified then saturatingAdd registry.totalVerified 1
    else if !isVerified && wasVerified then saturatingSub registry.totalVerified 1
    else registry.totalVerified
  let registry' := { registry with totalVerified := total }
  pure ((w.setData a.registry (registryAccount.store registry')).setData a.kycStatus
    (statusAccount.store status'))

structure TransferAuthorityAccounts where
  authority : Pubkey
  registry : Pubkey
  deriving DecidableEq

def transferAuthority (w : World) (a : TransferAuthorityAccounts) (newAuthority : Pubkey) :
    KycResult World := do
  requireSigner p a.authority
  let registry ← loadRegistry p w a.registry
  require (a.authority = registry.authority) (.custom .unauthorizedAuthority)
  pure (w.setData a.registry
    (registryAccount.store { registry with authority := newAuthority }))

/-! ## Transactions -/

/-- The instructions of the registries. -/
inductive Call
  | initializeRegistry (a : InitializeRegistryAccounts)
  | setKycStatus (a : SetKycStatusAccounts) (isVerified : Bool) (expiresAt : I64)
  | transferAuthority (a : TransferAuthorityAccounts) (newAuthority : Pubkey)
  deriving DecidableEq

def Call.signer : Call → Pubkey
  | .initializeRegistry a => a.authority
  | .setKycStatus a _ _ => a.authority
  | .transferAuthority a _ => a.authority

inductive Instruction
  | call (c : Call)
  | initializeExtraAccountMetaList (a : InitializeMetasAccounts)
  /-- Anyone creates a mint, at an address that signs for it. -/
  | createMint (k : Pubkey) (data : List U8)
  deriving DecidableEq

def createMint (w : World) (k : Pubkey) (data : List U8) : KycResult World := do
  requireSigner p k
  require (w.Free k) .accountAlreadyInUse
  require (spl.unpackMint data) .invalidAccountData
  pure (w.setMint k data)

/-- A call at a time. -/
def execCall (w : World) (c : I64 × Call) : KycResult World :=
  match c.2 with
  | .initializeRegistry a => initializeRegistry p spl w a
  | .setKycStatus a isVerified expiresAt => setKycStatus p c.1 w a isVerified expiresAt
  | .transferAuthority a newAuthority => transferAuthority p w a newAuthority

def exec (w : World) (i : I64 × Instruction) : KycResult World :=
  match i.2 with
  | .call c => execCall p spl w (i.1, c)
  | .initializeExtraAccountMetaList a => initializeExtraAccountMetaList p spl w a
  | .createMint k data => createMint p spl w k data

/-- A chain on which the hook has not run yet. -/
structure Genesis (w : World) : Prop where
  accounts : ∀ k, (w.accounts k).owner ≠ .kycHook
  metas : ∀ k, w.metas k = none

/-! ## The accounts of a transfer -/

/-- A transfer the token program is about to make. -/
structure Transfer where
  source : AccountInfo
  mint : Pubkey
  destination : AccountInfo
  authority : Pubkey

def Seed.resolve (accounts : List AccountInfo) : Seed → Option (List U8)
  | .literal bytes => some bytes
  | .accountKey index => (accounts[index]?).map fun i ↦ Pubkey.bytes i.key
  | .accountData accountIndex dataIndex length =>
    (accounts[accountIndex]?).bind fun i ↦
      if dataIndex + length ≤ i.data.length then some ((i.data.drop dataIndex).take length)
      else none

/-- Each address may be derived from the accounts before it. -/
def resolveMetas (w : World) : List AccountInfo → List ExtraAccountMeta →
    Option (List AccountInfo)
  | accounts, [] => some accounts
  | accounts, m :: ms => do
    let seeds ← m.seeds.mapM fun s ↦ s.resolve accounts
    resolveMetas w (accounts ++ [w.info (p.find seeds).1]) ms

/-- The accounts the token program passes on, when the mint has a list of extra accounts. -/
def resolve (w : World) (x : Transfer) : Option (List AccountInfo) := do
  let ms ← w.metas (metasAddress p x.mint)
  resolveMetas p w [x.source, w.info x.mint, x.destination, w.info x.authority,
    w.info (metasAddress p x.mint)] ms

/-! ## The entry points -/

/-- The byte after the discriminator. -/
def passesKyc (data : List U8) : Bool := !(data.length < 9 || data[8]? != some 1)

def fallback (accounts : List AccountInfo) (data : List U8) : KycResult Unit :=
  match spl.unpackInstruction data with
  | none => .error .invalidInstructionData
  | some (.execute _) =>
    match accounts with
    | source :: _ :: _ :: _ :: _ :: _ :: sourceKyc :: destKyc :: _ => do
      let a ← orElse (spl.unpackAccount source.data) .invalidAccountData
      let transferring ← orElse a.transferring .invalidAccountData
      require transferring (.custom .notTransferring)
      require (passesKyc sourceKyc.data) (.custom .sourceNotVerified)
      require (passesKyc destKyc.data) (.custom .destinationNotVerified)
    | _ => .error .notEnoughAccountKeys
  | some _ => .error .invalidInstructionData

/-- A status that expires has to be younger than that. -/
def checkExpiry (now expiresAt : I64) (e : KycError) : KycResult Unit :=
  if 0 < expiresAt then require (now < expiresAt) (.custom e) else pure ()

def checkIsTransferring (source : AccountInfo) : KycResult Unit := do
  let a ← orElse (spl.unpackAccount source.data) .invalidAccountData
  let transferring ← orElse a.transferring .invalidAccountData
  require transferring (.custom .notTransferring)

def transferHook (now : I64) (accounts : List AccountInfo) (_amount : U64) : KycResult Unit :=
  match accounts with
  | source :: mint :: destination :: _ :: metas :: registry :: sourceKyc :: destKyc :: _ => do
    let sourceToken ← source.loadTokenAccount spl mint.key
    mint.loadMint spl
    let destinationToken ← destination.loadTokenAccount spl mint.key
    require (metas.key = metasAddress p mint.key) (.constraint .seeds)
    let r ← registry.load registryAccount
    require (p.create (registrySeeds mint.key) r.bump = some registry.key) (.constraint .seeds)
    let s ← sourceKyc.load statusAccount
    require (p.create (statusSeeds sourceToken.owner) s.bump = some sourceKyc.key)
      (.constraint .seeds)
    let d ← destKyc.load statusAccount
    require (p.create (statusSeeds destinationToken.owner) d.bump = some destKyc.key)
      (.constraint .seeds)
    checkIsTransferring spl source
    require s.isVerified (.custom .sourceNotVerified)
    checkExpiry now s.expiresAt .sourceKycExpired
    require d.isVerified (.custom .destinationNotVerified)
    checkExpiry now d.expiresAt .destinationKycExpired
  | _ => .error .notEnoughAccountKeys

/-! ## A chain to run on -/

namespace Sample

def empty : World := ⟨fun _ ↦ ⟨.system, []⟩, fun _ ↦ none⟩

def authority : Pubkey := 32
def stranger : Pubkey := 64
def mint : Pubkey := 96
def otherMint : Pubkey := 128
def wallet : Pubkey := 160

def mintData : List U8 := List.replicate 45 0 ++ 1 :: List.replicate 36 0

def registry : Pubkey := registryAddress sampleAddresses mint

/-- A mint with its registry and its list of extra accounts. -/
def setup : List (I64 × Instruction) :=
  [(0, .createMint mint mintData),
   (0, .call (.initializeRegistry ⟨authority, registry, mint⟩)),
   (0, .initializeExtraAccountMetaList ⟨authority, metasAddress sampleAddresses mint, mint⟩)]

def setStatus (authority registry user : Pubkey) (isVerified : Bool) (expiresAt : I64) : Call :=
  .setKycStatus ⟨authority, registry, statusAddress sampleAddresses user, user⟩ isVerified
    expiresAt

theorem genesis : Genesis empty where
  accounts _ := nofun
  metas _ := rfl

end Sample

end KycHook
