import CrossFluf.Base.Codec
import CrossFluf.Solana.Anchor

/-!
# Accounts of the transfer hook

A registry names the authority of a mint, a status the verification of a wallet.  Both are stored
as bytes, since one entry point of the hook reads them without decoding.
-/

namespace KycHook

open Machine Solana Outcome Bytes

inductive KycError
  | sourceNotVerified
  | destinationNotVerified
  | sourceKycExpired
  | destinationKycExpired
  | unauthorizedAuthority
  | notTransferring
  deriving DecidableEq, Repr

abbrev KycResult (α : Type) := Except (Failure KycError) α

structure KycRegistry where
  authority : Pubkey
  mint : Pubkey
  totalVerified : U64
  bump : U8
  deriving DecidableEq, Repr

structure KycStatus where
  isVerified : Bool
  wallet : Pubkey
  verifiedAt : I64
  expiresAt : I64
  verifiedBy : Pubkey
  bump : U8
  deriving DecidableEq

def keyCodec : Codec Pubkey := .word 32

def u64Codec : Codec U64 := .word 8

def u8Codec : Codec U8 := .word 1

/-- `sha256("account:KycRegistry")[..8]` and the fields. -/
def registryAccount : Tagged KycRegistry where
  toCodec := (keyCodec.pair (keyCodec.pair (u64Codec.pair u8Codec))).map
    (fun x ↦ ⟨x.1, x.2.1, x.2.2.1, x.2.2.2⟩)
    (fun r ↦ (r.authority, r.mint, r.totalVerified, r.bump)) fun _ ↦ rfl
  tag := [204, 241, 19, 79, 46, 77, 56, 20]
  tag_length := rfl

/-- `sha256("account:KycStatus")[..8]` and the fields. -/
def statusAccount : Tagged KycStatus where
  toCodec := (Codec.bool.pair (keyCodec.pair (Codec.i64.pair (Codec.i64.pair
      (keyCodec.pair u8Codec))))).map
    (fun x ↦ ⟨x.1, x.2.1, x.2.2.1, x.2.2.2.1, x.2.2.2.2.1, x.2.2.2.2.2⟩)
    (fun s ↦ (s.isVerified, s.wallet, s.verifiedAt, s.expiresAt, s.verifiedBy, s.bump)) fun _ ↦ rfl
  tag := [73, 47, 181, 201, 173, 209, 72, 7]
  tag_length := rfl

/-- `8 + KycStatus::INIT_SPACE`. -/
def statusSpace : ℕ := 90

/-- What `init_if_needed` finds in a new account. -/
def KycStatus.zero : KycStatus := ⟨false, 0, 0, 0, 0, 0⟩

theorem statusAccount_store_length (s : KycStatus) :
    (statusAccount.store s).length = statusSpace := by
  simp [Tagged.store, statusAccount, Codec.map, Codec.pair, Codec.bool, Codec.i64, Codec.word,
    keyCodec, u8Codec, statusSpace]

theorem registry_tag_ne : registryAccount.tag ≠ statusAccount.tag := by decide

/-! ## Extra accounts of a transfer -/

inductive Seed
  | literal (bytes : List U8)
  | accountKey (index : ℕ)
  | accountData (accountIndex dataIndex length : ℕ)
  deriving DecidableEq, Repr

structure ExtraAccountMeta where
  seeds : List Seed
  isSigner : Bool
  isWritable : Bool
  deriving DecidableEq, Repr

/-! ## The chain -/

/-- The program that owns an account. -/
inductive AccountOwner
  | system
  | kycHook
  | token
  | token2022
  | other
  deriving DecidableEq, Repr

structure Account where
  owner : AccountOwner
  data : List U8
  deriving DecidableEq, Repr

structure AccountInfo where
  key : Pubkey
  owner : AccountOwner
  data : List U8
  deriving DecidableEq, Repr

/-- All accounts, and apart from them the lists of extra accounts, which only the token program
reads. -/
structure World where
  accounts : Pubkey → Account
  metas : Pubkey → Option (List ExtraAccountMeta)

namespace World

def info (w : World) (k : Pubkey) : AccountInfo := ⟨k, (w.accounts k).owner, (w.accounts k).data⟩

/-- No account exists at an address. -/
def Free (w : World) (k : Pubkey) : Prop := w.accounts k = ⟨.system, []⟩ ∧ w.metas k = none

instance (w : World) (k : Pubkey) : Decidable (w.Free k) := inferInstanceAs (Decidable (_ ∧ _))

/-- Write an account of the hook. -/
def setData (w : World) (k : Pubkey) (data : List U8) : World :=
  { w with accounts := Function.update w.accounts k ⟨.kycHook, data⟩ }

def setMint (w : World) (k : Pubkey) (data : List U8) : World :=
  { w with accounts := Function.update w.accounts k ⟨.token2022, data⟩ }

def setMetas (w : World) (k : Pubkey) (ms : List ExtraAccountMeta) : World :=
  { w with metas := Function.update w.metas k (some ms) }

variable (w : World) {k k' : Pubkey} (data : List U8) (ms : List ExtraAccountMeta)

@[simp] theorem info_key (k : Pubkey) : (w.info k).key = k := rfl

@[simp] theorem setData_accounts_self : (w.setData k data).accounts k = ⟨.kycHook, data⟩ :=
  Function.update_self _ _ _

theorem setData_accounts_of_ne (h : k' ≠ k) : (w.setData k data).accounts k' = w.accounts k' :=
  Function.update_of_ne h _ _

@[simp] theorem setData_metas : (w.setData k data).metas = w.metas := rfl

theorem setMint_accounts_of_ne (h : k' ≠ k) : (w.setMint k data).accounts k' = w.accounts k' :=
  Function.update_of_ne h _ _

@[simp] theorem setMint_accounts_self : (w.setMint k data).accounts k = ⟨.token2022, data⟩ :=
  Function.update_self _ _ _

@[simp] theorem setMint_metas : (w.setMint k data).metas = w.metas := rfl

@[simp] theorem setMetas_accounts : (w.setMetas k ms).accounts = w.accounts := rfl

@[simp] theorem setMetas_metas_self : (w.setMetas k ms).metas k = some ms :=
  Function.update_self _ _ _

theorem setMetas_metas_of_ne (h : k' ≠ k) : (w.setMetas k ms).metas k' = w.metas k' :=
  Function.update_of_ne h _ _

end World

/-! ## Derived addresses -/

section Addresses

variable (p : ProgramAddresses)

def registrySeeds (mint : Pubkey) : List (List U8) := [ascii "kyc-registry", Pubkey.bytes mint]

def statusSeeds (wallet : Pubkey) : List (List U8) := [ascii "kyc-status", Pubkey.bytes wallet]

def metasSeeds (mint : Pubkey) : List (List U8) :=
  [ascii "extra-account-metas", Pubkey.bytes mint]

def registryAddress (mint : Pubkey) : Pubkey := (p.find (registrySeeds mint)).1

def statusAddress (wallet : Pubkey) : Pubkey := (p.find (statusSeeds wallet)).1

def metasAddress (mint : Pubkey) : Pubkey := (p.find (metasSeeds mint)).1

end Addresses

/-! ## Packages of the token program -/

/-- What the hook reads of a token account: its mint, its owner, and the flag of the transfer-hook
extension, if it has one. -/
structure TokenAccountState where
  mint : Pubkey
  owner : Pubkey
  transferring : Option Bool
  deriving DecidableEq, Repr

inductive TransferHookInstruction
  | execute (amount : U64)
  | initializeExtraAccountMetaList
  | updateExtraAccountMetaList
  deriving DecidableEq, Repr

/-- How the packages of the token program lay out accounts and instructions. -/
structure Token2022 where
  packAccount : TokenAccountState → List U8
  unpackAccount : List U8 → Option TokenAccountState
  unpackMint : List U8 → Bool
  packExecute : U64 → List U8
  unpackInstruction : List U8 → Option TransferHookInstruction
  unpack_pack : ∀ a, unpackAccount (packAccount a) = some a
  unpack_execute : ∀ amount, unpackInstruction (packExecute amount) = some (.execute amount)
  /-- The owner of a token account stands at offset 32. -/
  owner_bytes : ∀ data a, unpackAccount data = some a →
    (data.drop 32).take 32 = Pubkey.bytes a.owner

/-! ## The layout to compute with -/

/-- The value of the first extension of a kind, two bytes of kind and two of length before it. -/
def findExtension (kind : ℕ) : ℕ → List U8 → Option (List U8)
  | fuel + 1, k₀ :: k₁ :: n₀ :: n₁ :: rest =>
    let k := ofLeBytes [k₀, k₁]
    let n := ofLeBytes [n₀, n₁]
    if k = 0 then none
    else if k = kind then some (rest.take n)
    else findExtension kind fuel (rest.drop n)
  | _, _ => none

/-- An initialized account of the base layout after its owner, all amounts zero. -/
def baseTail : List U8 := List.replicate 44 0 ++ 1 :: List.replicate 56 0

def packAccount (a : TokenAccountState) : List U8 :=
  Pubkey.bytes a.mint ++ (Pubkey.bytes a.owner ++ (baseTail ++
    match a.transferring with
    | none => []
    | some b => [2, 15, 0, 1, 0, if b then 1 else 0]))

def unpackAccount (data : List U8) : Option TokenAccountState :=
  if data.length < 165 || data[108]? == some 0 then none
  else
    let mint := Pubkey.ofBytes (data.take 32)
    let owner := Pubkey.ofBytes ((data.drop 32).take 32)
    match data.drop 165 with
    | [] => some ⟨mint, owner, none⟩
    | kind :: tlv =>
      if kind = 2 then
        some ⟨mint, owner, (findExtension 15 tlv.length tlv).bind fun v ↦ v.head?.map (· != 0)⟩
      else none

theorem unpackAccount_packAccount (a : TokenAccountState) :
    unpackAccount (packAccount a) = some a := by
  obtain ⟨mint, owner, transferring⟩ := a
  have hmint := Pubkey.bytes_length mint
  have howner := Pubkey.bytes_length owner
  have htail : baseTail.length = 101 := rfl
  unfold unpackAccount packAccount
  generalize hext : (match transferring with
    | none => ([] : List U8)
    | some b => [2, 15, 0, 1, 0, if b then 1 else 0]) = ext
  have hstate : (Pubkey.bytes mint ++ (Pubkey.bytes owner ++ (baseTail ++ ext)))[108]? =
      some 1 := by
    rw [List.getElem?_append_right (by omega), List.getElem?_append_right (by omega), hmint,
      howner, List.getElem?_append_left (by rw [htail]; decide)]
    rfl
  have hrest : (Pubkey.bytes mint ++ (Pubkey.bytes owner ++ (baseTail ++ ext))).drop 165 =
      ext := by
    rw [← List.append_assoc, ← List.append_assoc]
    exact List.drop_left' (by simp [hmint, howner, htail])
  have hlen : ¬ (Pubkey.bytes mint ++ (Pubkey.bytes owner ++ (baseTail ++ ext))).length < 165 := by
    simp only [List.length_append, hmint, howner, htail]
    omega
  have hguard : ¬ (decide ((Pubkey.bytes mint ++ (Pubkey.bytes owner ++
      (baseTail ++ ext))).length < 165) || some (1 : U8) == some 0) = true := by
    rw [decide_eq_false hlen]
    decide
  rw [hstate, hrest, if_neg hguard, List.take_left' hmint, List.drop_left' hmint,
    List.take_left' howner, Pubkey.ofBytes_bytes, Pubkey.ofBytes_bytes, ← hext]
  cases transferring with
  | none => rfl
  | some b => cases b <;> rfl

theorem unpackAccount_owner (data : List U8) (a : TokenAccountState)
    (h : unpackAccount data = some a) : (data.drop 32).take 32 = Pubkey.bytes a.owner := by
  unfold unpackAccount at h
  split at h
  · cases h
  · rename_i hlen
    have hfit : ((data.drop 32).take 32).length = 32 := by
      simp only [Bool.or_eq_true, decide_eq_true_eq, not_or] at hlen
      rw [List.length_take, List.length_drop]
      omega
    split at h
    · rw [← Option.some_inj.mp h, Pubkey.bytes_ofBytes hfit]
    · split at h
      · rw [← Option.some_inj.mp h, Pubkey.bytes_ofBytes hfit]
      · cases h

/-- `sha256("spl-transfer-hook-interface:execute")[..8]`. -/
def executeTag : List U8 := [105, 37, 101, 197, 75, 251, 102, 26]

def unpackInstruction (data : List U8) : Option TransferHookInstruction :=
  (splitBytes 8 data).bind fun x ↦
    if x.1 = executeTag then (u64Codec.decode x.2).map fun y ↦ .execute y.1
    else if x.1 = [43, 34, 13, 49, 167, 88, 235, 235] then some .initializeExtraAccountMetaList
    else if x.1 = [157, 105, 42, 146, 102, 85, 241, 174] then some .updateExtraAccountMetaList
    else none

/-- Token accounts whose only extension is the transfer hook's. -/
def sampleToken2022 : Token2022 where
  packAccount := packAccount
  unpackAccount := unpackAccount
  unpackMint data := 82 ≤ data.length && data[45]? == some 1
  packExecute amount := executeTag ++ u64Codec.encode amount
  unpackInstruction := unpackInstruction
  unpack_pack := unpackAccount_packAccount
  unpack_execute amount := by
    have hdecode := u64Codec.decode_encode amount []
    rw [List.append_nil] at hdecode
    have htag : executeTag.length = 8 := rfl
    rw [unpackInstruction, splitBytes_append htag, Option.bind_some, if_pos rfl, hdecode,
      Option.map_some]
  owner_bytes := unpackAccount_owner

end KycHook
