import CrossFluf.Kyc.Registries

/-!
# The two entry points

`fallback` reads one byte of each status.  `transfer_hook` decodes the statuses, looks at their
expiry and also wants the registry.
-/

namespace KycHook

open Machine Solana Outcome Bytes Run

variable {p : ProgramAddresses} {spl : Token2022} {w : World} {x : Transfer}
  {a b : TokenAccountState} {s d : KycStatus} {accounts : List AccountInfo} {now : I64}
  {amount : U64}

/-! ## Checks -/

/-- The byte the fallback reads is the flag of the status. -/
theorem passesKyc_store (s : KycStatus) : passesKyc (statusAccount.store s) = s.isVerified := by
  have hbyte : (statusAccount.store s)[8]? = some (if s.isVerified then 1 else 0) := rfl
  rw [passesKyc, statusAccount_store_length, hbyte]
  cases s.isVerified <;> rfl

theorem loadTokenAccount_eq_ok {i : AccountInfo} {mint : Pubkey} :
    i.loadTokenAccount spl mint = .ok a ↔
      i.owner = .token2022 ∧ spl.unpackAccount i.data = some a ∧ a.mint = mint := by
  simp only [AccountInfo.loadTokenAccount, bind_eq_ok, require_eq_ok, orElse_eq_ok, pure_eq_ok,
    exists_const]
  constructor
  · rintro ⟨-, a', ha, hm, ho, rfl⟩
    exact ⟨ho, ha, hm⟩
  · rintro ⟨ho, ha, hm⟩
    exact ⟨Or.inr ho, a, ha, hm, ho, rfl⟩

/-- A status that had a term and outlived it. -/
def Expired (now : I64) (s : KycStatus) : Prop := 0 < s.expiresAt ∧ s.expiresAt ≤ now

theorem checkExpiry_eq_ok {e : KycError} {u : Unit} :
    checkExpiry now s.expiresAt e = .ok u ↔ ¬ Expired now s := by
  rw [checkExpiry, Expired]
  split
  · rename_i hpos
    rw [require_eq_ok, and_iff_right hpos, Int64.not_le]
  · rename_i hpos
    rw [pure_eq_ok]
    exact iff_of_true rfl fun h ↦ hpos h.1

theorem checkIsTransferring_eq_ok {i : AccountInfo} {u : Unit}
    (ha : spl.unpackAccount i.data = some a) :
    checkIsTransferring spl i = .ok u ↔ a.transferring = some true := by
  simp only [checkIsTransferring, bind_eq_ok, orElse_eq_ok, require_eq_ok, ha, Option.some_inj]
  simp

/-! ## Resolved accounts -/

/-- The accounts the token program resolves for a transfer whose owners `a.owner` and `b.owner` have
the statuses `s` and `d`. -/
structure Resolved (p : ProgramAddresses) (spl : Token2022) (w : World) (x : Transfer)
    (a b : TokenAccountState) (s d : KycStatus) (accounts : List AccountInfo) : Prop where
  source_ok : x.source.owner = .token2022 ∧ spl.unpackAccount x.source.data = some a ∧
    a.mint = x.mint
  destination_ok : x.destination.owner = .token2022 ∧
    spl.unpackAccount x.destination.data = some b ∧ b.mint = x.mint
  mint_ok : (w.info x.mint).loadMint spl = .ok ()
  source_status : w.accounts (statusAddress p a.owner) = ⟨.kycHook, statusAccount.store s⟩
  source_bump : s.bump = (p.find (statusSeeds a.owner)).2
  destination_status : w.accounts (statusAddress p b.owner) = ⟨.kycHook, statusAccount.store d⟩
  destination_bump : d.bump = (p.find (statusSeeds b.owner)).2
  metas_ok : w.metas (metasAddress p x.mint) = some extraAccountMetas
  resolved : resolve p w x = some accounts

theorem Resolved.accounts_eq (h : Resolved p spl w x a b s d accounts) :
    accounts = [x.source, w.info x.mint, x.destination, w.info x.authority,
      w.info (metasAddress p x.mint), w.info (registryAddress p x.mint),
      w.info (statusAddress p a.owner), w.info (statusAddress p b.owner)] := by
  have hres := resolve_eq h.metas_ok h.source_ok.2.1 h.destination_ok.2.1
  exact Option.some_inj.mp (h.resolved.symm.trans hres)

/-- The registry of a mint is initialized. -/
def RegistryReady (p : ProgramAddresses) (w : World) (mint : Pubkey) : Prop :=
  ∃ r, w.Holds registryAccount (registryAddress p mint) r ∧
    p.create (registrySeeds mint) r.bump = some (registryAddress p mint)

/-- What the fallback asks of the eight accounts. -/
theorem fallback_eq_ok {source i₁ i₂ i₃ i₄ i₅ i₆ i₇ : AccountInfo} {data : List U8}
    (hdata : spl.unpackInstruction data = some (.execute amount))
    (ha : spl.unpackAccount source.data = some a) :
    fallback spl [source, i₁, i₂, i₃, i₄, i₅, i₆, i₇] data = .ok () ↔
      a.transferring = some true ∧ passesKyc i₆.data = true ∧ passesKyc i₇.data = true := by
  simp only [fallback, hdata, bind_eq_ok, orElse_eq_ok, require_eq_ok, exists_const, ha,
    Option.some_inj]
  constructor
  · rintro ⟨a', rfl, tr, htr, ht, hs, hd⟩
    exact ⟨ht ▸ htr, hs, hd⟩
  · rintro ⟨htr, hs, hd⟩
    exact ⟨a, rfl, true, htr, rfl, hs, hd⟩

theorem Resolved.fallback_eq_ok (h : Resolved p spl w x a b s d accounts) :
    fallback spl accounts (spl.packExecute amount) = .ok () ↔
      a.transferring = some true ∧ s.isVerified = true ∧ d.isVerified = true := by
  have hs : passesKyc (w.info (statusAddress p a.owner)).data = s.isVerified := by
    rw [World.info, h.source_status, passesKyc_store]
  have hd : passesKyc (w.info (statusAddress p b.owner)).data = d.isVerified := by
    rw [World.info, h.destination_status, passesKyc_store]
  rw [h.accounts_eq, KycHook.fallback_eq_ok (spl.unpack_execute amount) h.source_ok.2.1, hs, hd]

theorem Resolved.transferHook_eq_ok (h : Resolved p spl w x a b s d accounts) :
    transferHook p spl now accounts amount = .ok () ↔
      RegistryReady p w x.mint ∧ a.transferring = some true ∧
        (s.isVerified = true ∧ ¬ Expired now s) ∧ d.isVerified = true ∧ ¬ Expired now d := by
  have hs : (w.info (statusAddress p a.owner)).load statusAccount = .ok s := by
    rw [load_eq_ok, World.info, h.source_status]
    exact ⟨rfl, Tagged.load_store _ _⟩
  have hd : (w.info (statusAddress p b.owner)).load statusAccount = .ok d := by
    rw [load_eq_ok, World.info, h.destination_status]
    exact ⟨rfl, Tagged.load_store _ _⟩
  have hsb : p.create (statusSeeds a.owner) s.bump = some (statusAddress p a.owner) := by
    rw [h.source_bump, p.create_find, statusAddress]
  have hdb : p.create (statusSeeds b.owner) d.bump = some (statusAddress p b.owner) := by
    rw [h.destination_bump, p.create_find, statusAddress]
  have hsource : x.source.loadTokenAccount spl x.mint = .ok a :=
    loadTokenAccount_eq_ok.mpr h.source_ok
  have hdest : x.destination.loadTokenAccount spl x.mint = .ok b :=
    loadTokenAccount_eq_ok.mpr h.destination_ok
  have hmint : (w.info x.mint).loadMint spl = .ok () := h.mint_ok
  rw [h.accounts_eq]
  simp only [transferHook, bind_eq_ok, require_eq_ok, exists_const, checkExpiry_eq_ok,
    checkIsTransferring_eq_ok h.source_ok.2.1]
  simp only [World.info_key, hsource, hdest, hmint, hs, hd, hsb, hdb, load_eq_ok,
    Except.ok.injEq, exists_eq_left', true_and, exists_const]
  constructor
  · rintro ⟨r, hr, hbump, htr, hsv, hse, hdv, hde⟩
    exact ⟨⟨r, hr, hbump⟩, htr, ⟨hsv, hse⟩, hdv, hde⟩
  · rintro ⟨⟨r, hr, hbump⟩, htr, ⟨hsv, hse⟩, hdv, hde⟩
    exact ⟨r, hr, hbump, htr, hsv, hse, hdv, hde⟩

/-- The entry points agree exactly when both refuse for want of the flag or of a verification, or
when the registry exists and neither status has expired. -/
theorem entryPointsAgree_iff (h : Resolved p spl w x a b s d accounts) (now : I64) (amount : U64) :
    (fallback spl accounts (spl.packExecute amount) = .ok () ↔
        transferHook p spl now accounts amount = .ok ()) ↔
      a.transferring ≠ some true ∨ s.isVerified = false ∨ d.isVerified = false ∨
        (RegistryReady p w x.mint ∧ ¬ Expired now s ∧ ¬ Expired now d) := by
  rw [h.fallback_eq_ok, h.transferHook_eq_ok]
  simp only [← Bool.not_eq_true]
  tauto

/-! ## A verified wallet that pays itself -/

/-- The status of the wallet once the authority verified it at time 0. -/
def sampleStatus (expiresAt : I64) : KycStatus :=
  ⟨true, Sample.wallet, 0, expiresAt, Sample.authority, 255⟩

def statusWorld (expiresAt : I64) : World :=
  run (exec sampleAddresses sampleToken2022) Sample.empty
    (Sample.setup ++ [(0, .call (Sample.setStatus Sample.authority Sample.registry Sample.wallet
      true expiresAt))])

def sampleToken : TokenAccountState := ⟨Sample.mint, Sample.wallet, some true⟩

def sampleTransfer : Transfer where
  source := ⟨192, .token2022, sampleToken2022.packAccount sampleToken⟩
  mint := Sample.mint
  destination := ⟨224, .token2022, sampleToken2022.packAccount sampleToken⟩
  authority := Sample.wallet

def sampleAccounts (w : World) : List AccountInfo :=
  [sampleTransfer.source, w.info Sample.mint, sampleTransfer.destination, w.info Sample.wallet,
    w.info (metasAddress sampleAddresses Sample.mint), w.info Sample.registry,
    w.info (statusAddress sampleAddresses Sample.wallet),
    w.info (statusAddress sampleAddresses Sample.wallet)]

theorem sample_resolved (hmint : (w.info Sample.mint).loadMint sampleToken2022 = .ok ())
    (hs : w.accounts (statusAddress sampleAddresses Sample.wallet) =
      ⟨.kycHook, statusAccount.store s⟩) (hb : s.bump = 255)
    (hms : w.metas (metasAddress sampleAddresses Sample.mint) = some extraAccountMetas) :
    Resolved sampleAddresses sampleToken2022 w sampleTransfer sampleToken sampleToken s s
      (sampleAccounts w) where
  source_ok := ⟨rfl, sampleToken2022.unpack_pack sampleToken, rfl⟩
  destination_ok := ⟨rfl, sampleToken2022.unpack_pack sampleToken, rfl⟩
  mint_ok := hmint
  source_status := hs
  source_bump := hb
  destination_status := hs
  destination_bump := hb
  metas_ok := hms
  resolved := resolve_eq (x := sampleTransfer) (a := sampleToken) (b := sampleToken) hms
    (sampleToken2022.unpack_pack sampleToken) (sampleToken2022.unpack_pack sampleToken)

theorem statusWorld_resolved (expiresAt : I64)
    (h : ((statusWorld expiresAt).info Sample.mint).loadMint sampleToken2022 = .ok () ∧
      (statusWorld expiresAt).accounts (statusAddress sampleAddresses Sample.wallet) =
        ⟨.kycHook, statusAccount.store (sampleStatus expiresAt)⟩ ∧
      (statusWorld expiresAt).metas (metasAddress sampleAddresses Sample.mint) =
        some extraAccountMetas) :
    Resolved sampleAddresses sampleToken2022 (statusWorld expiresAt) sampleTransfer sampleToken
      sampleToken (sampleStatus expiresAt) (sampleStatus expiresAt)
      (sampleAccounts (statusWorld expiresAt)) :=
  sample_resolved h.1 h.2.1 rfl h.2.2

theorem entryPointsAgree_iff_forever :
    (fallback sampleToken2022 (sampleAccounts (statusWorld (-1)))
          (sampleToken2022.packExecute 5) = .ok () ↔
        transferHook sampleAddresses sampleToken2022 2 (sampleAccounts (statusWorld (-1))) 5 =
          .ok ()) ↔
      sampleToken.transferring ≠ some true ∨ (sampleStatus (-1)).isVerified = false ∨
        (sampleStatus (-1)).isVerified = false ∨
          (RegistryReady sampleAddresses (statusWorld (-1)) Sample.mint ∧
            ¬ Expired 2 (sampleStatus (-1)) ∧ ¬ Expired 2 (sampleStatus (-1))) :=
  entryPointsAgree_iff (statusWorld_resolved (-1) (by decide +kernel)) 2 5

-- a verification that ended at time 1 still passes the fallback at time 2
theorem entryPointsAgree_fails : ¬ ∀ (p : ProgramAddresses) (spl : Token2022) (w : World)
    (x : Transfer) (a b : TokenAccountState) (s d : KycStatus) (accounts : List AccountInfo)
    (now : I64) (amount : U64), Resolved p spl w x a b s d accounts →
      (fallback spl accounts (spl.packExecute amount) = .ok () ↔
        transferHook p spl now accounts amount = .ok ()) := by
  intro hall
  have hres := statusWorld_resolved 1 (by decide +kernel)
  have hagree := hall _ _ _ _ _ _ _ _ _ 2 5 hres
  have hfallback : fallback sampleToken2022 (sampleAccounts (statusWorld 1))
      (sampleToken2022.packExecute 5) = .ok () := hres.fallback_eq_ok.mpr ⟨rfl, rfl, rfl⟩
  obtain ⟨-, -, ⟨-, hfresh⟩, -⟩ := hres.transferHook_eq_ok.mp (hagree.mp hfallback)
  exact hfresh ⟨by decide, by decide⟩

end KycHook
