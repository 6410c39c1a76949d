import Mathlib.Data.FinEnum
import CrossFluf.Base.FiniteSum
import CrossFluf.Kyc.Noninterference

/-!
# The counters of the registries

A registry counts the wallets it verifies and revokes.  The flag it goes by is shared, so what one
registry verified another one may revoke, and then the wrong counter goes down.
-/

namespace KycHook

open Machine Solana Outcome Bytes Run FiniteSum

variable {p : ProgramAddresses} {spl : Token2022} {w w' : World} {k : Pubkey}
  {r : KycRegistry} {s : KycStatus} {i : I64 × Instruction} {is : List (I64 × Instruction)}

/-! ## What is counted -/

/-- The counter of a registry. -/
def Account.total (a : Account) : ℕ :=
  if a.owner = .kycHook then (registryAccount.load a.data).elim 0 fun r ↦ r.totalVerified.toNat
  else 0

/-- The account is a status with its flag set. -/
def Account.verified (a : Account) : Bool :=
  a.owner = .kycHook && (statusAccount.load a.data).any KycStatus.isVerified

theorem Account.counts_of_owner_ne {a : Account} (h : a.owner ≠ .kycHook) :
    a.total = 0 ∧ a.verified = false := by
  constructor
  · rw [Account.total, if_neg h]
  · rw [Account.verified, decide_eq_false h, Bool.false_and]

theorem Account.total_lt (a : Account) : a.total < 2 ^ 64 := by
  unfold Account.total
  split
  · cases registryAccount.load a.data with
    | none => decide
    | some r => exact r.totalVerified.isLt
  · decide

theorem World.Holds.registry_counts (h : w.Holds registryAccount k r) :
    (w.accounts k).total = r.totalVerified.toNat ∧ (w.accounts k).verified = false := by
  have hnone := statusAccount.load_of_ne registry_tag_ne.symm h.2
  constructor
  · rw [Account.total, if_pos h.1, h.2]
    rfl
  · rw [Account.verified, hnone, Option.any_none, Bool.and_false]

theorem World.Holds.status_counts (h : w.Holds statusAccount k s) :
    (w.accounts k).total = 0 ∧ (w.accounts k).verified = s.isVerified := by
  have hnone := registryAccount.load_of_ne registry_tag_ne h.2
  constructor
  · rw [Account.total, if_pos h.1, hnone]
    rfl
  · rw [Account.verified, decide_eq_true h.1, h.2, Bool.true_and, Option.any_some]

theorem World.Free.counts (h : w.Free k) :
    (w.accounts k).total = 0 ∧ (w.accounts k).verified = false := by
  rw [h.1]
  exact Account.counts_of_owner_ne nofun

/-! ## Sums over all accounts -/

def World.sum (w : World) (g : Account → ℕ) : ℕ := ∑ k, g (w.accounts k)

theorem World.sum_congr {g : Account → ℕ} (h : ∀ k, g (w'.accounts k) = g (w.accounts k)) :
    w'.sum g = w.sum g :=
  Finset.sum_congr rfl fun k _ ↦ h k

/-- A sum changes with the one account that is written. -/
theorem World.sum_write {g : Account → ℕ}
    (h : ∀ j, j ≠ k → g (w'.accounts j) = g (w.accounts j)) :
    w'.sum g + g (w.accounts k) = w.sum g + g (w'.accounts k) := by
  have hupdate : (fun j ↦ g (w'.accounts j)) =
      Function.update (fun j ↦ g (w.accounts j)) k (g (w'.accounts k)) := by
    funext j
    by_cases hj : j = k
    · rw [hj, Function.update_self]
    · rw [Function.update_of_ne hj, h j hj]
  rw [World.sum, hupdate]
  exact sum_update_add (Finset.mem_univ k) _ _

/-- What all registries have counted. -/
def totals (w : World) : ℕ := w.sum Account.total

/-- The number of verified statuses. -/
def verifiedCount (w : World) : ℕ :=
  (Finset.univ.filter fun k ↦ (w.accounts k).verified = true).card

theorem verifiedCount_eq (w : World) : verifiedCount w = w.sum fun a ↦ a.verified.toNat := by
  rw [verifiedCount, Finset.card_filter]
  apply Finset.sum_congr rfl
  intro k _
  show (if (w.accounts k).verified = true then 1 else 0) = (w.accounts k).verified.toNat
  cases (w.accounts k).verified with
  | true => rfl
  | false => rfl

/-- The registries have counted the verified wallets. -/
def Accurate (w : World) : Prop := totals w = verifiedCount w

theorem Genesis.accurate (h : Genesis w) : Accurate w := by
  have hzero := fun k ↦ Account.counts_of_owner_ne (h.accounts k)
  rw [Accurate, verifiedCount_eq, totals]
  apply Finset.sum_congr rfl
  intro k _
  show (w.accounts k).total = (w.accounts k).verified.toNat
  rw [(hzero k).1, (hzero k).2]
  rfl

/-! ## One instruction -/

/-- The instruction verifies, through registry `k`, a wallet that was not. -/
def verifiesThrough (k : Pubkey) (w : World) (i : I64 × Instruction) : ℕ :=
  match i.2 with
  | .call (.setKycStatus a true _) =>
    if a.registry = k ∧ (w.accounts a.kycStatus).verified = false then 1 else 0
  | _ => 0

/-- The instruction revokes, through registry `k`, a wallet that was verified. -/
def revokesThrough (k : Pubkey) (w : World) (i : I64 × Instruction) : ℕ :=
  match i.2 with
  | .call (.setKycStatus a false _) =>
    if a.registry = k ∧ (w.accounts a.kycStatus).verified = true then 1 else 0
  | _ => 0

/-- What a `set_kyc_status` does to the counter of the registry it names and to the flag. -/
structure StatusCounted (w : World) (a : SetKycStatusAccounts) (isVerified : Bool) (w' : World) :
    Prop where
  total : (w'.accounts a.registry).total =
    if isVerified && !(w.accounts a.kycStatus).verified then
      min ((w.accounts a.registry).total + 1) (2 ^ 64 - 1)
    else if !isVerified && (w.accounts a.kycStatus).verified then
      (w.accounts a.registry).total - 1
    else (w.accounts a.registry).total
  total_of_ne : ∀ k, k ≠ a.registry → (w'.accounts k).total = (w.accounts k).total
  verified : (w'.accounts a.kycStatus).verified = isVerified
  verified_of_ne : ∀ k, k ≠ a.kycStatus → (w'.accounts k).verified = (w.accounts k).verified

-- the flag the handler compares with is the one that is counted
theorem loadStatusIfNeeded_counts (h : loadStatusIfNeeded w k = .ok s) :
    (w.accounts k).total = 0 ∧ (w.accounts k).verified = s.isVerified := by
  rw [loadStatusIfNeeded] at h
  split at h
  · rename_i hfree
    rw [pure_eq_ok] at h
    rw [← h]
    exact hfree.counts
  · simp only [bind_eq_ok, load_eq_ok, require_eq_ok, pure_eq_ok, exists_const] at h
    obtain ⟨s', hs', -, rfl⟩ := h
    exact World.Holds.status_counts hs'

-- nor is it a registry
theorem loadStatusIfNeeded_ne {j : Pubkey} (h : loadStatusIfNeeded w k = .ok s)
    (hr : w.Holds registryAccount j r) : j ≠ k := by
  intro he
  rw [he] at hr
  rw [loadStatusIfNeeded] at h
  split at h
  · rename_i hfree
    have howner := hr.1
    rw [hfree.1] at howner
    cases howner
  · simp only [bind_eq_ok, load_eq_ok] at h
    obtain ⟨s', hs', -⟩ := h
    have hnone := registryAccount.load_of_ne registry_tag_ne hs'.2
    have hsome := hr.2
    rw [show registryAccount.load (w.accounts k).data = none from hnone] at hsome
    cases hsome

theorem setKycStatus_counted {now expiresAt : I64} {a : SetKycStatusAccounts}
    {isVerified : Bool} (h : setKycStatus p now w a isVerified expiresAt = .ok w') :
    StatusCounted w a isVerified w' := by
  simp only [setKycStatus, bind_eq_ok, require_eq_ok, pure_eq_ok, exists_const,
    loadRegistry_eq_ok] at h
  obtain ⟨-, -, r, ⟨hr, -⟩, -, status, hload, -, hworld⟩ := h
  obtain ⟨htotal, hflag⟩ := hr.registry_counts
  obtain ⟨hzero, hwas⟩ := loadStatusIfNeeded_counts hload
  have hne := loadStatusIfNeeded_ne hload hr
  rw [← hwas] at hworld
  generalize hcount : (if isVerified && !(w.accounts a.kycStatus).verified then
      saturatingAdd r.totalVerified 1
    else if !isVerified && (w.accounts a.kycStatus).verified then
      saturatingSub r.totalVerified 1
    else r.totalVerified) = total at hworld
  -- the two accounts that are written
  have hregistry : w'.Holds registryAccount a.registry { r with totalVerified := total } := by
    rw [← hworld, holds_setData_of_ne hne, holds_setData_self]
    exact Tagged.load_store _ _
  have hkyc : w'.Holds statusAccount a.kycStatus ⟨isVerified, a.user, now, expiresAt, a.authority,
      (p.find (statusSeeds a.user)).2⟩ := by
    rw [← hworld, holds_setData_self]
    exact Tagged.load_store _ _
  have hframe : ∀ k, k ≠ a.registry → k ≠ a.kycStatus → w'.accounts k = w.accounts k := by
    intro k hk hk'
    rw [← hworld, World.setData_accounts_of_ne _ _ hk', World.setData_accounts_of_ne _ _ hk]
  refine
    { total := ?_
      total_of_ne := ?_
      verified := ?_
      verified_of_ne := ?_ }
  · rw [hregistry.registry_counts.1, htotal, ← hcount]
    split
    · exact saturatingAdd_toNat _ _
    · split
      · exact saturatingSub_toNat _ _
      · rfl
  · intro k hk
    by_cases hk' : k = a.kycStatus
    · rw [hk', hkyc.status_counts.1, hzero]
    · rw [hframe k hk hk']
  · exact hkyc.status_counts.2
  · intro k hk'
    by_cases hk : k = a.registry
    · rw [hk, hregistry.registry_counts.2, hflag]
    · rw [hframe k hk hk']

/-- An instruction sets a status, or counts nothing. -/
theorem exec_counted (h : exec p spl w i = .ok w') :
    (∃ a isVerified expiresAt, i.2 = .call (.setKycStatus a isVerified expiresAt) ∧
        StatusCounted w a isVerified w') ∨
      (∀ k, (w'.accounts k).total = (w.accounts k).total ∧
          (w'.accounts k).verified = (w.accounts k).verified) ∧
        ∀ k, verifiesThrough k w i = 0 ∧ revokesThrough k w i = 0 := by
  -- where the one account that is written counts as before
  have hone : ∀ j, (∀ k ∈ i.2.writes, k = j) →
      (w'.accounts j).total = (w.accounts j).total →
      (w'.accounts j).verified = (w.accounts j).verified →
      ∀ k, (w'.accounts k).total = (w.accounts k).total ∧
        (w'.accounts k).verified = (w.accounts k).verified := by
    intro j hj htotal hverified k
    by_cases hk : k = j
    · rw [hk]
      exact ⟨htotal, hverified⟩
    · rw [exec_accounts_of_notMem h (fun hmem ↦ hk (hj k hmem))]
      exact ⟨rfl, rfl⟩
  obtain ⟨now, i⟩ := i
  cases i with
  | call c =>
    cases c with
    | initializeRegistry a =>
      have hi := initializeRegistry_eq_ok h
      have hcounts := hi.free.counts
      have hnew : w'.Holds registryAccount a.registry
          ⟨a.authority, a.mint, 0, (p.find (registrySeeds a.mint)).2⟩ := by
        rw [hi.world]
        exact holds_setData_self.mpr (Tagged.load_store _ _)
      refine Or.inr ⟨hone a.registry (fun k ↦ List.mem_singleton.mp) ?_ ?_, fun _ ↦ ⟨rfl, rfl⟩⟩
      · rw [hnew.registry_counts.1, hcounts.1]
        rfl
      · rw [hnew.registry_counts.2, hcounts.2]
    | setKycStatus a isVerified expiresAt =>
      exact Or.inl ⟨a, isVerified, expiresAt, rfl, setKycStatus_counted h⟩
    | transferAuthority a newAuthority =>
      obtain ⟨r, ht⟩ := transferAuthority_eq_ok h
      have hcounts := ht.registry_ok.registry_counts
      have hnew : w'.Holds registryAccount a.registry
          ⟨newAuthority, r.mint, r.totalVerified, r.bump⟩ := by
        rw [ht.world]
        exact holds_setData_self.mpr (Tagged.load_store _ _)
      refine Or.inr ⟨hone a.registry (fun k ↦ List.mem_singleton.mp) ?_ ?_, fun _ ↦ ⟨rfl, rfl⟩⟩
      · rw [hnew.registry_counts.1, hcounts.1]
      · rw [hnew.registry_counts.2, hcounts.2]
  | initializeExtraAccountMetaList a =>
    refine Or.inr ⟨hone 0 (fun k hk ↦ absurd hk List.not_mem_nil) ?_ ?_, fun _ ↦ ⟨rfl, rfl⟩⟩
    · rw [exec_accounts_of_notMem h List.not_mem_nil]
    · rw [exec_accounts_of_notMem h List.not_mem_nil]
  | createMint m data =>
    obtain ⟨-, hfree, rfl⟩ := createMint_eq_ok h
    have hcounts := hfree.counts
    have hnew : ((w.setMint m data).accounts m).owner ≠ .kycHook := by
      rw [World.setMint_accounts_self]
      nofun
    refine Or.inr ⟨hone m (fun k ↦ List.mem_singleton.mp) ?_ ?_, fun _ ↦ ⟨rfl, rfl⟩⟩
    · rw [(Account.counts_of_owner_ne hnew).1, hcounts.1]
    · rw [(Account.counts_of_owner_ne hnew).2, hcounts.2]

/-- No counter leaves the range of `u64`. -/
def Fits (w : World) (i : I64 × Instruction) : Prop :=
  ∀ k, revokesThrough k w i ≤ (w.accounts k).total ∧
    (w.accounts k).total + verifiesThrough k w i < 2 ^ 64

-- no instruction does both
theorem verifies_or_revokes (k : Pubkey) (w : World) (i : I64 × Instruction) :
    verifiesThrough k w i = 0 ∨ revokesThrough k w i = 0 := by
  obtain ⟨now, i⟩ := i
  cases i with
  | call c =>
    cases c with
    | initializeRegistry a => exact Or.inl rfl
    | setKycStatus a isVerified expiresAt =>
      cases isVerified with
      | true => exact Or.inr rfl
      | false => exact Or.inl rfl
    | transferAuthority a newAuthority => exact Or.inl rfl
  | initializeExtraAccountMetaList a => exact Or.inl rfl
  | createMint m data => exact Or.inl rfl

theorem verifiesThrough_of {a : SetKycStatusAccounts} {isVerified : Bool} {expiresAt : I64}
    (hi : i.2 = .call (.setKycStatus a isVerified expiresAt)) (k : Pubkey) :
    verifiesThrough k w i =
      if a.registry = k then (isVerified && !(w.accounts a.kycStatus).verified).toNat else 0 := by
  rw [verifiesThrough, hi]
  cases isVerified with
  | true =>
    by_cases hk : a.registry = k <;> cases hwas : (w.accounts a.kycStatus).verified <;>
      simp [hk, hwas]
  | false => simp

theorem revokesThrough_of {a : SetKycStatusAccounts} {isVerified : Bool} {expiresAt : I64}
    (hi : i.2 = .call (.setKycStatus a isVerified expiresAt)) (k : Pubkey) :
    revokesThrough k w i =
      if a.registry = k then (!isVerified && (w.accounts a.kycStatus).verified).toNat else 0 := by
  rw [revokesThrough, hi]
  cases isVerified with
  | true => simp
  | false =>
    by_cases hk : a.registry = k <;> cases hwas : (w.accounts a.kycStatus).verified <;>
      simp [hk, hwas]

/-- The edges of the flag that an instruction makes, and what it adds to the counter. -/
theorem StatusCounted.edges {a : SetKycStatusAccounts} {isVerified : Bool} {expiresAt : I64}
    (h : StatusCounted w a isVerified w')
    (hi : i.2 = .call (.setKycStatus a isVerified expiresAt)) :
    (w'.accounts a.registry).total =
        min ((w.accounts a.registry).total + verifiesThrough a.registry w i) (2 ^ 64 - 1) -
          revokesThrough a.registry w i ∧
      (w.accounts a.kycStatus).verified.toNat + verifiesThrough a.registry w i =
        isVerified.toNat + revokesThrough a.registry w i ∧
      ∀ k, k ≠ a.registry → verifiesThrough k w i = 0 ∧ revokesThrough k w i = 0 := by
  have hlt := (w.accounts a.registry).total_lt
  have htotal := h.total
  rw [verifiesThrough_of hi, revokesThrough_of hi, if_pos rfl, if_pos rfl, htotal]
  refine ⟨?_, ?_, ?_⟩
  · cases isVerified <;> cases (w.accounts a.kycStatus).verified <;> simp <;> omega
  · cases isVerified <;> cases (w.accounts a.kycStatus).verified <;> rfl
  · intro k hk
    rw [verifiesThrough_of hi, revokesThrough_of hi, if_neg hk.symm, if_neg hk.symm]
    exact ⟨rfl, rfl⟩

/-- Nothing is revoked and nothing is verified, or one registry decides whether the counters fit. -/
theorem StatusCounted.fits_iff {a : SetKycStatusAccounts} {isVerified : Bool} {expiresAt : I64}
    (h : StatusCounted w a isVerified w')
    (hi : i.2 = .call (.setKycStatus a isVerified expiresAt)) :
    Fits w i ↔ revokesThrough a.registry w i ≤ (w.accounts a.registry).total ∧
      (w.accounts a.registry).total + verifiesThrough a.registry w i < 2 ^ 64 := by
  constructor
  · intro hf
    exact hf a.registry
  · intro hf k
    by_cases hk : k = a.registry
    · rw [hk]
      exact hf
    · obtain ⟨-, -, hzero⟩ := h.edges hi
      have hlt := (w.accounts k).total_lt
      rw [(hzero k hk).1, (hzero k hk).2]
      omega

/-- While the counters are accurate, an instruction keeps them so exactly when they fit. -/
theorem accurate_step (h : exec p spl w i = .ok w') (ha : Accurate w) :
    Accurate w' ↔ Fits w i := by
  rw [Accurate, totals, verifiedCount_eq] at ha ⊢
  rcases exec_counted h with ⟨a, isVerified, expiresAt, hi, hc⟩ | ⟨hsame, hzero⟩
  · obtain ⟨htotal, hedges, -⟩ := hc.edges hi
    have honce := verifies_or_revokes a.registry w i
    have htotals := World.sum_write hc.total_of_ne
    have hcount : (w'.sum fun a ↦ a.verified.toNat) + (w.accounts a.kycStatus).verified.toNat =
        (w.sum fun a ↦ a.verified.toNat) + (w'.accounts a.kycStatus).verified.toNat :=
      World.sum_write fun j hj ↦ congrArg Bool.toNat (hc.verified_of_ne j hj)
    have hlt := (w.accounts a.registry).total_lt
    rw [hc.verified] at hcount
    rw [hc.fits_iff hi]
    omega
  · have htotals : w'.sum Account.total = w.sum Account.total :=
      World.sum_congr fun k ↦ (hsame k).1
    have hcount : (w'.sum fun a ↦ a.verified.toNat) = w.sum fun a ↦ a.verified.toNat :=
      World.sum_congr fun k ↦ congrArg Bool.toNat (hsame k).2
    rw [htotals, hcount]
    refine iff_of_true ha fun k ↦ ?_
    have hlt := (w.accounts k).total_lt
    rw [(hzero k).1, (hzero k).2]
    omega

/-- A counter that fits goes up with what its registry verifies and down with what it revokes. -/
theorem total_step (h : exec p spl w i = .ok w') (hf : Fits w i) (k : Pubkey) :
    (w'.accounts k).total + revokesThrough k w i =
      (w.accounts k).total + verifiesThrough k w i := by
  rcases exec_counted h with ⟨a, isVerified, expiresAt, hi, hc⟩ | ⟨hsame, hzero⟩
  · obtain ⟨htotal, -, hother⟩ := hc.edges hi
    have honce := verifies_or_revokes a.registry w i
    by_cases hk : k = a.registry
    · have hfit := hf a.registry
      rw [hk, htotal]
      omega
    · rw [(hother k hk).1, (hother k hk).2, hc.total_of_ne k hk]
  · rw [(hsame k).1, (hzero k).1, (hzero k).2]

/-! ## Runs -/

/-- At no point of the run has a registry revoked more wallets than it has newly verified, nor
`2 ^ 64` fewer. -/
def RevokesItsOwn (p : ProgramAddresses) (spl : Token2022) (w : World)
    (is : List (I64 × Instruction)) : Prop :=
  ∀ js, js <+: is → ∀ k,
    tally (exec p spl) (revokesThrough k) w js ≤ tally (exec p spl) (verifiesThrough k) w js ∧
      tally (exec p spl) (verifiesThrough k) w js <
        tally (exec p spl) (revokesThrough k) w js + 2 ^ 64

theorem run_total (hf : EachStep (exec p spl) (fun w i _ ↦ Fits w i) w is) (k : Pubkey) :
    ((run (exec p spl) w is).accounts k).total + tally (exec p spl) (revokesThrough k) w is =
      (w.accounts k).total + tally (exec p spl) (verifiesThrough k) w is :=
  (hf.mono fun _ _ _ h hfit ↦ total_step h hfit k).tally_add

theorem revokesItsOwn_append : RevokesItsOwn p spl w (is ++ [i]) ↔
    RevokesItsOwn p spl w is ∧ ∀ k,
      tally (exec p spl) (revokesThrough k) w (is ++ [i]) ≤
          tally (exec p spl) (verifiesThrough k) w (is ++ [i]) ∧
        tally (exec p spl) (verifiesThrough k) w (is ++ [i]) <
          tally (exec p spl) (revokesThrough k) w (is ++ [i]) + 2 ^ 64 := by
  constructor
  · intro h
    exact ⟨fun js hjs ↦ h js (hjs.trans (List.prefix_append is [i])), h _ (List.prefix_refl _)⟩
  · intro h js hjs
    rcases List.prefix_concat_iff.mp hjs with rfl | hjs
    · exact h.2
    · exact h.1 js hjs

/-- The counters fit in every step exactly when no registry revokes more than it has verified. -/
theorem fits_iff_revokesItsOwn (hw : ∀ k, (w.accounts k).total = 0) :
    EachStep (exec p spl) (fun w i _ ↦ Fits w i) w is ↔ RevokesItsOwn p spl w is := by
  induction is using List.reverseRecOn with
  | nil =>
    refine iff_of_true trivial fun js hjs k ↦ ?_
    rw [List.prefix_nil.mp hjs]
    show 0 ≤ 0 ∧ 0 < 0 + 2 ^ 64
    omega
  | append_singleton is i ih =>
    rw [eachStep_append, revokesItsOwn_append, ih]
    apply and_congr_right
    intro hown
    -- so far every counter holds the difference
    have hcounter : ∀ k, ((run (exec p spl) w is).accounts k).total +
        tally (exec p spl) (revokesThrough k) w is =
          tally (exec p spl) (verifiesThrough k) w is := by
      intro k
      rw [run_total (ih.mpr hown) k, hw k, Nat.zero_add]
    simp only [tally_append]
    cases h : exec p spl (run (exec p spl) w is) i with
    | error e =>
      refine iff_of_true ⟨fun w' hw' ↦ absurd (h.symm.trans hw') nofun, trivial⟩ fun k ↦ ?_
      have hk := hcounter k
      have hlt := ((run (exec p spl) w is).accounts k).total_lt
      rw [tally_cons_of_error h, tally_cons_of_error h]
      show _ + 0 ≤ _ + 0 ∧ _ + 0 < _ + 0 + 2 ^ 64
      omega
    | ok w' =>
      have hlast : EachStep (exec p spl) (fun w i _ ↦ Fits w i) (run (exec p spl) w is) [i] ↔
          Fits (run (exec p spl) w is) i :=
        ⟨fun hs ↦ hs.1 w' h, fun hf ↦ ⟨fun _ _ ↦ hf, trivial⟩⟩
      rw [hlast]
      apply forall_congr'
      intro k
      have hk := hcounter k
      have hlt := ((run (exec p spl) w is).accounts k).total_lt
      have honce := verifies_or_revokes k (run (exec p spl) w is) i
      rw [tally_cons_of_ok h, tally_cons_of_ok h]
      show _ ↔ _ + (_ + 0) ≤ _ + (_ + 0) ∧ _ + (_ + 0) < _ + (_ + 0) + 2 ^ 64
      omega

/-- The `saturating_sub` of a revocation has something to subtract from. -/
def Unsaturated (w : World) (i : I64 × Instruction) : Prop :=
  match i.2 with
  | .call (.setKycStatus a false _) =>
    (w.accounts a.kycStatus).verified = true → (w.accounts a.registry).total ≠ 0
  | _ => True

theorem Fits.unsaturated (h : Fits w i) : Unsaturated w i := by
  obtain ⟨now, i⟩ := i
  cases i with
  | call c =>
    cases c with
    | initializeRegistry a => trivial
    | setKycStatus a isVerified expiresAt =>
      cases isVerified with
      | true => trivial
      | false =>
        intro hwas
        have hfit := (h a.registry).1
        have hone : revokesThrough a.registry w (now, .call (.setKycStatus a false expiresAt)) =
            1 := if_pos ⟨rfl, hwas⟩
        omega
    | transferAuthority a newAuthority => trivial
  | initializeExtraAccountMetaList a => trivial
  | createMint m data => trivial

/-- The counters are accurate throughout a run, and no revocation saturates, exactly when no
registry revokes more wallets than it has verified. -/
theorem countersAccurate_iff (hw : Genesis w) :
    (Always (exec p spl) Accurate w is ∧ EachStep (exec p spl) (fun w i _ ↦ Unsaturated w i) w is) ↔
      RevokesItsOwn p spl w is := by
  have hzero : ∀ k, (w.accounts k).total = 0 :=
    fun k ↦ (Account.counts_of_owner_ne (hw.accounts k)).1
  have hrun : Always (exec p spl) Accurate w is ↔
      EachStep (exec p spl) (fun w i _ ↦ Fits w i) w is := by
    refine always_iff_eachStep ?_ hw.accurate is
    intro w i w' ha h
    exact accurate_step h ha
  rw [hrun, ← fits_iff_revokesItsOwn hzero]
  apply and_iff_left_of_imp
  intro hfits
  exact hfits.mono fun _ _ _ _ hf ↦ hf.unsaturated

/-! ## Two registries and one wallet -/

/-- A mint of a stranger with its registry, and the wallet verified through the first one. -/
def sharedRun : List (I64 × Instruction) :=
  strangerRun ++ [(0, .call (Sample.setStatus Sample.authority Sample.registry Sample.wallet true
    (-1)))]

/-- The stranger revokes it. -/
def revocation : I64 × Instruction := (0, .call (verify false).2)

theorem countersAccurate_iff_shared :
    (Always (exec sampleAddresses sampleToken2022) Accurate Sample.empty sharedRun ∧
        EachStep (exec sampleAddresses sampleToken2022) (fun w i _ ↦ Unsaturated w i)
          Sample.empty sharedRun) ↔
      RevokesItsOwn sampleAddresses sampleToken2022 Sample.empty sharedRun :=
  countersAccurate_iff Sample.genesis

-- one wallet is counted by the first registry, and none is verified
theorem countersAccurate_fails : ¬ ∀ (p : ProgramAddresses) (spl : Token2022) (w : World)
    (is : List (I64 × Instruction)), Genesis w → Accurate (run (exec p spl) w is) := by
  intro hall
  have hbefore := hall sampleAddresses sampleToken2022 Sample.empty sharedRun Sample.genesis
  have hafter := hall sampleAddresses sampleToken2022 Sample.empty (sharedRun ++ [revocation])
    Sample.genesis
  have hok : (exec sampleAddresses sampleToken2022
      (run (exec sampleAddresses sampleToken2022) Sample.empty sharedRun) revocation).isOk =
        true := by
    decide +kernel
  rw [run_append] at hafter
  have hfits := ((accurate_step (eq_ok_advance hok) hbefore).mp hafter
    (registryAddress sampleAddresses Sample.otherMint)).1
  revert hfits
  decide +kernel

end KycHook
