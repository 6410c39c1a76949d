import CrossFluf.Solana.Token

/-!
# Laws of the token program

How balances and supplies move, what an instruction cannot touch without a signature, and that the
accounts of a mint never hold more than its supply.
-/

namespace Solana.Tokens

open Machine Outcome FiniteSum

variable {t t' t'' : Tokens} {signers : List Pubkey} {src dst mint authority k m : Pubkey}
  {amount : U64}

/-! ## Balances and supplies -/

theorem balance_setAccount_self (t : Tokens) (k : Pubkey) (a : TokenAccount) :
    (t.setAccount k a).balance k = a.amount.toNat :=
  balance_of_account (setAccount_account_self t k a)

theorem balance_setAccount_of_ne (t : Tokens) {k k' : Pubkey} (a : TokenAccount) (h : k' ≠ k) :
    (t.setAccount k a).balance k' = t.balance k' := by
  rw [balance, balance, setAccount_account_of_ne t a h]

@[simp] theorem balance_setMint (t : Tokens) (k k' : Pubkey) (x : Mint) :
    (t.setMint k x).balance k' = t.balance k' := rfl

@[simp] theorem supply_setAccount (t : Tokens) (k k' : Pubkey) (a : TokenAccount) :
    (t.setAccount k a).supply k' = t.supply k' := rfl

theorem supply_setMint_self (t : Tokens) (k : Pubkey) (x : Mint) :
    (t.setMint k x).supply k = x.supply.toNat :=
  supply_of_mint (setMint_mint_self t k x)

theorem supply_setMint_of_ne (t : Tokens) {k k' : Pubkey} (x : Mint) (h : k' ≠ k) :
    (t.setMint k x).supply k' = t.supply k' := by
  rw [supply, supply, setMint_mint_of_ne t x h]

theorem transfer_mint (h : t.transfer signers src dst authority amount = .ok t') :
    t'.mint = t.mint := by
  obtain ⟨s, d, spent, -, -, -, -, -, ⟨-, rfl⟩ | ⟨-, s', d', -, -, rfl⟩⟩ := transfer_eq_ok h
  · rfl
  · rfl

theorem transfer_supply (h : t.transfer signers src dst authority amount = .ok t')
    (m : Pubkey) : t'.supply m = t.supply m := by
  rw [supply, supply, transfer_mint h]

theorem transfer_balance (h : t.transfer signers src dst authority amount = .ok t')
    (hne : src ≠ dst) :
    t.balance src = t'.balance src + amount.toNat ∧
      t'.balance dst = t.balance dst + amount.toNat := by
  obtain ⟨s, d, spent, hs, hd, -, -, -, hcase⟩ := transfer_eq_ok h
  rcases hcase with ⟨he, -⟩ | ⟨-, s', d', hs', hd', rfl⟩
  · exact absurd he hne
  · rw [balance_setAccount_of_ne _ _ hne, balance_setAccount_self, balance_setAccount_self,
      balance_of_account hs, balance_of_account hd, TokenAccount.withAmount_amount,
      TokenAccount.withAmount_amount]
    omega

theorem transfer_self (h : t.transfer signers src src authority amount = .ok t') : t' = t := by
  obtain ⟨s, d, spent, -, -, -, -, -, hcase⟩ := transfer_eq_ok h
  rcases hcase with ⟨-, rfl⟩ | ⟨hne, -⟩
  · rfl
  · exact absurd rfl hne

theorem transfer_account_of_ne (h : t.transfer signers src dst authority amount = .ok t')
    (hs : k ≠ src) (hd : k ≠ dst) : t'.account k = t.account k := by
  obtain ⟨s, d, spent, -, -, -, -, -, ⟨-, rfl⟩ | ⟨-, s', d', -, -, rfl⟩⟩ := transfer_eq_ok h
  · rfl
  · rw [setAccount_account_of_ne _ _ hd, setAccount_account_of_ne _ _ hs]

theorem transfer_balance_of_ne (h : t.transfer signers src dst authority amount = .ok t')
    (hs : k ≠ src) (hd : k ≠ dst) : t'.balance k = t.balance k := by
  rw [balance, balance, transfer_account_of_ne h hs hd]

theorem mintTo_balance (h : t.mintTo signers mint dst authority amount = .ok t') :
    t'.balance dst = t.balance dst + amount.toNat := by
  obtain ⟨d, x, d', supply', hd, -, -, -, -, hd', -, rfl⟩ := mintTo_eq_ok h
  rw [balance_setMint, balance_setAccount_self, balance_of_account hd,
    TokenAccount.withAmount_amount, hd']

theorem mintTo_supply (h : t.mintTo signers mint dst authority amount = .ok t') :
    t'.supply mint = t.supply mint + amount.toNat := by
  obtain ⟨d, x, d', supply', -, -, hx, -, -, -, hsup, rfl⟩ := mintTo_eq_ok h
  rw [supply_setMint_self, supply_of_mint hx, Mint.withSupply_supply, hsup]

theorem mintTo_account_of_ne (h : t.mintTo signers mint dst authority amount = .ok t')
    (hk : k ≠ dst) : t'.account k = t.account k := by
  obtain ⟨d, x, d', supply', -, -, -, -, -, -, -, rfl⟩ := mintTo_eq_ok h
  exact setAccount_account_of_ne t _ hk

theorem mintTo_balance_of_ne (h : t.mintTo signers mint dst authority amount = .ok t')
    (hk : k ≠ dst) : t'.balance k = t.balance k := by
  rw [balance, balance, mintTo_account_of_ne h hk]

theorem burn_balance (h : t.burn signers src mint authority amount = .ok t') :
    t.balance src = t'.balance src + amount.toNat := by
  obtain ⟨s, x, spent, s', supply', hs, -, -, -, hs', -, rfl⟩ := burn_eq_ok h
  rw [balance_setMint, balance_setAccount_self, balance_of_account hs,
    TokenAccount.withAmount_amount]
  omega

theorem burn_supply (h : t.burn signers src mint authority amount = .ok t') :
    t.supply mint = t'.supply mint + amount.toNat := by
  obtain ⟨s, x, spent, s', supply', -, -, hx, -, -, hsup, rfl⟩ := burn_eq_ok h
  rw [supply_setMint_self, supply_of_mint hx, Mint.withSupply_supply]
  omega

theorem supply_congr (h : t'.mint m = t.mint m) : t'.supply m = t.supply m := by
  rw [supply, supply, h]

theorem mintTo_mint_of_ne (h : t.mintTo signers mint dst authority amount = .ok t')
    (hm : m ≠ mint) : t'.mint m = t.mint m := by
  obtain ⟨d, x, d', supply', -, -, -, -, -, -, -, rfl⟩ := mintTo_eq_ok h
  rw [setMint_mint_of_ne _ _ hm, setAccount_mint]

theorem burn_mint_of_ne (h : t.burn signers src mint authority amount = .ok t')
    (hm : m ≠ mint) : t'.mint m = t.mint m := by
  obtain ⟨s, x, spent, s', supply', -, -, -, -, -, -, rfl⟩ := burn_eq_ok h
  rw [setMint_mint_of_ne _ _ hm, setAccount_mint]

theorem burn_account_of_ne (h : t.burn signers src mint authority amount = .ok t')
    (hk : k ≠ src) : t'.account k = t.account k := by
  obtain ⟨s, x, spent, s', supply', -, -, -, -, -, -, rfl⟩ := burn_eq_ok h
  exact setAccount_account_of_ne t _ hk

theorem burn_balance_of_ne (h : t.burn signers src mint authority amount = .ok t')
    (hk : k ≠ src) : t'.balance k = t.balance k := by
  rw [balance, balance, burn_account_of_ne h hk]

theorem transfer_balance_le (h : t.transfer signers src dst authority amount = .ok t')
    (hd : k ≠ dst) : t'.balance k ≤ t.balance k := by
  by_cases hs : k = src
  · subst hs
    have hmove := (transfer_balance h hd).1
    omega
  · exact le_of_eq (transfer_balance_of_ne h hs hd)

theorem transfer_balance_dst_le (h : t.transfer signers src dst authority amount = .ok t') :
    t'.balance dst ≤ t.balance dst + amount.toNat := by
  by_cases hne : src = dst
  · subst hne
    rw [transfer_self h]
    exact Nat.le_add_right _ _
  · exact le_of_eq (transfer_balance h hne).2

-- only the source of a transfer is lowered
theorem transfer_le_balance (h : t.transfer signers src dst authority amount = .ok t')
    (hs : k ≠ src) : t.balance k ≤ t'.balance k := by
  by_cases hd : k = dst
  · subst hd
    rw [(transfer_balance h hs.symm).2]
    exact Nat.le_add_right _ _
  · rw [transfer_balance_of_ne h hs hd]

theorem approve_balance {delegate owner : Pubkey}
    (h : t.approve signers src delegate owner amount = .ok t') (k : Pubkey) :
    t'.balance k = t.balance k := by
  obtain ⟨s, hs, -, rfl⟩ := approve_eq_ok h
  by_cases hk : k = src
  · subst hk
    rw [balance_setAccount_self, balance_of_account hs]
  · exact balance_setAccount_of_ne t _ hk

theorem burn_balance_le (h : t.burn signers src mint authority amount = .ok t') (k : Pubkey) :
    t'.balance k ≤ t.balance k := by
  by_cases hk : k = src
  · subst hk
    have hburn := burn_balance h
    omega
  · exact le_of_eq (burn_balance_of_ne h hk)

/-! ## What needs a signature -/

/-- Accounts and mints persist.  An account without a delegate loses tokens, or gains a delegate,
only under its owner's signature, and a mint's supply grows only under its authority's. -/
structure Frame (signers : List Pubkey) (t t' : Tokens) : Prop where
  account : ∀ k a, t.account k = some a → ∃ a', t'.account k = some a' ∧ a'.mint = a.mint ∧
    a'.owner = a.owner ∧ (a.owner ∉ signers → a.delegate = none →
      a'.delegate = none ∧ a.amount.toNat ≤ a'.amount.toNat)
  mint : ∀ k x, t.mint k = some x → ∃ x', t'.mint k = some x' ∧
    x'.mintAuthority = x.mintAuthority ∧ x'.decimals = x.decimals ∧
    ((∀ s ∈ signers, x.mintAuthority ≠ some s) → x'.supply.toNat ≤ x.supply.toNat)

/-- No account gains a delegate. -/
def NoGrant (t t' : Tokens) : Prop :=
  ∀ k a', t'.account k = some a' → a'.delegate ≠ none →
    ∃ a, t.account k = some a ∧ a.delegate ≠ none ∧ a.owner = a'.owner

theorem Frame.refl (signers : List Pubkey) (t : Tokens) : Frame signers t t where
  account _ a h := ⟨a, h, rfl, rfl, fun _ hd ↦ ⟨hd, le_rfl⟩⟩
  mint _ x h := ⟨x, h, rfl, rfl, fun _ ↦ le_rfl⟩

theorem Frame.trans (h : Frame signers t t') (h' : Frame signers t' t'') :
    Frame signers t t'' where
  account k a ha := by
    obtain ⟨a', ha', hm', ho', hk'⟩ := h.account k a ha
    obtain ⟨a'', ha'', hm'', ho'', hk''⟩ := h'.account k a' ha'
    refine ⟨a'', ha'', hm''.trans hm', ho''.trans ho', ?_⟩
    intro hs hd
    obtain ⟨hd', hle'⟩ := hk' hs hd
    obtain ⟨hd'', hle''⟩ := hk'' (ho' ▸ hs) hd'
    exact ⟨hd'', le_trans hle' hle''⟩
  mint k x hx := by
    obtain ⟨x', hx', ha', hdec', hk'⟩ := h.mint k x hx
    obtain ⟨x'', hx'', ha'', hdec'', hk''⟩ := h'.mint k x' hx'
    refine ⟨x'', hx'', ha''.trans ha', hdec''.trans hdec', ?_⟩
    intro hs
    exact le_trans (hk'' (ha' ▸ hs)) (hk' hs)

theorem Frame.mono {signers' : List Pubkey} (h : Frame signers t t')
    (hs : ∀ s ∈ signers, s ∈ signers') : Frame signers' t t' where
  account k a ha := by
    obtain ⟨a', ha', hm', ho', hk'⟩ := h.account k a ha
    exact ⟨a', ha', hm', ho', fun hn ↦ hk' fun hin ↦ hn (hs _ hin)⟩
  mint k x hx := by
    obtain ⟨x', hx', ha', hdec', hk'⟩ := h.mint k x hx
    exact ⟨x', hx', ha', hdec', fun hn ↦ hk' fun s hin ↦ hn s (hs s hin)⟩

theorem NoGrant.refl (t : Tokens) : NoGrant t t := fun _ a' h hd ↦ ⟨a', h, hd, rfl⟩

theorem NoGrant.trans (h : NoGrant t t') (h' : NoGrant t' t'') : NoGrant t t'' := by
  intro k a'' ha'' hd''
  obtain ⟨a', ha', hd', ho'⟩ := h' k a'' ha'' hd''
  obtain ⟨a, ha, hd, ho⟩ := h k a' ha' hd'
  exact ⟨a, ha, hd, ho.trans ho'⟩

/-- Rewriting one account within the rules is framed. -/
theorem frame_setAccount {a : TokenAccount} (a' : TokenAccount) (ha : t.account k = some a)
    (hm : a'.mint = a.mint) (ho : a'.owner = a.owner)
    (hkeep : a.owner ∉ signers → a.delegate = none →
      a'.delegate = none ∧ a.amount.toNat ≤ a'.amount.toNat) :
    Frame signers t (t.setAccount k a') where
  account j b hb := by
    by_cases hj : j = k
    · subst hj
      rw [ha, Option.some_inj] at hb
      subst hb
      exact ⟨a', setAccount_account_self t j a', hm, ho, hkeep⟩
    · exact ⟨b, by rw [setAccount_account_of_ne t a' hj, hb], rfl, rfl, fun _ hd ↦ ⟨hd, le_rfl⟩⟩
  mint j x hx := ⟨x, hx, rfl, rfl, fun _ ↦ le_rfl⟩

theorem frame_setMint {x x' : Mint} (hx : t.mint k = some x)
    (ha : x'.mintAuthority = x.mintAuthority) (hd : x'.decimals = x.decimals)
    (hkeep : (∀ s ∈ signers, x.mintAuthority ≠ some s) → x'.supply.toNat ≤ x.supply.toNat) :
    Frame signers t (t.setMint k x') where
  account j b hb := ⟨b, hb, rfl, rfl, fun _ hd ↦ ⟨hd, le_rfl⟩⟩
  mint j y hy := by
    by_cases hj : j = k
    · subst hj
      rw [hx, Option.some_inj] at hy
      subst hy
      exact ⟨x', setMint_mint_self t j x', ha, hd, hkeep⟩
    · exact ⟨y, by rw [setMint_mint_of_ne t x' hj, hy], rfl, rfl, fun _ ↦ le_rfl⟩

theorem noGrant_setAccount {a : TokenAccount} (a' : TokenAccount) (ha : t.account k = some a)
    (ho : a'.owner = a.owner) (hd : a.delegate = none → a'.delegate = none) :
    NoGrant t (t.setAccount k a') := by
  intro j b hb hbd
  by_cases hj : j = k
  · subst hj
    rw [setAccount_account_self, Option.some_inj] at hb
    subst hb
    exact ⟨a, ha, fun hn ↦ hbd (hd hn), ho.symm⟩
  · rw [setAccount_account_of_ne t a' hj] at hb
    exact ⟨b, hb, hbd, rfl⟩

/-- Spending from an account with no delegate takes its owner's signature. -/
theorem spend_owner_mem {a a' : TokenAccount} (h : spend signers a authority amount = .ok a')
    (hd : a.delegate = none) : a.owner ∈ signers := by
  obtain ⟨hs, -, -, -, ho | hdel, -⟩ := spend_eq_ok h
  · exact ho ▸ hs
  · rw [hd] at hdel
    cases hdel

theorem transfer_frame (h : t.transfer signers src dst authority amount = .ok t') :
    Frame signers t t' ∧ NoGrant t t' := by
  obtain ⟨s, d, spent, hs, hd, -, -, hspent, hcase⟩ := transfer_eq_ok h
  obtain ⟨-, hmint, howner, -, -, hsame⟩ := spend_eq_ok hspent
  rcases hcase with ⟨-, rfl⟩ | ⟨hne, s', d', -, hd', rfl⟩
  · exact ⟨Frame.refl _ _, NoGrant.refl _⟩
  · have hd2 : (t.setAccount src (spent.withAmount s')).account dst = some d := by
      rw [setAccount_account_of_ne _ _ hne.symm, hd]
    have hdebit : Frame signers t (t.setAccount src (spent.withAmount s')) :=
      frame_setAccount _ hs hmint howner fun hns hdn ↦ absurd (spend_owner_mem hspent hdn) hns
    have hnone : s.delegate = none → (spent.withAmount s').delegate = none := fun hdn ↦ by
      rw [hsame hdn]
      exact hdn
    constructor
    · refine hdebit.trans (frame_setAccount (d.withAmount d') hd2 rfl rfl fun _ hdn ↦ ⟨hdn, ?_⟩)
      rw [TokenAccount.withAmount_amount, hd']
      omega
    · exact (noGrant_setAccount (spent.withAmount s') hs howner hnone).trans
        (noGrant_setAccount (d.withAmount d') hd2 rfl id)

theorem mintTo_frame (h : t.mintTo signers mint dst authority amount = .ok t') :
    Frame signers t t' ∧ NoGrant t t' := by
  obtain ⟨d, x, d', supply', hd, -, hx, hauth, hsig, hd', -, rfl⟩ := mintTo_eq_ok h
  have hcredit : Frame signers t (t.setAccount dst (d.withAmount d')) := by
    refine frame_setAccount _ hd rfl rfl fun _ hdn ↦ ⟨hdn, ?_⟩
    rw [TokenAccount.withAmount_amount, hd']
    omega
  constructor
  · exact hcredit.trans (frame_setMint hx rfl rfl fun hs ↦ absurd hauth (hs authority hsig))
  · exact noGrant_setAccount _ hd rfl id

theorem burn_frame (h : t.burn signers src mint authority amount = .ok t') :
    Frame signers t t' ∧ NoGrant t t' := by
  obtain ⟨s, x, spent, s', supply', hs, -, hx, hspent, -, hsup, rfl⟩ := burn_eq_ok h
  obtain ⟨-, hmint, howner, -, -, hsame⟩ := spend_eq_ok hspent
  have hdebit : Frame signers t (t.setAccount src (spent.withAmount s')) :=
    frame_setAccount _ hs hmint howner fun hns hdn ↦ absurd (spend_owner_mem hspent hdn) hns
  constructor
  · refine hdebit.trans (frame_setMint hx rfl rfl fun _ ↦ ?_)
    rw [Mint.withSupply_supply]
    omega
  · refine noGrant_setAccount _ hs howner fun hdn ↦ ?_
    rw [hsame hdn]
    exact hdn

/-! ## The accounts of a mint hold at most its supply -/

/-- What an address holds of a mint. -/
def held (t : Tokens) (m k : Pubkey) : ℕ :=
  (t.account k).elim 0 fun a ↦ if a.mint = m then a.amount.toNat else 0

/-- For every mint, no finite set of accounts holds more than the supply. -/
def Sound (t : Tokens) : Prop := ∀ m, BoundedBy (t.held m) (t.supply m)

/-- A ledger without accounts. -/
theorem sound_of_account_none (h : ∀ k, t.account k = none) : t.Sound := by
  intro m s
  have hzero : ∀ k ∈ s, t.held m k = 0 := fun k _ ↦ by
    rw [held, h, Option.elim_none]
  rw [Finset.sum_eq_zero hzero]
  exact Nat.zero_le _

theorem held_of_account {a : TokenAccount} (h : t.account k = some a) (hm : a.mint = m) :
    t.held m k = a.amount.toNat := by
  rw [held, h, Option.elim_some, if_pos hm]

theorem held_setAccount (t : Tokens) (k : Pubkey) (a : TokenAccount) (m : Pubkey) :
    (t.setAccount k a).held m =
      Function.update (t.held m) k (if a.mint = m then a.amount.toNat else 0) := by
  funext j
  by_cases hj : j = k
  · rw [hj, Function.update_self, held, setAccount_account_self, Option.elim_some]
  · rw [Function.update_of_ne hj, held, held, setAccount_account_of_ne t a hj]

@[simp] theorem held_setMint (t : Tokens) (k : Pubkey) (x : Mint) (m : Pubkey) :
    (t.setMint k x).held m = t.held m := rfl

/-- Overwriting an account by one that holds the same of `m` changes no holding of `m`. -/
theorem held_setAccount_of_mint_ne {a : TokenAccount} (a' : TokenAccount)
    (ha : t.account k = some a) (hm : a'.mint = a.mint) (hne : a.mint ≠ m) :
    (t.setAccount k a').held m = t.held m := by
  have hzero : t.held m k = 0 := by
    rw [held, ha, Option.elim_some, if_neg hne]
  rw [held_setAccount, if_neg (hm ▸ hne), ← hzero, Function.update_eq_self]

theorem Sound.balance_le {a : TokenAccount} (hs : t.Sound) (ha : t.account k = some a) :
    a.amount.toNat ≤ t.supply a.mint := by
  have hk := (hs a.mint).le k
  rwa [held_of_account ha rfl] at hk

theorem Sound.pair_le {j : Pubkey} {a b : TokenAccount} (hs : t.Sound)
    (ha : t.account k = some a) (hb : t.account j = some b) (hm : a.mint = b.mint)
    (hne : k ≠ j) : a.amount.toNat + b.amount.toNat ≤ t.supply a.mint := by
  have hkj := (hs a.mint).pair hne
  rwa [held_of_account ha rfl, held_of_account hb hm.symm] at hkj

theorem transfer_sound (hs : t.Sound)
    (h : t.transfer signers src dst authority amount = .ok t') : t'.Sound := by
  obtain ⟨s, d, spent, hsrc, hdst, hmint, hle, hspent, hcase⟩ := transfer_eq_ok h
  obtain ⟨-, hm, -, -, -, -⟩ := spend_eq_ok hspent
  rcases hcase with ⟨-, rfl⟩ | ⟨hne, s', d', hs', hd', rfl⟩
  · exact hs
  · intro m
    have hdst' : (t.setAccount src (spent.withAmount s')).account dst = some d := by
      rw [setAccount_account_of_ne _ _ hne.symm, hdst]
    rw [supply_setAccount, supply_setAccount]
    by_cases hmm : s.mint = m
    · have hmove := (hs m).move hne (d := amount.toNat) (by rwa [held_of_account hsrc hmm])
      rw [held_of_account hsrc hmm, held_of_account hdst (hmint ▸ hmm)] at hmove
      rw [held_setAccount, held_setAccount, if_pos (by exact hm.trans hmm),
        if_pos (by exact hmint ▸ hmm)]
      have hrest : s.amount.toNat - amount.toNat = s'.toNat := by omega
      rwa [hrest, ← hd'] at hmove
    · rw [held_setAccount_of_mint_ne (d.withAmount d') hdst' rfl (hmint ▸ hmm),
        held_setAccount_of_mint_ne (spent.withAmount s') hsrc hm hmm]
      exact hs m

theorem mintTo_sound (hs : t.Sound)
    (h : t.mintTo signers mint dst authority amount = .ok t') : t'.Sound := by
  obtain ⟨d, x, d', supply', hdst, hmint, hx, -, -, hd', hsup, rfl⟩ := mintTo_eq_ok h
  intro m
  rw [held_setMint]
  by_cases hm : m = mint
  · subst hm
    rw [supply_setMint_self, held_setAccount, if_pos (by exact hmint)]
    have hcredit := (hs m).credit dst amount.toNat
    rw [held_of_account hdst hmint, supply_of_mint hx] at hcredit
    rwa [TokenAccount.withAmount_amount, Mint.withSupply_supply, hd', hsup]
  · rw [supply_setMint_of_ne _ _ hm, supply_setAccount,
      held_setAccount_of_mint_ne (d.withAmount d') hdst rfl
        (by rw [hmint]; exact fun he ↦ hm he.symm)]
    exact hs m

theorem burn_sound (hs : t.Sound)
    (h : t.burn signers src mint authority amount = .ok t') : t'.Sound := by
  obtain ⟨s, x, spent, s', supply', hsrc, hmint, hx, hspent, hs', hsup, rfl⟩ := burn_eq_ok h
  obtain ⟨-, hm, -, -, -, -⟩ := spend_eq_ok hspent
  intro m
  rw [held_setMint]
  by_cases hmm : m = mint
  · subst hmm
    rw [supply_setMint_self, held_setAccount, if_pos (by exact hm.trans hmint)]
    have hdebit := (hs m).debit (i := src) (d := amount.toNat)
      (by rw [held_of_account hsrc hmint]; omega)
    rw [held_of_account hsrc hmint, supply_of_mint hx] at hdebit
    rw [hs', hsup, Nat.add_sub_cancel_left, Nat.add_sub_cancel_left] at hdebit
    exact hdebit
  · rw [supply_setMint_of_ne _ _ hmm, supply_setAccount,
      held_setAccount_of_mint_ne (spent.withAmount s') hsrc hm
        (by rw [hmint]; exact fun he ↦ hmm he.symm)]
    exact hs m

/-- Opening an empty account changes no holding. -/
theorem sound_setAccount_new {a : TokenAccount} (hs : t.Sound) (hk : t.account k = none)
    (ha : a.amount = 0) : (t.setAccount k a).Sound := by
  intro m
  have hzero : t.held m k = 0 := by
    rw [held, hk, Option.elim_none]
  have hnew : (if a.mint = m then a.amount.toNat else 0) = 0 := by
    rw [ha]
    split <;> rfl
  rw [held_setAccount, hnew, ← hzero, Function.update_eq_self, supply_setAccount]
  exact hs m

theorem sound_setMint_new {x : Mint} (hs : t.Sound) (hk : t.mint k = none) :
    (t.setMint k x).Sound := by
  intro m
  rw [held_setMint]
  by_cases hm : m = k
  · subst hm
    have hzero : t.supply m = 0 := by
      rw [supply, hk, Option.elim_none]
    exact (hs m).mono (fun _ ↦ le_rfl) (by omega)
  · rw [supply_setMint_of_ne t x hm]
    exact hs m

theorem supply_lt (t : Tokens) (m : Pubkey) : t.supply m < 2 ^ 64 := by
  rw [supply]
  cases t.mint m with
  | none => decide
  | some x => exact x.supply.isLt

/-- The owner spends from an account, within the allowance if it is its own delegate. -/
theorem spend_succeeds {a : TokenAccount} (howner : a.owner = authority)
    (hallow : a.delegate = some authority → amount.toNat ≤ a.delegatedAmount.toNat)
    (hsig : authority ∈ signers) : ∃ a', spend signers a authority amount = .ok a' := by
  rw [spend]
  split
  · rename_i hd
    have hrest : checkedSub a.delegatedAmount amount = some (a.delegatedAmount - amount) := by
      rw [checkedSub, if_pos (hallow hd)]
    simp only [bind_eq_ok, require_eq_ok, orElse_eq_ok, pure_eq_ok, exists_const]
    exact ⟨_, hsig, _, hrest, rfl⟩
  · simp only [bind_eq_ok, require_eq_ok, pure_eq_ok, exists_const]
    exact ⟨a, howner, hsig, rfl⟩

-- who is the owner and does not sign is refused, also when it is its own delegate
theorem spend_unsigned {a : TokenAccount} (howner : a.owner = authority)
    (hsig : authority ∉ signers) :
    spend signers a authority amount = .error .missingRequiredSignature := by
  rw [spend]
  split
  · rw [require_of_not hsig, error_bind]
  · rw [require_of howner, ok_bind, require_of_not hsig, error_bind]

theorem transfer_unsigned {s d : TokenAccount} (hs : t.account src = some s)
    (hd : t.account dst = some d) (hmint : s.mint = d.mint) (howner : s.owner = authority)
    (hsig : authority ∉ signers) (hle : amount.toNat ≤ s.amount.toNat) :
    t.transfer signers src dst authority amount = .error .missingRequiredSignature := by
  have hs' : checkedSub s.amount amount = some (s.amount - amount) := by
    rw [checkedSub, if_pos hle]
  rw [transfer, orElse_some hs, ok_bind, orElse_some hd, ok_bind, orElse_some hs', ok_bind,
    require_of hmint, ok_bind, spend_unsigned howner hsig, error_bind]

/-- A covered transfer between two accounts of a mint goes through: no balance overflows, since
the two together hold at most the supply. -/
theorem transfer_succeeds {s d : TokenAccount} (ht : t.Sound) (hs : t.account src = some s)
    (hd : t.account dst = some d) (hne : src ≠ dst) (hmint : s.mint = d.mint)
    (howner : s.owner = authority)
    (hallow : s.delegate = some authority → amount.toNat ≤ s.delegatedAmount.toNat)
    (hsig : authority ∈ signers) (hle : amount.toNat ≤ s.amount.toNat) :
    ∃ t', t.transfer signers src dst authority amount = .ok t' := by
  have hfit : d.amount.toNat + amount.toNat < 2 ^ 64 := by
    have hpair := ht.pair_le hs hd hmint hne
    have hlt := t.supply_lt s.mint
    omega
  obtain ⟨d', hd'⟩ := isSome_checkedAdd.mpr hfit
  have hs' : checkedSub s.amount amount = some (s.amount - amount) := by
    rw [checkedSub, if_pos hle]
  obtain ⟨spent, hspent⟩ := spend_succeeds howner hallow hsig
  refine ⟨(t.setAccount src (spent.withAmount (s.amount - amount))).setAccount dst
    (d.withAmount d'), ?_⟩
  simp only [transfer, bind_eq_ok, orElse_eq_ok, require_eq_ok, exists_const, if_neg hne,
    pure_eq_ok]
  exact ⟨s, hs, d, hd, _, hs', hmint, spent, hspent, d', hd', rfl⟩

theorem transferChecked_succeeds {s d : TokenAccount} {x : Mint} (ht : t.Sound)
    (hs : t.account src = some s) (hd : t.account dst = some d) (hne : src ≠ dst)
    (hx : t.mint mint = some x) (hsm : s.mint = mint) (hdm : d.mint = mint)
    (howner : s.owner = authority)
    (hallow : s.delegate = some authority → amount.toNat ≤ s.delegatedAmount.toNat)
    (hsig : authority ∈ signers) (hle : amount.toNat ≤ s.amount.toNat) :
    ∃ t', t.transferChecked signers src mint dst authority amount x.decimals = .ok t' := by
  obtain ⟨t', ht'⟩ :=
    transfer_succeeds ht hs hd hne (hsm.trans hdm.symm) howner hallow hsig hle
  refine ⟨t', ?_⟩
  simp only [transferChecked, bind_eq_ok, orElse_eq_ok, require_eq_ok, exists_const]
  exact ⟨s, hs, x, hx, hsm, rfl, ht'⟩

/-- The authority of a mint issues whatever the supply leaves room for: an account holds at most
that. -/
theorem mintTo_succeeds {s : TokenAccount} {x : Mint} (ht : t.Sound)
    (hs : t.account dst = some s) (hx : t.mint mint = some x) (hsm : s.mint = mint)
    (hauth : x.mintAuthority = some authority) (hsig : authority ∈ signers)
    (hfit : x.supply.toNat + amount.toNat < 2 ^ 64) :
    ∃ t', t.mintTo signers mint dst authority amount = .ok t' := by
  have hbal := ht.balance_le hs
  rw [hsm, supply_of_mint hx] at hbal
  obtain ⟨s', hs'⟩ := isSome_checkedAdd.mpr (by omega : s.amount.toNat + amount.toNat < 2 ^ 64)
  obtain ⟨x', hx'⟩ := isSome_checkedAdd.mpr hfit
  refine ⟨(t.setAccount dst (s.withAmount s')).setMint mint (x.withSupply x'), ?_⟩
  simp only [mintTo, bind_eq_ok, orElse_eq_ok, require_eq_ok, exists_const, pure_eq_ok]
  exact ⟨s, hs, hsm, x, hx, by rw [hauth]; rfl, hauth, hsig, s', hs', x', hx', rfl⟩

/-- The owner of an account burns from it whatever it holds. -/
theorem burn_succeeds {s : TokenAccount} {x : Mint} (ht : t.Sound) (hs : t.account src = some s)
    (hx : t.mint mint = some x) (hsm : s.mint = mint) (howner : s.owner = authority)
    (hallow : s.delegate = some authority → amount.toNat ≤ s.delegatedAmount.toNat)
    (hsig : authority ∈ signers) (hle : amount.toNat ≤ s.amount.toNat) :
    ∃ t', t.burn signers src mint authority amount = .ok t' := by
  have hsupply : amount.toNat ≤ x.supply.toNat := by
    have hbal := ht.balance_le hs
    rw [hsm, supply_of_mint hx] at hbal
    omega
  have hs' : checkedSub s.amount amount = some (s.amount - amount) := by
    rw [checkedSub, if_pos hle]
  have hx' : checkedSub x.supply amount = some (x.supply - amount) := by
    rw [checkedSub, if_pos hsupply]
  obtain ⟨spent, hspent⟩ := spend_succeeds howner hallow hsig
  refine ⟨(t.setAccount src (spent.withAmount (s.amount - amount))).setMint mint
    (x.withSupply (x.supply - amount)), ?_⟩
  simp only [burn, bind_eq_ok, orElse_eq_ok, require_eq_ok, exists_const, pure_eq_ok]
  exact ⟨s, hs, x, hx, _, hs', hsm, spent, hspent, _, hx', rfl⟩

/-! ## Wallets -/

/-- The accounts whose owner satisfies `P` have no delegate. -/
def Undelegated (P : Pubkey → Bool) (t : Tokens) : Prop :=
  ∀ k a, t.account k = some a → P a.owner = true → a.delegate = none

theorem NoGrant.undelegated {P : Pubkey → Bool} (h : NoGrant t t') (hu : t.Undelegated P) :
    t'.Undelegated P := by
  intro k a' ha' hP
  by_contra hd'
  obtain ⟨a, ha, hd, ho⟩ := h k a' ha' hd'
  exact hd (hu k a ha (by rw [ho, hP]))

theorem frame_setAccount_new (a : TokenAccount) (hk : t.account k = none) :
    Frame signers t (t.setAccount k a) where
  account j b hb := by
    have hj : j ≠ k := by
      rintro rfl
      rw [hk] at hb
      cases hb
    exact ⟨b, by rw [setAccount_account_of_ne t a hj, hb], rfl, rfl, fun _ hd ↦ ⟨hd, le_rfl⟩⟩
  mint j x hx := ⟨x, hx, rfl, rfl, fun _ ↦ le_rfl⟩

theorem frame_setMint_new (x : Mint) (hk : t.mint k = none) : Frame signers t (t.setMint k x) where
  account j b hb := ⟨b, hb, rfl, rfl, fun _ hd ↦ ⟨hd, le_rfl⟩⟩
  mint j y hy := by
    have hj : j ≠ k := by
      rintro rfl
      rw [hk] at hy
      cases hy
    exact ⟨y, by rw [setMint_mint_of_ne t x hj, hy], rfl, rfl, fun _ ↦ le_rfl⟩

theorem noGrant_setAccount_new (a : TokenAccount) (ha : a.delegate = none) :
    NoGrant t (t.setAccount k a) := by
  intro j b hb hbd
  by_cases hj : j = k
  · subst hj
    rw [setAccount_account_self, Option.some_inj] at hb
    exact absurd (hb ▸ ha) hbd
  · rw [setAccount_account_of_ne t a hj] at hb
    exact ⟨b, hb, hbd, rfl⟩

/-- A wallet's instruction is framed by its signers. -/
theorem exec_frame {i : TokenInstruction} (h : i.exec t signers = .ok t') :
    Frame signers t t' := by
  cases i with
  | transfer src dst authority amount => exact (transfer_frame h).1
  | mintTo mint dst authority amount => exact (mintTo_frame h).1
  | burn src mint authority amount => exact (burn_frame h).1
  | approve src delegate owner amount =>
    obtain ⟨s, hs, hsig, rfl⟩ := approve_eq_ok h
    exact frame_setAccount _ hs rfl rfl fun hns ↦ absurd hsig hns
  | initializeAccount k mint owner =>
    obtain ⟨hk, -, rfl⟩ := initializeAccount_eq_ok h
    exact frame_setAccount_new _ hk
  | initializeMint k authority decimals =>
    obtain ⟨-, hk, rfl⟩ := initializeMint_eq_ok h
    exact frame_setMint_new _ hk

theorem exec_sound {i : TokenInstruction} (hs : t.Sound) (h : i.exec t signers = .ok t') :
    t'.Sound := by
  cases i with
  | transfer src dst authority amount => exact transfer_sound hs h
  | mintTo mint dst authority amount => exact mintTo_sound hs h
  | burn src mint authority amount => exact burn_sound hs h
  | approve src delegate owner amount =>
    obtain ⟨s, hsrc, -, rfl⟩ := approve_eq_ok h
    intro m
    rw [held_setAccount, supply_setAccount]
    have hheld : t.held m src = if s.mint = m then s.amount.toNat else 0 := by
      rw [held, hsrc, Option.elim_some]
    rw [← hheld, Function.update_eq_self]
    exact hs m
  | initializeAccount k mint owner =>
    obtain ⟨hk, -, rfl⟩ := initializeAccount_eq_ok h
    exact sound_setAccount_new hs hk rfl
  | initializeMint k authority decimals =>
    obtain ⟨-, hk, rfl⟩ := initializeMint_eq_ok h
    exact sound_setMint_new hs hk

/-- Only its owner gives an account a delegate. -/
theorem exec_undelegated {P : Pubkey → Bool} {i : TokenInstruction}
    (hP : ∀ s ∈ signers, P s = false) (hu : t.Undelegated P) (h : i.exec t signers = .ok t') :
    t'.Undelegated P := by
  cases i with
  | transfer src dst authority amount => exact (transfer_frame h).2.undelegated hu
  | mintTo mint dst authority amount => exact (mintTo_frame h).2.undelegated hu
  | burn src mint authority amount => exact (burn_frame h).2.undelegated hu
  | approve src delegate owner amount =>
    obtain ⟨s, hs, hsig, rfl⟩ := approve_eq_ok h
    intro k a ha ho
    by_cases hk : k = src
    · subst hk
      rw [setAccount_account_self, Option.some_inj] at ha
      subst ha
      rw [hP s.owner hsig] at ho
      cases ho
    · rw [setAccount_account_of_ne _ _ hk] at ha
      exact hu k a ha ho
  | initializeAccount k mint owner =>
    obtain ⟨hk, -, rfl⟩ := initializeAccount_eq_ok h
    exact (noGrant_setAccount_new _ rfl).undelegated hu
  | initializeMint k authority decimals =>
    obtain ⟨-, hk, rfl⟩ := initializeMint_eq_ok h
    exact hu

theorem transfer_account_none (h : t.transfer signers src dst authority amount = .ok t')
    (hk : t.account k = none) : t'.account k = none := by
  obtain ⟨s, d, -, hs, hd, -⟩ := transfer_eq_ok h
  rw [transfer_account_of_ne h (by rintro rfl; rw [hk] at hs; cases hs)
    (by rintro rfl; rw [hk] at hd; cases hd), hk]

theorem mintTo_account_none (h : t.mintTo signers mint dst authority amount = .ok t')
    (hk : t.account k = none) : t'.account k = none := by
  obtain ⟨d, -, -, -, hd, -⟩ := mintTo_eq_ok h
  rw [mintTo_account_of_ne h (by rintro rfl; rw [hk] at hd; cases hd), hk]

theorem burn_account_none (h : t.burn signers src mint authority amount = .ok t')
    (hk : t.account k = none) : t'.account k = none := by
  obtain ⟨s, -, -, -, -, hs, -⟩ := burn_eq_ok h
  rw [burn_account_of_ne h (by rintro rfl; rw [hk] at hs; cases hs), hk]

/-! ## Delegates -/

/-- No account gets a delegate it did not have. -/
def KeepsDelegates (t t' : Tokens) : Prop :=
  ∀ k a', t'.account k = some a' → a'.delegate ≠ none →
    ∃ a, t.account k = some a ∧ a'.delegate = a.delegate

theorem KeepsDelegates.trans (h : KeepsDelegates t t') (h' : KeepsDelegates t' t'') :
    KeepsDelegates t t'' := by
  intro k a'' ha'' hd
  obtain ⟨a', ha', he'⟩ := h' k a'' ha'' hd
  obtain ⟨a, ha, he⟩ := h k a' ha' (he' ▸ hd)
  exact ⟨a, ha, he'.trans he⟩

theorem keepsDelegates_setAccount {a : TokenAccount} (a' : TokenAccount)
    (ha : t.account k = some a) (hd : a'.delegate = none ∨ a'.delegate = a.delegate) :
    KeepsDelegates t (t.setAccount k a') := by
  intro j b hb hne
  by_cases hj : j = k
  · subst hj
    obtain rfl := Option.some_inj.mp ((setAccount_account_self t j a').symm.trans hb)
    exact ⟨a, ha, hd.resolve_left hne⟩
  · rw [setAccount_account_of_ne _ _ hj] at hb
    exact ⟨b, hb, rfl⟩

theorem spend_delegate {a a' : TokenAccount} (h : spend signers a authority amount = .ok a') :
    a'.delegate = none ∨ a'.delegate = a.delegate := by
  rw [spend] at h
  split at h
  · simp only [bind_eq_ok, require_eq_ok, orElse_eq_ok, pure_eq_ok, exists_const] at h
    obtain ⟨-, rest, -, rfl⟩ := h
    by_cases hz : rest = 0
    · exact Or.inl (if_pos hz)
    · exact Or.inr (if_neg hz)
  · simp only [bind_eq_ok, require_eq_ok, pure_eq_ok, exists_const] at h
    obtain ⟨-, -, rfl⟩ := h
    exact Or.inr rfl

theorem transfer_keepsDelegates (h : t.transfer signers src dst authority amount = .ok t') :
    KeepsDelegates t t' := by
  obtain ⟨s, d, spent, hs, hd, -, -, hspent, he⟩ := transfer_eq_ok h
  rcases he with ⟨-, rfl⟩ | ⟨hne, s', d', -, -, rfl⟩
  · exact fun k a ha _ ↦ ⟨a, ha, rfl⟩
  · have hdst : (t.setAccount src (spent.withAmount s')).account dst = some d := by
      rw [setAccount_account_of_ne _ _ hne.symm, hd]
    have hpay := keepsDelegates_setAccount (spent.withAmount s') hs
      (by rw [TokenAccount.withAmount_delegate]; exact spend_delegate hspent)
    exact hpay.trans (keepsDelegates_setAccount (d.withAmount d') hdst (Or.inr rfl))

theorem burn_keepsDelegates (h : t.burn signers src mint authority amount = .ok t') :
    KeepsDelegates t t' := by
  obtain ⟨s, x, spent, s', supply', hs, -, -, hspent, -, -, rfl⟩ := burn_eq_ok h
  exact keepsDelegates_setAccount (spent.withAmount s') hs
    (by rw [TokenAccount.withAmount_delegate]; exact spend_delegate hspent)

/-- A wallet opens accounts only at the address it signs for. -/
theorem exec_account_none {i : TokenInstruction} (hk : t.account k = none)
    (hc : i.created ≠ some k) (h : i.exec t signers = .ok t') : t'.account k = none := by
  cases i with
  | transfer src dst authority amount => exact transfer_account_none h hk
  | mintTo mint dst authority amount => exact mintTo_account_none h hk
  | burn src mint authority amount => exact burn_account_none h hk
  | approve src delegate owner amount =>
    obtain ⟨s, hs, -, rfl⟩ := approve_eq_ok h
    rw [setAccount_account_of_ne _ _ (by rintro rfl; rw [hk] at hs; cases hs), hk]
  | initializeAccount j mint owner =>
    obtain ⟨-, -, rfl⟩ := initializeAccount_eq_ok h
    rw [setAccount_account_of_ne _ _ (fun he ↦ hc (by rw [he]; rfl)), hk]
  | initializeMint j authority decimals =>
    obtain ⟨-, -, rfl⟩ := initializeMint_eq_ok h
    exact hk

theorem mintTo_mint_none (h : t.mintTo signers mint dst authority amount = .ok t')
    (hk : t.mint k = none) : t'.mint k = none := by
  obtain ⟨-, x, -, -, -, -, hx, -⟩ := mintTo_eq_ok h
  rw [mintTo_mint_of_ne h (by rintro rfl; rw [hk] at hx; cases hx), hk]

theorem burn_mint_none (h : t.burn signers src mint authority amount = .ok t')
    (hk : t.mint k = none) : t'.mint k = none := by
  obtain ⟨-, x, -, -, -, -, -, hx, -⟩ := burn_eq_ok h
  rw [burn_mint_of_ne h (by rintro rfl; rw [hk] at hx; cases hx), hk]

/-- Nor does it create a mint elsewhere. -/
theorem exec_mint_none {i : TokenInstruction} (hk : t.mint k = none)
    (hc : i.created ≠ some k) (h : i.exec t signers = .ok t') : t'.mint k = none := by
  cases i with
  | transfer src dst authority amount => rw [transfer_mint h, hk]
  | mintTo mint dst authority amount => exact mintTo_mint_none h hk
  | burn src mint authority amount => exact burn_mint_none h hk
  | approve src delegate owner amount =>
    obtain ⟨s, -, -, rfl⟩ := approve_eq_ok h
    exact hk
  | initializeAccount j mint owner =>
    obtain ⟨-, -, rfl⟩ := initializeAccount_eq_ok h
    exact hk
  | initializeMint j authority decimals =>
    obtain ⟨-, -, rfl⟩ := initializeMint_eq_ok h
    rw [setMint_mint_of_ne _ _ (fun he ↦ hc (by rw [he]; rfl)), hk]

/-- What an instruction burns of a mint. -/
def burned (m : Pubkey) : TokenInstruction → ℕ
  | .burn _ mint _ amount => if mint = m then amount.toNat else 0
  | _ => 0

/-- The supply of a mint whose authority does not sign changes by what is burned of it. -/
theorem exec_supply {i : TokenInstruction} {x : Mint} (hx : t.mint m = some x)
    (ha : ∀ s ∈ signers, x.mintAuthority ≠ some s) (h : i.exec t signers = .ok t') :
    t'.supply m + burned m i = t.supply m := by
  cases i with
  | transfer src dst authority amount =>
    show t'.supply m + 0 = t.supply m
    rw [Nat.add_zero, transfer_supply h]
  | mintTo mint dst authority amount =>
    have hne : m ≠ mint := by
      intro he
      obtain ⟨_, y, _, _, -, -, hy, hauth, hsigned, -, -, -⟩ := mintTo_eq_ok h
      rw [← he, hx, Option.some_inj] at hy
      exact ha authority hsigned (hy ▸ hauth)
    show t'.supply m + 0 = t.supply m
    rw [Nat.add_zero, supply_congr (mintTo_mint_of_ne h hne)]
  | burn src mint authority amount =>
    show t'.supply m + (if mint = m then amount.toNat else 0) = t.supply m
    by_cases hm : mint = m
    · rw [if_pos hm, ← hm, ← burn_supply h]
    · rw [if_neg hm, Nat.add_zero, supply_congr (burn_mint_of_ne h (Ne.symm hm))]
  | approve src delegate owner amount =>
    obtain ⟨s, -, -, rfl⟩ := approve_eq_ok h
    rfl
  | initializeAccount k mint owner =>
    obtain ⟨-, -, rfl⟩ := initializeAccount_eq_ok h
    rfl
  | initializeMint k authority decimals =>
    obtain ⟨-, hk, rfl⟩ := initializeMint_eq_ok h
    have hne : m ≠ k := by
      intro he
      rw [← he, hx] at hk
      cases hk
    show (t.setMint k _).supply m + 0 = t.supply m
    rw [Nat.add_zero, supply_setMint_of_ne _ _ hne]

/-! ## All of it at once -/

/-- The ledger changed under the signatures of `signers`; it stayed sound, and no account of an
owner in `P` got a delegate. -/
structure Step (P : Pubkey → Bool) (signers : List Pubkey) (t t' : Tokens) : Prop where
  frame : Frame signers t t'
  sound : t.Sound → t'.Sound
  undelegated : t.Undelegated P → t'.Undelegated P

variable {P : Pubkey → Bool} {signers' : List Pubkey}

theorem Step.refl (P : Pubkey → Bool) (signers : List Pubkey) (t : Tokens) : Step P signers t t :=
  ⟨.refl signers t, id, id⟩

theorem Step.trans (h : Step P signers t t') (h' : Step P signers t' t'') :
    Step P signers t t'' :=
  ⟨h.frame.trans h'.frame, h'.sound ∘ h.sound, h'.undelegated ∘ h.undelegated⟩

theorem Step.mono (h : Step P signers t t') (hs : ∀ s ∈ signers, s ∈ signers') :
    Step P signers' t t' :=
  ⟨h.frame.mono hs, h.sound, h.undelegated⟩

theorem transfer_step (h : t.transfer signers src dst authority amount = .ok t') :
    Step P signers t t' :=
  ⟨(transfer_frame h).1, fun hs ↦ transfer_sound hs h, (transfer_frame h).2.undelegated⟩

theorem mintTo_step (h : t.mintTo signers mint dst authority amount = .ok t') :
    Step P signers t t' :=
  ⟨(mintTo_frame h).1, fun hs ↦ mintTo_sound hs h, (mintTo_frame h).2.undelegated⟩

theorem burn_step (h : t.burn signers src mint authority amount = .ok t') :
    Step P signers t t' :=
  ⟨(burn_frame h).1, fun hs ↦ burn_sound hs h, (burn_frame h).2.undelegated⟩

theorem exec_step {i : TokenInstruction} (hP : ∀ s ∈ signers, P s = false)
    (h : i.exec t signers = .ok t') : Step P signers t t' :=
  ⟨exec_frame h, fun hs ↦ exec_sound hs h, fun hu ↦ exec_undelegated hP hu h⟩

theorem step_setAccount_new {a : TokenAccount} (hk : t.account k = none) (ha : a.amount = 0)
    (hd : a.delegate = none) : Step P signers t (t.setAccount k a) :=
  ⟨frame_setAccount_new a hk, fun hs ↦ sound_setAccount_new hs hk ha,
    (noGrant_setAccount_new a hd).undelegated⟩

theorem step_setMint_new {x : Mint} (hk : t.mint k = none) :
    Step P signers t (t.setMint k x) :=
  ⟨frame_setMint_new x hk, fun hs ↦ sound_setMint_new hs hk, id⟩

-- who does not sign loses nothing
theorem Step.balance_mono {a : TokenAccount} (h : Step P signers t t') (ha : t.account k = some a)
    (ho : a.owner ∉ signers) (hd : a.delegate = none) : t.balance k ≤ t'.balance k := by
  obtain ⟨a', ha', -, -, hkeep⟩ := h.frame.account k a ha
  rw [balance_of_account ha, balance_of_account ha']
  exact (hkeep ho hd).2

theorem Step.supply_anti {x : Mint} (h : Step P signers t t') (hx : t.mint k = some x)
    (hs : ∀ s ∈ signers, x.mintAuthority ≠ some s) : t'.supply k ≤ t.supply k := by
  obtain ⟨x', hx', -, -, hkeep⟩ := h.frame.mint k x hx
  rw [supply_of_mint hx, supply_of_mint hx']
  exact hkeep hs

end Solana.Tokens
