import CrossFluf.Vault.Steps
import CrossFluf.Base.FiniteSum
import CrossFluf.Base.Run
import CrossFluf.Base.Proportion
import Mathlib.Data.FinEnum

/-!
# The books of a vault

Seen from its books a vault is three numbers: the total it claims, the idle part and the part
deployed in strategies.  Every instruction is one of a few movements between them.
-/

namespace VaultProgram

open Machine Solana Outcome Release FiniteSum

/-! ## Movements -/

structure Books where
  total : ℕ
  idle : ℕ
  deployed : ℕ

inductive Movement
  | still
  | deposit (amount : ℕ)
  /-- `assets` leave the total and `paid` of them leave the idle part. -/
  | withdraw (assets paid : ℕ)
  | allocate (amount : ℕ)
  | deallocate (amount : ℕ)
  | report (oldValue newValue : ℕ)

namespace Books

def Balanced (b : Books) : Prop := b.total = b.idle + b.deployed

/-- `b'` is `b` after the movement. -/
def Moves (b : Books) : Movement → Books → Prop
  | .still, b' => b' = b
  | .deposit amount, b' => b' = ⟨b.total + amount, b.idle + amount, b.deployed⟩
  | .withdraw assets paid, b' =>
    b.total = assets + b'.total ∧ b.idle = paid + b'.idle ∧ b'.deployed = b.deployed
  | .allocate amount, b' =>
    b'.total = b.total ∧ b.idle = amount + b'.idle ∧ b'.deployed = b.deployed + amount
  | .deallocate amount, b' =>
    b'.total = b.total ∧ b'.idle = b.idle + amount ∧ b.deployed = amount + b'.deployed
  | .report oldValue newValue, b' =>
    oldValue ≤ b.deployed ∧ b'.deployed + oldValue = b.deployed + newValue ∧ b'.idle = b.idle ∧
      b'.total = b.total + (newValue - oldValue) - (oldValue - newValue)

end Books

/-- A withdrawal takes the same off the total as off the idle part. -/
def Movement.Exact : Movement → Prop
  | .withdraw assets paid => assets = paid
  | _ => True

-- only an inexact withdrawal unbalances the books
theorem Books.Moves.balanced_iff {b b' : Books} {m : Movement} (h : b.Moves m b')
    (hb : b.Balanced) : b'.Balanced ↔ m.Exact := by
  unfold Books.Balanced at *
  cases m with
  | still =>
    have he : b' = b := h
    rw [he]
    exact iff_of_true hb trivial
  | deposit amount =>
    have he : b' = ⟨b.total + amount, b.idle + amount, b.deployed⟩ := h
    refine iff_of_true ?_ trivial
    rw [he]
    show b.total + amount = b.idle + amount + b.deployed
    omega
  | withdraw assets paid =>
    have htotal := h.1
    have hidle := h.2.1
    have hdeployed := h.2.2
    show b'.total = b'.idle + b'.deployed ↔ assets = paid
    omega
  | allocate amount =>
    have htotal := h.1
    have hidle := h.2.1
    have hdeployed := h.2.2
    exact iff_of_true (by omega) trivial
  | deallocate amount =>
    have htotal := h.1
    have hidle := h.2.1
    have hdeployed := h.2.2
    exact iff_of_true (by omega) trivial
  | report oldValue newValue =>
    have hold := h.1
    have hdeployed := h.2.1
    have hidle := h.2.2.1
    have htotal := h.2.2.2
    exact iff_of_true (by omega) trivial

namespace Movement

/-! What a movement needs of the vault's token account, and what it does without tokens. -/

def inflow : Movement → ℕ
  | .deposit amount => amount
  | _ => 0

def outflow : Movement → ℕ
  | .withdraw _ paid => paid
  | _ => 0

def allocated : Movement → ℕ
  | .allocate amount => amount
  | _ => 0

def recalled : Movement → ℕ
  | .deallocate amount => amount
  | _ => 0

def gain : Movement → ℕ
  | .report oldValue newValue => newValue - oldValue
  | _ => 0

def loss : Movement → ℕ
  | .report oldValue newValue => oldValue - newValue
  | _ => 0

end Movement

/-- The idle and the deployed part, with what comes in and goes out of each. -/
theorem Books.Moves.flows {b b' : Books} {m : Movement} (h : b.Moves m b') :
    b'.idle + m.outflow + m.allocated = b.idle + m.inflow + m.recalled ∧
      b'.deployed + m.recalled + m.loss = b.deployed + m.allocated + m.gain := by
  cases m with
  | still =>
    have he : b' = b := h
    rw [he]
    exact ⟨rfl, rfl⟩
  | deposit amount =>
    have he : b' = ⟨b.total + amount, b.idle + amount, b.deployed⟩ := h
    rw [he]
    exact ⟨rfl, rfl⟩
  | withdraw assets paid =>
    have hidle := h.2.1
    have hdeployed := h.2.2
    show b'.idle + paid + 0 = b.idle + 0 + 0 ∧ b'.deployed + 0 + 0 = b.deployed + 0 + 0
    omega
  | allocate amount =>
    have hidle := h.2.1
    have hdeployed := h.2.2
    show b'.idle + 0 + amount = b.idle + 0 + 0 ∧ b'.deployed + 0 + 0 = b.deployed + amount + 0
    omega
  | deallocate amount =>
    have hidle := h.2.1
    have hdeployed := h.2.2
    show b'.idle + 0 + 0 = b.idle + 0 + amount ∧ b'.deployed + amount + 0 = b.deployed + 0 + 0
    omega
  | report oldValue newValue =>
    have hold := h.1
    have hdeployed := h.2.1
    have hidle := h.2.2.1
    show b'.idle + 0 + 0 = b.idle + 0 + 0 ∧
      b'.deployed + 0 + (oldValue - newValue) = b.deployed + 0 + (newValue - oldValue)
    omega

-- an allocation only takes from the idle part
theorem Books.Moves.idle_add_le {b b' : Books} {m : Movement} (h : b.Moves m b') :
    b'.idle + m.outflow ≤ b.idle + m.inflow + m.recalled := by
  have hidle := h.flows.1
  omega

/-- The idle and the deployed part together change by tokens that move and by reports. -/
theorem Books.Moves.claim_add {b b' : Books} {m : Movement} (h : b.Moves m b') :
    b'.idle + b'.deployed + m.outflow + m.loss = b.idle + b.deployed + m.inflow + m.gain := by
  obtain ⟨hidle, hdeployed⟩ := h.flows
  omega

/-! ## Deployed assets -/

/-- What the account at `k` adds to the deployed assets of the vault at `V`. -/
def positionAt (w : World) (V k : Pubkey) : ℕ :=
  (w.strategies k).elim 0 fun s ↦ if s.vault = V then s.positionValue.toNat else 0

/-- The sum of `position_value` over all strategies of the vault at `V`. -/
@[irreducible] def deployed (w : World) (V : Pubkey) : ℕ := ∑ k : Pubkey, positionAt w V k

variable {p : ProgramAddresses} {w w' : World} {V k : Pubkey} {s : Strategy}

theorem positionAt_of_strategy (h : w.strategies k = some s) (hV : s.vault = V) :
    positionAt w V k = s.positionValue.toNat := by
  rw [positionAt, h, Option.elim_some, if_pos hV]

theorem positionAt_of_none (h : w.strategies k = none) : positionAt w V k = 0 := by
  rw [positionAt, h, Option.elim_none]

theorem positionAt_of_vault_ne (h : w.strategies k = some s) (hV : s.vault ≠ V) :
    positionAt w V k = 0 := by
  rw [positionAt, h, Option.elim_some, if_neg hV]

theorem positionAt_le_deployed (w : World) (V k : Pubkey) :
    positionAt w V k ≤ deployed w V := by
  unfold deployed
  exact Finset.single_le_sum (fun j _ ↦ Nat.zero_le (positionAt w V j)) (Finset.mem_univ k)

theorem deployed_congr (h : positionAt w' V = positionAt w V) :
    deployed w' V = deployed w V := by
  unfold deployed
  rw [h]

theorem positionAt_setStrategy (w : World) (k : Pubkey) (s : Strategy) (V : Pubkey) :
    positionAt (w.setStrategy k s) V = Function.update (positionAt w V) k
      (if s.vault = V then s.positionValue.toNat else 0) := by
  funext j
  by_cases hj : j = k
  · subst hj
    rw [Function.update_self, positionAt, World.setStrategy_strategies_self, Option.elim_some]
  · rw [Function.update_of_ne hj, positionAt, positionAt,
      World.setStrategy_strategies_of_ne w s hj]

theorem deployed_setStrategy (w : World) (k : Pubkey) (s : Strategy) (V : Pubkey) :
    deployed (w.setStrategy k s) V + positionAt w V k =
      deployed w V + (if s.vault = V then s.positionValue.toNat else 0) := by
  unfold deployed
  rw [positionAt_setStrategy]
  exact sum_update_add (Finset.mem_univ k) (positionAt w V) _

/-- The books of the vault at `V` while its account holds `v`. -/
def books (w : World) (V : Pubkey) (v : Vault) : Books :=
  ⟨v.totalAssets.toNat, v.idleAssets.toNat, deployed w V⟩

/-! ## Other vaults -/

/-- The vault an instruction works on. -/
def Instruction.vault : Instruction → Option Pubkey
  | .initializeVault a _ _ => some a.vault
  | .deposit a _ => some a.vault
  | .instantWithdraw a _ => some a.vault
  | .addStrategy a _ _ => some a.vault
  | .allocate a _ => some a.vault
  | .deallocate a _ => some a.vault
  | .reportYield a _ => some a.vault
  | .harvestFees a => some a.vault
  | .removeStrategy a => some a.vault
  | .updateConfig a _ => some a.vault
  | .setActive a _ => some a.vault
  | .wallet _ _ => none

/-- The account of the vault at `V` and its strategies' positions are as before. -/
structure SameVault (V : Pubkey) (w w' : World) : Prop where
  vault : w'.vaults V = w.vaults V
  positions : positionAt w' V = positionAt w V

theorem sameVault_setVault {v : Vault} {t : Tokens} (hk : k ≠ V) :
    SameVault V w ((w.setTokens t).setVault k v) where
  vault := World.setVault_vaults_of_ne _ v hk.symm
  positions := rfl

theorem positionAt_setStrategy_of_ne (hold : positionAt w V k = 0)
    (hs : s.vault ≠ V) : positionAt (w.setStrategy k s) V = positionAt w V := by
  rw [positionAt_setStrategy, if_neg hs, ← hold, Function.update_eq_self]

theorem StrategyMoved.sameVault {a : StrategyAccounts} {v v' : Vault} {s s' : Strategy}
    (h : StrategyMoved p w a w' v v' s s') (hV : a.vault ≠ V) : SameVault V w w' where
  vault := by
    rw [h.world, World.setStrategy_vaults, World.setVault_vaults_of_ne _ _ hV.symm]
  positions := by
    have hold : positionAt w V a.strategy = 0 :=
      positionAt_of_vault_ne h.strategy (h.ofVault ▸ hV)
    rw [h.world]
    exact positionAt_setStrategy_of_ne (w := w.setVault a.vault v') hold (h.ofVault' ▸ hV)

theorem exec_sameVault {i : Env × Instruction} (h : exec p w i = .ok w')
    (hV : i.2.vault ≠ some V) : SameVault V w w' := by
  have hne : ∀ k, i.2.vault = some k → k ≠ V := fun k hk he ↦ hV (hk.trans (congrArg some he))
  cases exec_effect h with
  | initializeVault hi => exact hi.world ▸ sameVault_setVault (t := w.tokens) (hne _ rfl)
  | deposit hd => exact hd.world ▸ sameVault_setVault (hne _ rfl)
  | instantWithdraw hw => exact hw.world ▸ sameVault_setVault (hne _ rfl)
  | @addStrategy env a name protocol _ v v' hs =>
    rw [hs.world]
    refine ⟨World.setVault_vaults_of_ne _ v' (hne _ rfl).symm, ?_⟩
    exact positionAt_setStrategy_of_ne (positionAt_of_none hs.noStrategy) (hne _ rfl)
  | allocate ha => exact ha.sameVault (hne _ rfl)
  | deallocate hd => exact hd.sameVault (hne _ rfl)
  | reportYield hr => exact hr.sameVault (hne _ rfl)
  | harvestNothing => exact ⟨rfl, rfl⟩
  | harvestFees hf => exact hf.world ▸ sameVault_setVault (hne _ rfl)
  | @removeStrategy env a _ v s hr =>
    have hs : s.vault ≠ V := hr.ofVault ▸ hne _ rfl
    rw [hr.world]
    exact ⟨rfl, positionAt_setStrategy_of_ne (positionAt_of_vault_ne hr.strategy hs) hs⟩
  | updateConfig hc => exact hc.world ▸ sameVault_setVault (t := w.tokens) (hne _ rfl)
  | setActive hc => exact hc.world ▸ sameVault_setVault (t := w.tokens) (hne _ rfl)
  | wallet ht => exact ht.world ▸ ⟨rfl, rfl⟩

/-- At an initialized vault that the instruction names, all that happens is its own effect. -/
theorem exec_vaultEffect {i : Env × Instruction} {v : Vault} (h : exec p w i = .ok w')
    (hV : i.2.vault = some V) (hv : w.vaults V = some v) :
    ∃ v', w'.vaults V = some v' ∧ VaultEffect p w V i w' v v' := by
  cases exec_effect h with
  | initializeVault hi =>
    obtain rfl := Option.some_inj.mp hV
    rw [hi.noVault] at hv
    cases hv
  | deposit hd =>
    obtain rfl := Option.some_inj.mp hV
    obtain rfl := Option.some_inj.mp (hv.symm.trans hd.vault)
    exact ⟨_, hd.vault_eq, .deposit hd⟩
  | instantWithdraw hw =>
    obtain rfl := Option.some_inj.mp hV
    obtain rfl := Option.some_inj.mp (hv.symm.trans hw.vault)
    exact ⟨_, hw.vault_eq, .instantWithdraw hw⟩
  | addStrategy hs =>
    obtain rfl := Option.some_inj.mp hV
    obtain rfl := Option.some_inj.mp (hv.symm.trans hs.vault)
    exact ⟨_, hs.vault_eq, .addStrategy hs⟩
  | allocate ha =>
    obtain rfl := Option.some_inj.mp hV
    obtain rfl := Option.some_inj.mp (hv.symm.trans ha.vault)
    exact ⟨_, ha.vault_eq, .allocate ha⟩
  | deallocate hd =>
    obtain rfl := Option.some_inj.mp hV
    obtain rfl := Option.some_inj.mp (hv.symm.trans hd.vault)
    exact ⟨_, hd.vault_eq, .deallocate hd⟩
  | reportYield hr =>
    obtain rfl := Option.some_inj.mp hV
    obtain rfl := Option.some_inj.mp (hv.symm.trans hr.vault)
    exact ⟨_, hr.vault_eq, .reportYield hr⟩
  | harvestNothing =>
    obtain rfl := Option.some_inj.mp hV
    exact ⟨v, hv, .harvestNothing⟩
  | harvestFees hf =>
    obtain rfl := Option.some_inj.mp hV
    obtain rfl := Option.some_inj.mp (hv.symm.trans hf.vault)
    exact ⟨_, hf.vault_eq, .harvestFees hf⟩
  | removeStrategy hr =>
    obtain rfl := Option.some_inj.mp hV
    obtain rfl := Option.some_inj.mp (hv.symm.trans hr.vault)
    exact ⟨v, by rw [hr.world]; exact hv, .removeStrategy hr⟩
  | updateConfig hc hfee =>
    obtain rfl := Option.some_inj.mp hV
    obtain rfl := Option.some_inj.mp (hv.symm.trans hc.vault)
    exact ⟨_, hc.vault_eq, .updateConfig hc hfee⟩
  | setActive hc =>
    obtain rfl := Option.some_inj.mp hV
    obtain rfl := Option.some_inj.mp (hv.symm.trans hc.vault)
    exact ⟨_, hc.vault_eq, .setActive hc⟩
  | wallet ht => cases hV

theorem exec_vaultEffect_of {i : Env × Instruction} {v v' : Vault} (h : exec p w i = .ok w')
    (hV : i.2.vault = some V) (hv : w.vaults V = some v) (hv' : w'.vaults V = some v') :
    VaultEffect p w V i w' v v' := by
  obtain ⟨x, hx, he⟩ := exec_vaultEffect h hV hv
  obtain rfl := Option.some_inj.mp (hx.symm.trans hv')
  exact he

theorem run_vaults_of_ne {is : List (Env × Instruction)}
    (hV : ∀ i ∈ is, i.2.vault ≠ some V) : (Run.run (exec p) w is).vaults V = w.vaults V := by
  induction is generalizing w with
  | nil => rfl
  | cons i is ih =>
    have htail := ih (w := Run.advance (exec p) w i) fun j hj ↦ hV j (List.mem_cons_of_mem i hj)
    refine htail.trans ?_
    exact Run.advance_induct (I := fun x ↦ x.vaults V = w.vaults V) rfl
      fun w' h ↦ (exec_sameVault h (hV i List.mem_cons_self)).vault

/-! ## Instructions move the books -/

/-- What `lpAmount` LP tokens redeem for at `now`, before the fee. -/
def redeemable (v : Vault) (now : I64) (lpAmount : U64) : ℕ :=
  lpAmount.toNat * (v.totalAssets.toNat - remaining v now) / v.lpSupply.toNat

/-- The fee on that redemption, as the cast to `u64` leaves it. -/
def withdrawalFee (v : Vault) (now : I64) (lpAmount : U64) : ℕ :=
  redeemable v now lpAmount * v.withdrawalFeeBps.toNat / 10000 % 2 ^ 64

section Withdrawal

variable {env : Env} {a : UserAccounts} {lpAmount effectiveAssets assetsToReturn fee : U64}
  {assetsAfterFee : U64} {v v' : Vault} {burned paid : Tokens}

theorem Withdrawn.assets_eq
    (h : Withdrawn p env w a lpAmount w' v v' effectiveAssets assetsToReturn fee assetsAfterFee
      burned paid) : assetsToReturn.toNat = redeemable v env.now lpAmount := by
  have he := (effectiveTotalAssets_eq_ok.mp h.effective).2
  have hassets := (mulDiv_u64_eq_ok.mp h.assetsToReturn_ok).2
  have hlp := h.lpSupply
  -- the burned LP is part of the supply, so the share is part of the total
  have hshare : lpAmount.toNat * effectiveAssets.toNat / v.lpSupply.toNat ≤
      effectiveAssets.toNat := Proportion.floor_share_le (by omega)
  have hlt := effectiveAssets.isLt
  rw [hassets, redeemable, ← he]
  exact Nat.mod_eq_of_lt (by omega)

theorem Withdrawn.fee_eq
    (h : Withdrawn p env w a lpAmount w' v v' effectiveAssets assetsToReturn fee assetsAfterFee
      burned paid) : fee.toNat = withdrawalFee v env.now lpAmount := by
  rw [feeOf_eq_ok.mp h.fee_ok, h.assets_eq, withdrawalFee]

end Withdrawal

/-- The movement an instruction makes in the books of its vault, at `V`, read off the state
before it. -/
def Instruction.movement (w : World) (V : Pubkey) (now : I64) : Instruction → Movement
  | .deposit _ amount => .deposit amount.toNat
  | .instantWithdraw _ lpAmount => (w.vaults V).elim .still fun v ↦
    .withdraw (redeemable v now lpAmount)
      (redeemable v now lpAmount - withdrawalFee v now lpAmount)
  | .allocate _ amount => .allocate amount.toNat
  | .deallocate _ amount => .deallocate amount.toNat
  | .reportYield a newPositionValue =>
    .report (positionAt w V a.strategy) newPositionValue.toNat
  | _ => .still

def movement (w : World) (V : Pubkey) (i : Env × Instruction) : Movement :=
  if i.2.vault = some V then i.2.movement w V i.1.now else .still

theorem StrategyMoved.deployed_add {a : StrategyAccounts} {v v' : Vault} {s s' : Strategy}
    (h : StrategyMoved p w a w' v v' s s') :
    deployed w' a.vault + s.positionValue.toNat =
      deployed w a.vault + s'.positionValue.toNat := by
  have hset := deployed_setStrategy (w.setVault a.vault v') a.strategy s' a.vault
  have hold : positionAt (w.setVault a.vault v') a.vault a.strategy = s.positionValue.toNat :=
    positionAt_of_strategy h.strategy h.ofVault
  have hkept : deployed (w.setVault a.vault v') a.vault = deployed w a.vault :=
    deployed_congr rfl
  rw [hold, if_pos h.ofVault', hkept] at hset
  rw [h.world]
  exact hset

theorem StrategyMoved.position_le {a : StrategyAccounts} {v v' : Vault} {s s' : Strategy}
    (h : StrategyMoved p w a w' v v' s s') :
    s.positionValue.toNat ≤ deployed w a.vault := by
  have hle := positionAt_le_deployed w a.vault a.strategy
  rwa [positionAt_of_strategy h.strategy h.ofVault] at hle

theorem books_still {v v' : Vault} (hd : positionAt w' V = positionAt w V)
    (ht : v'.totalAssets = v.totalAssets) (hi : v'.idleAssets = v.idleAssets) :
    books w' V v' = books w V v := by
  rw [books, books, deployed_congr hd, ht, hi]

section Moves

variable {env : Env} {v v' : Vault}

theorem Deposited.moves {a : UserAccounts} {amount lpToMint feeLp lpAfterFee : U64}
    {paid minted : Tokens}
    (h : Deposited p env w a amount w' v v' lpToMint feeLp lpAfterFee paid minted) :
    (books w a.vault v).Moves (.deposit amount.toNat) (books w' a.vault v') := by
  have hdep : deployed w' a.vault = deployed w a.vault := by
    rw [h.world]
    exact deployed_congr rfl
  show books w' a.vault v' = _
  rw [books, h.total, h.idle, hdep]
  rfl

theorem Withdrawn.moves {a : UserAccounts} {lpAmount effectiveAssets assetsToReturn fee : U64}
    {assetsAfterFee : U64} {burned paid : Tokens}
    (h : Withdrawn p env w a lpAmount w' v v' effectiveAssets assetsToReturn fee assetsAfterFee
      burned paid) :
    (books w a.vault v).Moves (.withdraw (redeemable v env.now lpAmount)
      (redeemable v env.now lpAmount - withdrawalFee v env.now lpAmount))
      (books w' a.vault v') := by
  have hsplit := h.assetsAfterFee_add
  have htotal := h.total
  have hidle := h.idle
  rw [h.assets_eq] at htotal hsplit
  rw [h.fee_eq] at hsplit
  refine ⟨htotal, ?_, by rw [h.world]; exact deployed_congr rfl⟩
  show v.idleAssets.toNat = redeemable v env.now lpAmount - withdrawalFee v env.now lpAmount +
    v'.idleAssets.toNat
  omega

-- the new strategy holds nothing
theorem StrategyAdded.moves {a : StrategyAccounts} {name protocol : List U8}
    (h : StrategyAdded p env w a name protocol w' v v') :
    (books w a.vault v).Moves .still (books w' a.vault v') := by
  refine books_still ?_ (by rw [h.kept]) (by rw [h.kept])
  have hzero : positionAt w a.vault a.strategy = 0 := positionAt_of_none h.noStrategy
  rw [h.world]
  show positionAt (w.setStrategy a.strategy (newStrategy p env a v name protocol)) a.vault = _
  rw [positionAt_setStrategy, if_pos (by rfl)]
  show Function.update (positionAt w a.vault) a.strategy 0 = _
  rw [← hzero, Function.update_eq_self]

theorem Allocated.moves {a : StrategyAccounts} {amount : U64} {s s' : Strategy}
    (h : Allocated p env w a amount w' v v' s s') :
    (books w a.vault v).Moves (.allocate amount.toNat) (books w' a.vault v') := by
  have hdep := h.deployed_add
  have hpos := h.position
  refine ⟨by rw [h.kept]; rfl, h.idle, ?_⟩
  show deployed w' a.vault = deployed w a.vault + amount.toNat
  omega

theorem Deallocated.moves {a : StrategyAccounts} {amount : U64} {s s' : Strategy}
    (h : Deallocated p env w a amount w' v v' s s') :
    (books w a.vault v).Moves (.deallocate amount.toNat) (books w' a.vault v') := by
  have hdep := h.deployed_add
  have hpos := h.position
  refine ⟨by rw [h.kept]; rfl, h.idle, ?_⟩
  show deployed w a.vault = amount.toNat + deployed w' a.vault
  omega

theorem YieldReported.moves {a : StrategyAccounts} {newValue : U64} {s s' : Strategy}
    (h : YieldReported p env w a newValue w' v v' s s') :
    (books w a.vault v).Moves (.report (positionAt w a.vault a.strategy) newValue.toNat)
      (books w' a.vault v') := by
  have hdep := h.deployed_add
  rw [h.position] at hdep
  rw [positionAt_of_strategy h.strategy h.ofVault]
  refine ⟨h.position_le, hdep, ?_, ?_⟩
  · rcases bookYield_eq_ok h.booked with ⟨-, hb⟩ | ⟨-, hb⟩
    · rw [books, hb.kept]
      rfl
    · rw [books, hb.kept]
      rfl
  · show v'.totalAssets.toNat = v.totalAssets.toNat +
      (newValue.toNat - s.positionValue.toNat) - (s.positionValue.toNat - newValue.toNat)
    rcases bookYield_eq_ok h.booked with ⟨hlt, hb⟩ | ⟨hle, hb⟩
    · have htotal := hb.total
      omega
    · have htotal := hb.total
      omega

theorem StrategyRemoved.moves {a : StrategyAccounts} {s : Strategy}
    (h : StrategyRemoved p w a w' v s) :
    (books w a.vault v).Moves .still (books w' a.vault v) := by
  refine books_still ?_ rfl rfl
  have hpos := positionAt_of_strategy h.strategy h.ofVault
  rw [h.world, positionAt_setStrategy, if_pos h.ofVault, ← hpos, Function.update_eq_self]

end Moves

/-- The account of a vault stays, and its books make the movement of the instruction. -/
theorem exec_moves {i : Env × Instruction} {v : Vault} (h : exec p w i = .ok w')
    (hv : w.vaults V = some v) :
    ∃ v', w'.vaults V = some v' ∧ (books w V v).Moves (movement w V i) (books w' V v') := by
  by_cases hV : i.2.vault = some V
  · obtain ⟨v', hv', he⟩ := exec_vaultEffect h hV hv
    refine ⟨v', hv', ?_⟩
    rw [movement, if_pos hV]
    cases he with
    | deposit hd => exact hd.moves
    | @instantWithdraw env a lpAmount _ _ _ _ _ _ _ _ _ hw =>
      show Books.Moves _ ((w.vaults a.vault).elim _ _) _
      rw [hv]
      exact hw.moves
    | addStrategy hs => exact hs.moves
    | allocate ha => exact ha.moves
    | deallocate hd => exact hd.moves
    | reportYield hr => exact hr.moves
    | harvestNothing => exact rfl
    | harvestFees hf =>
      exact books_still (by rw [hf.world]; rfl) (by rw [hf.kept]) (by rw [hf.kept])
    | removeStrategy hr => exact hr.moves
    | updateConfig hc => exact books_still (by rw [hc.world]; rfl) rfl rfl
    | setActive hc => exact books_still (by rw [hc.world]; rfl) rfl rfl
  · have hsame := exec_sameVault h hV
    rw [movement, if_neg hV]
    exact ⟨v, hsame.vault.trans hv, books_still hsame.positions rfl rfl⟩

/-- Unless it initializes its vault, an instruction finds one and leaves one. -/
theorem exec_named {i : Env × Instruction} (h : exec p w i = .ok w') (hV : i.2.vault = some V) :
    (∃ v v', w.vaults V = some v ∧ w'.vaults V = some v') ∨
      ∃ env a name config, i = (env, .initializeVault a name config) := by
  have hfound : ∀ {k v}, i.2.vault = some k → w.vaults k = some v →
      ∃ v v', w.vaults V = some v ∧ w'.vaults V = some v' := by
    intro k v hk hv
    rw [Option.some_inj.mp (hk.symm.trans hV)] at hv
    obtain ⟨v', hv', -⟩ := exec_moves h hv
    exact ⟨v, v', hv, hv'⟩
  cases exec_effect h with
  | initializeVault hi => exact Or.inr ⟨_, _, _, _, rfl⟩
  | deposit hd => exact Or.inl (hfound rfl hd.vault)
  | instantWithdraw hx => exact Or.inl (hfound rfl hx.vault)
  | addStrategy hs => exact Or.inl (hfound rfl hs.vault)
  | allocate ha => exact Or.inl (hfound rfl ha.vault)
  | deallocate hd => exact Or.inl (hfound rfl hd.vault)
  | reportYield hr => exact Or.inl (hfound rfl hr.vault)
  | harvestNothing =>
    obtain ⟨v, hv, -⟩ := harvestFees_admin h
    exact Or.inl (hfound rfl hv)
  | harvestFees hf => exact Or.inl (hfound rfl hf.vault)
  | removeStrategy hr => exact Or.inl (hfound rfl hr.vault)
  | updateConfig hc => exact Or.inl (hfound rfl hc.vault)
  | setActive hc => exact Or.inl (hfound rfl hc.vault)
  | wallet ht => cases hV

/-! ## What becomes of a vault's account -/

/-- How an instruction may rewrite the account of an initialized vault. -/
inductive VaultStep : Instruction → Vault → Vault → Prop
  /-- All but two instructions leave the keys, the lock and the configuration alone. -/
  | counters {i : Instruction} {v v' : Vault} (kept : v' = { v with
      totalAssets := v'.totalAssets
      idleAssets := v'.idleAssets
      lpSupply := v'.lpSupply
      highWaterMark := v'.highWaterMark
      lastFeeHarvestTs := v'.lastFeeHarvestTs
      numStrategies := v'.numStrategies
      accumulatedFees := v'.accumulatedFees
      isActive := v'.isActive })
    (noReport : ∀ a value, i ≠ .reportYield a value)
    (noConfig : ∀ a config, i ≠ .updateConfig a config) : VaultStep i v v'
  | report {a : StrategyAccounts} {value : U64} {v v' : Vault} (kept : v' = { v with
      totalAssets := v'.totalAssets
      lockedProfit := v'.lockedProfit
      lockedProfitTs := v'.lockedProfitTs }) : VaultStep (.reportYield a value) v v'
  | config {a : ConfigAccounts} {config : VaultConfig} {v : Vault} :
    VaultStep (.updateConfig a config) v (v.withConfig config)

-- at the vault the instruction names; `exec_sameVault` covers the others
theorem exec_vaultStep {i : Env × Instruction} {v v' : Vault} (h : exec p w i = .ok w')
    (hV : i.2.vault = some V) (hv : w.vaults V = some v) (hv' : w'.vaults V = some v') :
    VaultStep i.2 v v' := by
  cases exec_vaultEffect_of h hV hv hv' with
  | deposit hd => exact .counters (by rw [hd.kept]) nofun nofun
  | instantWithdraw hw => exact .counters (by rw [hw.kept]) nofun nofun
  | addStrategy hs => exact .counters (by rw [hs.kept]) nofun nofun
  | allocate ha => exact .counters (by rw [ha.kept]) nofun nofun
  | deallocate hd => exact .counters (by rw [hd.kept]) nofun nofun
  | reportYield hr =>
    rcases bookYield_eq_ok hr.booked with ⟨-, hb⟩ | ⟨-, hb⟩
    · exact .report (by rw [hb.kept])
    · exact .report (by rw [hb.kept])
  | harvestNothing => exact .counters rfl nofun nofun
  | harvestFees hf => exact .counters (by rw [hf.kept]) nofun nofun
  | removeStrategy hr => exact .counters rfl nofun nofun
  | updateConfig hc => exact .config
  | setActive hc => exact .counters rfl nofun nofun

/-- The keys of a vault never change. -/
structure SameKeys (v v' : Vault) : Prop where
  admin : v'.admin = v.admin
  manager : v'.manager = v.manager
  assetMint : v'.assetMint = v.assetMint
  lpMint : v'.lpMint = v.lpMint
  vaultAssetAccount : v'.vaultAssetAccount = v.vaultAssetAccount

theorem VaultStep.sameKeys {i : Instruction} {v v' : Vault} (h : VaultStep i v v') :
    SameKeys v v' := by
  cases h with
  | counters kept => exact ⟨by rw [kept], by rw [kept], by rw [kept], by rw [kept], by rw [kept]⟩
  | report kept => exact ⟨by rw [kept], by rw [kept], by rw [kept], by rw [kept], by rw [kept]⟩
  | config => exact ⟨rfl, rfl, rfl, rfl, rfl⟩

theorem exec_sameKeys {i : Env × Instruction} {v v' : Vault} (h : exec p w i = .ok w')
    (hv : w.vaults V = some v) (hv' : w'.vaults V = some v') : SameKeys v v' := by
  by_cases hV : i.2.vault = some V
  · exact (exec_vaultStep h hV hv hv').sameKeys
  · rw [(exec_sameVault h hV).vault, hv, Option.some_inj] at hv'
    exact hv' ▸ ⟨rfl, rfl, rfl, rfl, rfl⟩

/-! ## Vaults appear empty -/

/-- Every strategy belongs to an initialized vault. -/
def Homed (w : World) : Prop := ∀ k s, w.strategies k = some s → (w.vaults s.vault).isSome

theorem Homed.deployed_eq_zero (h : Homed w) (hV : w.vaults V = none) : deployed w V = 0 := by
  unfold deployed
  apply Finset.sum_eq_zero
  intro k _
  cases hk : w.strategies k with
  | none => exact positionAt_of_none hk
  | some s =>
    apply positionAt_of_vault_ne hk
    intro he
    have hs := h k s hk
    rw [he, hV] at hs
    cases hs

theorem homed_setStrategy (h : Homed w) (hs : (w.vaults s.vault).isSome) :
    Homed (w.setStrategy k s) := by
  intro j x hx
  by_cases hj : j = k
  · subst hj
    rw [World.setStrategy_strategies_self, Option.some_inj] at hx
    exact hx ▸ hs
  · rw [World.setStrategy_strategies_of_ne w s hj] at hx
    exact h j x hx

theorem homed_of_vaults (h : Homed w) (hs : w'.strategies = w.strategies)
    (hv : ∀ V, (w.vaults V).isSome → (w'.vaults V).isSome) : Homed w' := by
  intro k x hx
  rw [hs] at hx
  exact hv _ (h k x hx)

theorem exec_vaults_isSome {i : Env × Instruction} (h : exec p w i = .ok w')
    (hV : (w.vaults V).isSome) : (w'.vaults V).isSome := by
  obtain ⟨v, hv⟩ := Option.isSome_iff_exists.mp hV
  obtain ⟨v', hv', -⟩ := exec_moves h hv
  rw [hv']
  rfl

theorem run_sameKeys {w : World} {v : Vault} (hv : w.vaults V = some v)
    (is : List (Env × Instruction)) :
    ∃ v', (Run.run (exec p) w is).vaults V = some v' ∧ SameKeys v v' := by
  refine Run.run_invariant (I := fun w : World ↦ ∃ v', w.vaults V = some v' ∧ SameKeys v v') ?_
    ⟨v, hv, rfl, rfl, rfl, rfl, rfl⟩ is
  intro w₁ i w₂ h₁ hx
  obtain ⟨v₁, hv₁, hk₁⟩ := h₁
  obtain ⟨v₂, hv₂, -⟩ := exec_moves hx hv₁
  have hk₂ := exec_sameKeys hx hv₁ hv₂
  exact ⟨v₂, hv₂, hk₂.admin.trans hk₁.admin, hk₂.manager.trans hk₁.manager,
    hk₂.assetMint.trans hk₁.assetMint, hk₂.lpMint.trans hk₁.lpMint,
    hk₂.vaultAssetAccount.trans hk₁.vaultAssetAccount⟩

theorem StrategyMoved.strategies_eq {a : StrategyAccounts} {v v' : Vault} {s s' : Strategy}
    (h : StrategyMoved p w a w' v v' s s') :
    ∃ k s, (w.vaults s.vault).isSome ∧ w'.strategies = (w.setStrategy k s).strategies := by
  refine ⟨a.strategy, s', ?_, by rw [h.world]; rfl⟩
  rw [h.ofVault', h.vault]
  rfl

/-- A step changes at most one strategy, to one of an initialized vault. -/
theorem exec_strategies {i : Env × Instruction} (h : exec p w i = .ok w') :
    w'.strategies = w.strategies ∨ ∃ k s, (w.vaults s.vault).isSome ∧
      w'.strategies = (w.setStrategy k s).strategies := by
  cases exec_effect h with
  | initializeVault hi => exact Or.inl (hi.world ▸ rfl)
  | deposit hd => exact Or.inl (hd.world ▸ rfl)
  | instantWithdraw hw => exact Or.inl (hw.world ▸ rfl)
  | @addStrategy env a name protocol _ v _ hs =>
    refine Or.inr ⟨a.strategy, newStrategy p env a v name protocol, ?_, by rw [hs.world]; rfl⟩
    show (w.vaults a.vault).isSome
    rw [hs.vault]
    rfl
  | allocate ha => exact Or.inr ha.strategies_eq
  | deallocate hd => exact Or.inr hd.strategies_eq
  | reportYield hr => exact Or.inr hr.strategies_eq
  | harvestNothing => exact Or.inl rfl
  | harvestFees hf => exact Or.inl (hf.world ▸ rfl)
  | @removeStrategy _ a _ v s hr =>
    refine Or.inr ⟨a.strategy, { s with isActive := false }, ?_, by rw [hr.world]⟩
    rw [hr.ofVault, hr.vault]
    rfl
  | updateConfig hc => exact Or.inl (hc.world ▸ rfl)
  | setActive hc => exact Or.inl (hc.world ▸ rfl)
  | wallet ht => exact Or.inl (ht.world ▸ rfl)

theorem exec_homed {i : Env × Instruction} (hw : Homed w) (h : exec p w i = .ok w') :
    Homed w' := by
  rcases exec_strategies h with hs | ⟨k, s, hsome, hs⟩
  · exact homed_of_vaults hw hs fun V hV ↦ exec_vaults_isSome h hV
  · exact homed_of_vaults (homed_setStrategy (k := k) hw hsome) hs
      fun V hV ↦ exec_vaults_isSome h hV

-- the only way to a new vault
theorem exec_initializeVault {i : Env × Instruction} {v' : Vault} (h : exec p w i = .ok w')
    (hV : w.vaults V = none) (hv' : w'.vaults V = some v') :
    ∃ env a name config, i = (env, .initializeVault a name config) ∧
      VaultInitialized p env w a name config w' ∧ a.vault = V ∧
      v' = newVault p env a name config := by
  have hvault : i.2.vault = some V := by
    by_contra hne
    rw [(exec_sameVault h hne).vault, hV] at hv'
    cases hv'
  have hgone : ∀ {k v}, i.2.vault = some k → w.vaults k ≠ some v := by
    intro k v hk hv
    rw [← Option.some_inj.mp (hk.symm.trans hvault)] at hV
    rw [hV] at hv
    cases hv
  cases exec_effect h with
  | @initializeVault env a name config _ hi =>
    obtain rfl := Option.some_inj.mp hvault
    rw [hi.world, World.setVault_vaults_self, Option.some_inj] at hv'
    exact ⟨env, a, name, config, rfl, hi, rfl, hv'.symm⟩
  | deposit hd => exact absurd hd.vault (hgone rfl)
  | instantWithdraw hx => exact absurd hx.vault (hgone rfl)
  | addStrategy hs => exact absurd hs.vault (hgone rfl)
  | allocate ha => exact absurd ha.vault (hgone rfl)
  | deallocate hd => exact absurd hd.vault (hgone rfl)
  | reportYield hr => exact absurd hr.vault (hgone rfl)
  | harvestNothing =>
    rw [hV] at hv'
    cases hv'
  | harvestFees hf => exact absurd hf.vault (hgone rfl)
  | removeStrategy hr => exact absurd hr.vault (hgone rfl)
  | updateConfig hc => exact absurd hc.vault (hgone rfl)
  | setActive hc => exact absurd hc.vault (hgone rfl)
  | wallet ht => cases hvault

theorem exec_initializes {i : Env × Instruction} {v' : Vault} (h : exec p w i = .ok w')
    (hV : w.vaults V = none) (hv' : w'.vaults V = some v') :
    ∃ env a name config, VaultInitialized p env w a name config w' ∧ a.vault = V ∧
      v' = newVault p env a name config := by
  obtain ⟨env, a, name, config, -, hi, hnew⟩ := exec_initializeVault h hV hv'
  exact ⟨env, a, name, config, hi, hnew⟩

/-- A property every vault has is kept exactly when the vault the instruction names keeps it. -/
theorem forall_vaults_step {P : Vault → Prop} {C : Prop} {i : Env × Instruction}
    (hw : ∀ V v, w.vaults V = some v → P v) (h : exec p w i = .ok w')
    (hnone : i.2.vault = none → C)
    (hnew : ∀ V v', i.2.vault = some V → w.vaults V = none → w'.vaults V = some v' → (P v' ↔ C))
    (hnamed : ∀ V v v', i.2.vault = some V → w.vaults V = some v → w'.vaults V = some v' →
      (P v' ↔ C)) : (∀ V v, w'.vaults V = some v → P v) ↔ C := by
  have hat : ∀ V v', i.2.vault = some V → w'.vaults V = some v' → (P v' ↔ C) := by
    intro V v' hV hv'
    cases hv : w.vaults V with
    | none => exact hnew V v' hV hv hv'
    | some v => exact hnamed V v v' hV hv hv'
  apply Iff.intro
  · intro hw'
    cases hV : i.2.vault with
    | none => exact hnone hV
    | some V =>
      rcases exec_named h hV with ⟨v, v', -, hv'⟩ | ⟨env, a, name, config, rfl⟩
      · exact (hat V v' hV hv').mp (hw' V v' hv')
      · have hi := initializeVault_eq_ok h
        have hv' : w'.vaults a.vault = some (newVault p env a name config) := by
          rw [hi.world, World.setVault_vaults_self]
        exact (hat a.vault _ rfl hv').mp (hw' a.vault _ hv')
  · intro hC V v' hv'
    by_cases hV : i.2.vault = some V
    · exact (hat V v' hV hv').mpr hC
    · rw [(exec_sameVault h hV).vault] at hv'
      exact hw V v' hv'

/-- The books of a vault open at zero. -/
theorem exec_opens {i : Env × Instruction} {v' : Vault} (hw : Homed w) (h : exec p w i = .ok w')
    (hV : w.vaults V = none) (hv' : w'.vaults V = some v') : books w' V v' = ⟨0, 0, 0⟩ := by
  obtain ⟨env, a, name, config, hi, -, rfl⟩ := exec_initializes h hV hv'
  have hdep : deployed w' V = 0 := by
    rw [← hw.deployed_eq_zero hV, hi.world]
    exact deployed_congr rfl
  rw [books, hdep]
  rfl

theorem Genesis.homed (h : Genesis p w) : Homed w := by
  intro k s hk
  rw [h.strategies] at hk
  cases hk

-- a run that only names the sample vault makes no other
theorem sample_vault_of_isSome {is : List (Env × Instruction)} {U : Pubkey}
    (hnamed : ∀ i ∈ is, i.2.vault = none ∨ i.2.vault = some Sample.vault)
    (hU : ((Run.run (exec sampleAddresses) Sample.empty is).vaults U).isSome) :
    U = Sample.vault := by
  by_contra hne
  have hgone : (Run.run (exec sampleAddresses) Sample.empty is).vaults U = none := by
    rw [run_vaults_of_ne]
    · rfl
    · intro i hi he
      rcases hnamed i hi with hn | hn
      · rw [hn] at he
        cases he
      · rw [hn, Option.some_inj] at he
        exact hne he.symm
  rw [hgone] at hU
  cases hU

end VaultProgram
