import CrossFluf.Vault.FeeHarvest

/-!
# The high water mark

A harvest that charges a gain raises the mark to the ratio it charged, and nothing lowers it, so
all the gains charged in a run fit under the last mark.
-/

namespace VaultProgram

open Machine Solana Outcome Run

variable {p : ProgramAddresses} {env : Env} {w w' : World} {V : Pubkey} {v v' : Vault}
  {now : I64} {a : HarvestFeesAccounts}

/-- The mark of the vault at `V`; vaults start with a ratio of one. -/
def highWaterMarkOf (V : Pubkey) (w : World) : ℕ :=
  (w.vaults V).elim PRECISION.toNat fun v ↦ v.highWaterMark.toNat

/-- The gain in the ratio a harvest charges: all of it over the mark, if there is a performance
fee. -/
def chargedGain (v : Vault) (now : I64) : ℕ :=
  match harvestedFees v now with
  | .ok (_, performanceFee) =>
    if 0 < performanceFee.toNat then ratioOf v (v.effective now) - v.highWaterMark.toNat else 0
  | .error _ => 0

def Instruction.chargedGain (v : Vault) (now : I64) : Instruction → ℕ
  | .harvestFees _ => VaultProgram.chargedGain v now
  | _ => 0

/-- The same for the vault at `V`. -/
def chargedGainOf (V : Pubkey) (w : World) (i : Env × Instruction) : ℕ :=
  if i.2.vault = some V then (w.vaults V).elim 0 fun v ↦ i.2.chargedGain v i.1.now else 0

/-! ## One step -/

theorem highWaterMarkOf_of_vault (hv : w.vaults V = some v) :
    highWaterMarkOf V w = v.highWaterMark.toNat := by
  rw [highWaterMarkOf, hv, Option.elim_some]

theorem highWaterMarkOf_of_none (hv : w.vaults V = none) :
    highWaterMarkOf V w = PRECISION.toNat := by
  rw [highWaterMarkOf, hv, Option.elim_none]

-- a harvest without a fee returns early and leaves the mark alone, but then it charges nothing
theorem harvestFees_highWaterMark (h : harvestFees p env w a = .ok w')
    (hv : w.vaults a.vault = some v) (hv' : w'.vaults a.vault = some v') :
    v.highWaterMark.toNat + chargedGain v env.now ≤ v'.highWaterMark.toNat := by
  obtain ⟨x, elapsed, e, m, r, f, t, hx, hc, hcase⟩ := harvestFees_computed h
  obtain rfl := Option.some_inj.mp (hv.symm.trans hx)
  rw [chargedGain, hc.harvested, ← hc.ratio_eq]
  have hsum := hc.total_add
  rcases hcase with ⟨hz, rfl⟩ | ⟨-, y, feeLp, minted, ht⟩
  · obtain rfl := Option.some_inj.mp (hv.symm.trans hv')
    have hnone : t.toNat = 0 := by rw [hz]; rfl
    show v.highWaterMark.toNat + (if 0 < f.toNat then _ else 0) ≤ v.highWaterMark.toNat
    rw [if_neg (by omega), Nat.add_zero]
  · obtain rfl := Option.some_inj.mp (hv'.symm.trans ht.vault_eq)
    have hmark := ht.highWaterMark
    show v.highWaterMark.toNat + (if 0 < f.toNat then _ else 0) ≤ _
    split
    · omega
    · omega

theorem exec_highWaterMark {i : Env × Instruction} (h : exec p w i = .ok w') (V : Pubkey) :
    highWaterMarkOf V w + chargedGainOf V w i ≤ highWaterMarkOf V w' := by
  rw [chargedGainOf]
  by_cases hV : i.2.vault = some V
  · rw [if_pos hV]
    cases hv : w.vaults V with
    | none =>
      rw [Option.elim_none, Nat.add_zero, highWaterMarkOf_of_none hv]
      cases hv' : w'.vaults V with
      | none => exact (highWaterMarkOf_of_none hv').ge
      | some v' =>
        obtain ⟨env, a, name, config, -, -, rfl⟩ := exec_initializes h hv hv'
        exact (highWaterMarkOf_of_vault hv').ge
    | some v =>
      obtain ⟨v', hv', heffect⟩ := exec_vaultEffect h hV hv
      rw [Option.elim_some, highWaterMarkOf_of_vault hv, highWaterMarkOf_of_vault hv']
      cases heffect with
      | harvestNothing => exact harvestFees_highWaterMark h hv hv'
      | harvestFees hf => exact harvestFees_highWaterMark h hv hv'
      | deposit hd => exact (congrArg (fun x ↦ x.highWaterMark.toNat) hd.kept).ge
      | instantWithdraw hx => exact (congrArg (fun x ↦ x.highWaterMark.toNat) hx.kept).ge
      | addStrategy hs => exact (congrArg (fun x ↦ x.highWaterMark.toNat) hs.kept).ge
      | allocate ha => exact (congrArg (fun x ↦ x.highWaterMark.toNat) ha.kept).ge
      | deallocate hd => exact (congrArg (fun x ↦ x.highWaterMark.toNat) hd.kept).ge
      | reportYield hr =>
        rcases bookYield_eq_ok hr.booked with ⟨-, hb⟩ | ⟨-, hb⟩
        · exact (congrArg (fun x ↦ x.highWaterMark.toNat) hb.kept).ge
        · exact (congrArg (fun x ↦ x.highWaterMark.toNat) hb.kept).ge
      | removeStrategy hr => exact le_rfl
      | updateConfig hc => exact le_rfl
      | setActive hc => exact le_rfl
  · rw [if_neg hV, Nat.add_zero, highWaterMarkOf, highWaterMarkOf,
      (exec_sameVault h hV).vault]

/-! ## Twice at one time -/

section Computed

variable {elapsed elapsed' : I64} {e m f t feeLp e' m' f' t' : U64} {r r' : U128}
  {minted : Tokens}

theorem FeesComputed.total_unique (h : FeesComputed v now elapsed e m r f t)
    (h' : FeesComputed v now elapsed' e' m' r' f' t') : t = t' := by
  have hsame := h.harvested.symm.trans h'.harvested
  rw [Except.ok.injEq, Prod.mk.injEq] at hsame
  apply BitVec.eq_of_toNat_eq
  rw [h.total_add, h'.total_add, hsame.1, hsame.2]

theorem ratioOf_of_pos {n : ℕ} (hL : 0 < v.lpSupply.toNat) :
    ratioOf v n = n * PRECISION.toNat / v.lpSupply.toNat := by
  rw [ratioOf, if_neg (by omega)]

/-- The fee's own LP tokens only lower the ratio, which is under the new mark. -/
theorem FeesTaken.ratio_le (h : FeesTaken p env w a v v' e t r feeLp minted w')
    (hc : FeesComputed v env.now elapsed e m r f t) (hL : 0 < v.lpSupply.toNat) :
    ratioOf v' (v'.effective env.now) ≤ v'.highWaterMark.toNat := by
  have hsupply := h.lpSupply
  calc
    ratioOf v' (v'.effective env.now) =
        v.effective env.now * PRECISION.toNat / v'.lpSupply.toNat := by
      rw [ratioOf_of_pos (by omega), h.effective_eq]
    _ ≤ v.effective env.now * PRECISION.toNat / v.lpSupply.toNat :=
      Nat.div_le_div_left (by omega) hL
    _ = r.toNat := by rw [hc.ratio_eq, ratioOf_of_pos hL]
    _ ≤ v'.highWaterMark.toNat := by
      rw [h.highWaterMark]
      exact le_max_right _ _

-- no time has passed and nothing is over the mark
theorem FeesTaken.nothing_left (h : FeesTaken p env w a v v' e t r feeLp minted w')
    (hc : FeesComputed v env.now elapsed e m r f t) (hL : 0 < v.lpSupply.toNat)
    (hc' : FeesComputed v' env.now elapsed' e' m' r' f' t') : t' = 0 := by
  have hts : v'.lastFeeHarvestTs = env.now := by rw [h.kept]
  have helapsed : (i64AsU64 elapsed').toNat = 0 := by
    have hsub := hc'.elapsed_ok
    rw [hts, checkedSubI64_self, Option.some_inj] at hsub
    rw [← hsub]
    rfl
  have hmanagement : m'.toNat = 0 := by
    rw [managementFeeFor_eq_ok hc'.management_ok, helapsed, managementQuotient, Nat.mul_zero,
      Nat.zero_div, Nat.zero_mod]
  have hperformance : f'.toNat = 0 := by
    rw [hc'.performance_eq, performanceQuotient, Nat.sub_eq_zero_of_le (h.ratio_le hc hL),
      Nat.zero_mul, Nat.zero_div, Nat.zero_mul, Nat.zero_div, Nat.zero_mod]
  apply BitVec.eq_of_toNat_eq
  rw [hc'.total_add, hmanagement, hperformance]
  rfl

end Computed

/-- Whoever harvests again at the same time, and with whatever accounts, changes nothing. -/
theorem harvestFees_again {env' : Env} {a' : HarvestFeesAccounts} {w'' : World}
    (h : harvestFees p env w a = .ok w') (hv : w.vaults a.vault = some v)
    (hL : 0 < v.lpSupply.toNat) (hnow : env'.now = env.now) (ha : a'.vault = a.vault)
    (h' : harvestFees p env' w' a' = .ok w'') : w'' = w' := by
  obtain ⟨x, elapsed, e, m, r, f, t, hx, hc, hcase⟩ := harvestFees_computed h
  obtain rfl := Option.some_inj.mp (hv.symm.trans hx)
  obtain ⟨y, elapsed', e', m', r', f', t', hy, hc', hcase'⟩ := harvestFees_computed h'
  rw [hnow] at hc'
  rw [ha] at hy
  have hzero : t' = 0 := by
    rcases hcase with ⟨hz, rfl⟩ | ⟨-, v', feeLp, minted, ht⟩
    · obtain rfl := Option.some_inj.mp (hv.symm.trans hy)
      rw [← hc.total_unique hc', hz]
    · obtain rfl := Option.some_inj.mp (hy.symm.trans ht.vault_eq)
      exact ht.nothing_left hc hL hc'
  rcases hcase' with ⟨-, hsame⟩ | ⟨hne, -⟩
  · exact hsame
  · exact absurd hzero hne

/-! ## Runs -/

/-- Along a run the mark never falls; the gains the run's harvests charge add up to no more than
the mark has risen; and a second harvest at the time of a first leaves everything as the first
left it. -/
theorem gainsChargedOnce (hw : Genesis p w) (is : List (Env × Instruction)) :
    (∀ V is₁ is₂, is = is₁ ++ is₂ →
      highWaterMarkOf V (run (exec p) w is₁) ≤ highWaterMarkOf V (run (exec p) w is)) ∧
    (∀ V, tally (exec p) (chargedGainOf V) w is ≤
      highWaterMarkOf V (run (exec p) w is) - PRECISION.toNat ∧
        PRECISION.toNat ≤ highWaterMarkOf V (run (exec p) w is)) ∧
    ∀ env a v w₁, (run (exec p) w is).vaults a.vault = some v → 0 < v.lpSupply.toNat →
      exec p (run (exec p) w is) (env, .harvestFees a) = .ok w₁ →
        ∀ env' a', env'.now = env.now → a'.vault = a.vault →
          advance (exec p) w₁ (env', .harvestFees a') = w₁ := by
  have hrises : ∀ V w is, highWaterMarkOf V w + tally (exec p) (chargedGainOf V) w is ≤
      highWaterMarkOf V (run (exec p) w is) := by
    intro V w is
    have htrue : Always (exec p) (fun _ ↦ True) w is :=
      always_of_invariant (fun _ _ _ _ _ ↦ trivial) trivial is
    exact (htrue.eachStep fun _ _ _ _ h ↦ exec_highWaterMark h V).tally_le
  refine ⟨?_, ?_, ?_⟩
  · intro V is₁ is₂ he
    have hrest := hrises V (run (exec p) w is₁) is₂
    rw [he, run_append]
    omega
  · intro V
    have hall := hrises V w is
    rw [highWaterMarkOf_of_none (hw.vaults V)] at hall
    omega
  · intro env a v w₁ hv hL h env' a' hnow ha
    exact advance_induct (I := fun x ↦ x = w₁) rfl
      fun w₂ h₂ ↦ harvestFees_again h hv hL hnow ha h₂

/-- The gain of a tenth is charged after a year, and then no more of it. -/
theorem gainsChargedOnce_yearly :
    tally (exec sampleAddresses) (chargedGainOf Sample.vault) Sample.empty
        (earnedRun ++ [yearlyHarvest]) ≤
      highWaterMarkOf Sample.vault (run (exec sampleAddresses) Sample.empty
        (earnedRun ++ [yearlyHarvest])) - PRECISION.toNat ∧
    advance (exec sampleAddresses) harvestedWorld yearlyHarvest = harvestedWorld := by
  have hok : (exec sampleAddresses earnedWorld yearlyHarvest).isOk = true := by decide +kernel
  have hvault : (earnedWorld.vaults Sample.vault).map (fun v ↦ v.lpSupply.toNat) =
      some 1000 := by
    decide +kernel
  rw [Option.map_eq_some_iff] at hvault
  obtain ⟨v, hv, hsupply⟩ := hvault
  obtain ⟨-, hgains, -⟩ := gainsChargedOnce Sample.genesis (earnedRun ++ [yearlyHarvest])
  obtain ⟨-, -, hagain⟩ := gainsChargedOnce Sample.genesis earnedRun
  refine ⟨(hgains Sample.vault).1, ?_⟩
  exact hagain (Sample.clock 31536000) harvestAccounts v _ hv (by rw [hsupply]; decide)
    (eq_ok_advance hok) _ _ rfl rfl

end VaultProgram
