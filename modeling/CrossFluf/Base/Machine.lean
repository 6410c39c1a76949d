import Mathlib.Data.BitVec
import Mathlib.Tactic

/-!
# Fixed-width integers as Rust computes them

Unsigned integers are bit vectors and signed 64-bit ones are `Int64`.  Each checked, saturating
or wrapping operation comes with one lemma that reads it in `ℕ` (or `ℤ`), so a proof about a
program never looks at bits.
-/

namespace Machine

abbrev U8 := BitVec 8
abbrev U16 := BitVec 16
abbrev U64 := BitVec 64
abbrev U128 := BitVec 128
abbrev I64 := Int64

variable {w : Nat}

/-! ## Checked operations -/

def checkedAdd (a b : BitVec w) : Option (BitVec w) :=
  if a.toNat + b.toNat < 2 ^ w then some (a + b) else none

def checkedSub (a b : BitVec w) : Option (BitVec w) :=
  if b.toNat ≤ a.toNat then some (a - b) else none

def checkedMul (a b : BitVec w) : Option (BitVec w) :=
  if a.toNat * b.toNat < 2 ^ w then some (a * b) else none

def checkedDiv (a b : BitVec w) : Option (BitVec w) :=
  if b = 0 then none else some (a / b)

theorem sub_toNat_of_le {a b : BitVec w} (h : b.toNat ≤ a.toNat) :
    (a - b).toNat = a.toNat - b.toNat :=
  BitVec.toNat_sub_of_le (BitVec.le_def.mpr h)

theorem checkedAdd_eq_some {a b c : BitVec w} :
    checkedAdd a b = some c ↔ c.toNat = a.toNat + b.toNat := by
  unfold checkedAdd
  have hc := c.isLt
  split
  · rename_i hlt
    have hsum : (a + b).toNat = a.toNat + b.toNat := by
      rw [BitVec.toNat_add, Nat.mod_eq_of_lt hlt]
    rw [Option.some_inj, ← BitVec.toNat_inj, hsum]
    exact eq_comm
  · simp only [reduceCtorEq, false_iff]
    omega

theorem checkedSub_eq_some {a b c : BitVec w} :
    checkedSub a b = some c ↔ a.toNat = b.toNat + c.toNat := by
  unfold checkedSub
  split
  · rename_i hle
    rw [Option.some_inj, ← BitVec.toNat_inj, sub_toNat_of_le hle]
    omega
  · simp only [reduceCtorEq, false_iff]
    omega

theorem checkedMul_eq_some {a b c : BitVec w} :
    checkedMul a b = some c ↔ c.toNat = a.toNat * b.toNat := by
  unfold checkedMul
  have hc := c.isLt
  split
  · rename_i hlt
    have hprod : (a * b).toNat = a.toNat * b.toNat := by
      rw [BitVec.toNat_mul, Nat.mod_eq_of_lt hlt]
    rw [Option.some_inj, ← BitVec.toNat_inj, hprod]
    exact eq_comm
  · simp only [reduceCtorEq, false_iff]
    omega

theorem checkedDiv_eq_some {a b c : BitVec w} :
    checkedDiv a b = some c ↔ b.toNat ≠ 0 ∧ c.toNat = a.toNat / b.toNat := by
  unfold checkedDiv
  have hb : b = 0 ↔ b.toNat = 0 := by
    rw [← BitVec.toNat_inj]
    simp
  by_cases h : b = 0
  · rw [if_pos h]
    simp only [reduceCtorEq, false_iff, not_and]
    exact fun hne ↦ absurd (hb.mp h) hne
  · rw [if_neg h, Option.some_inj, ← BitVec.toNat_inj, BitVec.toNat_udiv]
    constructor
    · exact fun he ↦ ⟨fun hz ↦ h (hb.mpr hz), he.symm⟩
    · exact fun he ↦ he.2.symm

theorem isSome_checkedAdd {a b : BitVec w} :
    (∃ c, checkedAdd a b = some c) ↔ a.toNat + b.toNat < 2 ^ w := by
  unfold checkedAdd
  split <;> simp_all

/-! ## Saturating operations -/

def saturatingAdd (a b : BitVec w) : BitVec w :=
  if a.toNat + b.toNat < 2 ^ w then a + b else BitVec.allOnes w

def saturatingSub (a b : BitVec w) : BitVec w :=
  if b.toNat ≤ a.toNat then a - b else 0

@[simp] theorem saturatingAdd_toNat (a b : BitVec w) :
    (saturatingAdd a b).toNat = min (a.toNat + b.toNat) (2 ^ w - 1) := by
  unfold saturatingAdd
  split
  · rename_i hlt
    rw [BitVec.toNat_add, Nat.mod_eq_of_lt hlt]
    omega
  · rw [BitVec.toNat_allOnes]
    omega

@[simp] theorem saturatingSub_toNat (a b : BitVec w) :
    (saturatingSub a b).toNat = a.toNat - b.toNat := by
  unfold saturatingSub
  split
  · rename_i hle
    exact sub_toNat_of_le hle
  · rw [BitVec.ofNat_eq_ofNat, BitVec.toNat_ofNat, Nat.zero_mod]
    omega

/-! ## Casts -/

/-- `x as u128` for a type no wider than 128 bits. -/
def asU128 (x : BitVec w) : U128 := x.setWidth 128

/-- `x as u64` from a wider type keeps the low 64 bits. -/
def asU64 (x : BitVec w) : U64 := x.setWidth 64

theorem asU128_toNat (hw : w ≤ 128) (x : BitVec w) : (asU128 x).toNat = x.toNat := by
  unfold asU128
  rw [BitVec.toNat_setWidth]
  exact Nat.mod_eq_of_lt (lt_of_lt_of_le x.isLt (Nat.pow_le_pow_right (by decide) hw))

@[simp] theorem asU128_toNat_u64 (x : U64) : (asU128 x).toNat = x.toNat :=
  asU128_toNat (by decide) x

@[simp] theorem asU128_toNat_u16 (x : U16) : (asU128 x).toNat = x.toNat :=
  asU128_toNat (by decide) x

/-- A product of two `u64` fits `u128`. -/
theorem u64_mul_lt (x : U64) {n : ℕ} (hn : n < 2 ^ 64) : x.toNat * n < 2 ^ 128 := by
  have hx := x.isLt
  calc
    x.toNat * n ≤ (2 ^ 64 - 1) * (2 ^ 64 - 1) := Nat.mul_le_mul (by omega) (by omega)
    _ < 2 ^ 128 := by norm_num

@[simp] theorem asU64_toNat (x : BitVec w) : (asU64 x).toNat = x.toNat % 2 ^ 64 := by
  unfold asU64
  exact BitVec.toNat_setWidth 64 x

/-! ## Signed timestamps -/

/-- `a - b` on `i64` with overflow checks. -/
def checkedSubI64 (a b : I64) : Option I64 :=
  if -2 ^ 63 ≤ a.toInt - b.toInt ∧ a.toInt - b.toInt < 2 ^ 63 then
    some (Int64.ofInt (a.toInt - b.toInt))
  else none

/-- `x as u64` on `i64` reinterprets the two's-complement bits. -/
def i64AsU64 (x : I64) : U64 := x.toBitVec

/-- The cast of a difference that did not overflow. -/
theorem i64AsU64_checkedSub {a b d : I64} (h : checkedSubI64 a b = some d) :
    (i64AsU64 d).toNat = ((a.toInt - b.toInt) % 2 ^ 64).toNat := by
  unfold checkedSubI64 at h
  split at h
  · rw [Option.some_inj] at h
    rw [← h, i64AsU64]
    change (BitVec.ofInt 64 (a.toInt - b.toInt)).toNat = _
    rw [BitVec.toNat_ofInt]
    norm_num
  · cases h

theorem checkedSubI64_self (a : I64) : checkedSubI64 a a = some 0 := by
  unfold checkedSubI64
  rw [Int.sub_self, if_pos (by decide)]
  rfl

/-! ## Plain operators under a build profile -/

/-- Cargo's `overflow-checks`: with it an overflowing operator panics, without it it wraps. -/
inductive OverflowChecks
  | on
  | off
  deriving DecidableEq, Repr

def OverflowChecks.add : OverflowChecks → BitVec w → BitVec w → Option (BitVec w)
  | .on, a, b => checkedAdd a b
  | .off, a, b => some (a + b)

def OverflowChecks.sub : OverflowChecks → BitVec w → BitVec w → Option (BitVec w)
  | .on, a, b => checkedSub a b
  | .off, a, b => some (a - b)

def OverflowChecks.mul : OverflowChecks → BitVec w → BitVec w → Option (BitVec w)
  | .on, a, b => checkedMul a b
  | .off, a, b => some (a * b)

end Machine
