import CrossFluf.Base.Machine

/-!
# Little-endian byte strings

Fixed-width integers are laid out least significant byte first and read back from the front of a
longer string.
-/

namespace Bytes

open Machine

/-- The `n` little-endian bytes of `v`. -/
def leBytes : ℕ → ℕ → List U8
  | 0, _ => []
  | n + 1, v => BitVec.ofNat 8 v :: leBytes n (v / 256)

/-- The number with the given little-endian bytes. -/
def ofLeBytes : List U8 → ℕ
  | [] => 0
  | b :: bs => b.toNat + 256 * ofLeBytes bs

/-- Split `n` bytes off the front. -/
def splitBytes (n : ℕ) (bs : List U8) : Option (List U8 × List U8) :=
  if n ≤ bs.length then some (bs.take n, bs.drop n) else none

/-- Read an `n`-byte number off the front. -/
def readLe (n : ℕ) (bs : List U8) : Option (ℕ × List U8) :=
  (splitBytes n bs).map fun p ↦ (ofLeBytes p.1, p.2)

@[simp] theorem leBytes_length (n v : ℕ) : (leBytes n v).length = n := by
  induction n generalizing v with
  | zero => rfl
  | succ n ih => rw [leBytes, List.length_cons, ih]

theorem ofLeBytes_leBytes {n v : ℕ} (h : v < 256 ^ n) : ofLeBytes (leBytes n v) = v := by
  induction n generalizing v with
  | zero =>
    rw [pow_zero] at h
    rw [leBytes, ofLeBytes]
    omega
  | succ n ih =>
    have hdiv : v / 256 < 256 ^ n := by
      rw [pow_succ] at h
      exact Nat.div_lt_of_lt_mul (by rwa [Nat.mul_comm])
    rw [leBytes, ofLeBytes, ih hdiv, BitVec.toNat_ofNat]
    exact Nat.mod_add_div v 256

theorem leBytes_ofLeBytes (bs : List U8) : leBytes bs.length (ofLeBytes bs) = bs := by
  induction bs with
  | nil => rfl
  | cons b bs ih =>
    have hb := b.isLt
    have hdiv : (b.toNat + 256 * ofLeBytes bs) / 256 = ofLeBytes bs := by omega
    have hmod : BitVec.ofNat 8 (b.toNat + 256 * ofLeBytes bs) = b := by
      apply BitVec.eq_of_toNat_eq
      rw [BitVec.toNat_ofNat]
      omega
    rw [List.length_cons, ofLeBytes, leBytes, hdiv, hmod, ih]

theorem ofLeBytes_lt (bs : List U8) : ofLeBytes bs < 256 ^ bs.length := by
  induction bs with
  | nil => exact Nat.one_pos
  | cons b bs ih =>
    have hb := b.isLt
    rw [ofLeBytes, List.length_cons, pow_succ]
    omega

theorem splitBytes_append {n : ℕ} {bs rest : List U8} (h : bs.length = n) :
    splitBytes n (bs ++ rest) = some (bs, rest) := by
  unfold splitBytes
  rw [if_pos (by rw [List.length_append]; omega), List.take_left' h, List.drop_left' h]

theorem readLe_append {n v : ℕ} (h : v < 256 ^ n) (rest : List U8) :
    readLe n (leBytes n v ++ rest) = some (v, rest) := by
  unfold readLe
  rw [splitBytes_append (leBytes_length n v), Option.map_some, ofLeBytes_leBytes h]

/-- The bytes of an ASCII literal. -/
def ascii (s : String) : List U8 := s.toByteArray.data.toList.map fun b ↦ b.toBitVec

end Bytes
