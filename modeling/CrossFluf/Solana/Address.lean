import CrossFluf.Base.Bytes

/-!
# Addresses

An address is 32 opaque bytes.  Each program derives further addresses from seeds; these are off
the signature curve, so no transaction carries a signature for one and only the program itself
signs for them in the calls it makes.
-/

namespace Solana

open Machine Bytes

abbrev Pubkey := BitVec 256

/-- `key.as_ref()`. -/
def Pubkey.bytes (k : Pubkey) : List U8 := leBytes 32 k.toNat

def Pubkey.ofBytes (bs : List U8) : Pubkey := BitVec.ofNat 256 (ofLeBytes bs)

@[simp] theorem Pubkey.bytes_length (k : Pubkey) : (Pubkey.bytes k).length = 32 :=
  leBytes_length 32 k.toNat

@[simp] theorem Pubkey.ofBytes_bytes (k : Pubkey) : Pubkey.ofBytes (Pubkey.bytes k) = k := by
  unfold Pubkey.ofBytes Pubkey.bytes
  rw [ofLeBytes_leBytes (by exact k.isLt), BitVec.ofNat_toNat, BitVec.setWidth_eq]

theorem Pubkey.bytes_ofBytes {bs : List U8} (h : bs.length = 32) :
    Pubkey.bytes (Pubkey.ofBytes bs) = bs := by
  have hlt := ofLeBytes_lt bs
  rw [h] at hlt
  unfold Pubkey.ofBytes Pubkey.bytes
  rw [BitVec.toNat_ofNat, Nat.mod_eq_of_lt (by exact hlt), ← h, leBytes_ofLeBytes]

/-- The derived addresses of one program: `find_program_address` with its canonical bump,
`create_program_address` at a given bump, and the addresses no transaction can sign for. -/
structure ProgramAddresses where
  find : List (List U8) → Pubkey × U8
  create : List (List U8) → U8 → Option Pubkey
  isDerived : Pubkey → Bool
  create_find : ∀ seeds, create seeds (find seeds).2 = some (find seeds).1
  isDerived_create : ∀ seeds bump k, create seeds bump = some k → isDerived k = true

theorem ProgramAddresses.isDerived_find (p : ProgramAddresses) (seeds : List (List U8)) :
    p.isDerived (p.find seeds).1 = true :=
  p.isDerived_create seeds _ _ (p.create_find seeds)

/-- A signer is not one of the program's own derived addresses. -/
theorem ProgramAddresses.find_ne_signer (p : ProgramAddresses) {signer : Pubkey}
    (h : p.isDerived signer = false) (seeds : List (List U8)) : (p.find seeds).1 ≠ signer := by
  intro he
  rw [← he, p.isDerived_find] at h
  cases h

/-! ## A derivation to compute with -/

/-- The family of an address in the sample derivation, from the length of its first seed. -/
def sampleFamily : List (List U8) → ℕ
  | [] => 1
  | tag :: _ => tag.length % 31 + 1

/-- The remaining seeds as one number, above five bits that hold the family.  Programs tell their
address families apart by first seeds of different lengths. -/
def sampleDigest (seeds : List (List U8)) : Pubkey :=
  BitVec.ofNat 256 (ofLeBytes seeds.tail.flatten * 32 + sampleFamily seeds)

theorem sampleDigest_mod (seeds : List (List U8)) :
    (sampleDigest seeds).toNat % 32 = sampleFamily seeds := by
  have hlt : sampleFamily seeds < 32 := by
    unfold sampleFamily
    split <;> omega
  unfold sampleDigest
  rw [BitVec.toNat_ofNat]
  omega

/-- A derivation with one bump.  Keys divisible by 32 are left to signers. -/
def sampleAddresses : ProgramAddresses where
  find seeds := (sampleDigest seeds, 255)
  create seeds bump := if bump = 255 then some (sampleDigest seeds) else none
  isDerived k := k.toNat % 32 ≠ 0
  create_find seeds := by simp
  isDerived_create seeds bump k h := by
    have hpos : 0 < sampleFamily seeds := by
      unfold sampleFamily
      split <;> omega
    split at h
    · rw [Option.some_inj] at h
      rw [← h, decide_eq_true_eq, sampleDigest_mod]
      omega
    · cases h

end Solana
