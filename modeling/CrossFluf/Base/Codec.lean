import CrossFluf.Base.Bytes

/-!
# Encodings of records

A codec writes a value and reads it back from the front of any longer string.  Records are encoded
field by field, and a tagged record starts with bytes that tell its type.
-/

namespace Bytes

open Machine

universe u

structure Codec (α : Type u) where
  encode : α → List U8
  decode : List U8 → Option (α × List U8)
  decode_encode : ∀ a rest, decode (encode a ++ rest) = some (a, rest)

namespace Codec

variable {α β : Type u}

/-- One value after the other. -/
def pair (c : Codec α) (d : Codec β) : Codec (α × β) where
  encode p := c.encode p.1 ++ d.encode p.2
  decode bs := (c.decode bs).bind fun x ↦ (d.decode x.2).map fun y ↦ ((x.1, y.1), y.2)
  decode_encode p rest := by
    rw [List.append_assoc, c.decode_encode, Option.bind_some, d.decode_encode, Option.map_some]

/-- The same bytes read as another type. -/
def map (c : Codec α) (f : α → β) (g : β → α) (hfg : ∀ b, f (g b) = b) : Codec β where
  encode b := c.encode (g b)
  decode bs := (c.decode bs).map fun x ↦ (f x.1, x.2)
  decode_encode b rest := by
    rw [c.decode_encode, Option.map_some, hfg]

/-- A little-endian word of `n` bytes. -/
def word (n : ℕ) : Codec (BitVec (8 * n)) where
  encode v := leBytes n v.toNat
  decode bs := (readLe n bs).map fun x ↦ (BitVec.ofNat (8 * n) x.1, x.2)
  decode_encode v rest := by
    have hlt : v.toNat < 256 ^ n := by
      have hv := v.isLt
      rwa [pow_mul] at hv
    rw [readLe_append hlt, Option.map_some, BitVec.ofNat_toNat, BitVec.setWidth_eq]

def i64 : Codec I64 := (word 8).map Int64.ofBitVec Int64.toBitVec fun _ ↦ rfl

/-- One byte, which has to be 0 or 1. -/
def bool : Codec Bool where
  encode b := [if b then 1 else 0]
  decode
    | [] => none
    | b :: rest => if b = 0 then some (false, rest) else if b = 1 then some (true, rest) else none
  decode_encode b rest := by
    cases b <;> rfl

end Codec

/-- A codec for records that start with a tag of eight bytes. -/
structure Tagged (α : Type u) extends Codec α where
  tag : List U8
  tag_length : tag.length = 8

namespace Tagged

variable {α β : Type u} (c : Tagged α)

def store (a : α) : List U8 := c.tag ++ c.encode a

/-- Bytes after the record are ignored. -/
def load (bs : List U8) : Option α :=
  (splitBytes 8 bs).bind fun x ↦ if x.1 = c.tag then (c.decode x.2).map Prod.fst else none

@[simp] theorem load_store (a : α) : c.load (c.store a) = some a := by
  have hdecode := c.decode_encode a []
  rw [List.append_nil] at hdecode
  rw [load, store, splitBytes_append c.tag_length, Option.bind_some, if_pos rfl, hdecode,
    Option.map_some]

/-- Bytes are not read as records of two types. -/
theorem load_of_ne {d : Tagged β} (h : c.tag ≠ d.tag) {bs : List U8} {b : β}
    (hb : d.load bs = some b) : c.load bs = none := by
  rw [load] at hb ⊢
  cases hsplit : splitBytes 8 bs with
  | none => rfl
  | some x =>
    rw [hsplit, Option.bind_some] at hb
    by_cases hd : x.1 = d.tag
    · rw [Option.bind_some, if_neg (fun hc ↦ h (hc.symm.trans hd))]
    · rw [if_neg hd] at hb
      cases hb

theorem load_store_of_ne (d : Tagged β) (h : c.tag ≠ d.tag) (b : β) :
    c.load (d.store b) = none :=
  c.load_of_ne h (d.load_store b)

end Tagged

end Bytes
