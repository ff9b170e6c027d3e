import LuxEvm.Lib.ByteString

/-!
# Hashes and addresses

`common.Hash` is a 32-byte word and `common.Address` a 20-byte one, read
most significant byte first. A `Hash` literal such as `common.Hash{'l','c','a'}`
sets its leading bytes and leaves the rest zero, while `BytesToHash` of an
address right-aligns it, so the two kinds of storage key never meet: an
address key is below `2^160`, a literal with a nonzero first byte is at least
`2^248`.
-/

set_option autoImplicit false

namespace LuxEvm
open Lib.ByteString

abbrev Hash := BitVec 256
abbrev Address := BitVec 160

/- Named, so that every membership test on hashes or addresses uses one lemma
rather than a copy of its proof in each definition. -/
instance : LawfulBEq Hash := inferInstance
instance : LawfulBEq Address := inferInstance

def HashLength : ℕ := 32

/-- `common.BytesToHash(addr.Bytes())`: the address right-aligned in a word. -/
def addressKey (a : Address) : Hash := a.setWidth 256

/-- A `common.Hash{b₀, b₁, …}` literal: the given leading bytes, zeros after. -/
def hashOfPrefix (bs : List UInt8) : Hash :=
  BitVec.ofNat 256 (value (bs ++ List.replicate (HashLength-bs.length) 0))

/-- `isTimestampForked`: a fork scheduled at `s` is active at `head`. -/
def isTimestampForked (s : Option UInt64) (head : UInt64) : Bool :=
  match s with
  | none => false
  | some s => s ≤ head

/-- `common.BigToHash`: the magnitude, cut to its low 32 bytes. -/
def bigToHash (b : ℤ) : Hash := BitVec.ofNat 256 b.natAbs

/-- `common.BytesToAddress`: the last 20 bytes, right-aligned. -/
def bytesToAddress (bs : List UInt8) : Address := BitVec.ofNat 160 (value bs)

/-- `common.BytesToAddress(h.Bytes())`: the low 20 bytes of a word. -/
def hashToAddress (h : Hash) : Address := h.setWidth 160

theorem toNat_addressKey (a : Address) : (addressKey a).toNat = a.toNat := by
  rw [addressKey, BitVec.toNat_setWidth, Nat.mod_eq_of_lt]
  exact lt_of_lt_of_le a.isLt (Nat.pow_le_pow_right (by norm_num) (by norm_num))

theorem addressKey_injective : Function.Injective addressKey := by
  intro a b h
  apply BitVec.eq_of_toNat_eq
  rw [← toNat_addressKey a, ← toNat_addressKey b, h]

theorem value_replicate_zero (n : ℕ) : value (List.replicate n 0) = 0 := by
  induction n with
  | zero => rfl
  | succ n ih => rw [List.replicate_succ, value_cons, ih]; simp

theorem toNat_hashOfPrefix_ge (b : UInt8) (bs : List UInt8) (hb : b ≠ 0)
    (hl : bs.length < HashLength) : 2^248 ≤ (hashOfPrefix (b :: bs)).toNat := by
  set rest := bs ++ List.replicate (HashLength-(bs.length+1)) 0 with hrest
  have hlen : rest.length = 31 := by
    simp only [hrest, List.length_append, List.length_replicate, HashLength] at hl ⊢
    omega
  have hr := value_lt rest
  rw [hlen] at hr
  have hb1 : 1 ≤ b.toNat := by
    have : b.toNat ≠ 0 := fun h => hb (UInt8.toNat_inj.mp (by simpa using h))
    omega
  have hb2 : b.toNat ≤ 255 := by have := b.toNat_lt; omega
  have hv : value (b :: bs ++ List.replicate (HashLength-(b :: bs).length) 0) =
      value rest+256^31*b.toNat := by
    rw [List.cons_append, value_cons, List.length_cons, hlen]
  have hlt : value rest+256^31*b.toNat < 2^256 := by
    have h1 : 256^31*b.toNat ≤ 256^31*255 := Nat.mul_le_mul_left _ hb2
    have h2 : (256:ℕ)^31+256^31*255 = 2^256 := by norm_num
    linarith
  rw [hashOfPrefix, BitVec.toNat_ofNat, hv, Nat.mod_eq_of_lt hlt]
  calc 2^248 = 256^31*1 := by norm_num
    _ ≤ 256^31*b.toNat := Nat.mul_le_mul_left _ hb1
    _ ≤ _ := Nat.le_add_left _ _

/-- **An address key is never a hash literal with a nonzero first byte.** -/
theorem addressKey_ne_hashOfPrefix (a : Address) (b : UInt8) (bs : List UInt8) (hb : b ≠ 0)
    (hl : bs.length < HashLength) : addressKey a ≠ hashOfPrefix (b :: bs) := by
  intro h
  have h1 := toNat_hashOfPrefix_ge b bs hb hl
  have h2 : (addressKey a).toNat < 2^160 := by
    rw [toNat_addressKey]
    exact a.isLt
  rw [h] at h2
  omega

end LuxEvm
