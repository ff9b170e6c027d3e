import LuxEvm.Common
import Mathlib.Data.Nat.Bitwise
import Mathlib.Data.Nat.Size

/-!
# Transaction predicates

A predicate travels in a transaction's access list: each tuple naming a
predicater address carries one predicate, its storage keys read as bytes, the
predicate packed with an end byte `0xff` and zero padding to whole words.
Verification records, per address, a bitset whose bit `i` is set when the
`i`-th predicate for that address, in access-list order, fails.
-/

set_option autoImplicit false

namespace LuxEvm.Predicate
open Lib.ByteString

/-- `types.AccessTuple`. -/
structure AccessTuple where
  address : Address
  storageKeys : List Hash

/-- `utils.HashSliceToBytes`: each key's 32 bytes, in order. -/
def hashSliceToBytes (hashes : List Hash) : List UInt8 := hashes.flatMap (encode 32 ·.toNat)

/-- `PreparePredicateStorageSlots`: for every predicater address, the byte
strings of the tuples naming it, in access-list order. -/
def preparePredicateStorageSlots (predicaterExists : Address → Bool) (list : List AccessTuple) :
    Address → List (List UInt8) :=
  list.foldl (fun slots el =>
    if predicaterExists el.address then
      Function.update slots el.address (slots el.address ++ [hashSliceToBytes el.storageKeys])
    else slots) (fun _ => [])

def EndByte : UInt8 := 0xff

/-- `common.RightPadBytes`. -/
def rightPadBytes (slice : List UInt8) (l : ℕ) : List UInt8 :=
  if l ≤ slice.length then slice else slice ++ List.replicate (l-slice.length) 0

/-- `common.TrimRightZeroes`. -/
def trimRightZeroes (s : List UInt8) : List UInt8 := (s.reverse.dropWhile (· == 0)).reverse

def packPredicate (predicateBytes : List UInt8) : List UInt8 :=
  let predicateBytes := predicateBytes ++ [EndByte]
  rightPadBytes predicateBytes ((predicateBytes.length+31)/32*32)

inductive PredicateError where
  | invalidAllZeroBytes (paddedPredicate : List UInt8)
  | invalidPadding (got expected : ℕ)
  | invalidEndDelimiter
  deriving DecidableEq, Repr

def unpackPredicate (paddedPredicate : List UInt8) : Except PredicateError (List UInt8) :=
  let trimmedPredicateBytes := trimRightZeroes paddedPredicate
  if trimmedPredicateBytes.length = 0 then .error (.invalidAllZeroBytes paddedPredicate)
  else if (trimmedPredicateBytes.length+31)/32*32 ≠ paddedPredicate.length then
    .error (.invalidPadding paddedPredicate.length ((trimmedPredicateBytes.length+31)/32*32))
  else if trimmedPredicateBytes.getLast? ≠ some EndByte then .error .invalidEndDelimiter
  else .ok trimmedPredicateBytes.dropLast

/-- `set.Bits`, a bitset kept as a number. -/
structure Bits where
  bits : ℕ
  deriving DecidableEq, Repr

namespace Bits

def empty : Bits := ⟨0⟩

def add (b : Bits) (i : ℕ) : Bits := ⟨b.bits ||| 2^i⟩

def contains (b : Bits) (i : ℕ) : Bool := b.bits.testBit i

/-- `Bits.BitLen`: one past the highest set index. -/
def bitLen (b : Bits) : ℕ := b.bits.size

/-- `Bits.HighestSetBit`, which its callers read as one past the highest set
index, like `BitLen`. -/
def highestSetBit (b : Bits) : ℕ := b.bits.size

/-- `Bits.Len`: the number of set bits. -/
def len (b : Bits) : ℕ := ((List.range b.bitLen).filter b.contains).length

/-- `Bits.Bytes`, the magnitude big-endian without leading zeros. -/
def bytes (b : Bits) : List UInt8 := ((Nat.digits 256 b.bits).map UInt8.ofNat).reverse

end Bits

/-- `set.BitsFromBytes`: the bytes read big-endian. -/
def bitsFromBytes (bs : List UInt8) : Bits := ⟨value bs⟩

/-- The bitset `CheckPredicates` builds for one address: bit `i` for each
predicate `i` that fails to verify. -/
def predicateResultBits (verifyPredicate : List UInt8 → Bool) (predicates : List (List UInt8)) :
    Bits :=
  (predicates.zipIdx).foldl (fun bitset (pred, i) =>
    if verifyPredicate pred then bitset else bitset.add i) Bits.empty

/-! ## The tuples of one address -/

theorem preparePredicateStorageSlots_apply (predicaterExists : Address → Bool)
    (list : List AccessTuple) (a : Address) :
    preparePredicateStorageSlots predicaterExists list a =
      if predicaterExists a then
        (list.filter (·.address = a)).map (hashSliceToBytes ·.storageKeys)
      else [] := by
  have key : ∀ (l : List AccessTuple) (slots : Address → List (List UInt8)),
      l.foldl (fun slots el =>
        if predicaterExists el.address then
          Function.update slots el.address (slots el.address ++ [hashSliceToBytes el.storageKeys])
        else slots) slots a =
      slots a ++ if predicaterExists a then
        (l.filter (·.address = a)).map (hashSliceToBytes ·.storageKeys) else [] := by
    intro l
    induction l with
    | nil => intro slots; simp
    | cons el l ih =>
      intro slots
      rw [List.foldl_cons, ih]
      by_cases hel : el.address = a
      · subst hel
        by_cases hp : predicaterExists el.address <;> simp [hp]
      · by_cases hp : predicaterExists el.address
        · simp [hp, hel, Function.update_of_ne (Ne.symm hel)]
        · simp [hp, hel]
  rw [preparePredicateStorageSlots, key]
  simp

/-! ## Packing round trip -/

theorem trimRightZeroes_append_replicate (bs : List UInt8) (b : UInt8) (hb : b ≠ 0) (n : ℕ) :
    trimRightZeroes (bs ++ [b] ++ List.replicate n 0) = bs ++ [b] := by
  unfold trimRightZeroes
  rw [List.reverse_append, List.reverse_replicate, List.dropWhile_append_of_pos]
  · simp [hb]
  · intro x hx
    simp [(List.mem_replicate.mp hx).2]

theorem packPredicate_eq (predicateBytes : List UInt8) :
    packPredicate predicateBytes = predicateBytes ++ [EndByte] ++
      List.replicate ((predicateBytes.length+1+31)/32*32-(predicateBytes.length+1)) 0 := by
  dsimp only [packPredicate, rightPadBytes]
  split_ifs with h
  · simp only [List.length_append, List.length_singleton] at h
    have h0 : (predicateBytes.length+1+31)/32*32-(predicateBytes.length+1) = 0 := by omega
    rw [h0, List.replicate_zero, List.append_nil]
  · simp

/-- **Unpacking inverts packing.** -/
theorem unpackPredicate_packPredicate (predicateBytes : List UInt8) :
    unpackPredicate (packPredicate predicateBytes) = .ok predicateBytes := by
  have htrim : trimRightZeroes (packPredicate predicateBytes) = predicateBytes ++ [EndByte] := by
    rw [packPredicate_eq]
    exact trimRightZeroes_append_replicate _ _ (by decide) _
  have hlen : (packPredicate predicateBytes).length = (predicateBytes.length+1+31)/32*32 := by
    rw [packPredicate_eq]
    simp only [List.length_append, List.length_singleton, List.length_replicate]
    omega
  unfold unpackPredicate
  simp only [htrim, hlen, List.length_append, List.length_singleton]
  simp [EndByte]

theorem trimRightZeroes_append_replicate_zero (s : List UInt8) :
    trimRightZeroes s ++ List.replicate (s.length-(trimRightZeroes s).length) 0 = s := by
  -- the bytes trimmed off are the zeros `takeWhile` keeps from the reversed string
  have hzeros : s.reverse.takeWhile (· == 0) =
      List.replicate (s.reverse.takeWhile (· == 0)).length 0 :=
    List.eq_replicate_iff.mpr ⟨rfl, fun b hb => by
      simpa using List.all_eq_true.mp List.all_takeWhile b hb⟩
  have hsplit : s.reverse.takeWhile (· == 0) ++ s.reverse.dropWhile (· == 0) = s.reverse :=
    List.takeWhile_append_dropWhile
  have hlen : s.length-(trimRightZeroes s).length = (s.reverse.takeWhile (· == 0)).length := by
    have := congrArg List.length hsplit
    simp only [List.length_append, List.length_reverse] at this
    simp only [trimRightZeroes, List.length_reverse]
    omega
  calc trimRightZeroes s ++ List.replicate (s.length-(trimRightZeroes s).length) 0
      = (s.reverse.takeWhile (· == 0) ++ s.reverse.dropWhile (· == 0)).reverse := by
        rw [List.reverse_append, hlen, ← List.reverse_replicate, ← hzeros]
        rfl
    _ = s := by rw [hsplit, List.reverse_reverse]

theorem packPredicate_of_unpackPredicate {paddedPredicate predicateBytes : List UInt8}
    (h : unpackPredicate paddedPredicate = .ok predicateBytes) :
    packPredicate predicateBytes = paddedPredicate := by
  dsimp only [unpackPredicate] at h
  generalize htrim : trimRightZeroes paddedPredicate = trimmed at h
  split_ifs at h with hzero hpad hend
  cases h
  have hne : trimmed ≠ [] := fun h => hzero (by rw [h]; rfl)
  have hlast : trimmed.dropLast ++ [EndByte] = trimmed := by
    have hget : trimmed.getLast hne = EndByte := by
      have := List.getLast?_eq_some_getLast hne
      rw [not_not.mp hend] at this
      exact (Option.some.inj this).symm
    rw [← hget]
    exact List.dropLast_concat_getLast hne
  have hlen : trimmed.dropLast.length+1 = trimmed.length := by
    rw [← List.length_singleton (a := EndByte), ← List.length_append, hlast]
  rw [packPredicate_eq, hlast, hlen, not_not.mp hpad, ← htrim]
  exact trimRightZeroes_append_replicate_zero paddedPredicate

theorem length_packPredicate (predicateBytes : List UInt8) :
    (packPredicate predicateBytes).length = (predicateBytes.length+1+31)/32*32 := by
  rw [packPredicate_eq]
  simp only [List.length_append, List.length_singleton, List.length_replicate]
  omega

/-- `utils.BytesToHashSlice`: the bytes in 32-byte words, the last one padded
with zeros on the right. -/
def bytesToHashSlice (b : List UInt8) : List Hash :=
  (List.range ((b.length+31)/32)).map fun i =>
    BitVec.ofNat 256 (value (rightPadBytes ((b.drop (i*32)).take 32) 32))

theorem flatMap_range_words (b : List UInt8) (n : ℕ) :
    (List.range n).flatMap (fun i => (b.drop (i*32)).take 32) = b.take (n*32) := by
  induction n with
  | zero => simp
  | succ n ih =>
    rw [List.range_succ, List.flatMap_append, ih, List.flatMap_singleton, Nat.succ_mul, List.take_add]

theorem hashSliceToBytes_bytesToHashSlice {b : List UInt8} (hb : b.length % 32 = 0) :
    hashSliceToBytes (bytesToHashSlice b) = b := by
  have hword : ∀ i ∈ List.range ((b.length+31)/32),
      encode 32 (BitVec.ofNat 256 (value (rightPadBytes ((b.drop (i*32)).take 32) 32))).toNat =
        (b.drop (i*32)).take 32 := by
    intro i hi
    rw [List.mem_range] at hi
    have hlen : ((b.drop (i*32)).take 32).length = 32 := by
      rw [List.length_take, List.length_drop]
      omega
    have hlt : value ((b.drop (i*32)).take 32) < 2^256 := by
      have := value_lt ((b.drop (i*32)).take 32)
      rwa [hlen] at this
    have henc := encode_value ((b.drop (i*32)).take 32)
    rw [hlen] at henc
    rw [rightPadBytes, if_pos hlen.ge, BitVec.toNat_ofNat, Nat.mod_eq_of_lt hlt, henc]
  rw [hashSliceToBytes, bytesToHashSlice, List.flatMap_map, List.flatMap_congr hword, flatMap_range_words,
    List.take_of_length_le (by omega)]

theorem hashSliceToBytes_bytesToHashSlice_packPredicate (predicateBytes : List UInt8) :
    hashSliceToBytes (bytesToHashSlice (packPredicate predicateBytes)) = packPredicate predicateBytes :=
  hashSliceToBytes_bytesToHashSlice (by rw [length_packPredicate]; omega)

theorem predicate_padding_bijective :
    (∀ m : List UInt8, unpackPredicate (packPredicate m) = .ok m ∧
      0 < (packPredicate m).length ∧ (packPredicate m).length % 32 = 0) ∧
    ∀ p m : List UInt8, unpackPredicate p = .ok m → packPredicate m = p := by
  refine ⟨fun m => ⟨unpackPredicate_packPredicate m, ?_, ?_⟩,
    fun _ _ h => packPredicate_of_unpackPredicate h⟩
  · rw [length_packPredicate]
    omega
  · rw [length_packPredicate]
    exact Nat.mul_mod_left _ _

/-- One byte, padded to a word. -/
theorem predicate_padding_one_byte :
    unpackPredicate (1 :: 0xff :: List.replicate 30 0) = .ok [1] ∧
      packPredicate [1] = 1 :: 0xff :: List.replicate 30 0 :=
  ⟨by decide, predicate_padding_bijective.2 _ _ (by decide)⟩

/-! ## Bitsets -/

theorem contains_add (b : Bits) (i j : ℕ) : (b.add i).contains j = (b.contains j || i = j) := by
  simp [Bits.add, Bits.contains, Nat.testBit_two_pow]

theorem lt_bitLen_of_contains {b : Bits} {i : ℕ} (h : b.contains i = true) : i < b.bitLen := by
  by_contra hi
  have hlt : b.bits < 2^i := lt_of_lt_of_le (Nat.lt_size_self b.bits)
    (Nat.pow_le_pow_right (by norm_num) (not_lt.mp hi))
  simp [Bits.contains, Nat.testBit_lt_two_pow hlt] at h

theorem bitsFromBytes_bytes (b : Bits) : bitsFromBytes b.bytes = b := by
  have hdig : ((Nat.digits 256 b.bits).map UInt8.ofNat).map UInt8.toNat = Nat.digits 256 b.bits := by
    rw [List.map_map]
    conv_rhs => rw [← List.map_id (Nat.digits 256 b.bits)]
    apply List.map_congr_left
    intro d hd
    have hlt : d < 256 := Nat.digits_lt_base (by norm_num) hd
    simp [UInt8.toNat_ofNat', Nat.mod_eq_of_lt hlt]
  simp only [bitsFromBytes, Bits.bytes, value, List.reverse_reverse, hdig, Nat.ofDigits_digits]

theorem contains_predicateResultBits_aux (verifyPredicate : List UInt8 → Bool)
    (predicates : List (List UInt8)) (k : ℕ) (bitset : Bits) (i : ℕ) :
    ((predicates.zipIdx k).foldl (fun bitset (pred, i) =>
      if verifyPredicate pred then bitset else bitset.add i) bitset).contains i = true ↔
    bitset.contains i = true ∨ ∃ pred, k ≤ i ∧ predicates[i-k]? = some pred ∧
      verifyPredicate pred = false := by
  induction predicates generalizing k bitset with
  | nil => simp
  | cons pred predicates ih =>
    rw [List.zipIdx_cons, List.foldl_cons, ih]
    rcases lt_trichotomy i k with hik | rfl | hik
    · have h1 : ¬k+1 ≤ i := by omega
      have h2 : ¬k ≤ i := by omega
      by_cases hv : verifyPredicate pred <;> simp [hv, h1, h2, contains_add, Nat.ne_of_gt hik]
    · by_cases hv : verifyPredicate pred <;> simp [hv, contains_add]
    · have hsub : i-k = i-(k+1)+1 := by omega
      have hk : k ≤ i := by omega
      by_cases hv : verifyPredicate pred <;>
        simp [hv, contains_add, hsub, Nat.ne_of_lt hik, Nat.succ_le_of_lt hik, hk]

theorem contains_predicateResultBits (verifyPredicate : List UInt8 → Bool)
    (predicates : List (List UInt8)) (i : ℕ) :
    (predicateResultBits verifyPredicate predicates).contains i = true ↔
      ∃ pred, predicates[i]? = some pred ∧ verifyPredicate pred = false := by
  rw [predicateResultBits, contains_predicateResultBits_aux]
  simp [Bits.empty, Bits.contains]

end LuxEvm.Predicate
