import LuxEvm.Common
import LuxEvm.Lib.ByteBuffer
import Mathlib.Data.List.AList
import Mathlib.Data.List.Sort

/-!
# Predicate results on the wire

A block's predicate results map each transaction hash to a map from precompile
address to result bytes. `Bytes` sizes the encoding first, then writes the
version, the count of transactions and, in byte order of the hashes, each hash,
its count of addresses and, in byte order of the addresses, each address, the
length of its bytes and the bytes, all at offsets it tracks by hand.
`ParseResults` reads them back at offsets of its own, checking each field
against the buffer's length.

The entries of a map are kept in the order a range over it visits them, which
Go leaves unspecified. What a `Results` means is its lookup (`Results.get`).
-/

set_option autoImplicit false

namespace LuxEvm.Predicate

open Lib.ByteString (value encode)
open Lib.ByteBuffer (writeAt slice)

/-- `TxResults`: each precompile address's result bytes. -/
abbrev TxResults := AList fun _ : Address => List UInt8

/-- `Results`: each transaction's results. -/
abbrev Results := AList fun _ : Hash => TxResults

def version : ℕ := 0

/-- `constants.MiB` -/
def maxResultsSize : ℕ := 1048576

def hashLen : ℕ := 32

def addrLen : ℕ := 20

inductive ResultsError where
  | shortBuffer
  | badVersion (got : ℕ)
  | tooLarge
  deriving DecidableEq, Repr

/-- A map `make` allocated with a size hint: the hint, the fewest bytes one of its
entries takes on the wire, and the bytes left after the count that gave the hint. -/
structure MapAllocation where
  hint : ℕ
  entryLen : ℕ
  remaining : ℕ
  deriving DecidableEq, Repr

def MapAllocation.Fits (a : MapAllocation) : Prop := a.hint * a.entryLen ≤ a.remaining

instance : DecidablePred MapAllocation.Fits := fun a =>
  inferInstanceAs (Decidable (a.hint * a.entryLen ≤ a.remaining))

/-- What a loop of `ParseResults` returns, with the maps it allocated on the way. -/
structure Parsed (α : Type) where
  allocated : List MapAllocation
  result : Except ResultsError α

/-- `hash[:]` -/
def hashBytes (h : Hash) : List UInt8 := encode hashLen h.toNat

/-- `addr[:]` -/
def addressBytes (a : Address) : List UInt8 := encode addrLen a.toNat

/-- Keys in `bytes.Compare` order of their bytes. -/
def bytesLE {α : Type} (f : α → List UInt8) (a b : α) : Prop :=
  Lib.ByteString.compare (f a) (f b) ≠ .gt

instance {α : Type} (f : α → List UInt8) : DecidableRel (bytesLE f) := fun _ _ =>
  inferInstanceAs (Decidable (_ ≠ _))

/-- `inner[addr]`, nil if absent. -/
def lookupBytes (inner : TxResults) (addr : Address) : List UInt8 := (inner.lookup addr).getD []

/-- `r.Results[hash]`, empty if absent. -/
def lookupTx (r : Results) (hash : Hash) : TxResults := (r.lookup hash).getD ∅

/-- The hashes, sorted: `sort.Slice` with distinct keys has one result. -/
def sortedHashes (r : Results) : List Hash := r.keys.insertionSort (bytesLE hashBytes)

def sortedAddresses (inner : TxResults) : List Address :=
  inner.keys.insertionSort (bytesLE addressBytes)

/-! ## `Bytes` -/

/-- The size `Bytes` computes before it writes. -/
def encodedSize (r : Results) : ℕ :=
  r.entries.foldl (fun size e =>
    e.2.entries.foldl (fun size v => size + (addrLen + 4 + v.2.length)) (size + (hashLen + 4))) 6

/-- One address of a transaction, written at `off`. -/
def writeTx (inner : TxResults) (st : List UInt8 × ℕ) (addr : Address) : List UInt8 × ℕ :=
  let (out, off) := st
  let val := lookupBytes inner addr
  let out := writeAt out off (addressBytes addr)
  let off := off + addrLen
  let out := writeAt out off (encode 4 val.length)
  let off := off + 4
  let out := writeAt out off val
  (out, off + val.length)

/-- One transaction, written at `off`. -/
def writeResult (r : Results) (st : List UInt8 × ℕ) (hash : Hash) : List UInt8 × ℕ :=
  let (out, off) := st
  let inner := lookupTx r hash
  let out := writeAt out off (hashBytes hash)
  let off := off + hashLen
  let out := writeAt out off (encode 4 inner.entries.length)
  let off := off + 4
  (sortedAddresses inner).foldl (writeTx inner) (out, off)

/-- `Results.Bytes`. -/
def bytes (r : Results) : Except ResultsError (List UInt8) :=
  let size := encodedSize r
  if maxResultsSize < size then .error .tooLarge
  else
    let out := List.replicate size 0
    let out := writeAt out 0 (encode 2 version)
    let out := writeAt out 2 (encode 4 r.entries.length)
    .ok ((sortedHashes r).foldl (writeResult r) (out, 6)).1

/-! ## `ParseResults` -/

/-- The inner loop of `ParseResults`: `n` addresses from `off`. -/
def parseTx (b : List UInt8) : ℕ → ℕ → TxResults → Except ResultsError (TxResults × ℕ)
  | 0, off, txRes => .ok (txRes, off)
  | n + 1, off, txRes =>
    if b.length < off + addrLen + 4 then .error .shortBuffer
    else
      let addr : Address := BitVec.ofNat 160 (value (slice b off (off + addrLen)))
      let off := off + addrLen
      let bytesLen := value (slice b off (off + 4))
      let off := off + 4
      if b.length < off + bytesLen then .error .shortBuffer
      else
        let val := slice b off (off + bytesLen)
        parseTx b n (off + bytesLen) (txRes.insert addr val)

/-- `make(…, alloc.hint)`, then a loop that may fail, then the rest. -/
def Parsed.afterMake {α β : Type} (alloc : MapAllocation) (r : Except ResultsError α)
    (k : α → Parsed β) : Parsed β :=
  match r with
  | .error e => ⟨[alloc], .error e⟩
  | .ok a => ⟨alloc :: (k a).allocated, (k a).result⟩

@[simp] theorem Parsed.afterMake_error {α β : Type} (alloc : MapAllocation) (e : ResultsError)
    (k : α → Parsed β) : Parsed.afterMake alloc (.error e) k = ⟨[alloc], .error e⟩ := rfl

@[simp] theorem Parsed.afterMake_ok {α β : Type} (alloc : MapAllocation) (a : α) (k : α → Parsed β) :
    Parsed.afterMake alloc (.ok a) k = ⟨alloc :: (k a).allocated, (k a).result⟩ := rfl

theorem Parsed.afterMake_eq_ok {α β : Type} {alloc : MapAllocation} {r : Except ResultsError α}
    {k : α → Parsed β} {x : β} :
    (Parsed.afterMake alloc r k).result = .ok x ↔ ∃ a, r = .ok a ∧ (k a).result = .ok x := by
  cases r <;> simp

/-- The outer loop of `ParseResults`: `n` transactions from `off`, each read
after its `make(TxResults, innerN)`. -/
def parseOuter (b : List UInt8) : ℕ → ℕ → Results → Parsed (Results × ℕ)
  | 0, off, res => ⟨[], .ok (res, off)⟩
  | n + 1, off, res =>
    if b.length < off + hashLen + 4 then ⟨[], .error .shortBuffer⟩
    else
      let hash : Hash := BitVec.ofNat 256 (value (slice b off (off + hashLen)))
      let off := off + hashLen
      let innerN := value (slice b off (off + 4))
      let off := off + 4
      Parsed.afterMake ⟨innerN, addrLen + 4, b.length - off⟩ (parseTx b innerN off ∅)
        fun (txRes, off) => parseOuter b n off (res.insert hash txRes)

/-- `ParseResults`, with the maps it allocates: `make(map, outerN)` before the
outer loop, and the loop's own. -/
def parseResultsRun (b : List UInt8) : Parsed Results :=
  if b.length < 2 then ⟨[], .error .shortBuffer⟩
  else if maxResultsSize < b.length then ⟨[], .error .tooLarge⟩
  else
    let ver := value (slice b 0 2)
    if ver ≠ version then ⟨[], .error (.badVersion ver)⟩
    else if b.length < 6 then ⟨[], .error .shortBuffer⟩
    else
      let outerN := value (slice b 2 6)
      let outer := parseOuter b outerN 6 ∅
      ⟨⟨outerN, hashLen + 4, b.length - 6⟩ :: outer.allocated, (·.1) <$> outer.result⟩

/-- What `ParseResults` returns. -/
def parseResults (b : List UInt8) : Except ResultsError Results := (parseResultsRun b).result

/-! ## What a `Results` means -/

/-- The results as a finite map of finite maps. -/
def Results.get (r : Results) : Hash → Option (Address → Option (List UInt8)) :=
  fun hash => (r.lookup hash).map fun inner addr => inner.lookup addr

/-- The wire format: what `Bytes` writes, as one concatenation. -/
def encodeEntry (inner : TxResults) (addr : Address) : List UInt8 :=
  addressBytes addr ++ encode 4 (lookupBytes inner addr).length ++ lookupBytes inner addr

def encodeTx (inner : TxResults) : List UInt8 := (sortedAddresses inner).flatMap (encodeEntry inner)

def encodeResult (r : Results) (hash : Hash) : List UInt8 :=
  hashBytes hash ++ encode 4 (lookupTx r hash).entries.length ++ encodeTx (lookupTx r hash)

def encodeResults (r : Results) : List UInt8 :=
  encode 2 version ++ encode 4 r.entries.length ++ (sortedHashes r).flatMap (encodeResult r)

/-! ## Keys -/

section Keys

variable {α : Type} {f : α → List UInt8}

instance : Std.Total (bytesLE f) := ⟨fun a b => Lib.ByteString.compare_ne_gt_total (f a) (f b)⟩

instance : IsTrans α (bytesLE f) := ⟨fun _ _ _ h₁ h₂ => Lib.ByteString.compare_ne_gt_trans h₁ h₂⟩

theorem insertionSort_bytesLE_eq (hf : Function.Injective f) {l₁ l₂ : List α}
    (h : l₁.Perm l₂) : l₁.insertionSort (bytesLE f) = l₂.insertionSort (bytesLE f) := by
  apply List.Perm.eq_of_pairwise
    (fun a b _ _ hab hba => hf (Lib.ByteString.eq_of_compare_ne_gt hab hba))
    (List.pairwise_insertionSort (bytesLE f) _) (List.pairwise_insertionSort (bytesLE f) _)
  exact (List.perm_insertionSort _ _).trans (h.trans (List.perm_insertionSort _ _).symm)

end Keys

theorem value_hashBytes (h : Hash) : value (hashBytes h) = h.toNat := by
  rw [hashBytes, Lib.ByteString.value_encode, Nat.mod_eq_of_lt]
  exact lt_of_lt_of_eq h.isLt (by norm_num [hashLen])

theorem value_addressBytes (a : Address) : value (addressBytes a) = a.toNat := by
  rw [addressBytes, Lib.ByteString.value_encode, Nat.mod_eq_of_lt]
  exact lt_of_lt_of_eq a.isLt (by norm_num [addrLen])

theorem ofNat_value_hashBytes (h : Hash) : BitVec.ofNat 256 (value (hashBytes h)) = h := by
  rw [value_hashBytes, BitVec.ofNat_toNat, BitVec.setWidth_eq]

theorem ofNat_value_addressBytes (a : Address) :
    BitVec.ofNat 160 (value (addressBytes a)) = a := by
  rw [value_addressBytes, BitVec.ofNat_toNat, BitVec.setWidth_eq]

theorem hashBytes_injective : Function.Injective hashBytes := fun a b h => by
  rw [← ofNat_value_hashBytes a, h, ofNat_value_hashBytes]

theorem addressBytes_injective : Function.Injective addressBytes := fun a b h => by
  rw [← ofNat_value_addressBytes a, h, ofNat_value_addressBytes]

@[simp] theorem length_hashBytes (h : Hash) : (hashBytes h).length = hashLen := by
  simp [hashBytes]

@[simp] theorem length_addressBytes (a : Address) : (addressBytes a).length = addrLen := by
  simp [addressBytes]

@[simp] theorem mem_sortedHashes {r : Results} {h : Hash} : h ∈ sortedHashes r ↔ h ∈ r := by
  rw [sortedHashes, List.mem_insertionSort, AList.mem_keys]

@[simp] theorem mem_sortedAddresses {inner : TxResults} {a : Address} :
    a ∈ sortedAddresses inner ↔ a ∈ inner := by
  rw [sortedAddresses, List.mem_insertionSort, AList.mem_keys]

@[simp] theorem length_sortedHashes (r : Results) : (sortedHashes r).length = r.entries.length := by
  simp [sortedHashes, AList.keys, List.keys]

@[simp] theorem length_sortedAddresses (inner : TxResults) :
    (sortedAddresses inner).length = inner.entries.length := by
  simp [sortedAddresses, AList.keys, List.keys]

theorem lookup_foldl_insert {κ : Type} {β : κ → Type} [DecidableEq κ] (g : ∀ k, β k)
    (ks : List κ) (acc : AList β) (k : κ) :
    (ks.foldl (fun acc a => acc.insert a (g a)) acc).lookup k =
      if k ∈ ks then some (g k) else acc.lookup k := by
  induction ks generalizing acc with
  | nil => simp
  | cons a ks ih =>
    rw [List.foldl_cons, ih]
    by_cases hk : k ∈ ks
    · simp [hk]
    · by_cases hka : k = a
      · subst hka
        simp [hk, AList.lookup_insert]
      · simp [hk, hka, AList.lookup_insert_ne hka]

/-! ## `Bytes` writes the wire format -/

open Lib.ByteBuffer (writeAt_append_replicate)

theorem writeTx_append_replicate (inner : TxResults) (addr : Address) (written : List UInt8)
    (k : ℕ) :
    writeTx inner (written ++ List.replicate k 0, written.length) addr =
      (written ++ encodeEntry inner addr ++
        List.replicate (k - (encodeEntry inner addr).length) 0,
        (written ++ encodeEntry inner addr).length) := by
  have h₁ : written.length + addrLen = (written ++ addressBytes addr).length := by simp
  have h₂ : (written ++ addressBytes addr).length + 4 =
      (written ++ addressBytes addr ++ encode 4 (lookupBytes inner addr).length).length := by
    simp [Nat.add_assoc]
  simp only [writeTx]
  rw [writeAt_append_replicate, h₁, writeAt_append_replicate, h₂, writeAt_append_replicate]
  simp [encodeEntry, Nat.sub_sub, Nat.add_assoc]

theorem foldl_writeTx (inner : TxResults) (addrs : List Address) (written : List UInt8) (k : ℕ) :
    addrs.foldl (writeTx inner) (written ++ List.replicate k 0, written.length) =
      (written ++ addrs.flatMap (encodeEntry inner) ++
        List.replicate (k - (addrs.flatMap (encodeEntry inner)).length) 0,
        (written ++ addrs.flatMap (encodeEntry inner)).length) := by
  induction addrs generalizing written k with
  | nil => simp
  | cons addr addrs ih =>
    rw [List.foldl_cons, writeTx_append_replicate, ih]
    simp [Nat.sub_sub]

theorem writeResult_append_replicate (r : Results) (hash : Hash) (written : List UInt8) (k : ℕ) :
    writeResult r (written ++ List.replicate k 0, written.length) hash =
      (written ++ encodeResult r hash ++ List.replicate (k - (encodeResult r hash).length) 0,
        (written ++ encodeResult r hash).length) := by
  have h₁ : written.length + hashLen = (written ++ hashBytes hash).length := by simp
  have h₂ : (written ++ hashBytes hash).length + 4 =
      (written ++ hashBytes hash ++ encode 4 (lookupTx r hash).entries.length).length := by
    simp [Nat.add_assoc]
  simp only [writeResult]
  rw [writeAt_append_replicate, h₁, writeAt_append_replicate, h₂, foldl_writeTx]
  simp [encodeResult, encodeTx, Nat.sub_sub, Nat.add_assoc]

theorem foldl_writeResult (r : Results) (hashes : List Hash) (written : List UInt8) (k : ℕ) :
    hashes.foldl (writeResult r) (written ++ List.replicate k 0, written.length) =
      (written ++ hashes.flatMap (encodeResult r) ++
        List.replicate (k - (hashes.flatMap (encodeResult r)).length) 0,
        (written ++ hashes.flatMap (encodeResult r)).length) := by
  induction hashes generalizing written k with
  | nil => simp
  | cons hash hashes ih =>
    rw [List.foldl_cons, writeResult_append_replicate, ih]
    simp [Nat.sub_sub]

/-! ## The size `Bytes` computes is the encoding's length -/

theorem foldl_add_eq {β : Type} (g : β → ℕ) (l : List β) (s : ℕ) :
    l.foldl (fun size x => size + g x) s = s + (l.map g).sum := by
  induction l generalizing s with
  | nil => simp
  | cons x l ih => rw [List.foldl_cons, ih, List.map_cons, List.sum_cons, Nat.add_assoc]

theorem map_entries_eq_map_keys {κ X γ : Type} [DecidableEq κ] (s : AList fun _ : κ => X)
    (d : X) (G : κ → X → γ) :
    s.entries.map (fun e => G e.1 e.2) = s.keys.map (fun k => G k ((s.lookup k).getD d)) := by
  rw [AList.keys, List.keys, List.map_map]
  apply List.map_congr_left
  intro e he
  have hl : s.lookup e.1 = some e.2 := AList.mem_lookup_iff.mpr he
  simp [hl]

theorem length_encodeTx (inner : TxResults) :
    (encodeTx inner).length = (inner.entries.map fun v => addrLen + 4 + v.2.length).sum := by
  have hentry : ∀ a, (encodeEntry inner a).length = addrLen + 4 + (lookupBytes inner a).length := by
    intro a
    simp [encodeEntry, Nat.add_assoc]
  rw [map_entries_eq_map_keys inner [] fun _ v => addrLen + 4 + v.length, encodeTx,
    List.length_flatMap]
  simp only [hentry]
  exact ((List.perm_insertionSort _ _).map _).sum_nat

theorem encodedSize_eq_length (r : Results) : encodedSize r = (encodeResults r).length := by
  have hinner : (fun size (e : Σ _ : Hash, TxResults) =>
      e.2.entries.foldl (fun size v => size + (addrLen + 4 + v.2.length)) (size + (hashLen + 4))) =
      fun size e => size + (hashLen + 4 + (encodeTx e.2).length) := by
    funext size e
    rw [foldl_add_eq, length_encodeTx, Nat.add_assoc]
  rw [encodedSize, hinner, foldl_add_eq,
    map_entries_eq_map_keys r ∅ fun _ inner => hashLen + 4 + (encodeTx inner).length]
  simp only [encodeResults, List.length_append, Lib.ByteString.length_encode, List.length_flatMap,
    encodeResult, length_hashBytes]
  have hp : (r.keys.map fun k => hashLen + 4 + (encodeTx ((r.lookup k).getD ∅)).length).Perm
      ((sortedHashes r).map fun k => hashLen + 4 + (encodeTx (lookupTx r k)).length) :=
    ((List.perm_insertionSort _ _).symm).map _
  rw [hp.sum_nat]

theorem bytes_eq (r : Results) :
    bytes r = if maxResultsSize < (encodeResults r).length then .error .tooLarge
      else .ok (encodeResults r) := by
  rw [bytes, encodedSize_eq_length]
  split_ifs with h
  · rfl
  · -- the header at offsets 0 and 2, then the transactions from offset 6
    set n := (encodeResults r).length
    have e₁ := writeAt_append_replicate [] (encode 2 version) (0 : UInt8) n
    have e₂ := writeAt_append_replicate (encode 2 version) (encode 4 r.entries.length) (0 : UInt8)
      (n - 2)
    simp only [List.nil_append, List.length_nil, Lib.ByteString.length_encode] at e₁ e₂
    have h₆ : (6 : ℕ) = (encode 2 version ++ encode 4 r.entries.length).length := by simp
    simp only [e₁, e₂, Nat.sub_sub]
    rw [h₆, foldl_writeResult]
    have hn : n = (encode 2 version ++ encode 4 r.entries.length ++
        (sortedHashes r).flatMap (encodeResult r)).length := rfl
    simp only [hn, List.length_append, Lib.ByteString.length_encode]
    simp [encodeResults]

/-! ## `ParseResults` reads the wire format back -/

open Lib.ByteBuffer (slice_append)

theorem value_encode_four {n : ℕ} (h : n < 2^32) : value (encode 4 n) = n := by
  rw [Lib.ByteString.value_encode, Nat.mod_eq_of_lt (by simpa using h)]

theorem parseTx_encode (inner : TxResults) (addrs : List Address) (pre rest : List UInt8)
    (acc : TxResults) (hsmall : ∀ a ∈ addrs, (lookupBytes inner a).length < 2^32) :
    parseTx (pre ++ addrs.flatMap (encodeEntry inner) ++ rest) addrs.length pre.length acc =
      .ok (addrs.foldl (fun acc a => acc.insert a (lookupBytes inner a)) acc,
        pre.length + (addrs.flatMap (encodeEntry inner)).length) := by
  induction addrs generalizing pre acc with
  | nil => simp [parseTx]
  | cons a addrs ih =>
    set val := lookupBytes inner a
    set b := pre ++ (a :: addrs).flatMap (encodeEntry inner) ++ rest
    have hval : val.length < 2^32 := hsmall a List.mem_cons_self
    have hb : b = pre ++ addressBytes a ++
        (encode 4 val.length ++ (val ++ (addrs.flatMap (encodeEntry inner) ++ rest))) := by
      simp [b, encodeEntry, val]
    have e₁ : slice b pre.length (pre.length + addrLen) = addressBytes a := by
      rw [hb, ← length_addressBytes a]
      exact slice_append _ _ _
    have e₂ : slice b (pre.length + addrLen) (pre.length + addrLen + 4) = encode 4 val.length := by
      have := slice_append (pre ++ addressBytes a) (encode 4 val.length)
        (val ++ (addrs.flatMap (encodeEntry inner) ++ rest))
      simpa [hb] using this
    have e₃ : slice b (pre.length + addrLen + 4) (pre.length + addrLen + 4 + val.length) = val := by
      have := slice_append (pre ++ addressBytes a ++ encode 4 val.length) val
        (addrs.flatMap (encodeEntry inner) ++ rest)
      simpa [hb, Nat.add_assoc] using this
    have hlen : b.length = pre.length + addrLen + 4 + val.length +
        (addrs.flatMap (encodeEntry inner) ++ rest).length := by
      simp [hb]
      omega
    have hpre : b = pre ++ encodeEntry inner a ++ addrs.flatMap (encodeEntry inner) ++ rest := by
      simp [b]
    have hoff : pre.length + addrLen + 4 + val.length = (pre ++ encodeEntry inner a).length := by
      simp [encodeEntry, val]
      omega
    rw [List.length_cons, parseTx, if_neg (by omega)]
    simp only [e₁, ofNat_value_addressBytes, e₂, value_encode_four hval, e₃]
    rw [if_neg (by omega), hoff, hpre,
      ih (pre ++ encodeEntry inner a) _ fun a' ha' => hsmall a' (List.mem_cons_of_mem a ha')]
    simp [Nat.add_assoc, val]

/-- What the inner loop makes of a transaction's entries. -/
def parsedTx (inner : TxResults) : TxResults :=
  (sortedAddresses inner).foldl (fun acc a => acc.insert a (lookupBytes inner a)) ∅

theorem parseOuter_encode (r : Results) (hashes : List Hash) (pre rest : List UInt8)
    (acc : Results)
    (hsmall : ∀ h ∈ hashes, (lookupTx r h).entries.length < 2^32 ∧
      ∀ a ∈ sortedAddresses (lookupTx r h), (lookupBytes (lookupTx r h) a).length < 2^32) :
    (parseOuter (pre ++ hashes.flatMap (encodeResult r) ++ rest) hashes.length pre.length acc).result =
      .ok (hashes.foldl (fun acc h => acc.insert h (parsedTx (lookupTx r h))) acc,
        pre.length + (hashes.flatMap (encodeResult r)).length) := by
  induction hashes generalizing pre acc with
  | nil => simp only [List.length_nil, parseOuter, List.flatMap_nil, List.foldl_nil, Nat.add_zero]
  | cons h hashes ih =>
    obtain ⟨hcount, hvals⟩ := hsmall h List.mem_cons_self
    have hpre : pre ++ (h :: hashes).flatMap (encodeResult r) ++ rest =
        pre ++ encodeResult r h ++ hashes.flatMap (encodeResult r) ++ rest := by
      simp
    generalize hbdef : pre ++ (h :: hashes).flatMap (encodeResult r) ++ rest = b
    generalize hinner : lookupTx r h = inner at hcount hvals
    have hb : b = pre ++ hashBytes h ++
        (encode 4 inner.entries.length ++ (encodeTx inner ++ (hashes.flatMap (encodeResult r) ++ rest))) := by
      simp [← hbdef, encodeResult, hinner]
    have e₁ : slice b pre.length (pre.length + hashLen) = hashBytes h := by
      rw [hb, ← length_hashBytes h]
      exact slice_append _ _ _
    have e₂ : slice b (pre.length + hashLen) (pre.length + hashLen + 4) =
        encode 4 inner.entries.length := by
      have := slice_append (pre ++ hashBytes h) (encode 4 inner.entries.length)
        (encodeTx inner ++ (hashes.flatMap (encodeResult r) ++ rest))
      simpa [hb] using this
    have hlen : b.length = pre.length + hashLen + 4 +
        (encodeTx inner ++ (hashes.flatMap (encodeResult r) ++ rest)).length := by
      simp [hb]
      omega
    have hread : parseTx b (sortedAddresses inner).length (pre.length + hashLen + 4) ∅ =
        .ok (parsedTx inner, (pre ++ encodeResult r h).length) := by
      have hb' : b = pre ++ hashBytes h ++ encode 4 inner.entries.length ++
          (sortedAddresses inner).flatMap (encodeEntry inner) ++
          (hashes.flatMap (encodeResult r) ++ rest) := by
        simp [hb, encodeTx]
      have hoff : pre.length + hashLen + 4 =
          (pre ++ hashBytes h ++ encode 4 inner.entries.length).length := by
        simp [Nat.add_assoc]
      rw [hb', hoff, parseTx_encode inner _ _ _ _ hvals]
      simp [encodeResult, encodeTx, hinner, parsedTx, Nat.add_assoc]
    rw [List.length_cons, parseOuter, if_neg (by omega)]
    simp only [e₁, ofNat_value_hashBytes, e₂, value_encode_four hcount]
    rw [← length_sortedAddresses, hread, Parsed.afterMake_ok]
    rw [← hbdef, hpre, ih (pre ++ encodeResult r h) _ fun h' hh' => hsmall h' (List.mem_cons_of_mem h hh')]
    simp [Nat.add_assoc, hinner]

theorem lookup_parsedTx (inner : TxResults) (addr : Address) :
    (parsedTx inner).lookup addr = inner.lookup addr := by
  rw [parsedTx, lookup_foldl_insert, AList.lookup_empty]
  by_cases ha : addr ∈ inner
  · obtain ⟨v, hv⟩ := Option.isSome_iff_exists.mp (AList.lookup_isSome.mpr ha)
    simp [mem_sortedAddresses.mpr ha, lookupBytes, hv]
  · rw [if_neg (fun hs => ha (mem_sortedAddresses.mp hs)), AList.lookup_eq_none.mpr ha]

open Lib.ByteBuffer (length_le_length_flatMap_of_mem length_le_length_flatMap)

theorem fields_lt_of_length_le (r : Results) (hsize : (encodeResults r).length ≤ maxResultsSize) :
    r.entries.length < 2^32 ∧ ∀ h ∈ sortedHashes r, (lookupTx r h).entries.length < 2^32 ∧
      ∀ a ∈ sortedAddresses (lookupTx r h), (lookupBytes (lookupTx r h) a).length < 2^32 := by
  have hmax : maxResultsSize < 2^32 := by decide
  have hflat : ((sortedHashes r).flatMap (encodeResult r)).length ≤ maxResultsSize := by
    simp only [encodeResults, List.length_append] at hsize
    omega
  refine ⟨?_, fun h hh => ⟨?_, fun a ha => ?_⟩⟩
  · -- every transaction takes a byte at least
    have := length_le_length_flatMap (encodeResult r) (sortedHashes r) fun h _ => by
      simp [encodeResult]
      omega
    rw [length_sortedHashes] at this
    omega
  · have h₁ := length_le_length_flatMap (encodeEntry (lookupTx r h)) (sortedAddresses (lookupTx r h))
      fun a _ => by simp [encodeEntry]; omega
    have h₂ := length_le_length_flatMap_of_mem (encodeResult r) hh
    rw [length_sortedAddresses] at h₁
    simp only [encodeResult, List.length_append, encodeTx] at h₂
    omega
  · have h₁ := length_le_length_flatMap_of_mem (encodeEntry (lookupTx r h)) ha
    have h₂ := length_le_length_flatMap_of_mem (encodeResult r) hh
    simp only [encodeEntry, List.length_append] at h₁
    simp only [encodeResult, List.length_append, encodeTx] at h₂
    omega

/-- What `ParseResults` makes of the wire format: every transaction, with every entry. -/
theorem parseResults_encodeResults (r : Results)
    (hsize : (encodeResults r).length ≤ maxResultsSize) :
    parseResults (encodeResults r) =
      .ok ((sortedHashes r).foldl (fun acc h => acc.insert h (parsedTx (lookupTx r h))) ∅) := by
  obtain ⟨hcount, hsmall⟩ := fields_lt_of_length_le r hsize
  have hver : slice (encodeResults r) 0 2 = encode 2 version := by
    have := slice_append [] (encode 2 version)
      (encode 4 r.entries.length ++ (sortedHashes r).flatMap (encodeResult r))
    simpa [encodeResults] using this
  have hn : slice (encodeResults r) 2 6 = encode 4 r.entries.length := by
    have := slice_append (encode 2 version) (encode 4 r.entries.length)
      ((sortedHashes r).flatMap (encodeResult r))
    simpa [encodeResults] using this
  have hlen : 6 ≤ (encodeResults r).length := by simp [encodeResults]; omega
  have hv : value (encode 2 version) = version := by decide
  have h₆ : (6 : ℕ) = (encode 2 version ++ encode 4 r.entries.length).length := by simp
  rw [parseResults, parseResultsRun, if_neg (by omega), if_neg (by omega)]
  simp only [hver, hv, ne_eq, not_true_eq_false, ↓reduceIte, hn, value_encode_four hcount]
  rw [if_neg (by omega), ← length_sortedHashes, h₆]
  have hb : encodeResults r =
      encode 2 version ++ encode 4 r.entries.length ++ (sortedHashes r).flatMap (encodeResult r) ++ [] := by
    simp [encodeResults]
  rw [hb, parseOuter_encode r _ _ _ _ hsmall]
  rfl

theorem get_parsed (r : Results) :
    Results.get ((sortedHashes r).foldl (fun acc h => acc.insert h (parsedTx (lookupTx r h))) ∅) =
      r.get := by
  funext h
  simp only [Results.get]
  rw [lookup_foldl_insert, AList.lookup_empty]
  by_cases hh : h ∈ r
  · obtain ⟨inner, hi⟩ := Option.isSome_iff_exists.mp (AList.lookup_isSome.mpr hh)
    rw [if_pos (mem_sortedHashes.mpr hh), hi, Option.map_some, Option.map_some]
    congr 1
    funext addr
    rw [lookup_parsedTx, lookupTx, hi, Option.getD_some]
  · rw [if_neg (fun hs => hh (mem_sortedHashes.mp hs)), AList.lookup_eq_none.mpr hh]

/-! ## Equal maps have equal encodings -/

theorem keys_perm_of_isSome_eq {κ : Type} {β : κ → Type} [DecidableEq κ] {s₁ s₂ : AList β}
    (h : ∀ k, (s₁.lookup k).isSome = (s₂.lookup k).isSome) : s₁.keys.Perm s₂.keys :=
  (List.perm_ext_iff_of_nodup s₁.keys_nodup s₂.keys_nodup).mpr fun k => by
    rw [← AList.mem_keys, ← AList.mem_keys, ← AList.lookup_isSome, ← AList.lookup_isSome, h]

theorem length_entries_eq_of_isSome_eq {κ : Type} {β : κ → Type} [DecidableEq κ]
    {s₁ s₂ : AList β} (h : ∀ k, (s₁.lookup k).isSome = (s₂.lookup k).isSome) :
    s₁.entries.length = s₂.entries.length := by
  have := (keys_perm_of_isSome_eq h).length_eq
  simpa [AList.keys, List.keys] using this

theorem encodeTx_congr {inner inner' : TxResults} (h : ∀ a, inner'.lookup a = inner.lookup a) :
    encodeTx inner' = encodeTx inner ∧ inner'.entries.length = inner.entries.length := by
  have hsome : ∀ a, (inner'.lookup a).isSome = (inner.lookup a).isSome := fun a => by rw [h]
  have hsorted : sortedAddresses inner' = sortedAddresses inner :=
    insertionSort_bytesLE_eq addressBytes_injective (keys_perm_of_isSome_eq hsome)
  have hentry : encodeEntry inner' = encodeEntry inner := by
    funext a
    simp only [encodeEntry, lookupBytes, h]
  refine ⟨?_, length_entries_eq_of_isSome_eq hsome⟩
  rw [encodeTx, encodeTx, hsorted, hentry]

theorem encodeResults_congr {r r' : Results} (h : r'.get = r.get) :
    encodeResults r' = encodeResults r := by
  have hget : ∀ k, (r'.lookup k).map (fun inner addr => inner.lookup addr) =
      (r.lookup k).map (fun inner addr => inner.lookup addr) := fun k => congrFun h k
  have hsome : ∀ k, (r'.lookup k).isSome = (r.lookup k).isSome := fun k => by
    simpa using congrArg Option.isSome (hget k)
  have hsorted : sortedHashes r' = sortedHashes r :=
    insertionSort_bytesLE_eq hashBytes_injective (keys_perm_of_isSome_eq hsome)
  have htx : ∀ k a, (lookupTx r' k).lookup a = (lookupTx r k).lookup a := by
    intro k a
    have hk := hget k
    cases h₁ : r'.lookup k <;> cases h₂ : r.lookup k <;> simp only [h₁, h₂] at hk hsome
    · simp [lookupTx, h₁, h₂]
    · simp at hk
    · simp at hk
    · simp only [Option.map_some, Option.some.injEq] at hk
      simp [lookupTx, h₁, h₂, congrFun hk a]
  have hresult : encodeResult r' = encodeResult r := by
    funext k
    obtain ⟨hencode, hlen⟩ := encodeTx_congr (htx k)
    rw [encodeResult, encodeResult, hencode, hlen]
  rw [encodeResults, encodeResults, hsorted, hresult, length_entries_eq_of_isSome_eq hsome]

/-! ## The round trip -/

theorem results_round_trip (r : Results) (hsize : encodedSize r ≤ maxResultsSize) :
    (bytes r).isOk ∧ Results.get <$> (bytes r >>= parseResults) = .ok r.get ∧
      ∀ r' : Results, r'.get = r.get → bytes r' = bytes r := by
  rw [encodedSize_eq_length] at hsize
  have hbytes : bytes r = .ok (encodeResults r) := by
    rw [bytes_eq, if_neg (by omega)]
  refine ⟨by rw [hbytes]; rfl, ?_, fun r' h' => ?_⟩
  · rw [hbytes]
    show Results.get <$> parseResults (encodeResults r) = _
    rw [parseResults_encodeResults r hsize]
    show Except.ok (Results.get _) = _
    rw [get_parsed]
  · rw [bytes_eq, bytes_eq, encodeResults_congr h']

def oneResult : Results := AList.singleton 7 (AList.singleton 9 [1])

theorem results_round_trip_one :
    encodedSize oneResult ≤ maxResultsSize ∧ (bytes oneResult).isOk ∧
      Results.get <$> (bytes oneResult >>= parseResults) = .ok oneResult.get ∧
      ∀ r' : Results, r'.get = oneResult.get → bytes r' = bytes oneResult :=
  ⟨by decide, results_round_trip oneResult (by decide)⟩

end LuxEvm.Predicate
