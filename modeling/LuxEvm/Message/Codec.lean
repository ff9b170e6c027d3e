import LuxEvm.Common

/-!
# The state-sync message codec

`Unmarshal` checks a message's length, reads its `u16` version and decodes the
fields of the destination type with a `wrappers.Packer`. Following the packer's
contract, an unpack past the end records an error and returns the zero value, and
so does every unpack after that. A list is a `u32` count followed by its elements.
The decoder makes a slice with that count as its capacity, then appends elements
while no error is recorded.

Decoding is instrumented with what `make` allocates: each slice's capacity, and
the bytes left to decode when it was made. Every element takes at least four
bytes. So on every message the codec accepts, no slice is made larger than the
bytes left could fill (`unmarshal_fits_of_ok`). The count is read before it is
checked, though, and a rejected message can make a slice of capacity `2^32 - 1`
from six bytes (`unmarshal_allocates_beyond_input`).
-/

set_option autoImplicit false

namespace LuxEvm.Message

open Lib.ByteString (value)

/-! ## The packer -/

/-- `wrappers.Packer` as unpacking reads it. -/
structure Packer where
  bytes : List UInt8
  offset : ℕ
  errored : Bool
  deriving DecidableEq, Repr

namespace Packer

def remaining (p : Packer) : ℕ := p.bytes.length - p.offset

/-- `UnpackFixedBytes`: `size` bytes, or, past the end or after an error, an error
and no bytes. -/
def unpackFixedBytes (size : ℕ) (p : Packer) : List UInt8 × Packer :=
  if p.errored || decide (p.remaining < size) then ([], { p with errored := true })
  else ((p.bytes.drop p.offset).take size, { p with offset := p.offset + size })

/-- A big-endian unsigned integer of `width` bytes, zero on error. -/
def unpackUint (width : ℕ) (p : Packer) : ℕ × Packer :=
  let (bs, p) := p.unpackFixedBytes width
  (value bs, p)

def unpackShort : Packer → ℕ × Packer := unpackUint 2

def unpackInt : Packer → ℕ × Packer := unpackUint 4

def unpackLong : Packer → ℕ × Packer := unpackUint 8

/-- `UnpackBytes`: a `u32` length, then that many bytes. -/
def unpackBytes (p : Packer) : List UInt8 × Packer :=
  let (size, p) := p.unpackInt
  p.unpackFixedBytes size

/-- `copy(h[:], p.UnpackFixedBytes(common.HashLength))` into a zero hash. -/
def unpackHash (p : Packer) : Hash × Packer :=
  let (bs, p) := p.unpackFixedBytes HashLength
  (BitVec.ofNat 256 (value bs), p)

end Packer

/-! ## Decoding with its allocations -/

/-- A slice `make` allocated: its capacity, and the bytes left when it was made. -/
structure Allocation where
  capacity : ℕ
  remaining : ℕ
  deriving DecidableEq, Repr

def Allocation.Fits (a : Allocation) : Prop := 4 * a.capacity ≤ a.remaining

instance : DecidablePred Allocation.Fits := fun a =>
  inferInstanceAs (Decidable (4 * a.capacity ≤ a.remaining))

structure DecodeState where
  packer : Packer
  allocated : List Allocation

abbrev Decode := StateM DecodeState

/-- Run one of the packer's unpack functions. -/
def unpack {α : Type} (f : Packer → α × Packer) : Decode α :=
  modifyGet fun s => let r := f s.packer; (r.1, { s with packer := r.2 })

/-- `make([]T, 0, capacity)`. -/
def make (capacity : ℕ) : Decode Unit :=
  modify fun s => { s with allocated := s.allocated ++ [⟨capacity, s.packer.remaining⟩] }

/-- `p.Errored()`. -/
def errored : Decode Bool := do return (← get).packer.errored

/-- `for i := uint32(0); i < count && !p.Errored(); i++ { xs = append(xs, elem) }` -/
def unpackLoop {α : Type} (elem : Decode α) : ℕ → List α → Decode (List α)
  | 0, xs => pure xs
  | count + 1, xs => do
    if ← errored then return xs
    let x ← elem
    unpackLoop elem count (xs ++ [x])

/-- A list on the wire: its count, a slice made with that capacity, then the
elements while no error is recorded. -/
def unpackList {α : Type} (elem : Decode α) : Decode (List α) := do
  let count ← unpack Packer.unpackInt
  make count
  unpackLoop elem count []

/-! ## Messages -/

structure BlockRequest where
  hash : Hash
  height : ℕ
  parents : ℕ
  deriving DecidableEq, Repr

structure BlockResponse where
  blocks : List (List UInt8)
  deriving DecidableEq, Repr

structure LeafsRequest where
  root : Hash
  account : Hash
  start : List UInt8
  /-- `End` -/
  endKey : List UInt8
  limit : ℕ
  deriving DecidableEq, Repr

/-- `LeafsResponse`; `More` is not on the wire and is left out. -/
structure LeafsResponse where
  keys : List (List UInt8)
  vals : List (List UInt8)
  proofVals : List (List UInt8)
  deriving DecidableEq, Repr

structure CodeRequest where
  hashes : List Hash
  deriving DecidableEq, Repr

structure CodeResponse where
  data : List (List UInt8)
  deriving DecidableEq, Repr

/-- `SyncSummary`, its wire fields. -/
structure SyncSummary where
  blockNumber : ℕ
  blockHash : Hash
  blockRoot : Hash
  deriving DecidableEq, Repr

def unmarshalBlockRequest : Decode BlockRequest := do
  let hash ← unpack Packer.unpackHash
  let height ← unpack Packer.unpackLong
  let parents ← unpack Packer.unpackShort
  return ⟨hash, height, parents⟩

def unmarshalBlockResponse : Decode BlockResponse := do
  let blocks ← unpackList (unpack Packer.unpackBytes)
  return ⟨blocks⟩

def unmarshalLeafsRequest : Decode LeafsRequest := do
  let root ← unpack Packer.unpackHash
  let account ← unpack Packer.unpackHash
  let start ← unpack Packer.unpackBytes
  let endKey ← unpack Packer.unpackBytes
  let limit ← unpack Packer.unpackShort
  return ⟨root, account, start, endKey, limit⟩

def unmarshalLeafsResponse : Decode LeafsResponse := do
  let keys ← unpackList (unpack Packer.unpackBytes)
  let vals ← unpackList (unpack Packer.unpackBytes)
  let proofVals ← unpackList (unpack Packer.unpackBytes)
  return ⟨keys, vals, proofVals⟩

def unmarshalCodeRequest : Decode CodeRequest := do
  let hashes ← unpackList (unpack Packer.unpackHash)
  return ⟨hashes⟩

def unmarshalCodeResponse : Decode CodeResponse := do
  let data ← unpackList (unpack Packer.unpackBytes)
  return ⟨data⟩

def unmarshalSyncSummary : Decode SyncSummary := do
  let blockNumber ← unpack Packer.unpackLong
  let blockHash ← unpack Packer.unpackHash
  let blockRoot ← unpack Packer.unpackHash
  return ⟨blockNumber, blockHash, blockRoot⟩

inductive Dest where
  | blockRequest
  | blockResponse
  | leafsRequest
  | leafsResponse
  | codeRequest
  | codeResponse
  | syncSummary
  deriving DecidableEq, Repr

inductive Decoded where
  | blockRequest (m : BlockRequest)
  | blockResponse (m : BlockResponse)
  | leafsRequest (m : LeafsRequest)
  | leafsResponse (m : LeafsResponse)
  | codeRequest (m : CodeRequest)
  | codeResponse (m : CodeResponse)
  | syncSummary (m : SyncSummary)
  deriving DecidableEq, Repr

def unmarshalValue : Dest → Decode Decoded
  | .blockRequest => .blockRequest <$> unmarshalBlockRequest
  | .blockResponse => .blockResponse <$> unmarshalBlockResponse
  | .leafsRequest => .leafsRequest <$> unmarshalLeafsRequest
  | .leafsResponse => .leafsResponse <$> unmarshalLeafsResponse
  | .codeRequest => .codeRequest <$> unmarshalCodeRequest
  | .codeResponse => .codeResponse <$> unmarshalCodeResponse
  | .syncSummary => .syncSummary <$> unmarshalSyncSummary

inductive CodecError where
  | cantUnpackVersion
  | maxSliceLenExceeded
  | unknownVersion (version : ℕ)
  /-- `p.Err`: the packer's `ErrInsufficientLength` -/
  | insufficientLength
  deriving DecidableEq, Repr

def version : ℕ := 0

/-- `2*constants.MiB - 64*constants.KiB` -/
def maxMessageSize : ℕ := 2 * 1048576 - 64 * 1024

/-- What `Unmarshal` returns, with what it allocated. -/
structure Outcome where
  version : ℕ
  result : Except CodecError Decoded
  allocated : List Allocation

/-- `Unmarshal` once the length checks passed. -/
def unmarshalPacked (dest : Dest) : Decode (ℕ × Except CodecError Decoded) := do
  let v ← unpack Packer.unpackShort
  if ← errored then return (0, .error .cantUnpackVersion)
  if v ≠ version then return (v, .error (.unknownVersion v))
  let msg ← unmarshalValue dest
  if ← errored then return (v, .error .insufficientLength)
  return (v, .ok msg)

def unmarshal (bytes : List UInt8) (dest : Dest) : Outcome :=
  if bytes.length < 2 then ⟨0, .error .cantUnpackVersion, []⟩
  else if maxMessageSize < bytes.length then ⟨0, .error .maxSliceLenExceeded, []⟩
  else
    let r := (unmarshalPacked dest).run ⟨⟨bytes, 0, false⟩, []⟩
    ⟨r.1.1, r.1.2, r.2.allocated⟩

/-! ## What an unpack reads -/

namespace Packer

def Consumes {α : Type} (f : Packer → α × Packer) (k : ℕ) : Prop :=
  ∀ p, (f p).2.errored = false → p.errored = false ∧ k + (f p).2.remaining ≤ p.remaining

variable {α β : Type}

theorem Consumes.mono {f : Packer → α × Packer} {k k' : ℕ} (h : Consumes f k) (hk : k' ≤ k) :
    Consumes f k' := fun p hp =>
  ⟨(h p hp).1, le_trans (Nat.add_le_add_right hk _) (h p hp).2⟩

theorem Consumes.seq {f : Packer → α × Packer} {g : α → Packer → β × Packer} {a b : ℕ}
    (hf : Consumes f a) (hg : ∀ x, Consumes (g x) b) :
    Consumes (fun p => g (f p).1 (f p).2) (a + b) := by
  intro p hp
  dsimp only at hp ⊢
  obtain ⟨hf₁, hg₂⟩ := hg _ _ hp
  obtain ⟨hp₁, hf₂⟩ := hf p hf₁
  exact ⟨hp₁, by omega⟩

theorem consumes_unpackFixedBytes (size : ℕ) : Consumes (unpackFixedBytes size) size := by
  intro p hp
  unfold unpackFixedBytes at hp ⊢
  split at hp
  · simp at hp
  · rename_i hs
    rw [if_neg hs]
    simp only [Bool.or_eq_true, decide_eq_true_eq, not_or, Bool.not_eq_true, not_lt] at hs
    exact ⟨hs.1, by simp only [remaining] at hs ⊢; omega⟩

theorem consumes_unpackUint (width : ℕ) : Consumes (unpackUint width) width :=
  consumes_unpackFixedBytes width

theorem consumes_unpackInt : Consumes unpackInt 4 := consumes_unpackUint 4

theorem consumes_unpackBytes : Consumes unpackBytes 4 :=
  (consumes_unpackInt.seq fun size => (consumes_unpackFixedBytes size).mono (Nat.zero_le _)).mono
    (Nat.le_add_right 4 0)

theorem consumes_unpackHash : Consumes unpackHash 32 :=
  consumes_unpackFixedBytes HashLength

end Packer

/-! ## Decoders that make only slices the input could fill -/

section Decoders

variable {α β : Type}

theorem run_bind (d : Decode α) (f : α → Decode β) (s : DecodeState) :
    (d >>= f).run s = (f (d.run s).1).run (d.run s).2 := rfl

theorem run_map (f : α → β) (d : Decode α) (s : DecodeState) :
    (f <$> d).run s = (f (d.run s).1, (d.run s).2) := rfl

theorem run_pure (a : α) (s : DecodeState) : (pure a : Decode α).run s = (a, s) := rfl

theorem run_unpack (f : Packer → α × Packer) (s : DecodeState) :
    (unpack f).run s = ((f s.packer).1, { s with packer := (f s.packer).2 }) := rfl

theorem run_errored (s : DecodeState) : errored.run s = (s.packer.errored, s) := rfl

def Consumes (elem : Decode α) (k : ℕ) : Prop :=
  ∀ s, (elem.run s).2.allocated = s.allocated ∧
    ((elem.run s).2.packer.errored = false →
      s.packer.errored = false ∧ k + (elem.run s).2.packer.remaining ≤ s.packer.remaining)

theorem consumes_unpack {f : Packer → α × Packer} {k : ℕ} (hf : Packer.Consumes f k) :
    Consumes (unpack f) k := fun s => ⟨rfl, hf s.packer⟩

theorem unpackLoop_consumes {elem : Decode α} {k : ℕ} (h : Consumes elem k) (count : ℕ)
    (xs : List α) (s : DecodeState) :
    ((unpackLoop elem count xs).run s).2.allocated = s.allocated ∧
      (((unpackLoop elem count xs).run s).2.packer.errored = false →
        s.packer.errored = false ∧
          k * count + ((unpackLoop elem count xs).run s).2.packer.remaining ≤ s.packer.remaining) := by
  induction count generalizing xs s with
  | zero =>
    refine ⟨rfl, fun he => ⟨he, ?_⟩⟩
    show k * 0 + s.packer.remaining ≤ s.packer.remaining
    omega
  | succ count ih =>
    simp only [unpackLoop, run_bind, run_errored]
    by_cases he : s.packer.errored = true
    · -- an error is recorded: the loop stops where it is
      simp only [he, ↓reduceIte]
      exact ⟨rfl, fun hf => absurd he (Bool.not_eq_true _ ▸ hf)⟩
    · -- one element, then the remaining rounds from where it stopped
      simp only [Bool.not_eq_true] at he
      simp only [he, Bool.false_eq_true, ↓reduceIte, run_bind]
      obtain ⟨ha, hc⟩ := h s
      obtain ⟨ha', hc'⟩ := ih (xs ++ [(elem.run s).1]) (elem.run s).2
      refine ⟨ha'.trans ha, fun hf => ⟨trivial, ?_⟩⟩
      obtain ⟨h₁, h₂⟩ := hc' hf
      have h₃ := (hc h₁).2
      rw [Nat.mul_succ]
      omega

def Thrifty (d : Decode α) : Prop :=
  ∀ s, ∃ new, (d.run s).2.allocated = s.allocated ++ new ∧
    ((d.run s).2.packer.errored = false → s.packer.errored = false ∧ ∀ a ∈ new, a.Fits)

namespace Thrifty

theorem pure (a : α) : Thrifty (Pure.pure a : Decode α) := fun s =>
  ⟨[], (List.append_nil _).symm, fun h => ⟨h, by simp⟩⟩

theorem bind {d : Decode α} {f : α → Decode β} (hd : Thrifty d) (hf : ∀ a, Thrifty (f a)) :
    Thrifty (d >>= f) := by
  intro s
  obtain ⟨new₁, h₁, he₁⟩ := hd s
  obtain ⟨new₂, h₂, he₂⟩ := hf (d.run s).1 (d.run s).2
  refine ⟨new₁ ++ new₂, by rw [run_bind, h₂, h₁, List.append_assoc], fun he => ?_⟩
  obtain ⟨hs₁, hfit₂⟩ := he₂ he
  obtain ⟨hs, hfit₁⟩ := he₁ hs₁
  exact ⟨hs, fun a ha => (List.mem_append.mp ha).elim (hfit₁ a) (hfit₂ a)⟩

theorem map (f : α → β) {d : Decode α} (hd : Thrifty d) : Thrifty (f <$> d) := hd

theorem ite {c : Prop} [Decidable c] {a b : Decode α} (ha : Thrifty a) (hb : Thrifty b) :
    Thrifty (if c then a else b) := by
  split
  · exact ha
  · exact hb

theorem unpack {f : Packer → α × Packer} {k : ℕ} (hf : Packer.Consumes f k) :
    Thrifty (unpack f) := fun s =>
  ⟨[], by simp [run_unpack], fun he => ⟨(hf s.packer he).1, by simp⟩⟩

theorem errored : Thrifty errored := fun s =>
  ⟨[], by simp [run_errored], fun he => ⟨he, by simp⟩⟩

theorem unpackList {elem : Decode α} (h : Consumes elem 4) : Thrifty (unpackList elem) := by
  intro s
  let c := (s.packer.unpackInt).1
  let p₁ := (s.packer.unpackInt).2
  obtain ⟨ha, hc⟩ := unpackLoop_consumes h c [] ⟨p₁, s.allocated ++ [⟨c, p₁.remaining⟩]⟩
  refine ⟨[⟨c, p₁.remaining⟩], ha, fun he => ?_⟩
  obtain ⟨h₁, h₂⟩ := hc he
  dsimp only at h₁ h₂
  refine ⟨(Packer.consumes_unpackInt s.packer h₁).1, ?_⟩
  simp only [List.mem_singleton, forall_eq, Allocation.Fits]
  omega

end Thrifty

theorem thrifty_unpackBytes : Thrifty (unpack Packer.unpackBytes) :=
  .unpack Packer.consumes_unpackBytes

theorem thrifty_unpackBytesList : Thrifty (unpackList (unpack Packer.unpackBytes)) :=
  .unpackList (consumes_unpack Packer.consumes_unpackBytes)

theorem thrifty_unpackHash : Thrifty (unpack Packer.unpackHash) :=
  .unpack Packer.consumes_unpackHash

theorem thrifty_unmarshalValue (dest : Dest) : Thrifty (unmarshalValue dest) := by
  cases dest with
  | blockRequest =>
    exact .map _ <| thrifty_unpackHash.bind fun _ =>
      (Thrifty.unpack (Packer.consumes_unpackUint 8)).bind fun _ =>
      (Thrifty.unpack (Packer.consumes_unpackUint 2)).bind fun _ => .pure _
  | blockResponse => exact .map _ <| thrifty_unpackBytesList.bind fun _ => .pure _
  | leafsRequest =>
    exact .map _ <| thrifty_unpackHash.bind fun _ => thrifty_unpackHash.bind fun _ =>
      thrifty_unpackBytes.bind fun _ => thrifty_unpackBytes.bind fun _ =>
      (Thrifty.unpack (Packer.consumes_unpackUint 2)).bind fun _ => .pure _
  | leafsResponse =>
    exact .map _ <| thrifty_unpackBytesList.bind fun _ => thrifty_unpackBytesList.bind fun _ =>
      thrifty_unpackBytesList.bind fun _ => .pure _
  | codeRequest =>
    exact .map _ <| (Thrifty.unpackList
      (consumes_unpack (Packer.consumes_unpackHash.mono (by decide)))).bind fun _ => .pure _
  | codeResponse => exact .map _ <| thrifty_unpackBytesList.bind fun _ => .pure _
  | syncSummary =>
    exact .map _ <| (Thrifty.unpack (Packer.consumes_unpackUint 8)).bind fun _ =>
      thrifty_unpackHash.bind fun _ => thrifty_unpackHash.bind fun _ => .pure _

theorem thrifty_unmarshalPacked (dest : Dest) : Thrifty (unmarshalPacked dest) :=
  (Thrifty.unpack (Packer.consumes_unpackUint 2)).bind fun _ => Thrifty.errored.bind fun _ =>
    .ite (.pure _) <| .ite (.pure _) <| (thrifty_unmarshalValue dest).bind fun _ =>
      Thrifty.errored.bind fun _ => .ite (.pure _) (.pure _)

end Decoders

theorem run_ite {α : Type} {c : Prop} [Decidable c] (a b : Decode α) (s : DecodeState) :
    (if c then a else b).run s = if c then a.run s else b.run s := by
  split <;> rfl

theorem run_errored_ite {α : Type} (a b : Decode α) (s : DecodeState) :
    (do if ← errored then a else b).run s = if s.packer.errored then a.run s else b.run s := by
  show (if s.packer.errored = true then a else b).run s = _
  by_cases h : s.packer.errored = true <;> simp [h]

theorem errored_of_unmarshalPacked_eq_ok {dest : Dest} {s : DecodeState} {v : ℕ}
    {msg : Decoded} (h : ((unmarshalPacked dest).run s).1 = (v, .ok msg)) :
    ((unmarshalPacked dest).run s).2.packer.errored = false := by
  simp only [unmarshalPacked, ↓run_errored_ite, run_ite, run_bind] at h ⊢
  generalize (unpack Packer.unpackShort).run s = r₁ at h ⊢
  obtain ⟨v₁, s₁⟩ := r₁
  generalize (unmarshalValue dest).run s₁ = r₂ at h ⊢
  obtain ⟨m, s₂⟩ := r₂
  split_ifs at h ⊢ with h₁ h₂ h₃
  · simp only [run_pure] at h
    simp at h
  · simp only [run_pure] at h
    simp at h
  · simp only [run_pure] at h
    simp at h
  · exact Bool.eq_false_iff.mpr h₃

/-- On every message the codec accepts, no slice was made larger than the bytes left
could fill. -/
theorem unmarshal_fits_of_ok (bytes : List UInt8) (dest : Dest) {msg : Decoded}
    (h : (unmarshal bytes dest).result = .ok msg) :
    ∀ a ∈ (unmarshal bytes dest).allocated, a.Fits := by
  unfold unmarshal at h ⊢
  split_ifs at h ⊢
  dsimp only at h ⊢
  obtain ⟨new, hnew, hfit⟩ := thrifty_unmarshalPacked dest ⟨⟨bytes, 0, false⟩, []⟩
  have he := errored_of_unmarshalPacked_eq_ok (Prod.ext rfl h)
  rw [hnew, List.nil_append]
  exact (hfit he).2

/-- A leafs response whose key count is `2^32 - 1`, and nothing after it. -/
def hugeKeyCount : List UInt8 := [0, 0, 255, 255, 255, 255]

theorem unmarshal_allocates_beyond_input :
    (unmarshal hugeKeyCount .leafsResponse).allocated = [⟨2^32 - 1, 0⟩, ⟨0, 0⟩, ⟨0, 0⟩] ∧
      ¬ (⟨2^32 - 1, 0⟩ : Allocation).Fits ∧
      (unmarshal hugeKeyCount .leafsResponse).result.isOk = false := by
  decide

end LuxEvm.Message
