import LuxEvm.Message.Codec
import LuxEvm.Lib.ByteBuffer

/-!
# Marshalling state-sync messages

`Marshal` packs the `u16` version, then the message's fields with a
`wrappers.Packer` of `MaxSize` `maxMessageSize`, in the layout `Unmarshal`
reads: a hash as its 32 bytes, an integer big-endian at its width, a byte
string as its `u32` length and its bytes, a list as its `u32` count and its
elements. As the packer documents, a pack that would take the buffer past
`MaxSize` records an error, and nothing is packed after one.

Each layout is written out as bytes (`encodeValue`). Packing writes exactly
them (`Packs`), and each decoder reads them back (`Decodes`), one lemma per
field kind, threaded through the fields and the lists. So every message whose
encoding fits the maximum size, each integer field within its Go type,
marshals with version `0` to that encoding and unmarshals to itself with
version `0` (`unmarshal_marshal`). A byte string is a list here, so a nil and
an empty one are the same, and `LeafsResponse.More` is not on the wire.
-/

set_option autoImplicit false

namespace LuxEvm.Message

open Lib.ByteString (value encode length_encode value_encode ofNat_value_encode)
open Lib.ByteBuffer (length_le_length_flatMap_of_mem length_le_length_flatMap)

/-! ## The wire format -/

/-- `h[:]`. -/
def encodeHash (h : Hash) : List UInt8 := encode HashLength h.toNat

/-- What `PackBytes` writes: the `u32` length, then the bytes. -/
def encodeBytes (bs : List UInt8) : List UInt8 := encode 4 bs.length ++ bs

/-- What a list's pack loop writes: the `u32` count, then each element. -/
def encodeList {α : Type} (enc : α → List UInt8) (xs : List α) : List UInt8 :=
  encode 4 xs.length ++ xs.flatMap enc

/-- Each message's layout, after the version. -/
def encodeValue : Decoded → List UInt8
  | .blockRequest m => encodeHash m.hash ++ encode 8 m.height ++ encode 2 m.parents
  | .blockResponse m => encodeList encodeBytes m.blocks
  | .leafsRequest m => encodeHash m.root ++ encodeHash m.account ++ encodeBytes m.start ++
      encodeBytes m.endKey ++ encode 2 m.limit
  | .leafsResponse m => encodeList encodeBytes m.keys ++ encodeList encodeBytes m.vals ++
      encodeList encodeBytes m.proofVals
  | .codeRequest m => encodeList encodeHash m.hashes
  | .codeResponse m => encodeList encodeBytes m.data
  | .syncSummary m => encode 8 m.blockNumber ++ encodeHash m.blockHash ++ encodeHash m.blockRoot

def Decoded.dest : Decoded → Dest
  | .blockRequest _ => .blockRequest
  | .blockResponse _ => .blockResponse
  | .leafsRequest _ => .leafsRequest
  | .leafsResponse _ => .leafsResponse
  | .codeRequest _ => .codeRequest
  | .codeResponse _ => .codeResponse
  | .syncSummary _ => .syncSummary

/-- Each integer field within its Go type: `Height` and `BlockNumber` are
`uint64`, `Parents` and `Limit` `uint16`. -/
def Decoded.InRange : Decoded → Prop
  | .blockRequest m => m.height < 2^64 ∧ m.parents < 2^16
  | .leafsRequest m => m.limit < 2^16
  | .syncSummary m => m.blockNumber < 2^64
  | _ => True

instance : DecidablePred Decoded.InRange := fun m => by
  cases m <;> unfold Decoded.InRange <;> infer_instance

/-! ## Packing -/

namespace Packer

/-- `PackFixedBytes` on a packer whose offset is its length, as `Marshal`'s
is: the bytes are appended when they keep the buffer within `maxSize`, else an
error is recorded; nothing is packed after an error. -/
def packFixedBytes (maxSize : ℕ) (bs : List UInt8) (p : Packer) : Packer :=
  if p.errored || decide (maxSize < p.offset + bs.length) then { p with errored := true }
  else { p with bytes := p.bytes ++ bs, offset := p.offset + bs.length }

/-- A big-endian unsigned integer of `width` bytes. -/
def packUint (maxSize width v : ℕ) (p : Packer) : Packer := p.packFixedBytes maxSize (encode width v)

def packShort (maxSize v : ℕ) (p : Packer) : Packer := p.packUint maxSize 2 v

def packInt (maxSize v : ℕ) (p : Packer) : Packer := p.packUint maxSize 4 v

def packLong (maxSize v : ℕ) (p : Packer) : Packer := p.packUint maxSize 8 v

/-- `PackBytes`: the `u32` length, then the bytes. -/
def packBytes (maxSize : ℕ) (bs : List UInt8) (p : Packer) : Packer :=
  (p.packInt maxSize bs.length).packFixedBytes maxSize bs

end Packer

section Marshal

variable (maxSize : ℕ)

def marshalBlockRequest (b : BlockRequest) (p : Packer) : Packer :=
  let p := p.packFixedBytes maxSize (encodeHash b.hash)
  let p := p.packLong maxSize b.height
  p.packShort maxSize b.parents

/-- The count, then each byte string. -/
def marshalBytesList (xs : List (List UInt8)) (p : Packer) : Packer :=
  xs.foldl (fun p x => p.packBytes maxSize x) (p.packInt maxSize xs.length)

def marshalBlockResponse (b : BlockResponse) (p : Packer) : Packer :=
  marshalBytesList maxSize b.blocks p

def marshalLeafsRequest (l : LeafsRequest) (p : Packer) : Packer :=
  let p := p.packFixedBytes maxSize (encodeHash l.root)
  let p := p.packFixedBytes maxSize (encodeHash l.account)
  let p := p.packBytes maxSize l.start
  let p := p.packBytes maxSize l.endKey
  p.packShort maxSize l.limit

def marshalLeafsResponse (l : LeafsResponse) (p : Packer) : Packer :=
  let p := marshalBytesList maxSize l.keys p
  let p := marshalBytesList maxSize l.vals p
  marshalBytesList maxSize l.proofVals p

def marshalCodeRequest (c : CodeRequest) (p : Packer) : Packer :=
  c.hashes.foldl (fun p h => p.packFixedBytes maxSize (encodeHash h)) (p.packInt maxSize c.hashes.length)

def marshalCodeResponse (c : CodeResponse) (p : Packer) : Packer :=
  marshalBytesList maxSize c.data p

def marshalSyncSummary (s : SyncSummary) (p : Packer) : Packer :=
  let p := p.packLong maxSize s.blockNumber
  let p := p.packFixedBytes maxSize (encodeHash s.blockHash)
  p.packFixedBytes maxSize (encodeHash s.blockRoot)

def marshalValue : Decoded → Packer → Packer
  | .blockRequest m => marshalBlockRequest maxSize m
  | .blockResponse m => marshalBlockResponse maxSize m
  | .leafsRequest m => marshalLeafsRequest maxSize m
  | .leafsResponse m => marshalLeafsResponse maxSize m
  | .codeRequest m => marshalCodeRequest maxSize m
  | .codeResponse m => marshalCodeResponse maxSize m
  | .syncSummary m => marshalSyncSummary maxSize m

end Marshal

/-- The errors of `Marshal`. -/
inductive MarshalError where
  /-- `ErrCantPackVersion` -/
  | cantPackVersion
  /-- `p.Err`: the packer's `ErrInsufficientLength` -/
  | insufficientLength
  deriving DecidableEq, Repr

/-- `Marshal`, from an empty packer. -/
def marshal (v : ℕ) (source : Decoded) : Except MarshalError (List UInt8) :=
  if v ≠ version then .error .cantPackVersion
  else
    let p := Packer.packShort maxMessageSize v ⟨[], 0, false⟩
    if p.errored then .error .cantPackVersion
    else
      let p := marshalValue maxMessageSize source p
      if p.errored then .error .insufficientLength else .ok p.bytes

/-! ## Packing writes the layout -/

section Packs

variable {maxSize : ℕ}

/-- `f` appends `enc` to every packer without an error that `enc` keeps within
`maxSize`. -/
def Packs (maxSize : ℕ) (f : Packer → Packer) (enc : List UInt8) : Prop :=
  ∀ p : Packer, p.errored = false → p.offset + enc.length ≤ maxSize →
    f p = { p with bytes := p.bytes ++ enc, offset := p.offset + enc.length }

theorem Packs.comp {f g : Packer → Packer} {e₁ e₂ : List UInt8} (hf : Packs maxSize f e₁)
    (hg : Packs maxSize g e₂) : Packs maxSize (fun p => g (f p)) (e₁ ++ e₂) := by
  intro p he hfit
  rw [List.length_append] at hfit
  dsimp only
  rw [hf p he (by omega),
    hg { p with bytes := p.bytes ++ e₁, offset := p.offset + e₁.length } he (by dsimp only; omega)]
  simp only [List.append_assoc, List.length_append, Nat.add_assoc]

theorem packs_packFixedBytes (bs : List UInt8) : Packs maxSize (Packer.packFixedBytes maxSize bs) bs := by
  intro p he hfit
  rw [Packer.packFixedBytes, if_neg (by simp [he]; omega)]

theorem packs_packUint (width v : ℕ) : Packs maxSize (Packer.packUint maxSize width v) (encode width v) :=
  packs_packFixedBytes _

theorem packs_packBytes (bs : List UInt8) : Packs maxSize (Packer.packBytes maxSize bs) (encodeBytes bs) :=
  (packs_packUint 4 bs.length).comp (packs_packFixedBytes bs)

theorem packs_foldl {α : Type} {g : Packer → α → Packer} {enc : α → List UInt8} (xs : List α)
    (hg : ∀ x ∈ xs, Packs maxSize (fun p => g p x) (enc x)) :
    Packs maxSize (fun p => xs.foldl g p) (xs.flatMap enc) := by
  induction xs with
  | nil =>
    intro p _ _
    simp
  | cons x xs ih =>
    exact (hg x List.mem_cons_self).comp (ih fun y hy => hg y (List.mem_cons_of_mem x hy))

theorem packs_marshalBytesList (xs : List (List UInt8)) :
    Packs maxSize (marshalBytesList maxSize xs) (encodeList encodeBytes xs) :=
  (packs_packUint 4 xs.length).comp (packs_foldl xs fun x _ => packs_packBytes x)

theorem packs_marshalValue (m : Decoded) : Packs maxSize (marshalValue maxSize m) (encodeValue m) := by
  cases m with
  | blockRequest m =>
    exact ((packs_packFixedBytes _).comp (packs_packUint 8 _)).comp (packs_packUint 2 _)
  | blockResponse m => exact packs_marshalBytesList m.blocks
  | leafsRequest m =>
    exact ((((packs_packFixedBytes _).comp (packs_packFixedBytes _)).comp (packs_packBytes _)).comp
      (packs_packBytes _)).comp (packs_packUint 2 _)
  | leafsResponse m =>
    exact ((packs_marshalBytesList m.keys).comp (packs_marshalBytesList m.vals)).comp
      (packs_marshalBytesList m.proofVals)
  | codeRequest m =>
    exact (packs_packUint 4 _).comp (packs_foldl m.hashes fun h _ => packs_packFixedBytes (encodeHash h))
  | codeResponse m => exact packs_marshalBytesList m.data
  | syncSummary m =>
    exact ((packs_packUint 8 _).comp (packs_packFixedBytes _)).comp (packs_packFixedBytes _)

end Packs

/-! ## Decoding reads the layout back -/

theorem prefix_drop_of_append {l e₁ e₂ : List UInt8} {o : ℕ} (h : e₁ ++ e₂ <+: l.drop o) :
    e₂ <+: l.drop (o + e₁.length) := by
  obtain ⟨t, ht⟩ := h
  refine ⟨t, ?_⟩
  rw [← List.drop_drop, ← ht, List.append_assoc, List.drop_left]

namespace Packer

variable {α β : Type}

/-- The unpack `f` reads `x` from `enc`: from every packer without an error
whose unread bytes begin with `enc`, it returns `x` and moves past `enc`. -/
def Reads (f : Packer → α × Packer) (enc : List UInt8) (x : α) : Prop :=
  ∀ p : Packer, p.errored = false → enc <+: p.bytes.drop p.offset →
    f p = (x, { p with offset := p.offset + enc.length })

theorem reads_unpackFixedBytes (bs : List UInt8) : Reads (unpackFixedBytes bs.length) bs bs := by
  intro p he hpre
  have hlen := hpre.length_le
  rw [List.length_drop] at hlen
  have hfits : ¬(p.errored || decide (p.remaining < bs.length)) = true := by
    rw [he, Bool.false_or, decide_eq_true_eq, remaining]
    omega
  rw [unpackFixedBytes, if_neg hfits]
  exact Prod.ext (List.prefix_iff_eq_take.mp hpre).symm rfl

theorem reads_unpackUint {w v : ℕ} (hv : v < 256^w) : Reads (unpackUint w) (encode w v) v := by
  intro p he hpre
  have h := reads_unpackFixedBytes _ p he hpre
  rw [length_encode] at h
  rw [unpackUint, h]
  dsimp only
  rw [value_encode, Nat.mod_eq_of_lt hv, length_encode]

theorem reads_unpackHash (h : Hash) : Reads unpackHash (encodeHash h) h := by
  intro p he hpre
  have hb := reads_unpackFixedBytes _ p he hpre
  rw [encodeHash, length_encode] at hb
  rw [unpackHash, hb]
  dsimp only
  rw [ofNat_value_encode HashLength h (by decide), encodeHash, length_encode]

theorem reads_unpackBytes {bs : List UInt8} (hbs : bs.length < 2^32) :
    Reads unpackBytes (encodeBytes bs) bs := by
  intro p he hpre
  have h₁ := reads_unpackUint (show bs.length < 256^4 from hbs) p he (List.IsPrefix.trans
    (List.prefix_append _ _) hpre)
  have h₂ := reads_unpackFixedBytes bs { p with offset := p.offset + (encode 4 bs.length).length } he
    (prefix_drop_of_append hpre)
  rw [unpackBytes, unpackInt, h₁]
  dsimp only
  rw [h₂, encodeBytes, List.length_append, Nat.add_assoc]

end Packer

section Decodes

variable {α β : Type}

/-- `d` reads `x` from `enc`: from every state whose packer has no error and
whose unread bytes begin with `enc`, it returns `x` and moves the packer past
`enc`. -/
def Decodes (d : Decode α) (enc : List UInt8) (x : α) : Prop :=
  ∀ s : DecodeState, s.packer.errored = false → enc <+: s.packer.bytes.drop s.packer.offset →
    (d.run s).1 = x ∧ (d.run s).2.packer = { s.packer with offset := s.packer.offset + enc.length }

theorem Decodes.congr {d : Decode α} {enc enc' : List UInt8} {x x' : α} (h : Decodes d enc x)
    (he : enc = enc') (hx : x = x') : Decodes d enc' x' := he ▸ hx ▸ h

theorem Decodes.pure (x : α) : Decodes (Pure.pure x : Decode α) [] x := fun _ _ _ => ⟨rfl, rfl⟩

theorem Decodes.bind {d : Decode α} {k : α → Decode β} {e₁ e₂ : List UInt8} {x : α} {y : β}
    (hd : Decodes d e₁ x) (hk : Decodes (k x) e₂ y) : Decodes (d >>= k) (e₁ ++ e₂) y := by
  intro s he hpre
  obtain ⟨hx, hs⟩ := hd s he (List.IsPrefix.trans (List.prefix_append _ _) hpre)
  have hpre₂ : e₂ <+: (d.run s).2.packer.bytes.drop (d.run s).2.packer.offset := by
    rw [hs]
    exact prefix_drop_of_append hpre
  obtain ⟨hy, hs₂⟩ := hk (d.run s).2 (by rw [hs]; exact he) hpre₂
  refine ⟨by rw [run_bind, hx]; exact hy, ?_⟩
  rw [run_bind, hx, hs₂, hs, List.length_append, Nat.add_assoc]

theorem Decodes.map (f : α → β) {d : Decode α} {enc : List UInt8} {x : α} (hd : Decodes d enc x) :
    Decodes (f <$> d) enc (f x) := fun s he hpre =>
  ⟨by rw [run_map, (hd s he hpre).1], by rw [run_map]; exact (hd s he hpre).2⟩

theorem decodes_unpack {f : Packer → α × Packer} {enc : List UInt8} {x : α} (hf : Packer.Reads f enc x) :
    Decodes (unpack f) enc x := fun s he hpre => by
  rw [run_unpack, hf s.packer he hpre]
  exact ⟨rfl, rfl⟩

theorem decodes_errored : Decodes errored [] false := fun _ he _ => ⟨he, rfl⟩

theorem decodes_make (capacity : ℕ) : Decodes (make capacity) [] () := fun _ _ _ => ⟨rfl, rfl⟩

theorem decodes_unpackLoop {elem : Decode α} {enc : α → List UInt8} (xs : List α)
    (hxs : ∀ x ∈ xs, Decodes elem (enc x) x) (acc : List α) :
    Decodes (unpackLoop elem xs.length acc) (xs.flatMap enc) (acc ++ xs) := by
  induction xs generalizing acc with
  | nil => exact (Decodes.pure acc).congr rfl (List.append_nil acc).symm
  | cons x xs ih =>
    have hrest : Decodes (unpackLoop elem xs.length (acc ++ [x])) (xs.flatMap enc) (acc ++ x :: xs) :=
      (ih (fun y hy => hxs y (List.mem_cons_of_mem x hy)) (acc ++ [x])).congr rfl (by simp)
    have hstep : Decodes (unpackLoop elem (xs.length + 1) acc) ([] ++ (enc x ++ xs.flatMap enc))
        (acc ++ x :: xs) :=
      decodes_errored.bind ((hxs x List.mem_cons_self).bind hrest)
    exact hstep.congr (by simp) rfl

theorem decodes_unpackList {elem : Decode α} {enc : α → List UInt8} (xs : List α) (hlen : xs.length < 2^32)
    (hxs : ∀ x ∈ xs, Decodes elem (enc x) x) : Decodes (unpackList elem) (encodeList enc xs) xs := by
  have h : Decodes (unpackList elem) (encode 4 xs.length ++ ([] ++ xs.flatMap enc)) ([] ++ xs) :=
    (decodes_unpack (Packer.reads_unpackUint (show xs.length < 256^4 from hlen))).bind
      ((decodes_make _).bind (decodes_unpackLoop xs hxs []))
  exact h.congr (by rw [List.nil_append, encodeList]) (List.nil_append xs)

theorem encodeList_bounds {enc : α → List UInt8} {xs : List α} (hne : ∀ x, 1 ≤ (enc x).length)
    (h : (encodeList enc xs).length < 2^32) : xs.length < 2^32 ∧ ∀ x ∈ xs, (enc x).length < 2^32 := by
  rw [encodeList, List.length_append, length_encode] at h
  refine ⟨?_, fun x hx => ?_⟩
  · have := length_le_length_flatMap enc xs fun x _ => hne x
    omega
  · have := length_le_length_flatMap_of_mem enc hx
    omega

end Decodes

/-! ### The messages -/

theorem decodes_bytesList (xs : List (List UInt8)) (hlen : (encodeList encodeBytes xs).length < 2^32) :
    Decodes (unpackList (unpack Packer.unpackBytes)) (encodeList encodeBytes xs) xs := by
  have hne : ∀ x, 1 ≤ (encodeBytes x).length := fun x => by
    rw [encodeBytes, List.length_append, length_encode]
    omega
  obtain ⟨hcount, helem⟩ := encodeList_bounds hne hlen
  refine decodes_unpackList xs hcount fun x hx => decodes_unpack (Packer.reads_unpackBytes ?_)
  have := helem x hx
  rw [encodeBytes, List.length_append] at this
  omega

theorem decodes_unmarshalBlockRequest (m : BlockRequest) (hheight : m.height < 2^64)
    (hparents : m.parents < 2^16) :
    Decodes unmarshalBlockRequest (encodeHash m.hash ++ encode 8 m.height ++ encode 2 m.parents) m := by
  have h : Decodes unmarshalBlockRequest
      (encodeHash m.hash ++ (encode 8 m.height ++ (encode 2 m.parents ++ []))) m :=
    (decodes_unpack (Packer.reads_unpackHash m.hash)).bind
      ((decodes_unpack (Packer.reads_unpackUint (show m.height < 256^8 from hheight))).bind
        ((decodes_unpack (Packer.reads_unpackUint (show m.parents < 256^2 from hparents))).bind
          (Decodes.pure _)))
  exact h.congr (by simp) rfl

theorem decodes_unmarshalBlockResponse (m : BlockResponse)
    (hlen : (encodeList encodeBytes m.blocks).length < 2^32) :
    Decodes unmarshalBlockResponse (encodeList encodeBytes m.blocks) m := by
  have h : Decodes unmarshalBlockResponse (encodeList encodeBytes m.blocks ++ []) m :=
    (decodes_bytesList m.blocks hlen).bind (Decodes.pure _)
  exact h.congr (List.append_nil _) rfl

theorem decodes_unmarshalLeafsRequest (m : LeafsRequest) (hlimit : m.limit < 2^16)
    (hlen : (encodeValue (.leafsRequest m)).length < 2^32) :
    Decodes unmarshalLeafsRequest (encodeValue (.leafsRequest m)) m := by
  simp only [encodeValue, encodeBytes, List.length_append] at hlen
  have h : Decodes unmarshalLeafsRequest (encodeHash m.root ++ (encodeHash m.account ++
      (encodeBytes m.start ++ (encodeBytes m.endKey ++ (encode 2 m.limit ++ []))))) m :=
    (decodes_unpack (Packer.reads_unpackHash m.root)).bind
      ((decodes_unpack (Packer.reads_unpackHash m.account)).bind
        ((decodes_unpack (Packer.reads_unpackBytes (by omega))).bind
          ((decodes_unpack (Packer.reads_unpackBytes (by omega))).bind
            ((decodes_unpack (Packer.reads_unpackUint (show m.limit < 256^2 from hlimit))).bind
              (Decodes.pure _)))))
  exact h.congr (by simp [encodeValue]) rfl

theorem decodes_unmarshalLeafsResponse (m : LeafsResponse)
    (hlen : (encodeValue (.leafsResponse m)).length < 2^32) :
    Decodes unmarshalLeafsResponse (encodeValue (.leafsResponse m)) m := by
  simp only [encodeValue, List.length_append] at hlen
  have h : Decodes unmarshalLeafsResponse (encodeList encodeBytes m.keys ++
      (encodeList encodeBytes m.vals ++ (encodeList encodeBytes m.proofVals ++ []))) m :=
    (decodes_bytesList m.keys (by omega)).bind
      ((decodes_bytesList m.vals (by omega)).bind
        ((decodes_bytesList m.proofVals (by omega)).bind (Decodes.pure _)))
  exact h.congr (by simp [encodeValue]) rfl

theorem decodes_unmarshalCodeRequest (m : CodeRequest)
    (hlen : (encodeList encodeHash m.hashes).length < 2^32) :
    Decodes unmarshalCodeRequest (encodeList encodeHash m.hashes) m := by
  have hne : ∀ h, 1 ≤ (encodeHash h).length := fun h => by
    rw [encodeHash, length_encode]
    decide
  have h : Decodes unmarshalCodeRequest (encodeList encodeHash m.hashes ++ []) m :=
    (decodes_unpackList m.hashes (encodeList_bounds hne hlen).1
      fun h _ => decodes_unpack (Packer.reads_unpackHash h)).bind (Decodes.pure _)
  exact h.congr (List.append_nil _) rfl

theorem decodes_unmarshalCodeResponse (m : CodeResponse)
    (hlen : (encodeList encodeBytes m.data).length < 2^32) :
    Decodes unmarshalCodeResponse (encodeList encodeBytes m.data) m := by
  have h : Decodes unmarshalCodeResponse (encodeList encodeBytes m.data ++ []) m :=
    (decodes_bytesList m.data hlen).bind (Decodes.pure _)
  exact h.congr (List.append_nil _) rfl

theorem decodes_unmarshalSyncSummary (m : SyncSummary) (hnumber : m.blockNumber < 2^64) :
    Decodes unmarshalSyncSummary (encodeValue (.syncSummary m)) m := by
  have h : Decodes unmarshalSyncSummary (encode 8 m.blockNumber ++ (encodeHash m.blockHash ++
      (encodeHash m.blockRoot ++ []))) m :=
    (decodes_unpack (Packer.reads_unpackUint (show m.blockNumber < 256^8 from hnumber))).bind
      ((decodes_unpack (Packer.reads_unpackHash m.blockHash)).bind
        ((decodes_unpack (Packer.reads_unpackHash m.blockRoot)).bind (Decodes.pure _)))
  exact h.congr (by simp [encodeValue]) rfl

theorem decodes_unmarshalValue (m : Decoded) (hrange : m.InRange) (hlen : (encodeValue m).length < 2^32) :
    Decodes (unmarshalValue m.dest) (encodeValue m) m := by
  cases m with
  | blockRequest m => exact (decodes_unmarshalBlockRequest m hrange.1 hrange.2).map _
  | blockResponse m => exact (decodes_unmarshalBlockResponse m hlen).map _
  | leafsRequest m => exact (decodes_unmarshalLeafsRequest m hrange hlen).map _
  | leafsResponse m => exact (decodes_unmarshalLeafsResponse m hlen).map _
  | codeRequest m => exact (decodes_unmarshalCodeRequest m hlen).map _
  | codeResponse m => exact (decodes_unmarshalCodeResponse m hlen).map _
  | syncSummary m => exact (decodes_unmarshalSyncSummary m hrange).map _

theorem decodes_unmarshalPacked (m : Decoded) (hrange : m.InRange) (hlen : (encodeValue m).length < 2^32) :
    Decodes (unmarshalPacked m.dest) (encode 2 0 ++ encodeValue m) (0, .ok m) := by
  have h : Decodes (unmarshalPacked m.dest) (encode 2 0 ++ ([] ++ (encodeValue m ++ ([] ++ []))))
      (0, .ok m) :=
    (decodes_unpack (Packer.reads_unpackUint (by decide : 0 < 256^2))).bind
      (decodes_errored.bind ((decodes_unmarshalValue m hrange hlen).bind
        (decodes_errored.bind (Decodes.pure _))))
  exact h.congr (by simp) rfl

theorem packShort_version : Packer.packShort maxMessageSize 0 ⟨[], 0, false⟩ = ⟨encode 2 0, 2, false⟩ := by
  rw [Packer.packShort, @packs_packUint maxMessageSize 2 0 _ rfl (by rw [length_encode]; decide)]
  rfl

/-- `Marshal` with version `0` writes the version and the layout, when they fit. -/
theorem marshal_eq_ok (m : Decoded) (hsize : (encode 2 0 ++ encodeValue m).length ≤ maxMessageSize) :
    marshal 0 m = .ok (encode 2 0 ++ encodeValue m) := by
  rw [List.length_append, length_encode] at hsize
  have hval : marshalValue maxMessageSize m ⟨encode 2 0, 2, false⟩ =
      ⟨encode 2 0 ++ encodeValue m, 2 + (encodeValue m).length, false⟩ :=
    @packs_marshalValue maxMessageSize m _ rfl (by dsimp only; omega)
  simp only [marshal, version, ne_eq, not_true_eq_false, if_false, packShort_version, hval]
  rfl

/-- `Unmarshal` of the version `0` and a layout that fits reads the message back. -/
theorem unmarshal_layout (m : Decoded) (hrange : m.InRange)
    (hsize : (encode 2 0 ++ encodeValue m).length ≤ maxMessageSize) :
    (unmarshal (encode 2 0 ++ encodeValue m) m.dest).version = 0 ∧
      (unmarshal (encode 2 0 ++ encodeValue m) m.dest).result = .ok m := by
  have hmax : maxMessageSize < 2^32 := by decide
  rw [List.length_append, length_encode] at hsize
  obtain ⟨hrun, -⟩ := decodes_unmarshalPacked m hrange (by omega)
    ⟨⟨encode 2 0 ++ encodeValue m, 0, false⟩, []⟩ rfl (by simp)
  rw [unmarshal, if_neg (by rw [List.length_append, length_encode]; omega),
    if_neg (by rw [List.length_append, length_encode]; omega)]
  dsimp only
  rw [hrun]
  exact ⟨rfl, rfl⟩

theorem unmarshal_marshal (m : Decoded) (hrange : m.InRange)
    (hsize : (encode 2 0 ++ encodeValue m).length ≤ maxMessageSize) :
    ∃ bytes, marshal 0 m = .ok bytes ∧ (unmarshal bytes m.dest).version = 0 ∧
      (unmarshal bytes m.dest).result = .ok m :=
  ⟨_, marshal_eq_ok m hsize, unmarshal_layout m hrange hsize⟩

def sampleBlockRequest : Decoded := .blockRequest ⟨5, 7, 2⟩

theorem unmarshal_marshal_sample :
    sampleBlockRequest.InRange ∧ (encode 2 0 ++ encodeValue sampleBlockRequest).length ≤ maxMessageSize ∧
      ∃ bytes, marshal 0 sampleBlockRequest = .ok bytes ∧
        (unmarshal bytes sampleBlockRequest.dest).version = 0 ∧
        (unmarshal bytes sampleBlockRequest.dest).result = .ok sampleBlockRequest :=
  ⟨by decide, by decide, unmarshal_marshal sampleBlockRequest (by decide) (by decide)⟩

end LuxEvm.Message
