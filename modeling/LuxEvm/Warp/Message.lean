import LuxEvm.Message.Marshal
import LuxEvm.Predicate

/-!
# Warp messages

The values of the `luxfi/warp` package that the repository reads, and the
parsers it calls on them: `warp.ParseEnvelope`, `warp.ParseMessage`,
`payload.ParsePayload` and `messages.Parse`. The package is not part of the
repository, so the models take its parsers as parameters (`WarpParsers`, and
the warp backend's environment).

Of the parsers the repository relies on one thing: each reads back what the
matching `Bytes` wrote, and rejects what it did not write. `warpParsers` and
its companions are parsers with exactly that property for one layout, in the
manner of the repository's own codec: a `u16` codec version, a `u32` type ID
where a value has several forms, fixed-width integers big-endian and byte
strings behind their `u32` length. They read back every well-formed value they
write (`parseEnvelope_bytes`, `parseMessage_bytes`, `parsePayload_hashBytes`,
`parsePayload_addressedCallBytes`, `parseAddressed_validatorUptimeBytes`) and
reject an input with bytes missing or left over. The byte layout of
`luxfi/warp` itself is not modelled: a sample input stands for the bytes that
`luxfi/warp` writes for the same value.
-/

set_option autoImplicit false

namespace LuxEvm.Warp
open Predicate Message
open Lib.ByteString (encode length_encode)

/-- `warp.UnsignedMessage`, as far as the repository reads it. -/
structure UnsignedMessage where
  networkID : UInt32
  sourceChainID : Hash
  payload : List UInt8
  deriving DecidableEq, Repr

/-- `warp.BitSetSignature`: the signer bitset over the canonical validators
and the aggregate signature bytes. -/
structure BitSetSignature where
  signers : Bits
  signature : List UInt8
  deriving DecidableEq, Repr

structure Envelope where
  message : UnsignedMessage
  beam : BitSetSignature
  deriving DecidableEq, Repr

inductive Payload where
  | addressedCall (sourceAddress payload : List UInt8)
  | hash (hash : Hash)
  | other
  deriving DecidableEq, Repr

/-- The messages of `warp/messages` an addressed call may carry. -/
inductive AddressedMessage where
  | validatorUptime (validationID : Hash) (totalUptime : UInt64)
  | other
  deriving DecidableEq, Repr

/-- The parsers of the `warp` package, which is not part of the repository. -/
structure WarpParsers where
  parseEnvelope : List UInt8 → Except String Envelope
  parsePayload : List UInt8 → Except String Payload

/-! ## A layout and its parsers -/

def codecVersion : ℕ := 0
def BitSetSignatureTypeID : ℕ := 0
def BLSSignatureLen : ℕ := 96
def HashTypeID : ℕ := 0
def AddressedCallTypeID : ℕ := 1
def ValidatorUptimeTypeID : ℕ := 0

def UnsignedMessage.encodeFields (m : UnsignedMessage) : List UInt8 :=
  encode 4 m.networkID.toNat ++ encodeHash m.sourceChainID ++ encodeBytes m.payload

def Envelope.encodeFields (e : Envelope) : List UInt8 :=
  e.message.encodeFields ++ encode 4 BitSetSignatureTypeID ++ encodeBytes e.beam.signers.bytes ++
    e.beam.signature

/-- `Bytes()`: the codec version, then the fields. -/
def withVersion (fields : List UInt8) : List UInt8 := encode 2 codecVersion ++ fields

def UnsignedMessage.bytes (m : UnsignedMessage) : List UInt8 := withVersion m.encodeFields

def Envelope.bytes (e : Envelope) : List UInt8 := withVersion e.encodeFields

def hashBytes (hash : Hash) : List UInt8 := withVersion (encode 4 HashTypeID ++ encodeHash hash)

def addressedCallBytes (sourceAddress payload : List UInt8) : List UInt8 :=
  withVersion (encode 4 AddressedCallTypeID ++ encodeBytes sourceAddress ++ encodeBytes payload)

def validatorUptimeBytes (validationID : Hash) (totalUptime : UInt64) : List UInt8 :=
  withVersion (encode 4 ValidatorUptimeTypeID ++ encodeHash validationID ++ encode 8 totalUptime.toNat)

def unpackUnsignedMessage : Decode UnsignedMessage := do
  let networkID ← unpack Packer.unpackInt
  let sourceChainID ← unpack Packer.unpackHash
  let payload ← unpack Packer.unpackBytes
  return ⟨UInt32.ofNat networkID, sourceChainID, payload⟩

def unpackEnvelope : Decode (Except String Envelope) := do
  let message ← unpackUnsignedMessage
  let typeID ← unpack Packer.unpackInt
  if typeID ≠ BitSetSignatureTypeID then return .error "unknown signature type"
  let signers ← unpack Packer.unpackBytes
  let signature ← unpack (Packer.unpackFixedBytes BLSSignatureLen)
  return .ok ⟨message, ⟨bitsFromBytes signers, signature⟩⟩

def unpackPayload : Decode (Except String Payload) := do
  let typeID ← unpack Packer.unpackInt
  if typeID = HashTypeID then
    let hash ← unpack Packer.unpackHash
    return .ok (.hash hash)
  if typeID = AddressedCallTypeID then
    let sourceAddress ← unpack Packer.unpackBytes
    let payload ← unpack Packer.unpackBytes
    return .ok (.addressedCall sourceAddress payload)
  return .error "unknown payload type"

def unpackAddressedMessage : Decode (Except String AddressedMessage) := do
  let typeID ← unpack Packer.unpackInt
  if typeID ≠ ValidatorUptimeTypeID then return .error "unknown message type"
  let validationID ← unpack Packer.unpackHash
  let totalUptime ← unpack Packer.unpackLong
  return .ok (.validatorUptime validationID (UInt64.ofNat totalUptime))

/-- `Codec.Unmarshal`: the codec version and the value, with no unpack past the
end and no byte left over. -/
def parseWith {α : Type} (d : Decode (Except String α)) (bytes : List UInt8) : Except String α :=
  let r := (do
    let version ← unpack Packer.unpackShort
    let x ← d
    return (version, x)).run ⟨⟨bytes, 0, false⟩, []⟩
  if r.2.packer.errored then .error "insufficient length"
  else if r.1.1 ≠ codecVersion then .error "unknown codec version"
  else if r.2.packer.remaining ≠ 0 then .error "extra space"
  else r.1.2

def parseMessage : List UInt8 → Except String UnsignedMessage := parseWith (.ok <$> unpackUnsignedMessage)

def parseAddressed : List UInt8 → Except String AddressedMessage := parseWith unpackAddressedMessage

def warpParsers : WarpParsers := ⟨parseWith unpackEnvelope, parseWith unpackPayload⟩

/-! ## The parsers read back what is written -/

def UnsignedMessage.WellFormed (m : UnsignedMessage) : Prop := m.payload.length < 2^32

def Envelope.WellFormed (e : Envelope) : Prop :=
  e.message.WellFormed ∧ e.beam.signers.bytes.length < 2^32 ∧ e.beam.signature.length = BLSSignatureLen

instance : DecidablePred UnsignedMessage.WellFormed := fun m =>
  inferInstanceAs (Decidable (m.payload.length < 2^32))

instance : DecidablePred Envelope.WellFormed := fun e =>
  inferInstanceAs (Decidable (e.message.WellFormed ∧ e.beam.signers.bytes.length < 2^32 ∧
    e.beam.signature.length = BLSSignatureLen))

theorem Decodes.ite_pos {α : Type} {c : Prop} [Decidable c] {a b : Decode α} {enc : List UInt8} {x : α}
    (hc : c) (ha : Decodes a enc x) : Decodes (if c then a else b) enc x := by
  rw [if_pos hc]
  exact ha

theorem Decodes.ite_neg {α : Type} {c : Prop} [Decidable c] {a b : Decode α} {enc : List UInt8} {x : α}
    (hc : ¬c) (hb : Decodes b enc x) : Decodes (if c then a else b) enc x := by
  rw [if_neg hc]
  exact hb

theorem parseWith_withVersion {α : Type} {d : Decode (Except String α)} {enc : List UInt8}
    {x : Except String α} (hd : Decodes d enc x) : parseWith d (withVersion enc) = x := by
  have h : Decodes (do
      let version ← unpack Packer.unpackShort
      let x ← d
      return (version, x)) (encode 2 codecVersion ++ (enc ++ [])) (codecVersion, x) :=
    (decodes_unpack (Packer.reads_unpackUint (by decide))).bind (hd.bind (Decodes.pure _))
  obtain ⟨hrun, hpacker⟩ := h ⟨⟨withVersion enc, 0, false⟩, []⟩ rfl (by simp [withVersion])
  rw [parseWith, hrun, hpacker]
  simp [Packer.remaining, withVersion, length_encode]

theorem decodes_unpackUnsignedMessage (m : UnsignedMessage) (hm : m.WellFormed) :
    Decodes unpackUnsignedMessage m.encodeFields m := by
  have h : Decodes unpackUnsignedMessage
      (encode 4 m.networkID.toNat ++ (encodeHash m.sourceChainID ++ (encodeBytes m.payload ++ []))) m :=
    (decodes_unpack (Packer.reads_unpackUint (show m.networkID.toNat < 256^4 from m.networkID.toNat_lt))).bind
      ((decodes_unpack (Packer.reads_unpackHash _)).bind
        ((decodes_unpack (Packer.reads_unpackBytes hm)).bind
          ((Decodes.pure _).congr rfl (by rw [UInt32.ofNat_toNat]))))
  exact h.congr (by simp [UnsignedMessage.encodeFields]) rfl

theorem parseMessage_bytes (m : UnsignedMessage) (hm : m.WellFormed) : parseMessage m.bytes = .ok m :=
  parseWith_withVersion ((decodes_unpackUnsignedMessage m hm).map _)

theorem warpParsers_parseEnvelope : warpParsers.parseEnvelope = parseWith unpackEnvelope := by
  unfold warpParsers
  rfl

theorem warpParsers_parsePayload : warpParsers.parsePayload = parseWith unpackPayload := by
  unfold warpParsers
  rfl

theorem parseEnvelope_bytes (e : Envelope) (he : e.WellFormed) :
    warpParsers.parseEnvelope e.bytes = .ok e := by
  obtain ⟨hm, hsigners, hsig⟩ := he
  have hread := Packer.reads_unpackFixedBytes e.beam.signature
  rw [hsig] at hread
  have h : Decodes unpackEnvelope (e.message.encodeFields ++ (encode 4 BitSetSignatureTypeID ++
      (encodeBytes e.beam.signers.bytes ++ (e.beam.signature ++ [])))) (.ok e) := by
    refine (decodes_unpackUnsignedMessage e.message hm).bind ?_
    refine (decodes_unpack (Packer.reads_unpackUint (by decide))).bind ?_
    refine Decodes.ite_neg (by decide) ?_
    refine (decodes_unpack (Packer.reads_unpackBytes hsigners)).bind ?_
    refine (decodes_unpack hread).bind ?_
    rw [bitsFromBytes_bytes]
    exact Decodes.pure _
  simp only [List.append_nil, ← List.append_assoc] at h
  rw [warpParsers_parseEnvelope, Envelope.bytes, Envelope.encodeFields]
  exact parseWith_withVersion h

theorem parsePayload_hashBytes (hash : Hash) :
    warpParsers.parsePayload (hashBytes hash) = .ok (.hash hash) := by
  have h : Decodes unpackPayload (encode 4 HashTypeID ++ (encodeHash hash ++ [])) (.ok (.hash hash)) := by
    refine (decodes_unpack (Packer.reads_unpackUint (by decide))).bind ?_
    refine Decodes.ite_pos rfl ?_
    exact (decodes_unpack (Packer.reads_unpackHash hash)).bind (Decodes.pure _)
  rw [List.append_nil] at h
  rw [warpParsers_parsePayload, hashBytes]
  exact parseWith_withVersion h

theorem parsePayload_addressedCallBytes {sourceAddress payload : List UInt8}
    (hs : sourceAddress.length < 2^32) (hp : payload.length < 2^32) :
    warpParsers.parsePayload (addressedCallBytes sourceAddress payload) =
      .ok (.addressedCall sourceAddress payload) := by
  have h : Decodes unpackPayload (encode 4 AddressedCallTypeID ++
      (encodeBytes sourceAddress ++ (encodeBytes payload ++ []))) (.ok (.addressedCall sourceAddress payload)) := by
    refine (decodes_unpack (Packer.reads_unpackUint (by decide))).bind ?_
    refine Decodes.ite_neg (by decide) (Decodes.ite_pos rfl ?_)
    refine (decodes_unpack (Packer.reads_unpackBytes hs)).bind ?_
    exact (decodes_unpack (Packer.reads_unpackBytes hp)).bind (Decodes.pure _)
  simp only [List.append_nil, ← List.append_assoc] at h
  rw [warpParsers_parsePayload, addressedCallBytes]
  exact parseWith_withVersion h

theorem parseAddressed_validatorUptimeBytes (validationID : Hash) (totalUptime : UInt64) :
    parseAddressed (validatorUptimeBytes validationID totalUptime) =
      .ok (.validatorUptime validationID totalUptime) := by
  have h : Decodes unpackAddressedMessage (encode 4 ValidatorUptimeTypeID ++
      (encodeHash validationID ++ (encode 8 totalUptime.toNat ++ [])))
      (.ok (.validatorUptime validationID totalUptime)) := by
    refine (decodes_unpack (Packer.reads_unpackUint (by decide))).bind ?_
    refine Decodes.ite_neg (by decide) ?_
    refine (decodes_unpack (Packer.reads_unpackHash validationID)).bind ?_
    refine (decodes_unpack (Packer.reads_unpackUint
      (show totalUptime.toNat < 256^8 from totalUptime.toNat_lt))).bind ?_
    rw [UInt64.ofNat_toNat]
    exact Decodes.pure _
  simp only [List.append_nil, ← List.append_assoc] at h
  rw [parseAddressed, validatorUptimeBytes]
  exact parseWith_withVersion h

end LuxEvm.Warp
