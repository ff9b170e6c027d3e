import LuxEvm.Warp.Handler
import LuxEvm.Lib.MachineInt
import Mathlib.Data.List.Sort

/-!
# Verifying Warp predicates

`Config.VerifyPredicate` accepts a Warp message carried as a transaction
predicate when the validators of the requested chain that signed it hold a
quorum of the chain's weight. It rebuilds the canonical validator set from
the set the validator state returns: validators sharing a public key are
merged into one entry carrying their summed weight, keyless validators are
dropped, and the entries are ordered by key. The beam's signer bitset selects
entries of that list.

The total weight and the merged weights are summed with wrapping `uint64`
addition, the signed weight with `SafeAdd`. The canonical set and so the
verdict do not depend on the order in which Go iterates the validator map,
and while the weights sum below `2^64` the weight check is the exact quorum
`q * total ≤ 100 * signed`; past `2^64` the total wraps and the check passes
below the quorum.
-/

set_option autoImplicit false

namespace LuxEvm.Warp
open Lib.ByteString Lib.StateRel Predicate

def WarpDefaultQuorumNumerator : UInt64 := 67
def WarpQuorumNumeratorMinimum : UInt64 := 33
def WarpQuorumDenominator : UInt64 := 100

structure Config where
  timestamp : Option UInt64
  quorumNumerator : UInt64
  requirePrimaryNetworkSigners : Bool

inductive ConfigError where
  | warpCannotBeActivated
  | quorumNumeratorAboveDenominator (quorumNumerator quorumDenominator : UInt64)
  | quorumNumeratorBelowMinimum (quorumNumerator quorumNumeratorMinimum : UInt64)
  deriving DecidableEq, Repr

/-- `Config.Verify`, with the chain config's `IsDurango`. -/
def Config.verify (c : Config) (isDurango : UInt64 → Bool) : Except ConfigError Unit :=
  if c.timestamp.any (!isDurango ·) then .error .warpCannotBeActivated
  else if c.quorumNumerator > WarpQuorumDenominator then
    .error (.quorumNumeratorAboveDenominator c.quorumNumerator WarpQuorumDenominator)
  else if c.quorumNumerator != 0 && c.quorumNumerator < WarpQuorumNumeratorMinimum then
    .error (.quorumNumeratorBelowMinimum c.quorumNumerator WarpQuorumNumeratorMinimum)
  else .ok ()

/-- The numerator `VerifyPredicate` uses: the configured one, `0` standing for
the default. -/
def Config.quorumNumeratorOrDefault (c : Config) : UInt64 :=
  if c.quorumNumerator != 0 then c.quorumNumerator else WarpDefaultQuorumNumerator

/-- `validators.GetValidatorOutput`, as far as `VerifyPredicate` reads it. The
validator set is a Go map from node ID to output; its values are listed in the
order one iteration visits them, and the node IDs, which only a log line
reads, are left out. -/
structure ValidatorOutput where
  publicKey : List UInt8
  weight : UInt64
  deriving DecidableEq, Repr

/-- `warp.Validator` without its node ID; `κ` is the type of parsed keys. -/
structure Validator (κ : Type) where
  publicKey : Option κ
  publicKeyBytes : List UInt8
  weight : UInt64

/-- What `VerifyPredicate` calls in the `warp` and `bls` packages, which are
not part of the repository; `σ` is the type of parsed signatures. -/
structure WarpVerifier (κ σ : Type) where
  parsePublicKey : List UInt8 → Except String κ
  aggregatePublicKeys : List κ → Except String κ
  signatureFromBytes : List UInt8 → Except String σ
  verify : κ → σ → List UInt8 → Bool
  beamSigningBytes : Hash → List UInt8
  messageID : UnsignedMessage → Hash
  verifyWeight : UInt64 → UInt64 → UInt64 → UInt64 → Except String Unit

/-- `warp.VerifyWeight` as documented: the signed weight reaches the quorum,
compared as exact integers. -/
def documentedVerifyWeight (signedWeight totalWeight quorumNumerator quorumDenominator : UInt64) :
    Except String Unit :=
  if totalWeight.toNat*quorumNumerator.toNat ≤ signedWeight.toNat*quorumDenominator.toNat then .ok ()
  else .error "insufficient weight"

/-! ## The canonical validator set -/

section Canonical
variable {κ : Type}

/-- The `warp.Validator` built for one output: the key is kept only when it
parses. -/
def toValidator (parsePublicKey : List UInt8 → Except String κ) (output : ValidatorOutput) :
    Validator κ :=
  if output.publicKey.length > 0 then
    match parsePublicKey output.publicKey with
    | .ok pk => ⟨some pk, output.publicKey, output.weight⟩
    | .error _ => ⟨none, [], output.weight⟩
  else ⟨none, [], output.weight⟩

/-- The loop over the validator set: `allValidators` and `totalWeight`, the
latter summed with wrapping `uint64` addition. -/
def buildValidators (parsePublicKey : List UInt8 → Except String κ)
    (vdrOutputs : List ValidatorOutput) : List (Validator κ) × UInt64 :=
  vdrOutputs.foldl (fun acc output =>
    (acc.1 ++ [toValidator parsePublicKey output], acc.2+output.weight)) ([], 0)

/-- One round of the aggregation loop over `pkeyToWeight`, summed with
wrapping addition, and `pkeyToValidator`, kept as its entries in the order the
keys were first seen. -/
def aggregateStep (acc : (List UInt8 → UInt64) × List (List UInt8 × Validator κ))
    (vdr : Validator κ) : (List UInt8 → UInt64) × List (List UInt8 × Validator κ) :=
  if vdr.publicKeyBytes.length = 0 then acc
  else
    let pkStr := vdr.publicKeyBytes
    (Function.update acc.1 pkStr (acc.1 pkStr+vdr.weight),
      if (acc.2.lookup pkStr).isSome then acc.2 else acc.2 ++ [(pkStr, vdr)])

def aggregateByPublicKey (allValidators : List (Validator κ)) :
    (List UInt8 → UInt64) × List (List UInt8 × Validator κ) :=
  allValidators.foldl aggregateStep (fun _ => 0, [])

/-- `bytes.Compare(a, b) ≤ 0`, the order `sort.Slice` puts the set in. -/
def keyLE (a b : List UInt8) : Prop := Lib.ByteString.compare a b ≠ .gt

instance : DecidableRel keyLE := fun _ _ => inferInstanceAs (Decidable (_ ≠ _))

/-- The canonical set: each entry of `pkeyToValidator` with its key's summed
weight, sorted by key. Go visits `pkeyToValidator` in random order; the keys
are distinct, so the sorted list is the same for every order. -/
def canonicalValidators (aggregated : (List UInt8 → UInt64) × List (List UInt8 × Validator κ)) :
    List (Validator κ) :=
  (aggregated.2.map fun entry => {entry.2 with weight := aggregated.1 entry.1}).insertionSort
    fun a b => keyLE a.publicKeyBytes b.publicKeyBytes

end Canonical

/-! ## Signed weight and the beam -/

/-- `math.SafeAdd`: the sum and whether it overflowed. -/
def safeAdd (a b : UInt64) : UInt64 × Bool := (a+b, 2^64 ≤ a.toNat+b.toNat)

inductive BeamError where
  | signerIndexExceeds (index count : ℕ)
  | weightOverflow
  | noSigners
  | nilPublicKey (index : ℕ)
  | noValidSigners
  | aggregateFailed (reason : String)
  | signatureParseFailed (reason : String)
  | invalidSignature
  deriving DecidableEq, Repr

section Beam
variable {κ σ : Type}

/-- One round of the loop of `beamSignedWeight`. -/
def signedWeightStep (signers : Bits) (validators : List (Validator κ)) (weight : UInt64) (i : ℕ) :
    Except BeamError UInt64 :=
  if !signers.contains i then .ok weight
  else match validators[i]? with
    | none => .error (.signerIndexExceeds i validators.length)
    | some vdr =>
      let newWeight := safeAdd weight vdr.weight
      if newWeight.2 then .error .weightOverflow else .ok newWeight.1

def beamSignedWeight (beam : BitSetSignature) (validators : List (Validator κ)) :
    Except BeamError UInt64 :=
  let signers := beam.signers
  if signers.highestSetBit > validators.length then
    .error (.signerIndexExceeds (signers.highestSetBit-1) validators.length)
  else (List.range signers.bitLen).foldlM (signedWeightStep signers validators) 0

/-- One round of the loop of `verifyBeam`, collecting the signers' keys. -/
def signerKeyStep (signers : Bits) (validators : List (Validator κ)) (pks : List κ) (i : ℕ) :
    Except BeamError (List κ) :=
  if !signers.contains i then .ok pks
  else match validators[i]? with
    | none => .error (.signerIndexExceeds i validators.length)
    | some vdr =>
      match vdr.publicKey with
      | none => .error (.nilPublicKey i)
      | some pk => .ok (pks ++ [pk])

def verifyBeam (wv : WarpVerifier κ σ) (beam : BitSetSignature) (d : Hash)
    (validators : List (Validator κ)) : Except BeamError Unit := do
  let signers := beam.signers
  if signers.len = 0 then throw .noSigners
  if signers.highestSetBit > validators.length then
    throw (.signerIndexExceeds (signers.highestSetBit-1) validators.length)
  let pks ← (List.range signers.bitLen).foldlM (signerKeyStep signers validators) []
  if pks.length = 0 then throw .noValidSigners
  let aggPK ← (wv.aggregatePublicKeys pks).mapError .aggregateFailed
  let sig ← (wv.signatureFromBytes beam.signature).mapError .signatureParseFailed
  if !wv.verify aggPK sig (wv.beamSigningBytes d) then throw .invalidSignature

end Beam

/-! ## `VerifyPredicate` -/

/-- The validator state of the consensus context. The Go code asks for the
set through `GetValidatorSetWithOutput` when the state offers it and through
`GetValidatorSet` otherwise; both loops read the same fields. -/
structure ValidatorState where
  getNetworkID : Hash → Except String Hash
  getValidatorSet : UInt64 → Hash → Except String (List ValidatorOutput)

/-- `PredicateContext`, as far as `VerifyPredicate` reads it. -/
structure PredicateContext where
  networkID : UInt32
  validatorState : Option ValidatorState
  chainID : Hash
  pChainHeight : UInt64

/-- The failures `VerifyPredicate` wraps in `errFailedVerification`. -/
inductive VerificationFailure where
  | networkIDMismatch (messageNetworkID localNetworkID : UInt32)
  | beam (e : BeamError)
  | weight (reason : String)
  deriving DecidableEq, Repr

inductive VerifyPredicateError where
  | invalidPredicateBytes (e : PredicateError)
  | cannotParseWarpMsg (reason : String)
  | failedVerification (e : VerificationFailure)
  | validatorStateNotFound
  | cannotGetNetworkID (reason : String)
  | cannotRetrieveValidatorSet (reason : String)
  deriving DecidableEq, Repr

/-- The chain whose validators must have signed; `ids.Empty` is `0`. -/
def Config.requestedChainID (c : Config) (primaryNetworkID platformChainID : Hash)
    (sourceNetworkID sourceChainID receivingChainID : Hash) : Hash :=
  if sourceNetworkID != 0 && sourceNetworkID != primaryNetworkID then sourceChainID
  else if sourceChainID = platformChainID then receivingChainID
  else if c.requirePrimaryNetworkSigners then primaryNetworkID
  else receivingChainID

section Verify
variable {κ σ : Type}

/-- The weight check: the signed weight of the canonical set against the
total, at the quorum. -/
def verifyQuorum (wv : WarpVerifier κ σ) (quorumNumerator : UInt64) (beam : BitSetSignature)
    (totalWeight : UInt64) (canonical : List (Validator κ)) : Except VerificationFailure Unit := do
  let signedWeight ← (beamSignedWeight beam canonical).mapError .beam
  (wv.verifyWeight signedWeight totalWeight quorumNumerator WarpQuorumDenominator).mapError .weight

/-- What `VerifyPredicate` does with the validator set once it has it. -/
def verifySignatures (wv : WarpVerifier κ σ) (quorumNumerator : UInt64) (warpMsg : Envelope)
    (vdrOutputs : List ValidatorOutput) : Except VerificationFailure Unit := do
  let built := buildValidators wv.parsePublicKey vdrOutputs
  let canonical := canonicalValidators (aggregateByPublicKey built.1)
  verifyQuorum wv quorumNumerator warpMsg.beam built.2 canonical
  (verifyBeam wv warpMsg.beam (wv.messageID warpMsg.message) canonical).mapError .beam

def Config.verifyPredicate (c : Config) (parsers : WarpParsers) (wv : WarpVerifier κ σ)
    (primaryNetworkID platformChainID : Hash) (predicateContext : PredicateContext)
    (predicateBytes : List UInt8) : Except VerifyPredicateError Unit := do
  let unpackedPredicateBytes ← (unpackPredicate predicateBytes).mapError .invalidPredicateBytes
  let warpMsg ← (parsers.parseEnvelope unpackedPredicateBytes).mapError .cannotParseWarpMsg
  if warpMsg.message.networkID != predicateContext.networkID then
    throw (.failedVerification
      (.networkIDMismatch warpMsg.message.networkID predicateContext.networkID))
  let some validatorState := predicateContext.validatorState | throw .validatorStateNotFound
  let sourceChainID := warpMsg.message.sourceChainID
  let sourceNetworkID ← (validatorState.getNetworkID sourceChainID).mapError .cannotGetNetworkID
  let requestedChainID := c.requestedChainID primaryNetworkID platformChainID sourceNetworkID
    sourceChainID predicateContext.chainID
  let vdrOutputs ← (validatorState.getValidatorSet predicateContext.pChainHeight
    requestedChainID).mapError .cannotRetrieveValidatorSet
  (verifySignatures wv c.quorumNumeratorOrDefault warpMsg vdrOutputs).mapError .failedVerification

end Verify

/-! ## `PredicateGas` -/

def GasCostPerWarpSigner : UInt64 := 500
def GasCostPerSignatureVerification : UInt64 := 200000

inductive PredicateGasError where
  /-- "overflow calculating gas cost for warp message bytes of size %d" -/
  | bytesGasOverflow (size : ℕ)
  /-- "overflow adding bytes gas cost of size %d" -/
  | addBytesGasOverflow (size : ℕ)
  | invalidPredicateBytes (e : PredicateError)
  | invalidWarpMsg (reason : String)
  | invalidWarpMsgPayload (reason : String)
  /-- `errCannotGetNumSigners`: "no signers in bit set" -/
  | cannotGetNumSigners
  | overflowSignersGasCost
  /-- "overflow adding signer gas (PrevTotal: %d, VerificationGas: %d)" -/
  | addSignerGasOverflow (prevTotal signerGas : UInt64)
  deriving DecidableEq, Repr

/-- `Config.PredicateGas`, which reads nothing of the config: a signature
verification, the bytes of the packed predicate and the signers. -/
def predicateGas (parsers : WarpParsers) (predicateBytes : List UInt8) :
    Except PredicateGasError UInt64 := do
  let totalGas := GasCostPerSignatureVerification
  let bytesGasCost := safeMul GasCostPerWarpMessageBytes (UInt64.ofNat predicateBytes.length)
  if bytesGasCost.2 then throw (.bytesGasOverflow predicateBytes.length)
  let added := safeAdd totalGas bytesGasCost.1
  if added.2 then throw (.addBytesGasOverflow predicateBytes.length)
  let totalGas := added.1
  let unpackedPredicateBytes ← (unpackPredicate predicateBytes).mapError .invalidPredicateBytes
  let warpMessage ← (parsers.parseEnvelope unpackedPredicateBytes).mapError .invalidWarpMsg
  let _ ← (parsers.parsePayload warpMessage.message.payload).mapError .invalidWarpMsgPayload
  let numSigners := UInt64.ofNat warpMessage.beam.signers.len
  if numSigners = 0 then throw .cannotGetNumSigners
  let signerGas := safeMul numSigners GasCostPerWarpSigner
  if signerGas.2 then throw .overflowSignersGasCost
  let added := safeAdd totalGas signerGas.1
  if added.2 then throw (.addSignerGasOverflow totalGas signerGas.1)
  return added.1

/-- **The gas of a Warp predicate.** A predicate that unpacks to an envelope
with at least one signer and a payload that parses costs a signature
verification, `100` a byte of the packed predicate and `500` a signer. -/
theorem predicateGas_eq_ok {parsers : WarpParsers} {predicateBytes unpacked : List UInt8} {e : Envelope}
    {p : Payload} (hu : unpackPredicate predicateBytes = .ok unpacked)
    (he : parsers.parseEnvelope unpacked = .ok e) (hp : parsers.parsePayload e.message.payload = .ok p)
    (hs : 0 < e.beam.signers.len) (hlen : predicateBytes.length < 2^32)
    (hsigners : e.beam.signers.len < 2^32) :
    predicateGas parsers predicateBytes =
      .ok (UInt64.ofNat (200000 + 100 * predicateBytes.length + 500 * e.beam.signers.len)) := by
  have hlen' : (UInt64.ofNat predicateBytes.length).toNat = predicateBytes.length :=
    UInt64.toNat_ofNat_of_lt' (lt_trans hlen (by decide))
  have hn : (UInt64.ofNat e.beam.signers.len).toNat = e.beam.signers.len :=
    UInt64.toNat_ofNat_of_lt' (lt_trans hsigners (by decide))
  have hbytes : GasCostPerWarpMessageBytes.toNat * (UInt64.ofNat predicateBytes.length).toNat < 2^64 := by
    rw [hlen']
    exact lt_of_lt_of_le (Nat.mul_lt_mul_of_pos_left hlen (by decide)) (by decide)
  have hbytes' := toNat_safeMul_fst (safeMul_snd_eq_false.mpr hbytes)
  have hadd : GasCostPerSignatureVerification.toNat +
      (safeMul GasCostPerWarpMessageBytes (UInt64.ofNat predicateBytes.length)).1.toNat < 2^64 := by
    rw [hbytes', hlen']
    change 200000 + 100 * _ < 2^64
    omega
  have hsig : (UInt64.ofNat e.beam.signers.len).toNat * GasCostPerWarpSigner.toNat < 2^64 := by
    rw [hn]
    change _ * 500 < 2^64
    omega
  have hsig' := toNat_safeMul_fst (safeMul_snd_eq_false.mpr hsig)
  have hadd' : (Lib.MachineInt.safeAdd GasCostPerSignatureVerification
      (safeMul GasCostPerWarpMessageBytes (UInt64.ofNat predicateBytes.length)).1).1.toNat +
      (safeMul (UInt64.ofNat e.beam.signers.len) GasCostPerWarpSigner).1.toNat < 2^64 := by
    rw [Lib.MachineInt.toNat_safeAdd_fst hadd, hbytes', hsig', hlen', hn]
    change 200000 + 100 * _ + _ * 500 < 2^64
    omega
  have hne : UInt64.ofNat e.beam.signers.len ≠ 0 := fun h => by
    rw [h] at hn
    simp at hn
    omega
  have hsafe : @safeAdd = @Lib.MachineInt.safeAdd := rfl
  unfold predicateGas
  rw [hsafe]
  simp only [safeMul_snd_eq_false.mpr hbytes, Bool.false_eq_true, if_false,
    (Lib.MachineInt.safeAdd_snd_eq_false.mpr hadd), hu, he, hp, mapError_ok, ok_bind, hne,
    safeMul_snd_eq_false.mpr hsig, (Lib.MachineInt.safeAdd_snd_eq_false.mpr hadd')]
  have hsum : 200000 + 100 * predicateBytes.length + 500 * e.beam.signers.len < 2^64 := by omega
  congr 1
  apply UInt64.toNat_inj.mp
  rw [Lib.MachineInt.toNat_safeAdd_fst hadd', Lib.MachineInt.toNat_safeAdd_fst hadd, hbytes', hsig',
    hlen', hn, UInt64.toNat_ofNat_of_lt' hsum]
  change 200000 + 100 * _ + _ * 500 = _
  ring

end LuxEvm.Warp
