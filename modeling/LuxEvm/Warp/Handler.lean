import LuxEvm.Warp.Message
import LuxEvm.Precompile.Contract

/-!
# Reading verified Warp messages

`getVerifiedWarpMessage` and `getVerifiedWarpBlockHash` read the `i`-th Warp
predicate of the running transaction from the state database, and its
verification bit from the block context. Only when the predicate exists and
its bit is clear do they charge for its bytes, unpack it and parse it.

The precompile reaches both through the adapters the EVM hands it
(`accessibleStateAdapter` in `core/precompile_overrider.go`), and these answer
"no predicate" and "no results" for every transaction, so the handler returns
its failure output on every call.
-/

set_option autoImplicit false

namespace LuxEvm.Warp
open Predicate Precompile

def ContractAddress : Address := 0x0200000000000000000000000000000000000005

def GetVerifiedWarpMessageBaseCost : UInt64 := 2
def GasCostPerWarpMessageBytes : UInt64 := 100
def MaxInt32 : ℕ := 2^31-1

structure WarpMessage where
  sourceChainID : Hash
  originSenderAddress : Address
  payload : List UInt8

structure WarpBlockHash where
  sourceChainID : Hash
  blockHash : Hash

/-- `GetVerifiedWarpMessageOutput` and `GetVerifiedWarpBlockHashOutput`
before ABI packing. -/
structure VerifiedOutput (α : Type) where
  value : α
  valid : Bool

inductive WarpError where
  | outOfGas
  | invalidIndexInput (reason : String)
  | indexLargerThanMaxInt32
  | invalidPredicateBytes (e : PredicateError)
  | invalidWarpMsg (reason : String)
  | invalidAddressedPayload (reason : String)
  | invalidBlockHashPayload (reason : String)

structure MessageHandler (α : Type) where
  packFailed : VerifiedOutput α
  handleMessage : Envelope → Except WarpError (VerifiedOutput α)

def addressedPayloadHandler (parsers : WarpParsers) : MessageHandler WarpMessage where
  packFailed := ⟨⟨0, 0, []⟩, false⟩
  handleMessage warpMessage :=
    match parsers.parsePayload warpMessage.message.payload with
    | .error e => .error (.invalidAddressedPayload e)
    | .ok (.addressedCall sourceAddress payload) =>
      .ok ⟨⟨warpMessage.message.sourceChainID, bytesToAddress sourceAddress, payload⟩, true⟩
    | .ok _ => .error (.invalidAddressedPayload "payload is not AddressedCall")

def blockHashHandler (parsers : WarpParsers) : MessageHandler WarpBlockHash where
  packFailed := ⟨⟨0, 0⟩, false⟩
  handleMessage warpMessage :=
    match parsers.parsePayload warpMessage.message.payload with
    | .error e => .error (.invalidBlockHashPayload e)
    | .ok (.hash hash) => .ok ⟨⟨warpMessage.message.sourceChainID, hash⟩, true⟩
    | .ok _ => .error (.invalidBlockHashPayload "payload is not Hash")

/-- What `handleWarpMessage` reads through `contract.AccessibleState`. -/
structure WarpAccessibleState where
  getPredicateStorageSlots : Address → ℕ → Option (List UInt8)
  getPredicateResults : Hash → Address → List UInt8
  txHash : Hash

/-- `accessibleStateAdapter`: `stateDBAdapter.GetPredicateStorageSlots` returns
`nil, false` and `blockContextAdapter.GetPredicateResults` returns `nil`. -/
def accessibleStateAdapter (txHash : Hash) : WarpAccessibleState where
  getPredicateStorageSlots _ _ := none
  getPredicateResults _ _ := []
  txHash := txHash

/-- `SafeMul`: the product and whether it overflowed. -/
def safeMul (a b : UInt64) : UInt64 × Bool := (a*b, 2^64 ≤ a.toNat*b.toNat)

theorem toNat_safeMul_fst {a b : UInt64} (h : (safeMul a b).2 = false) :
    (safeMul a b).1.toNat = a.toNat*b.toNat := by
  rw [safeMul, UInt64.toNat_mul, Nat.mod_eq_of_lt (by simpa [safeMul] using h)]

theorem safeMul_snd_eq_false {a b : UInt64} : (safeMul a b).2 = false ↔ a.toNat*b.toNat < 2^64 := by
  simp [safeMul]

def handleWarpMessage {α : Type} (accessibleState : WarpAccessibleState) (parsers : WarpParsers)
    (unpackIndex : List UInt8 → Except String UInt32) (input : List UInt8) (suppliedGas : UInt64)
    (handler : MessageHandler α) : Except (WarpError × UInt64) (VerifiedOutput α × UInt64) :=
  match deductGas suppliedGas GetVerifiedWarpMessageBaseCost with
  | .error _ => .error (.outOfGas, 0)
  | .ok remainingGas =>
  match unpackIndex input with
  | .error e => .error (.invalidIndexInput e, remainingGas)
  | .ok warpIndexInput =>
  if MaxInt32 < warpIndexInput.toNat then .error (.indexLargerThanMaxInt32, remainingGas) else
  let warpIndex := warpIndexInput.toNat
  let predicate := accessibleState.getPredicateStorageSlots ContractAddress warpIndex
  let predicateResults :=
    accessibleState.getPredicateResults accessibleState.txHash ContractAddress
  let containsIndex := (bitsFromBytes predicateResults).contains warpIndex
  -- `valid := exists && !containsIndex`
  match predicate, containsIndex with
  | some predicateBytes, false =>
    -- `msgBytesGas, overflow := SafeMul(...)`
    let msgBytesGas := safeMul GasCostPerWarpMessageBytes (UInt64.ofNat predicateBytes.length)
    if msgBytesGas.2 then .error (.outOfGas, 0) else
    match deductGas remainingGas msgBytesGas.1 with
    | .error _ => .error (.outOfGas, 0)
    | .ok remainingGas =>
    match unpackPredicate predicateBytes with
    | .error e => .error (.invalidPredicateBytes e, remainingGas)
    | .ok unpackedPredicateBytes =>
    match parsers.parseEnvelope unpackedPredicateBytes with
    | .error e => .error (.invalidWarpMsg e, remainingGas)
    | .ok warpMessage =>
    match handler.handleMessage warpMessage with
    | .error e => .error (e, remainingGas)
    | .ok res => .ok (res, remainingGas)
  | _, _ => .ok (handler.packFailed, remainingGas)

/-- **What a call returns.** A call that succeeds returns the handler's
failure output, or the handler's output for the envelope parsed from the
unpacked predicate at the requested index, when that predicate exists and its
result bit is clear; it is then charged the base cost and the per-byte cost of
the packed predicate, and nothing else. -/
theorem handleWarpMessage_ok {α : Type} (accessibleState : WarpAccessibleState)
    (parsers : WarpParsers) (unpackIndex : List UInt8 → Except String UInt32)
    (input : List UInt8) (suppliedGas : UInt64) (handler : MessageHandler α)
    (out : VerifiedOutput α) (g : UInt64)
    (h : handleWarpMessage accessibleState parsers unpackIndex input suppliedGas handler =
      .ok (out, g)) :
    out = handler.packFailed ∨
    ∃ i predicateBytes unpacked warpMessage, unpackIndex input = .ok i ∧
      accessibleState.getPredicateStorageSlots ContractAddress i.toNat = some predicateBytes ∧
      (bitsFromBytes (accessibleState.getPredicateResults accessibleState.txHash
        ContractAddress)).contains i.toNat = false ∧
      unpackPredicate predicateBytes = .ok unpacked ∧
      parsers.parseEnvelope unpacked = .ok warpMessage ∧
      handler.handleMessage warpMessage = .ok out ∧
      g.toNat+GetVerifiedWarpMessageBaseCost.toNat+
        GasCostPerWarpMessageBytes.toNat*(UInt64.ofNat predicateBytes.length).toNat =
        suppliedGas.toNat := by
  unfold handleWarpMessage at h
  split at h
  · cases h
  rename_i remainingGas hg
  split at h
  · cases h
  rename_i i hi
  split_ifs at h with hmax
  dsimp only at h
  cases hslot : accessibleState.getPredicateStorageSlots ContractAddress i.toNat with
  | none =>
    rw [hslot] at h
    cases h
    exact .inl rfl
  | some predicateBytes =>
  cases hbit : (bitsFromBytes (accessibleState.getPredicateResults accessibleState.txHash
      ContractAddress)).contains i.toNat with
  | true =>
    rw [hslot, hbit] at h
    cases h
    exact .inl rfl
  | false =>
  rw [hslot, hbit] at h
  dsimp only at h
  by_cases hover : (safeMul GasCostPerWarpMessageBytes (UInt64.ofNat predicateBytes.length)).2
  · rw [if_pos hover] at h
    cases h
  rw [if_neg hover] at h
  cases hd : deductGas remainingGas
    (safeMul GasCostPerWarpMessageBytes (UInt64.ofNat predicateBytes.length)).1 with
  | error => simp [hd] at h
  | ok g' =>
  cases hu : unpackPredicate predicateBytes with
  | error => simp [hd, hu] at h
  | ok unpacked =>
  cases hp : parsers.parseEnvelope unpacked with
  | error => simp [hd, hu, hp] at h
  | ok warpMessage =>
  cases hm : handler.handleMessage warpMessage with
  | error => simp [hd, hu, hp, hm] at h
  | ok res =>
  simp only [hd, hu, hp, hm, Except.ok.injEq, Prod.mk.injEq] at h
  obtain ⟨rfl, rfl⟩ := h
  refine .inr ⟨i, predicateBytes, unpacked, warpMessage, hi, hslot, hbit, hu, hp, hm, ?_⟩
  have hmul := toNat_safeMul_fst (by simpa using hover)
  have h1 := toNat_of_deductGas_ok hg
  have h2 := toNat_of_deductGas_ok hd
  omega

/-- Through the adapters the EVM hands the precompile every successful call
returns the failure output: no predicate is ever found. -/
theorem handleWarpMessage_accessibleStateAdapter {α : Type} (txHash : Hash)
    (parsers : WarpParsers) (unpackIndex : List UInt8 → Except String UInt32)
    (input : List UInt8) (suppliedGas : UInt64) (handler : MessageHandler α)
    (out : VerifiedOutput α) (g : UInt64)
    (h : handleWarpMessage (accessibleStateAdapter txHash) parsers unpackIndex input suppliedGas
      handler = .ok (out, g)) : out = handler.packFailed := by
  rcases handleWarpMessage_ok _ parsers unpackIndex input suppliedGas handler out g h with
    hfail | ⟨i, predicateBytes, -, -, -, hslot, -⟩
  · exact hfail
  · cases hslot

def sampleSignature : List UInt8 := List.replicate BLSSignatureLen 0xab

/-- A message of network `0` from chain `1` carrying an `AddressedCall` from a
20-byte source address with an empty payload, signed by canonical validator `0`. -/
def sampleEnvelope : Envelope :=
  ⟨⟨0, 1, addressedCallBytes (List.replicate 20 1) []⟩, ⟨⟨1⟩, sampleSignature⟩⟩

theorem sampleEnvelope_wellFormed : sampleEnvelope.WellFormed := by decide

theorem parsePayload_sampleEnvelope : warpParsers.parsePayload sampleEnvelope.message.payload =
    .ok (.addressedCall (List.replicate 20 1) []) :=
  parsePayload_addressedCallBytes (by decide) (by decide)

/-- A transaction whose access list holds the sample envelope as a Warp
predicate, packed into storage keys as `NewPredicateTx` packs it. The
predicate unpacks and parses, and the handler would return its message as
valid; the predicate verifies, so its committed result bitset is empty and
bit `0` is clear, and index `0` is below the one tuple. The precompile still
answers `Valid = false`, charging only the base cost. -/
theorem getVerifiedWarpMessage_invalid_for_verified_predicate :
    preparePredicateStorageSlots (· == ContractAddress)
        [⟨ContractAddress, bytesToHashSlice (packPredicate sampleEnvelope.bytes)⟩] ContractAddress =
      [packPredicate sampleEnvelope.bytes] ∧
    unpackPredicate (packPredicate sampleEnvelope.bytes) = .ok sampleEnvelope.bytes ∧
    warpParsers.parseEnvelope sampleEnvelope.bytes = .ok sampleEnvelope ∧
    (addressedPayloadHandler warpParsers).handleMessage sampleEnvelope =
      .ok ⟨⟨1, bytesToAddress (List.replicate 20 1), []⟩, true⟩ ∧
    (predicateResultBits (fun _ => true) [packPredicate sampleEnvelope.bytes]).bytes = [] ∧
    (bitsFromBytes []).contains 0 = false ∧
    handleWarpMessage (accessibleStateAdapter 0) warpParsers (fun _ => .ok 0) [] 1000
      (addressedPayloadHandler warpParsers) =
      .ok ((addressedPayloadHandler warpParsers).packFailed, 998) ∧
    (addressedPayloadHandler warpParsers).packFailed.valid = false := by
  refine ⟨?_, unpackPredicate_packPredicate _, parseEnvelope_bytes _ sampleEnvelope_wellFormed, ?_,
    rfl, rfl, rfl, rfl⟩
  · rw [preparePredicateStorageSlots_apply, if_pos (beq_self_eq_true _)]
    simp only [List.filter_singleton, decide_true, cond_true, List.map_singleton,
      hashSliceToBytes_bytesToHashSlice_packPredicate]
  · simp only [addressedPayloadHandler, parsePayload_sampleEnvelope]
    rfl

end LuxEvm.Warp
