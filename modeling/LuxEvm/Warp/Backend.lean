import LuxEvm.Warp.Handler

/-!
# The warp backend

The backend signs warp messages for the VM. `Block.Accept` hands every message
logged by the warp precompile to `AddMessage`, which stores it in the warp
database under its message ID and signs it. A signature request is answered
from the signature cache, or else after `Verify`: a message stored under the
requested message's ID, in the message cache, among the configured off-chain
messages or in the database, passes; otherwise the payload must be a block hash
of an accepted block or an uptime message the validator reader confirms.

The message ID, the signer, the parsers of the `warp` package and what the
block client and the validator reader report are parameters. The caches are
LRU caches: an entry may be evicted at any time, and a restart empties them
while the database stays.
-/

set_option autoImplicit false

namespace LuxEvm.Warp

/-- What the backend uses from outside the repository. -/
structure BackendEnv (σ : Type) where
  networkID : UInt32
  sourceChainID : Hash
  /-- `Keccak256(msg.ID())`, the key of the caches and the database -/
  messageID : UnsignedMessage → Hash
  /-- `warpSigner.Sign`; `none` when no signer is configured or it fails -/
  sign : UnsignedMessage → Option σ
  /-- `msg.Bytes()` -/
  messageBytes : UnsignedMessage → List UInt8
  /-- `warp.ParseMessage` -/
  parseMessage : List UInt8 → Except String UnsignedMessage
  /-- `UnpackSendWarpEventDataToMessage` -/
  unpackLog : List UInt8 → Except String UnsignedMessage
  /-- `payload.ParsePayload` -/
  parsePayload : List UInt8 → Except String Payload
  /-- `messages.Parse` -/
  parseAddressed : List UInt8 → Except String AddressedMessage
  /-- `payload.NewHash(blockID).Bytes()` -/
  hashPayload : Hash → List UInt8
  parsePayload_hashPayload : ∀ h, parsePayload (hashPayload h) = .ok (.hash h)

structure Reports where
  /-- `GetAcceptedBlock` finds the block -/
  blockAccepted : Hash → Bool
  /-- `GetValidatorAndUptime`: the current uptime in whole seconds -/
  uptimeSeconds : Hash → Option UInt64

structure BackendState (σ : Type) where
  db : Hash → Option (List UInt8)
  signatureCache : Hash → Option σ
  messageCache : Hash → Option UnsignedMessage
  offchainAddressedCallMsgs : Hash → Option UnsignedMessage

inductive InitError where
  /-- "failed to parse off-chain message at index %d: %w" -/
  | parseFailed (index : ℕ)
  /-- "wrong network ID at index %d" -/
  | wrongNetworkID (index : ℕ)
  /-- "wrong source chain ID at index %d" -/
  | wrongSourceChainID (index : ℕ)
  /-- "failed to parse off-chain message at index %d as AddressedCall: %w" -/
  | payloadParseFailed (index : ℕ)
  deriving DecidableEq, Repr

inductive BackendError where
  /-- "warp signer not configured", "failed to sign message: %w" -/
  | signFailed
  /-- "failed to get message %s: %w": stored bytes that do not parse -/
  | getMessageFailed
  /-- "failed to parse payload: %w" -/
  | payloadParseFailed
  /-- "unknown payload type: %T" -/
  | unknownPayloadType
  /-- "failed to parse addressed call message: %w" -/
  | addressedCallParseFailed
  /-- "source address should be empty for offchain addressed messages" -/
  | nonEmptySourceAddress
  /-- "unknown message type: %T" -/
  | unknownMessageType
  /-- "failed to get uptime for validationID %s: %w" -/
  | uptimeUnavailable
  /-- "current uptime %d is less than queried uptime %d for nodeID %s" -/
  | uptimeTooLow (current total : UInt64)
  /-- "failed to get block %s: %w" -/
  | blockNotAccepted
  /-- "failed to parse warp log data into signed core …" -/
  | logParseFailed
  deriving DecidableEq, Repr

inductive GetMessageError where
  /-- `database.ErrNotFound` -/
  | notFound
  | parseFailed
  deriving DecidableEq, Repr

section Backend

variable {σ : Type} (env : BackendEnv σ)

/-- The loop of `initOffChainMessages` from index `i`. -/
def initOffChainLoop : ℕ → (Hash → Option UnsignedMessage) → List (List UInt8) →
    Except InitError (Hash → Option UnsignedMessage)
  | _, acc, [] => .ok acc
  | i, acc, offchainMsg :: rest =>
    match env.parseMessage offchainMsg with
    | .error _ => .error (.parseFailed i)
    | .ok msg =>
      if msg.networkID ≠ env.networkID then .error (.wrongNetworkID i)
      else if msg.sourceChainID ≠ env.sourceChainID then .error (.wrongSourceChainID i)
      else
        match env.parsePayload msg.payload with
        | .error _ => .error (.payloadParseFailed i)
        | .ok _ => initOffChainLoop (i+1) (Function.update acc (env.messageID msg) (some msg)) rest

/-- `NewBackend`: empty caches over the warp database. -/
def newBackend (db : Hash → Option (List UInt8)) (offchainMessages : List (List UInt8)) :
    Except InitError (BackendState σ) :=
  match initOffChainLoop env 0 (fun _ => none) offchainMessages with
  | .error e => .error e
  | .ok msgs => .ok ⟨db, fun _ => none, fun _ => none, msgs⟩

def signMessage (st : BackendState σ) (msg : UnsignedMessage) :
    BackendState σ × Except BackendError σ :=
  match env.sign msg with
  | none => (st, .error .signFailed)
  | some sig =>
    ({ st with signatureCache := Function.update st.signatureCache (env.messageID msg) (some sig) },
      .ok sig)

theorem signMessage_none {st : BackendState σ} {msg : UnsignedMessage} (h : env.sign msg = none) :
    signMessage env st msg = (st, .error .signFailed) := by
  simp [signMessage, h]

theorem signMessage_some {st : BackendState σ} {msg : UnsignedMessage} {sig : σ}
    (h : env.sign msg = some sig) :
    signMessage env st msg =
      ({ st with signatureCache := Function.update st.signatureCache (env.messageID msg) (some sig) },
        .ok sig) := by
  simp [signMessage, h]

/-- `AddMessage`: the message is stored before it is signed. -/
def addMessage (st : BackendState σ) (msg : UnsignedMessage) :
    BackendState σ × Except BackendError Unit :=
  let st := { st with db := Function.update st.db (env.messageID msg) (some (env.messageBytes msg)) }
  match signMessage env st msg with
  | (st, .error e) => (st, .error e)
  | (st, .ok _) => (st, .ok ())

theorem addMessage_fst (st : BackendState σ) (msg : UnsignedMessage) :
    (addMessage env st msg).1 =
      (signMessage env
        { st with db := Function.update st.db (env.messageID msg) (some (env.messageBytes msg)) }
        msg).1 := by
  simp only [addMessage]
  split
  next heq => rw [heq]
  next heq => rw [heq]

def getMessage (st : BackendState σ) (messageID : Hash) :
    BackendState σ × Except GetMessageError UnsignedMessage :=
  match st.messageCache messageID with
  | some message => (st, .ok message)
  | none =>
    match st.offchainAddressedCallMsgs messageID with
    | some message => (st, .ok message)
    | none =>
      match st.db messageID with
      | none => (st, .error .notFound)
      | some coreBytes =>
        match env.parseMessage coreBytes with
        | .error _ => (st, .error .parseFailed)
        | .ok msg =>
          ({ st with messageCache := Function.update st.messageCache messageID (some msg) }, .ok msg)

def verifyBlockMessage (reports : Reports) (blockID : Hash) : Except BackendError Unit :=
  if reports.blockAccepted blockID then .ok () else .error .blockNotAccepted

def verifyUptimeMessage (reports : Reports) (validationID : Hash) (totalUptime : UInt64) :
    Except BackendError Unit :=
  match reports.uptimeSeconds validationID with
  | none => .error .uptimeUnavailable
  | some currentUptimeSeconds =>
    if currentUptimeSeconds < totalUptime then .error (.uptimeTooLow currentUptimeSeconds totalUptime)
    else .ok ()

def verifyOffchainAddressedCall (reports : Reports) (sourceAddress payload : List UInt8) :
    Except BackendError Unit :=
  match env.parseAddressed payload with
  | .error _ => .error .addressedCallParseFailed
  | .ok parsed =>
    if sourceAddress ≠ [] then .error .nonEmptySourceAddress
    else
      match parsed with
      | .validatorUptime validationID totalUptime => verifyUptimeMessage reports validationID totalUptime
      | .other => .error .unknownMessageType

/-- The payload switch of `Verify`. -/
def verifyPayload (reports : Reports) (msg : UnsignedMessage) : Except BackendError Unit :=
  match env.parsePayload msg.payload with
  | .error _ => .error .payloadParseFailed
  | .ok (.addressedCall sourceAddress payload) =>
    verifyOffchainAddressedCall env reports sourceAddress payload
  | .ok (.hash blockID) => verifyBlockMessage reports blockID
  | .ok .other => .error .unknownPayloadType

/-- `Verify`: known messages pass, others by their payload. -/
def verify (reports : Reports) (st : BackendState σ) (msg : UnsignedMessage) :
    BackendState σ × Except BackendError Unit :=
  match getMessage env st (env.messageID msg) with
  | (st, .ok _) => (st, .ok ())
  | (st, .error .parseFailed) => (st, .error .getMessageFailed)
  | (st, .error .notFound) => (st, verifyPayload env reports msg)

def getMessageSignature (reports : Reports) (st : BackendState σ) (msg : UnsignedMessage) :
    BackendState σ × Except BackendError σ :=
  match st.signatureCache (env.messageID msg) with
  | some sig => (st, .ok sig)
  | none =>
    match verify env reports st msg with
    | (st, .error e) => (st, .error e)
    | (st, .ok ()) => signMessage env st msg

/-- The message `GetBlockSignature` signs: a hash payload naming the block. -/
def blockMessage (blockID : Hash) : UnsignedMessage :=
  ⟨env.networkID, env.sourceChainID, env.hashPayload blockID⟩

def getBlockSignature (reports : Reports) (st : BackendState σ) (blockID : Hash) :
    BackendState σ × Except BackendError σ :=
  let msg := blockMessage env blockID
  match st.signatureCache (env.messageID msg) with
  | some sig => (st, .ok sig)
  | none =>
    match verifyBlockMessage reports blockID with
    | .error e => (st, .error e)
    | .ok () => signMessage env st msg

structure Log where
  address : Address
  data : List UInt8
  deriving DecidableEq, Repr

/-- `handlePrecompileAccept` over the logs of the block's receipts in order;
`warpActive`: the warp precompile is an accepter under the block's rules. -/
def acceptLogs (warpActive : Bool) (st : BackendState σ) :
    List Log → BackendState σ × Except BackendError Unit
  | [] => (st, .ok ())
  | log :: rest =>
    if warpActive ∧ log.address = ContractAddress then
      match env.unpackLog log.data with
      | .error _ => (st, .error .logParseFailed)
      | .ok msg =>
        match addMessage env st msg with
        | (st, .error e) => (st, .error e)
        | (st, .ok ()) => acceptLogs warpActive st rest
    else acceptLogs warpActive st rest

end Backend

inductive Event where
  | acceptBlock (warpActive : Bool) (logs : List Log)
  /-- the node restarts: the caches are emptied, the database is kept -/
  | restart
  | evictSignature (messageID : Hash)
  | evictMessage (messageID : Hash)
  | getMessageSignature (msg : UnsignedMessage) (reports : Reports)
  | getBlockSignature (blockID : Hash) (reports : Reports)

section Run

variable {σ : Type} (env : BackendEnv σ)

def step (st : BackendState σ) : Event → BackendState σ × Option (Except BackendError σ)
  | .acceptBlock warpActive logs => ((acceptLogs env warpActive st logs).1, none)
  | .restart => ({ st with signatureCache := fun _ => none, messageCache := fun _ => none }, none)
  | .evictSignature id =>
    ({ st with signatureCache := Function.update st.signatureCache id none }, none)
  | .evictMessage id => ({ st with messageCache := Function.update st.messageCache id none }, none)
  | .getMessageSignature msg reports =>
    let r := getMessageSignature env reports st msg
    (r.1, some r.2)
  | .getBlockSignature blockID reports =>
    let r := getBlockSignature env reports st blockID
    (r.1, some r.2)

def run (st : BackendState σ) (events : List Event) : BackendState σ :=
  events.foldl (fun st e => (step env st e).1) st

def Event.requested : Event → Option UnsignedMessage
  | .getMessageSignature msg _ => some msg
  | .getBlockSignature blockID _ => some (blockMessage env blockID)
  | _ => none

end Run

end LuxEvm.Warp
