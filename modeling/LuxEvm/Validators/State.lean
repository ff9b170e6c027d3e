import LuxEvm.Lib.ByteString
import LuxEvm.Common
import LuxEvm.Lib.ByteBuffer
import LuxEvm.Lib.StateRel
import Mathlib.Data.List.AList

/-!
# Validator state

The validator state keeps every validator's record under its validation ID,
an index from node ID back to validation ID, and the validation IDs changed
since the last write, each marked updated or deleted. `WriteState` flushes
those marks to the database as one batch, each record in a fixed 56-byte
big-endian layout, and `NewState` reloads the records from the database.

From a state loaded by `NewState`, over every sequence of calls: the record
map and the index stay inverse to each other, a call that fails changes
neither, and after `WriteState` a fresh `NewState` on the database loads the
same records and index (`validator_state_consistent`). The last rests on the
codec round trip (`unmarshalValidatorData_marshal`), negative up-durations
included, and on the database agreeing with the records outside the marks
(`Persisted`).

The callback listeners, which nothing here reads back, are left out; the
batch and the database never fail here.
-/

set_option autoImplicit false

namespace LuxEvm.ValidatorState
open Lib.ByteString Lib.ByteBuffer Lib.StateRel

/-- `ids.ID`. -/
abbrev ID := BitVec 256

/-- `ids.NodeID`. -/
abbrev NodeID := BitVec 160

/-- `vID[:]`. -/
def idBytes (vID : ID) : List UInt8 := encode 32 vID.toNat

/-- `validatorData`; `validationID` is its database key and is not serialized. -/
structure ValidatorData where
  upDuration : Int64
  lastUpdated : UInt64
  nodeID : NodeID
  weight : UInt64
  startTime : UInt64
  isActive : Bool
  isL1Validator : Bool
  validationID : ID
  deriving DecidableEq, Repr

/-- `interfaces.Validator`. -/
structure Validator where
  validationID : ID
  nodeID : NodeID
  weight : UInt64
  startTimestamp : UInt64
  isActive : Bool
  isL1Validator : Bool
  deriving DecidableEq, Repr

/-- `dbUpdateStatus`. -/
inductive DbUpdateStatus where
  | updated
  | deleted
  deriving DecidableEq, Repr

/-- The database: byte-string keys and values. -/
abbrev Database := AList fun _ : List UInt8 => List UInt8

inductive CodecError where
  /-- `wrappers.ErrInsufficientLength`, with the bytes needed and got -/
  | insufficientLength (needed got : ℕ)
  /-- `ErrUnknownVersion` -/
  | unknownVersion (version : ℕ)
  /-- the packer's error for a boolean byte other than `0` or `1` -/
  | badBool
  deriving DecidableEq, Repr

inductive StateError where
  /-- `luxdb.ErrNotFound` -/
  | notFound
  /-- `ErrImmutableField` -/
  | immutableField
  /-- `ErrAlreadyExists`, for a validation ID -/
  | alreadyExistsID (vID : ID)
  /-- `ErrAlreadyExists`, for a node ID -/
  | alreadyExistsNodeID (nodeID : NodeID)
  /-- "failed to parse validator ID": `ids.ToID` of a key that is not 32 bytes -/
  | parseID (length : ℕ)
  /-- "failed to parse validator data" -/
  | parseData (err : CodecError)
  /-- "failed to load data from disk" -/
  | loadFromDisk (err : StateError)
  /-- `WriteState` dereferencing the record of an updated ID that has none;
  Go panics -/
  | nilValidatorData (vID : ID)
  deriving Repr

/-- `state`; the listeners are left out. -/
structure State where
  data : ID → Option ValidatorData
  index : NodeID → Option ID
  updatedData : AList fun _ : ID => DbUpdateStatus
  db : Database

/-! ## The codec -/

def codecVersion : ℕ := 0

def validatorDataLen : ℕ := 2 + 8 + 8 + 20 + 8 + 8 + 1 + 1

/-- `PackBool`. -/
def packBool (b : Bool) : List UInt8 := [if b then 1 else 0]

/-- `UnpackBool`. -/
def unpackBool (b : UInt8) : Except CodecError Bool :=
  if b = 0 then .ok false else if b = 1 then .ok true else .error .badBool

/-- `marshalValidatorData`: version, up-duration as its two's complement,
last-updated, node ID, weight, start time, the two flags. -/
def marshalValidatorData (d : ValidatorData) : List UInt8 :=
  encode 2 codecVersion ++ encode 8 d.upDuration.toUInt64.toNat ++ encode 8 d.lastUpdated.toNat ++
    encode 20 d.nodeID.toNat ++ encode 8 d.weight.toNat ++ encode 8 d.startTime.toNat ++
    packBool d.isActive ++ packBool d.isL1Validator

/-- `unmarshalValidatorData`: the version is checked before the length. -/
def unmarshalValidatorData (bytes : List UInt8) (d : ValidatorData) :
    Except CodecError ValidatorData :=
  if bytes.length < 2 then .error (.insufficientLength 2 bytes.length)
  else
    let ver := value (bytes.take 2)
    if ver ≠ codecVersion then .error (.unknownVersion ver)
    else if bytes.length < validatorDataLen then
      .error (.insufficientLength validatorDataLen bytes.length)
    else do
      let isActive ← unpackBool (bytes.getD 54 0)
      let isL1Validator ← unpackBool (bytes.getD 55 0)
      pure { d with
        upDuration := (UInt64.ofNat (value (slice bytes 2 10))).toInt64
        lastUpdated := UInt64.ofNat (value (slice bytes 10 18))
        nodeID := BitVec.ofNat 160 (value (slice bytes 18 38))
        weight := UInt64.ofNat (value (slice bytes 38 46))
        startTime := UInt64.ofNat (value (slice bytes 46 54))
        isActive := isActive
        isL1Validator := isL1Validator }

/-- `parseValidatorData`: an empty value is a fresh record. -/
def parseValidatorData (bytes : List UInt8) (data : ValidatorData) :
    Except CodecError ValidatorData :=
  if bytes.length = 0 then .ok data else unmarshalValidatorData bytes data

/-- `ids.ToID`. -/
def toID (bytes : List UInt8) : Except StateError ID :=
  if bytes.length = 32 then .ok (BitVec.ofNat 256 (value bytes)) else .error (.parseID bytes.length)

/-- `&validatorData{validationID: vID}`. -/
def emptyData (vID : ID) : ValidatorData := ⟨0, 0, 0, 0, 0, false, false, vID⟩

/-! ## The state -/

namespace State

/-- `addData`: both IDs must be new. -/
def addData (s : State) (vID : ID) (data : ValidatorData) : Except StateError State :=
  if (s.data vID).isSome then .error (.alreadyExistsID vID)
  else if (s.index data.nodeID).isSome then .error (.alreadyExistsNodeID data.nodeID)
  else .ok { s with
    data := Function.update s.data vID (some data)
    index := Function.update s.index data.nodeID (some vID) }

/-- `getData`: the record of a node, and the validation ID it is kept under. -/
def getData (s : State) (nodeID : NodeID) : Except StateError (ID × ValidatorData) :=
  match s.index nodeID with
  | none => .error .notFound
  | some vID =>
    match s.data vID with
    | none => .error .notFound
    | some data => .ok (vID, data)

/-- One database entry of `loadFromDisk`. -/
def loadEntry (s : State) (entry : Sigma fun _ : List UInt8 => List UInt8) :
    Except StateError State := do
  let vID ← toID entry.1
  let vdr ← (parseValidatorData entry.2 (emptyData vID)).mapError .parseData
  s.addData vID vdr

/-- `loadFromDisk`, over the database's entries in the order it lists them. -/
def loadFromDisk (s : State) : Except StateError State :=
  s.db.entries.foldlM loadEntry s

/-- `AddValidator`. -/
def addValidator (s : State) (vdr : Validator) : State × Option StateError :=
  let data : ValidatorData := ⟨0, vdr.startTimestamp, vdr.nodeID, vdr.weight,
    vdr.startTimestamp, vdr.isActive, vdr.isL1Validator, vdr.validationID⟩
  match s.addData vdr.validationID data with
  | .error err => (s, some err)
  | .ok s => ({ s with updatedData := s.updatedData.insert vdr.validationID .updated }, none)

/-- `constantsAreUnmodified`. -/
def constantsAreUnmodified (v : ValidatorData) (u : Validator) : Bool :=
  v.validationID == u.validationID && v.nodeID == u.nodeID &&
    v.isL1Validator == u.isL1Validator && v.startTime == u.startTimestamp

/-- `UpdateValidator`: only the status and the weight may change. -/
def updateValidator (s : State) (vdr : Validator) : State × Option StateError :=
  match s.data vdr.validationID with
  | none => (s, some .notFound)
  | some data =>
    if !constantsAreUnmodified data vdr then (s, some .immutableField)
    else
      let (data, updated) :=
        if data.isActive ≠ vdr.isActive then ({ data with isActive := vdr.isActive }, true)
        else (data, false)
      let (data, updated) :=
        if data.weight ≠ vdr.weight then ({ data with weight := vdr.weight }, true)
        else (data, updated)
      let s := { s with data := Function.update s.data vdr.validationID (some data) }
      if updated then ({ s with updatedData := s.updatedData.insert vdr.validationID .updated }, none)
      else (s, none)

/-- `DeleteValidator`. -/
def deleteValidator (s : State) (vID : ID) : State × Option StateError :=
  match s.data vID with
  | none => (s, some .notFound)
  | some data =>
    ({ s with
      data := Function.update s.data data.validationID none
      index := Function.update s.index data.nodeID none
      updatedData := s.updatedData.insert data.validationID .deleted }, none)

/-- `SetStatus`. -/
def setStatus (s : State) (vID : ID) (isActive : Bool) : State × Option StateError :=
  match s.data vID with
  | none => (s, some .notFound)
  | some data =>
    ({ s with
      data := Function.update s.data vID (some { data with isActive := isActive })
      updatedData := s.updatedData.insert vID .updated }, none)

/-- `SetUptime`, with the last-updated time as Unix seconds, kept as
`uint64(t.Unix())`. -/
def setUptime (s : State) (nodeID : NodeID) (upDuration : Int64) (lastUpdated : Int64) :
    State × Option StateError :=
  match s.getData nodeID with
  | .error err => (s, some err)
  | .ok (vID, data) =>
    let data := { data with upDuration := upDuration, lastUpdated := lastUpdated.toUInt64 }
    ({ s with
      data := Function.update s.data vID (some data)
      updatedData := s.updatedData.insert data.validationID .updated }, none)

inductive BatchOp where
  | put (key value : List UInt8)
  | delete (key : List UInt8)

def BatchOp.apply (db : Database) : BatchOp → Database
  | .put key value => db.insert key value
  | .delete key => db.erase key

/-- The batch operation for one mark. -/
def flushOp (s : State) (entry : Sigma fun _ : ID => DbUpdateStatus) : Except StateError BatchOp :=
  match entry.2 with
  | .updated =>
    match s.data entry.1 with
    | some data => .ok (.put (idBytes entry.1) (marshalValidatorData data))
    | none => .error (.nilValidatorData entry.1)
  | .deleted => .ok (.delete (idBytes entry.1))

/-- `WriteState`: the marks as one batch, then cleared. -/
def writeState (s : State) : Except StateError State := do
  let batch ← s.updatedData.entries.mapM s.flushOp
  pure { s with db := batch.foldl BatchOp.apply s.db, updatedData := ∅ }

end State

/-- `NewState`. -/
def newState (db : Database) : Except StateError State :=
  (State.loadFromDisk ⟨fun _ => none, fun _ => none, ∅, db⟩).mapError .loadFromDisk

/-- The calls on a state. -/
inductive StateOp where
  | addValidator (vdr : Validator)
  | updateValidator (vdr : Validator)
  | deleteValidator (vID : ID)
  | setStatus (vID : ID) (isActive : Bool)
  | setUptime (nodeID : NodeID) (upDuration lastUpdated : Int64)
  | writeState

namespace State

/-- One call, and the error it returns; `WriteState` keeps the state when it
fails. -/
def step (s : State) : StateOp → State × Option StateError
  | .addValidator vdr => s.addValidator vdr
  | .updateValidator vdr => s.updateValidator vdr
  | .deleteValidator vID => s.deleteValidator vID
  | .setStatus vID isActive => s.setStatus vID isActive
  | .setUptime nodeID upDuration lastUpdated => s.setUptime nodeID upDuration lastUpdated
  | .writeState =>
    match s.writeState with
    | .ok s => (s, none)
    | .error err => (s, some err)

def run (s : State) (ops : List StateOp) : State := ops.foldl (fun s op => (s.step op).1) s

end State

/-! ## The codec round trip -/

theorem unpackBool_packBool (b : Bool) : unpackBool (if b then 1 else 0) = .ok b := by
  cases b <;> rfl

@[simp] theorem length_marshalValidatorData (d : ValidatorData) :
    (marshalValidatorData d).length = validatorDataLen := by
  simp [marshalValidatorData, packBool, validatorDataLen]

theorem ofNat_value_encode_toNat (x : UInt64) : UInt64.ofNat (value (encode 8 x.toNat)) = x := by
  rw [value_encode, Nat.mod_eq_of_lt (by have := x.toNat_lt; omega), UInt64.ofNat_toNat]

/-- Every field but the key is read back, negative up-durations included. -/
theorem unmarshalValidatorData_marshal (d d₀ : ValidatorData) :
    unmarshalValidatorData (marshalValidatorData d) d₀ = .ok { d with validationID := d₀.validationID } := by
  have hver : value (encode 2 codecVersion) = codecVersion := by decide
  have hnode := ofNat_value_encode 20 d.nodeID (by norm_num)
  unfold unmarshalValidatorData
  rw [length_marshalValidatorData]
  simp only [marshalValidatorData, validatorDataLen, packBool, slice, List.append_assoc]
  simp [List.drop_append, List.drop_of_length_le, hver, hnode, ofNat_value_encode_toNat,
    unpackBool_packBool]

theorem parseValidatorData_marshal {d : ValidatorData} {vID : ID} (hkey : d.validationID = vID) :
    parseValidatorData (marshalValidatorData d) (emptyData vID) = .ok d := by
  have hlen : (marshalValidatorData d).length ≠ 0 := by simp [validatorDataLen]
  rw [parseValidatorData, if_neg hlen, unmarshalValidatorData_marshal, emptyData, ← hkey]

theorem parseValidatorData_key {bytes : List UInt8} {d₀ d : ValidatorData}
    (h : parseValidatorData bytes d₀ = .ok d) : d.validationID = d₀.validationID := by
  unfold parseValidatorData at h
  split_ifs at h
  · cases h
    rfl
  · unfold unmarshalValidatorData at h
    dsimp only at h
    split_ifs at h
    obtain ⟨_, -, h⟩ := bind_eq_ok.mp h
    obtain ⟨_, -, h⟩ := bind_eq_ok.mp h
    cases h
    rfl

theorem toID_idBytes (vID : ID) : toID (idBytes vID) = .ok vID := by
  rw [toID, idBytes, if_pos (length_encode 32 _), ofNat_value_encode 32 vID (by norm_num)]

theorem idBytes_injective : Function.Injective idBytes := fun v w h => by
  have hv := toID_idBytes v
  rw [h, toID_idBytes] at hv
  cases hv
  rfl

theorem idBytes_of_toID {k : List UInt8} {vID : ID} (h : toID k = .ok vID) :
    k.length = 32 ∧ idBytes vID = k := by
  unfold toID at h
  split_ifs at h with hk
  cases h
  have hlt : value k < 2 ^ 256 := by
    have := value_lt k
    rwa [hk, show (256 : ℕ) ^ 32 = 2 ^ 256 by norm_num] at this
  refine ⟨hk, ?_⟩
  rw [idBytes, BitVec.toNat_ofNat, Nat.mod_eq_of_lt hlt, ← hk, encode_value]

/-! ## The record map and the index are inverse -/

namespace State

/-- The record map and the index are inverse, and every record carries its key. -/
structure Consistent (s : State) : Prop where
  index_data : ∀ vID d, s.data vID = some d → s.index d.nodeID = some vID
  data_index : ∀ nodeID vID, s.index nodeID = some vID →
    ∃ d, s.data vID = some d ∧ d.nodeID = nodeID
  key : ∀ vID d, s.data vID = some d → d.validationID = vID

variable {s : State}

theorem Consistent.empty (db : Database) : Consistent ⟨fun _ => none, fun _ => none, ∅, db⟩ where
  index_data _ _ h := nomatch h
  data_index _ _ h := nomatch h
  key _ _ h := nomatch h

theorem addData_eq_ok {vID : ID} {data : ValidatorData} {s' : State}
    (h : s.addData vID data = .ok s') :
    s.data vID = none ∧ s.index data.nodeID = none ∧
      s' = { s with data := Function.update s.data vID (some data)
                    index := Function.update s.index data.nodeID (some vID) } := by
  unfold State.addData at h
  split_ifs at h with hv hn
  cases h
  simp only [Option.isSome_iff_ne_none, ne_eq, not_not] at hv hn
  exact ⟨hv, hn, rfl⟩

theorem Consistent.addData (inv : s.Consistent) {vID : ID} {data : ValidatorData} {s' : State}
    (hkey : data.validationID = vID) (h : s.addData vID data = .ok s') : s'.Consistent := by
  obtain ⟨hv, hn, rfl⟩ := addData_eq_ok h
  refine ⟨fun w d hw => ?_, fun n w hw => ?_, fun w d hw => ?_⟩ <;> dsimp only at hw ⊢
  · by_cases hwv : w = vID
    · subst hwv
      rw [Function.update_self] at hw
      cases hw
      simp
    · rw [Function.update_of_ne hwv] at hw
      have hidx := inv.index_data w d hw
      have hnd : d.nodeID ≠ data.nodeID := fun he => by rw [he, hn] at hidx; cases hidx
      rw [Function.update_of_ne hnd, hidx]
  · by_cases hnv : n = data.nodeID
    · subst hnv
      rw [Function.update_self] at hw
      cases hw
      exact ⟨data, by simp, rfl⟩
    · rw [Function.update_of_ne hnv] at hw
      obtain ⟨d, hd, hdn⟩ := inv.data_index n w hw
      have hwv : w ≠ vID := fun he => by rw [he, hv] at hd; cases hd
      exact ⟨d, by rw [Function.update_of_ne hwv]; exact hd, hdn⟩
  · by_cases hwv : w = vID
    · subst hwv
      rw [Function.update_self] at hw
      cases hw
      exact hkey
    · rw [Function.update_of_ne hwv] at hw
      exact inv.key w d hw

theorem Consistent.update (inv : s.Consistent) {vID : ID} {d : ValidatorData}
    (hd : s.data vID = some d) (d' : ValidatorData) (hnode : d'.nodeID = d.nodeID) (hkey : d'.validationID = d.validationID)
    (u : AList fun _ : ID => DbUpdateStatus) (db : Database) :
    Consistent ⟨Function.update s.data vID (some d'), s.index, u, db⟩ := by
  refine ⟨fun w e hw => ?_, fun n w hw => ?_, fun w e hw => ?_⟩ <;> dsimp only at hw ⊢
  · by_cases hwv : w = vID
    · subst hwv
      rw [Function.update_self] at hw
      cases hw
      rw [hnode]
      exact inv.index_data w d hd
    · rw [Function.update_of_ne hwv] at hw
      exact inv.index_data w e hw
  · obtain ⟨e, he, hen⟩ := inv.data_index n w hw
    by_cases hwv : w = vID
    · subst hwv
      rw [hd] at he
      cases he
      exact ⟨d', by simp, hnode.trans hen⟩
    · exact ⟨e, by rw [Function.update_of_ne hwv]; exact he, hen⟩
  · by_cases hwv : w = vID
    · subst hwv
      rw [Function.update_self] at hw
      cases hw
      rw [hkey]
      exact inv.key w d hd
    · rw [Function.update_of_ne hwv] at hw
      exact inv.key w e hw

theorem Consistent.delete (inv : s.Consistent) {vID : ID} {d : ValidatorData}
    (hd : s.data vID = some d) (u : AList fun _ : ID => DbUpdateStatus) (db : Database) :
    Consistent ⟨Function.update s.data vID none, Function.update s.index d.nodeID none, u, db⟩ := by
  refine ⟨fun w e hw => ?_, fun n w hw => ?_, fun w e hw => ?_⟩ <;> dsimp only at hw ⊢
  · have hwv : w ≠ vID := fun he => by subst he; simp at hw
    rw [Function.update_of_ne hwv] at hw
    have hnd : e.nodeID ≠ d.nodeID := fun he => by
      have := inv.index_data w e hw
      rw [he, inv.index_data vID d hd] at this
      exact hwv (Option.some_injective _ this).symm
    rw [Function.update_of_ne hnd]
    exact inv.index_data w e hw
  · have hnd : n ≠ d.nodeID := fun he => by subst he; simp at hw
    rw [Function.update_of_ne hnd] at hw
    obtain ⟨e, he, hen⟩ := inv.data_index n w hw
    have hwv : w ≠ vID := fun hw' => by
      subst hw'
      rw [hd] at he
      cases he
      exact hnd hen.symm
    exact ⟨e, by rw [Function.update_of_ne hwv]; exact he, hen⟩
  · have hwv : w ≠ vID := fun he => by subst he; simp at hw
    rw [Function.update_of_ne hwv] at hw
    exact inv.key w e hw

theorem getData_eq_ok {nodeID : NodeID} {vID : ID} {d : ValidatorData}
    (h : s.getData nodeID = .ok (vID, d)) : s.index nodeID = some vID ∧ s.data vID = some d := by
  unfold State.getData at h
  split at h
  · cases h
  · split at h
    · cases h
    · cases h
      exact ⟨by assumption, by assumption⟩

theorem updateValidator_of_some {vdr : Validator} {d : ValidatorData}
    (hd : s.data vdr.validationID = some d) (hc : constantsAreUnmodified d vdr = true) :
    s.updateValidator vdr =
      if d.isActive ≠ vdr.isActive ∨ d.weight ≠ vdr.weight then
        ({ s with data := Function.update s.data vdr.validationID
                    (some { d with isActive := vdr.isActive, weight := vdr.weight })
                  updatedData := s.updatedData.insert vdr.validationID .updated }, none)
      else
        ({ s with data := Function.update s.data vdr.validationID
                    (some { d with isActive := vdr.isActive, weight := vdr.weight }) }, none) := by
  unfold State.updateValidator
  rw [hd]
  simp only [hc, Bool.not_true, Bool.false_eq_true, if_false]
  obtain ⟨up, last, node, weight, start, active, l1, key⟩ := d
  by_cases ha : active = vdr.isActive <;> by_cases hw : weight = vdr.weight <;> simp_all

theorem step_of_error {op : StateOp} {err : StateError} (h : (s.step op).2 = some err) :
    (s.step op).1 = s := by
  cases op with
  | addValidator vdr =>
    simp only [step, State.addValidator] at h ⊢
    split at h <;> simp_all
  | updateValidator vdr =>
    simp only [step, State.updateValidator] at h ⊢
    split at h
    · rfl
    -- the immutable-field error returns the state; the updates report no error
    · split_ifs at h ⊢
      simp_all
  | deleteValidator vID =>
    simp only [step, State.deleteValidator] at h ⊢
    split at h <;> simp_all
  | setStatus vID isActive =>
    simp only [step, State.setStatus] at h ⊢
    split at h <;> simp_all
  | setUptime nodeID upDuration lastUpdated =>
    simp only [step, State.setUptime] at h ⊢
    split at h <;> simp_all
  | writeState =>
    simp only [step] at h ⊢
    split at h <;> simp_all

theorem writeState_eq_ok {s' : State} (h : s.writeState = .ok s') :
    ∃ batch : List BatchOp, s' = { s with db := batch.foldl BatchOp.apply s.db, updatedData := ∅ } := by
  obtain ⟨batch, -, h⟩ := bind_eq_ok.mp h
  cases h
  exact ⟨batch, rfl⟩

theorem Consistent.withStore (inv : s.Consistent) (u : AList fun _ : ID => DbUpdateStatus)
    (db : Database) : Consistent { s with updatedData := u, db := db } :=
  ⟨inv.index_data, inv.data_index, inv.key⟩

theorem Consistent.step (inv : s.Consistent) (op : StateOp) : (s.step op).1.Consistent := by
  cases op with
  | addValidator vdr =>
    simp only [State.step, State.addValidator]
    split
    · exact inv
    · rename_i s' h
      exact (inv.addData (by rfl) h).withStore _ s'.db
  | updateValidator vdr =>
    simp only [State.step]
    cases hd : s.data vdr.validationID with
    | none => simp [State.updateValidator, hd, inv]
    | some d =>
      by_cases hc : constantsAreUnmodified d vdr = true
      · have hupd := inv.update hd { d with isActive := vdr.isActive, weight := vdr.weight }
          rfl rfl
        rw [updateValidator_of_some hd hc]
        split_ifs
        · exact hupd _ s.db
        · exact hupd s.updatedData s.db
      · simp [State.updateValidator, hd, hc, inv]
  | deleteValidator vID =>
    simp only [State.step, State.deleteValidator]
    split
    · exact inv
    · rename_i d hd
      rw [inv.key vID d hd]
      exact inv.delete hd _ _
  | setStatus vID isActive =>
    simp only [State.step, State.setStatus]
    split
    · exact inv
    · rename_i d hd
      exact inv.update hd { d with isActive := isActive } rfl rfl _ _
  | setUptime nodeID upDuration lastUpdated =>
    simp only [State.step, State.setUptime]
    split
    · exact inv
    · rename_i vID d h
      exact inv.update (getData_eq_ok h).2
        { d with upDuration := upDuration, lastUpdated := lastUpdated.toUInt64 } rfl rfl _ _
  | writeState =>
    simp only [State.step]
    split
    · rename_i s' h
      obtain ⟨batch, rfl⟩ := writeState_eq_ok h
      exact inv.withStore _ _
    · exact inv

end State

/-! ## The database agrees with the records outside the marks -/

/-- The database holds the record of `vID` under its key, and no value when
there is no record. -/
def Agrees (db : Database) (data : ID → Option ValidatorData) (vID : ID) : Prop :=
  (db.lookup (idBytes vID)).map (fun bytes => parseValidatorData bytes (emptyData vID)) =
    (data vID).map .ok

theorem mem_of_agrees {db : Database} {data : ID → Option ValidatorData} {vID : ID}
    {d : ValidatorData} (hag : Agrees db data vID) (hd : data vID = some d) : idBytes vID ∈ db := by
  unfold Agrees at hag
  rw [hd] at hag
  rw [← AList.lookup_isSome]
  cases h : db.lookup (idBytes vID) <;> simp_all

namespace State

/-- Every key of the database is a validation ID's 32 bytes, the database
agrees with every record that is not marked, and the marks say what the next
write does: an updated ID has a record to put, a deleted one has none. -/
structure Persisted (s : State) : Prop where
  keys : ∀ k ∈ s.db, k.length = 32
  clean : ∀ vID, vID ∉ s.updatedData → Agrees s.db s.data vID
  updated : ∀ vID, s.updatedData.lookup vID = some .updated → (s.data vID).isSome
  deleted : ∀ vID, s.updatedData.lookup vID = some .deleted → s.data vID = none

variable {s : State}

theorem Persisted.mark (inv : s.Persisted) (vID : ID) (st : DbUpdateStatus)
    (data : ID → Option ValidatorData) (index : NodeID → Option ID)
    (hframe : ∀ w, w ≠ vID → data w = s.data w)
    (hup : st = .updated → (data vID).isSome) (hdel : st = .deleted → data vID = none) :
    Persisted ⟨data, index, s.updatedData.insert vID st, s.db⟩ where
  keys := inv.keys
  clean w hw := by
    dsimp only at hw ⊢
    rw [AList.mem_insert, not_or] at hw
    unfold Agrees
    rw [hframe w hw.1]
    exact inv.clean w hw.2
  updated w hw := by
    dsimp only at hw ⊢
    by_cases hwv : w = vID
    · subst hwv
      rw [AList.lookup_insert] at hw
      exact hup (Option.some_injective _ hw)
    · rw [AList.lookup_insert_ne hwv] at hw
      rw [hframe w hwv]
      exact inv.updated w hw
  deleted w hw := by
    dsimp only at hw ⊢
    by_cases hwv : w = vID
    · subst hwv
      rw [AList.lookup_insert] at hw
      exact hdel (Option.some_injective _ hw)
    · rw [AList.lookup_insert_ne hwv] at hw
      rw [hframe w hwv]
      exact inv.deleted w hw

/-! ### The write -/

theorem flushOp_ok (inv : s.Persisted) {e : Sigma fun _ : ID => DbUpdateStatus}
    (he : e ∈ s.updatedData.entries) : ∃ op, s.flushOp e = .ok op := by
  obtain ⟨vID, st⟩ := e
  have hl : s.updatedData.lookup vID = some st := AList.mem_lookup_iff.mpr he
  cases st with
  | updated =>
    obtain ⟨d, hd⟩ := Option.isSome_iff_exists.mp (inv.updated vID hl)
    exact ⟨.put (idBytes vID) (marshalValidatorData d), by simp only [State.flushOp, hd]⟩
  | deleted => exact ⟨_, rfl⟩

theorem lookup_apply_flushOp_of_ne {e : Sigma fun _ : ID => DbUpdateStatus} {op : BatchOp}
    (h : s.flushOp e = .ok op) {k : List UInt8} (hk : k ≠ idBytes e.1) (db : Database) :
    (op.apply db).lookup k = db.lookup k := by
  obtain ⟨vID, st⟩ := e
  cases st with
  | updated =>
    simp only [State.flushOp] at h
    split at h
    · cases h
      exact AList.lookup_insert_ne hk
    · cases h
  | deleted =>
    cases h
    exact AList.lookup_erase_ne hk

theorem mem_apply_flushOp {e : Sigma fun _ : ID => DbUpdateStatus} {op : BatchOp}
    (h : s.flushOp e = .ok op) {k : List UInt8} {db : Database} (hk : k ∈ op.apply db) :
    k ∈ db ∨ k = idBytes e.1 := by
  obtain ⟨vID, st⟩ := e
  cases st with
  | updated =>
    simp only [State.flushOp] at h
    split at h
    · cases h
      exact (AList.mem_insert _).mp hk |>.symm
    · cases h
  | deleted =>
    cases h
    exact .inl (AList.mem_erase.mp hk).2

/-- What the batch leaves under the key of `vID`, given what was there and its
mark. -/
def flushedValue (s : State) (vID : ID) (old : Option (List UInt8)) :
    Option DbUpdateStatus → Option (List UInt8)
  | none => old
  | some .updated => (s.data vID).map marshalValidatorData
  | some .deleted => none

theorem lookup_foldl_flushOp {L : List (Sigma fun _ : ID => DbUpdateStatus)} {batch : List BatchOp}
    (hf : List.Forall₂ (fun e op => s.flushOp e = .ok op) L batch) (hnd : L.NodupKeys)
    (db : Database) (vID : ID) :
    (batch.foldl BatchOp.apply db).lookup (idBytes vID) =
      s.flushedValue vID (db.lookup (idBytes vID)) (L.dlookup vID) := by
  induction hf generalizing db with
  | nil => rfl
  | @cons e op L batch hop _ ih =>
    rw [List.foldl_cons, ih (List.nodupKeys_cons.mp hnd).2 (op.apply db)]
    by_cases hv : vID = e.1
    · -- the mark's own key: the rest of the list does not mention it
      obtain ⟨w, st⟩ := e
      dsimp only at hv
      subst hv
      rw [List.dlookup_eq_none.mpr (List.nodupKeys_cons.mp hnd).1, List.dlookup_cons_eq]
      cases st with
      | updated =>
        simp only [State.flushOp] at hop
        split at hop
        · rename_i d hd
          cases hop
          simp [flushedValue, BatchOp.apply, hd]
        · cases hop
      | deleted =>
        cases hop
        simp [flushedValue, BatchOp.apply]
    · rw [List.dlookup_cons_ne _ _ hv, lookup_apply_flushOp_of_ne hop (idBytes_injective.ne hv)]

theorem keys_foldl_flushOp {L : List (Sigma fun _ : ID => DbUpdateStatus)} {batch : List BatchOp}
    (hf : List.Forall₂ (fun e op => s.flushOp e = .ok op) L batch) {db : Database}
    (hkeys : ∀ k ∈ db, k.length = 32) : ∀ k ∈ batch.foldl BatchOp.apply db, k.length = 32 := by
  induction hf generalizing db with
  | nil => exact hkeys
  | cons hop _ ih =>
    intro k hk
    rw [List.foldl_cons] at hk
    refine ih (fun k hk => ?_) k hk
    rcases mem_apply_flushOp hop hk with hk | hk
    · exact hkeys k hk
    · rw [hk, idBytes, length_encode]

/-- `WriteState` succeeds on a persisted state with its records carrying their
keys; the records, the index and the database then agree everywhere. -/
theorem writeState_spec (hc : s.Consistent) (hp : s.Persisted) :
    ∃ s', s.writeState = .ok s' ∧ s'.data = s.data ∧ s'.index = s.index ∧
      s'.updatedData = ∅ ∧ (∀ k ∈ s'.db, k.length = 32) ∧ ∀ vID, Agrees s'.db s.data vID := by
  obtain ⟨batch, hbatch, hf⟩ := mapM_eq_ok_of_forall fun e he => flushOp_ok hp he
  refine ⟨{ s with db := batch.foldl BatchOp.apply s.db, updatedData := ∅ },
    by simp [State.writeState, hbatch], rfl, rfl, rfl, keys_foldl_flushOp hf hp.keys, fun vID => ?_⟩
  unfold Agrees
  dsimp only
  rw [lookup_foldl_flushOp hf s.updatedData.nodupKeys]
  change (s.flushedValue vID _ (s.updatedData.lookup vID)).map _ = _
  cases hl : s.updatedData.lookup vID with
  | none => exact hp.clean vID (AList.lookup_eq_none.mp hl)
  | some st =>
    cases st with
    | updated =>
      obtain ⟨d, hd⟩ := Option.isSome_iff_exists.mp (hp.updated vID hl)
      simp [flushedValue, hd, parseValidatorData_marshal (hc.key vID d hd)]
    | deleted => simp [flushedValue, hp.deleted vID hl]

theorem Persisted.of_agrees {t : State} (hmarks : t.updatedData = ∅)
    (hkeys : ∀ k ∈ t.db, k.length = 32) (hag : ∀ vID, Agrees t.db t.data vID) : t.Persisted where
  keys := hkeys
  clean vID _ := hag vID
  updated vID h := by simp [hmarks] at h
  deleted vID h := by simp [hmarks] at h

theorem Persisted.step (hc : s.Consistent) (hp : s.Persisted) (op : StateOp) :
    (s.step op).1.Persisted := by
  cases op with
  | addValidator vdr =>
    simp only [State.step, State.addValidator]
    split
    · exact hp
    · rename_i s' h
      obtain ⟨-, -, rfl⟩ := addData_eq_ok h
      exact hp.mark _ .updated _ _ (fun w hw => Function.update_of_ne hw _ _) (fun _ => by simp)
        (fun h => nomatch h)
  | updateValidator vdr =>
    simp only [State.step]
    cases hd : s.data vdr.validationID with
    | none => simp [State.updateValidator, hd, hp]
    | some d =>
      by_cases hc' : constantsAreUnmodified d vdr = true
      · rw [updateValidator_of_some hd hc']
        split_ifs with hchanged
        · exact hp.mark _ .updated _ _ (fun w hw => Function.update_of_ne hw _ _) (fun _ => by simp)
            (fun h => nomatch h)
        · -- nothing changed: the record is written back as it was
          have hsame : { d with isActive := vdr.isActive, weight := vdr.weight } = d := by
            obtain ⟨up, last, node, weight, start, active, l1, key⟩ := d
            simp_all
          rw [hsame, ← hd, Function.update_eq_self]
          exact hp
      · simp [State.updateValidator, hd, hc', hp]
  | deleteValidator vID =>
    simp only [State.step, State.deleteValidator]
    split
    · exact hp
    · rename_i d hd
      rw [hc.key vID d hd]
      exact hp.mark _ .deleted _ _ (fun w hw => Function.update_of_ne hw _ _) (fun h => nomatch h)
        (fun _ => Function.update_self _ _ _)
  | setStatus vID isActive =>
    simp only [State.step, State.setStatus]
    split
    · exact hp
    · exact hp.mark _ .updated _ _ (fun w hw => Function.update_of_ne hw _ _) (fun _ => by simp)
        (fun h => nomatch h)
  | setUptime nodeID upDuration lastUpdated =>
    simp only [State.step, State.setUptime]
    split
    · exact hp
    · rename_i vID d h
      have hkey : d.validationID = vID := hc.key vID d (getData_eq_ok h).2
      dsimp only
      rw [hkey]
      exact hp.mark _ .updated _ _ (fun w hw => Function.update_of_ne hw _ _) (fun _ => by simp)
        (fun h => nomatch h)
  | writeState =>
    simp only [State.step]
    obtain ⟨s', hw, hdata, -, hmarks, hkeys, hag⟩ := writeState_spec hc hp
    rw [hw]
    exact Persisted.of_agrees hmarks hkeys (hdata ▸ hag)

/-- The run invariant: from a state that is consistent and persisted, every
sequence of calls keeps both. -/
theorem run_inv (hc : s.Consistent) (hp : s.Persisted) (ops : List StateOp) :
    (s.run ops).Consistent ∧ (s.run ops).Persisted := by
  induction ops generalizing s with
  | nil => exact ⟨hc, hp⟩
  | cons op ops ih => exact ih (hc.step op) (hp.step hc op)

/-! ### Loading from the database -/

theorem fst_notMem_keys {κ : Type} {β : κ → Type} {L done rest : List (Sigma β)}
    {e : Sigma β} (hnd : L.NodupKeys) (hl : done ++ e :: rest = L) :
    e.1 ∉ done.keys := by
  rw [← hl] at hnd
  intro hm
  refine List.notMem_keys_of_nodupKeys_cons (List.nodupKeys_middle.mp hnd) ?_
  rw [List.keys_append]
  exact List.mem_append_left _ hm

theorem loadEntry_eq_ok {t t' : State} {e : Sigma fun _ : List UInt8 => List UInt8}
    (h : t.loadEntry e = .ok t') :
    ∃ vID d, idBytes vID = e.1 ∧ e.1.length = 32 ∧
      parseValidatorData e.2 (emptyData vID) = .ok d ∧ t.addData vID d = .ok t' := by
  obtain ⟨vID, hv, h⟩ := bind_eq_ok.mp h
  obtain ⟨d, hd, h⟩ := bind_eq_ok.mp h
  obtain ⟨hlen, hk⟩ := idBytes_of_toID hv
  exact ⟨vID, d, hk, hlen, mapError_eq_ok.mp hd, h⟩

theorem addData_of_none {vID : ID} {data : ValidatorData} (hv : s.data vID = none)
    (hn : s.index data.nodeID = none) :
    s.addData vID data = .ok { s with data := Function.update s.data vID (some data)
                                      index := Function.update s.index data.nodeID (some vID) } := by
  simp [State.addData, hv, hn]

/-- What `loadFromDisk` has built after walking a prefix of the entries: the
records of exactly those entries, consistent, and nothing marked. -/
structure Loaded (db : Database) (done : List (Sigma fun _ : List UInt8 => List UInt8))
    (t : State) : Prop where
  db : t.db = db
  marks : t.updatedData = ∅
  consistent : t.Consistent
  keys : ∀ e ∈ done, e.1.length = 32
  agrees : ∀ vID, (done.dlookup (idBytes vID)).map (fun bytes => parseValidatorData bytes (emptyData vID)) =
    (t.data vID).map .ok

theorem Loaded.init (db : Database) : Loaded db [] ⟨fun _ => none, fun _ => none, ∅, db⟩ where
  db := rfl
  marks := rfl
  consistent := Consistent.empty db
  keys _ h := nomatch h
  agrees _ := rfl

theorem Loaded.step {db : Database} {done rest : List (Sigma fun _ : List UInt8 => List UInt8)}
    {e : Sigma fun _ : List UInt8 => List UInt8} {t t' : State} (hl : done ++ e :: rest = db.entries)
    (inv : Loaded db done t) (h : t.loadEntry e = .ok t') : Loaded db (done ++ [e]) t' := by
  obtain ⟨vID, d, hk, hlen, hparse, hadd⟩ := loadEntry_eq_ok h
  have hnew := fst_notMem_keys db.nodupKeys hl
  obtain ⟨-, -, rfl⟩ := addData_eq_ok hadd
  refine ⟨inv.db, inv.marks, inv.consistent.addData (by rw [parseValidatorData_key hparse]; rfl) hadd,
    fun e' he' => ?_, fun w => ?_⟩
  · rcases List.mem_append.mp he' with he' | he'
    · exact inv.keys e' he'
    · rw [List.mem_singleton.mp he']
      exact hlen
  · dsimp only
    rw [List.dlookup_append]
    by_cases hwv : w = vID
    · -- the entry just loaded: not among those before it
      subst hwv
      rw [hk, List.dlookup_eq_none.mpr hnew, Option.none_or, Function.update_self]
      obtain ⟨k, b⟩ := e
      simp [hparse]
    · have hne : idBytes w ≠ e.1 := hk ▸ idBytes_injective.ne hwv
      rw [Function.update_of_ne hwv, ← inv.agrees w, List.dlookup_cons_ne _ _ hne, List.dlookup_nil,
        Option.or_none]

/-- A state loaded by `NewState` is consistent and persisted. -/
theorem newState_inv {db : Database} {s₀ : State} (h : newState db = .ok s₀) :
    s₀.Consistent ∧ s₀.Persisted := by
  have hload := mapError_eq_ok.mp h
  have inv : Loaded db db.entries s₀ :=
    foldlM_eq_ok_inv db.entries (Loaded db) (fun _ _ _ _ _ hl inv h => inv.step hl h) (Loaded.init db) hload
  refine ⟨inv.consistent, .of_agrees inv.marks (fun k hk => ?_) (fun vID => ?_)⟩
  · obtain ⟨b, hb⟩ := List.mem_keys.mp (AList.mem_keys.mp (inv.db ▸ hk))
    exact inv.keys _ hb
  · rw [inv.db]
    exact inv.agrees vID

structure Reloaded (s : State) (db : Database) (done : List (Sigma fun _ : List UInt8 => List UInt8))
    (t : State) : Prop where
  db : t.db = db
  data : ∀ vID d, t.data vID = some d ↔ s.data vID = some d ∧ idBytes vID ∈ done.keys
  index : ∀ nodeID vID, t.index nodeID = some vID ↔ s.index nodeID = some vID ∧ idBytes vID ∈ done.keys

theorem Reloaded.init (db : Database) : Reloaded s db [] ⟨fun _ => none, fun _ => none, ∅, db⟩ where
  db := rfl
  data _ _ := by simp
  index _ _ := by simp

section Reload

variable {db : Database} (hc : s.Consistent) (hkeys : ∀ k ∈ db, k.length = 32)
  (hag : ∀ vID, Agrees db s.data vID)
include hc hkeys hag

theorem Reloaded.step {done rest : List (Sigma fun _ : List UInt8 => List UInt8)}
    {e : Sigma fun _ : List UInt8 => List UInt8} {t : State} (hl : done ++ e :: rest = db.entries)
    (inv : Reloaded s db done t) : ∃ t', t.loadEntry e = .ok t' ∧ Reloaded s db (done ++ [e]) t' := by
  have hnew := fst_notMem_keys db.nodupKeys hl
  have he : e ∈ db.entries := hl ▸ List.mem_append_right _ List.mem_cons_self
  have hlen : e.1.length = 32 := hkeys _ (AList.mem_keys.mpr (List.mem_keys_of_mem he))
  obtain ⟨vID, hv⟩ : ∃ vID, toID e.1 = .ok vID := ⟨_, if_pos hlen⟩
  have hk := (idBytes_of_toID hv).2
  obtain ⟨d, hd, hparse⟩ : ∃ d, s.data vID = some d ∧ parseValidatorData e.2 (emptyData vID) = .ok d := by
    have hagv := hag vID
    obtain ⟨k, b⟩ := e
    dsimp only at hk
    rw [Agrees, hk, AList.mem_lookup_iff.mpr he] at hagv
    cases hsd : s.data vID <;> simp_all
  have htv : t.data vID = none :=
    Option.eq_none_iff_forall_ne_some.mpr fun x hx => hnew (hk ▸ ((inv.data vID x).mp hx).2)
  have htn : t.index d.nodeID = none := Option.eq_none_iff_forall_ne_some.mpr fun w hw => by
    obtain ⟨hsw, hmem⟩ := (inv.index d.nodeID w).mp hw
    rw [hc.index_data vID d hd] at hsw
    cases hsw
    exact hnew (hk ▸ hmem)
  refine ⟨{ t with data := Function.update t.data vID (some d)
                   index := Function.update t.index d.nodeID (some vID) },
    by rw [State.loadEntry, hv, ok_bind, hparse, mapError_ok, ok_bind, addData_of_none htv htn],
    inv.db, fun w x => ?_, fun n w => ?_⟩
  · dsimp only
    rw [List.keys_append, List.mem_append, List.keys_cons, List.keys_nil, List.mem_singleton]
    by_cases hwv : w = vID
    · subst hwv
      simp [hd, hk]
    · have hne : idBytes w ≠ e.1 := hk ▸ idBytes_injective.ne hwv
      simp [Function.update_of_ne hwv, inv.data w x, hne]
  · dsimp only
    rw [List.keys_append, List.mem_append, List.keys_cons, List.keys_nil, List.mem_singleton]
    by_cases hnd : n = d.nodeID
    · subst hnd
      rw [Function.update_self, hc.index_data vID d hd]
      refine ⟨fun h => ⟨h, .inr ?_⟩, And.left⟩
      cases h
      exact hk
    · rw [Function.update_of_ne hnd, inv.index n w]
      have hother : s.index n = some w → idBytes w ≠ e.1 := fun hsw hwe => by
        obtain ⟨d', hd', hn'⟩ := hc.data_index n w hsw
        rw [← hk] at hwe
        rw [idBytes_injective hwe, hd] at hd'
        cases hd'
        exact hnd hn'.symm
      constructor
      · exact fun ⟨hsw, hm⟩ => ⟨hsw, .inl hm⟩
      · rintro ⟨hsw, hm | hm⟩
        · exact ⟨hsw, hm⟩
        · exact absurd hm (hother hsw)

theorem newState_of_agrees : ∃ s', newState db = .ok s' ∧ s'.data = s.data ∧ s'.index = s.index := by
  obtain ⟨t, ht, inv⟩ := foldlM_eq_ok_of_inv db.entries (Reloaded s db)
    (fun _ _ _ _ hl inv => inv.step hc hkeys hag hl) (Reloaded.init db)
  refine ⟨t, by rw [newState, State.loadFromDisk]; exact congrArg (Except.mapError _) ht, ?_, ?_⟩
  · funext vID
    refine Option.ext fun d => (inv.data vID d).trans ⟨And.left, fun hd => ⟨hd, ?_⟩⟩
    exact AList.mem_keys.mp (mem_of_agrees (hag vID) hd)
  · funext nodeID
    refine Option.ext fun vID => (inv.index nodeID vID).trans ⟨And.left, fun hn => ⟨hn, ?_⟩⟩
    obtain ⟨d, hd, -⟩ := hc.data_index nodeID vID hn
    exact AList.mem_keys.mp (mem_of_agrees (hag vID) hd)

end Reload

end State

/-! ## Consistency and persistence over every run -/

theorem validator_state_consistent (db : Database) (s₀ : State) (h₀ : newState db = .ok s₀)
    (ops : List StateOp) :
    (∀ vID d, (s₀.run ops).data vID = some d →
        (s₀.run ops).index d.nodeID = some vID ∧ d.validationID = vID) ∧
      (∀ nodeID vID, (s₀.run ops).index nodeID = some vID →
        ∃ d, (s₀.run ops).data vID = some d ∧ d.nodeID = nodeID) ∧
      (∀ op err, ((s₀.run ops).step op).2 = some err → ((s₀.run ops).step op).1 = s₀.run ops) ∧
      ((s₀.run ops).step .writeState).2 = none ∧
      ∃ s', newState ((s₀.run ops).step .writeState).1.db = .ok s' ∧
        s'.data = (s₀.run ops).data ∧ s'.index = (s₀.run ops).index := by
  obtain ⟨h₀c, h₀p⟩ := State.newState_inv h₀
  obtain ⟨hc, hp⟩ := State.run_inv h₀c h₀p ops
  obtain ⟨s', hw, -, -, -, hkeys, hag⟩ := State.writeState_spec hc hp
  have hstep : (s₀.run ops).step .writeState = (s', none) := by simp only [State.step, hw]
  obtain ⟨s'', hnew, hdata, hindex⟩ := State.newState_of_agrees hc hkeys hag
  refine ⟨fun vID d hd => ⟨hc.index_data vID d hd, hc.key vID d hd⟩, hc.data_index,
    fun _ _ h => State.step_of_error h, by rw [hstep], s'', ?_, hdata, hindex⟩
  rw [hstep]
  exact hnew

/-- The state `NewState` loads from an empty database. -/
def emptyState : State := ⟨fun _ => none, fun _ => none, ∅, ∅⟩

def sampleValidator : Validator := ⟨1, 2, 100, 5, true, false⟩

theorem validator_state_consistent_sample :
    newState ∅ = .ok emptyState ∧
      ((emptyState.run [.addValidator sampleValidator]).step .writeState).2 = none :=
  ⟨rfl, (validator_state_consistent ∅ emptyState rfl [.addValidator sampleValidator]).2.2.2.1⟩

end LuxEvm.ValidatorState
