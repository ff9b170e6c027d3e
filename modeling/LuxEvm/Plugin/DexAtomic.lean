import LuxEvm.FeeWindow
import LuxEvm.Lib.VersionDB
import Mathlib.Data.Multiset.Range

/-!
# DEX atomic operations reach shared memory once

`Block.Accept` flushes the DEX precompile's staged atomic operations of the
block's window to shared memory. The window starts at the parent state's
staged sequence number, or at the node-local marker when the parent state is
gone, and never below the marker; it ends at the accepted state's. The
advanced marker and `lastAcceptedKey` are written to the versiondb's
uncommitted layer, and `sm.Apply` writes the window's requests and that
layer in one batch; with no requests the layer is committed alone.

The DEX staging is an input: each block of the accepted chain has a staged
sequence number, non-decreasing along the chain, and a window's requests are
those of the operations staged in it, each named by its sequence number.
An accept is a list of effects on the database and shared memory, and a
crash stops it after any of them and drops the uncommitted layer.
-/

set_option autoImplicit false

namespace LuxEvm.Plugin

open LuxEvm.FeeWindow

inductive Key where
  /-- `lastAcceptedKey` -/
  | lastAccepted
  /-- `dexAtomicSeqKey` -/
  | dexAtomicSeq
  deriving DecidableEq, Repr

/-- The accepted chain, block `k` at height `k`: its ID and the staged
sequence number of its state. -/
structure StagedChain where
  blockId : ℕ → List UInt8
  stagedSeq : ℕ → UInt64
  blockId_injective : Function.Injective blockId
  stagedSeq_zero : stagedSeq 0 = 0
  stagedSeq_mono : ∀ k, (stagedSeq k).toNat ≤ (stagedSeq (k+1)).toNat

/-- `dex.CollectStagedAtomicRange`: the operations staged with sequence
numbers in `[fromSeq, toSeq)`. -/
def collectStagedAtomicRange (fromSeq toSeq : UInt64) : List ℕ :=
  List.range' fromSeq.toNat (toSeq.toNat-fromSeq.toNat)

structure Node where
  db : Lib.VersionDB Key (List UInt8)
  /-- the operations applied to shared memory, with multiplicity -/
  sharedMemory : Multiset ℕ

def genesisNode : Node := ⟨Lib.VersionDB.empty, 0⟩

structure Attempt where
  /-- the VM has a runtime with shared memory -/
  sharedMemoryWired : Bool
  /-- `handlePrecompileAccept` and `blockChain.Accept` succeed -/
  chainAccepted : Bool
  parentStateAvailable : Bool
  acceptedStateAvailable : Bool
  /-- `versiondb.CommitBatch` and `sm.Apply` succeed -/
  applySucceeds : Bool
  deriving DecidableEq, Repr

inductive AcceptError where
  | chainCouldNotAccept
  /-- "dex atomic flush: accepted state unavailable: %w" -/
  | acceptedStateUnavailable
  /-- `dex.ErrAtomicSeqRegression` -/
  | atomicSeqRegression
  /-- "dex atomic shared-memory apply for %s: %w" -/
  | sharedMemoryApplyFailed
  deriving DecidableEq, Repr

inductive Effect where
  | put (key : Key) (value : List UInt8)
  | commit
  /-- `sm.Apply(reqs, versiondb.CommitBatch())` -/
  | apply (reqs : List ℕ)
  | abort
  deriving DecidableEq, Repr

def Effect.run (node : Node) : Effect → Node
  | .put k v => { node with db := node.db.put k v }
  | .commit => { node with db := node.db.commit }
  | .apply reqs => ⟨node.db.writeBatch, node.sharedMemory+reqs⟩
  | .abort => { node with db := node.db.abort }

def runEffects (node : Node) (effects : List Effect) : Node := effects.foldl Effect.run node

/-- `readDexAtomicMarker`: zero unless eight bytes are stored. -/
def readDexAtomicMarker (db : Lib.VersionDB Key (List UInt8)) : UInt64 :=
  match db.get .dexAtomicSeq with
  | some b => if b.length = 8 then uint64 b else 0
  | none => 0

/-- The lower bound of the window of the block at `height`. -/
def windowStart (chain : StagedChain) (db : Lib.VersionDB Key (List UInt8)) (attempt : Attempt)
    (height : ℕ) : UInt64 :=
  let fromSeq :=
    if attempt.parentStateAvailable then chain.stagedSeq (height-1) else readDexAtomicMarker db
  let m := readDexAtomicMarker db
  if m > fromSeq then m else fromSeq

/-- `stageDexAtomic` for the block at `height`: the marker write it stages,
and the requests. -/
def stageDexAtomic (chain : StagedChain) (db : Lib.VersionDB Key (List UInt8)) (attempt : Attempt)
    (height : ℕ) : Except AcceptError (List Effect × List ℕ) :=
  if !attempt.sharedMemoryWired then .ok ([], [])
  else if !attempt.acceptedStateAvailable then .error .acceptedStateUnavailable
  else
    let fromSeq := windowStart chain db attempt height
    let toSeq := chain.stagedSeq height
    if toSeq < fromSeq then .error .atomicSeqRegression
    else if toSeq = fromSeq then .ok ([], [])
    else .ok ([.put .dexAtomicSeq (putUint64 toSeq)], collectStagedAtomicRange fromSeq toSeq)

/-- `Block.Accept` for the block at `height`: its effects in order, the
deferred abort last, and its result. `stageDexAtomic` returns shared memory
exactly when it returns requests. -/
def accept (chain : StagedChain) (node : Node) (attempt : Attempt) (height : ℕ) :
    List Effect × Except AcceptError Unit :=
  if !attempt.chainAccepted then ([.abort], .error .chainCouldNotAccept)
  else
    match stageDexAtomic chain node.db attempt height with
    | .error e => ([.abort], .error e)
    | .ok (staged, reqs) =>
      let effects := staged ++ [.put .lastAccepted (chain.blockId height)]
      if reqs ≠ [] then
        if attempt.applySucceeds then (effects ++ [.apply reqs, .abort, .abort], .ok ())
        else (effects ++ [.abort], .error .sharedMemoryApplyFailed)
      else (effects ++ [.commit, .abort], .ok ())

def crash (node : Node) : Node := { node with db := node.db.abort }

inductive Event where
  | acceptBlock (height : ℕ) (attempt : Attempt)
  /-- the node stops after the first `point` effects of the accept -/
  | crashDuring (height : ℕ) (attempt : Attempt) (point : ℕ)
  deriving DecidableEq, Repr

def Event.height : Event → ℕ
  | .acceptBlock h _ => h
  | .crashDuring h _ _ => h

def Event.attempt : Event → Attempt
  | .acceptBlock _ a => a
  | .crashDuring _ a _ => a

def Event.run (chain : StagedChain) (node : Node) : Event → Node
  | .acceptBlock h a => runEffects node (accept chain node a h).1
  | .crashDuring h a k => crash (runEffects node ((accept chain node a h).1.take k))

def runEvents (chain : StagedChain) (node : Node) (events : List Event) : Node :=
  events.foldl (Event.run chain) node

/-- The last accepted block's ID as a restarted VM reads it: genesis when
nothing is stored. -/
def lastAcceptedID (chain : StagedChain) (db : Lib.VersionDB Key (List UInt8)) : List UInt8 :=
  (db.committed .lastAccepted).getD (chain.blockId 0)

def resumes (chain : StagedChain) : Node → List Event → Bool
  | _, [] => true
  | node, e :: es =>
    decide (lastAcceptedID chain node.db = chain.blockId (e.height-1)) && decide (1 ≤ e.height) &&
      resumes chain (e.run chain node) es

end LuxEvm.Plugin
