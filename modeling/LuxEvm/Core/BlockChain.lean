import LuxEvm.Common

/-!
# The chain's head, canonical index and last accepted block

`BlockChain` stores inserted blocks by hash and number and keeps the head
(`currentBlock`), the last accepted block and the canonical index from
heights to hashes. `InsertBlock` makes a child of the head the new head;
`SetPreference` moves the head, through `reorg` when the new head is not a
child of the old one; `Accept` moves the last accepted block, setting the
preference first when the block is not canonical; `Reject` deletes a block.

What the consensus engine, block processing and the state manager decide is
an input of each call. Block numbers are natural numbers.
-/

set_option autoImplicit false

namespace LuxEvm.Core

/-- A block, as far as the chain's bookkeeping reads it. -/
structure Block where
  hash : Hash
  parentHash : Hash
  number : ℕ
  deriving DecidableEq, Repr

/-- The canonical-hash index of the database. The database is finite: from
`top` on no height holds an entry. -/
structure CanonicalIndex where
  hashAt : ℕ → Option Hash
  top : ℕ
  hashAt_top : ∀ n, top ≤ n → hashAt n = none

namespace CanonicalIndex

def empty : CanonicalIndex := ⟨fun _ => none, 0, fun _ _ => rfl⟩

/-- `rawdb.ReadCanonicalHash`: the empty hash where nothing is stored. -/
def read (c : CanonicalIndex) (n : ℕ) : Hash := (c.hashAt n).getD 0

/-- `rawdb.WriteCanonicalHash`. -/
def write (c : CanonicalIndex) (hash : Hash) (n : ℕ) : CanonicalIndex where
  hashAt m := if m = n then some hash else c.hashAt m
  top := max c.top (n+1)
  hashAt_top m hm := by
    have hmn : m ≠ n := by omega
    simp [hmn, c.hashAt_top m (by omega)]

/-- `rawdb.DeleteCanonicalHash`. -/
def delete (c : CanonicalIndex) (n : ℕ) : CanonicalIndex where
  hashAt m := if m = n then none else c.hashAt m
  top := c.top
  hashAt_top m hm := by
    by_cases hmn : m = n <;> simp [hmn, c.hashAt_top m hm]

/-- The deletion loop of `reorg` from height `i`: it stops at the first
height that reads as the empty hash, at the latest `fuel` heights on. -/
def deleteRun : ℕ → CanonicalIndex → ℕ → CanonicalIndex
  | 0, c, _ => c
  | fuel+1, c, i => if c.read i = 0 then c else deleteRun fuel (c.delete i) (i+1)

/-- The loop runs out of fuel only at `top`, where every height is empty. -/
def deleteFrom (c : CanonicalIndex) (i : ℕ) : CanonicalIndex := deleteRun (c.top-i) c i

end CanonicalIndex

structure ChainState where
  blocks : List Block
  canonical : CanonicalIndex
  currentBlock : Block
  lastAccepted : Block
  /-- The blocks accepted so far, oldest first; the code keeps no such list. -/
  accepted : List Block

def genesisState (genesis : Block) : ChainState where
  blocks := [genesis]
  canonical := CanonicalIndex.empty.write genesis.hash genesis.number
  currentBlock := genesis
  lastAccepted := genesis
  accepted := [genesis]

inductive ChainError where
  | currentHeadMissing
  | invalidOldChain
  | invalidNewChain
  /-- "cannot orphan finalized block at height: %d to common block at height: %d" -/
  | orphanFinalized (lastAcceptedHeight commonHeight : ℕ)
  /-- "unable to invoke writeKnownBlock: %w" -/
  | writeKnownBlockFailed (e : ChainError)
  /-- "expected accepted block to have parent %s:%d but got %s:%d" -/
  | unexpectedParent (expected : Hash) (expectedNumber : ℕ) (got : Hash) (gotNumber : ℕ)
  /-- "could not set new preferred block %d:%s as preferred: %w" -/
  | setPreferenceFailed (number : ℕ) (hash : Hash) (e : ChainError)
  /-- "accept: failed to materialize state for accepted block %s:%d: %w" -/
  | materializeFailed (hash : Hash) (number : ℕ)
  /-- "accept: re-executed root %s != accepted header root %s for block %s:%d …" -/
  | rootMismatch (hash : Hash) (number : ℕ)
  | unknownAncestor
  /-- `insertBlock` reads the root of a parent header it did not find -/
  | nilParentHeader
  | invalidBlock
  | stateCommitFailed
  | rejectTrieFailed
  deriving DecidableEq, Repr

/-- `GetBlock(hash, number)`. -/
def getBlock (blocks : List Block) (hash : Hash) (number : ℕ) : Option Block :=
  blocks.find? fun b => b.hash = hash ∧ b.number = number

/-- `GetBlock(b.ParentHash(), b.NumberU64()-1)`. Below height zero the Go
subtraction wraps to a height that holds no block. -/
def parentBlock (blocks : List Block) (b : Block) : Option Block :=
  if b.number = 0 then none else getBlock blocks b.parentHash (b.number-1)

def writeHeadBlock (st : ChainState) (b : Block) : ChainState :=
  { st with canonical := st.canonical.write b.hash b.number, currentBlock := b }

/-- One side of `reorg` walks down `k` heights: the blocks it passes, and the
block it reaches (`none` when a parent is missing). -/
def walkDown (blocks : List Block) : ℕ → Block → List Block × Option Block
  | 0, b => ([], some b)
  | k+1, b =>
    match parentBlock blocks b with
    | none => ([b], none)
    | some p =>
      let rest := walkDown blocks k p
      (b :: rest.1, rest.2)

/-- The first loops of `reorg`: the higher side walks down to the other's
height. The new side's blocks passed, and the two blocks reached. -/
def reduceToSameHeight (blocks : List Block) (oldBlock newHead : Block) :
    List Block × Option Block × Option Block :=
  if newHead.number < oldBlock.number then
    ([], (walkDown blocks (oldBlock.number-newHead.number) oldBlock).2, some newHead)
  else
    let walked := walkDown blocks (newHead.number-oldBlock.number) newHead
    (walked.1, some oldBlock, walked.2)

/-- The loop of `reorg` that steps both sides back from height `n` until
they meet: the common block, and the new side's blocks passed. -/
def findCommon (blocks : List Block) :
    ℕ → Block → Block → List Block → Except ChainError (Block × List Block)
  | n, oldBlock, newBlock, newChain =>
    if oldBlock.hash = newBlock.hash then .ok (oldBlock, newChain)
    else
      match n with
      | 0 => .error .invalidOldChain
      | n+1 =>
        match getBlock blocks oldBlock.parentHash n with
        | none => .error .invalidOldChain
        | some oldParent =>
          match getBlock blocks newBlock.parentHash n with
          | none => .error .invalidNewChain
          | some newParent => findCommon blocks n oldParent newParent (newChain ++ [newBlock])

/-- The writes of `reorg`: every new block but the new head, lowest first,
then the deletion of the entries above the new head. -/
def rewriteCanonical (st : ChainState) (newHead : Block) (newChain : List Block) : ChainState :=
  let st := (newChain.drop 1).reverse.foldl writeHeadBlock st
  { st with canonical := st.canonical.deleteFrom (newHead.number+1) }

def reorg (st : ChainState) (newHead : Block) : Except ChainError ChainState :=
  match getBlock st.blocks st.currentBlock.hash st.currentBlock.number with
  | none => .error .currentHeadMissing
  | some oldBlock =>
    match reduceToSameHeight st.blocks oldBlock newHead with
    | (_, none, _) => .error .invalidOldChain
    | (_, some _, none) => .error .invalidNewChain
    | (newChain, some oldBlock, some newBlock) =>
      match findCommon st.blocks oldBlock.number oldBlock newBlock newChain with
      | .error e => .error e
      | .ok (commonBlock, newChain) =>
        if commonBlock.number < st.lastAccepted.number then
          .error (.orphanFinalized st.lastAccepted.number commonBlock.number)
        else .ok (rewriteCanonical st newHead newChain)

def writeKnownBlock (st : ChainState) (block : Block) : Except ChainError ChainState :=
  if block.parentHash ≠ st.currentBlock.hash then
    (reorg st block).map (writeHeadBlock · block)
  else .ok (writeHeadBlock st block)

def setPreference (st : ChainState) (block : Block) : Except ChainError ChainState :=
  if st.currentBlock.hash = block.hash then .ok st
  else (writeKnownBlock st block).mapError .writeKnownBlockFailed

/-- What `Accept`'s backstop finds: the block's state is present, or it is
re-executed on the parent with the header's root, with another root, or
with an error. -/
inductive Backstop where
  | statePresent
  | reExecuted
  | reExecFailed
  | rootMismatch
  deriving DecidableEq, Repr

def accept (st : ChainState) (block : Block) (backstop : Backstop) :
    ChainState × Except ChainError Unit :=
  if st.lastAccepted.hash ≠ block.parentHash then
    (st, .error (.unexpectedParent st.lastAccepted.hash st.lastAccepted.number
      block.parentHash (block.number-1)))
  else
    let preferred :=
      if st.canonical.read block.number ≠ block.hash then
        (setPreference st block).mapError (.setPreferenceFailed block.number block.hash)
      else .ok st
    match preferred with
    | .error e => (st, .error e)
    | .ok st =>
      match backstop with
      | .reExecFailed => (st, .error (.materializeFailed block.hash block.number))
      | .rootMismatch => (st, .error (.rootMismatch block.hash block.number))
      | _ => ({ st with lastAccepted := block, accepted := st.accepted ++ [block] }, .ok ())

inductive InsertOutcome where
  /-- the engine, the body check, processing or state validation fails -/
  | invalid
  /-- the block is written, then committing its state fails -/
  | stateCommitFailed
  | valid
  deriving DecidableEq, Repr

def insertBlock (st : ChainState) (block : Block) (outcome : InsertOutcome) :
    ChainState × Except ChainError Unit :=
  match parentBlock st.blocks block with
  | none =>
    -- `VerifyHeader` passes a stored block without looking for its parent
    (st, .error (if (getBlock st.blocks block.hash block.number).isSome then .nilParentHeader
      else .unknownAncestor))
  | some _ =>
    match outcome with
    | .invalid => (st, .error .invalidBlock)
    | .stateCommitFailed => ({ st with blocks := block :: st.blocks }, .error .stateCommitFailed)
    | .valid =>
      let st := { st with blocks := block :: st.blocks }
      (if block.parentHash = st.currentBlock.hash then writeHeadBlock st block else st, .ok ())

def reject (st : ChainState) (block : Block) (trieRejected : Bool) :
    ChainState × Except ChainError Unit :=
  if !trieRejected then (st, .error .rejectTrieFailed)
  else
    ({ st with blocks := st.blocks.filter fun b => !(b.hash = block.hash ∧ b.number = block.number) },
      .ok ())

inductive Call where
  | insertBlock (block : Block) (outcome : InsertOutcome)
  | setPreference (block : Block)
  | accept (block : Block) (backstop : Backstop)
  | reject (block : Block) (trieRejected : Bool)
  deriving DecidableEq, Repr

def Call.block : Call → Block
  | .insertBlock b _ => b
  | .setPreference b => b
  | .accept b _ => b
  | .reject b _ => b

def step (st : ChainState) : Call → ChainState
  | .insertBlock b outcome => (insertBlock st b outcome).1
  | .setPreference b =>
    match setPreference st b with
    | .ok st' => st'
    | .error _ => st
  | .accept b backstop => (accept st b backstop).1
  | .reject b trieRejected => (reject st b trieRejected).1

def run (st : ChainState) (calls : List Call) : ChainState := calls.foldl step st

end LuxEvm.Core
