import LuxEvm.Lib.ByteString

/-!
# Trie segments

A large trie is synced in segments of its key space, cut on the first two
bytes of the key. `createSegments` splits the part of the key space the
trie's only segment has not yet passed into ranges and persists the start of
each new segment; `loadSegments` rebuilds the segments of a restarted sync from
the persisted starts, each ending just below the next. `segmentFinished`
hashes the leaves of finished segments into the stack trie in segment order,
as far as every earlier segment has finished, and compares the root once all
are hashed.

The synced leaves are the database's, in key order, and iterating from a key
seeks to it. The hash of the stack trie is a parameter.
-/

set_option autoImplicit false

namespace LuxEvm.StateSync

open Lib.ByteString (value)

/-- `addPadding`: the 16-bit position, most significant byte first, then
thirty padding bytes. -/
def addPadding (pos : UInt16) (padding : UInt8) : List UInt8 :=
  [(pos >>> 8).toUInt8, pos.toUInt8] ++ List.replicate 30 padding

/-- `binary.BigEndian.Uint16` of a key's first two bytes. -/
def uint16 (b : List UInt8) : UInt16 := UInt16.ofNat (value (b.take 2))

/-- `common.BytesToHash`: the last 32 bytes, right-aligned over zeros. -/
def bytesToHash (b : List UInt8) : List UInt8 :=
  List.replicate (32-b.length) 0 ++ b.drop (b.length-32)

structure TrieSegment where
  start : List UInt8
  pos : List UInt8
  /-- `end`; the empty string is nil, no bound -/
  endKey : List UInt8
  deriving DecidableEq, Repr

/-- `start` of range `i` in `createSegments`, padded with zeros. -/
def segmentStart (numSegments i : ℕ) : List UInt8 :=
  addPadding (UInt16.ofNat (i*(0x10000/numSegments))) 0x00

/-- `end` of range `i` in `createSegments`, padded with `0xff`. -/
def segmentEnd (numSegments i : ℕ) : List UInt8 :=
  let segmentStep := 0x10000/numSegments
  addPadding (UInt16.ofNat (i*segmentStep+(segmentStep-1))) 0xff

/-- What `createSegments` leaves: the first segment, the segments added after
it, and the starts written with `WriteSyncSegment`. -/
structure Segmentation where
  first : TrieSegment
  added : List TrieSegment
  persisted : List (List UInt8)

def Segmentation.segments (s : Segmentation) : List TrieSegment := s.first :: s.added

/-- Round `i` of the loop of `createSegments`. -/
def createRound (numSegments : ℕ) (s : Segmentation) (i : ℕ) : Segmentation :=
  let startBytes := segmentStart numSegments i
  let endBytes := segmentEnd numSegments i
  -- the first segment has already passed this range
  if Lib.ByteString.compare s.first.pos endBytes ≠ .lt then s
  else if s.first.endKey = [] then { s with first := { s.first with endKey := endBytes } }
  else
    { s with
      added := s.added ++ [⟨startBytes, [], endBytes⟩]
      persisted := s.persisted ++ [bytesToHash startBytes] }

/-- `createSegments` on the trie's only segment. -/
def createSegments (segment : TrieSegment) (numSegments : ℕ) : Segmentation :=
  (List.range numSegments).foldl (createRound numSegments) ⟨segment, [], []⟩

/-- The segments `loadSegments` adds for the persisted starts in key order:
each ends just below the next start, the last has no end. -/
def loadRanges : List UInt8 → List (List UInt8) → List TrieSegment
  | prev, [] => [⟨prev, [], []⟩]
  | prev, segmentStart :: rest =>
    ⟨prev, [], addPadding (uint16 segmentStart-1) 0xff⟩ :: loadRanges segmentStart rest

/-- The leaves of a segment as `IterateLeafs` from its start yields them, up to
its end. -/
def segmentLeafs (leafs : List (List UInt8 × List UInt8)) (segment : TrieSegment) :
    List (List UInt8 × List UInt8) :=
  (leafs.dropWhile fun kv => Lib.ByteString.compare kv.1 (bytesToHash segment.start) = .lt).takeWhile
    fun kv => segment.endKey = [] ∨ Lib.ByteString.compare kv.1 segment.endKey ≠ .gt

/-- A loaded segment resumes one past its last stored leaf. -/
def restorePos (leafs : List (List UInt8 × List UInt8)) (segment : TrieSegment) : TrieSegment :=
  match (segmentLeafs leafs segment).getLast? with
  | none => segment
  | some kv => { segment with pos := Lib.ByteString.incrOne kv.1 }

/-- `loadSegments`, from the persisted starts in key order. -/
def loadSegments (leafs : List (List UInt8 × List UInt8)) (persisted : List (List UInt8)) :
    List TrieSegment :=
  (loadRanges [] persisted).map (restorePos leafs)

structure HashState where
  segmentsDone : List ℕ
  segmentToHashNext : ℕ
  /-- the leaves given to `stackTrie.Update`, in order -/
  updates : List (List UInt8 × List UInt8)

/-- The loop of `segmentFinished`, one round per segment at most. -/
def hashFinished (segments : List TrieSegment) (leafs : List (List UInt8 × List UInt8)) :
    ℕ → HashState → HashState
  | 0, st => st
  | fuel+1, st =>
    if st.segmentToHashNext ∈ st.segmentsDone then
      match segments[st.segmentToHashNext]? with
      -- only indices of segments finish
      | none => st
      | some segment =>
        hashFinished segments leafs fuel
          { st with
            updates := st.updates ++ segmentLeafs leafs segment
            segmentToHashNext := st.segmentToHashNext+1 }
    else st

inductive FinishResult where
  /-- an earlier segment is still syncing -/
  | pending
  /-- "unexpected root, expected=%s, actual=%s, account=%s" -/
  | unexpectedRoot
  /-- `ClearSyncSegments` and `OnFinish` -/
  | finished
  deriving DecidableEq, Repr

section Finish

variable {η : Type} [DecidableEq η] (stackTrieHash : List (List UInt8 × List UInt8) → η)
  (root : η)

def segmentFinished (segments : List TrieSegment) (leafs : List (List UInt8 × List UInt8))
    (st : HashState) (idx : ℕ) : HashState × FinishResult :=
  let st := hashFinished segments leafs segments.length
    { st with segmentsDone := idx :: st.segmentsDone }
  if st.segmentToHashNext < segments.length then (st, .pending)
  else if stackTrieHash st.updates ≠ root then (st, .unexpectedRoot)
  else (st, .finished)

def finishAll (segments : List TrieSegment) (leafs : List (List UInt8 × List UInt8)) :
    HashState → List ℕ → HashState × List FinishResult
  | st, [] => (st, [])
  | st, idx :: rest =>
    let r := segmentFinished stackTrieHash root segments leafs st idx
    let out := finishAll segments leafs r.1 rest
    (out.1, r.2 :: out.2)

end Finish

end LuxEvm.StateSync
