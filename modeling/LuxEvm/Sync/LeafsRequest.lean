import LuxEvm.Sync.TrieSegments

/-!
# The leafs request handler

`OnLeafsRequest` answers a range of trie leaves with a range proof. With a
snapshot, `fillFromSnapshot` first reads the range from the snapshot and
checks it against the trie with a range proof: as a whole, then in segments of
64 leaves, filling the gaps between valid segments from the trie. What is
still missing is read from the trie after the last key of the response.

The trie's and the snapshot's leaves are lists in key order, and iterating
from a key seeks to it. `trie.VerifyRangeProof` is a parameter: it accepts
exactly the runs of the trie's leaves from the given start and reports
whether more leaves follow. The request's context does not expire.
-/

set_option autoImplicit false

namespace LuxEvm.Handlers

open Lib.ByteString (incrOne)

abbrev Leaf := List UInt8 × List UInt8

def maxLeavesLimit : ℕ := 1024
def segmentLen : ℕ := 64
def keyLength : ℕ := 32

structure LeafsRequest where
  start : List UInt8
  /-- `End` -/
  endKey : List UInt8
  limit : ℕ
  deriving DecidableEq, Repr

structure LeafsResponse where
  keys : List (List UInt8)
  vals : List (List UInt8)
  /-- `ProofVals`; `none` is nil -/
  proofVals : Option (List (List UInt8))
  deriving DecidableEq, Repr

def LeafsResponse.empty : LeafsResponse := ⟨[], [], none⟩

/-- The leaves of a sorted store from `start` on. -/
def iterateFrom (leafs : List Leaf) (start : List UInt8) : List Leaf :=
  leafs.dropWhile fun kv => Lib.ByteString.compare kv.1 start = .lt

/-- `trie.VerifyRangeProof` as documented: the leaves are the trie's first
leaves from `start`; whether more follow. -/
def verifyRangeProof (trie : List Leaf) (start : List UInt8) (keys vals : List (List UInt8)) :
    Option Bool :=
  let run := iterateFrom trie start
  if keys.zip vals = run.take keys.length ∧ keys.length = vals.length then
    some (keys.length < run.length)
  else none

/-- The trie, the snapshot and the range prover the builder reads. -/
structure Builder where
  trie : List Leaf
  snap : Option (List Leaf)
  /-- `generateRangeProof` then `iterateVals`, from the padded start -/
  rangeProof : List UInt8 → List (List UInt8) → List (List UInt8)
  request : LeafsRequest
  limit : ℕ

namespace Builder

variable (rb : Builder)

/-- An empty start is the zero key of `keyLength` bytes. -/
def padStart (start : List UInt8) : List UInt8 :=
  if start = [] then List.replicate keyLength 0 else start

/-- `nextKey`: the request's start, or one past the response's last key. -/
def nextKey (r : LeafsResponse) : List UInt8 :=
  match r.keys.getLast? with
  | none => rb.request.start
  | some last => incrOne last

/-- The loop of `fillFromTrie` over the trie's leaves from `nextKey`. -/
def fillLoop (endKey : List UInt8) : List Leaf → LeafsResponse → LeafsResponse × Bool
  | [], r => (r, false)
  | (k, v) :: rest, r =>
    if endKey ≠ [] ∧ Lib.ByteString.compare k endKey = .gt then (r, true)
    else if rb.limit ≤ r.keys.length then (r, true)
    else fillLoop endKey rest { r with keys := r.keys ++ [k], vals := r.vals ++ [v] }

/-- `fillFromTrie`: the response extended, and whether more leaves follow. -/
def fillFromTrie (r : LeafsResponse) (endKey : List UInt8) : LeafsResponse × Bool :=
  rb.fillLoop endKey (iterateFrom rb.trie (rb.nextKey r)) r

/-- The loop of `readLeafsFromSnapshot`. -/
def readLoop : List Leaf → List Leaf → List Leaf
  | acc, [] => acc
  | acc, (k, v) :: rest =>
    if rb.request.endKey ≠ [] ∧ Lib.ByteString.compare k rb.request.endKey = .gt then acc
    else if rb.limit ≤ acc.length then acc
    else readLoop (acc ++ [(k, v)]) rest

def readLeafsFromSnapshot (snap : List Leaf) : List Leaf :=
  rb.readLoop [] (iterateFrom snap (StateSync.bytesToHash rb.request.start))

/-- `isRangeValid`: the proof, whether it verifies, and whether more leaves follow. -/
def isRangeValid (r : LeafsResponse) (keys vals : List (List UInt8)) (hasGap : Bool) :
    List (List UInt8) × Option Bool :=
  let startKey := if hasGap then keys.headD [] else rb.nextKey r
  (rb.rangeProof (padStart startKey) keys, verifyRangeProof rb.trie (padStart startKey) keys vals)

/-- The segment loop of `fillFromSnapshot` from index `i`; `fuel` bounds the
number of segments. -/
def segmentLoop (snap : List Leaf) : ℕ → ℕ → LeafsResponse → Bool → LeafsResponse
  | 0, _, r, _ => r
  | fuel+1, i, r, hasGap =>
    if snap.length ≤ i then r
    else
      let seg := (snap.drop i).take segmentLen
      match (rb.isRangeValid r (seg.map Prod.fst) (seg.map Prod.snd) hasGap).2 with
      -- the segment is not valid
      | none => segmentLoop snap fuel (i+segmentLen) r true
      | some _ =>
        -- fill the gap before a valid segment from the trie, then drop its first key
        let filled := if hasGap then (rb.fillFromTrie r ((seg.map Prod.fst).headD [])).1 else r
        if hasGap ∧ rb.limit ≤ filled.keys.length then filled
        else
          let r :=
            if hasGap then { filled with keys := filled.keys.dropLast, vals := filled.vals.dropLast }
            else filled
          let taken := seg.take (rb.limit-r.keys.length)
          let r := { r with keys := r.keys ++ taken.map Prod.fst, vals := r.vals ++ taken.map Prod.snd }
          if rb.limit ≤ r.keys.length then r else segmentLoop snap fuel (i+segmentLen) r false

/-- `fillFromSnapshot`: the response, and whether it is complete. -/
def fillFromSnapshot (snap : List Leaf) (r : LeafsResponse) : LeafsResponse × Bool :=
  let snapLeafs := rb.readLeafsFromSnapshot snap
  let snapKeys := snapLeafs.map Prod.fst
  let snapVals := snapLeafs.map Prod.snd
  match rb.isRangeValid r snapKeys snapVals false with
  | (proof, some more) =>
    let r := { r with keys := snapKeys, vals := snapVals }
    if rb.request.start = [] ∧ !more then (r, true)
    else ({ r with proofVals := some proof }, !more)
  | (_, none) => (rb.segmentLoop snap snapLeafs.length 0 r false, false)

def handleRequest : LeafsResponse :=
  let (r, done) :=
    match rb.snap with
    | none => (LeafsResponse.empty, false)
    | some snap =>
      let (r, done) := rb.fillFromSnapshot snap LeafsResponse.empty
      (if done then r else { r with proofVals := none }, done)
  if done then r
  else if r.keys.length < rb.limit then
    let (r, more) := rb.fillFromTrie r rb.request.endKey
    if rb.request.start = [] ∧ !more then r
    else { r with proofVals := some (rb.rangeProof (padStart rb.request.start) r.keys) }
  else { r with proofVals := some (rb.rangeProof (padStart rb.request.start) r.keys) }

end Builder

/-- `OnLeafsRequest`: invalid requests are dropped, the limit is capped. -/
def onLeafsRequest (trie : List Leaf) (snap : Option (List Leaf))
    (rangeProof : List UInt8 → List (List UInt8) → List (List UInt8)) (request : LeafsRequest) :
    Option LeafsResponse :=
  if (request.endKey ≠ [] ∧ Lib.ByteString.compare request.start request.endKey = .gt) ∨
      request.limit = 0 then none
  else if (request.start ≠ [] ∧ request.start.length ≠ keyLength) ∨
      (request.endKey ≠ [] ∧ request.endKey.length ≠ keyLength) then none
  else
    some (Builder.handleRequest ⟨trie, snap, rangeProof, request, min request.limit maxLeavesLimit⟩)

namespace Builder

variable (rb : Builder)

def InRange (endKey : List UInt8) (kv : Leaf) : Bool :=
  !(endKey ≠ [] ∧ Lib.ByteString.compare kv.1 endKey = .gt)

def expectedLeafs : List Leaf :=
  ((iterateFrom rb.trie rb.request.start).takeWhile (InRange rb.request.endKey)).take rb.limit

theorem fillLoop_spec (endKey : List UInt8) (L : List Leaf) :
    ∀ r : LeafsResponse, r.keys.length ≤ rb.limit →
      (rb.fillLoop endKey L r).1.keys =
          r.keys ++ ((L.takeWhile (InRange endKey)).take (rb.limit-r.keys.length)).map Prod.fst ∧
        (rb.fillLoop endKey L r).1.vals =
          r.vals ++ ((L.takeWhile (InRange endKey)).take (rb.limit-r.keys.length)).map Prod.snd := by
  induction L with
  | nil =>
    intro r _
    simp [fillLoop]
  | cons kv rest ih =>
    obtain ⟨k, v⟩ := kv
    intro r hlen
    by_cases hend : endKey ≠ [] ∧ Lib.ByteString.compare k endKey = .gt
    · -- past the end: nothing more is taken
      have hin : InRange endKey (k, v) = false := by
        show (!decide (endKey ≠ [] ∧ Lib.ByteString.compare k endKey = .gt)) = false
        rw [decide_eq_true hend]
        rfl
      have ht : ((k, v) :: rest).takeWhile (InRange endKey) = [] := by
        rw [List.takeWhile_cons, hin]
        rfl
      simp only [fillLoop, if_pos hend, ht, List.take_nil, List.map_nil, List.append_nil, and_self]
    · have hin : InRange endKey (k, v) = true := by
        show (!decide (endKey ≠ [] ∧ Lib.ByteString.compare k endKey = .gt)) = true
        rw [decide_eq_false hend]
        rfl
      by_cases hfull : rb.limit ≤ r.keys.length
      · -- the limit is reached
        have h0 : rb.limit-r.keys.length = 0 := by omega
        simp only [fillLoop, if_neg hend, if_pos hfull, h0, List.take_zero, List.map_nil,
          List.append_nil, and_self]
      · have hstep := ih { r with keys := r.keys ++ [k], vals := r.vals ++ [v] }
          (by simp only [List.length_append, List.length_singleton]; omega)
        have hn : rb.limit-r.keys.length = rb.limit-(r.keys ++ [k]).length+1 := by
          simp only [List.length_append, List.length_singleton]
          omega
        simp only [fillLoop, if_neg hend, if_neg hfull]
        rw [hstep.1, hstep.2, List.takeWhile_cons_of_pos hin, hn, List.take_succ_cons]
        simp

/-- Without a snapshot the handler returns the first leaves of the range. -/
theorem handleRequest_of_no_snapshot (hsnap : rb.snap = none) :
    rb.handleRequest.keys = rb.expectedLeafs.map Prod.fst ∧
      rb.handleRequest.vals = rb.expectedLeafs.map Prod.snd := by
  have hfill := rb.fillLoop_spec rb.request.endKey (iterateFrom rb.trie rb.request.start)
    LeafsResponse.empty (Nat.zero_le _)
  simp only [LeafsResponse.empty, List.length_nil, Nat.sub_zero, List.nil_append] at hfill
  unfold handleRequest
  rw [hsnap]
  dsimp only
  have hlen0 : LeafsResponse.empty.keys.length = 0 := rfl
  rw [if_neg Bool.false_ne_true, hlen0]
  by_cases hpos : 0 < rb.limit
  · rw [if_pos hpos]
    have hnext : rb.fillFromTrie LeafsResponse.empty rb.request.endKey =
        rb.fillLoop rb.request.endKey (iterateFrom rb.trie rb.request.start) LeafsResponse.empty := rfl
    rw [hnext]
    split_ifs <;> exact hfill
  · have h0 : rb.limit = 0 := by omega
    rw [if_neg hpos]
    simp [expectedLeafs, h0, LeafsResponse.empty]

end Builder

def topKey : List UInt8 := List.replicate 32 0xff

def staleLeafs : List Leaf :=
  (List.range 64).map fun i => (List.replicate 31 0 ++ [UInt8.ofNat (i+1)], [])

def staleBuilder : Builder :=
  ⟨[(topKey, [1])], some (staleLeafs ++ [(topKey, [1])]), fun _ _ => [], ⟨[], [], 1024⟩, 1024⟩

/-- The second segment is valid, so the response reaches the largest key;
`nextKey` wraps it to the zero key and the trie is read once more. -/
theorem handleRequest_repeats_top_leaf :
    staleBuilder.handleRequest.keys = [topKey, topKey] ∧
      ({ staleBuilder with snap := none } : Builder).handleRequest.keys = [topKey] ∧
      ({ staleBuilder with snap := none } : Builder).expectedLeafs = [(topKey, [1])] := by
  decide

end LuxEvm.Handlers
