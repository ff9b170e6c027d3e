import LuxEvm.Lib.ByteString

/-!
# The leaf syncer

`CallbackLeafSyncer.syncTask` fetches the leaves of a trie segment in
ranges: each request starts where the previous response ended, the keys past
the segment's end are cut off, and the segment's `OnLeafs` receives each
response. Keys are byte slices, and a slice shares its buffer with every slice
copied from it, so the model keeps the buffers in a heap and a slice is a
reference into it.

Both the segment's `OnLeafs` and the loop increment the buffer of the last
key of a response in place. The next request therefore starts two past the
last key, and a key one past a response's last key is never delivered.
-/

set_option autoImplicit false

namespace LuxEvm.Sync

/-- A byte slice, as a reference to the buffer it reads and writes. -/
abbrev Slice := ℕ

/-- The buffers behind the slices, and the next fresh reference. -/
structure Heap where
  buffers : Slice → List UInt8
  next : Slice

namespace Heap

def read (h : Heap) (s : Slice) : List UInt8 := h.buffers s

/-- A fresh buffer holding `bs`. -/
def alloc (h : Heap) (bs : List UInt8) : Heap × Slice :=
  (⟨Function.update h.buffers h.next bs, h.next+1⟩, h.next)

def allocAll (h : Heap) : List (List UInt8) → Heap × List Slice
  | [] => (h, [])
  | bs :: bss =>
    let rest := (h.alloc bs).1.allocAll bss
    (rest.1, (h.alloc bs).2 :: rest.2)

/-- `utils.IncrOne`, in place. -/
def incrOne (h : Heap) (s : Slice) : Heap :=
  ⟨Function.update h.buffers s (Lib.ByteString.incrOne (h.buffers s)), h.next⟩

@[simp] theorem read_incrOne_self (h : Heap) (s : Slice) :
    (h.incrOne s).read s = Lib.ByteString.incrOne (h.read s) := by
  simp [incrOne, read]

end Heap

/-- `message.LeafsRequest`; the request is serialized, so it carries the bytes
of its start slice. A nil start is `none`. -/
structure LeafsRequest where
  start : Option (List UInt8)
  limit : ℕ
  deriving DecidableEq, Repr

/-- `message.LeafsResponse` after `parseLeafsResponse`, without the values,
which the syncer only passes on. -/
structure LeafsResponse where
  keys : List (List UInt8)
  more : Bool
  deriving DecidableEq, Repr

def leafsFrom (trieKeys : List (List UInt8)) (start : Option (List UInt8)) : List (List UInt8) :=
  match start with
  | none => trieKeys
  | some start => trieKeys.filter fun k => Lib.ByteString.compare start k != .gt

/-- What `parseLeafsResponse` accepts for a request on a trie whose keys are
listed in increasing order: at most `Limit` keys, forming a run of the trie's
keys from the first at or after `Start`, with `More` set exactly when keys
remain after the run. -/
def Accepted (trieKeys : List (List UInt8)) (req : LeafsRequest) (resp : LeafsResponse) : Prop :=
  ∃ n, resp.keys = (leafsFrom trieKeys req.start).take n ∧ resp.keys.length ≤ req.limit ∧
    resp.more = decide (n < (leafsFrom trieKeys req.start).length)

/-- The state of a `trieSegment` the syncer reads and writes: the slices
`start` and `pos`, the bytes of `end` (`none` for nil), and the leaf count. -/
structure TrieSegment where
  start : Option Slice
  pos : Option Slice
  endKey : Option (List UInt8)
  leafs : ℕ

namespace TrieSegment

/-- `trieSegment.Start`. -/
def startSlice (t : TrieSegment) : Option Slice := if t.pos.isSome then t.pos else t.start

/-- `trieSegment.OnLeafs` after the trie's own callback: count the leaves and
remember the last key, incremented in place, as the position. -/
def onLeafs (t : TrieSegment) (heap : Heap) (keys : List Slice) : TrieSegment × Heap :=
  let t := {t with leafs := t.leafs+keys.length}
  match keys.getLast? with
  | none => (t, heap)
  | some last => ({t with pos := some last}, heap.incrOne last)

end TrieSegment

/-- The truncation loop of `syncTask`: the keys up to the last one at or
before `End`, and whether any key was cut off. -/
def truncatePastEnd (heap : Heap) (endKey : List UInt8) (keys : List Slice) : List Slice × Bool :=
  let kept := (keys.reverse.dropWhile fun k =>
    Lib.ByteString.compare (heap.read k) endKey == .gt).reverse
  (kept, kept.length < keys.length)

structure SyncState where
  heap : Heap
  segment : TrieSegment
  start : Option Slice
  /-- The key lists the trie's `OnLeafs` callback has received, in order. -/
  delivered : List (List (List UInt8))
  requests : List LeafsRequest

inductive SyncResult where
  | finished
  | skipped
  | failed (reason : String)
  | outOfFuel
  deriving DecidableEq, Repr

section Loop
variable (getLeafs : LeafsRequest → Except String LeafsResponse) (requestSize : ℕ)

/-- The response's keys in fresh buffers, cut at the segment's end. -/
def receive (heap : Heap) (endKey : Option (List UInt8)) (resp : LeafsResponse) :
    Heap × List Slice × Bool :=
  let received := heap.allocAll resp.keys
  match endKey with
  | some endKey =>
    if received.2.length > 0 then (received.1, truncatePastEnd received.1 endKey received.2)
    else (received.1, received.2, false)
  | none => (received.1, received.2, false)

/-- One request of the loop of `syncTask`: the new state, and the result when
the loop ends with it. -/
def syncRound (st : SyncState) : SyncState × Option SyncResult :=
  let req : LeafsRequest := ⟨st.start.map st.heap.read, requestSize⟩
  let st := {st with requests := st.requests ++ [req]}
  match getLeafs req with
  | .error e => (st, some (.failed e))
  | .ok leafsResponse =>
    let received := receive st.heap st.segment.endKey leafsResponse
    let keys := received.2.1
    let done := received.2.2
    -- the trie's callback reads the keys before the segment moves its position
    let delivered := st.delivered ++ [keys.map received.1.read]
    let segmentStep := st.segment.onLeafs received.1 keys
    let st := {st with heap := segmentStep.2, segment := segmentStep.1, delivered := delivered}
    if done || !leafsResponse.more then (st, some .finished)
    else
      match keys.getLast? with
      | none => (st, some (.failed "found no keys in a response with more set to true"))
      | some last => ({st with start := some last, heap := st.heap.incrOne last}, none)

def syncLoop : ℕ → SyncState → SyncState × SyncResult
  | 0, st => (st, .outOfFuel)
  | fuel+1, st =>
    match syncRound getLeafs requestSize st with
    | (st', none) => syncLoop fuel st'
    | (st', some r) => (st', r)

/-- `CallbackLeafSyncer.syncTask` for a trie segment, with `fuel` requests at
most; `onStart` is the trie task's `OnStart`, and `.finished` stands for the
call of `OnFinish`. -/
def syncTask (onStart : Except String Bool) (fuel : ℕ) (heap : Heap) (segment : TrieSegment) :
    SyncState × SyncResult :=
  let st : SyncState := ⟨heap, segment, segment.startSlice, [], []⟩
  match onStart with
  | .error e => (st, .failed e)
  | .ok true => (st, .skipped)
  | .ok false => syncLoop getLeafs requestSize fuel st

end Loop

/-! ## Where the next request starts -/

section Runs
variable (getLeafs : LeafsRequest → Except String LeafsResponse) (requestSize : ℕ)

theorem requests_syncRound (st : SyncState) :
    (syncRound getLeafs requestSize st).1.requests =
      st.requests ++ [⟨st.start.map st.heap.read, requestSize⟩] := by
  unfold syncRound
  dsimp only
  cases getLeafs ⟨st.start.map st.heap.read, requestSize⟩ with
  | error e => rfl
  | ok leafsResponse =>
    dsimp only
    split
    · rfl
    · split <;> rfl

/-- **One round.** A round that lets the loop go on delivered a nonempty list
of keys, and the next request starts two past its last key: the segment's
`OnLeafs` and the loop each increment the buffer that key was read from. -/
theorem start_syncRound {st : SyncState} (h : (syncRound getLeafs requestSize st).2 = none) :
    ∃ keys k, (syncRound getLeafs requestSize st).1.delivered = st.delivered ++ [keys] ∧
      keys.getLast? = some k ∧
      (syncRound getLeafs requestSize st).1.start.map (syncRound getLeafs requestSize st).1.heap.read =
        some (Lib.ByteString.incrOne (Lib.ByteString.incrOne k)) := by
  unfold syncRound at h ⊢
  dsimp only at h ⊢
  cases hg : getLeafs ⟨st.start.map st.heap.read, requestSize⟩ with
  | error e =>
    rw [hg] at h
    cases h
  | ok leafsResponse =>
    rw [hg] at h
    dsimp only at h ⊢
    split at h
    · cases h
    · rename_i hcont
      rw [if_neg hcont]
      split at h
      · cases h
      · rename_i last hlast
        -- the key the segment and the loop both increment is the last one delivered
        refine ⟨_, (receive st.heap st.segment.endKey leafsResponse).1.read last, rfl, ?_, ?_⟩
        · rw [List.getLast?_map, hlast]
          rfl
        · simp [TrieSegment.onLeafs, hlast]

theorem syncLoop_extends (fuel : ℕ) (st : SyncState) :
    ∃ requests delivered,
      (syncLoop getLeafs requestSize fuel st).1.requests = st.requests ++ requests ∧
      (syncLoop getLeafs requestSize fuel st).1.delivered = st.delivered ++ delivered := by
  induction fuel generalizing st with
  | zero => exact ⟨[], [], by simp [syncLoop], by simp [syncLoop]⟩
  | succ fuel ih =>
    have hreq := requests_syncRound getLeafs requestSize st
    have hdel : ∃ delivered, (syncRound getLeafs requestSize st).1.delivered =
        st.delivered ++ delivered := by
      unfold syncRound
      dsimp only
      cases getLeafs ⟨st.start.map st.heap.read, requestSize⟩ with
      | error e => exact ⟨[], by simp⟩
      | ok leafsResponse =>
        dsimp only
        split
        · exact ⟨_, rfl⟩
        · split
          · exact ⟨_, rfl⟩
          · exact ⟨_, rfl⟩
    obtain ⟨delivered, hdel⟩ := hdel
    rw [syncLoop]
    rcases hround : syncRound getLeafs requestSize st with ⟨st', _ | r⟩
    · obtain ⟨requests', delivered', hr, hd⟩ := ih st'
      rw [hround] at hreq hdel
      dsimp only at hreq hdel ⊢
      refine ⟨[⟨st.start.map st.heap.read, requestSize⟩] ++ requests', delivered ++ delivered', ?_, ?_⟩
      · simp only [hr, hreq, List.append_assoc]
      · simp only [hd, hdel, List.append_assoc]
    · rw [hround] at hreq hdel
      exact ⟨_, delivered, hreq, hdel⟩

/-- The first request of a run reads the state's start slice. -/
theorem syncLoop_request_first (fuel : ℕ) (st : SyncState) :
    (syncLoop getLeafs requestSize (fuel+1) st).1.requests[st.requests.length]? =
      some ⟨st.start.map st.heap.read, requestSize⟩ := by
  rw [syncLoop]
  have hreq := requests_syncRound getLeafs requestSize st
  rcases hround : syncRound getLeafs requestSize st with ⟨st', _ | r⟩
  · obtain ⟨requests', -, hr, -⟩ := syncLoop_extends getLeafs requestSize fuel st'
    rw [hround] at hreq
    dsimp only at hreq ⊢
    simp [hr, hreq]
  · rw [hround] at hreq
    dsimp only at hreq ⊢
    simp [hreq]

/-- **Every run.** In a run of the loop, each request after the first starts
two past the last key delivered for the request before it. -/
theorem syncLoop_start_two_past (fuel : ℕ) (st : SyncState)
    (hlen : st.requests.length = st.delivered.length) (i : ℕ) (hi : st.requests.length ≤ i)
    (hnext : i+1 < (syncLoop getLeafs requestSize fuel st).1.requests.length) :
    ∃ keys k, (syncLoop getLeafs requestSize fuel st).1.delivered[i]? = some keys ∧
      keys.getLast? = some k ∧
      (syncLoop getLeafs requestSize fuel st).1.requests[i+1]? =
        some ⟨some (Lib.ByteString.incrOne (Lib.ByteString.incrOne k)), requestSize⟩ := by
  induction fuel generalizing st with
  | zero =>
    simp only [syncLoop] at hnext
    omega
  | succ fuel ih =>
    have hreq := requests_syncRound getLeafs requestSize st
    rw [syncLoop] at hnext ⊢
    rcases hround : syncRound getLeafs requestSize st with ⟨st', _ | r⟩
    · obtain ⟨keys, k, hdel, hk, hstart⟩ := @start_syncRound getLeafs requestSize st
        (by rw [hround])
      rw [hround] at hnext hreq hdel hstart
      dsimp only at hnext hreq hdel hstart ⊢
      have hlen' : st'.requests.length = st'.delivered.length := by
        simp [hreq, hdel, hlen]
      have hst' : st'.requests.length = st.requests.length+1 := by simp [hreq]
      rcases Nat.lt_or_ge st.requests.length i with hlt | hle
      · exact ih st' hlen' (by omega) hnext
      · -- the round just made: its keys, and the request the next round makes
        have hieq : i = st.requests.length := le_antisymm hle hi
        subst hieq
        obtain ⟨requests', delivered', hr, hd⟩ := syncLoop_extends getLeafs requestSize fuel st'
        cases fuel with
        | zero =>
          simp only [syncLoop] at hnext
          omega
        | succ fuel =>
          refine ⟨keys, k, ?_, hk, ?_⟩
          · rw [hd, hdel, hlen]
            simp
          · rw [← hst', syncLoop_request_first getLeafs requestSize fuel st', hstart]
    · rw [hround] at hnext hreq
      dsimp only at hnext hreq
      simp only [hreq, List.length_append, List.length_singleton] at hnext
      omega

/-- **Every run of `syncTask`.** Each follow-up request starts two past the
last key delivered before it. -/
theorem syncTask_start_two_past (onStart : Except String Bool) (fuel : ℕ) (heap : Heap)
    (segment : TrieSegment) (i : ℕ)
    (hnext : i+1 < (syncTask getLeafs requestSize onStart fuel heap segment).1.requests.length) :
    ∃ keys k, (syncTask getLeafs requestSize onStart fuel heap segment).1.delivered[i]? = some keys ∧
      keys.getLast? = some k ∧
      (syncTask getLeafs requestSize onStart fuel heap segment).1.requests[i+1]? =
        some ⟨some (Lib.ByteString.incrOne (Lib.ByteString.incrOne k)), requestSize⟩ := by
  unfold syncTask at hnext ⊢
  cases onStart with
  | error e => simp at hnext
  | ok skip =>
    cases skip with
    | true => simp at hnext
    | false => exact syncLoop_start_two_past getLeafs requestSize fuel _ rfl i (Nat.zero_le _) hnext

end Runs

/-! ## A key skipped -/

/-- A server answering with the first `Limit` keys at or after `Start`. -/
def firstLeafs (trieKeys : List (List UInt8)) (req : LeafsRequest) : LeafsResponse :=
  ⟨(leafsFrom trieKeys req.start).take req.limit,
    decide (req.limit < (leafsFrom trieKeys req.start).length)⟩

theorem firstLeafs_accepted (trieKeys : List (List UInt8)) (req : LeafsRequest) :
    Accepted trieKeys req (firstLeafs trieKeys req) :=
  ⟨req.limit, rfl, List.length_take_le _ _, rfl⟩

def zeroKey : List UInt8 := List.replicate 32 0

def adjacentKeysTrie : List (List UInt8) := [zeroKey, Lib.ByteString.incrOne zeroKey]

def emptyHeap : Heap := ⟨fun _ => [], 0⟩

def wholeTrieSegment : TrieSegment := ⟨none, none, none, 0⟩

/-- `syncTask` over the whole trie, one leaf per request. -/
def adjacentKeysRun : SyncState × SyncResult :=
  syncTask (fun req => .ok (firstLeafs adjacentKeysTrie req)) 1 (.ok false) 3 emptyHeap
    wholeTrieSegment

/-- The second request starts at `0x00…02`, so the key `0x00…01` is never
delivered, and the task still finishes. -/
theorem syncTask_skips_key_after_response :
    (∀ req, Accepted adjacentKeysTrie req (firstLeafs adjacentKeysTrie req)) ∧
    adjacentKeysRun.2 = .finished ∧
    adjacentKeysRun.1.delivered.flatten = [zeroKey] ∧
    adjacentKeysRun.1.requests =
      [⟨none, 1⟩, ⟨some (Lib.ByteString.incrOne (Lib.ByteString.incrOne zeroKey)), 1⟩] :=
  ⟨firstLeafs_accepted adjacentKeysTrie, by decide, by decide, by decide⟩


end LuxEvm.Sync
