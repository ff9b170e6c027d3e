import LuxEvm.Sync.TrieQueue
import LuxEvm.Lib.StateRel

/-!
# The storage tries of a state sync

`NewStateSyncer` marks the account trie in progress and starts it. While it
syncs, each account with storage registers its root in the trie queue. When it
finishes, `onMainTrieFinished` closes `mainTrieDone`, and only then takes the
account trie out of `triesInProgress`. `storageTrieProducer` wakes on
`mainTrieDone` and, call after call of `getNextTrie`, creates a trie for each
root, marks it in progress, closes `storageTriesDone` before the last one, and
queues the trie's segments. When a storage trie is synced,
`onStorageTrieFinished` deletes its markers, takes it out of `triesInProgress`
under the lock and, past the lock, closes `segments` if none was left and
`storageTriesDone` is closed. Every goroutine runs its steps interleaved with
the others'.

In every run the tries created have distinct, non-zero roots and at least one
account each (`created_tries_distinct`). From the moment the account trie is
done, the producer hands out each root of the queue once, with every account
registered under it, whatever order the tries finish in
(`storage_tries_handed_once`), as many as `countTries` counted
(`countTries_eq_created`). The last check of `onStorageTrieFinished` reads a
count taken under the lock and a channel past it, so the segments channel can
close while the last trie is still to be queued
(`segments_closed_before_last_trie`), and the account trie's removal after
`close(mainTrieDone)` can leave it open for good (`segments_never_closed`).
-/

set_option autoImplicit false

namespace LuxEvm.Sync

open Lib.KeyGroups

/-- Where `storageTrieProducer` stands. -/
inductive ProducerPc where
  /-- on `<-t.mainTrieDone` -/
  | waiting
  /-- at the top of its loop -/
  | loop
  /-- past `addTrieInProgress` for `root` -/
  | added (root : Hash) (more : Bool)
  /-- past `close(t.storageTriesDone)`, before the last trie's `startSyncing` -/
  | signalled (root : Hash)
  | returned
  deriving DecidableEq, Repr

/-- Where the account trie's `onMainTrieFinished` stands. -/
inductive MainPc where
  | syncing
  /-- past `close(t.mainTrieDone)` -/
  | finished
  /-- past `removeTrieInProgress(t.root)` -/
  | removed
  deriving DecidableEq, Repr

inductive TriePhase where
  | created
  | syncing
  | removing
  | checking (numInProgress : ℕ)
  | done
  deriving DecidableEq, Repr

/-- A `trieToSync` of a storage root, with the accounts of its task. -/
structure StorageTrie where
  root : Hash
  accounts : List Hash
  phase : TriePhase
  deriving DecidableEq, Repr

/-- The state sync's storage-trie bookkeeping and its database keys. -/
structure StateSync where
  queue : TrieQueue
  mainPc : MainPc
  storageTriesDone : Bool
  segmentsClosed : Bool
  /-- the keys of the map `triesInProgress`: `insert` and `erase` keep them without repeats -/
  inProgress : List Hash
  producer : ProducerPc
  /-- the storage tries the producer created, in order -/
  tries : List StorageTrie
  /-- a goroutine closed a closed channel or sent on one -/
  panicked : Bool
  /-- `removeTrieInProgress` met an unexpected root -/
  failed : Bool

/-- `NewStateSyncer` on the keys of a database: `NewTrieQueue` starts its
cursor at the first key, and the account trie with root `root` is in progress. -/
def initialStateSync (root : Hash) (queue : TrieQueue) : StateSync :=
  ⟨{ queue with nextStorageRoot := none }, .syncing, false, false, [root], .waiting, [], false, false⟩

section Steps

variable (root emptyRootHash : Hash)

/-- The steps of the goroutines of a state sync that touch its storage tries:
the account trie's leaf callbacks and `onMainTrieFinished`, the producer, and
each storage trie's `onStorageTrieFinished`. A channel closed or sent on when
already closed sets `panicked`. -/
inductive StateSync.Step : StateSync → StateSync → Prop where
  /-- `mainTrieTask.OnLeafs` registers an account's storage root -/
  | register {s : StateSync} (r account : Hash) (hm : s.mainPc = .syncing) (hr : r ≠ 0 ∧ r ≠ emptyRootHash) :
      Step s { s with queue := s.queue.registerStorageTrie r account }
  /-- `onMainTrieFinished` closes `mainTrieDone` -/
  | mainFinished {s : StateSync} (hm : s.mainPc = .syncing) : Step s { s with mainPc := .finished }
  /-- `onMainTrieFinished` takes the account trie out of `triesInProgress` -/
  | mainRemoved {s : StateSync} (hm : s.mainPc = .finished) :
      Step s { s with mainPc := .removed, inProgress := s.inProgress.erase root }
  /-- the producer wakes on `mainTrieDone` -/
  | producerWake {s : StateSync} (hp : s.producer = .waiting) (hm : s.mainPc ≠ .syncing) :
      Step s { s with producer := .loop }
  /-- `getNextTrie` finds no root: the producer closes `segments` and returns -/
  | producerNone {s : StateSync} {r : Hash} {accounts : List Hash} {more : Bool} {q : TrieQueue}
      (hp : s.producer = .loop) (hg : s.queue.getNextTrie = (r, accounts, more, q)) (hnone : r = 0 ∧ more = false) :
      Step s { s with
        queue := q, producer := .returned, segmentsClosed := true, panicked := s.panicked || s.segmentsClosed }
  /-- `getNextTrie` finds a root: the producer creates its trie and marks it in progress -/
  | producerAdd {s : StateSync} {r : Hash} {accounts : List Hash} {more : Bool} {q : TrieQueue}
      (hp : s.producer = .loop) (hg : s.queue.getNextTrie = (r, accounts, more, q)) (hsome : ¬(r = 0 ∧ more = false)) :
      Step s { s with
        queue := q
        tries := s.tries ++ [⟨r, accounts, .created⟩]
        inProgress := s.inProgress.insert r
        producer := .added r more }
  /-- before the last trie, the producer closes `storageTriesDone` -/
  | producerSignal {s : StateSync} {r : Hash} (hp : s.producer = .added r false) :
      Step s { s with
        storageTriesDone := true, producer := .signalled r, panicked := s.panicked || s.storageTriesDone }
  /-- `startSyncing` sends the trie's segments, then the producer loops or returns -/
  | producerStart {s : StateSync} {r : Hash} {more : Bool} {pre post : List StorageTrie} {accounts : List Hash}
      (hp : s.producer = .added r true ∧ more = true ∨ s.producer = .signalled r ∧ more = false)
      (ht : s.tries = pre ++ ⟨r, accounts, .created⟩ :: post) :
      Step s { s with
        tries := pre ++ ⟨r, accounts, .syncing⟩ :: post
        producer := if more then .loop else .returned
        panicked := s.panicked || s.segmentsClosed }
  /-- a storage trie is synced (or found on disk): `onStorageTrieFinished`
  deletes its markers -/
  | trieSynced {s : StateSync} {pre post : List StorageTrie} {r : Hash} {accounts : List Hash}
      (ht : s.tries = pre ++ ⟨r, accounts, .syncing⟩ :: post) :
      Step s { s with queue := s.queue.storageTrieDone r, tries := pre ++ ⟨r, accounts, .removing⟩ :: post }
  /-- `removeTrieInProgress` under the lock, with the count it returns -/
  | trieRemoved {s : StateSync} {pre post : List StorageTrie} {r : Hash} {accounts : List Hash}
      (ht : s.tries = pre ++ ⟨r, accounts, .removing⟩ :: post) (hin : r ∈ s.inProgress) :
      Step s { s with
        inProgress := s.inProgress.erase r
        tries := pre ++ ⟨r, accounts, .checking (s.inProgress.erase r).length⟩ :: post }
  /-- `removeTrieInProgress` of a root not in progress returns an error -/
  | trieRemoveFailed {s : StateSync} {pre post : List StorageTrie} {r : Hash} {accounts : List Hash}
      (ht : s.tries = pre ++ ⟨r, accounts, .removing⟩ :: post) (hin : r ∉ s.inProgress) :
      Step s { s with tries := pre ++ ⟨r, accounts, .done⟩ :: post, failed := true }
  /-- past the lock: with no trie left and `storageTriesDone` closed, `segments` is closed -/
  | trieChecked {s : StateSync} {pre post : List StorageTrie} {r : Hash} {accounts : List Hash} {n : ℕ}
      (ht : s.tries = pre ++ ⟨r, accounts, .checking n⟩ :: post) :
      Step s { s with
        tries := pre ++ ⟨r, accounts, .done⟩ :: post
        segmentsClosed := s.segmentsClosed || (n == 0 && s.storageTriesDone)
        panicked := s.panicked || (n == 0 && s.storageTriesDone && s.segmentsClosed) }

inductive StateSync.Reachable (queue₀ : TrieQueue) : StateSync → Prop where
  | init : Reachable queue₀ (initialStateSync root queue₀)
  | step {s s' : StateSync} : Reachable queue₀ s → Step root emptyRootHash s s' → Reachable queue₀ s'

end Steps

/-- A database with the storage roots `1` and `2`, of the accounts `10` and `20`. -/
def sampleQueue : TrieQueue := ⟨[(1, 10), (2, 20)], by decide, none⟩

theorem sampleQueue_nonzero : ∀ k ∈ sampleQueue.markers, k.1 ≠ 0 := by
  intro k hk
  rcases List.mem_pair.mp hk with rfl | rfl <;> decide

theorem sampleMainFinished :
    StateSync.Reachable 3 4 sampleQueue { initialStateSync 3 sampleQueue with mainPc := .finished } :=
  StateSync.Reachable.init.step (.mainFinished rfl)

theorem sampleProducerRun : ∃ u : StateSync,
    Relation.ReflTransGen (StateSync.Step 3 4) { initialStateSync 3 sampleQueue with mainPc := .finished } u ∧
      u.producer = .returned ∧ u.tries.length = 2 := by
  have r1 := Relation.ReflTransGen.single
    (@StateSync.Step.producerWake 3 4 { initialStateSync 3 sampleQueue with mainPc := .finished } rfl (by decide))
  have r2 := r1.tail (.producerAdd rfl rfl (by decide))
  have r3 := r2.tail (@StateSync.Step.producerStart 3 4 _ 1 true [] [] [10] (.inl ⟨rfl, rfl⟩) rfl)
  have r4 := r3.tail (.producerAdd rfl rfl (by decide))
  have r5 := r4.tail (.producerSignal rfl)
  have r6 := r5.tail (@StateSync.Step.producerStart 3 4 _ 2 false [⟨1, [10], .syncing⟩] [] [20]
    (.inr ⟨rfl, rfl⟩) rfl)
  exact ⟨_, r6, rfl, rfl⟩

/-! ## The queue over every run -/

/-- The root and accounts of a trie's `storageTrieTask`. -/
def StorageTrie.task (tr : StorageTrie) : Hash × List Hash := (tr.root, tr.accounts)

/-- What the producer has yet to hand out: what `getNextTrie` reads, until it
returns the last trie. -/
def StateSync.toHand (s : StateSync) : List (Hash × List Hash) :=
  match s.producer with
  | .waiting | .loop | .added _ true => s.queue.pending
  | _ => []

/-- What holds of the queue in every reachable state: no key has the zero root,
and a producer still waiting has read nothing and created no trie. -/
structure QueueInv (s : StateSync) : Prop where
  nonzero : ∀ k ∈ s.queue.markers, k.1 ≠ 0
  waiting : s.producer = .waiting → s.queue.nextStorageRoot = none ∧ s.tries = []

theorem tasks_update {ts pre post : List StorageTrie} {r : Hash} {accounts : List Hash} {p p' : TriePhase}
    (ht : ts = pre ++ ⟨r, accounts, p⟩ :: post) :
    (pre ++ ⟨r, accounts, p'⟩ :: post).map StorageTrie.task = ts.map StorageTrie.task := by
  rw [ht, List.map_append, List.map_append, List.map_cons, List.map_cons]
  rfl

theorem roots_update {ts pre post : List StorageTrie} {r : Hash} {accounts : List Hash} {p p' : TriePhase}
    (ht : ts = pre ++ ⟨r, accounts, p⟩ :: post) :
    (pre ++ ⟨r, accounts, p'⟩ :: post).map StorageTrie.root = ts.map StorageTrie.root := by
  rw [ht, List.map_append, List.map_append, List.map_cons, List.map_cons]

theorem tries_ne_nil {ts pre post : List StorageTrie} {x : StorageTrie} (ht : ts = pre ++ x :: post) : ts ≠ [] := by
  rw [ht]
  simp

section Inv

variable {root emptyRootHash : Hash} {s t : StateSync}

theorem QueueInv.init {queue₀ : TrieQueue} (hq₀ : ∀ k ∈ queue₀.markers, k.1 ≠ 0) :
    QueueInv (initialStateSync root queue₀) :=
  ⟨hq₀, fun _ => ⟨rfl, rfl⟩⟩

theorem QueueInv.step (hinv : QueueInv s) (hstep : StateSync.Step root emptyRootHash s t) : QueueInv t := by
  cases hstep with
  | register r account _ hr =>
    refine ⟨fun k hk => ?_, hinv.waiting⟩
    rcases mem_insertMarker.mp hk with rfl | hk
    · exact hr.1
    · exact hinv.nonzero k hk
  | producerNone hp hg _ | producerAdd hp hg _ =>
    refine ⟨fun k hk => hinv.nonzero k ?_, fun h => absurd h (by simp)⟩
    have := markers_getNextTrie s.queue
    rw [hg] at this
    rwa [← this]
  | trieSynced ht =>
    exact ⟨fun k hk => hinv.nonzero k (List.mem_filter.mp hk).1,
      fun hw => absurd (hinv.waiting hw).2 (tries_ne_nil ht)⟩
  | trieRemoved ht _ | trieRemoveFailed ht _ | trieChecked ht =>
    exact ⟨hinv.nonzero, fun hw => absurd (hinv.waiting hw).2 (tries_ne_nil ht)⟩
  | producerStart _ ht =>
    refine ⟨hinv.nonzero, fun hw => ?_⟩
    split_ifs at hw
  | producerWake | producerSignal =>
    exact ⟨hinv.nonzero, fun hw => absurd hw (by simp)⟩
  | mainFinished | mainRemoved =>
    exact ⟨hinv.nonzero, hinv.waiting⟩

theorem QueueInv.reachable {queue₀ : TrieQueue} (hq₀ : ∀ k ∈ queue₀.markers, k.1 ≠ 0)
    (hs : StateSync.Reachable root emptyRootHash queue₀ s) : QueueInv s := by
  induction hs with
  | init => exact QueueInv.init hq₀
  | step _ hstep ih => exact ih.step hstep

/-- What holds from the moment the account trie is done, against the keys `M`
it left: the tries handed out, then what the producer has yet to hand out, are
the groups of `M`; and while the producer loops, every root handed out lies
below its cursor. -/
structure HandInv (M : List (Hash × Hash)) (s : StateSync) : Prop where
  main_done : s.mainPc ≠ .syncing
  exact : s.tries.map StorageTrie.task ++ s.toHand = groupByKey M
  below : s.producer = .loop ∨ (∃ r, s.producer = .added r true) →
    ∀ r ∈ s.tries.map StorageTrie.root, ∃ c, s.queue.nextStorageRoot = some c ∧ r < c

theorem le_of_pending_eq_cons {q : TrieQueue} {c r : Hash} {bs : List Hash} {gs : List (Hash × List Hash)}
    (hc : q.nextStorageRoot = some c) (hp : q.pending = (r, bs) :: gs) : c ≤ r := by
  have hmem := ((mem_groupByKey _ r bs).mp (hp ▸ List.mem_cons_self)).1
  obtain ⟨k, hk, rfl⟩ := List.mem_map.mp hmem
  unfold TrieQueue.pending at hp
  rw [hc] at hk
  exact of_decide_eq_true (List.mem_filter.mp hk).2

theorem pending_eq_nil_of_getNextTrie {q q' : TrieQueue} {accounts : List Hash} {more : Bool}
    (hz : ∀ k ∈ q.markers, k.1 ≠ 0) (hg : q.getNextTrie = (0, accounts, more, q')) : q.pending = [] := by
  cases hp : q.pending with
  | nil => rfl
  | cons g gs =>
    obtain ⟨r, bs⟩ := g
    obtain ⟨_, hget, -⟩ := getNextTrie_spec hz hp
    have hmem := ((mem_groupByKey _ r bs).mp (hp ▸ List.mem_cons_self)).1
    obtain ⟨k, hk, rfl⟩ := List.mem_map.mp hmem
    rw [hg, Prod.mk.injEq] at hget
    exact absurd hget.1.symm (hz k (mem_iterator hk))

theorem pending_eq_cons_of_getNextTrie {q q' : TrieQueue} {r : Hash} {accounts : List Hash} {more : Bool}
    (hz : ∀ k ∈ q.markers, k.1 ≠ 0) (hg : q.getNextTrie = (r, accounts, more, q'))
    (hsome : ¬(r = 0 ∧ more = false)) : ∃ gs, q.pending = (r, accounts) :: gs := by
  cases hpend : q.pending with
  | nil =>
    rw [getNextTrie_of_pending_eq_nil hpend] at hg
    simp only [Prod.mk.injEq] at hg
    exact absurd ⟨hg.1.symm, hg.2.2.1.symm⟩ hsome
  | cons g gs =>
    obtain ⟨r', bs⟩ := g
    obtain ⟨t', hget, -⟩ := getNextTrie_spec hz hpend
    rw [hg] at hget
    simp only [Prod.mk.injEq] at hget
    obtain ⟨rfl, rfl, -⟩ := hget
    exact ⟨gs, rfl⟩

theorem getNextTrie_nonempty {q q' : TrieQueue} {r : Hash} {accounts : List Hash} {more : Bool}
    (hz : ∀ k ∈ q.markers, k.1 ≠ 0) (hg : q.getNextTrie = (r, accounts, more, q'))
    (hsome : ¬(r = 0 ∧ more = false)) : r ≠ 0 ∧ accounts ≠ [] := by
  obtain ⟨gs, hpend⟩ := pending_eq_cons_of_getNextTrie hz hg hsome
  have hmem : (r, accounts) ∈ q.pending := hpend ▸ List.mem_cons_self
  unfold TrieQueue.pending at hmem
  obtain ⟨k, hk, rfl⟩ := List.mem_map.mp ((mem_groupByKey _ _ _).mp hmem).1
  exact ⟨hz k (mem_iterator hk), ne_nil_of_mem_groupByKey hmem⟩

theorem toHand_storageTrieDone {d : Hash} {ts : List StorageTrie}
    (hbelow : s.producer = .loop ∨ (∃ r, s.producer = .added r true) →
      ∃ c, s.queue.nextStorageRoot = some c ∧ d < c) (hw : s.producer ≠ .waiting) :
    ({ s with queue := s.queue.storageTrieDone d, tries := ts } : StateSync).toHand = s.toHand := by
  unfold StateSync.toHand
  dsimp only
  cases hp : s.producer with
  | waiting => exact absurd hp hw
  | loop =>
    obtain ⟨c, hc, hdc⟩ := hbelow (.inl hp)
    exact pending_storageTrieDone hc hdc
  | added r more =>
    cases more with
    | false => rfl
    | true =>
      obtain ⟨c, hc, hdc⟩ := hbelow (.inr ⟨r, hp⟩)
      exact pending_storageTrieDone hc hdc
  | signalled r => rfl
  | returned => rfl

theorem HandInv.step {M : List (Hash × Hash)} (hq : QueueInv s) (hinv : HandInv M s)
    (hstep : StateSync.Step root emptyRootHash s t) : HandInv M t := by
  cases hstep with
  | register _ _ hm | mainFinished hm => exact absurd hm hinv.main_done
  | mainRemoved => exact ⟨by simp, hinv.exact, hinv.below⟩
  | producerWake hp =>
    refine ⟨hinv.main_done, ?_, fun _ r hr => ?_⟩
    · simpa [StateSync.toHand, hp] using hinv.exact
    · rw [(hq.waiting hp).2] at hr
      simp at hr
  | producerNone hp hg hnone =>
    obtain ⟨rfl, rfl⟩ := hnone
    have hnil := pending_eq_nil_of_getNextTrie hq.nonzero hg
    refine ⟨hinv.main_done, ?_, fun h => by simp at h⟩
    simpa [StateSync.toHand, hp, hnil] using hinv.exact
  | producerAdd hp hg hsome =>
    obtain ⟨gs, hpend⟩ := pending_eq_cons_of_getNextTrie hq.nonzero hg hsome
    obtain ⟨t', hget, -, hnext⟩ := getNextTrie_spec hq.nonzero hpend
    rw [hg] at hget
    simp only [Prod.mk.injEq] at hget
    obtain ⟨-, -, rfl, rfl⟩ := hget
    have hold := hinv.exact
    simp only [StateSync.toHand, hp, hpend] at hold
    refine ⟨hinv.main_done, ?_, fun h x hx => ?_⟩
    · -- the trie handed out is the first pending group
      by_cases hgs : gs = []
      · subst hgs
        simpa [StateSync.toHand, StorageTrie.task] using hold
      · simpa [StateSync.toHand, StorageTrie.task, hgs, (hnext hgs).choose_spec.2.2] using hold
    · -- the cursor moved past the new root, and the old ones lie below the old cursor
      have hgs : gs ≠ [] := by simpa using h
      obtain ⟨next, hcur, hlt, -⟩ := hnext hgs
      refine ⟨next, hcur, ?_⟩
      simp only [List.map_append, List.map_cons, List.map_nil, List.mem_append, List.mem_singleton] at hx
      rcases hx with hx | rfl
      · obtain ⟨c, hc, hxc⟩ := hinv.below (.inl hp) x hx
        have hcr := le_of_pending_eq_cons hc hpend
        simp only [BitVec.lt_def, BitVec.le_def] at hxc hcr hlt ⊢
        omega
      · exact hlt
  | producerSignal hp =>
    refine ⟨hinv.main_done, ?_, fun h => by simp at h⟩
    simpa [StateSync.toHand, hp] using hinv.exact
  | producerStart hp ht =>
    rcases hp with ⟨hp, rfl⟩ | ⟨hp, rfl⟩
    · -- the producer loops on
      refine ⟨hinv.main_done, ?_, fun _ x hx => ?_⟩
      · simpa [StateSync.toHand, hp, tasks_update ht] using hinv.exact
      · dsimp only at hx
        rw [roots_update ht] at hx
        exact hinv.below (.inr ⟨_, hp⟩) x hx
    · -- the producer returns after the last trie
      refine ⟨hinv.main_done, ?_, fun h => by simp at h⟩
      simpa [StateSync.toHand, hp, tasks_update ht] using hinv.exact
  | @trieSynced pre post r accounts ht =>
    have hr : r ∈ s.tries.map StorageTrie.root := by
      rw [ht]
      simp
    refine ⟨hinv.main_done, ?_, fun h x hx => ?_⟩
    · dsimp only
      rw [tasks_update ht, toHand_storageTrieDone (fun h => hinv.below h _ hr) fun hw =>
        tries_ne_nil ht (hq.waiting hw).2]
      exact hinv.exact
    · dsimp only at hx
      rw [roots_update ht] at hx
      exact hinv.below h x hx
  | trieRemoved ht _ | trieRemoveFailed ht _ | trieChecked ht =>
    refine ⟨hinv.main_done, ?_, fun h r hr => ?_⟩
    · dsimp only
      rw [tasks_update ht]
      exact hinv.exact
    · dsimp only at hr
      rw [roots_update ht] at hr
      exact hinv.below h r hr

theorem HandInv.start (hq : QueueInv s) (hmain : s.mainPc ≠ .syncing) (hwait : s.producer = .waiting) :
    HandInv s.queue.markers s := by
  obtain ⟨hcur, htries⟩ := hq.waiting hwait
  refine ⟨hmain, ?_, fun h => by simp [hwait] at h⟩
  simp [StateSync.toHand, hwait, htries, TrieQueue.pending, hcur, newSyncStorageTriesIterator]

theorem HandInv.of_waiting (hq : QueueInv s) (hinv : s.producer = .waiting ∨ ∃ M, HandInv M s)
    (hstep : StateSync.Step root emptyRootHash s t) : t.producer = .waiting ∨ ∃ M, HandInv M t := by
  rcases hinv with hw | ⟨M, hM⟩
  · by_cases hmain : s.mainPc = .syncing
    · -- only the account trie's own steps are enabled
      left
      have hnil := (hq.waiting hw).2
      cases hstep with
      | register | mainFinished => exact hw
      | mainRemoved hm | producerWake _ hm => simp [hmain] at hm
      | producerNone hp | producerAdd hp | producerSignal hp => simp [hw] at hp
      | producerStart hp => rcases hp with ⟨hp, -⟩ | ⟨hp, -⟩ <;> simp [hw] at hp
      | trieSynced ht | trieRemoved ht | trieRemoveFailed ht | trieChecked ht => exact absurd hnil (tries_ne_nil ht)
    · exact .inr ⟨_, (HandInv.start hq hmain hw).step hq hstep⟩
  · exact .inr ⟨M, hM.step hq hstep⟩

theorem created_step (hq : QueueInv s) (hinv : ∀ p ∈ s.tries.map StorageTrie.task, p.1 ≠ 0 ∧ p.2 ≠ [])
    (hstep : StateSync.Step root emptyRootHash s t) : ∀ p ∈ t.tries.map StorageTrie.task, p.1 ≠ 0 ∧ p.2 ≠ [] := by
  cases hstep with
  | producerAdd _ hg hsome =>
    intro p hp
    simp only [List.map_append, List.map_cons, List.map_nil, List.mem_append, List.mem_singleton] at hp
    rcases hp with hp | rfl
    · exact hinv p hp
    · exact getNextTrie_nonempty hq.nonzero hg hsome
  | producerStart _ ht | trieSynced ht | trieRemoved ht _ | trieRemoveFailed ht _ | trieChecked ht =>
    dsimp only
    rwa [tasks_update ht]
  | register | mainFinished | mainRemoved | producerWake | producerNone | producerSignal => exact hinv

end Inv

/-! ## Over every run -/

section Runs

variable {root emptyRootHash : Hash} {queue₀ : TrieQueue}

theorem tasks_of_returned (hq₀ : ∀ k ∈ queue₀.markers, k.1 ≠ 0) {s u : StateSync}
    (hs : StateSync.Reachable root emptyRootHash queue₀ s) (hmain : s.mainPc ≠ .syncing)
    (hwait : s.producer = .waiting) (hrun : Relation.ReflTransGen (StateSync.Step root emptyRootHash) s u)
    (hret : u.producer = .returned) : u.tries.map StorageTrie.task = groupByKey s.queue.markers := by
  obtain ⟨-, hinv⟩ := Lib.StateRel.reflTransGen_keeps
    (fun v => StateSync.Reachable root emptyRootHash queue₀ v ∧ HandInv s.queue.markers v)
    (fun v w hvw ⟨hv, hinv⟩ => ⟨hv.step hvw, hinv.step (QueueInv.reachable hq₀ hv) hvw⟩) hrun
    ⟨hs, HandInv.start (QueueInv.reachable hq₀ hs) hmain hwait⟩
  simpa [StateSync.toHand, hret] using hinv.exact

/-- From the moment the account trie is done, whatever order the storage tries
finish in, a producer that returns has handed out each root of the queue once,
with exactly the accounts registered under it. -/
theorem storage_tries_handed_once (hq₀ : ∀ k ∈ queue₀.markers, k.1 ≠ 0) {s u : StateSync}
    (hs : StateSync.Reachable root emptyRootHash queue₀ s) (hmain : s.mainPc ≠ .syncing)
    (hwait : s.producer = .waiting) (hrun : Relation.ReflTransGen (StateSync.Step root emptyRootHash) s u)
    (hret : u.producer = .returned) :
    (u.tries.map StorageTrie.root).Nodup ∧ ∀ r accounts, (r, accounts) ∈ u.tries.map StorageTrie.task ↔
      r ∈ s.queue.markers.map Prod.fst ∧ accounts = valuesOf r s.queue.markers := by
  have htasks := tasks_of_returned hq₀ hs hmain hwait hrun hret
  have hroots : u.tries.map StorageTrie.root = (groupByKey s.queue.markers).map Prod.fst := by
    rw [← htasks, List.map_map]
    rfl
  exact ⟨hroots ▸ nodup_keys_groupByKey _, fun r accounts => by rw [htasks, mem_groupByKey]⟩

/-- The account trie of root `3` finishes; the producer hands out both roots
and queues them. -/
theorem storage_tries_handed_once_sample :
    ∃ s u : StateSync, StateSync.Reachable 3 4 sampleQueue s ∧ s.mainPc ≠ .syncing ∧ s.producer = .waiting ∧
      Relation.ReflTransGen (StateSync.Step 3 4) s u ∧ u.producer = .returned ∧
      ((u.tries.map StorageTrie.root).Nodup ∧ ∀ r accounts, (r, accounts) ∈ u.tries.map StorageTrie.task ↔
        r ∈ s.queue.markers.map Prod.fst ∧ accounts = valuesOf r s.queue.markers) := by
  obtain ⟨u, hrun, hret, -⟩ := sampleProducerRun
  exact ⟨_, u, sampleMainFinished, by decide, rfl, hrun, hret,
    storage_tries_handed_once sampleQueue_nonzero sampleMainFinished (by decide) rfl hrun hret⟩

/-- The count `onMainTrieFinished` takes for the estimate of the time left is
the number of storage tries the producer goes on to create, in every run. -/
theorem countTries_eq_created (hq₀ : ∀ k ∈ queue₀.markers, k.1 ≠ 0) {s u : StateSync}
    (hs : StateSync.Reachable root emptyRootHash queue₀ s) (hmain : s.mainPc ≠ .syncing)
    (hwait : s.producer = .waiting) (hrun : Relation.ReflTransGen (StateSync.Step root emptyRootHash) s u)
    (hret : u.producer = .returned) : u.tries.length = s.queue.countTries := by
  rw [← List.length_map (f := StorageTrie.task), tasks_of_returned hq₀ hs hmain hwait hrun hret,
    countTries_eq (QueueInv.reachable hq₀ hs).nonzero]

theorem countTries_eq_created_sample :
    ∃ s u : StateSync, StateSync.Reachable 3 4 sampleQueue s ∧ s.mainPc ≠ .syncing ∧ s.producer = .waiting ∧
      Relation.ReflTransGen (StateSync.Step 3 4) s u ∧ u.producer = .returned ∧
      u.tries.length = 2 ∧ u.tries.length = s.queue.countTries := by
  obtain ⟨u, hrun, hret, hlen⟩ := sampleProducerRun
  exact ⟨_, u, sampleMainFinished, by decide, rfl, hrun, hret, hlen,
    countTries_eq_created sampleQueue_nonzero sampleMainFinished (by decide) rfl hrun hret⟩

/-- In every run, the storage tries the producer has created have distinct
roots, none of them the zero hash, and each has at least one account: no root
is created twice and `accounts[0]` never fails. -/
theorem created_tries_distinct (hq₀ : ∀ k ∈ queue₀.markers, k.1 ≠ 0) {s : StateSync}
    (hs : StateSync.Reachable root emptyRootHash queue₀ s) :
    (s.tries.map StorageTrie.root).Nodup ∧ ∀ tr ∈ s.tries, tr.root ≠ 0 ∧ tr.accounts ≠ [] := by
  -- both invariants hold at the start and every step keeps them
  have hkeep : (s.producer = .waiting ∨ ∃ M, HandInv M s) ∧
      ∀ p ∈ s.tries.map StorageTrie.task, p.1 ≠ 0 ∧ p.2 ≠ [] := by
    induction hs with
    | init => exact ⟨.inl rfl, by simp [initialStateSync]⟩
    | step hs' hstep ih =>
      have hq := QueueInv.reachable hq₀ hs'
      exact ⟨HandInv.of_waiting hq ih.1 hstep, created_step hq ih.2 hstep⟩
  obtain ⟨hhand, hcreated⟩ := hkeep
  refine ⟨?_, fun tr htr => hcreated tr.task (List.mem_map_of_mem htr)⟩
  rcases hhand with hw | ⟨M, hM⟩
  · simp [((QueueInv.reachable hq₀ hs).waiting hw).2]
  · -- the roots handed out are the first keys of groups
    have hsub : (s.tries.map StorageTrie.root).Sublist ((groupByKey M).map Prod.fst) := by
      rw [← hM.exact, List.map_append, List.map_map]
      exact List.sublist_append_left _ _
    exact (nodup_keys_groupByKey M).sublist hsub

theorem created_tries_distinct_sample :
    ∃ s : StateSync, StateSync.Reachable 3 4 sampleQueue s ∧ s.tries.length = 2 ∧
      ((s.tries.map StorageTrie.root).Nodup ∧ ∀ tr ∈ s.tries, tr.root ≠ 0 ∧ tr.accounts ≠ []) := by
  obtain ⟨u, hrun, -, hlen⟩ := sampleProducerRun
  have hu := Lib.StateRel.reflTransGen_keeps _ (fun _ _ hvw hv => hv.step hvw) hrun sampleMainFinished
  exact ⟨u, hu, hlen, created_tries_distinct sampleQueue_nonzero hu⟩

/-- With the account trie removed, the producer returned and every storage
trie done, no goroutine of the state sync has a step left. -/
theorem StateSync.not_step_of_returned {s t : StateSync} (hm : s.mainPc = .removed)
    (hp : s.producer = .returned) (hdone : ∀ tr ∈ s.tries, tr.phase = .done) :
    ¬StateSync.Step root emptyRootHash s t := by
  intro hstep
  have hphase : ∀ {pre post r accounts p}, s.tries = pre ++ ⟨r, accounts, p⟩ :: post → p = .done := by
    intro pre post r accounts p ht
    exact hdone ⟨r, accounts, p⟩ (by simp [ht])
  cases hstep with
  | register _ _ hm' | mainFinished hm' | mainRemoved hm' => simp [hm] at hm'
  | producerWake hp' | producerNone hp' | producerAdd hp' | producerSignal hp' => simp [hp] at hp'
  | producerStart hp' => rcases hp' with ⟨hp', -⟩ | ⟨hp', -⟩ <;> simp [hp] at hp'
  | trieSynced ht | trieRemoved ht | trieRemoveFailed ht | trieChecked ht => cases hphase ht

end Runs

/-! ## Races -/

/-- The first root's `onStorageTrieFinished` takes it out of `triesInProgress`
while the producer is about to add the last root. The producer adds it and
closes `storageTriesDone`; the first root's check past the lock then sees no
trie left and `storageTriesDone` closed, and closes `segments`; the last trie's
`startSyncing` sends on the closed channel. -/
theorem segments_closed_before_last_trie :
    ∃ s : StateSync, StateSync.Reachable 3 4 sampleQueue s ∧ s.panicked = true := by
  have h0 : StateSync.Reachable 3 4 sampleQueue (initialStateSync 3 sampleQueue) := .init
  have h1 := h0.step (.mainFinished rfl)
  have h2 := h1.step (.mainRemoved rfl)
  have h3 := h2.step (.producerWake rfl (by decide))
  have h4 := h3.step (.producerAdd rfl rfl (by decide))
  have h5 := h4.step (@StateSync.Step.producerStart 3 4 _ 1 true [] [] [10] (.inl ⟨rfl, rfl⟩) rfl)
  have h6 := h5.step (@StateSync.Step.trieSynced 3 4 _ [] [] 1 [10] rfl)
  have h7 := h6.step (@StateSync.Step.trieRemoved 3 4 _ [] [] 1 [10] rfl (by decide))
  have h8 := h7.step (.producerAdd rfl rfl (by decide))
  have h9 := h8.step (.producerSignal rfl)
  have h10 := h9.step (@StateSync.Step.trieChecked 3 4 _ [] [⟨2, [20], .created⟩] 1 [10] 0 rfl)
  have h11 := h10.step
    (@StateSync.Step.producerStart 3 4 _ 2 false [⟨1, [10], .done⟩] [] [20] (.inr ⟨rfl, rfl⟩) rfl)
  exact ⟨_, h11, rfl⟩

/-- Both storage tries finish while `onMainTrieFinished` is between
`close(mainTrieDone)` and `removeTrieInProgress(t.root)`: each check sees the
account trie still in progress, and the account trie's removal checks nothing.
No step is left, and `segments` stays open, so the leaf syncer never returns. -/
theorem segments_never_closed :
    ∃ s : StateSync, StateSync.Reachable 3 4 sampleQueue s ∧ s.segmentsClosed = false ∧
      ∀ t, ¬StateSync.Step 3 4 s t := by
  have h0 : StateSync.Reachable 3 4 sampleQueue (initialStateSync 3 sampleQueue) := .init
  have h1 := h0.step (.mainFinished rfl)
  have h2 := h1.step (.producerWake rfl (by decide))
  have h3 := h2.step (.producerAdd rfl rfl (by decide))
  have h4 := h3.step (@StateSync.Step.producerStart 3 4 _ 1 true [] [] [10] (.inl ⟨rfl, rfl⟩) rfl)
  have h5 := h4.step (.producerAdd rfl rfl (by decide))
  have h6 := h5.step (.producerSignal rfl)
  have h7 := h6.step
    (@StateSync.Step.producerStart 3 4 _ 2 false [⟨1, [10], .syncing⟩] [] [20] (.inr ⟨rfl, rfl⟩) rfl)
  have h8 := h7.step (@StateSync.Step.trieSynced 3 4 _ [] [⟨2, [20], .syncing⟩] 1 [10] rfl)
  have h9 := h8.step (@StateSync.Step.trieRemoved 3 4 _ [] [⟨2, [20], .syncing⟩] 1 [10] rfl (by decide))
  have h10 := h9.step (@StateSync.Step.trieChecked 3 4 _ [] [⟨2, [20], .syncing⟩] 1 [10] 2 rfl)
  have h11 := h10.step (@StateSync.Step.trieSynced 3 4 _ [⟨1, [10], .done⟩] [] 2 [20] rfl)
  have h12 := h11.step (@StateSync.Step.trieRemoved 3 4 _ [⟨1, [10], .done⟩] [] 2 [20] rfl (by decide))
  have h13 := h12.step (@StateSync.Step.trieChecked 3 4 _ [⟨1, [10], .done⟩] [] 2 [20] 1 rfl)
  have h14 := h13.step (.mainRemoved rfl)
  exact ⟨_, h14, rfl, fun t => StateSync.not_step_of_returned rfl rfl (by decide)⟩

end LuxEvm.Sync
