import LuxEvm.Sync.CodeRequest

/-!
# The code syncer

`addCode` calls, taken from leaf callbacks, select under the lock the hashes
neither outstanding nor stored, make them outstanding, write their
`CodeToFetch` markers and send them on the `codeHashes` channel. Worker
goroutines read the channel into batches of `MaxCodeHashesPerRequest`, fetch
each batch with `GetCode`, and under the lock take the batch out of the
outstanding set before writing the codes and deleting the markers in one
database batch. Every goroutine runs its steps interleaved with the others',
and the node may crash between any two: the database stays, the rest is lost,
and `start` deletes the markers of stored code and queues the others again.

`Step` is every step of every goroutine, with its errors. Over every run
(`SyncInv`), the hashes between a selection and their batch's lock are each
held once, so each request is at most `MaxCodeHashesPerRequest` distinct hashes
(`fetching_batch_ok`); a hash that is stored or marked stays so through every
step and crash (`marked_or_stored_persists`); every stored code was there at the
start or hashes to its key (`code_verified`); and a run that ends without an
error stores every hash marked before it (`stored_of_succeeded`).

The channel's buffer only makes senders wait; the model lets a send happen at
any time, which admits every order the bounded channel does.
-/

set_option autoImplicit false

namespace LuxEvm.Sync

open Message
open Lib.ByteString (encode)

/-- Where a worker goroutine of `work` stands. -/
inductive Phase where
  /-- in the `select` loop, reading hashes into its batch -/
  | receiving
  /-- in `GetCode` for its batch; `final` once the channel was found closed -/
  | fetching (final : Bool)
  /-- in `fulfillCodeRequest` past the lock, with the codes not yet written -/
  | writing (final : Bool) (codes : List (List UInt8))
  /-- `work` returned `nil` -/
  | exited
  /-- `work` returned an error -/
  | failed
  deriving DecidableEq, Repr

/-- A worker: the hashes it has read, and its phase. -/
structure Worker where
  batch : List Hash
  phase : Phase
  deriving DecidableEq, Repr

/-- An `addCode` call past its lock: the hashes it selected and has yet to
send, and whether their markers are written. -/
structure Adder where
  pending : List Hash
  marked : Bool
  deriving DecidableEq, Repr

/-- The code syncer with its database: `rawdb` code and the `CodeToFetch`
markers survive a crash, the rest is memory. -/
structure CodeSyncer where
  code : Hash → Option (List UInt8)
  marker : Hash → Bool
  /-- `outstandingCodeHashes` -/
  outstanding : List Hash
  /-- the buffered `codeHashes` channel -/
  queue : List Hash
  closed : Bool
  /-- the context is done -/
  done : Bool
  adders : List Adder
  workers : List Worker
  running : Bool
  /-- some goroutine of this run met an error -/
  errored : Bool

/-- `rawdb.HasCode` -/
def CodeSyncer.stored (s : CodeSyncer) (h : Hash) : Bool := (s.code h).isSome

/-- The loop of `addCode` under its lock: each hash neither outstanding nor
stored is selected and made outstanding. -/
def selectCode (stored : Hash → Bool) : List Hash → List Hash → List Hash × List Hash
  | outstanding, [] => ([], outstanding)
  | outstanding, h :: hs =>
    if h ∉ outstanding ∧ stored h = false then
      let r := selectCode stored (outstanding ++ [h]) hs
      (h :: r.1, r.2)
    else selectCode stored outstanding hs

/-- `rawdb.WriteCode` of each hash's code, in one batch. -/
def writeCodes (code : Hash → Option (List UInt8)) : List (Hash × List UInt8) → Hash → Option (List UInt8)
  | [] => code
  | (h, c) :: rest => writeCodes (Function.update code h (some c)) rest

/-- The syncer before `start`, on a database. -/
def initialSyncer (code : Hash → Option (List UInt8)) (marker : Hash → Bool) : CodeSyncer :=
  ⟨code, marker, [], [], false, false, [], [], false, false⟩

/-- `start`, with `numWorkers` workers: the markers of stored code are deleted,
and `addCode` takes the hashes of the others, in the order of `hashes`. -/
def restarted (numWorkers : ℕ) (s : CodeSyncer) (hashes : List Hash) : CodeSyncer :=
  let r := selectCode s.stored [] (hashes.filter fun h => !s.stored h)
  { code := s.code
    marker := fun h => s.marker h && !s.stored h
    outstanding := r.2, queue := [], closed := false, done := false, adders := [⟨r.1, false⟩]
    workers := List.replicate numWorkers ⟨[], .receiving⟩, running := true, errored := false }

section Steps

variable (numWorkers : ℕ) (keccak256 : List UInt8 → Hash)

/-- The steps of the goroutines of the code syncer, each at the grain of the
lock, the channel and the database batch. -/
inductive Step : CodeSyncer → CodeSyncer → Prop where
  /-- `addCode` selects under the lock; none is called after the channel closes -/
  | addLock {s : CodeSyncer} (hashes : List Hash) (hrun : s.running = true) (hopen : s.closed = false) :
      Step s { s with
        outstanding := (selectCode s.stored s.outstanding hashes).2
        adders := s.adders ++ [⟨(selectCode s.stored s.outstanding hashes).1, false⟩] }
  /-- `addCode` writes the markers of its selection -/
  | addMark {s : CodeSyncer} {pre post : List Adder} {hs : List Hash}
      (ha : s.adders = pre ++ ⟨hs, false⟩ :: post) :
      Step s { s with marker := (fun h => s.marker h || decide (h ∈ hs)), adders := pre ++ ⟨hs, true⟩ :: post }
  /-- writing the markers fails, and `addCode` returns the error -/
  | addMarkFailed {s : CodeSyncer} {pre post : List Adder} {hs : List Hash}
      (ha : s.adders = pre ++ ⟨hs, false⟩ :: post) :
      Step s { s with adders := pre ++ post, errored := true }
  /-- `addHashesToQueue` sends a hash -/
  | addSend {s : CodeSyncer} {pre post : List Adder} {h : Hash} {rest : List Hash}
      (ha : s.adders = pre ++ ⟨h :: rest, true⟩ :: post) :
      Step s { s with queue := s.queue ++ [h], adders := pre ++ ⟨rest, true⟩ :: post }
  /-- `addHashesToQueue` sees the context done and returns an error -/
  | addGiveUp {s : CodeSyncer} {pre post : List Adder} {hs : List Hash}
      (ha : s.adders = pre ++ ⟨hs, true⟩ :: post) (hd : s.done = true) :
      Step s { s with adders := pre ++ post, errored := true }
  /-- `addCode` returns -/
  | addReturn {s : CodeSyncer} {pre post : List Adder} (ha : s.adders = pre ++ ⟨[], true⟩ :: post) :
      Step s { s with adders := pre ++ post }
  /-- `notifyAccountTrieCompleted`, once no `addCode` runs -/
  | close {s : CodeSyncer} (hrun : s.running = true) (hopen : s.closed = false) (hidle : s.adders = []) :
      Step s { s with closed := true }
  /-- the parent context is cancelled -/
  | cancel {s : CodeSyncer} : Step s { s with done := true }
  /-- a worker reads a hash; a full batch goes to `GetCode` -/
  | recv {s : CodeSyncer} {pre post : List Worker} {batch : List Hash} {h : Hash} {rest : List Hash}
      (hw : s.workers = pre ++ ⟨batch, .receiving⟩ :: post) (hq : s.queue = h :: rest) :
      Step s { s with
        queue := rest
        workers := pre ++ ⟨batch ++ [h], if batch.length + 1 < maxCodeHashesPerRequest then .receiving
          else .fetching false⟩ :: post }
  /-- a worker finds the channel closed: it fetches what it holds, or returns -/
  | recvClosed {s : CodeSyncer} {pre post : List Worker} {batch : List Hash}
      (hw : s.workers = pre ++ ⟨batch, .receiving⟩ :: post) (hc : s.closed = true) (hq : s.queue = []) :
      Step s { s with workers := pre ++ ⟨batch, if batch = [] then .exited else .fetching true⟩ :: post }
  /-- a worker sees the context done and returns its error -/
  | recvDone {s : CodeSyncer} {pre post : List Worker} {batch : List Hash}
      (hw : s.workers = pre ++ ⟨batch, .receiving⟩ :: post) (hd : s.done = true) :
      Step s { s with workers := pre ++ ⟨batch, .failed⟩ :: post, errored := true }
  /-- `GetCode` returns codes the client accepted, and `fulfillCodeRequest`
  takes the batch out of the outstanding set under the lock -/
  | fetched {s : CodeSyncer} {pre post : List Worker} {batch : List Hash} {final : Bool} {data : List UInt8}
      {codes : List (List UInt8)} {total : ℕ} (hw : s.workers = pre ++ ⟨batch, .fetching final⟩ :: post)
      (hp : parseCode keccak256 ⟨batch⟩ data = .ok (codes, total)) :
      Step s { s with
        outstanding := s.outstanding.filter (fun h => h ∉ batch)
        workers := pre ++ ⟨batch, .writing final codes⟩ :: post }
  /-- `GetCode` returns an error, and the context ends -/
  | fetchFailed {s : CodeSyncer} {pre post : List Worker} {batch : List Hash} {final : Bool}
      (hw : s.workers = pre ++ ⟨batch, .fetching final⟩ :: post) :
      Step s { s with workers := pre ++ ⟨batch, .failed⟩ :: post, done := true, errored := true }
  /-- the batch writes the codes and deletes the markers; the worker resets its
  batch, or returns after the last one -/
  | written {s : CodeSyncer} {pre post : List Worker} {batch : List Hash} {final : Bool}
      {codes : List (List UInt8)} (hw : s.workers = pre ++ ⟨batch, .writing final codes⟩ :: post) :
      Step s { s with
        code := writeCodes s.code (batch.zip codes)
        marker := fun h => s.marker h && decide (h ∉ batch)
        workers := pre ++ ⟨[], if final then .exited else .receiving⟩ :: post }
  /-- writing the batch fails, and the context ends -/
  | writeFailed {s : CodeSyncer} {pre post : List Worker} {batch : List Hash} {final : Bool}
      {codes : List (List UInt8)} (hw : s.workers = pre ++ ⟨batch, .writing final codes⟩ :: post) :
      Step s { s with workers := pre ++ ⟨batch, .failed⟩ :: post, done := true, errored := true }
  /-- the node crashes: the database stays -/
  | crash {s : CodeSyncer} :
      Step s { s with
        outstanding := [], queue := [], closed := false, done := false, adders := [], workers := []
        running := false }
  /-- `start` on a node that is up again; `hashes` is the order the marker
  iterator reads -/
  | restart {s : CodeSyncer} (hashes : List Hash) (hdown : s.running = false)
      (henum : ∀ h, h ∈ hashes ↔ s.marker h = true) :
      Step s (restarted numWorkers s hashes)

inductive Reachable (code₀ : Hash → Option (List UInt8)) (marker₀ : Hash → Bool) : CodeSyncer → Prop where
  | init : Reachable code₀ marker₀ (initialSyncer code₀ marker₀)
  | step {s s' : CodeSyncer} : Reachable code₀ marker₀ s → Step numWorkers keccak256 s s' →
      Reachable code₀ marker₀ s'

end Steps

/-! ## What the goroutines hold -/

def Worker.held (w : Worker) : List Hash :=
  match w.phase with
  | .receiving | .fetching _ => w.batch
  | _ => []

def Worker.writingBatch (w : Worker) : List Hash :=
  match w.phase with
  | .writing _ _ => w.batch
  | _ => []

def Worker.Ok (keccak256 : List UInt8 → Hash) (w : Worker) : Prop :=
  match w.phase with
  | .receiving => w.batch.length < maxCodeHashesPerRequest
  | .fetching _ => w.batch ≠ [] ∧ w.batch.length ≤ maxCodeHashesPerRequest
  | .writing _ codes =>
    List.Forall₂ (fun code hash => code.length ≤ maxCodeSize ∧ keccak256 code = hash) codes w.batch
  | .exited | .failed => True

def Worker.Final (w : Worker) : Prop :=
  match w.phase with
  | .fetching final | .writing final _ => final = true
  | .exited => True
  | _ => False

def CodeSyncer.inFlight (s : CodeSyncer) : List Hash :=
  s.adders.flatMap Adder.pending ++ s.queue ++ s.workers.flatMap Worker.held

def CodeSyncer.writing (s : CodeSyncer) : List Hash := s.workers.flatMap Worker.writingBatch

/-- The run ends without error: every worker returned `nil` and no goroutine
met an error, so the `setError(nil)` after `wg.Wait()` reports success. With no
worker, `wg.Wait()` returns at once. -/
def CodeSyncer.succeeded (s : CodeSyncer) : Bool :=
  s.running && !s.errored && s.workers.all fun w => w.phase == .exited

/-- The bookkeeping of the hashes. A hash in flight is held once and is
outstanding; in a running syncer that has met no error, every marked hash is
outstanding or being written, and every outstanding hash is in flight. -/
structure Tracked (s : CodeSyncer) : Prop where
  nodup : s.inFlight.Nodup
  outstanding_of_inFlight : ∀ h ∈ s.inFlight, h ∈ s.outstanding
  marked : s.running = true → s.errored = false → ∀ h, s.marker h = true → h ∈ s.outstanding ∨ h ∈ s.writing
  inFlight_of_outstanding : s.running = true → s.errored = false → ∀ h ∈ s.outstanding, h ∈ s.inFlight

/-- What holds in every reachable state: the bookkeeping; a worker's batch fits
its phase; no `addCode` runs once the channel closed, and nothing is left to
send once a worker found it closed and drained. -/
structure SyncInv (keccak256 : List UInt8 → Hash) (s : CodeSyncer) : Prop extends Tracked s where
  workers_ok : ∀ w ∈ s.workers, w.Ok keccak256
  idle_of_closed : s.closed = true → s.adders = []
  drained : ∀ w ∈ s.workers, w.Final → s.closed = true ∧ s.queue = []

/-! ## `addCode`'s selection -/

section Select

variable (stored : Hash → Bool)

theorem snd_selectCode (outstanding hashes : List Hash) :
    (selectCode stored outstanding hashes).2 = outstanding ++ (selectCode stored outstanding hashes).1 := by
  induction hashes generalizing outstanding with
  | nil => simp [selectCode]
  | cons h hs ih =>
    rw [selectCode]
    split_ifs
    · simp [ih]
    · exact ih outstanding

theorem fresh_of_mem_selectCode {outstanding hashes : List Hash} {h : Hash}
    (hmem : h ∈ (selectCode stored outstanding hashes).1) : h ∉ outstanding ∧ stored h = false := by
  induction hashes generalizing outstanding with
  | nil => simp [selectCode] at hmem
  | cons x xs ih =>
    rw [selectCode] at hmem
    split_ifs at hmem with hx
    · rcases List.mem_cons.mp hmem with rfl | hrest
      · exact hx
      · have := ih hrest
        exact ⟨fun ho => this.1 (List.mem_append_left _ ho), this.2⟩
    · exact ih hmem

theorem nodup_selectCode (outstanding hashes : List Hash) : (selectCode stored outstanding hashes).1.Nodup := by
  induction hashes generalizing outstanding with
  | nil => simp [selectCode]
  | cons x xs ih =>
    rw [selectCode]
    split_ifs
    · refine List.nodup_cons.mpr ⟨fun hx => ?_, ih _⟩
      exact (fresh_of_mem_selectCode stored hx).1 (List.mem_append_right _ List.mem_cons_self)
    · exact ih outstanding

theorem mem_selectCode {outstanding hashes : List Hash} {h : Hash} (hmem : h ∈ hashes) :
    h ∈ (selectCode stored outstanding hashes).2 ∨ stored h = true := by
  induction hashes generalizing outstanding with
  | nil => simp at hmem
  | cons x xs ih =>
    rw [selectCode]
    split_ifs with hx
    · rcases List.mem_cons.mp hmem with rfl | hrest
      · left
        rw [snd_selectCode]
        simp
      · exact ih hrest
    · rcases List.mem_cons.mp hmem with rfl | hrest
      · -- not selected: already outstanding, or stored
        rw [not_and_or, not_not, Bool.not_eq_false] at hx
        rcases hx with hout | hst
        · left
          rw [snd_selectCode]
          exact List.mem_append_left _ hout
        · exact .inr hst
      · exact ih hrest

end Select


/-! ## Counting what is in flight -/

theorem nodup_of_count_le {l l' : List Hash} (h : ∀ a, l'.count a ≤ l.count a) (hn : l.Nodup) : l'.Nodup :=
  List.nodup_iff_count_le_one.mpr fun a => (h a).trans (List.nodup_iff_count_le_one.mp hn a)

theorem mem_of_count_le {l l' : List Hash} (h : ∀ a, l'.count a ≤ l.count a) {a : Hash} (ha : a ∈ l') :
    a ∈ l :=
  List.count_pos_iff.mp (lt_of_lt_of_le (List.count_pos_iff.mpr ha) (h a))

theorem count_inFlight (s : CodeSyncer) (a : Hash) :
    s.inFlight.count a = (s.adders.flatMap Adder.pending).count a + s.queue.count a +
      (s.workers.flatMap Worker.held).count a := by
  simp only [CodeSyncer.inFlight, List.count_append]

theorem count_flatMap_split {α : Type} (f : α → List Hash) (pre post : List α) (x : α) (a : Hash) :
    ((pre ++ x :: post).flatMap f).count a = ((pre ++ post).flatMap f).count a + (f x).count a := by
  simp only [List.flatMap_append, List.flatMap_cons, List.count_append]
  omega

theorem mem_flatMap_split {α : Type} (f : α → List Hash) (pre post : List α) (x : α) (h : Hash) :
    h ∈ (pre ++ x :: post).flatMap f ↔ h ∈ f x ∨ h ∈ (pre ++ post).flatMap f := by
  rw [← List.count_pos_iff, count_flatMap_split, ← List.count_pos_iff, ← List.count_pos_iff]
  omega

theorem count_inFlight_of_worker {s t : CodeSyncer} {pre post : List Worker} {w w' : Worker}
    (hs : s.workers = pre ++ w :: post) (ht : t.workers = pre ++ w' :: post) (ha : t.adders = s.adders)
    (hq : t.queue = s.queue) (a : Hash) :
    t.inFlight.count a + w.held.count a = s.inFlight.count a + w'.held.count a := by
  rw [count_inFlight, count_inFlight, hs, ht, ha, hq, count_flatMap_split, count_flatMap_split]
  omega

theorem count_inFlight_of_adder {s t : CodeSyncer} {pre post : List Adder} {x : Adder}
    (hs : s.adders = pre ++ x :: post) (ht : t.adders = pre ++ post) (hq : t.queue = s.queue)
    (hw : t.workers = s.workers) (a : Hash) :
    t.inFlight.count a + x.pending.count a = s.inFlight.count a := by
  rw [count_inFlight, count_inFlight, hs, ht, hq, hw, count_flatMap_split]
  omega

theorem writing_of_worker {s t : CodeSyncer} {pre post : List Worker} {w w' : Worker}
    (hs : s.workers = pre ++ w :: post) (ht : t.workers = pre ++ w' :: post)
    (hb : w'.writingBatch = w.writingBatch) : t.writing = s.writing := by
  simp only [CodeSyncer.writing, hs, ht, List.flatMap_append, List.flatMap_cons, hb]

theorem mem_workers {pre post : List Worker} {w w' : Worker} (hw : w' ∈ pre ++ w :: post) :
    w' = w ∨ w' ∈ pre ++ post := by
  simp only [List.mem_append, List.mem_cons] at hw ⊢
  tauto

theorem count_held_le {s : CodeSyncer} {w : Worker} (hw : w ∈ s.workers) (a : Hash) :
    w.held.count a ≤ s.inFlight.count a := by
  obtain ⟨pre, post, hs⟩ := List.append_of_mem hw
  rw [count_inFlight, hs, count_flatMap_split]
  omega

theorem forall_workers_update {p : Worker → Prop} {ws pre post : List Worker} {w w' : Worker}
    (hs : ws = pre ++ w :: post) (hall : ∀ v ∈ ws, p v) (hw' : p w') : ∀ v ∈ pre ++ w' :: post, p v := by
  intro v hv
  rcases mem_workers hv with rfl | hv
  · exact hw'
  · refine hall v ?_
    rw [hs]
    simp only [List.mem_append, List.mem_cons] at hv ⊢
    tauto

/-! ## The invariant, step by step -/

section Tracked

variable {s t : CodeSyncer}

theorem Tracked.of_count_eq (hs : Tracked s) (hc : ∀ a, t.inFlight.count a = s.inFlight.count a)
    (ho : t.outstanding = s.outstanding) (hr : t.running = s.running) (he : t.errored = s.errored)
    (hmarked : t.running = true → t.errored = false → ∀ h, t.marker h = true → h ∈ t.outstanding ∨ h ∈ t.writing) :
    Tracked t where
  nodup := nodup_of_count_le (fun a => (hc a).le) hs.nodup
  outstanding_of_inFlight h hh := by
    rw [ho]
    exact hs.outstanding_of_inFlight h (mem_of_count_le (fun a => (hc a).le) hh)
  marked := hmarked
  inFlight_of_outstanding hrun herr h hh := by
    rw [hr] at hrun
    rw [he] at herr
    rw [ho] at hh
    exact mem_of_count_le (fun a => (hc a).ge) (hs.inFlight_of_outstanding hrun herr h hh)

theorem Tracked.of_errored (hs : Tracked s) (hc : ∀ a, t.inFlight.count a ≤ s.inFlight.count a)
    (ho : t.outstanding = s.outstanding) (he : t.errored = true) : Tracked t where
  nodup := nodup_of_count_le hc hs.nodup
  outstanding_of_inFlight h hh := by
    rw [ho]
    exact hs.outstanding_of_inFlight h (mem_of_count_le hc hh)
  marked _ herr := absurd herr (by simp [he])
  inFlight_of_outstanding _ herr := absurd herr (by simp [he])

end Tracked

section Inv

variable {keccak256 : List UInt8 → Hash} {s : CodeSyncer}

theorem SyncInv.open_of_adders {pre post : List Adder} {x : Adder} (hinv : SyncInv keccak256 s)
    (ha : s.adders = pre ++ x :: post) : s.closed = false := by
  cases hc : s.closed
  · rfl
  · simp [hinv.idle_of_closed hc] at ha

theorem SyncInv.addLock (hinv : SyncInv keccak256 s) (hashes : List Hash) (hopen : s.closed = false) :
    SyncInv keccak256 { s with
      outstanding := (selectCode s.stored s.outstanding hashes).2
      adders := s.adders ++ [⟨(selectCode s.stored s.outstanding hashes).1, false⟩] } := by
  have hout := snd_selectCode s.stored s.outstanding hashes
  have hnd := nodup_selectCode s.stored s.outstanding hashes
  have hfresh : ∀ h ∈ (selectCode s.stored s.outstanding hashes).1, h ∉ s.outstanding :=
    fun h hh => (fresh_of_mem_selectCode s.stored hh).1
  generalize selectCode s.stored s.outstanding hashes = r at hout hnd hfresh ⊢
  obtain ⟨sel, out'⟩ := r
  dsimp only at hout hnd hfresh ⊢
  subst hout
  set t : CodeSyncer :=
    { s with
      outstanding := s.outstanding ++ sel
      adders := s.adders ++ [⟨sel, false⟩] }
  have hcount : ∀ a, t.inFlight.count a = s.inFlight.count a + sel.count a := by
    intro a
    simp only [t, count_inFlight, List.flatMap_append, List.flatMap_cons, List.flatMap_nil, List.append_nil,
      List.count_append]
    omega
  have hdisj : ∀ a ∈ sel, s.inFlight.count a = 0 := fun a ha =>
    List.count_eq_zero.mpr fun hf => hfresh a ha (hinv.outstanding_of_inFlight a hf)
  have hmem : ∀ a, a ∈ t.inFlight ↔ a ∈ s.inFlight ∨ a ∈ sel := by
    intro a
    rw [← List.count_pos_iff, hcount, ← List.count_pos_iff, ← List.count_pos_iff]
    omega
  refine ⟨⟨List.nodup_iff_count_le_one.mpr fun a => ?_, fun h hh => ?_, fun hr he h hm => ?_,
    fun hr he h hh => ?_⟩, hinv.workers_ok, fun hc => absurd hc (by simp [t, hopen]),
    fun w hw hf => absurd (hinv.drained w hw hf).1 (by simp [hopen])⟩
  · rw [hcount]
    by_cases ha : a ∈ sel
    · rw [hdisj a ha, Nat.zero_add]
      exact List.nodup_iff_count_le_one.mp hnd a
    · rw [List.count_eq_zero.mpr ha, Nat.add_zero]
      exact List.nodup_iff_count_le_one.mp hinv.nodup a
  · rcases (hmem h).mp hh with hf | hs
    · exact List.mem_append_left _ (hinv.outstanding_of_inFlight h hf)
    · exact List.mem_append_right _ hs
  · rcases hinv.marked hr he h hm with ho | hw
    · exact .inl (List.mem_append_left _ ho)
    · exact .inr hw
  · rcases List.mem_append.mp hh with ho | hs
    · exact (hmem h).mpr (.inl (hinv.inFlight_of_outstanding hr he h ho))
    · exact (hmem h).mpr (.inr hs)

theorem SyncInv.addMark (hinv : SyncInv keccak256 s) {pre post : List Adder} {hs : List Hash}
    (ha : s.adders = pre ++ ⟨hs, false⟩ :: post) :
    SyncInv keccak256 { s with
      marker := fun h => s.marker h || decide (h ∈ hs)
      adders := pre ++ ⟨hs, true⟩ :: post } := by
  set t : CodeSyncer :=
    { s with
      marker := fun h => s.marker h || decide (h ∈ hs)
      adders := pre ++ ⟨hs, true⟩ :: post }
  have hc : ∀ a, t.inFlight.count a = s.inFlight.count a := by
    intro a
    simp only [t, count_inFlight, ha, count_flatMap_split]
  have hsel : ∀ h ∈ hs, h ∈ s.outstanding := fun h hh =>
    hinv.outstanding_of_inFlight h (by simp [CodeSyncer.inFlight, ha, hh])
  have hopen := hinv.open_of_adders ha
  refine ⟨hinv.toTracked.of_count_eq hc rfl rfl rfl fun hr he h hm => ?_, hinv.workers_ok,
    fun hcl => absurd hcl (by simp [t, hopen]), hinv.drained⟩
  rcases Bool.or_eq_true_iff.mp hm with hm | hm
  · exact hinv.marked hr he h hm
  · exact .inl (hsel h (of_decide_eq_true hm))

theorem SyncInv.of_adder_failed {t : CodeSyncer} (hinv : SyncInv keccak256 s) {pre post : List Adder}
    {x : Adder} (hs : s.adders = pre ++ x :: post) (ht : t.adders = pre ++ post) (hq : t.queue = s.queue)
    (hw : t.workers = s.workers) (hc : t.closed = s.closed) (ho : t.outstanding = s.outstanding)
    (he : t.errored = true) : SyncInv keccak256 t := by
  refine ⟨hinv.toTracked.of_errored (fun a => ?_) ho he, ?_, fun hcl => ?_, ?_⟩
  · have := count_inFlight_of_adder hs ht hq hw a
    omega
  · rw [hw]
    exact hinv.workers_ok
  · rw [hc, hinv.open_of_adders hs] at hcl
    exact absurd hcl (by simp)
  · rw [hw, hc, hq]
    exact hinv.drained

theorem SyncInv.addSend (hinv : SyncInv keccak256 s) {pre post : List Adder} {h : Hash} {rest : List Hash}
    (ha : s.adders = pre ++ ⟨h :: rest, true⟩ :: post) :
    SyncInv keccak256 { s with queue := s.queue ++ [h], adders := pre ++ ⟨rest, true⟩ :: post } := by
  set t : CodeSyncer := { s with queue := s.queue ++ [h], adders := pre ++ ⟨rest, true⟩ :: post }
  have hc : ∀ a, t.inFlight.count a = s.inFlight.count a := by
    intro a
    simp only [t, count_inFlight, ha, count_flatMap_split, List.count_append, List.count_cons, List.count_nil]
    omega
  have hopen := hinv.open_of_adders ha
  exact ⟨hinv.toTracked.of_count_eq hc rfl rfl rfl hinv.marked, hinv.workers_ok,
    fun hcl => absurd hcl (by simp [t, hopen]), fun w hw hf => absurd (hinv.drained w hw hf).1 (by simp [hopen])⟩

theorem SyncInv.addReturn (hinv : SyncInv keccak256 s) {pre post : List Adder}
    (ha : s.adders = pre ++ ⟨[], true⟩ :: post) : SyncInv keccak256 { s with adders := pre ++ post } := by
  set t : CodeSyncer := { s with adders := pre ++ post }
  have hc : ∀ a, t.inFlight.count a = s.inFlight.count a := fun a => by
    simpa using count_inFlight_of_adder (t := t) ha rfl rfl rfl a
  have hopen := hinv.open_of_adders ha
  exact ⟨hinv.toTracked.of_count_eq hc rfl rfl rfl hinv.marked, hinv.workers_ok,
    fun hcl => absurd hcl (by simp [t, hopen]), hinv.drained⟩

theorem SyncInv.close (hinv : SyncInv keccak256 s) (hopen : s.closed = false) (hidle : s.adders = []) :
    SyncInv keccak256 { s with closed := true } :=
  ⟨⟨hinv.nodup, hinv.outstanding_of_inFlight, hinv.marked, hinv.inFlight_of_outstanding⟩, hinv.workers_ok,
    fun _ => hidle, fun w hw hf => absurd (hinv.drained w hw hf).1 (by simp [hopen])⟩

theorem SyncInv.cancel (hinv : SyncInv keccak256 s) : SyncInv keccak256 { s with done := true } :=
  ⟨⟨hinv.nodup, hinv.outstanding_of_inFlight, hinv.marked, hinv.inFlight_of_outstanding⟩, hinv.workers_ok,
    hinv.idle_of_closed, hinv.drained⟩

theorem SyncInv.recv (hinv : SyncInv keccak256 s) {pre post : List Worker} {batch : List Hash} {h : Hash}
    {rest : List Hash} (hw : s.workers = pre ++ ⟨batch, .receiving⟩ :: post) (hq : s.queue = h :: rest) :
    SyncInv keccak256 { s with
      queue := rest
      workers := pre ++ ⟨batch ++ [h], if batch.length + 1 < maxCodeHashesPerRequest then .receiving
        else .fetching false⟩ :: post } := by
  set w' : Worker :=
    ⟨batch ++ [h], if batch.length + 1 < maxCodeHashesPerRequest then .receiving else .fetching false⟩
  set t : CodeSyncer := { s with queue := rest, workers := pre ++ w' :: post }
  have hlen : batch.length < maxCodeHashesPerRequest := by
    have := hinv.workers_ok ⟨batch, .receiving⟩ (by rw [hw]; simp)
    simpa [Worker.Ok] using this
  have hnew : w'.held = batch ++ [h] ∧ w'.writingBatch = [] ∧ w'.Ok keccak256 ∧ ¬ w'.Final := by
    simp only [w']
    split_ifs with hlt
    · exact ⟨rfl, rfl, by simpa [Worker.Ok] using hlt, id⟩
    · exact ⟨rfl, rfl, ⟨by simp, by simp; omega⟩, by simp [Worker.Final]⟩
  have hc : ∀ a, t.inFlight.count a = s.inFlight.count a := by
    intro a
    have hold : Worker.held ⟨batch, .receiving⟩ = batch := rfl
    simp only [t, count_inFlight, hq, hw, count_flatMap_split, hnew.1, hold, List.count_append, List.count_cons,
      List.count_nil]
    omega
  refine ⟨hinv.toTracked.of_count_eq hc rfl rfl rfl fun hr he x hm => ?_,
    forall_workers_update hw hinv.workers_ok hnew.2.2.1, hinv.idle_of_closed, fun v hv hf => ?_⟩
  · rw [writing_of_worker (t := t) hw rfl hnew.2.1]
    exact hinv.marked hr he x hm
  · -- a worker that was done would have found the channel empty
    rcases mem_workers hv with rfl | hv
    · exact absurd hf hnew.2.2.2
    · have := (hinv.drained v (by rw [hw]; simp only [List.mem_append, List.mem_cons] at hv ⊢; tauto) hf).2
      rw [hq] at this
      exact absurd this (by simp)

theorem SyncInv.recvClosed (hinv : SyncInv keccak256 s) {pre post : List Worker} {batch : List Hash}
    (hw : s.workers = pre ++ ⟨batch, .receiving⟩ :: post) (hcl : s.closed = true) (hq : s.queue = []) :
    SyncInv keccak256 { s with workers := pre ++ ⟨batch, if batch = [] then .exited else .fetching true⟩ :: post } := by
  set w' : Worker := ⟨batch, if batch = [] then .exited else .fetching true⟩
  set t : CodeSyncer := { s with workers := pre ++ w' :: post }
  have hlen : batch.length < maxCodeHashesPerRequest := by
    have := hinv.workers_ok ⟨batch, .receiving⟩ (by rw [hw]; simp)
    simpa [Worker.Ok] using this
  have hnew : w'.held = batch ∧ w'.writingBatch = [] ∧ w'.Ok keccak256 := by
    simp only [w']
    split_ifs with hb
    · subst hb
      exact ⟨rfl, rfl, trivial⟩
    · exact ⟨rfl, rfl, hb, hlen.le⟩
  have hc : ∀ a, t.inFlight.count a = s.inFlight.count a := fun a => by
    have := count_inFlight_of_worker (t := t) hw rfl rfl rfl a
    rw [hnew.1] at this
    exact Nat.add_right_cancel this
  refine ⟨hinv.toTracked.of_count_eq hc rfl rfl rfl fun hr he x hm => ?_,
    forall_workers_update hw hinv.workers_ok hnew.2.2, hinv.idle_of_closed, fun _ _ _ => ⟨hcl, hq⟩⟩
  rw [writing_of_worker (t := t) hw rfl hnew.2.1]
  exact hinv.marked hr he x hm

theorem SyncInv.of_failed {t : CodeSyncer} (hinv : SyncInv keccak256 s) {pre post : List Worker}
    {w : Worker} {b : List Hash} (hs : s.workers = pre ++ w :: post) (ht : t.workers = pre ++ ⟨b, .failed⟩ :: post)
    (ha : t.adders = s.adders) (hq : t.queue = s.queue) (hc : t.closed = s.closed)
    (ho : t.outstanding = s.outstanding) (he : t.errored = true) : SyncInv keccak256 t := by
  refine ⟨hinv.toTracked.of_errored (fun a => ?_) ho he, ?_, ?_, ?_⟩
  · have := count_inFlight_of_worker hs ht ha hq a
    simp only [Worker.held, List.count_nil] at this
    omega
  · rw [ht]
    exact forall_workers_update hs hinv.workers_ok trivial
  · rw [hc, ha]
    exact hinv.idle_of_closed
  · rw [ht, hc, hq]
    exact forall_workers_update hs hinv.drained (fun hf => absurd hf id)

theorem SyncInv.fetched (hinv : SyncInv keccak256 s) {pre post : List Worker} {batch : List Hash}
    {final : Bool} {data : List UInt8} {codes : List (List UInt8)} {total : ℕ}
    (hw : s.workers = pre ++ ⟨batch, .fetching final⟩ :: post)
    (hp : parseCode keccak256 ⟨batch⟩ data = .ok (codes, total)) :
    SyncInv keccak256 { s with
      outstanding := s.outstanding.filter (fun h => h ∉ batch)
      workers := pre ++ ⟨batch, .writing final codes⟩ :: post } := by
  set t : CodeSyncer :=
    { s with
      outstanding := s.outstanding.filter (fun h => h ∉ batch)
      workers := pre ++ ⟨batch, .writing final codes⟩ :: post }
  have hmem : (⟨batch, .fetching final⟩ : Worker) ∈ s.workers := by
    rw [hw]
    simp
  have hc : ∀ a, t.inFlight.count a + batch.count a = s.inFlight.count a := fun a => by
    have := count_inFlight_of_worker (t := t) hw rfl rfl rfl a
    simpa [Worker.held] using this
  have hwrite : ∀ h, h ∈ t.writing ↔ h ∈ batch ∨ h ∈ s.writing := fun h => by
    rw [CodeSyncer.writing, CodeSyncer.writing, hw, mem_flatMap_split, mem_flatMap_split]
    simp [Worker.writingBatch]
  have hfree : ∀ h, 0 < t.inFlight.count h → h ∉ batch := fun h hh hb => by
    have := List.nodup_iff_count_le_one.mp hinv.nodup h
    have := List.count_pos_iff.mpr hb
    have := hc h
    omega
  refine ⟨⟨nodup_of_count_le (fun a => by have := hc a; omega) hinv.nodup, fun h hh => ?_,
    fun hr he h hm => ?_, fun hr he h hh => ?_⟩, forall_workers_update hw hinv.workers_ok
    (forall₂_of_parseCode_eq_ok hp), hinv.idle_of_closed,
    forall_workers_update hw hinv.drained fun hf => hinv.drained _ hmem hf⟩
  · refine List.mem_filter.mpr ⟨?_, decide_eq_true (hfree h (List.count_pos_iff.mpr hh))⟩
    exact hinv.outstanding_of_inFlight h (mem_of_count_le (fun a => by have := hc a; omega) hh)
  · rcases hinv.marked hr he h hm with ho | hwr
    · by_cases hb : h ∈ batch
      · exact .inr ((hwrite h).mpr (.inl hb))
      · exact .inl (List.mem_filter.mpr ⟨ho, decide_eq_true hb⟩)
    · exact .inr ((hwrite h).mpr (.inr hwr))
  · obtain ⟨ho, hb⟩ := List.mem_filter.mp hh
    have hpos := List.count_pos_iff.mpr (hinv.inFlight_of_outstanding hr he h ho)
    have hzero := List.count_eq_zero.mpr (of_decide_eq_true hb)
    have := hc h
    exact List.count_pos_iff.mp (by omega)

theorem SyncInv.written (hinv : SyncInv keccak256 s) {pre post : List Worker} {batch : List Hash}
    {final : Bool} {codes : List (List UInt8)} (hw : s.workers = pre ++ ⟨batch, .writing final codes⟩ :: post) :
    SyncInv keccak256 { s with
      code := writeCodes s.code (batch.zip codes)
      marker := fun h => s.marker h && decide (h ∉ batch)
      workers := pre ++ ⟨[], if final then .exited else .receiving⟩ :: post } := by
  set w' : Worker := ⟨[], if final then .exited else .receiving⟩
  set t : CodeSyncer :=
    { s with
      code := writeCodes s.code (batch.zip codes)
      marker := fun h => s.marker h && decide (h ∉ batch)
      workers := pre ++ w' :: post }
  have hmem : (⟨batch, .writing final codes⟩ : Worker) ∈ s.workers := by
    rw [hw]
    simp
  have hnew : w'.held = [] ∧ w'.writingBatch = [] ∧ w'.Ok keccak256 ∧ (w'.Final → final = true) := by
    cases final
    · exact ⟨rfl, rfl, by simp [w', Worker.Ok, maxCodeHashesPerRequest], by simp [w', Worker.Final]⟩
    · exact ⟨rfl, rfl, trivial, fun _ => rfl⟩
  have hc : ∀ a, t.inFlight.count a = s.inFlight.count a := fun a => by
    have := count_inFlight_of_worker (t := t) hw rfl rfl rfl a
    rw [hnew.1] at this
    simpa [Worker.held] using this
  have hwrite : ∀ h, h ∈ s.writing → h ∉ batch → h ∈ t.writing := fun h hh hb => by
    rw [CodeSyncer.writing, hw, mem_flatMap_split] at hh
    rw [CodeSyncer.writing, mem_flatMap_split, hnew.2.1]
    exact .inr (hh.resolve_left hb)
  refine ⟨hinv.toTracked.of_count_eq hc rfl rfl rfl fun hr he h hm => ?_,
    forall_workers_update hw hinv.workers_ok hnew.2.2.1, hinv.idle_of_closed,
    forall_workers_update hw hinv.drained fun hf => hinv.drained _ hmem (hnew.2.2.2 hf)⟩
  obtain ⟨hm, hb⟩ := Bool.and_eq_true_iff.mp hm
  rcases hinv.marked hr he h hm with ho | hwr
  · exact .inl ho
  · exact .inr (hwrite h hwr (of_decide_eq_true hb))

theorem SyncInv.crash (s : CodeSyncer) :
    SyncInv keccak256 { s with
      outstanding := [], queue := [], closed := false, done := false, adders := [], workers := []
      running := false } :=
  ⟨⟨by simp [CodeSyncer.inFlight], fun _ hh => by simp [CodeSyncer.inFlight] at hh, fun hr => absurd hr (by simp),
    fun hr => absurd hr (by simp)⟩, fun _ hw => absurd hw (by simp), fun hc => absurd hc (by simp),
    fun _ hw => absurd hw (by simp)⟩

theorem inFlight_restarted (numWorkers : ℕ) (s : CodeSyncer) (hashes : List Hash) :
    (restarted numWorkers s hashes).inFlight = (selectCode s.stored [] (hashes.filter fun h => !s.stored h)).1 := by
  simp [restarted, CodeSyncer.inFlight, Worker.held]

theorem SyncInv.restarted (numWorkers : ℕ) (s : CodeSyncer) (hashes : List Hash)
    (henum : ∀ h, h ∈ hashes ↔ s.marker h = true) : SyncInv keccak256 (restarted numWorkers s hashes) := by
  have hout := snd_selectCode s.stored [] (hashes.filter fun h => !s.stored h)
  rw [List.nil_append] at hout
  have hin := inFlight_restarted numWorkers s hashes
  refine ⟨⟨?_, fun h hh => ?_, fun _ _ h hm => ?_, fun _ _ h hh => ?_⟩, fun w hw => ?_,
    fun hc => absurd hc (by simp [LuxEvm.Sync.restarted]), fun w hw hf => ?_⟩
  · rw [hin]
    exact nodup_selectCode _ _ _
  · rw [hin] at hh
    simp only [LuxEvm.Sync.restarted, hout, hh]
  · -- a marker of code not stored was read by the iterator and selected
    simp only [LuxEvm.Sync.restarted, Bool.and_eq_true, Bool.not_eq_true'] at hm
    have hsel := @mem_selectCode s.stored [] (hashes.filter fun h => !s.stored h) h
      (List.mem_filter.mpr ⟨(henum h).mpr hm.1, by simp [hm.2]⟩)
    exact .inl (hsel.resolve_right (by simp [hm.2]))
  · rw [hin]
    simpa only [LuxEvm.Sync.restarted, hout] using hh
  · simp only [LuxEvm.Sync.restarted, List.mem_replicate] at hw
    rw [hw.2]
    simp [Worker.Ok, maxCodeHashesPerRequest]
  · simp only [LuxEvm.Sync.restarted, List.mem_replicate] at hw
    rw [hw.2] at hf
    exact absurd hf id

theorem SyncInv.init (code : Hash → Option (List UInt8)) (marker : Hash → Bool) :
    SyncInv keccak256 (initialSyncer code marker) :=
  ⟨⟨by simp [initialSyncer, CodeSyncer.inFlight], fun _ hh => by simp [initialSyncer, CodeSyncer.inFlight] at hh,
    fun hr => absurd hr (by simp [initialSyncer]), fun hr => absurd hr (by simp [initialSyncer])⟩,
    fun _ hw => absurd hw (by simp [initialSyncer]), fun hc => absurd hc (by simp [initialSyncer]),
    fun _ hw => absurd hw (by simp [initialSyncer])⟩

variable {numWorkers : ℕ}

theorem SyncInv.step {t : CodeSyncer} (hinv : SyncInv keccak256 s) (hstep : Step numWorkers keccak256 s t) :
    SyncInv keccak256 t := by
  cases hstep with
  | addLock hashes _ hopen => exact hinv.addLock hashes hopen
  | addMark ha => exact hinv.addMark ha
  | addMarkFailed ha => exact hinv.of_adder_failed ha rfl rfl rfl rfl rfl rfl
  | addSend ha => exact hinv.addSend ha
  | addGiveUp ha _ => exact hinv.of_adder_failed ha rfl rfl rfl rfl rfl rfl
  | addReturn ha => exact hinv.addReturn ha
  | close _ hopen hidle => exact hinv.close hopen hidle
  | cancel => exact hinv.cancel
  | recv hw hq => exact hinv.recv hw hq
  | recvClosed hw hc hq => exact hinv.recvClosed hw hc hq
  | recvDone hw _ => exact hinv.of_failed hw rfl rfl rfl rfl rfl rfl
  | fetched hw hp => exact hinv.fetched hw hp
  | fetchFailed hw => exact hinv.of_failed hw rfl rfl rfl rfl rfl rfl
  | written hw => exact hinv.written hw
  | writeFailed hw => exact hinv.of_failed hw rfl rfl rfl rfl rfl rfl
  | crash => exact SyncInv.crash s
  | restart hashes _ henum => exact SyncInv.restarted numWorkers s hashes henum

theorem SyncInv.reachable {code₀ : Hash → Option (List UInt8)} {marker₀ : Hash → Bool}
    (h : Reachable numWorkers keccak256 code₀ marker₀ s) : SyncInv keccak256 s := by
  induction h with
  | init => exact SyncInv.init code₀ marker₀
  | step _ hstep ih => exact ih.step hstep

theorem SyncInv.marker_eq_false (hinv : SyncInv keccak256 s) (hne : s.workers ≠ [])
    (hsucc : s.succeeded = true) (h : Hash) : s.marker h = false := by
  simp only [CodeSyncer.succeeded, Bool.and_eq_true, Bool.not_eq_true', List.all_eq_true,
    beq_iff_eq] at hsucc
  obtain ⟨⟨hrun, herr⟩, hexit⟩ := hsucc
  obtain ⟨w, hw⟩ := List.exists_mem_of_ne_nil _ hne
  have hfin : w.Final := by
    rw [Worker.Final, hexit w hw]
    trivial
  obtain ⟨hcl, hq⟩ := hinv.drained w hw hfin
  have hidle := hinv.idle_of_closed hcl
  have hheld : s.workers.flatMap Worker.held = [] :=
    List.flatMap_eq_nil_iff.mpr fun v hv => by rw [Worker.held, hexit v hv]
  have hwriting : s.writing = [] :=
    List.flatMap_eq_nil_iff.mpr fun v hv => by rw [Worker.writingBatch, hexit v hv]
  have hflight : s.inFlight = [] := by
    rw [CodeSyncer.inFlight, hidle, hq, hheld]
    rfl
  by_contra hm
  rcases hinv.marked hrun herr h (Bool.not_eq_false _ ▸ hm) with ho | hwr
  · have := hinv.inFlight_of_outstanding hrun herr h ho
    rw [hflight] at this
    exact absurd this List.not_mem_nil
  · rw [hwriting] at hwr
    exact absurd hwr List.not_mem_nil

end Inv

/-! ## The database across steps and crashes -/

theorem writeCodes_isSome {code : Hash → Option (List UInt8)} {pairs : List (Hash × List UInt8)} {h : Hash}
    (hh : (code h).isSome = true ∨ h ∈ pairs.map Prod.fst) : (writeCodes code pairs h).isSome = true := by
  induction pairs generalizing code with
  | nil => simpa [writeCodes] using hh
  | cons p rest ih =>
    obtain ⟨x, c⟩ := p
    rw [writeCodes]
    refine ih ?_
    by_cases hx : h = x
    · subst hx
      simp
    · rw [Function.update_of_ne hx]
      simpa [hx] using hh

theorem writeCodes_eq_some {code : Hash → Option (List UInt8)} {pairs : List (Hash × List UInt8)} {h : Hash}
    {c : List UInt8} (hw : writeCodes code pairs h = some c) : code h = some c ∨ (h, c) ∈ pairs := by
  induction pairs generalizing code with
  | nil => exact .inl hw
  | cons p rest ih =>
    obtain ⟨x, d⟩ := p
    rw [writeCodes] at hw
    rcases ih hw with hu | hmem
    · by_cases hx : h = x
      · subst hx
        rw [Function.update_self, Option.some.injEq] at hu
        subst hu
        exact .inr List.mem_cons_self
      · rw [Function.update_of_ne hx] at hu
        exact .inl hu
    · exact .inr (List.mem_cons_of_mem _ hmem)

section Database

variable {numWorkers : ℕ} {keccak256 : List UInt8 → Hash} {s t : CodeSyncer}

theorem SyncInv.markedOrStored_step (hinv : SyncInv keccak256 s) (hstep : Step numWorkers keccak256 s t)
    {h : Hash} (hh : s.marker h = true ∨ s.stored h = true) : t.marker h = true ∨ t.stored h = true := by
  cases hstep
  case addMark =>
    rcases hh with hm | hst
    · exact .inl (by simp [hm])
    · exact .inr hst
  case written pre post batch final codes hw =>
    have hlen : codes.length = batch.length := by
      have := hinv.workers_ok ⟨batch, .writing final codes⟩ (by rw [hw]; simp)
      exact List.Forall₂.length_eq this
    by_cases hb : h ∈ batch
    · refine .inr (writeCodes_isSome (.inr ?_))
      rwa [List.map_fst_zip (by omega)]
    · rcases hh with hm | hst
      · exact .inl (by simp [hm, hb])
      · exact .inr (writeCodes_isSome (.inl hst))
  case restart =>
    by_cases hst : s.stored h = true
    · exact .inr hst
    · exact .inl (by simpa [LuxEvm.Sync.restarted, hst] using hh)
  all_goals exact hh

theorem SyncInv.code_step (hinv : SyncInv keccak256 s) (hstep : Step numWorkers keccak256 s t) {h : Hash}
    {c : List UInt8} (hc : t.code h = some c) :
    s.code h = some c ∨ (keccak256 c = h ∧ c.length ≤ maxCodeSize) := by
  cases hstep
  case written pre post batch final codes hw =>
    rcases writeCodes_eq_some hc with hold | hmem
    · exact .inl hold
    · have hok : List.Forall₂ (fun hash code => code.length ≤ maxCodeSize ∧ keccak256 code = hash) batch codes :=
        (hinv.workers_ok ⟨batch, .writing final codes⟩ (by rw [hw]; simp)).flip
      obtain ⟨hle, hk⟩ := (List.forall₂_iff_zip.mp hok).2 hmem
      exact .inr ⟨hk, hle⟩
  case restart =>
    exact .inl hc
  all_goals exact .inl hc

end Database


/-! ## Over every run -/

section Runs

variable {numWorkers : ℕ} {keccak256 : List UInt8 → Hash} {code₀ : Hash → Option (List UInt8)}
  {marker₀ : Hash → Bool} {s t : CodeSyncer}

theorem Reachable.run (hs : Reachable numWorkers keccak256 code₀ marker₀ s)
    (hrun : Relation.ReflTransGen (Step numWorkers keccak256) s t) : Reachable numWorkers keccak256 code₀ marker₀ t :=
  Lib.StateRel.reflTransGen_keeps _ (fun _ _ huv hu => hu.step huv) hrun hs

theorem Reachable.length_workers (hs : Reachable numWorkers keccak256 code₀ marker₀ s)
    (hrun : s.running = true) : s.workers.length = numWorkers := by
  induction hs with
  | init => cases hrun
  | step hu hstep ih =>
    -- a worker step replaces one worker; only `crash` and `start` change the list
    cases hstep with
    | crash => cases hrun
    | restart => simp [restarted]
    | recv hw | recvClosed hw | recvDone hw | fetched hw | fetchFailed hw | written hw | writeFailed hw =>
      have h := ih hrun
      rw [hw] at h
      simpa using h
    | _ => exact ih hrun

/-- Every batch a worker sends to `GetCode` is between one and
`MaxCodeHashesPerRequest` hashes with none twice, as `fulfillCodeRequest`
expects and `OnCodeRequest` checks. -/
theorem fetching_batch_ok (hs : Reachable numWorkers keccak256 code₀ marker₀ s) {w : Worker}
    (hw : w ∈ s.workers) {final : Bool} (hf : w.phase = .fetching final) :
    w.batch ≠ [] ∧ w.batch.length ≤ maxCodeHashesPerRequest ∧ isUnique w.batch = true := by
  have hinv := SyncInv.reachable hs
  have hok := hinv.workers_ok w hw
  rw [Worker.Ok, hf] at hok
  have hheld : w.held = w.batch := by rw [Worker.held, hf]
  have hnd : w.batch.Nodup := hheld ▸ nodup_of_count_le (count_held_le hw) hinv.nodup
  exact ⟨hok.1, hok.2, (isUnique_iff _).mpr hnd⟩

/-- A hash whose code is marked to fetch or stored stays so through every run
from a reachable state, crashes and restarts included. -/
theorem marked_or_stored_persists (hs : Reachable numWorkers keccak256 code₀ marker₀ s)
    (hrun : Relation.ReflTransGen (Step numWorkers keccak256) s t) {h : Hash}
    (hh : s.marker h = true ∨ s.stored h = true) : t.marker h = true ∨ t.stored h = true := by
  refine (Lib.StateRel.reflTransGen_keeps
    (fun u => Reachable numWorkers keccak256 code₀ marker₀ u ∧ (u.marker h = true ∨ u.stored h = true))
    ?_ hrun ⟨hs, hh⟩).2
  rintro u v huv ⟨hu, hmu⟩
  exact ⟨hu.step huv, (SyncInv.reachable hu).markedOrStored_step huv hmu⟩

/-- A run that ends without error has stored the code of every hash marked at
any point before, even with crashes in between. -/
theorem stored_of_succeeded (hworkers : 0 < numWorkers) (hs : Reachable numWorkers keccak256 code₀ marker₀ s)
    (hrun : Relation.ReflTransGen (Step numWorkers keccak256) s t) {h : Hash} (hm : s.marker h = true)
    (hsucc : t.succeeded = true) : t.stored h = true := by
  have hpersist := (Lib.StateRel.reflTransGen_keeps
    (fun u => Reachable numWorkers keccak256 code₀ marker₀ u ∧ (u.marker h = true ∨ u.stored h = true))
    (fun u v huv ⟨hu, hmu⟩ => ⟨hu.step huv, (SyncInv.reachable hu).markedOrStored_step huv hmu⟩)
    hrun ⟨hs, .inl hm⟩)
  obtain ⟨ht, hmt⟩ := hpersist
  rcases hmt with hmt | hst
  · -- a running syncer has its workers, and all of them exited
    have hrun' : t.running = true := by
      simp only [CodeSyncer.succeeded, Bool.and_eq_true] at hsucc
      exact hsucc.1.1
    have hne : t.workers ≠ [] := List.ne_nil_of_length_pos (by rw [ht.length_workers hrun']; exact hworkers)
    rw [(SyncInv.reachable ht).marker_eq_false hne hsucc h] at hmt
    exact absurd hmt (by simp)
  · exact hst

/-- Every code in the database was there at the start, or hashes to its key
and is within `MaxCodeSize`. -/
theorem code_verified (hs : Reachable numWorkers keccak256 code₀ marker₀ s) {h : Hash} {c : List UInt8}
    (hc : s.code h = some c) : code₀ h = some c ∨ (keccak256 c = h ∧ c.length ≤ maxCodeSize) := by
  induction hs generalizing c with
  | init => exact .inl hc
  | step hu huv ih =>
    rcases (SyncInv.reachable hu).code_step huv hc with hold | hnew
    · exact ih hold
    · exact .inr hnew

end Runs

/-! ## A run -/

/-- A database that marks the code of hash `1` to fetch and stores no code. -/
def sampleMarker (h : Hash) : Bool := decide (h = 1)

/-- The answer to a request for the code of hash `1`. -/
def sampleCodeOne : List UInt8 := encode 2 0 ++ encodeValue (.codeResponse ⟨[[7]]⟩)

theorem sampleRun :
    ∃ s t : CodeSyncer, Reachable 1 sampleKeccak (fun _ => none) sampleMarker s ∧
      Relation.ReflTransGen (Step 1 sampleKeccak) s t ∧ (⟨[1], .fetching true⟩ : Worker) ∈ s.workers ∧
      s.marker 1 = true ∧ t.succeeded = true ∧ t.code 1 = some [7] := by
  have h0 : Reachable 1 sampleKeccak (fun _ => none) sampleMarker (initialSyncer (fun _ => none) sampleMarker) :=
    .init
  have h1 := h0.step (.restart [1] rfl fun h => by simp [initialSyncer, sampleMarker])
  have h2 := h1.step (@Step.addMark 1 sampleKeccak _ [] [] [1] rfl)
  have h3 := h2.step (@Step.addSend 1 sampleKeccak _ [] [] 1 [] rfl)
  have h4 := h3.step (@Step.addReturn 1 sampleKeccak _ [] [] rfl)
  have h5 := h4.step (@Step.close 1 sampleKeccak _ rfl rfl rfl)
  have h6 := h5.step (@Step.recv 1 sampleKeccak _ [] [] [] 1 [] rfl rfl)
  have h7 := h6.step (@Step.recvClosed 1 sampleKeccak _ [] [] [1] rfl rfl rfl)
  have hp : parseCode sampleKeccak ⟨[1]⟩ sampleCodeOne = .ok ([[7]], 1) := by rfl
  refine ⟨_, _, h7, .tail (.single (@Step.fetched 1 sampleKeccak _ [] [] [1] true _ _ _ rfl hp))
    (@Step.written 1 sampleKeccak _ [] [] [1] true [[7]] rfl), by decide, by decide, by decide, by decide⟩

theorem fetching_batch_ok_sample :
    ∃ s : CodeSyncer, Reachable 1 sampleKeccak (fun _ => none) sampleMarker s ∧
      (⟨[1], .fetching true⟩ : Worker) ∈ s.workers ∧
      ([1] : List Hash) ≠ [] ∧ [(1 : Hash)].length ≤ maxCodeHashesPerRequest ∧ isUnique [(1 : Hash)] = true := by
  obtain ⟨s, _, hs, _, hw, _⟩ := sampleRun
  exact ⟨s, hs, hw, fetching_batch_ok hs hw rfl⟩

theorem marked_or_stored_persists_sample :
    ∃ s t : CodeSyncer, Reachable 1 sampleKeccak (fun _ => none) sampleMarker s ∧
      Relation.ReflTransGen (Step 1 sampleKeccak) s t ∧ s.marker 1 = true ∧
      (t.marker 1 = true ∨ t.stored 1 = true) := by
  obtain ⟨s, t, hs, hrun, _, hm, _⟩ := sampleRun
  exact ⟨s, t, hs, hrun, hm, marked_or_stored_persists hs hrun (.inl hm)⟩

theorem stored_of_succeeded_sample :
    ∃ s t : CodeSyncer, Reachable 1 sampleKeccak (fun _ => none) sampleMarker s ∧
      Relation.ReflTransGen (Step 1 sampleKeccak) s t ∧ s.marker 1 = true ∧ t.succeeded = true ∧
      t.stored 1 = true := by
  obtain ⟨s, t, hs, hrun, _, hm, hsucc, _⟩ := sampleRun
  exact ⟨s, t, hs, hrun, hm, hsucc, stored_of_succeeded (by decide) hs hrun hm hsucc⟩

theorem code_verified_sample :
    ∃ t : CodeSyncer, Reachable 1 sampleKeccak (fun _ => none) sampleMarker t ∧ t.code 1 = some [7] ∧
      ((fun _ => none : Hash → Option (List UInt8)) 1 = some [7] ∨
        (sampleKeccak [7] = 1 ∧ [(7 : UInt8)].length ≤ maxCodeSize)) := by
  obtain ⟨s, t, hs, hrun, _, _, _, hc⟩ := sampleRun
  exact ⟨t, hs.run hrun, hc, code_verified (hs.run hrun) hc⟩

end LuxEvm.Sync
