import LuxEvm.Plugin.DexAtomic

/-!
# Exactly once, across crashes

Between events the uncommitted layer is empty, the committed marker is the
staged sequence number of the last committed accepted block, and shared
memory holds each operation below it once. An accept touches committed
state in one effect, so a crash leaves either the state before the accept
or the state after that effect, and both keep the invariant.
-/

set_option autoImplicit false

namespace LuxEvm.Plugin

open LuxEvm.FeeWindow

def Effect.pendingOnly : Effect → Bool
  | .put _ _ => true
  | .abort => true
  | _ => false

theorem runEffects_append (node : Node) (l₁ l₂ : List Effect) :
    runEffects node (l₁ ++ l₂) = runEffects (runEffects node l₁) l₂ :=
  List.foldl_append

theorem runEffects_append_abort (node : Node) (l : List Effect) :
    runEffects node (l ++ [.abort]) = crash (runEffects node l) := by
  rw [runEffects_append]
  rfl

theorem crash_runEffects_of_pendingOnly (node : Node) (l : List Effect)
    (h : ∀ e ∈ l, e.pendingOnly) : crash (runEffects node l) = crash node := by
  induction l generalizing node with
  | nil => rfl
  | cons e l ih =>
    rw [runEffects, List.foldl_cons, ← runEffects, ih _ fun e' he' => h e' (List.mem_cons_of_mem e he')]
    cases e with
    | put k v => rfl
    | abort => rfl
    | commit => simp [Effect.pendingOnly] at h
    | apply reqs => simp [Effect.pendingOnly] at h

theorem crash_of_clean {node : Node} (h : node.db.Clean) : crash node = node := by
  obtain ⟨⟨committed, pending⟩, sharedMemory⟩ := node
  have hp : pending = fun _ => none := funext h
  subst hp
  rfl

theorem crash_take (node : Node) (pre post : List Effect) (c : Effect)
    (hpre : ∀ e ∈ pre, e.pendingOnly) (hpost : ∀ e ∈ post, e.pendingOnly) (j : ℕ) :
    crash (runEffects node ((pre ++ c :: post).take j)) = crash node ∨
      crash (runEffects node ((pre ++ c :: post).take j)) = crash (runEffects node (pre ++ [c])) := by
  rw [List.take_append]
  by_cases hj : j ≤ pre.length
  · left
    rw [Nat.sub_eq_zero_of_le hj, List.take_zero, List.append_nil]
    exact crash_runEffects_of_pendingOnly node _ fun e he => hpre e (List.mem_of_mem_take he)
  · right
    obtain ⟨i, hi⟩ : ∃ i, j-pre.length = i+1 := ⟨j-pre.length-1, by omega⟩
    rw [List.take_of_length_le (by omega), hi, List.take_succ_cons, ← List.singleton_append,
      ← List.append_assoc, runEffects_append]
    exact crash_runEffects_of_pendingOnly _ _ fun e he => hpost e (List.mem_of_mem_take he)

theorem range_add_range' {a b : ℕ} (h : a ≤ b) :
    Multiset.range a + ↑(List.range' a (b-a)) = Multiset.range b := by
  rw [List.range'_eq_map_range, ← Multiset.map_coe, Multiset.coe_range, ← Multiset.range_add,
    Nat.add_sub_cancel' h]

/-! ## The invariant -/

structure DexInv (chain : StagedChain) (node : Node) (k : ℕ) : Prop where
  clean : node.db.Clean
  lastAccepted : lastAcceptedID chain node.db = chain.blockId k
  marker : readDexAtomicMarker node.db = chain.stagedSeq k
  applied : node.sharedMemory = Multiset.range (chain.stagedSeq k).toNat

theorem DexInv.genesis (chain : StagedChain) : DexInv chain genesisNode 0 where
  clean _ := rfl
  lastAccepted := rfl
  marker := by
    rw [chain.stagedSeq_zero]
    rfl
  applied := by
    rw [chain.stagedSeq_zero]
    rfl

section Accept

variable {chain : StagedChain} {node : Node} {k : ℕ}

theorem windowStart_eq (hinv : DexInv chain node k) (attempt : Attempt) :
    windowStart chain node.db attempt (k+1) = chain.stagedSeq k := by
  unfold windowStart
  cases attempt.parentStateAvailable <;> simp [hinv.marker]

/-- **What an accept does.** Of the child of the last committed accepted
block, an accept only touches the uncommitted layer, or commits the new last
accepted block over an empty window, or applies the window together with the
advanced marker. -/
theorem accept_shapes (hinv : DexInv chain node k) {attempt : Attempt}
    (hwired : attempt.sharedMemoryWired = true) :
    (∀ e ∈ (accept chain node attempt (k+1)).1, e.pendingOnly) ∨
    ((accept chain node attempt (k+1)).1 =
        [.put .lastAccepted (chain.blockId (k+1)), .commit, .abort] ∧
      chain.stagedSeq (k+1) = chain.stagedSeq k) ∨
    ((accept chain node attempt (k+1)).1 =
        [.put .dexAtomicSeq (putUint64 (chain.stagedSeq (k+1))),
          .put .lastAccepted (chain.blockId (k+1)),
          .apply (collectStagedAtomicRange (chain.stagedSeq k) (chain.stagedSeq (k+1))), .abort, .abort] ∧
      (chain.stagedSeq k).toNat < (chain.stagedSeq (k+1)).toNat) := by
  have hmono := chain.stagedSeq_mono k
  unfold accept
  cases hacc : attempt.chainAccepted
  · left
    simp [Effect.pendingOnly]
  simp only [Bool.not_true, Bool.false_eq_true, if_false]
  unfold stageDexAtomic
  simp only [hwired, Bool.not_true, Bool.false_eq_true, if_false, windowStart_eq hinv]
  cases hstate : attempt.acceptedStateAvailable
  · left
    simp [Effect.pendingOnly]
  simp only [Bool.not_true, Bool.false_eq_true, if_false]
  have hnlt : ¬chain.stagedSeq (k+1) < chain.stagedSeq k := by
    rw [UInt64.lt_iff_toNat_lt]
    omega
  rw [if_neg hnlt]
  by_cases heq : chain.stagedSeq (k+1) = chain.stagedSeq k
  · -- an empty window: the new last accepted block is committed alone
    right
    left
    simp [heq]
  · have hlt : (chain.stagedSeq k).toNat < (chain.stagedSeq (k+1)).toNat := by
      have := mt UInt64.toNat_inj.mp heq
      omega
    have hreqs : collectStagedAtomicRange (chain.stagedSeq k) (chain.stagedSeq (k+1)) ≠ [] := by
      simp [collectStagedAtomicRange]
      omega
    rw [if_neg heq]
    dsimp only
    rw [if_pos hreqs]
    cases happly : attempt.applySucceeds
    · left
      simp [Effect.pendingOnly]
    · right
      right
      exact ⟨rfl, hlt⟩

theorem crash_accept (hinv : DexInv chain node k) {attempt : Attempt}
    (hwired : attempt.sharedMemoryWired = true) (j : ℕ) :
    DexInv chain (crash (runEffects node ((accept chain node attempt (k+1)).1.take j))) k ∨
      DexInv chain (crash (runEffects node ((accept chain node attempt (k+1)).1.take j))) (k+1) := by
  rcases accept_shapes hinv hwired with hpending | ⟨heff, hseq⟩ | ⟨heff, hlt⟩
  · left
    rw [crash_runEffects_of_pendingOnly _ _ fun e he => hpending e (List.mem_of_mem_take he),
      crash_of_clean hinv.clean]
    exact hinv
  · rw [heff]
    rcases crash_take node [.put .lastAccepted (chain.blockId (k+1))] [.abort] .commit
        (by simp [Effect.pendingOnly]) (by simp [Effect.pendingOnly]) j with h | h
    · left
      rw [List.singleton_append] at h
      rw [h, crash_of_clean hinv.clean]
      exact hinv
    · right
      rw [List.singleton_append] at h
      rw [h]
      constructor
      · exact Lib.VersionDB.clean_abort _
      · simp [runEffects, Effect.run, crash, lastAcceptedID, Lib.VersionDB.commit,
          Lib.VersionDB.writeBatch, Lib.VersionDB.put, hinv.clean _]
      · rw [hseq, ← hinv.marker]
        simp [runEffects, Effect.run, crash, readDexAtomicMarker, Lib.VersionDB.get,
          Lib.VersionDB.commit, Lib.VersionDB.writeBatch, Lib.VersionDB.put, Lib.VersionDB.abort,
          hinv.clean _]
      · rw [hseq, ← hinv.applied]
        rfl
  · rw [heff]
    rcases crash_take node [.put .dexAtomicSeq (putUint64 (chain.stagedSeq (k+1))),
        .put .lastAccepted (chain.blockId (k+1))] [.abort, .abort]
        (.apply (collectStagedAtomicRange (chain.stagedSeq k) (chain.stagedSeq (k+1))))
        (by simp [Effect.pendingOnly]) (by simp [Effect.pendingOnly]) j with h | h
    · left
      simp only [List.cons_append, List.nil_append] at h
      rw [h, crash_of_clean hinv.clean]
      exact hinv
    · right
      simp only [List.cons_append, List.nil_append] at h
      rw [h]
      constructor
      · exact Lib.VersionDB.clean_abort _
      · simp [runEffects, Effect.run, crash, lastAcceptedID, Lib.VersionDB.writeBatch,
          Lib.VersionDB.put]
      · have hbytes : uint64 (putUint64 (chain.stagedSeq (k+1))) = chain.stagedSeq (k+1) := by
          simpa using uint64_putUint64_append (chain.stagedSeq (k+1)) []
        simp [runEffects, Effect.run, crash, readDexAtomicMarker, Lib.VersionDB.get,
          Lib.VersionDB.writeBatch, Lib.VersionDB.put, Lib.VersionDB.abort, hbytes, LongLen]
      · simp only [runEffects, Effect.run, List.foldl_cons, List.foldl_nil, crash, hinv.applied,
          collectStagedAtomicRange]
        exact range_add_range' hlt.le

end Accept

theorem accept_effects_last (chain : StagedChain) (node : Node) (attempt : Attempt) (h : ℕ) :
    ∃ l, (accept chain node attempt h).1 = l ++ [.abort] := by
  unfold accept
  split
  · exact ⟨[], rfl⟩
  · split
    · exact ⟨[], rfl⟩
    · rename_i staged reqs _
      dsimp only
      split
      · split
        · exact ⟨staged ++ [.put .lastAccepted (chain.blockId h), .apply reqs, .abort], by simp⟩
        · exact ⟨staged ++ [.put .lastAccepted (chain.blockId h)], by simp⟩
      · exact ⟨staged ++ [.put .lastAccepted (chain.blockId h), .commit], by simp⟩

theorem Event.run_eq_crash (chain : StagedChain) (node : Node) (e : Event) :
    ∃ j, e.run chain node = crash (runEffects node ((accept chain node e.attempt e.height).1.take j)) := by
  cases e with
  | acceptBlock h attempt =>
    obtain ⟨l, hl⟩ := accept_effects_last chain node attempt h
    refine ⟨l.length, ?_⟩
    simp only [Event.run, Event.attempt, Event.height, hl, runEffects_append_abort,
      List.take_left' rfl]
  | crashDuring h attempt j => exact ⟨j, rfl⟩

theorem DexInv.of_run {chain : StagedChain} {node : Node} {k : ℕ} (hinv : DexInv chain node k)
    (events : List Event) (hwired : ∀ e ∈ events, e.attempt.sharedMemoryWired = true)
    (hres : resumes chain node events = true) :
    ∃ k', DexInv chain (runEvents chain node events) k' := by
  induction events generalizing node k with
  | nil => exact ⟨k, hinv⟩
  | cons e events ih =>
    simp only [resumes, Bool.and_eq_true, decide_eq_true_eq] at hres
    obtain ⟨⟨hid, hh⟩, hrest⟩ := hres
    have hk : e.height = k+1 := by
      have := chain.blockId_injective (hinv.lastAccepted.symm.trans hid)
      omega
    obtain ⟨j, hj⟩ := Event.run_eq_crash chain node e
    have hwired_e := hwired e List.mem_cons_self
    have hnext := crash_accept hinv hwired_e j
    rw [← hk, ← hj] at hnext
    have hwired' : ∀ e' ∈ events, e'.attempt.sharedMemoryWired = true :=
      fun e' he' => hwired e' (List.mem_cons_of_mem e he')
    rcases hnext with hnext | hnext
    · exact ih hnext hwired' hrest
    · exact ih hnext hwired' hrest

/-- After every completed or crashed accept, the operations applied to
shared memory are exactly those below the staged sequence number of the last
committed accepted block, each once. -/
theorem dex_atomic_applied_exactly_once (chain : StagedChain) (events : List Event)
    (hwired : ∀ e ∈ events, e.attempt.sharedMemoryWired = true)
    (hres : resumes chain genesisNode events = true) :
    ∃ k, lastAcceptedID chain (runEvents chain genesisNode events).db = chain.blockId k ∧
      (runEvents chain genesisNode events).sharedMemory = Multiset.range (chain.stagedSeq k).toNat := by
  obtain ⟨k, hinv⟩ := (DexInv.genesis chain).of_run events hwired hres
  exact ⟨k, hinv.lastAccepted, hinv.applied⟩

def twoOpChain : StagedChain where
  blockId k := List.replicate k 1
  stagedSeq k := if k = 0 then 0 else 2
  blockId_injective := List.replicate_left_injective 1
  stagedSeq_zero := rfl
  stagedSeq_mono k := by
    cases k <;> simp

def wiredAttempt : Attempt := ⟨true, true, true, true, true⟩

/-- The first accept of block 1 crashes after staging its writes; block 1 is
accepted again, then block 2. -/
theorem dex_atomic_applied_exactly_once_after_crash :
    (∀ e ∈ [Event.crashDuring 1 wiredAttempt 2, .acceptBlock 1 wiredAttempt, .acceptBlock 2 wiredAttempt],
      e.attempt.sharedMemoryWired = true) ∧
    resumes twoOpChain genesisNode
      [.crashDuring 1 wiredAttempt 2, .acceptBlock 1 wiredAttempt, .acceptBlock 2 wiredAttempt] = true ∧
    ∃ k, lastAcceptedID twoOpChain (runEvents twoOpChain genesisNode
        [.crashDuring 1 wiredAttempt 2, .acceptBlock 1 wiredAttempt, .acceptBlock 2 wiredAttempt]).db =
        twoOpChain.blockId k ∧
      (runEvents twoOpChain genesisNode
        [.crashDuring 1 wiredAttempt 2, .acceptBlock 1 wiredAttempt, .acceptBlock 2 wiredAttempt]).sharedMemory =
        Multiset.range (twoOpChain.stagedSeq k).toNat :=
  ⟨by decide, by decide, dex_atomic_applied_exactly_once _ _ (by decide) (by decide)⟩

end LuxEvm.Plugin
