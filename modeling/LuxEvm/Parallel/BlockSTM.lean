import LuxEvm.Common

/-!
# Block-STM execution

`BlockSTMExecutor.ExecuteBlock` runs every transaction of a block on its own
copy of the input state, flags the transactions that conflict with an earlier
one, re-executes the flagged ones in order on one fresh copy of the input
state, and numbers the receipts' cumulative gas. The state is a value here, so
a copy is the value itself, and the statedb the caller passes in is the state
of a state monad.

The read and write sets are built from addresses: every transaction writes
the coinbase, so every transaction after the first is flagged. The
re-execution starts from the input state, without the first transaction's
effects, and nothing writes the caller's statedb.
-/

set_option autoImplicit false

namespace LuxEvm.Parallel

/-- A transaction, as far as Block-STM reads it; `recipient` is `To()`. -/
structure Tx where
  recipient : Option Address
  hash : Hash
  deriving DecidableEq, Repr

structure Header where
  coinbase : Address

/-- `types.Receipt`: the gas fields Block-STM reads and writes, and the rest
of the receipt, which it passes on. -/
structure Receipt (ρ : Type) where
  gasUsed : UInt64
  cumulativeGasUsed : UInt64
  data : ρ
  deriving DecidableEq, Repr

/-- `TxApplyFunc` for one block, whose chain config, header and VM config stay
fixed: the state after the transaction and its receipt, or an error. -/
abbrev TxApplyFunc (σ ε ρ : Type) := Tx → σ → ℕ → Except ε (σ × Receipt ρ)

/-- `txReadWriteSet`, as the slots its maps hold. -/
structure TxReadWriteSet where
  reads : List Hash
  writes : List Hash

/-- `buildRWSet`: the recipient is read and written, the coinbase written, and
a contract creation writes its transaction hash. -/
def buildRWSet (tx : Tx) (header : Header) : TxReadWriteSet :=
  let toSlots := match tx.recipient with
    | some recipient => [addressKey recipient]
    | none => []
  let creationSlots := match tx.recipient with
    | some _ => []
    | none => [tx.hash]
  ⟨toSlots, toSlots ++ [addressKey header.coinbase] ++ creationSlots⟩

/-! ## Conflict detection -/

/-- The loop state of `detectConflicts`. -/
structure ConflictScan where
  committedWrites : Hash → Option ℕ
  reExec : List Bool
  conflicts : ℕ

/-- Whether an earlier transaction wrote `slot`. -/
def writtenBefore (committedWrites : Hash → Option ℕ) (i : ℕ) (slot : Hash) : Bool :=
  match committedWrites slot with
  | some writerIdx => writerIdx < i
  | none => false

/-- One round of the loop of `detectConflicts`, for transaction `i`. -/
def conflictStep (scan : ConflictScan) (i : ℕ) (rwSet : TxReadWriteSet) (failed : Bool) :
    ConflictScan :=
  let flagged :=
    if failed then true
    else if rwSet.reads.any (writtenBefore scan.committedWrites i) then true
    else rwSet.writes.any (writtenBefore scan.committedWrites i)
  { committedWrites := fun slot => if slot ∈ rwSet.writes then some i else scan.committedWrites slot
    reExec := scan.reExec ++ [flagged]
    conflicts := scan.conflicts+if flagged then 1 else 0 }

/-- The loop of `detectConflicts` from transaction `i` on; `failed != nil &&
failed[i]` reads a missing flag, as of a nil `failed`, as false. -/
def conflictScan (failed : List Bool) : ConflictScan → ℕ → List TxReadWriteSet → ConflictScan
  | scan, _, [] => scan
  | scan, i, rwSet :: rest =>
    conflictScan failed (conflictStep scan i rwSet (failed.getD i false)) (i+1) rest

/-- `detectConflicts`: the re-execution mask and the conflict count. -/
def detectConflicts (rwSets : List TxReadWriteSet) (failed : List Bool) : List Bool × ℕ :=
  let scan := conflictScan failed ⟨fun _ => none, [], 0⟩ 0 rwSets
  (scan.reExec, scan.conflicts)

/-! ## Execution -/

/-- `txResult`: the receipt or the error, and the read and write set. -/
structure TxResult (ε ρ : Type) where
  result : Except ε (Receipt ρ)
  rwSet : TxReadWriteSet

inductive BlockSTMError (ε : Type) where
  | reExecFailed (index : ℕ) (e : ε)
  | txFailed (index : ℕ) (e : ε)
  deriving DecidableEq, Repr

section Execute
variable {σ ε ρ : Type} (applyFn : TxApplyFunc σ ε ρ) (header : Header)

/-- `executeOne`: the transaction on a copy of the base state, whose final
state is dropped. -/
def executeOne (tx : Tx) (baseState : σ) (txIndex : ℕ) : TxResult ε ρ :=
  ⟨(applyFn tx baseState txIndex).map (·.2), buildRWSet tx header⟩

def speculateAll (txs : List Tx) (statedb : σ) : List (TxResult ε ρ) :=
  txs.mapIdx fun i tx => executeOne applyFn header tx statedb i

/-- The re-execution loop of `validateAndReExecute`, from transaction `i` on. -/
def reExecLoop : σ → ℕ → List (Tx × Bool) → List (TxResult ε ρ) →
    Except (BlockSTMError ε) (List (TxResult ε ρ))
  | _, _, [], results => .ok results
  | seqState, i, (tx, flagged) :: rest, results =>
    if !flagged then reExecLoop seqState (i+1) rest results
    else
      match applyFn tx seqState i with
      | .error e => .error (.reExecFailed i e)
      | .ok (seqState, receipt) =>
        reExecLoop seqState (i+1) rest (results.set i ⟨.ok receipt, buildRWSet tx header⟩)

def validateAndReExecute (txs : List Tx) (statedb : σ) (results : List (TxResult ε ρ)) :
    Except (BlockSTMError ε) (List (TxResult ε ρ)) :=
  let conflicts := detectConflicts (results.map (·.rwSet))
    (results.map fun res => !res.result.isOk)
  if conflicts.2 = 0 then .ok results
  -- the flagged transactions run in order on one fresh copy of the input state
  else reExecLoop applyFn header statedb 0 (txs.zip conflicts.1) results

/-- The loop of `commitOrdered` from transaction `i` on, with the gas used so far. -/
def commitLoop : UInt64 → ℕ → List (TxResult ε ρ) → Except (BlockSTMError ε) (List (Receipt ρ))
  | _, _, [] => .ok []
  | cumulativeGas, i, res :: rest =>
    match res.result with
    | .error e => .error (.txFailed i e)
    | .ok receipt =>
      (commitLoop (cumulativeGas+receipt.gasUsed) (i+1) rest).map
        ({receipt with cumulativeGasUsed := cumulativeGas+receipt.gasUsed} :: ·)

def commitOrdered (results : List (TxResult ε ρ)) : Except (BlockSTMError ε) (List (Receipt ρ)) :=
  commitLoop 0 0 results

/-- `ExecuteBlock`, on the caller's statedb; `none` is the `(nil, nil)` that
sends the caller to sequential execution. -/
def executeBlock (txs : List Tx) :
    StateM σ (Option (Except (BlockSTMError ε) (List (Receipt ρ)))) := do
  if txs.length < 2 then return none
  let statedb ← get
  let results := speculateAll applyFn header txs statedb
  match validateAndReExecute applyFn header txs statedb results with
  | .error e => return some (.error e)
  | .ok results => return some (commitOrdered results)

end Execute

/-! ## Sequential execution -/

/-- The transactions applied one after another from transaction `i` on, each
receipt carrying the gas used up to and including it. -/
def applySequential {σ ε ρ : Type} (applyFn : TxApplyFunc σ ε ρ) :
    σ → ℕ → UInt64 → List Tx → Except ε (σ × List (Receipt ρ))
  | s, _, _, [] => .ok (s, [])
  | s, i, cumulativeGas, tx :: rest =>
    match applyFn tx s i with
    | .error e => .error e
    | .ok (s', receipt) =>
      (applySequential applyFn s' (i+1) (cumulativeGas+receipt.gasUsed) rest).map fun out =>
        (out.1, {receipt with cumulativeGasUsed := cumulativeGas+receipt.gasUsed} :: out.2)

/-! ## What Block-STM does to the statedb and the mask -/

section Facts
variable {σ ε ρ : Type} (applyFn : TxApplyFunc σ ε ρ) (header : Header)

/-- **The statedb.** `ExecuteBlock` only copies the caller's statedb and
never writes it. -/
theorem executeBlock_keeps_statedb (txs : List Tx) (statedb : σ) :
    ((executeBlock applyFn header txs).run statedb).2 = statedb := by
  unfold executeBlock
  by_cases h : txs.length < 2
  · simp only [h, if_true]
    rfl
  · simp only [h, if_false, StateT.run_bind, StateT.run_get, pure_bind]
    split <;> rfl

theorem conflictScan_reExec (failed : List Bool) (scan : ConflictScan) (i : ℕ)
    (l : List TxReadWriteSet) :
    ∃ flags, (conflictScan failed scan i l).reExec = scan.reExec ++ flags := by
  induction l generalizing scan i with
  | nil => exact ⟨[], by simp [conflictScan]⟩
  | cons rwSet l ih =>
    obtain ⟨flags, hflags⟩ := ih (conflictStep scan i rwSet (failed.getD i false)) (i+1)
    obtain ⟨flag, hflag⟩ : ∃ flag, (conflictStep scan i rwSet (failed.getD i false)).reExec =
        scan.reExec ++ [flag] := ⟨_, rfl⟩
    refine ⟨flag :: flags, ?_⟩
    rw [conflictScan, hflags, hflag]
    simp

theorem conflictScan_flags_shared_write (failed : List Bool) (slot : Hash) (scan : ConflictScan)
    (i : ℕ) (l : List TxReadWriteSet) (hl : ∀ rwSet ∈ l, slot ∈ rwSet.writes)
    (hscan : 0 < i → ∃ j < i, scan.committedWrites slot = some j) (k : ℕ) (hk : 0 < i+k)
    (hkl : k < l.length) :
    (conflictScan failed scan i l).reExec[scan.reExec.length+k]? = some true := by
  induction l generalizing scan i k with
  | nil => simp at hkl
  | cons rwSet l ih =>
    rw [conflictScan]
    have hslot : slot ∈ rwSet.writes := hl rwSet List.mem_cons_self
    cases k with
    | zero =>
      obtain ⟨j, hj, hw⟩ := hscan (by omega)
      have hflag : (conflictStep scan i rwSet (failed.getD i false)).reExec[scan.reExec.length]? =
          some true := by
        have hany : rwSet.writes.any (writtenBefore scan.committedWrites i) = true :=
          List.any_eq_true.mpr ⟨slot, hslot, by simp [writtenBefore, hw, hj]⟩
        simp only [conflictStep, hany]
        split_ifs <;> simp
      obtain ⟨flags, hflags⟩ :=
        conflictScan_reExec failed (conflictStep scan i rwSet (failed.getD i false)) (i+1) l
      rw [hflags, List.getElem?_append_left]
      · simpa using hflag
      · simp [conflictStep]
    | succ k =>
      have hlen : (conflictStep scan i rwSet (failed.getD i false)).reExec.length =
          scan.reExec.length+1 := by
        simp [conflictStep]
      have := ih (conflictStep scan i rwSet (failed.getD i false)) (i+1)
        (fun e he => hl e (List.mem_cons_of_mem _ he))
        (fun _ => ⟨i, by omega, by simp [conflictStep, hslot]⟩) k (by omega) (by simpa using hkl)
      rwa [hlen, Nat.add_assoc, Nat.add_comm 1 k] at this

/-- **The mask.** Every transaction after the first is flagged for
re-execution, whatever its reads and writes: all of them write the coinbase. -/
theorem reExec_detectConflicts (txs : List Tx) (failed : List Bool)
    (i : ℕ) (hi : 0 < i) (hin : i < txs.length) :
    (detectConflicts (txs.map (buildRWSet · header)) failed).1[i]? = some true := by
  have hl : ∀ rwSet ∈ txs.map (buildRWSet · header), addressKey header.coinbase ∈ rwSet.writes := by
    intro rwSet hrw
    obtain ⟨tx, -, rfl⟩ := List.mem_map.mp hrw
    simp [buildRWSet]
  have := conflictScan_flags_shared_write failed (addressKey header.coinbase)
    ⟨fun _ => none, [], 0⟩ 0 _ hl (fun h => absurd h (Nat.lt_irrefl 0)) i (by omega) (by simp [hin])
  simpa [detectConflicts] using this

theorem conflictScan_conflicts (failed : List Bool) (scan : ConflictScan) (i : ℕ)
    (l : List TxReadWriteSet) (h : scan.conflicts = scan.reExec.count true) :
    (conflictScan failed scan i l).conflicts = (conflictScan failed scan i l).reExec.count true := by
  induction l generalizing scan i with
  | nil => exact h
  | cons rwSet l ih =>
    rw [conflictScan]
    apply ih
    have hcount : ∀ (b : Bool) (flags : List Bool),
        (flags ++ [b]).count true = flags.count true+if b then 1 else 0 := by
      intro b flags
      cases b <;> simp
    simp only [conflictStep, hcount, h]

theorem length_conflictScan (failed : List Bool) (scan : ConflictScan) (i : ℕ)
    (l : List TxReadWriteSet) :
    (conflictScan failed scan i l).reExec.length = scan.reExec.length+l.length := by
  induction l generalizing scan i with
  | nil => rfl
  | cons rwSet l ih =>
    rw [conflictScan, ih]
    simp [conflictStep]
    omega

theorem detectConflicts_head (rwSet : TxReadWriteSet) (rwSets : List TxReadWriteSet) (failed : Bool)
    (failures : List Bool) :
    (detectConflicts (rwSet :: rwSets) (failed :: failures)).1[0]? = some failed := by
  have hstep : (conflictStep ⟨fun _ => none, [], 0⟩ 0 rwSet failed).reExec = [failed] := by
    simp [conflictStep, writtenBefore]
  obtain ⟨flags, hflags⟩ := conflictScan_reExec (failed :: failures)
    (conflictStep ⟨fun _ => none, [], 0⟩ 0 rwSet failed) 1 rwSets
  simp [detectConflicts, conflictScan, hflags, hstep]

end Facts

/-! ## Block-STM is sequential execution without the first transaction's effects -/

section Refinement
variable {σ ε ρ : Type} (applyFn : TxApplyFunc σ ε ρ) (header : Header)

def dropFirstEffect : TxApplyFunc σ ε ρ :=
  fun tx s i => if i = 0 then (applyFn tx s i).map fun out => (s, out.2) else applyFn tx s i

theorem applySequential_dropFirstEffect (s : σ) (i : ℕ) (hi : 0 < i) (g : UInt64) (txs : List Tx) :
    applySequential (dropFirstEffect applyFn) s i g txs = applySequential applyFn s i g txs := by
  induction txs generalizing s i g with
  | nil => rfl
  | cons tx txs ih =>
    have hne : i ≠ 0 := by omega
    simp only [applySequential, dropFirstEffect, hne, if_false]
    cases applyFn tx s i with
    | error e => rfl
    | ok out =>
      obtain ⟨s', receipt⟩ := out
      dsimp only
      rw [ih _ _ (by omega)]

theorem reExecLoop_getElem?_of_lt (s : σ) (i : ℕ) (l : List (Tx × Bool))
    (results results' : List (TxResult ε ρ)) (h : reExecLoop applyFn header s i l results = .ok results')
    (j : ℕ) (hj : j < i) : results'[j]? = results[j]? := by
  induction l generalizing s i results with
  | nil =>
    simp only [reExecLoop, Except.ok.injEq] at h
    rw [h]
  | cons entry l ih =>
    obtain ⟨tx, flagged⟩ := entry
    cases flagged with
    | false =>
      simp only [reExecLoop, Bool.not_false, if_true] at h
      exact ih s (i+1) results h (by omega)
    | true =>
      simp only [reExecLoop, Bool.not_true, Bool.false_eq_true, if_false] at h
      cases happ : applyFn tx s i with
      | error e =>
        rw [happ] at h
        cases h
      | ok out =>
        rw [happ] at h
        rw [ih out.1 (i+1) _ h (by omega), List.getElem?_set_ne (by omega)]

theorem reExecLoop_flagged (s : σ) (i : ℕ) (g : UInt64) (txs : List Tx)
    (results results' : List (TxResult ε ρ)) (hlen : results.length = i+txs.length)
    (h : reExecLoop applyFn header s i (txs.map (·, true)) results = .ok results') :
    ∃ s' receipts, applySequential applyFn s i g txs = .ok (s', receipts) ∧
      commitLoop g i (results'.drop i) = .ok receipts := by
  induction txs generalizing s i g results with
  | nil =>
    simp only [List.map_nil, reExecLoop, Except.ok.injEq] at h
    subst h
    refine ⟨s, [], rfl, ?_⟩
    rw [List.drop_of_length_le (by simp at hlen; omega)]
    rfl
  | cons tx txs ih =>
    simp only [List.length_cons] at hlen
    simp only [List.map_cons, reExecLoop, Bool.not_true, Bool.false_eq_true, if_false] at h
    cases happ : applyFn tx s i with
    | error e =>
      rw [happ] at h
      cases h
    | ok out =>
      obtain ⟨s₁, receipt⟩ := out
      rw [happ] at h
      have hlen' : (results.set i ⟨.ok receipt, buildRWSet tx header⟩).length = (i+1)+txs.length := by
        simp only [List.length_set, hlen]
        omega
      obtain ⟨s', receipts, hseq, hcommit⟩ := ih s₁ (i+1) (g+receipt.gasUsed) _ hlen' h
      have hi : results'[i]? = some ⟨.ok receipt, buildRWSet tx header⟩ := by
        rw [reExecLoop_getElem?_of_lt applyFn header _ _ _ _ _ h i (by omega),
          List.getElem?_set_self (show i < results.length by omega)]
      obtain ⟨hlt, heq⟩ := List.getElem?_eq_some_iff.mp hi
      refine ⟨s', ⟨receipt.gasUsed, g+receipt.gasUsed, receipt.data⟩ :: receipts, ?_, ?_⟩
      · simp only [applySequential, happ, hseq]
        rfl
      · rw [List.drop_eq_getElem_cons hlt, heq, commitLoop]
        simp only [hcommit]
        rfl

theorem zip_replicate_true (txs : List Tx) :
    txs.zip (List.replicate txs.length true) = txs.map (·, true) := by
  induction txs with
  | nil => rfl
  | cons tx txs ih => simp [List.replicate_succ, ih]

theorem length_speculateAll (txs : List Tx) (s : σ) :
    (speculateAll applyFn header txs s).length = txs.length := by
  simp [speculateAll]

theorem rwSets_speculateAll (txs : List Tx) (s : σ) :
    (speculateAll applyFn header txs s).map (·.rwSet) = txs.map (buildRWSet · header) := by
  rw [speculateAll]
  apply List.ext_getElem?
  intro i
  simp only [List.getElem?_map, List.getElem?_mapIdx, Option.map_map]
  cases txs[i]? <;> rfl

theorem detectConflicts_mask (tx₀ : Tx) (rest : List Tx) (failed : List Bool)
    (hf : failed.length = rest.length+1) :
    (detectConflicts ((tx₀ :: rest).map (buildRWSet · header)) failed).1 =
      (failed.head?.getD false) :: List.replicate rest.length true := by
  obtain ⟨f₀, fs, rfl⟩ : ∃ f₀ fs, failed = f₀ :: fs := by
    cases failed with
    | nil => simp at hf
    | cons f₀ fs => exact ⟨f₀, fs, rfl⟩
  apply List.ext_getElem?
  intro i
  rcases Nat.eq_zero_or_pos i with rfl | hi
  · rw [List.map_cons, detectConflicts_head]
    rfl
  · by_cases hin : i < rest.length+1
    · rw [reExec_detectConflicts header _ _ i hi (by simpa using hin)]
      simp [List.getElem?_cons, hi.ne', show i-1 < rest.length by omega]
    · have hlenm : (detectConflicts ((tx₀ :: rest).map (buildRWSet · header)) (f₀ :: fs)).1.length =
          rest.length+1 := by
        simp [detectConflicts, length_conflictScan]
      rw [List.getElem?_eq_none (by omega), List.getElem?_eq_none (by simp; omega)]

theorem conflicts_detectConflicts_ne_zero (tx₀ : Tx) (rest : List Tx) (hrest : 1 ≤ rest.length)
    (failed : List Bool) (hf : failed.length = rest.length+1) :
    (detectConflicts ((tx₀ :: rest).map (buildRWSet · header)) failed).2 ≠ 0 := by
  have hc := conflictScan_conflicts failed ⟨fun _ => none, [], 0⟩ 0
    ((tx₀ :: rest).map (buildRWSet · header)) rfl
  have hm := detectConflicts_mask header tx₀ rest failed hf
  simp only [detectConflicts] at hm ⊢
  rw [hc, hm]
  obtain ⟨k, hk⟩ : ∃ k, rest.length = k+1 := ⟨rest.length-1, by omega⟩
  rw [hk, List.replicate_succ, List.count_cons, List.count_cons]
  simp

/-- **Block-STM against sequential execution.** Whenever `ExecuteBlock`
returns receipts, they are those of applying the transactions one after
another to the input state with the first transaction's state change
dropped: every later transaction is re-executed, starting from the input
state. -/
theorem executeBlock_receipts (txs : List Tx) (hn : 2 ≤ txs.length) (s : σ)
    (receipts : List (Receipt ρ)) (h : ((executeBlock applyFn header txs).run s).1 = some (.ok receipts)) :
    ∃ s', applySequential (dropFirstEffect applyFn) s 0 0 txs = .ok (s', receipts) := by
  obtain ⟨tx₀, rest, rfl⟩ : ∃ tx₀ rest, txs = tx₀ :: rest := by
    cases txs with
    | nil => simp at hn
    | cons tx₀ rest => exact ⟨tx₀, rest, rfl⟩
  have hrest : 1 ≤ rest.length := by simp at hn; omega
  simp only [executeBlock, not_lt.mpr hn, if_false, StateT.run_bind, StateT.run_get, pure_bind] at h
  generalize hres : speculateAll applyFn header (tx₀ :: rest) s = results at h
  cases hv : validateAndReExecute applyFn header (tx₀ :: rest) s results with
  | error e =>
    rw [hv] at h
    cases h
  | ok results' =>
    rw [hv] at h
    have hcommitted : commitOrdered results' = .ok receipts := Option.some.inj h
    have hrw : results.map (·.rwSet) = (tx₀ :: rest).map (buildRWSet · header) := by
      rw [← hres, rwSets_speculateAll]
    have hlen : results.length = rest.length+1 := by
      rw [← hres, length_speculateAll, List.length_cons]
    have hfailed_len : (results.map fun res => !res.result.isOk).length = rest.length+1 := by
      rw [List.length_map, hlen]
    have hconf := conflicts_detectConflicts_ne_zero header tx₀ rest hrest _ hfailed_len
    rw [← hrw] at hconf
    cases happ : applyFn tx₀ s 0 with
    | error e =>
      have hhead : results.head? = some ⟨.error e, buildRWSet tx₀ header⟩ := by
        simp [← hres, speculateAll, executeOne, happ, Except.map]
      have hm := detectConflicts_mask header tx₀ rest _ hfailed_len
      rw [← hrw, List.head?_map, hhead] at hm
      simp only [validateAndReExecute, hconf, if_false, hm] at hv
      simp [Except.isOk, Except.toBool, reExecLoop, happ] at hv
    | ok out =>
      obtain ⟨s₀, receipt₀⟩ := out
      have hhead : results.head? = some ⟨.ok receipt₀, buildRWSet tx₀ header⟩ := by
        simp [← hres, speculateAll, executeOne, happ, Except.map]
      have hm := detectConflicts_mask header tx₀ rest _ hfailed_len
      rw [← hrw, List.head?_map, hhead] at hm
      simp only [validateAndReExecute, hconf, if_false, hm] at hv
      simp only [Except.isOk, Except.toBool, List.zip_cons_cons, reExecLoop, zip_replicate_true] at hv
      obtain ⟨s', receipts', hseq, hcommit⟩ := reExecLoop_flagged applyFn header s 1
        (0+receipt₀.gasUsed) rest results results' (by omega) hv
      have h₀ : results'[0]? = some ⟨.ok receipt₀, buildRWSet tx₀ header⟩ := by
        rw [reExecLoop_getElem?_of_lt applyFn header _ _ _ _ _ hv 0 (by omega), ← List.head?_eq_getElem?,
          hhead]
      obtain ⟨hlt, heq⟩ := List.getElem?_eq_some_iff.mp h₀
      have hsplit : results' = results'[0] :: results'.drop 1 := by
        rw [← List.drop_eq_getElem_cons hlt, List.drop_zero]
      rw [commitOrdered, hsplit, heq, commitLoop] at hcommitted
      simp only [hcommit, Except.map, Except.ok.injEq] at hcommitted
      refine ⟨s', ?_⟩
      simp only [applySequential, dropFirstEffect, if_true, happ, Except.map]
      rw [applySequential_dropFirstEffect applyFn s 1 (by omega), hseq, ← hcommitted]

end Refinement

/-! ## Two transactions on a counter -/

def countingApply : TxApplyFunc ℕ Unit ℕ := fun _ s _ => .ok (s+1, ⟨21000, 0, s⟩)

def twoTransfers : List Tx := [⟨some 1, 0⟩, ⟨some 2, 1⟩]

def zeroCoinbase : Header := ⟨0⟩

/-- Block-STM returns receipts in which the second transaction saw the input
state, and leaves the statedb at the input state; applied in order, the
second transaction sees the first one's effect and the state moves to `2`. -/
theorem executeBlock_diverges_from_sequential :
    ((executeBlock countingApply zeroCoinbase twoTransfers).run 0).1 =
      some (.ok [⟨21000, 21000, 0⟩, ⟨21000, 42000, 0⟩]) ∧
    ((executeBlock countingApply zeroCoinbase twoTransfers).run 0).2 = 0 ∧
    applySequential countingApply 0 0 0 twoTransfers =
      .ok (2, [⟨21000, 21000, 0⟩, ⟨21000, 42000, 1⟩]) :=
  ⟨by decide, by decide, by decide⟩

end LuxEvm.Parallel
