import LuxEvm.Parallel.BlockSTM

/-!
# The conflict edge list and the re-execution mask

`conflictEdgesOf` lists the pairs `(lo, hi)`, `lo < hi`, of transactions whose
footprints meet: `W_lo ∩ R_hi`, `W_lo ∩ W_hi` or `R_lo ∩ W_hi` is not empty.
It keeps, per slot, the earlier writers and readers, gathers the earlier
transactions each transaction hits into a set, and sorts that set with a
hand-written insertion sort. Over every list of read and write sets it lists
exactly those pairs, each once, by `hi` and then by `lo`
(`conflictEdgesOf_eq_edges`).

`detectConflicts` remembers only which slots were written. It flags a
transaction for an earlier writer of a slot it reads or writes
(`detectConflicts_eq`), never for an earlier reader of a slot it writes
alone. Where every footprint's reads lie in its writes, as the EVM and fill
footprints do, the mask and the edge list agree (`reExec_iff_edge`).
-/

set_option autoImplicit false

namespace LuxEvm.Parallel

/-- The edge predicate of the GPU `conflict_detect` kernel. -/
def Conflict (lo hi : TxReadWriteSet) : Prop :=
  (∃ slot ∈ lo.writes, slot ∈ hi.reads) ∨ (∃ slot ∈ lo.writes, slot ∈ hi.writes) ∨
    ∃ slot ∈ lo.reads, slot ∈ hi.writes

instance (lo hi : TxReadWriteSet) : Decidable (Conflict lo hi) :=
  inferInstanceAs (Decidable (_ ∨ _ ∨ _))

/-- The part of `Conflict` that an earlier writer accounts for. -/
def WriteConflict (lo hi : TxReadWriteSet) : Prop :=
  (∃ slot ∈ lo.writes, slot ∈ hi.reads) ∨ ∃ slot ∈ lo.writes, slot ∈ hi.writes

instance (lo hi : TxReadWriteSet) : Decidable (WriteConflict lo hi) :=
  inferInstanceAs (Decidable (_ ∨ _))

/-- Edge order: by `hi`, then by `lo`. -/
def EdgeLt (e e' : ℕ × ℕ) : Prop := e.2 < e'.2 ∨ (e.2 = e'.2 ∧ e.1 < e'.1)

/-! ## `conflictEdgesOf` -/

/-- The inner loop of `sortInts`: the element moves left, one swap at a time,
past every larger left neighbour. The sorted prefix is kept reversed, so the
neighbour a swap compares with is its head. -/
def sinkLeft (x : ℕ) : List ℕ → List ℕ
  | [] => [x]
  | y :: rest => if y > x then y :: sinkLeft x rest else x :: y :: rest

def sortInts (a : List ℕ) : List ℕ := (a.foldl (fun sorted x => sinkLeft x sorted) []).reverse

/-- `mark`: each index joins the set `seen`, kept as a list without repeats;
`sortInts` makes the order it is read in irrelevant. -/
def mark (seen idxs : List ℕ) : List ℕ :=
  idxs.foldl (fun seen j => if j ∈ seen then seen else seen ++ [j]) seen

/-- The loop state of `conflictEdgesOf`: per slot, the earlier transactions
that wrote and read it, and the edges so far. -/
structure EdgeScan where
  writers : Hash → List ℕ
  readers : Hash → List ℕ
  edges : List (ℕ × ℕ)

/-- `seen` for one transaction: its reads hit earlier writes, its writes
earlier writes and reads. -/
def seenOf (scan : EdgeScan) (rwSet : TxReadWriteSet) : List ℕ :=
  let seen := rwSet.reads.foldl (fun seen slot => mark seen (scan.writers slot)) []
  rwSet.writes.foldl (fun seen slot => mark (mark seen (scan.writers slot)) (scan.readers slot)) seen

/-- One round of the loop of `conflictEdgesOf`, for transaction `i`: its edges,
then `i` registered as a writer and reader. -/
def edgeStep (scan : EdgeScan) (i : ℕ) (rwSet : TxReadWriteSet) : EdgeScan :=
  let seen := seenOf scan rwSet
  { writers := fun slot => if slot ∈ rwSet.writes then scan.writers slot ++ [i] else scan.writers slot
    readers := fun slot => if slot ∈ rwSet.reads then scan.readers slot ++ [i] else scan.readers slot
    edges := if 0 < seen.length then scan.edges ++ (sortInts seen).map (·, i) else scan.edges }

def edgeScan : EdgeScan → ℕ → List TxReadWriteSet → EdgeScan
  | scan, _, [] => scan
  | scan, i, rwSet :: rest => edgeScan (edgeStep scan i rwSet) (i+1) rest

def conflictEdgesOf (rwSets : List TxReadWriteSet) : List (ℕ × ℕ) :=
  (edgeScan ⟨fun _ => [], fun _ => [], []⟩ 0 rwSets).edges

/-! ## `sortInts` sorts -/

theorem sinkLeft_perm (x : ℕ) (l : List ℕ) : (sinkLeft x l).Perm (x :: l) := by
  fun_induction sinkLeft x l with
  | case1 => rfl
  | case2 y rest hyx ih => exact (ih.cons y).trans (List.Perm.swap x y rest)
  | case3 y rest hyx => rfl

theorem sinkLeft_pairwise (x : ℕ) (l : List ℕ) (hl : l.Pairwise (· ≥ ·)) :
    (sinkLeft x l).Pairwise (· ≥ ·) := by
  induction l with
  | nil => simp [sinkLeft]
  | cons y rest ih =>
    obtain ⟨hy, hrest⟩ := List.pairwise_cons.mp hl
    unfold sinkLeft
    split_ifs with hyx
    · refine List.pairwise_cons.mpr ⟨fun z hz => ?_, ih hrest⟩
      rcases List.mem_cons.mp ((sinkLeft_perm x rest).mem_iff.mp hz) with rfl | hz
      · exact Nat.le_of_lt hyx
      · exact hy z hz
    · refine List.pairwise_cons.mpr ⟨fun z hz => ?_, hl⟩
      rcases List.mem_cons.mp hz with rfl | hz
      · exact Nat.le_of_not_lt hyx
      · exact le_trans (hy z hz) (Nat.le_of_not_lt hyx)

theorem foldl_sinkLeft (a acc : List ℕ) (hacc : acc.Pairwise (· ≥ ·)) :
    (a.foldl (fun sorted x => sinkLeft x sorted) acc).Perm (a ++ acc) ∧
      (a.foldl (fun sorted x => sinkLeft x sorted) acc).Pairwise (· ≥ ·) := by
  induction a generalizing acc with
  | nil => exact ⟨List.Perm.refl _, hacc⟩
  | cons x a ih =>
    obtain ⟨hperm, hsorted⟩ := ih (sinkLeft x acc) (sinkLeft_pairwise x acc hacc)
    refine ⟨hperm.trans ?_, hsorted⟩
    exact ((sinkLeft_perm x acc).append_left a).trans List.perm_middle

theorem sortInts_perm (a : List ℕ) : (sortInts a).Perm a := by
  have := (foldl_sinkLeft a [] List.Pairwise.nil).1
  rw [List.append_nil] at this
  exact (List.reverse_perm _).trans this

theorem sortInts_pairwise_lt {a : List ℕ} (ha : a.Nodup) : (sortInts a).Pairwise (· < ·) := by
  have hle : (sortInts a).Pairwise (· ≤ ·) :=
    List.pairwise_reverse.mpr (foldl_sinkLeft a [] List.Pairwise.nil).2
  have hne : (sortInts a).Nodup := (sortInts_perm a).nodup_iff.mpr ha
  exact (hle.and hne).imp fun h => Nat.lt_of_le_of_ne h.1 h.2

theorem sortInts_eq_of_perm {a a' : List ℕ} (h : a.Perm a') : sortInts a = sortInts a' := by
  have hle : ∀ l : List ℕ, (sortInts l).Pairwise (· ≤ ·) := fun l =>
    List.pairwise_reverse.mpr (foldl_sinkLeft l [] List.Pairwise.nil).2
  exact List.Perm.eq_of_pairwise' (hle a) (hle a')
    (((sortInts_perm a).trans h).trans (sortInts_perm a').symm)

/-! ## The set of earlier transactions a transaction hits -/

section Sets
variable {β : Type}

theorem mem_mark (seen idxs : List ℕ) (j : ℕ) : j ∈ mark seen idxs ↔ j ∈ seen ∨ j ∈ idxs := by
  induction idxs generalizing seen with
  | nil => simp [mark]
  | cons k idxs ih =>
    unfold mark at ih ⊢
    rw [List.foldl_cons, ih]
    by_cases hk : k ∈ seen
    · simp only [hk, if_true, List.mem_cons]
      constructor
      · rintro (h | h)
        · exact .inl h
        · exact .inr (.inr h)
      · rintro (h | rfl | h)
        · exact .inl h
        · exact .inl hk
        · exact .inr h
    · simp [hk, or_assoc]

theorem nodup_mark {seen : List ℕ} (hseen : seen.Nodup) (idxs : List ℕ) : (mark seen idxs).Nodup := by
  induction idxs generalizing seen with
  | nil => exact hseen
  | cons k idxs ih =>
    unfold mark at ih ⊢
    rw [List.foldl_cons]
    apply ih
    split_ifs with hk
    · exact hseen
    · exact List.nodup_append.mpr ⟨hseen, List.nodup_singleton k,
        fun a ha b hb hab => hk (List.mem_singleton.mp hb ▸ hab ▸ ha)⟩

theorem mem_foldl_of_mem_iff (F : List ℕ → β → List ℕ) (P : β → ℕ → Prop)
    (hF : ∀ seen b j, j ∈ F seen b ↔ j ∈ seen ∨ P b j) (l : List β) (seen : List ℕ) (j : ℕ) :
    j ∈ l.foldl F seen ↔ j ∈ seen ∨ ∃ b ∈ l, P b j := by
  induction l generalizing seen with
  | nil => simp
  | cons b l ih =>
    rw [List.foldl_cons, ih, hF]
    simp only [List.mem_cons, exists_eq_or_imp, or_assoc]

theorem nodup_foldl (F : List ℕ → β → List ℕ) (hF : ∀ seen b, seen.Nodup → (F seen b).Nodup)
    (l : List β) {seen : List ℕ} (hseen : seen.Nodup) : (l.foldl F seen).Nodup := by
  induction l generalizing seen with
  | nil => exact hseen
  | cons b l ih => exact ih (hF seen b hseen)

end Sets

theorem mem_seenOf (scan : EdgeScan) (rwSet : TxReadWriteSet) (j : ℕ) :
    j ∈ seenOf scan rwSet ↔ (∃ slot ∈ rwSet.reads, j ∈ scan.writers slot) ∨
      ∃ slot ∈ rwSet.writes, j ∈ scan.writers slot ∨ j ∈ scan.readers slot := by
  unfold seenOf
  rw [mem_foldl_of_mem_iff _ (fun slot j => j ∈ scan.writers slot ∨ j ∈ scan.readers slot)
      (fun seen slot j => by rw [mem_mark, mem_mark, or_assoc]),
    mem_foldl_of_mem_iff _ (fun slot j => j ∈ scan.writers slot) (fun seen slot j => mem_mark _ _ _)]
  simp

theorem nodup_seenOf (scan : EdgeScan) (rwSet : TxReadWriteSet) : (seenOf scan rwSet).Nodup :=
  nodup_foldl _ (fun _ _ h => nodup_mark (nodup_mark h _) _) _
    (nodup_foldl _ (fun _ _ h => nodup_mark h _) _ List.nodup_nil)

theorem edges_edgeStep (scan : EdgeScan) (i : ℕ) (rwSet : TxReadWriteSet) :
    (edgeStep scan i rwSet).edges = scan.edges ++ (sortInts (seenOf scan rwSet)).map (·, i) := by
  simp only [edgeStep]
  split_ifs with h
  · rfl
  · rw [List.eq_nil_of_length_eq_zero (Nat.eq_zero_of_not_pos h)]
    simp [sortInts]

/-! ## The edge list is the kernel's -/

theorem getElem?_concat_eq_some {α : Type} (l : List α) (x : α) (j : ℕ) (a : α) :
    (l ++ [x])[j]? = some a ↔ l[j]? = some a ∨ (j = l.length ∧ a = x) := by
  rcases Nat.lt_trichotomy j l.length with hj | rfl | hj
  · rw [List.getElem?_append_left hj]
    constructor
    · exact .inl
    · rintro (h | ⟨rfl, -⟩)
      · exact h
      · omega
  · simp [eq_comm]
  · rw [List.getElem?_eq_none (by simp; omega), List.getElem?_eq_none (by omega)]
    simp
    omega

theorem lt_length_of_getElem?_eq_some {α : Type} {l : List α} {j : ℕ} {a : α}
    (h : l[j]? = some a) : j < l.length :=
  (List.getElem?_eq_some_iff.mp h).1

/-- What the loop of `conflictEdgesOf` knows after the transactions `done`. -/
structure EdgeInv (done : List TxReadWriteSet) (scan : EdgeScan) : Prop where
  writers : ∀ slot j, j ∈ scan.writers slot ↔ ∃ a, done[j]? = some a ∧ slot ∈ a.writes
  readers : ∀ slot j, j ∈ scan.readers slot ↔ ∃ a, done[j]? = some a ∧ slot ∈ a.reads
  edges : ∀ lo hi, (lo, hi) ∈ scan.edges ↔
    lo < hi ∧ ∃ a b, done[lo]? = some a ∧ done[hi]? = some b ∧ Conflict a b
  sorted : scan.edges.Pairwise EdgeLt

theorem EdgeInv.init : EdgeInv [] ⟨fun _ => [], fun _ => [], []⟩ :=
  ⟨by simp, by simp, by simp, List.Pairwise.nil⟩

theorem EdgeInv.mem_seenOf {done : List TxReadWriteSet} {scan : EdgeScan} (inv : EdgeInv done scan)
    (rwSet : TxReadWriteSet) (j : ℕ) :
    j ∈ seenOf scan rwSet ↔ ∃ a, done[j]? = some a ∧ Conflict a rwSet := by
  rw [Parallel.mem_seenOf]
  simp only [inv.writers, inv.readers]
  constructor
  · rintro (⟨slot, hs, a, ha, hw⟩ | ⟨slot, hs, ⟨a, ha, hw⟩ | ⟨a, ha, hr⟩⟩)
    · exact ⟨a, ha, .inl ⟨slot, hw, hs⟩⟩
    · exact ⟨a, ha, .inr (.inl ⟨slot, hw, hs⟩)⟩
    · exact ⟨a, ha, .inr (.inr ⟨slot, hr, hs⟩)⟩
  · rintro ⟨a, ha, ⟨slot, hw, hs⟩ | ⟨slot, hw, hs⟩ | ⟨slot, hr, hs⟩⟩
    · exact .inl ⟨slot, hs, a, ha, hw⟩
    · exact .inr ⟨slot, hs, .inl ⟨a, ha, hw⟩⟩
    · exact .inr ⟨slot, hs, .inr ⟨a, ha, hr⟩⟩

theorem EdgeInv.mem_register {done : List TxReadWriteSet} (rwSet : TxReadWriteSet)
    (sel : TxReadWriteSet → List Hash) (old : Hash → List ℕ)
    (hold : ∀ slot j, j ∈ old slot ↔ ∃ a, done[j]? = some a ∧ slot ∈ sel a) (slot : Hash) (j : ℕ) :
    j ∈ (if slot ∈ sel rwSet then old slot ++ [done.length] else old slot) ↔
      ∃ a, (done ++ [rwSet])[j]? = some a ∧ slot ∈ sel a := by
  simp only [getElem?_concat_eq_some]
  constructor
  · intro h
    split_ifs at h with hs
    · rcases List.mem_append.mp h with h | h
      · obtain ⟨a, ha, hsa⟩ := (hold slot j).mp h
        exact ⟨a, .inl ha, hsa⟩
      · exact ⟨rwSet, .inr ⟨List.mem_singleton.mp h, rfl⟩, hs⟩
    · obtain ⟨a, ha, hsa⟩ := (hold slot j).mp h
      exact ⟨a, .inl ha, hsa⟩
  · rintro ⟨a, ha | ⟨rfl, rfl⟩, hsa⟩
    · have hj := (hold slot j).mpr ⟨a, ha, hsa⟩
      split_ifs
      · exact List.mem_append_left _ hj
      · exact hj
    · rw [if_pos hsa]
      exact List.mem_append_right _ (List.mem_singleton_self _)

theorem EdgeInv.step {done : List TxReadWriteSet} {scan : EdgeScan} (inv : EdgeInv done scan)
    (rwSet : TxReadWriteSet) : EdgeInv (done ++ [rwSet]) (edgeStep scan done.length rwSet) := by
  have hseen := inv.mem_seenOf rwSet
  refine ⟨EdgeInv.mem_register rwSet (·.writes) scan.writers inv.writers,
    EdgeInv.mem_register rwSet (·.reads) scan.readers inv.readers, fun lo hi => ?_, ?_⟩
  · rw [edges_edgeStep, List.mem_append, inv.edges, List.mem_map]
    simp only [(sortInts_perm _).mem_iff, Prod.mk.injEq, hseen]
    constructor
    · rintro (⟨hlt, a, b, ha, hb, hc⟩ | ⟨j, ⟨a, ha, hc⟩, rfl, rfl⟩)
      · -- an old edge: both ends lie before the new transaction
        have hhi := lt_length_of_getElem?_eq_some hb
        exact ⟨hlt, a, b, by rw [List.getElem?_append_left (by omega), ha],
          by rw [List.getElem?_append_left hhi, hb], hc⟩
      · -- a new edge ends at the new transaction
        have hlo := lt_length_of_getElem?_eq_some ha
        exact ⟨hlo, a, rwSet, by rw [List.getElem?_append_left hlo, ha], by simp, hc⟩
    · rintro ⟨hlt, a, b, ha, hb, hc⟩
      rcases (getElem?_concat_eq_some done rwSet hi b).mp hb with hb | ⟨rfl, rfl⟩
      · have hhi := lt_length_of_getElem?_eq_some hb
        rw [List.getElem?_append_left (by omega)] at ha
        exact .inl ⟨hlt, a, b, ha, hb, hc⟩
      · rw [List.getElem?_append_left hlt] at ha
        exact .inr ⟨lo, ⟨a, ha, hc⟩, rfl, rfl⟩
  · rw [edges_edgeStep, List.pairwise_append, List.pairwise_map]
    refine ⟨inv.sorted, (sortInts_pairwise_lt (nodup_seenOf scan rwSet)).imp fun h => .inr ⟨rfl, h⟩,
      fun e he e' he' => ?_⟩
    obtain ⟨j, -, rfl⟩ := List.mem_map.mp he'
    obtain ⟨-, a, b, -, hb, -⟩ := (inv.edges e.1 e.2).mp he
    exact .inl (lt_length_of_getElem?_eq_some hb)

theorem EdgeInv.run (rest : List TxReadWriteSet) :
    ∀ {done : List TxReadWriteSet} {scan : EdgeScan}, EdgeInv done scan →
      EdgeInv (done ++ rest) (edgeScan scan done.length rest) := by
  induction rest with
  | nil =>
    intro done scan inv
    simpa [edgeScan] using inv
  | cons rwSet rest ih =>
    intro done scan inv
    have := ih (inv.step rwSet)
    rw [List.length_append, List.length_singleton, List.append_assoc, List.singleton_append] at this
    exact this

theorem conflictEdgesOf_eq_edges (rwSets : List TxReadWriteSet) :
    (∀ lo hi, (lo, hi) ∈ conflictEdgesOf rwSets ↔
      lo < hi ∧ ∃ a b, rwSets[lo]? = some a ∧ rwSets[hi]? = some b ∧ Conflict a b) ∧
    (conflictEdgesOf rwSets).Nodup ∧ (conflictEdgesOf rwSets).Pairwise EdgeLt := by
  have inv := EdgeInv.run rwSets EdgeInv.init
  rw [List.nil_append] at inv
  refine ⟨inv.edges, inv.sorted.imp fun h he => ?_, inv.sorted⟩
  subst he
  rcases h with h | ⟨-, h⟩ <;> exact Nat.lt_irrefl _ h

/-! ## The mask of `detectConflicts` -/

/-- The mask `detectConflicts` computes: a transaction is flagged when its
speculative run failed or an earlier transaction wrote a slot it reads or writes. -/
def maskSpec (failed : List Bool) (rwSets : List TxReadWriteSet) : List Bool :=
  rwSets.mapIdx fun i b => failed.getD i false || (rwSets.take i).any fun a => decide (WriteConflict a b)

theorem maskSpec_concat (failed : List Bool) (done : List TxReadWriteSet) (rwSet : TxReadWriteSet) :
    maskSpec failed (done ++ [rwSet]) = maskSpec failed done ++
      [failed.getD done.length false || done.any fun a => decide (WriteConflict a rwSet)] := by
  unfold maskSpec
  rw [List.mapIdx_append]
  congr 1
  · -- the earlier flags look at prefixes of `done` only
    apply List.ext_getElem (by simp)
    intro n h₁ h₂
    simp only [List.getElem_mapIdx]
    rw [List.take_append_of_le_length (by simp at h₁; omega)]
  · simp

/-- What the loop of `detectConflicts` knows after the transactions `done`. -/
structure MaskInv (failed : List Bool) (done : List TxReadWriteSet) (scan : ConflictScan) : Prop where
  written : ∀ slot, writtenBefore scan.committedWrites done.length slot = true ↔
    ∃ a ∈ done, slot ∈ a.writes
  below : ∀ slot j, scan.committedWrites slot = some j → j < done.length
  reExec : scan.reExec = maskSpec failed done

theorem MaskInv.init (failed : List Bool) : MaskInv failed [] ⟨fun _ => none, [], 0⟩ :=
  ⟨by simp [writtenBefore], by simp, rfl⟩

theorem MaskInv.any_written {failed : List Bool} {done : List TxReadWriteSet} {scan : ConflictScan}
    (inv : MaskInv failed done scan) (slots : TxReadWriteSet → List Hash) (rwSet : TxReadWriteSet) :
    (slots rwSet).any (writtenBefore scan.committedWrites done.length) =
      done.any fun a => decide (∃ slot ∈ a.writes, slot ∈ slots rwSet) := by
  rw [Bool.eq_iff_iff]
  simp only [List.any_eq_true, inv.written, decide_eq_true_eq]
  constructor
  · rintro ⟨slot, hs, a, ha, hw⟩
    exact ⟨a, ha, slot, hw, hs⟩
  · rintro ⟨a, ha, slot, hw, hs⟩
    exact ⟨slot, hs, a, ha, hw⟩

theorem any_writeConflict (done : List TxReadWriteSet) (rwSet : TxReadWriteSet) :
    (done.any fun a => decide (WriteConflict a rwSet)) =
      ((done.any fun a => decide (∃ slot ∈ a.writes, slot ∈ rwSet.reads)) ||
        done.any fun a => decide (∃ slot ∈ a.writes, slot ∈ rwSet.writes)) := by
  rw [Bool.eq_iff_iff, Bool.or_eq_true, List.any_eq_true, List.any_eq_true, List.any_eq_true]
  simp only [decide_eq_true_iff]
  constructor
  · rintro ⟨a, ha, h | h⟩
    · exact .inl ⟨a, ha, h⟩
    · exact .inr ⟨a, ha, h⟩
  · rintro (⟨a, ha, h⟩ | ⟨a, ha, h⟩)
    · exact ⟨a, ha, .inl h⟩
    · exact ⟨a, ha, .inr h⟩

theorem writtenBefore_succ {committedWrites : Hash → Option ℕ} {i : ℕ} {slot : Hash}
    (h : ∀ j, committedWrites slot = some j → j < i) :
    writtenBefore committedWrites (i+1) slot = writtenBefore committedWrites i slot := by
  unfold writtenBefore
  cases hc : committedWrites slot with
  | none => rfl
  | some j =>
    have := h j hc
    simp only [decide_eq_decide]
    omega

theorem MaskInv.step {failed : List Bool} {done : List TxReadWriteSet} {scan : ConflictScan}
    (inv : MaskInv failed done scan) (rwSet : TxReadWriteSet) :
    MaskInv failed (done ++ [rwSet])
      (conflictStep scan done.length rwSet (failed.getD done.length false)) := by
  refine ⟨fun slot => ?_, fun slot j h => ?_, ?_⟩
  · -- a slot the new transaction writes is now written; any other as before
    rw [List.length_append, List.length_singleton]
    simp only [List.mem_append, List.mem_singleton]
    by_cases hs : slot ∈ rwSet.writes
    · simp [conflictStep, writtenBefore, hs]
    · have hcw : writtenBefore (conflictStep scan done.length rwSet
          (failed.getD done.length false)).committedWrites (done.length+1) slot =
          writtenBefore scan.committedWrites (done.length+1) slot := by
        simp [conflictStep, writtenBefore, hs]
      rw [hcw, writtenBefore_succ (inv.below slot), inv.written]
      simp [hs]
  · simp only [conflictStep] at h
    split_ifs at h
    · cases h
      simp
    · have := inv.below slot j h
      simp only [List.length_append, List.length_singleton]
      omega
  · simp only [conflictStep]
    rw [inv.any_written (·.reads), inv.any_written (·.writes), maskSpec_concat, ← inv.reExec,
      any_writeConflict]
    cases failed.getD done.length false <;>
      cases done.any fun a => decide (∃ slot ∈ a.writes, slot ∈ rwSet.reads) <;> simp

theorem MaskInv.run (failed : List Bool) (rest : List TxReadWriteSet) :
    ∀ {done : List TxReadWriteSet} {scan : ConflictScan}, MaskInv failed done scan →
      MaskInv failed (done ++ rest) (conflictScan failed scan done.length rest) := by
  induction rest with
  | nil =>
    intro done scan inv
    simpa [conflictScan] using inv
  | cons rwSet rest ih =>
    intro done scan inv
    have := ih (inv.step rwSet)
    rw [List.length_append, List.length_singleton, List.append_assoc, List.singleton_append] at this
    exact this

/-- **The mask.** `detectConflicts` flags exactly the transactions whose run
failed or that read or write a slot an earlier transaction wrote, and counts
them. -/
theorem detectConflicts_eq (rwSets : List TxReadWriteSet) (failed : List Bool) :
    detectConflicts rwSets failed = (maskSpec failed rwSets, (maskSpec failed rwSets).count true) := by
  have inv := MaskInv.run failed rwSets (MaskInv.init failed)
  rw [List.nil_append, List.length_nil] at inv
  have hc := conflictScan_conflicts failed ⟨fun _ => none, [], 0⟩ 0 rwSets rfl
  simp only [detectConflicts, hc, inv.reExec]

theorem writeConflict_iff_conflict {lo hi : TxReadWriteSet}
    (h : ∀ slot ∈ lo.reads, slot ∈ lo.writes) : WriteConflict lo hi ↔ Conflict lo hi := by
  constructor
  · rintro (h₁ | h₂)
    · exact .inl h₁
    · exact .inr (.inl h₂)
  · rintro (h₁ | h₂ | ⟨slot, hr, hw⟩)
    · exact .inl h₁
    · exact .inr h₂
    · exact .inr ⟨slot, h slot hr, hw⟩

theorem mem_take_iff_getElem? {α : Type} (l : List α) (n : ℕ) (a : α) :
    a ∈ l.take n ↔ ∃ i < n, l[i]? = some a := by
  rw [List.mem_iff_getElem?]
  simp only [List.getElem?_take]
  constructor
  · rintro ⟨i, hi⟩
    split_ifs at hi with h
    exact ⟨i, h, hi⟩
  · rintro ⟨i, h, hi⟩
    exact ⟨i, by rw [if_pos h]; exact hi⟩

/-- On footprints whose reads lie in their writes, as those of EVM
transactions and of fills, the mask flags a transaction exactly when the edge
list has an edge into it. -/
theorem reExec_iff_edge (rwSets : List TxReadWriteSet)
    (hrw : ∀ rwSet ∈ rwSets, ∀ slot ∈ rwSet.reads, slot ∈ rwSet.writes) (hi : ℕ) :
    (detectConflicts rwSets []).1[hi]? = some true ↔ ∃ lo, (lo, hi) ∈ conflictEdgesOf rwSets := by
  simp only [(conflictEdgesOf_eq_edges rwSets).1, detectConflicts_eq, maskSpec, List.getElem?_mapIdx,
    List.getD_nil, Bool.false_or]
  constructor
  · intro h
    obtain ⟨b, hb, hany⟩ : ∃ b, rwSets[hi]? = some b ∧
        ((rwSets.take hi).any fun a => decide (WriteConflict a b)) = true := by
      cases hb : rwSets[hi]? with
      | none => simp [hb] at h
      | some b => exact ⟨b, rfl, by simpa [hb] using h⟩
    obtain ⟨a, ha, hc⟩ := List.any_eq_true.mp hany
    obtain ⟨lo, hlo, hla⟩ := (mem_take_iff_getElem? _ _ _).mp ha
    exact ⟨lo, hlo, a, b, hla, hb,
      (writeConflict_iff_conflict (hrw a (List.mem_of_getElem? hla))).mp (of_decide_eq_true hc)⟩
  · rintro ⟨lo, hlo, a, b, ha, hb, hc⟩
    rw [hb, Option.map_some, Option.some.injEq]
    exact List.any_eq_true.mpr ⟨a, (mem_take_iff_getElem? _ _ _).mpr ⟨lo, hlo, ha⟩,
      decide_eq_true ((writeConflict_iff_conflict (hrw a (List.mem_of_getElem? ha))).mpr hc)⟩

/-- A transaction read a slot that the next one wrote alone: the edge list has
the pair, the mask flags nothing. -/
theorem detectConflicts_misses_read_then_write :
    detectConflicts [⟨[0], []⟩, ⟨[], [0]⟩] [] = ([false, false], 0) ∧
      conflictEdgesOf [⟨[0], []⟩, ⟨[], [0]⟩] = [(0, 1)] := by
  decide

end LuxEvm.Parallel
