import LuxEvm.Common
import LuxEvm.Lib.KeyGroups

/-!
# The persisted queue of storage tries

While the account trie syncs, `RegisterStorageTrie` persists one key
`syncStorageTriesPrefix ++ root ++ account` for each account with storage.
Once it is done, `getNextTrie` reads the keys from its cursor
`nextStorageRoot`, returns the first root with every account of its run of
keys, and moves the cursor to the next root; `StorageTrieDone` deletes the
keys of a finished root.

The database returns keys in order, so the keys form runs of one root each.
Over such keys, with no zero root (the zero hash is `getNextTrie`'s mark for
"no root yet"), one call hands out the first group of `groupByKey` and leaves
the others to the cursor (`getNextTrie_spec`), deleting a root below the cursor
changes nothing ahead of it (`pending_storageTrieDone`), and `countTries`
counts the groups (`countTries_eq`).
-/

set_option autoImplicit false

namespace LuxEvm.Sync

open Lib.KeyGroups

/-- The order of the keys `syncStorageTriesPrefix ++ root ++ account`: by root,
then by account, both read most significant byte first. -/
def KeyLT (k k' : Hash × Hash) : Prop := k.1 < k'.1 ∨ (k.1 = k'.1 ∧ k.2 < k'.2)

instance : DecidableRel KeyLT := fun _ _ => inferInstanceAs (Decidable (_ ∨ _))

/-- The `trieQueue` with the keys it reads: the database's keys under
`syncStorageTriesPrefix`, in the order its iterators return them. -/
structure TrieQueue where
  markers : List (Hash × Hash)
  sorted : markers.Pairwise KeyLT
  nextStorageRoot : Option Hash

/-- `NewSyncStorageTriesIterator`: the keys from `syncStorageTriesPrefix ++ seek` on. -/
def newSyncStorageTriesIterator (markers : List (Hash × Hash)) : Option Hash → List (Hash × Hash)
  | none => markers
  | some seek => markers.filter fun k => seek ≤ k.1

/-- The loop of `getNextTrie`: the root read first (the zero hash before any),
its accounts, and the root that ended the run, if one did. -/
def nextTrieLoop : Hash → List Hash → List (Hash × Hash) → Hash × List Hash × Option Hash
  | root, accounts, [] => (root, accounts, none)
  | root, accounts, (nextRoot, nextAccount) :: rest =>
    let root := if root = 0 then nextRoot else root
    if root ≠ nextRoot then (root, accounts, some nextRoot)
    else nextTrieLoop root (accounts ++ [nextAccount]) rest

/-- `getNextTrie`: the next root, its accounts, whether more roots follow, and
the queue with its cursor moved to the next root. -/
def TrieQueue.getNextTrie (t : TrieQueue) : Hash × List Hash × Bool × TrieQueue :=
  match nextTrieLoop 0 [] (newSyncStorageTriesIterator t.markers t.nextStorageRoot) with
  | (root, accounts, some nextRoot) => (root, accounts, true, { t with nextStorageRoot := some nextRoot })
  | (root, accounts, none) => (root, accounts, false, t)

/-- The loop of `countTries`: a new root starts a new trie. -/
def countTriesLoop : Hash → ℕ → List (Hash × Hash) → ℕ
  | _, tries, [] => tries
  | root, tries, (nextRoot, _) :: rest =>
    if root = 0 ∨ root ≠ nextRoot then countTriesLoop nextRoot (tries + 1) rest
    else countTriesLoop root tries rest

/-- `countTries`: the number of roots, for the estimate of the time left. -/
def TrieQueue.countTries (t : TrieQueue) : ℕ :=
  countTriesLoop 0 0 (newSyncStorageTriesIterator t.markers none)

/-- A database `Put` of a key into the sorted keys: a key written twice is one key. -/
def insertMarker (k : Hash × Hash) : List (Hash × Hash) → List (Hash × Hash)
  | [] => [k]
  | k' :: rest => if KeyLT k k' then k :: k' :: rest else if k = k' then k' :: rest else k' :: insertMarker k rest

theorem mem_insertMarker {k x : Hash × Hash} {l : List (Hash × Hash)} :
    x ∈ insertMarker k l ↔ x = k ∨ x ∈ l := by
  induction l with
  | nil => simp [insertMarker]
  | cons k' rest ih =>
    rw [insertMarker]
    split_ifs with hlt heq
    · simp
    · subst heq
      simp
    · simp only [List.mem_cons, ih]
      tauto

theorem KeyLT.trans {k₁ k₂ k₃ : Hash × Hash} (h₁ : KeyLT k₁ k₂) (h₂ : KeyLT k₂ k₃) : KeyLT k₁ k₃ := by
  unfold KeyLT at *
  simp only [BitVec.lt_def, ← BitVec.toNat_inj] at *
  omega

theorem KeyLT.of_not {k k' : Hash × Hash} (hlt : ¬KeyLT k k') (hne : k ≠ k') : KeyLT k' k := by
  unfold KeyLT at *
  have : k.1.toNat ≠ k'.1.toNat ∨ k.2.toNat ≠ k'.2.toNat := by
    by_contra h
    exact hne (Prod.ext (BitVec.toNat_inj.mp (by omega)) (BitVec.toNat_inj.mp (by omega)))
  simp only [BitVec.lt_def, ← BitVec.toNat_inj] at *
  omega

theorem KeyLT.root_le {k k' : Hash × Hash} (h : KeyLT k k') : k.1 ≤ k'.1 := by
  unfold KeyLT at h
  simp only [BitVec.lt_def, BitVec.le_def, ← BitVec.toNat_inj] at *
  omega

theorem sorted_insertMarker (k : Hash × Hash) {l : List (Hash × Hash)} (hs : l.Pairwise KeyLT) :
    (insertMarker k l).Pairwise KeyLT := by
  induction l with
  | nil => simp [insertMarker]
  | cons k' rest ih =>
    rw [List.pairwise_cons] at hs
    rw [insertMarker]
    split_ifs with hlt heq
    · exact List.Pairwise.cons (fun x hx => (List.mem_cons.mp hx).elim (· ▸ hlt)
        fun hx => hlt.trans (hs.1 x hx)) (List.pairwise_cons.mpr hs)
    · exact List.pairwise_cons.mpr hs
    · refine List.pairwise_cons.mpr ⟨fun x hx => ?_, ih hs.2⟩
      rcases mem_insertMarker.mp hx with rfl | hx
      · exact KeyLT.of_not hlt heq
      · exact hs.1 x hx

/-- `RegisterStorageTrie`. -/
def TrieQueue.registerStorageTrie (t : TrieQueue) (root account : Hash) : TrieQueue :=
  { t with markers := insertMarker (root, account) t.markers, sorted := sorted_insertMarker _ t.sorted }

/-- `StorageTrieDone`: `ClearSyncStorageTrie` deletes every key of the root. -/
def TrieQueue.storageTrieDone (t : TrieQueue) (root : Hash) : TrieQueue :=
  { t with markers := t.markers.filter (fun k => k.1 ≠ root), sorted := t.sorted.filter _ }

/-- The groups `getNextTrie` has yet to hand out. -/
def TrieQueue.pending (t : TrieQueue) : List (Hash × List Hash) :=
  groupByKey (newSyncStorageTriesIterator t.markers t.nextStorageRoot)

/-! ## Runs of one root -/

theorem exists_run {r a : Hash} {l : List (Hash × Hash)} (hs : ((r, a) :: l).Pairwise KeyLT) :
    ∃ bs rest, (r, a) :: l = bs.map (fun b => (r, b)) ++ rest ∧ bs ≠ [] ∧ rest.Pairwise KeyLT ∧
      ∀ p ∈ rest, r < p.1 := by
  induction l generalizing a with
  | nil => exact ⟨[a], [], rfl, by simp, List.Pairwise.nil, by simp⟩
  | cons p l ih =>
    obtain ⟨r', a'⟩ := p
    have hlt := List.rel_of_pairwise_cons hs List.mem_cons_self
    rcases hlt with hr | ⟨hr, -⟩
    · -- the run of `r` is the one key
      refine ⟨[a], (r', a') :: l, rfl, by simp, hs.of_cons, fun q hq => ?_⟩
      rcases List.mem_cons.mp hq with rfl | hq
      · exact hr
      · have := (List.rel_of_pairwise_cons hs.of_cons hq).root_le
        simp only [BitVec.lt_def, BitVec.le_def] at hr this ⊢
        omega
    · -- the next key continues the run
      dsimp only at hr
      subst hr
      obtain ⟨bs, rest, heq, hne, hrest, hgt⟩ := ih hs.of_cons
      exact ⟨a :: bs, rest, by rw [List.map_cons, List.cons_append, ← heq], by simp, hrest, hgt⟩

theorem ne_of_lt_root {r : Hash} {l : List (Hash × Hash)} (h : ∀ p ∈ l, r < p.1) : ∀ p ∈ l, p.1 ≠ r :=
  fun p hp heq => by
    have := h p hp
    rw [heq, BitVec.lt_def] at this
    omega

theorem nextTrieLoop_zero_cons (accounts : List Hash) (r a : Hash) (rest : List (Hash × Hash)) :
    nextTrieLoop 0 accounts ((r, a) :: rest) = nextTrieLoop r (accounts ++ [a]) rest := by
  rw [nextTrieLoop, if_pos rfl, if_neg (not_not.mpr rfl)]

theorem nextTrieLoop_cons_self {r : Hash} (hr : r ≠ 0) (accounts : List Hash) (a : Hash)
    (rest : List (Hash × Hash)) : nextTrieLoop r accounts ((r, a) :: rest) = nextTrieLoop r (accounts ++ [a]) rest := by
  rw [nextTrieLoop, if_neg hr, if_neg (not_not.mpr rfl)]

theorem nextTrieLoop_of_ne {r r' : Hash} (hr : r ≠ 0) (hne : r ≠ r') (accounts : List Hash) (a : Hash)
    (rest : List (Hash × Hash)) : nextTrieLoop r accounts ((r', a) :: rest) = (r, accounts, some r') := by
  rw [nextTrieLoop, if_neg hr, if_pos hne]

theorem nextTrieLoop_run {r : Hash} (hr : r ≠ 0) (accounts bs : List Hash) (rest : List (Hash × Hash)) :
    nextTrieLoop r accounts (bs.map (fun b => (r, b)) ++ rest) = nextTrieLoop r (accounts ++ bs) rest := by
  induction bs generalizing accounts with
  | nil => simp
  | cons b bs ih =>
    rw [List.map_cons, List.cons_append, nextTrieLoop_cons_self hr, ih, List.append_assoc, List.singleton_append]

theorem countTriesLoop_run {r : Hash} (hr : r ≠ 0) (tries : ℕ) (bs : List Hash) (rest : List (Hash × Hash)) :
    countTriesLoop r tries (bs.map (fun b => (r, b)) ++ rest) = countTriesLoop r tries rest := by
  induction bs with
  | nil => simp
  | cons b bs ih =>
    rw [List.map_cons, List.cons_append, countTriesLoop, if_neg (not_or.mpr ⟨hr, fun h => h rfl⟩), ih]

/-! ## What one call hands out -/

section Queue

variable {t : TrieQueue}

theorem sorted_iterator (t : TrieQueue) (seek : Option Hash) :
    (newSyncStorageTriesIterator t.markers seek).Pairwise KeyLT := by
  cases seek with
  | none => exact t.sorted
  | some seek => exact t.sorted.filter _

theorem mem_iterator {t : TrieQueue} {seek : Option Hash} {k : Hash × Hash}
    (hk : k ∈ newSyncStorageTriesIterator t.markers seek) : k ∈ t.markers := by
  cases seek with
  | none => exact hk
  | some seek => exact (List.mem_filter.mp hk).1

theorem iterator_some_of_mem {t : TrieQueue} {seek : Option Hash} {k : Hash × Hash}
    (hk : k ∈ newSyncStorageTriesIterator t.markers seek) :
    newSyncStorageTriesIterator t.markers (some k.1) =
      (newSyncStorageTriesIterator t.markers seek).filter fun k' => k.1 ≤ k'.1 := by
  cases seek with
  | none => rfl
  | some s =>
    have hs : s ≤ k.1 := by simpa using (List.mem_filter.mp hk).2
    simp only [newSyncStorageTriesIterator, List.filter_filter]
    congr 1
    funext k'
    simp only [BitVec.le_def] at hs ⊢
    by_cases h : k.1.toNat ≤ k'.1.toNat
    · simp [h, show s.toNat ≤ k'.1.toNat by omega]
    · simp [h]

@[simp] theorem markers_getNextTrie (t : TrieQueue) : t.getNextTrie.2.2.2.markers = t.markers := by
  unfold TrieQueue.getNextTrie
  split <;> rfl

theorem getNextTrie_of_pending_eq_nil (hp : t.pending = []) : t.getNextTrie = (0, [], false, t) := by
  unfold TrieQueue.pending at hp
  have hnil : newSyncStorageTriesIterator t.markers t.nextStorageRoot = [] := by
    cases h : newSyncStorageTriesIterator t.markers t.nextStorageRoot with
    | nil => rfl
    | cons k rest =>
      obtain ⟨r, a⟩ := k
      rw [h, groupByKey] at hp
      exact absurd hp (List.cons_ne_nil _ _)
  simp [TrieQueue.getNextTrie, hnil, nextTrieLoop]

/-- One call hands out the first pending root with all its accounts, and says
whether more follow. If they do, the cursor moves past the root to the next
one, from which exactly the other groups are pending. -/
theorem getNextTrie_spec (hz : ∀ k ∈ t.markers, k.1 ≠ 0) {r : Hash} {bs : List Hash}
    {gs : List (Hash × List Hash)} (hp : t.pending = (r, bs) :: gs) :
    ∃ t' : TrieQueue, t.getNextTrie = (r, bs, decide (gs ≠ []), t') ∧ t'.markers = t.markers ∧
      (gs ≠ [] → ∃ next, t'.nextStorageRoot = some next ∧ r < next ∧ t'.pending = gs) := by
  unfold TrieQueue.pending at hp
  cases hL : newSyncStorageTriesIterator t.markers t.nextStorageRoot with
  | nil => simp [hL, groupByKey] at hp
  | cons k l =>
    obtain ⟨r₀, a⟩ := k
    have hs := sorted_iterator t t.nextStorageRoot
    rw [hL] at hs
    obtain ⟨cs, rest, heq, hne, hrest, hgt⟩ := exists_run hs
    have hr₀ : r₀ ≠ 0 := hz _ (mem_iterator (hL ▸ List.mem_cons_self))
    rw [hL, heq, groupByKey_append_run r₀ hne (ne_of_lt_root hgt), List.cons.injEq, Prod.mk.injEq] at hp
    obtain ⟨⟨rfl, rfl⟩, rfl⟩ := hp
    obtain ⟨b, cs, rfl⟩ := List.exists_cons_of_ne_nil hne
    have hloop : nextTrieLoop 0 [] ((r₀, a) :: l) = nextTrieLoop r₀ (b :: cs) rest := by
      rw [heq, List.map_cons, List.cons_append, nextTrieLoop_zero_cons, nextTrieLoop_run hr₀, List.nil_append,
        List.singleton_append]
    cases rest with
    | nil =>
      refine ⟨t, ?_, rfl, fun h => absurd rfl h⟩
      simp only [TrieQueue.getNextTrie, hL, hloop]
      simp [nextTrieLoop, groupByKey]
    | cons k' rest' =>
      obtain ⟨r', a'⟩ := k'
      have hlt : r₀ < r' := hgt _ List.mem_cons_self
      have hne' : r₀ ≠ r' := fun h => by rw [h, BitVec.lt_def] at hlt; omega
      refine ⟨{ t with nextStorageRoot := some r' }, ?_, rfl, fun _ => ⟨r', rfl, hlt, ?_⟩⟩
      · simp only [TrieQueue.getNextTrie, hL, hloop, nextTrieLoop_of_ne hr₀ hne']
        simp [groupByKey]
      · -- from the next root on, the iterator reads exactly the rest
        have hmem : (r', a') ∈ newSyncStorageTriesIterator t.markers t.nextStorageRoot := by
          rw [hL, heq]
          simp
        have hseek : newSyncStorageTriesIterator t.markers (some r') =
            (newSyncStorageTriesIterator t.markers t.nextStorageRoot).filter fun k => r' ≤ k.1 :=
          iterator_some_of_mem hmem
        have hrun : ((b :: cs).map fun c => (r₀, c)).filter (fun k => r' ≤ k.1) = [] :=
          List.filter_eq_nil_iff.mpr fun k hk => by
            obtain ⟨c, -, rfl⟩ := List.mem_map.mp hk
            simp only [BitVec.lt_def] at hlt
            simp [BitVec.le_def, hlt]
        have hkeep : ((r', a') :: rest').filter (fun k => r' ≤ k.1) = (r', a') :: rest' :=
          List.filter_eq_self.mpr fun k hk => by
            rcases List.mem_cons.mp hk with rfl | hk
            · simp
            · simpa using (List.rel_of_pairwise_cons hrest hk).root_le
        unfold TrieQueue.pending
        dsimp only
        rw [hseek, hL, heq, List.filter_append, hrun, hkeep, List.nil_append]

/-- Deleting the keys of a root below the cursor leaves what is pending alone. -/
theorem pending_storageTrieDone {c d : Hash} (hc : t.nextStorageRoot = some c) (hdc : d < c) :
    (t.storageTrieDone d).pending = t.pending := by
  unfold TrieQueue.pending TrieQueue.storageTrieDone
  dsimp only
  rw [hc, newSyncStorageTriesIterator, newSyncStorageTriesIterator, List.filter_filter]
  congr 2
  funext k
  by_cases h : c ≤ k.1
  · have hne : k.1 ≠ d := fun heq => by
      rw [BitVec.le_def] at h
      rw [BitVec.lt_def, ← heq] at hdc
      omega
    simp [h, hne]
  · simp [h]

theorem countTriesLoop_eq (n : ℕ) {r : Hash} {tries : ℕ} {L : List (Hash × Hash)} (hn : L.length ≤ n)
    (hs : L.Pairwise KeyLT) (hz : ∀ k ∈ L, k.1 ≠ 0) (hr : ∀ k ∈ L, k.1 ≠ r) :
    countTriesLoop r tries L = tries + (groupByKey L).length := by
  induction n generalizing r tries L with
  | zero =>
    rw [List.length_eq_zero_iff.mp (Nat.le_zero.mp hn)]
    rfl
  | succ n ih =>
    cases L with
    | nil => rfl
    | cons k l =>
      obtain ⟨r', a⟩ := k
      obtain ⟨bs, rest, heq, hne, hrest, hgt⟩ := exists_run hs
      obtain ⟨b, cs, rfl⟩ := List.exists_cons_of_ne_nil hne
      have hr' : r' ≠ 0 := hz _ List.mem_cons_self
      have hlen : rest.length ≤ n := by
        have := congrArg List.length heq
        simp only [List.length_cons, List.length_append, List.length_map] at this hn
        omega
      have hzrest : ∀ k ∈ rest, k.1 ≠ 0 := fun k hk => hz k (by rw [heq]; simp [hk])
      have hgroups : groupByKey ((r', a) :: l) = (r', b :: cs) :: groupByKey rest := by
        rw [heq]
        exact groupByKey_append_run r' (List.cons_ne_nil b cs) (ne_of_lt_root hgt)
      rw [hgroups, List.length_cons, heq, List.map_cons, List.cons_append, countTriesLoop,
        if_pos (.inr (Ne.symm (hr _ List.mem_cons_self))), countTriesLoop_run hr',
        ih hlen hrest hzrest (ne_of_lt_root hgt)]
      omega

theorem countTries_eq (hz : ∀ k ∈ t.markers, k.1 ≠ 0) : t.countTries = (groupByKey t.markers).length := by
  rw [TrieQueue.countTries, newSyncStorageTriesIterator, countTriesLoop_eq _ le_rfl t.sorted hz hz, Nat.zero_add]

end Queue

end LuxEvm.Sync
