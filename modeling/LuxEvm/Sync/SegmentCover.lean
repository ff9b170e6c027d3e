import LuxEvm.Sync.TrieSegments
import LuxEvm.Common
import LuxEvm.Lib.Tiling

/-!
# Trie segments tile the key space and hash in order

For 4 or 8 segments and any position of the trie's only segment, the ranges
`createSegments` leaves tile the 32-byte keys, and the ranges `loadSegments`
rebuilds from the persisted starts are the same. Whatever the order in which
the segments finish, the stack trie receives the synced leaves in key order,
each once, and the root is compared at the last finish only.
-/

set_option autoImplicit false

namespace LuxEvm.StateSync

open Lib.ByteString (value value_nil value_cons value_append value_replicate_max value_lt)
open Lib.Tiling

def maxKey : ℕ := 2^256-1

def TrieSegment.range (s : TrieSegment) : ℕ × ℕ :=
  (value s.start, if s.endKey = [] then maxKey else value s.endKey)

def TrieSegment.Shaped (s : TrieSegment) : Prop :=
  (s.start = [] ∨ s.start.length = 32) ∧ (s.endKey = [] ∨ s.endKey.length = 32)

/-- Range `j` of `createSegments` as the segment it adds. -/
def rangeSegment (numSegments j : ℕ) : TrieSegment :=
  ⟨segmentStart numSegments j, [], segmentEnd numSegments j⟩

section Bytes

@[simp] theorem length_addPadding (p : UInt16) (b : UInt8) : (addPadding p b).length = 32 := by
  simp [addPadding]

theorem addPadding_ne_nil (p : UInt16) (b : UInt8) : addPadding p b ≠ [] := by
  intro h
  have := congrArg List.length h
  simp at this

@[simp] theorem segmentEnd_ne_nil (numSegments i : ℕ) : segmentEnd numSegments i ≠ [] :=
  addPadding_ne_nil _ _

theorem value_addPadding (p : UInt16) (b : UInt8) :
    value (addPadding p b) = p.toNat*256^30+value (List.replicate 30 b) := by
  have hp := p.toNat_lt
  have h2 : value [(p >>> 8).toUInt8, p.toUInt8] = p.toNat := by
    simp [value_cons, Nat.shiftRight_eq_div_pow]
    omega
  rw [addPadding, value_append, h2, List.length_replicate]

theorem uint16_addPadding (p : UInt16) (b : UInt8) : uint16 (addPadding p b) = p := by
  have hp := p.toNat_lt
  apply UInt16.toNat_inj.mp
  simp [uint16, addPadding, value_cons, Nat.shiftRight_eq_div_pow, UInt16.toNat_ofNat']
  omega

theorem bytesToHash_of_length {b : List UInt8} (h : b.length = 32) : bytesToHash b = b := by
  simp [bytesToHash, h]

theorem value_bytesToHash {b : List UInt8} (h : b = [] ∨ b.length = 32) :
    value (bytesToHash b) = value b := by
  rcases h with rfl | h
  · rw [bytesToHash, List.length_nil, List.drop_nil, List.append_nil, value_replicate_zero]
    rfl
  · rw [bytesToHash_of_length h]

theorem length_bytesToHash {b : List UInt8} (h : b = [] ∨ b.length = 32) :
    (bytesToHash b).length = 32 := by
  rcases h with rfl | h
  · simp [bytesToHash]
  · rw [bytesToHash_of_length h, h]

theorem value_le_maxKey {k : List UInt8} (h : k.length = 32) : value k ≤ maxKey := by
  have := value_lt k
  rw [h] at this
  unfold maxKey
  omega

end Bytes

section Ranges

variable {numSegments : ℕ} (hstep : numSegments*(0x10000/numSegments) = 0x10000)
include hstep

theorem step_pos : 0 < 0x10000/numSegments := by
  rcases Nat.eq_zero_or_pos (0x10000/numSegments) with h | h
  · rw [h, Nat.mul_zero] at hstep
    omega
  · exact h

theorem mul_step_add_le {i : ℕ} (hi : i < numSegments) :
    i*(0x10000/numSegments)+0x10000/numSegments ≤ 0x10000 := by
  have h := Nat.mul_le_mul_right (0x10000/numSegments) (Nat.succ_le_of_lt hi)
  rw [Nat.succ_mul, hstep] at h
  exact h

theorem value_segmentStart {i : ℕ} (hi : i < numSegments) :
    value (segmentStart numSegments i) = i*(0x10000/numSegments)*256^30 := by
  have hle := mul_step_add_le hstep hi
  have hpos := step_pos hstep
  have ht : (UInt16.ofNat (i*(0x10000/numSegments))).toNat = i*(0x10000/numSegments) := by
    simp only [UInt16.toNat_ofNat']
    omega
  rw [segmentStart, value_addPadding, ht, value_replicate_zero, Nat.add_zero]

theorem value_segmentEnd_succ {i : ℕ} (hi : i < numSegments) :
    value (segmentEnd numSegments i)+1 = (i+1)*(0x10000/numSegments)*256^30 := by
  have hle := mul_step_add_le hstep hi
  have hpos := step_pos hstep
  have ht : (UInt16.ofNat (i*(0x10000/numSegments)+(0x10000/numSegments-1))).toNat =
      i*(0x10000/numSegments)+(0x10000/numSegments-1) := by
    simp only [UInt16.toNat_ofNat']
    omega
  have hW : 1 ≤ 256^30 := Nat.one_le_pow _ _ (by norm_num)
  have hsucc : (i+1)*(0x10000/numSegments) = i*(0x10000/numSegments)+(0x10000/numSegments-1)+1 := by
    rw [Nat.succ_mul]
    omega
  rw [segmentEnd, value_addPadding, ht, value_replicate_max, hsucc, Nat.succ_mul]
  omega

theorem start_le_segmentEnd {i : ℕ} (hi : i < numSegments) :
    i*(0x10000/numSegments)*256^30 < value (segmentEnd numSegments i)+1 := by
  have hW : 0 < (0x10000/numSegments)*256^30 :=
    Nat.mul_pos (step_pos hstep) (Nat.pow_pos (by norm_num))
  rw [value_segmentEnd_succ hstep hi, Nat.succ_mul, Nat.add_mul, Nat.mul_assoc]
  omega

theorem segmentEnd_lt {i j : ℕ} (hij : i < j) (hj : j < numSegments) :
    value (segmentEnd numSegments i) < value (segmentEnd numSegments j) := by
  have h1 := value_segmentEnd_succ hstep (Nat.lt_trans hij hj)
  have h2 := start_le_segmentEnd hstep hj
  have h3 : (i+1)*(0x10000/numSegments)*256^30 ≤ j*(0x10000/numSegments)*256^30 :=
    Nat.mul_le_mul_right _ (Nat.mul_le_mul_right _ hij)
  omega

theorem segmentEnd_last : value (segmentEnd numSegments (numSegments-1)) = maxKey := by
  have hn : 0 < numSegments := by
    rcases Nat.eq_zero_or_pos numSegments with h | h
    · rw [h, Nat.zero_mul] at hstep
      omega
    · exact h
  have h := @value_segmentEnd_succ numSegments hstep (numSegments-1) (by omega)
  rw [Nat.sub_add_cancel hn, hstep] at h
  unfold maxKey
  omega

theorem compare_segmentEnd_ne_lt {pos : List UInt8} (hpos : pos = [] ∨ pos.length = 32)
    {i : ℕ} (hi : i < numSegments) :
    Lib.ByteString.compare pos (segmentEnd numSegments i) ≠ .lt ↔
      value (segmentEnd numSegments i) ≤ value pos := by
  rcases hpos with rfl | hpos
  · have h := start_le_segmentEnd hstep hi
    have h1 := value_segmentEnd_succ hstep hi
    have hpos1 : 0 < (i+1)*(0x10000/numSegments)*256^30 :=
      Nat.mul_pos (Nat.mul_pos (Nat.succ_pos i) (step_pos hstep)) (Nat.pow_pos (by norm_num))
    have hcons : ∃ b bs, segmentEnd numSegments i = b :: bs := by
      cases h : segmentEnd numSegments i with
      | nil => exact absurd h (addPadding_ne_nil _ _)
      | cons b bs => exact ⟨b, bs, rfl⟩
    obtain ⟨b, bs, hbs⟩ := hcons
    rw [hbs, Lib.ByteString.compare, ← hbs, value_nil]
    constructor
    · intro h'
      exact absurd rfl h'
    · intro h'
      omega
  · rw [Lib.ByteString.compare_eq_of_length_eq (by rw [hpos, segmentEnd, length_addPadding]),
      Ne, Nat.compare_eq_lt, not_lt]

/-- After the rounds below `k`: either the first segment has passed every
range so far, or its end was set at the first range `i0` it had not passed
and a segment was added for every later range. -/
def CreatedUpTo (numSegments : ℕ) (pos : List UInt8) (k : ℕ) (s : Segmentation) : Prop :=
  (s = ⟨⟨[], pos, []⟩, [], []⟩ ∧ ∀ j < k, value (segmentEnd numSegments j) ≤ value pos) ∨
  ∃ i0 < k, value pos < value (segmentEnd numSegments i0) ∧
    s = ⟨⟨[], pos, segmentEnd numSegments i0⟩,
      (List.range' (i0+1) (k-(i0+1))).map (rangeSegment numSegments),
      (List.range' (i0+1) (k-(i0+1))).map (segmentStart numSegments)⟩

omit hstep in
@[simp] theorem length_segmentStart (i : ℕ) : (segmentStart numSegments i).length = 32 := by
  simp [segmentStart]

theorem CreatedUpTo.createRound {pos : List UInt8} (hpos : pos = [] ∨ pos.length = 32)
    {k : ℕ} {s : Segmentation} (hk : k < numSegments) (h : CreatedUpTo numSegments pos k s) :
    CreatedUpTo numSegments pos (k+1) (createRound numSegments s k) := by
  have hcmp := compare_segmentEnd_ne_lt hstep hpos hk
  rcases h with ⟨rfl, hpassed⟩ | ⟨i0, hi0, hlive, rfl⟩
  · by_cases hk' : value (segmentEnd numSegments k) ≤ value pos
    · -- range `k` is passed too
      left
      refine ⟨?_, fun j hj => ?_⟩
      · simp only [LuxEvm.StateSync.createRound]
        rw [if_pos (hcmp.mpr hk')]
      · rcases Nat.lt_succ_iff_lt_or_eq.mp hj with hj | rfl
        · exact hpassed j hj
        · exact hk'
    · -- range `k` becomes the end of the first segment
      right
      refine ⟨k, Nat.lt_succ_self k, by omega, ?_⟩
      simp only [LuxEvm.StateSync.createRound]
      rw [if_neg (fun h => hk' (hcmp.mp h)), if_pos trivial]
      simp
  · -- the first segment's end is set: range `k` is added
    right
    have hlive' := Nat.lt_trans hlive (segmentEnd_lt hstep hi0 hk)
    refine ⟨i0, by omega, hlive, ?_⟩
    simp only [LuxEvm.StateSync.createRound]
    rw [if_neg (fun h => absurd (hcmp.mp h) (Nat.not_le.mpr hlive')),
      if_neg (segmentEnd_ne_nil _ _)]
    have hlen : k+1-(i0+1) = k-(i0+1)+1 := by omega
    have hlast : i0+1+1*(k-(i0+1)) = k := by omega
    rw [hlen, List.range'_concat, hlast, List.map_append, List.map_append,
      bytesToHash_of_length (length_segmentStart k)]
    rfl

theorem createdUpTo_foldl {pos : List UInt8} (hpos : pos = [] ∨ pos.length = 32) (k : ℕ)
    (hk : k ≤ numSegments) :
    CreatedUpTo numSegments pos k
      ((List.range k).foldl (LuxEvm.StateSync.createRound numSegments) ⟨⟨[], pos, []⟩, [], []⟩) := by
  induction k with
  | zero => exact Or.inl ⟨rfl, fun j hj => absurd hj (Nat.not_lt_zero j)⟩
  | succ k ih =>
    rw [List.range_succ, List.foldl_append, List.foldl_cons, List.foldl_nil]
    exact (ih (by omega)).createRound hstep hpos (by omega)

theorem createdUpTo_createSegments {pos : List UInt8} (hpos : pos = [] ∨ pos.length = 32) :
    CreatedUpTo numSegments pos numSegments (createSegments ⟨[], pos, []⟩ numSegments) :=
  createdUpTo_foldl hstep hpos numSegments (Nat.le_refl _)

theorem range_rangeSegment {j : ℕ} (hj : j < numSegments) :
    (rangeSegment numSegments j).range =
      (j*(0x10000/numSegments)*256^30, value (segmentEnd numSegments j)) := by
  simp only [TrieSegment.range, rangeSegment, segmentEnd_ne_nil, ↓reduceIte,
    value_segmentStart hstep hj]

/-- The ranges added from `a` on tile the keys from the start of range `a`. -/
theorem tiles_rangeSegments (m : ℕ) :
    ∀ a, a+m = numSegments →
      Tiles (a*(0x10000/numSegments)*256^30) maxKey
        ((List.range' a m).map fun j => (rangeSegment numSegments j).range) := by
  induction m with
  | zero =>
    intro a ha
    rw [Nat.add_zero] at ha
    subst ha
    rw [List.range'_zero, List.map_nil, Tiles, hstep]
    norm_num [maxKey]
  | succ m ih =>
    intro a ha
    rw [List.range'_succ, List.map_cons, Tiles, range_rangeSegment hstep (by omega)]
    refine ⟨rfl, Nat.le_of_lt_succ (start_le_segmentEnd hstep (by omega)), ?_⟩
    rw [value_segmentEnd_succ hstep (by omega)]
    exact ih (a+1) (by omega)

omit hstep in
theorem segments_createdUpTo {pos : List UInt8} {k : ℕ} {s : Segmentation}
    (h : CreatedUpTo numSegments pos k s) :
    (s.segments = [⟨[], pos, []⟩] ∧ s.persisted = []) ∨
    ∃ i0 < k, s.segments = ⟨[], pos, segmentEnd numSegments i0⟩ ::
        (List.range' (i0+1) (k-(i0+1))).map (rangeSegment numSegments) ∧
      s.persisted = (List.range' (i0+1) (k-(i0+1))).map (segmentStart numSegments) := by
  rcases h with ⟨rfl, -⟩ | ⟨i0, hi0, -, rfl⟩
  · exact Or.inl ⟨rfl, rfl⟩
  · exact Or.inr ⟨i0, hi0, rfl, rfl⟩

theorem CreatedUpTo.tiles {pos : List UInt8} {s : Segmentation}
    (h : CreatedUpTo numSegments pos numSegments s) :
    Tiles 0 maxKey (s.segments.map TrieSegment.range) := by
  rcases segments_createdUpTo h with ⟨hs, -⟩ | ⟨i0, hi0, hs, -⟩
  · rw [hs]
    exact ⟨rfl, Nat.zero_le _, rfl⟩
  · rw [hs, List.map_cons, List.map_map]
    refine ⟨rfl, ?_, ?_⟩
    · exact Nat.zero_le _
    · simp only [TrieSegment.range, segmentEnd_ne_nil, ↓reduceIte]
      rw [value_segmentEnd_succ hstep hi0]
      exact tiles_rangeSegments hstep _ (i0+1) (by omega)

theorem addPadding_uint16_pred {a : ℕ} (ha : 1 ≤ a) (ha' : a < numSegments) :
    addPadding (uint16 (segmentStart numSegments a)-1) 0xff = segmentEnd numSegments (a-1) := by
  have hle := mul_step_add_le hstep ha'
  have hpos := step_pos hstep
  have hmul : (a-1)*(0x10000/numSegments) = a*(0x10000/numSegments)-0x10000/numSegments :=
    Nat.sub_one_mul _ _
  have hge : 0x10000/numSegments ≤ a*(0x10000/numSegments) :=
    Nat.le_mul_of_pos_left _ (by omega)
  rw [segmentStart, uint16_addPadding, segmentEnd]
  congr 1
  apply UInt16.toNat_inj.mp
  rw [UInt16.toNat_sub_of_le]
  · simp only [UInt16.toNat_ofNat', hmul]
    simp only [UInt16.toNat_one]
    omega
  · rw [UInt16.le_iff_toNat_le]
    simp only [UInt16.toNat_ofNat', UInt16.toNat_one]
    omega

omit hstep in
theorem range_restorePos (leafs : List (List UInt8 × List UInt8)) (s : TrieSegment) :
    (restorePos leafs s).range = s.range := by
  unfold restorePos
  split <;> rfl

omit hstep in
theorem bounds_restorePos (leafs : List (List UInt8 × List UInt8)) (s : TrieSegment) :
    (restorePos leafs s).start = s.start ∧ (restorePos leafs s).endKey = s.endKey := by
  unfold restorePos
  split <;> exact ⟨rfl, rfl⟩

theorem loadRanges_range (m : ℕ) :
    ∀ a (prev : List UInt8), 1 ≤ a → a+m = numSegments →
      (loadRanges prev ((List.range' a m).map (segmentStart numSegments))).map TrieSegment.range =
        (value prev, value (segmentEnd numSegments (a-1))) ::
          (List.range' a m).map fun j => (rangeSegment numSegments j).range := by
  induction m with
  | zero =>
    intro a prev ha ham
    rw [Nat.add_zero] at ham
    subst ham
    rw [segmentEnd_last hstep]
    rfl
  | succ m ih =>
    intro a prev ha ham
    rw [List.range'_succ, List.map_cons, loadRanges, List.map_cons, ih (a+1) _ (by omega) (by omega),
      addPadding_uint16_pred hstep ha (by omega), List.map_cons, Nat.add_sub_cancel,
      range_rangeSegment hstep (by omega)]
    simp only [TrieSegment.range, segmentEnd_ne_nil, ↓reduceIte, rangeSegment,
      value_segmentStart hstep (show a < numSegments by omega)]

theorem CreatedUpTo.loadSegments {pos : List UInt8} {s : Segmentation}
    (h : CreatedUpTo numSegments pos numSegments s) (leafs : List (List UInt8 × List UInt8)) :
    (LuxEvm.StateSync.loadSegments leafs s.persisted).map TrieSegment.range =
      s.segments.map TrieSegment.range := by
  rw [LuxEvm.StateSync.loadSegments, List.map_map]
  have hr : TrieSegment.range ∘ restorePos leafs = TrieSegment.range :=
    funext (range_restorePos leafs)
  rw [hr]
  rcases segments_createdUpTo h with ⟨hs, hp⟩ | ⟨i0, hi0, hs, hp⟩
  · rw [hs, hp]
    rfl
  · rw [hs, hp, loadRanges_range hstep _ (i0+1) [] (by omega) (by omega), List.map_cons, List.map_map]
    simp only [TrieSegment.range, segmentEnd_ne_nil, ↓reduceIte, Nat.add_sub_cancel, value_nil]
    rfl

omit hstep in
theorem CreatedUpTo.shaped {pos : List UInt8} {k : ℕ}
    {s : Segmentation} (h : CreatedUpTo numSegments pos k s) :
    ∀ seg ∈ s.segments, seg.Shaped := by
  rcases segments_createdUpTo h with ⟨hs, -⟩ | ⟨i0, -, hs, -⟩
  · rw [hs]
    intro seg hseg
    rw [List.mem_singleton.mp hseg]
    exact ⟨Or.inl rfl, Or.inl rfl⟩
  · rw [hs]
    intro seg hseg
    rcases List.mem_cons.mp hseg with rfl | hseg
    · exact ⟨Or.inl rfl, Or.inr (by simp [segmentEnd])⟩
    · obtain ⟨j, -, rfl⟩ := List.mem_map.mp hseg
      exact ⟨Or.inr (length_segmentStart j), Or.inr (by simp [rangeSegment, segmentEnd])⟩

omit hstep in
theorem CreatedUpTo.length_persisted {pos : List UInt8} {k : ℕ} {s : Segmentation}
    (h : CreatedUpTo numSegments pos k s) : ∀ p ∈ s.persisted, p.length = 32 := by
  rcases segments_createdUpTo h with ⟨-, hp⟩ | ⟨i0, -, -, hp⟩
  · simp [hp]
  · rw [hp]
    intro p hp'
    obtain ⟨j, -, rfl⟩ := List.mem_map.mp hp'
    exact length_segmentStart j

end Ranges

theorem shaped_loadRanges (persisted : List (List UInt8)) (hp : ∀ p ∈ persisted, p.length = 32) :
    ∀ prev : List UInt8, (prev = [] ∨ prev.length = 32) → ∀ s ∈ loadRanges prev persisted, s.Shaped := by
  induction persisted with
  | nil =>
    intro prev hprev s hs
    rw [loadRanges, List.mem_singleton] at hs
    subst hs
    exact ⟨hprev, Or.inl rfl⟩
  | cons p rest ih =>
    intro prev hprev s hs
    rw [loadRanges] at hs
    rcases List.mem_cons.mp hs with rfl | hs
    · exact ⟨hprev, Or.inr (length_addPadding _ _)⟩
    · exact ih (fun q hq => hp q (List.mem_cons_of_mem p hq)) p
        (Or.inr (hp p List.mem_cons_self)) s hs

theorem shaped_loadSegments (leafs : List (List UInt8 × List UInt8))
    (persisted : List (List UInt8)) (hp : ∀ p ∈ persisted, p.length = 32) :
    ∀ s ∈ loadSegments leafs persisted, s.Shaped := by
  intro s hs
  obtain ⟨s', hs', rfl⟩ := List.mem_map.mp hs
  obtain ⟨h1, h2⟩ := bounds_restorePos leafs s'
  have h := shaped_loadRanges persisted hp [] (Or.inl rfl) s' hs'
  rw [TrieSegment.Shaped, h1, h2]
  exact h

section Leafs

variable {leafs : List (List UInt8 × List UInt8)}

theorem segmentLeafs_eq_window {s : TrieSegment} (hs : s.Shaped)
    (hl : ∀ kv ∈ leafs, kv.1.length = 32) :
    segmentLeafs leafs s = window (fun kv => value kv.1) leafs s.range := by
  have hstart : ∀ kv ∈ leafs,
      decide (Lib.ByteString.compare kv.1 (bytesToHash s.start) = .lt) =
        decide (value kv.1 < s.range.1) := by
    intro kv hkv
    apply decide_eq_decide.mpr
    rw [Lib.ByteString.compare_eq_of_length_eq (by rw [hl kv hkv, length_bytesToHash hs.1]),
      value_bytesToHash hs.1, Nat.compare_eq_lt]
    rfl
  have hend : ∀ kv ∈ leafs.dropWhile (fun kv => value kv.1 < s.range.1),
      decide (s.endKey = [] ∨ Lib.ByteString.compare kv.1 s.endKey ≠ .gt) =
        decide (value kv.1 ≤ s.range.2) := by
    intro kv hkv
    have hk := hl kv (List.dropWhile_subset _ hkv)
    rcases hs.2 with he | he
    · simp only [TrieSegment.range, he, if_pos, true_or, decide_true]
      exact (decide_eq_true (value_le_maxKey hk)).symm
    · have hne : s.endKey ≠ [] := by
        intro h
        rw [h] at he
        simp at he
      apply decide_eq_decide.mpr
      rw [Lib.ByteString.compare_eq_of_length_eq (by rw [hk, he]), Ne, Nat.compare_eq_gt]
      simp only [TrieSegment.range, hne, ↓reduceIte, false_or, not_lt]
  rw [segmentLeafs, window, dropWhile_congr hstart, takeWhile_congr hend]

theorem flatten_segmentLeafs {segments : List TrieSegment}
    (ht : Tiles 0 maxKey (segments.map TrieSegment.range)) (hs : ∀ s ∈ segments, s.Shaped)
    (hl : ∀ kv ∈ leafs, kv.1.length = 32) :
    (segments.map (segmentLeafs leafs)).flatten = leafs := by
  have h := flatten_window (fun kv => value kv.1) ht leafs
    (fun kv hkv => value_le_maxKey (hl kv hkv))
  rw [List.map_congr_left (fun s hs' => segmentLeafs_eq_window (hs s hs') hl)]
  show (List.map (window (fun kv => value kv.1) leafs ∘ TrieSegment.range) segments).flatten = leafs
  rw [← List.map_map, h]
  simp

end Leafs

section Hashing

variable (segments : List TrieSegment) (leafs : List (List UInt8 × List UInt8))

/-- The leaves of the segments below `c`, in segment order. -/
def hashedBelow (c : ℕ) : List (List UInt8 × List UInt8) :=
  ((segments.take c).map (segmentLeafs leafs)).flatten

structure Hashed (st : HashState) : Prop where
  cursor_le : st.segmentToHashNext ≤ segments.length
  updates_eq : st.updates = hashedBelow segments leafs st.segmentToHashNext
  done_below : ∀ j < st.segmentToHashNext, j ∈ st.segmentsDone

theorem hashedBelow_succ {c : ℕ} (hc : c < segments.length) :
    hashedBelow segments leafs (c+1) =
      hashedBelow segments leafs c ++ segmentLeafs leafs segments[c] := by
  rw [hashedBelow, hashedBelow, List.take_add_one, List.getElem?_eq_getElem hc, Option.toList_some,
    List.map_append, List.flatten_append, List.map_singleton, List.flatten_singleton]

/-- The loop of `segmentFinished` stops at the first segment that has not
finished, or past the last. -/
theorem hashFinished_spec (fuel : ℕ) :
    ∀ st : HashState, Hashed segments leafs st → segments.length-st.segmentToHashNext ≤ fuel →
      Hashed segments leafs (hashFinished segments leafs fuel st) ∧
        (hashFinished segments leafs fuel st).segmentsDone = st.segmentsDone ∧
        ((hashFinished segments leafs fuel st).segmentToHashNext < segments.length →
          (hashFinished segments leafs fuel st).segmentToHashNext ∉ st.segmentsDone) := by
  induction fuel with
  | zero =>
    intro st h hfuel
    rw [hashFinished]
    exact ⟨h, rfl, fun hlt => absurd hlt (by omega)⟩
  | succ fuel ih =>
    intro st h hfuel
    by_cases hd : st.segmentToHashNext ∈ st.segmentsDone
    · cases hseg : segments[st.segmentToHashNext]? with
      | none =>
        have hge := List.getElem?_eq_none_iff.mp hseg
        rw [hashFinished, if_pos hd, hseg]
        exact ⟨h, rfl, fun hlt => absurd hlt (Nat.not_lt.mpr hge)⟩
      | some seg =>
        obtain ⟨hc, rfl⟩ := List.getElem?_eq_some_iff.mp hseg
        rw [hashFinished, if_pos hd, hseg]
        have h' : Hashed segments leafs
            { st with
              updates := st.updates ++ segmentLeafs leafs segments[st.segmentToHashNext]
              segmentToHashNext := st.segmentToHashNext+1 } := by
          refine ⟨hc, ?_, ?_⟩
          · rw [hashedBelow_succ segments leafs hc, h.updates_eq]
          · intro j hj
            rcases Nat.lt_succ_iff_lt_or_eq.mp hj with hj | rfl
            · exact h.done_below j hj
            · exact hd
        exact ih _ h' (by simp only; omega)
    · rw [hashFinished, if_neg hd]
      exact ⟨h, rfl, fun _ => hd⟩

section Finish

variable {η : Type} [DecidableEq η] (stackTrieHash : List (List UInt8 × List UInt8) → η) (root : η)

theorem finishAll_cons (st : HashState) (idx : ℕ) (rest : List ℕ) :
    finishAll stackTrieHash root segments leafs st (idx :: rest) =
      ((finishAll stackTrieHash root segments leafs
          (segmentFinished stackTrieHash root segments leafs st idx).1 rest).1,
        (segmentFinished stackTrieHash root segments leafs st idx).2 ::
          (finishAll stackTrieHash root segments leafs
            (segmentFinished stackTrieHash root segments leafs st idx).1 rest).2) := rfl

theorem segmentFinished_eq (st : HashState) (idx : ℕ) :
    segmentFinished stackTrieHash root segments leafs st idx =
      let r := hashFinished segments leafs segments.length
        { st with segmentsDone := idx :: st.segmentsDone }
      (r, if r.segmentToHashNext < segments.length then .pending
        else if stackTrieHash r.updates ≠ root then .unexpectedRoot else .finished) := by
  simp only [segmentFinished]
  split_ifs <;> rfl

/-- The finishes of the remaining segments: every one but the last is
pending, and the last hashes every segment. -/
theorem finishAll_spec (rest : List ℕ) :
    ∀ st : HashState, Hashed segments leafs st → rest ≠ [] → rest.Nodup →
      (∀ j ∈ rest, j < segments.length ∧ j ∉ st.segmentsDone) →
      (∀ j < segments.length, j ∈ st.segmentsDone ∨ j ∈ rest) →
      (finishAll stackTrieHash root segments leafs st rest).1.updates =
          hashedBelow segments leafs segments.length ∧
        (finishAll stackTrieHash root segments leafs st rest).2 =
          List.replicate (rest.length-1) .pending ++
            [if stackTrieHash (hashedBelow segments leafs segments.length) ≠ root then .unexpectedRoot
              else .finished] := by
  induction rest with
  | nil => intro st _ hne; exact absurd rfl hne
  | cons idx rest ih =>
    intro st h _ hnd hdisj hall
    have h1 : Hashed segments leafs { st with segmentsDone := idx :: st.segmentsDone } :=
      ⟨h.cursor_le, h.updates_eq, fun j hj => List.mem_cons_of_mem idx (h.done_below j hj)⟩
    obtain ⟨hH, hdone, hstop⟩ := hashFinished_spec segments leafs segments.length _ h1 (by simp only; omega)
    set r := hashFinished segments leafs segments.length { st with segmentsDone := idx :: st.segmentsDone }
      with hr
    simp only at hdone hstop
    rw [finishAll_cons, segmentFinished_eq]
    simp only [← hr]
    obtain ⟨hidx, hrest⟩ := List.nodup_cons.mp hnd
    cases rest with
    | nil =>
      -- the last finish: every segment has finished, so the cursor is past the last
      have hend : r.segmentToHashNext = segments.length := by
        rcases Nat.lt_or_ge r.segmentToHashNext segments.length with hlt | hge
        · rcases hall _ hlt with hin | hin
          · exact absurd (List.mem_cons_of_mem idx hin) (hstop hlt)
          · rw [List.mem_singleton] at hin
            exact absurd (hin ▸ List.mem_cons_self) (hstop hlt)
        · exact Nat.le_antisymm hH.cursor_le hge
      have hu : r.updates = hashedBelow segments leafs segments.length := by
        rw [hH.updates_eq, hend]
      rw [if_neg (by omega)]
      refine ⟨hu, ?_⟩
      rw [hu]
      rfl
    | cons j rest' =>
      -- a later segment has not finished, so the cursor stops at or below it
      obtain ⟨hj, hjdone⟩ := hdisj j (List.mem_cons_of_mem idx List.mem_cons_self)
      have hjr : j ∉ r.segmentsDone := by
        rw [hdone]
        intro hm
        rcases List.mem_cons.mp hm with rfl | hm
        · exact hidx List.mem_cons_self
        · exact hjdone hm
      have hcur : r.segmentToHashNext < segments.length := by
        rcases Nat.lt_or_ge j r.segmentToHashNext with hlt | hge
        · exact absurd (hH.done_below j hlt) hjr
        · omega
      rw [if_pos hcur]
      obtain ⟨ih1, ih2⟩ := ih r hH (List.cons_ne_nil j rest') hrest
        (fun j' hj' => ⟨(hdisj j' (List.mem_cons_of_mem idx hj')).1, by
          rw [hdone]
          intro hm
          rcases List.mem_cons.mp hm with rfl | hm
          · exact hidx hj'
          · exact (hdisj j' (List.mem_cons_of_mem _ hj')).2 hm⟩)
        (fun j' hj' => by
          rw [hdone]
          rcases hall j' hj' with hin | hin
          · exact Or.inl (List.mem_cons_of_mem idx hin)
          · rcases List.mem_cons.mp hin with rfl | hin
            · exact Or.inl List.mem_cons_self
            · exact Or.inr hin)
      refine ⟨ih1, ?_⟩
      rw [ih2]
      simp only [List.length_cons, Nat.add_sub_cancel, List.replicate_succ, List.cons_append]

end Finish

end Hashing

def FinishesInOrder (segments : List TrieSegment) (leafs : List (List UInt8 × List UInt8)) :
    Prop :=
  ∀ order : List ℕ, order.Perm (List.range segments.length) →
    ∀ (η : Type) [DecidableEq η] (stackTrieHash : List (List UInt8 × List UInt8) → η) (root : η),
      (finishAll stackTrieHash root segments leafs ⟨[], 0, []⟩ order).1.updates = leafs ∧
      (finishAll stackTrieHash root segments leafs ⟨[], 0, []⟩ order).2 =
        List.replicate (segments.length-1) .pending ++
          [if stackTrieHash leafs ≠ root then .unexpectedRoot else .finished]

theorem finishesInOrder_of_tiles {segments : List TrieSegment}
    (ht : Tiles 0 maxKey (segments.map TrieSegment.range)) (hs : ∀ s ∈ segments, s.Shaped)
    {leafs : List (List UInt8 × List UInt8)} (hl : ∀ kv ∈ leafs, kv.1.length = 32) :
    FinishesInOrder segments leafs := by
  intro order hperm η _ stackTrieHash root
  have hflat : hashedBelow segments leafs segments.length = leafs := by
    rw [hashedBelow, List.take_length, flatten_segmentLeafs ht hs hl]
  have hne : segments ≠ [] := by
    intro h
    rw [h] at ht
    exact ht.ne_nil (Nat.zero_le _) rfl
  have hlen : order.length = segments.length := by rw [hperm.length_eq, List.length_range]
  have horder : order ≠ [] := by
    intro h
    rw [h, List.length_nil] at hlen
    exact hne (List.eq_nil_of_length_eq_zero hlen.symm)
  have h0 : Hashed segments leafs ⟨[], 0, []⟩ :=
    ⟨Nat.zero_le _, by simp [hashedBelow], fun j hj => absurd hj (Nat.not_lt_zero j)⟩
  obtain ⟨h1, h2⟩ := finishAll_spec segments leafs stackTrieHash root order _ h0 horder
    (hperm.nodup_iff.mpr List.nodup_range)
    (fun j hj => ⟨List.mem_range.mp (hperm.subset hj), List.not_mem_nil⟩)
    (fun j hj => Or.inr (hperm.symm.subset (List.mem_range.mpr hj)))
  rw [hflat] at h1 h2
  rw [hlen] at h2
  exact ⟨h1, h2⟩

end LuxEvm.StateSync
