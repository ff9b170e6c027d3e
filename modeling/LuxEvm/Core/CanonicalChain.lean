import LuxEvm.Core.BlockChain
import LuxEvm.Lib.Ancestry

/-!
# Accepted blocks stay on the canonical chain

The blocks a run names form a tree: no block has the empty hash, a hash names
one block, and a block sits one height above its parent. Ancestry is read in
that tree, so it does not change when `Reject` deletes a block. Every call
keeps the last accepted block below the head, the accepted blocks a chain of
parent links from genesis, and the canonical index the head's ancestry.

`reorg` looks blocks up in the database; every block it finds there is in
the tree, so its walks are walks in the tree.
-/

set_option autoImplicit false

namespace LuxEvm.Core

open Lib.Ancestry

structure BlockTree where
  blocks : List Block
  genesis : Block
  genesis_mem : genesis ∈ blocks
  genesis_number : genesis.number = 0
  hash_ne_zero : ∀ b ∈ blocks, b.hash ≠ 0
  hash_inj : ∀ b ∈ blocks, ∀ b' ∈ blocks, b.hash = b'.hash → b = b'
  number_parent : ∀ b ∈ blocks, ∀ p ∈ blocks, b.parentHash = p.hash → b.number = p.number+1

namespace BlockTree

variable (T : BlockTree)

def parent (b : Block) : Option Block :=
  T.blocks.find? fun p => p.hash = b.parentHash ∧ p.number+1 = b.number

def ancestorAt (b : Block) (n : ℕ) : Option Block := Lib.Ancestry.ancestorAt T.parent Block.number b n

variable {T}

theorem parent_spec {b p : Block} (h : T.parent b = some p) :
    p ∈ T.blocks ∧ p.hash = b.parentHash ∧ p.number+1 = b.number := by
  have hp := List.find?_some h
  simp only [decide_eq_true_eq] at hp
  exact ⟨List.mem_of_find?_eq_some h, hp⟩

theorem graded : ∀ b p, T.parent b = some p → b.number = p.number+1 :=
  fun _ _ h => (parent_spec h).2.2.symm

theorem parent_eq {b p : Block} (hp : p ∈ T.blocks) (hhash : p.hash = b.parentHash)
    (hnum : p.number+1 = b.number) : T.parent b = some p := by
  have hsome : (T.parent b).isSome := List.find?_isSome.mpr ⟨p, hp, by simp [hhash, hnum]⟩
  obtain ⟨q, hq⟩ := Option.isSome_iff_exists.mp hsome
  obtain ⟨hqm, hqh, -⟩ := parent_spec hq
  rw [hq, T.hash_inj q hqm p hp (hqh.trans hhash.symm)]

theorem parent_of_mem {b p : Block} (hb : b ∈ T.blocks) (hp : p ∈ T.blocks)
    (h : b.parentHash = p.hash) : T.parent b = some p :=
  parent_eq hp h.symm (T.number_parent b hb p hp h).symm

theorem up_mem {k : ℕ} {b a : Block} (hb : b ∈ T.blocks) (h : up T.parent k b = some a) :
    a ∈ T.blocks := by
  induction k generalizing b with
  | zero =>
    cases h
    exact hb
  | succ k ih =>
    rw [up_succ, Option.bind_eq_some_iff] at h
    obtain ⟨p, hp, hpa⟩ := h
    exact ih (parent_spec hp).1 hpa

theorem ancestorAt_mem {b a : Block} {n : ℕ} (hb : b ∈ T.blocks) (h : T.ancestorAt b n = some a) :
    a ∈ T.blocks :=
  up_mem hb h

theorem eq_of_ancestorAt_hash {b a c : Block} {n : ℕ} (hb : b ∈ T.blocks) (hc : c ∈ T.blocks)
    (h : T.ancestorAt b n = some a) (hhash : a.hash = c.hash) : a = c :=
  T.hash_inj a (ancestorAt_mem hb h) c hc hhash

end BlockTree

namespace CanonicalIndex

@[simp] theorem hashAt_write (c : CanonicalIndex) (hash : Hash) (n m : ℕ) :
    (c.write hash n).hashAt m = if m = n then some hash else c.hashAt m := rfl

@[simp] theorem hashAt_delete (c : CanonicalIndex) (n m : ℕ) :
    (c.delete n).hashAt m = if m = n then none else c.hashAt m := rfl

theorem read_delete_of_ne (c : CanonicalIndex) {n m : ℕ} (h : m ≠ n) :
    (c.delete n).read m = c.read m := by
  simp [read, h]

theorem lt_top_of_read_ne_zero (c : CanonicalIndex) {n : ℕ} (h : c.read n ≠ 0) : n < c.top := by
  by_contra hn
  exact h (by simp [read, c.hashAt_top n (by omega)])

theorem hashAt_deleteRun (fuel : ℕ) (c : CanonicalIndex) (i j : ℕ) (hij : i ≤ j)
    (hj : j ≤ i+fuel) (hfull : ∀ m, i ≤ m → m < j → c.read m ≠ 0)
    (hstop : j < i+fuel → c.read j = 0) (n : ℕ) :
    (deleteRun fuel c i).hashAt n = if i ≤ n ∧ n < j then none else c.hashAt n := by
  induction fuel generalizing c i with
  | zero =>
    have hji : j = i := by omega
    simp [deleteRun, hji]
  | succ fuel ih =>
    by_cases hread : c.read i = 0
    · -- the loop stops at once, and `j` is `i`
      have hji : j = i := by
        by_contra hne
        exact hfull i le_rfl (by omega) hread
      simp [deleteRun, hread, hji]
    · have hlt : i < j := by
        by_contra hle
        have hji : j = i := by omega
        exact hread (hji ▸ hstop (by omega))
      rw [deleteRun, if_neg hread, ih (c.delete i) (i+1) (by omega) (by omega)
        (fun m hm hmj => by rw [read_delete_of_ne c (by omega)]; exact hfull m (by omega) hmj)
        (fun hj' => by rw [read_delete_of_ne c (by omega)]; exact hstop (by omega))]
      by_cases hni : n = i
      · simp [hni, hlt]
      · simp only [hashAt_delete, hni, if_false]
        by_cases hin : i+1 ≤ n ∧ n < j
        · simp [hin, show i ≤ n ∧ n < j by omega]
        · rw [if_neg hin, if_neg (by omega)]

theorem hashAt_deleteFrom (c : CanonicalIndex) (i j : ℕ) (hij : i ≤ j)
    (hfull : ∀ m, i ≤ m → m < j → c.read m ≠ 0) (hstop : c.read j = 0) (n : ℕ) :
    (c.deleteFrom i).hashAt n = if i ≤ n ∧ n < j then none else c.hashAt n := by
  have hj : j ≤ i+(c.top-i) := by
    rcases Nat.eq_or_lt_of_le hij with rfl | hlt
    · omega
    · have := c.lt_top_of_read_ne_zero (hfull (j-1) (by omega) (by omega))
      omega
  exact hashAt_deleteRun _ c i j hij hj hfull (fun _ => hstop) n

end CanonicalIndex

/-! ## The walks of `reorg` -/

section Walks

variable {T : BlockTree} {blocks : List Block} (hdb : ∀ b ∈ blocks, b ∈ T.blocks)

theorem getBlock_spec {hash : Hash} {n : ℕ} {b : Block} (h : getBlock blocks hash n = some b) :
    b ∈ blocks ∧ b.hash = hash ∧ b.number = n := by
  have hb := List.find?_some h
  simp only [decide_eq_true_eq] at hb
  exact ⟨List.mem_of_find?_eq_some h, hb⟩

include hdb

theorem parent_of_getBlock {b p : Block} (h : getBlock blocks b.parentHash (b.number-1) = some p)
    (hb : b.number ≠ 0) : T.parent b = some p := by
  obtain ⟨hmem, hhash, hnum⟩ := getBlock_spec h
  exact BlockTree.parent_eq (hdb p hmem) hhash (by omega)

theorem parent_of_parentBlock {b p : Block} (h : parentBlock blocks b = some p) :
    T.parent b = some p := by
  unfold parentBlock at h
  split at h
  · cases h
  · exact parent_of_getBlock hdb h ‹_›

theorem walkDown_spec (k : ℕ) (b : Block) (passed : List Block) (r : Block)
    (h : walkDown blocks k b = (passed, some r)) :
    up T.parent k b = some r ∧ passed.length = k ∧ ∀ i < k, passed[i]? = up T.parent i b := by
  induction k generalizing b passed with
  | zero =>
    simp only [walkDown, Prod.mk.injEq, Option.some.injEq] at h
    obtain ⟨rfl, rfl⟩ := h
    simp
  | succ k ih =>
    rw [walkDown] at h
    cases hp : parentBlock blocks b with
    | none =>
      rw [hp] at h
      cases h
    | some p =>
      rw [hp] at h
      simp only [Prod.mk.injEq] at h
      obtain ⟨rfl, hrest⟩ := h
      have hpar := parent_of_parentBlock hdb hp
      obtain ⟨hup, hlen, hget⟩ := ih p _ (Prod.ext rfl hrest)
      refine ⟨by rw [up_succ, hpar]; exact hup, by simp [hlen], ?_⟩
      intro i hi
      cases i with
      | zero => rfl
      | succ i =>
        rw [List.getElem?_cons_succ, hget i (by omega), up_succ, hpar]
        rfl

theorem findCommon_spec (n : ℕ) (oldBlock newBlock : Block) (acc : List Block)
    (common : Block) (newChain : List Block) (hold : oldBlock.number = n)
    (hnew : newBlock.number = n) (holdT : oldBlock ∈ T.blocks) (hnewT : newBlock ∈ T.blocks)
    (h : findCommon blocks n oldBlock newBlock acc = .ok (common, newChain)) :
    ∃ j, up T.parent j oldBlock = some common ∧ up T.parent j newBlock = some common ∧
      newChain.length = acc.length+j ∧ (∀ i < acc.length, newChain[i]? = acc[i]?) ∧
      ∀ i < j, newChain[acc.length+i]? = up T.parent i newBlock := by
  induction n generalizing oldBlock newBlock acc with
  | zero =>
    rw [findCommon] at h
    split at h
    · rename_i hhash
      simp only [Except.ok.injEq, Prod.mk.injEq] at h
      obtain ⟨rfl, rfl⟩ := h
      have heq := T.hash_inj _ holdT _ hnewT hhash
      refine ⟨0, rfl, by rw [heq]; rfl, by simp, fun _ _ => rfl, fun _ hi => by omega⟩
    · cases h
  | succ n ih =>
    rw [findCommon] at h
    split at h
    · rename_i hhash
      simp only [Except.ok.injEq, Prod.mk.injEq] at h
      obtain ⟨rfl, rfl⟩ := h
      have heq := T.hash_inj _ holdT _ hnewT hhash
      refine ⟨0, rfl, by rw [heq]; rfl, by simp, fun _ _ => rfl, fun _ hi => by omega⟩
    · cases hop : getBlock blocks oldBlock.parentHash n with
      | none =>
        rw [hop] at h
        cases h
      | some oldParent =>
        cases hnp : getBlock blocks newBlock.parentHash n with
        | none =>
          rw [hop, hnp] at h
          cases h
        | some newParent =>
          rw [hop, hnp] at h
          obtain ⟨hopm, -, hopn⟩ := getBlock_spec hop
          obtain ⟨hnpm, -, hnpn⟩ := getBlock_spec hnp
          have hopar : T.parent oldBlock = some oldParent :=
            parent_of_getBlock hdb (by rw [hold]; exact hop) (by omega)
          have hnpar : T.parent newBlock = some newParent :=
            parent_of_getBlock hdb (by rw [hnew]; exact hnp) (by omega)
          obtain ⟨j, hupo, hupn, hlen, hacc, hnew'⟩ :=
            ih oldParent newParent (acc ++ [newBlock]) hopn hnpn (hdb _ hopm) (hdb _ hnpm) h
          refine ⟨j+1, by rw [up_succ, hopar]; exact hupo, by rw [up_succ, hnpar]; exact hupn,
            by simp [hlen]; omega, ?_, ?_⟩
          · intro i hi
            rw [hacc i (by simp; omega), List.getElem?_append_left hi]
          · intro i hi
            cases i with
            | zero =>
              rw [Nat.add_zero, hacc acc.length (by simp)]
              simp
            | succ i =>
              have := hnew' i (by omega)
              rw [List.length_append, List.length_singleton] at this
              rw [show acc.length+(i+1) = acc.length+1+i by omega, this, up_succ, hnpar]
              rfl

theorem reduceToSameHeight_spec {oldBlock newHead oldB newB : Block} {newChain : List Block}
    (h : reduceToSameHeight blocks oldBlock newHead = (newChain, some oldB, some newB)) :
    ∃ kOld, up T.parent kOld oldBlock = some oldB ∧
      up T.parent newChain.length newHead = some newB ∧
      (∀ i < newChain.length, newChain[i]? = up T.parent i newHead) ∧ oldB.number = newB.number := by
  unfold reduceToSameHeight at h
  split at h
  · rename_i hlt
    simp only [Prod.mk.injEq, Option.some.injEq] at h
    obtain ⟨rfl, hwalk, rfl⟩ := h
    obtain ⟨passed, hpassed⟩ : ∃ passed, walkDown blocks (oldBlock.number-newHead.number) oldBlock =
        (passed, some oldB) := ⟨_, Prod.ext rfl hwalk⟩
    obtain ⟨hup, -, -⟩ := walkDown_spec hdb _ _ _ _ hpassed
    have := height_up BlockTree.graded hup
    exact ⟨_, hup, rfl, fun _ hi => absurd hi (by simp), by omega⟩
  · rename_i hle
    simp only [Prod.mk.injEq, Option.some.injEq] at h
    obtain ⟨hchain, rfl, hwalk⟩ := h
    obtain ⟨hup, hlen, hget⟩ := walkDown_spec hdb _ _ newChain newB (Prod.ext hchain hwalk)
    have := height_up BlockTree.graded hup
    exact ⟨0, rfl, hlen ▸ hup, hlen ▸ hget, by omega⟩

end Walks

/-- **The reorg.** When `reorg` succeeds it meets a common ancestor of the
head and the new head, no lower than the last accepted block, and rewrites
the canonical index with the new head's ancestors above it. -/
theorem reorg_spec {T : BlockTree} {st st' : ChainState} {newHead : Block}
    (hdb : ∀ b ∈ st.blocks, b ∈ T.blocks) (hhead : st.currentBlock ∈ T.blocks)
    (hnew : newHead ∈ T.blocks) (h : reorg st newHead = .ok st') :
    ∃ common newChain, st' = rewriteCanonical st newHead newChain ∧
      st.lastAccepted.number ≤ common.number ∧
      T.ancestorAt st.currentBlock common.number = some common ∧
      up T.parent newChain.length newHead = some common ∧
      ∀ i < newChain.length, newChain[i]? = up T.parent i newHead := by
  unfold reorg at h
  cases hcur : getBlock st.blocks st.currentBlock.hash st.currentBlock.number with
  | none =>
    rw [hcur] at h
    cases h
  | some oldBlock =>
    rw [hcur] at h
    obtain ⟨holdm, holdh, -⟩ := getBlock_spec hcur
    have hold : oldBlock = st.currentBlock := T.hash_inj _ (hdb _ holdm) _ hhead holdh
    subst hold
    dsimp only at h
    rcases hred : reduceToSameHeight st.blocks st.currentBlock newHead with
      ⟨passed, _ | oldB, _ | newB⟩
    · rw [hred] at h
      cases h
    · rw [hred] at h
      cases h
    · rw [hred] at h
      cases h
    · rw [hred] at h
      obtain ⟨kOld, hupo, hupn, hpassed, hnum⟩ := reduceToSameHeight_spec hdb hred
      dsimp only at h
      cases hcommon : findCommon st.blocks oldB.number oldB newB passed with
      | error e =>
        rw [hcommon] at h
        cases h
      | ok result =>
        obtain ⟨common, newChain⟩ := result
        rw [hcommon] at h
        dsimp only at h
        split at h
        · cases h
        · rename_i hla
          cases h
          obtain ⟨j, hjo, hjn, hlen, hpre, hsuf⟩ := findCommon_spec hdb _ _ _ _ _ _ rfl hnum.symm
            (BlockTree.up_mem hhead hupo) (BlockTree.up_mem hnew hupn) hcommon
          refine ⟨common, newChain, rfl, by omega, ?_, ?_, ?_⟩
          · rw [← up_add_of_up T.parent hupo] at hjo
            exact ancestorAt_height_of_up BlockTree.graded hjo
          · rw [hlen, up_add_of_up T.parent hupn, hjn]
          · intro i hi
            rcases Nat.lt_or_ge i passed.length with hip | hip
            · rw [hpre i hip, hpassed i hip]
            · obtain ⟨i', rfl⟩ := Nat.exists_eq_add_of_le hip
              rw [hsuf i' (by omega), up_add_of_up T.parent hupn]

/-! ## Writing heads -/

theorem foldl_writeHeadBlock (L : List Block) (st : ChainState) :
    L.foldl writeHeadBlock st = { st with
      canonical := L.foldl (fun c b => c.write b.hash b.number) st.canonical
      currentBlock := L.getLast?.getD st.currentBlock } := by
  induction L generalizing st with
  | nil => rfl
  | cons b L ih =>
    rw [List.foldl_cons, ih, List.getLast?_cons]
    rfl

theorem hashAt_foldl_write_of_forall_ne (L : List Block) (c : CanonicalIndex) {n : ℕ}
    (h : ∀ b ∈ L, b.number ≠ n) :
    (L.foldl (fun c b => c.write b.hash b.number) c).hashAt n = c.hashAt n := by
  induction L generalizing c with
  | nil => rfl
  | cons b L ih =>
    rw [List.foldl_cons, ih _ (fun x hx => h x (List.mem_cons_of_mem b hx))]
    simp [Ne.symm (h b List.mem_cons_self)]

theorem hashAt_foldl_write_of_mem (L : List Block) (c : CanonicalIndex) {n : ℕ} {hash : Hash}
    (hall : ∀ b ∈ L, b.number = n → b.hash = hash) (hex : ∃ b ∈ L, b.number = n) :
    (L.foldl (fun c b => c.write b.hash b.number) c).hashAt n = some hash := by
  induction L generalizing c with
  | nil => simp at hex
  | cons b L ih =>
    rw [List.foldl_cons]
    by_cases hL : ∃ x ∈ L, x.number = n
    · exact ih _ (fun x hx => hall x (List.mem_cons_of_mem b hx)) hL
    · simp only [not_exists, not_and] at hL
      rw [hashAt_foldl_write_of_forall_ne L _ hL]
      obtain ⟨x, hx, hxn⟩ := hex
      have hbn : b.number = n := by
        rcases List.mem_cons.mp hx with rfl | hx
        · exact hxn
        · exact absurd hxn (hL x hx)
      simp [hbn, hall b List.mem_cons_self hbn]

/-! ## The invariant -/

/-- What every call keeps: the stored blocks and the head are in the tree,
the head descends from genesis and from the last accepted block, the accepted
blocks are the parent-linked chain from genesis to the last accepted one, and
the canonical index holds exactly the head's ancestry. -/
structure ChainInv (T : BlockTree) (st : ChainState) : Prop where
  blocks_mem : ∀ b ∈ st.blocks, b ∈ T.blocks
  currentBlock_mem : st.currentBlock ∈ T.blocks
  rooted : T.ancestorAt st.currentBlock 0 = some T.genesis
  lastAccepted_le : st.lastAccepted.number ≤ st.currentBlock.number
  lastAccepted_ancestor : T.ancestorAt st.currentBlock st.lastAccepted.number = some st.lastAccepted
  accepted_head : st.accepted.head? = some T.genesis
  accepted_chain : st.accepted.IsChain fun p b => b.parentHash = p.hash
  accepted_last : st.accepted.getLast? = some st.lastAccepted
  canonical : ∀ n, st.canonical.hashAt n =
    if n ≤ st.currentBlock.number then (T.ancestorAt st.currentBlock n).map (·.hash) else none

namespace ChainInv

variable {T : BlockTree} {st : ChainState}

theorem genesis (T : BlockTree) : ChainInv T (genesisState T.genesis) where
  blocks_mem b hb := by
    rw [List.mem_singleton.mp hb]
    exact T.genesis_mem
  currentBlock_mem := T.genesis_mem
  rooted := by
    rw [← T.genesis_number]
    exact Lib.Ancestry.ancestorAt_self _ _ _
  lastAccepted_le := le_rfl
  lastAccepted_ancestor := Lib.Ancestry.ancestorAt_self _ _ _
  accepted_head := rfl
  accepted_chain := List.isChain_singleton _
  accepted_last := rfl
  canonical n := by
    by_cases hn : n = T.genesis.number
    · subst hn
      simp [genesisState, BlockTree.ancestorAt, Lib.Ancestry.ancestorAt_self]
    · have hpos : n ≠ 0 := by rwa [T.genesis_number] at hn
      simp [genesisState, CanonicalIndex.empty, T.genesis_number, hpos]

theorem ancestor_isSome (hinv : ChainInv T st) {n : ℕ} :
    (T.ancestorAt st.currentBlock n).isSome := by
  have h0 : (T.ancestorAt st.currentBlock 0).isSome := by
    rw [hinv.rooted]
    rfl
  exact Lib.Ancestry.isSome_ancestorAt _ _ h0 (Nat.zero_le n)

theorem moveHead (hinv : ChainInv T st) {b : Block} (c : CanonicalIndex) (hb : b ∈ T.blocks)
    (hroot : T.ancestorAt b 0 = some T.genesis) (hle : st.lastAccepted.number ≤ b.number)
    (hla : T.ancestorAt b st.lastAccepted.number = some st.lastAccepted)
    (hc : ∀ n, c.hashAt n = if n ≤ b.number then (T.ancestorAt b n).map (·.hash) else none) :
    ChainInv T { st with canonical := c, currentBlock := b } where
  blocks_mem := hinv.blocks_mem
  currentBlock_mem := hb
  rooted := hroot
  lastAccepted_le := hle
  lastAccepted_ancestor := hla
  accepted_head := hinv.accepted_head
  accepted_chain := hinv.accepted_chain
  accepted_last := hinv.accepted_last
  canonical := hc

theorem writeHeadBlock_child (hinv : ChainInv T st) {b : Block} (hb : b ∈ T.blocks)
    (hparent : b.parentHash = st.currentBlock.hash) : ChainInv T (writeHeadBlock st b) := by
  have hpar : T.parent b = some st.currentBlock := T.parent_of_mem hb hinv.currentBlock_mem hparent
  have hnum := BlockTree.graded b _ hpar
  have hanc : ∀ n, n ≤ st.currentBlock.number → T.ancestorAt b n = T.ancestorAt st.currentBlock n :=
    fun n hn => Lib.Ancestry.ancestorAt_of_parent BlockTree.graded hpar hn
  apply hinv.moveHead _ hb
  · rw [hanc 0 (Nat.zero_le _), hinv.rooted]
  · have := hinv.lastAccepted_le
    omega
  · rw [hanc _ hinv.lastAccepted_le, hinv.lastAccepted_ancestor]
  · intro n
    rw [CanonicalIndex.hashAt_write]
    by_cases hn : n = b.number
    · subst hn
      simp [BlockTree.ancestorAt, Lib.Ancestry.ancestorAt_self]
    · rw [if_neg hn, hinv.canonical n]
      by_cases hle : n ≤ st.currentBlock.number
      · rw [if_pos hle, if_pos (by omega), hanc n hle]
      · rw [if_neg hle, if_neg (by omega)]

theorem withBlocks (hinv : ChainInv T st) (blocks : List Block) (h : ∀ b ∈ blocks, b ∈ T.blocks) :
    ChainInv T { st with blocks := blocks } :=
  { hinv with blocks_mem := h }

theorem ancestor_of_read (hinv : ChainInv T st) {b : Block} (hb : b ∈ T.blocks)
    (h : st.canonical.read b.number = b.hash) :
    b.number ≤ st.currentBlock.number ∧ T.ancestorAt st.currentBlock b.number = some b := by
  have hne := T.hash_ne_zero b hb
  unfold CanonicalIndex.read at h
  rw [hinv.canonical] at h
  by_cases hle : b.number ≤ st.currentBlock.number
  · rw [if_pos hle] at h
    refine ⟨hle, ?_⟩
    cases ha : T.ancestorAt st.currentBlock b.number with
    | none =>
      rw [ha] at h
      exact absurd h.symm hne
    | some a =>
      rw [ha] at h
      rw [T.eq_of_ancestorAt_hash hinv.currentBlock_mem hb ha h]
  · rw [if_neg hle] at h
    exact absurd h.symm hne

theorem acceptChild (hinv : ChainInv T st) {b : Block} (hle : b.number ≤ st.currentBlock.number)
    (hanc : T.ancestorAt st.currentBlock b.number = some b)
    (hpar : b.parentHash = st.lastAccepted.hash) :
    ChainInv T { st with lastAccepted := b, accepted := st.accepted ++ [b] } where
  blocks_mem := hinv.blocks_mem
  currentBlock_mem := hinv.currentBlock_mem
  rooted := hinv.rooted
  lastAccepted_le := hle
  lastAccepted_ancestor := hanc
  accepted_head := by
    rw [List.head?_append, hinv.accepted_head]
    rfl
  accepted_chain := by
    apply hinv.accepted_chain.append (List.isChain_singleton b)
    intro x hx y hy
    rw [hinv.accepted_last, Option.mem_some_iff] at hx
    rw [List.head?_singleton, Option.mem_some_iff] at hy
    rw [← hx, ← hy, hpar]
  accepted_last := by simp
  canonical := hinv.canonical

end ChainInv

/-! ## Reorg -/

section Reorg

variable {T : BlockTree} {newHead common : Block} {newChain : List Block}
  (hup : up T.parent newChain.length newHead = some common)
  (hchain : ∀ i < newChain.length, newChain[i]? = up T.parent i newHead)
include hup hchain

theorem mem_rewritten {b : Block} (hb : b ∈ newChain.drop 1) :
    common.number < b.number ∧ b.number < newHead.number ∧
      T.ancestorAt newHead b.number = some b := by
  obtain ⟨i, hi⟩ := List.mem_iff_getElem?.mp hb
  rw [List.getElem?_drop] at hi
  have hlt : 1+i < newChain.length := (List.getElem?_eq_some_iff.mp hi).1
  have hupb : up T.parent (1+i) newHead = some b := by rw [← hchain _ hlt, hi]
  have hb' := height_up BlockTree.graded hupb
  have hc := height_up BlockTree.graded hup
  exact ⟨by omega, by omega, ancestorAt_height_of_up BlockTree.graded hupb⟩

theorem exists_rewritten {n : ℕ} (hlo : common.number < n) (hhi : n < newHead.number) :
    ∃ b ∈ newChain.drop 1, b.number = n := by
  have hc := height_up BlockTree.graded hup
  have hsome : (up T.parent (newHead.number-n) newHead).isSome :=
    isSome_up_of_le T.parent (by rw [hup]; rfl) (by omega)
  obtain ⟨b, hb⟩ := Option.isSome_iff_exists.mp hsome
  refine ⟨b, List.mem_of_getElem? (i := newHead.number-n-1) ?_, ?_⟩
  · rw [List.getElem?_drop, show 1+(newHead.number-n-1) = newHead.number-n by omega,
      hchain _ (by omega), hb]
  · have := height_up BlockTree.graded hb
    omega

/-- **The index after a reorg.** Below the common block the old head's
entries stand, which are the new head's; up to the new head the new branch is
written; above it the old branch is deleted. -/
theorem hashAt_reorg {st : ChainState} (hinv : ChainInv T st)
    (hcommon : T.ancestorAt st.currentBlock common.number = some common) (n : ℕ) :
    ((((newChain.drop 1).reverse.foldl (fun c b => c.write b.hash b.number)
      st.canonical).deleteFrom (newHead.number+1)).write newHead.hash newHead.number).hashAt n =
      if n ≤ newHead.number then (T.ancestorAt newHead n).map (·.hash) else none := by
  set c := (newChain.drop 1).reverse.foldl (fun c b => c.write b.hash b.number) st.canonical
  have hcn := height_up BlockTree.graded hup
  have hch := height_up BlockTree.graded hcommon
  have hc_hi : ∀ m, newHead.number ≤ m → c.hashAt m = st.canonical.hashAt m := fun m hm =>
    hashAt_foldl_write_of_forall_ne _ _ fun b hb => by
      have := (mem_rewritten hup hchain (List.mem_reverse.mp hb)).2.1
      omega
  have hdel := CanonicalIndex.hashAt_deleteFrom c (newHead.number+1)
    (max (newHead.number+1) (st.currentBlock.number+1)) (le_max_left _ _)
    (fun m hm hmj => by
      obtain ⟨a, ha⟩ := Option.isSome_iff_exists.mp (hinv.ancestor_isSome (n := m))
      have hne := T.hash_ne_zero a (T.ancestorAt_mem hinv.currentBlock_mem ha)
      rw [CanonicalIndex.read, hc_hi m (by omega), hinv.canonical, if_pos (by omega), ha]
      exact hne)
    (by rw [CanonicalIndex.read, hc_hi _ (by omega), hinv.canonical, if_neg (by omega)]; rfl)
  rw [CanonicalIndex.hashAt_write]
  by_cases hn : n = newHead.number
  · subst hn
    simp [BlockTree.ancestorAt, ancestorAt_self]
  rw [if_neg hn, hdel n]
  by_cases hmid : newHead.number+1 ≤ n ∧ n < max (newHead.number+1) (st.currentBlock.number+1)
  · rw [if_pos hmid, if_neg (by omega)]
  rw [if_neg hmid]
  by_cases hgt : newHead.number < n
  · rw [hc_hi n (by omega), hinv.canonical, if_neg (by omega), if_neg (by omega)]
  rw [if_pos (by omega)]
  have hnew_common : T.ancestorAt newHead common.number = some common :=
    ancestorAt_height_of_up BlockTree.graded hup
  by_cases hlo : common.number < n
  · -- on the new branch
    obtain ⟨b, hb, hbn⟩ := exists_rewritten hup hchain hlo (by omega)
    have hanc := (mem_rewritten hup hchain hb).2.2
    rw [hbn] at hanc
    rw [@hashAt_foldl_write_of_mem _ _ _ b.hash (fun x hx hxn => ?_)
      ⟨b, List.mem_reverse.mpr hb, hbn⟩, hanc]
    · rfl
    · have hx := (mem_rewritten hup hchain (List.mem_reverse.mp hx)).2.2
      rw [hxn, hanc] at hx
      rw [Option.some.inj hx]
  · -- below the common block both heads have the same ancestors
    rw [hashAt_foldl_write_of_forall_ne _ _ fun b hb => by
        have := (mem_rewritten hup hchain (List.mem_reverse.mp hb)).1
        omega,
      hinv.canonical, if_pos (by omega)]
    have hold : T.ancestorAt st.currentBlock n = T.ancestorAt common n :=
      ancestorAt_trans BlockTree.graded hcommon (by omega) (by omega)
    have hnew : T.ancestorAt newHead n = T.ancestorAt common n :=
      ancestorAt_trans BlockTree.graded hnew_common (by omega) (by omega)
    rw [hold, hnew]

end Reorg

namespace ChainInv

variable {T : BlockTree} {st : ChainState}

theorem of_writeKnownBlock (hinv : ChainInv T st) {b : Block} {st' : ChainState}
    (hb : b ∈ T.blocks) (h : writeKnownBlock st b = .ok st') :
    ChainInv T st' ∧ st'.currentBlock = b ∧ st'.lastAccepted = st.lastAccepted := by
  unfold writeKnownBlock at h
  split at h
  · cases hr : reorg st b with
    | error e =>
      rw [hr] at h
      cases h
    | ok st'' =>
      rw [hr] at h
      cases h
      obtain ⟨common, newChain, rfl, hla, hcommon, hup, hchain⟩ :=
        reorg_spec hinv.blocks_mem hinv.currentBlock_mem hb hr
      have hnew_common : T.ancestorAt b common.number = some common :=
        ancestorAt_height_of_up BlockTree.graded hup
      have hcn := height_up BlockTree.graded hup
      have hch := height_up BlockTree.graded hcommon
      have hst : writeHeadBlock (rewriteCanonical st b newChain) b = { st with
          canonical := ((((newChain.drop 1).reverse.foldl (fun c b => c.write b.hash b.number)
            st.canonical).deleteFrom (b.number+1)).write b.hash b.number)
          currentBlock := b } := by
        simp only [writeHeadBlock, rewriteCanonical, foldl_writeHeadBlock]
      dsimp only
      rw [hst]
      refine ⟨?_, rfl, rfl⟩
      have hvia : ∀ n, n ≤ common.number → T.ancestorAt b n = T.ancestorAt st.currentBlock n := by
        intro n hn
        have hnew : T.ancestorAt b n = T.ancestorAt common n :=
          ancestorAt_trans BlockTree.graded hnew_common (by omega) hn
        have hold : T.ancestorAt st.currentBlock n = T.ancestorAt common n :=
          ancestorAt_trans BlockTree.graded hcommon (by omega) hn
        rw [hnew, hold]
      apply hinv.moveHead _ hb
      · rw [hvia 0 (Nat.zero_le _), hinv.rooted]
      · omega
      · rw [hvia _ hla, hinv.lastAccepted_ancestor]
      · exact hashAt_reorg hup hchain hinv hcommon
  · rename_i hparent
    cases h
    exact ⟨hinv.writeHeadBlock_child hb (not_not.mp hparent), rfl, rfl⟩

theorem of_setPreference (hinv : ChainInv T st) {b : Block} {st' : ChainState}
    (hb : b ∈ T.blocks) (h : setPreference st b = .ok st') :
    ChainInv T st' ∧ st'.currentBlock = b ∧ st'.lastAccepted = st.lastAccepted := by
  unfold setPreference at h
  split at h
  · rename_i hsame
    cases h
    exact ⟨hinv, T.hash_inj _ hinv.currentBlock_mem _ hb hsame, rfl⟩
  · cases hw : writeKnownBlock st b with
    | error e =>
      rw [hw] at h
      cases h
    | ok st'' =>
      rw [hw] at h
      cases h
      exact hinv.of_writeKnownBlock hb hw

theorem of_accept (hinv : ChainInv T st) {b : Block} (hb : b ∈ T.blocks) (backstop : Backstop) :
    ChainInv T (accept st b backstop).1 := by
  unfold accept
  split
  · exact hinv
  rename_i hpar
  have hpar : b.parentHash = st.lastAccepted.hash := (not_not.mp hpar).symm
  by_cases hread : st.canonical.read b.number ≠ b.hash
  · -- not canonical: the preference moves to the block first
    rw [if_pos hread]
    cases hsp : setPreference st b with
    | error e => exact hinv
    | ok st' =>
      obtain ⟨hinv', hhead, hla⟩ := hinv.of_setPreference hb hsp
      have hself : T.ancestorAt st'.currentBlock b.number = some b := by
        rw [hhead]
        exact ancestorAt_self _ _ _
      cases backstop with
      | reExecFailed => exact hinv'
      | rootMismatch => exact hinv'
      | statePresent => exact hinv'.acceptChild (by rw [hhead]) hself (by rw [hla, hpar])
      | reExecuted => exact hinv'.acceptChild (by rw [hhead]) hself (by rw [hla, hpar])
  · rw [if_neg hread]
    obtain ⟨hle, hanc⟩ := hinv.ancestor_of_read hb (not_not.mp hread)
    cases backstop with
    | reExecFailed => exact hinv
    | rootMismatch => exact hinv
    | statePresent => exact hinv.acceptChild hle hanc hpar
    | reExecuted => exact hinv.acceptChild hle hanc hpar

theorem of_insertBlock (hinv : ChainInv T st) {b : Block} (hb : b ∈ T.blocks)
    (outcome : InsertOutcome) : ChainInv T (insertBlock st b outcome).1 := by
  have hadd : ChainInv T { st with blocks := b :: st.blocks } :=
    hinv.withBlocks _ fun x hx => by
      rcases List.mem_cons.mp hx with rfl | hx
      · exact hb
      · exact hinv.blocks_mem x hx
  unfold insertBlock
  cases parentBlock st.blocks b with
  | none => exact hinv
  | some _ =>
    cases outcome with
    | invalid => exact hinv
    | stateCommitFailed => exact hadd
    | valid =>
      dsimp only
      split
      · exact hadd.writeHeadBlock_child hb ‹_›
      · exact hadd

theorem of_reject (hinv : ChainInv T st) (b : Block) (trieRejected : Bool) :
    ChainInv T (reject st b trieRejected).1 := by
  unfold reject
  split
  · exact hinv
  · exact hinv.withBlocks _ fun x hx => hinv.blocks_mem x (List.mem_filter.mp hx).1

theorem of_step (hinv : ChainInv T st) {c : Call} (hc : c.block ∈ T.blocks) :
    ChainInv T (step st c) := by
  cases c with
  | insertBlock b outcome => exact hinv.of_insertBlock hc outcome
  | setPreference b =>
    simp only [step]
    cases hsp : setPreference st b with
    | error e => exact hinv
    | ok st' => exact (hinv.of_setPreference hc hsp).1
  | accept b backstop => exact hinv.of_accept hc backstop
  | reject b trieRejected => exact hinv.of_reject b trieRejected

theorem of_run (hinv : ChainInv T st) (calls : List Call) (hcalls : ∀ c ∈ calls, c.block ∈ T.blocks) :
    ChainInv T (run st calls) := by
  induction calls generalizing st with
  | nil => exact hinv
  | cons c calls ih =>
    exact ih (hinv.of_step (hcalls c List.mem_cons_self))
      fun c' hc' => hcalls c' (List.mem_cons_of_mem c hc')

end ChainInv

/-! ## After every call -/

structure AcceptedCanonical (T : BlockTree) (st : ChainState) : Prop where
  lastAccepted_ancestor : st.lastAccepted.number ≤ st.currentBlock.number ∧
    T.ancestorAt st.currentBlock st.lastAccepted.number = some st.lastAccepted
  accepted_chain : st.accepted.head? = some T.genesis ∧
    st.accepted.IsChain (fun p b => b.parentHash = p.hash) ∧
    st.accepted.getLast? = some st.lastAccepted
  canonical_below : ∀ n ≤ st.currentBlock.number,
    ∃ b, T.ancestorAt st.currentBlock n = some b ∧ st.canonical.hashAt n = some b.hash
  canonical_above : ∀ n, st.currentBlock.number < n → st.canonical.hashAt n = none

theorem ChainInv.acceptedCanonical {T : BlockTree} {st : ChainState} (hinv : ChainInv T st) :
    AcceptedCanonical T st where
  lastAccepted_ancestor := ⟨hinv.lastAccepted_le, hinv.lastAccepted_ancestor⟩
  accepted_chain := ⟨hinv.accepted_head, hinv.accepted_chain, hinv.accepted_last⟩
  canonical_below n hn := by
    obtain ⟨b, hb⟩ := Option.isSome_iff_exists.mp (hinv.ancestor_isSome (n := n))
    refine ⟨b, hb, ?_⟩
    rw [hinv.canonical, if_pos hn, hb]
    rfl
  canonical_above n hn := by
    rw [hinv.canonical, if_neg (by omega)]

theorem accepted_blocks_stay_canonical (T : BlockTree) (calls : List Call)
    (hcalls : ∀ c ∈ calls, c.block ∈ T.blocks) :
    AcceptedCanonical T (run (genesisState T.genesis) calls) :=
  ((ChainInv.genesis T).of_run calls hcalls).acceptedCanonical

def genesisAndChild : BlockTree where
  blocks := [⟨1, 0, 0⟩, ⟨2, 1, 1⟩]
  genesis := ⟨1, 0, 0⟩
  genesis_mem := by decide
  genesis_number := rfl
  hash_ne_zero := by decide
  hash_inj := by decide
  number_parent := by decide

theorem accepted_blocks_stay_canonical_insert_accept :
    (∀ c ∈ [Call.insertBlock ⟨2, 1, 1⟩ .valid, .accept ⟨2, 1, 1⟩ .statePresent],
      c.block ∈ genesisAndChild.blocks) ∧
    AcceptedCanonical genesisAndChild (run (genesisState genesisAndChild.genesis)
      [.insertBlock ⟨2, 1, 1⟩ .valid, .accept ⟨2, 1, 1⟩ .statePresent]) :=
  ⟨by decide, accepted_blocks_stay_canonical _ _ (by decide)⟩

end LuxEvm.Core
