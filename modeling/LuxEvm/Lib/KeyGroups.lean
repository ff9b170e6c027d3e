import Mathlib.Data.List.Basic

/-!
# Pairs grouped by their key

`groupByKey` lists each key of a list of pairs once, in the order of its first
occurrence, with every value paired with it, in order (`mem_groupByKey`,
`nodup_keys_groupByKey`), with at least one value each. A run of one key that no later pair repeats is one
group, so a list sorted by key groups run by run (`groupByKey_append_run`).
-/

set_option autoImplicit false

namespace Lib.KeyGroups

variable {α β : Type} [DecidableEq α]

/-- The values paired with `a`, in order. -/
def valuesOf (a : α) (l : List (α × β)) : List β := (l.filter fun p => p.1 = a).map Prod.snd

/-- Each key once, with the values paired with it. -/
def groupByKey : List (α × β) → List (α × List β)
  | [] => []
  | (a, b) :: rest => (a, b :: valuesOf a rest) :: (groupByKey rest).filter fun g => g.1 ≠ a

@[simp] theorem valuesOf_nil (a : α) : valuesOf a ([] : List (α × β)) = [] := rfl

theorem valuesOf_cons (a x : α) (b : β) (rest : List (α × β)) :
    valuesOf a ((x, b) :: rest) = if x = a then b :: valuesOf a rest else valuesOf a rest := by
  by_cases h : x = a <;> simp [valuesOf, h]

theorem valuesOf_eq_nil {a : α} {l : List (α × β)} (h : ∀ p ∈ l, p.1 ≠ a) : valuesOf a l = [] := by
  simpa [valuesOf, List.filter_eq_nil_iff] using h

theorem valuesOf_append (a : α) (l l' : List (α × β)) : valuesOf a (l ++ l') = valuesOf a l ++ valuesOf a l' := by
  simp [valuesOf, List.filter_append]

theorem valuesOf_run (a : α) (bs : List β) : valuesOf a (bs.map fun b => (a, b)) = bs := by
  induction bs with
  | nil => rfl
  | cons b bs ih => rw [List.map_cons, valuesOf_cons, if_pos rfl, ih]

/-- The groups are the keys of the list, each with exactly its values. -/
theorem mem_groupByKey (l : List (α × β)) (a : α) (bs : List β) :
    (a, bs) ∈ groupByKey l ↔ a ∈ l.map Prod.fst ∧ bs = valuesOf a l := by
  induction l with
  | nil => simp [groupByKey]
  | cons p rest ih =>
    obtain ⟨x, b⟩ := p
    rw [groupByKey, List.mem_cons, List.mem_filter, ih, valuesOf_cons]
    by_cases hx : x = a
    · subst hx
      simp
    · simp [hx, Ne.symm hx]

theorem ne_nil_of_mem_groupByKey {l : List (α × β)} {a : α} {bs : List β} (h : (a, bs) ∈ groupByKey l) :
    bs ≠ [] := by
  obtain ⟨hkey, rfl⟩ := (mem_groupByKey l a bs).mp h
  obtain ⟨⟨x, b⟩, hp, rfl⟩ := List.mem_map.mp hkey
  have hb : b ∈ valuesOf x l := List.mem_map.mpr ⟨(x, b), List.mem_filter.mpr ⟨hp, by simp⟩, rfl⟩
  exact List.ne_nil_of_mem hb

theorem nodup_keys_groupByKey (l : List (α × β)) : ((groupByKey l).map Prod.fst).Nodup := by
  induction l with
  | nil => simp [groupByKey]
  | cons p rest ih =>
    obtain ⟨x, b⟩ := p
    rw [groupByKey, List.map_cons, List.nodup_cons]
    refine ⟨fun hx => ?_, ih.sublist (List.filter_sublist.map Prod.fst)⟩
    obtain ⟨g, hg, hgx⟩ := List.mem_map.mp hx
    have := (List.mem_filter.mp hg).2
    simp [hgx] at this

theorem groupByKey_filter_ne {a : α} {l : List (α × β)} (h : ∀ p ∈ l, p.1 ≠ a) :
    (groupByKey l).filter (fun g => g.1 ≠ a) = groupByKey l := by
  refine List.filter_eq_self.mpr fun g hg => ?_
  have hkey := ((mem_groupByKey l g.1 g.2).mp hg).1
  obtain ⟨p, hp, hpg⟩ := List.mem_map.mp hkey
  simpa [← hpg] using h p hp

/-- A run of one key that the rest of the list does not repeat is one group. -/
theorem groupByKey_append_run (a : α) {bs : List β} (hne : bs ≠ []) {rest : List (α × β)}
    (hrest : ∀ p ∈ rest, p.1 ≠ a) :
    groupByKey (bs.map (fun b => (a, b)) ++ rest) = (a, bs) :: groupByKey rest := by
  induction bs with
  | nil => exact absurd rfl hne
  | cons b bs ih =>
    rw [List.map_cons, List.cons_append, groupByKey]
    rw [valuesOf_append, valuesOf_run, valuesOf_eq_nil hrest, List.append_nil]
    cases bs with
    | nil => rw [List.map_nil, List.nil_append, groupByKey_filter_ne hrest]
    | cons b' bs => rw [ih (List.cons_ne_nil _ _), List.filter_cons_of_neg (by simp), groupByKey_filter_ne hrest]

end Lib.KeyGroups
