import Mathlib.Data.List.TakeWhile
import Mathlib.Data.Nat.Notation

/-!
# Intervals that tile a range

`Tiles lo top ivs`: the closed intervals of `ivs`, in order, are nonempty and
each starts one past the end of the one before, from `lo` up to `top`. Every
point of `[lo, top]` then lies in exactly one of them, and a list read in
increasing key order is the concatenation of its windows on the intervals.
-/

set_option autoImplicit false

namespace Lib.Tiling

def Tiles : ℕ → ℕ → List (ℕ × ℕ) → Prop
  | lo, top, [] => lo = top+1
  | lo, top, i :: rest => i.1 = lo ∧ lo ≤ i.2 ∧ Tiles (i.2+1) top rest

theorem Tiles.le_fst {lo top : ℕ} {ivs : List (ℕ × ℕ)} (h : Tiles lo top ivs) :
    ∀ i ∈ ivs, lo ≤ i.1 := by
  induction ivs generalizing lo with
  | nil => simp
  | cons i rest ih =>
    obtain ⟨h1, h2, h3⟩ := h
    intro j hj
    rcases List.mem_cons.mp hj with rfl | hj
    · omega
    · have := ih h3 j hj
      omega

theorem Tiles.ne_nil {lo top : ℕ} {ivs : List (ℕ × ℕ)} (h : Tiles lo top ivs) (hlo : lo ≤ top) :
    ivs ≠ [] := by
  rintro rfl
  simp only [Tiles] at h
  omega

theorem Tiles.countP_mem {lo top : ℕ} {ivs : List (ℕ × ℕ)} (h : Tiles lo top ivs) {v : ℕ}
    (hlo : lo ≤ v) (htop : v ≤ top) : ivs.countP (fun i => i.1 ≤ v ∧ v ≤ i.2) = 1 := by
  induction ivs generalizing lo with
  | nil =>
    simp only [Tiles] at h
    omega
  | cons i rest ih =>
    obtain ⟨h1, h2, h3⟩ := h
    by_cases hv : v ≤ i.2
    · -- the later intervals all start above `i.2`
      have hrest : rest.countP (fun i => i.1 ≤ v ∧ v ≤ i.2) = 0 := by
        rw [List.countP_eq_zero]
        intro j hj
        have := h3.le_fst j hj
        simp only [decide_eq_true_eq, not_and, not_le]
        omega
      rw [List.countP_cons_of_pos (by simp only [decide_eq_true_eq]; omega), hrest]
    · rw [List.countP_cons_of_neg (by simp only [decide_eq_true_eq]; omega)]
      exact ih h3 (by omega)

section Window

variable {α : Type} (key : α → ℕ)

/-- The elements of `l` with key in `[i.1, i.2]` when `l` is in increasing key
order: skip the keys below, stop at the first key above. -/
def window (l : List α) (i : ℕ × ℕ) : List α :=
  (l.dropWhile fun x => key x < i.1).takeWhile fun x => key x ≤ i.2

theorem dropWhile_dropWhile_of_imp (p q : α → Bool) (h : ∀ x, q x = true → p x = true)
    (l : List α) : (l.dropWhile q).dropWhile p = l.dropWhile p := by
  induction l with
  | nil => rfl
  | cons x xs ih =>
    by_cases hq : q x = true
    · rw [List.dropWhile_cons_of_pos hq, ih, List.dropWhile_cons_of_pos (h x hq)]
    · rw [List.dropWhile_cons_of_neg hq]

theorem dropWhile_congr {p q : α → Bool} {l : List α} (h : ∀ x ∈ l, p x = q x) :
    l.dropWhile p = l.dropWhile q := by
  induction l with
  | nil => rfl
  | cons x xs ih =>
    rw [List.dropWhile_cons, List.dropWhile_cons, h x List.mem_cons_self,
      ih fun y hy => h y (List.mem_cons_of_mem x hy)]

theorem takeWhile_congr {p q : α → Bool} {l : List α} (h : ∀ x ∈ l, p x = q x) :
    l.takeWhile p = l.takeWhile q := by
  induction l with
  | nil => rfl
  | cons x xs ih =>
    rw [List.takeWhile_cons, List.takeWhile_cons, h x List.mem_cons_self,
      ih fun y hy => h y (List.mem_cons_of_mem x hy)]

theorem dropWhile_window {lo hi : ℕ} (hlo : lo ≤ hi+1) (l : List α) :
    ((l.dropWhile fun x => key x < lo).dropWhile fun x => key x ≤ hi) =
      l.dropWhile fun x => key x < hi+1 := by
  rw [dropWhile_dropWhile_of_imp]
  · simp only [Nat.lt_succ_iff]
  · intro x hx
    simp only [decide_eq_true_eq] at hx ⊢
    omega

theorem flatten_window {lo top : ℕ} {ivs : List (ℕ × ℕ)} (h : Tiles lo top ivs) (l : List α)
    (hl : ∀ x ∈ l, key x ≤ top) :
    (ivs.map (window key l)).flatten = l.dropWhile fun x => key x < lo := by
  induction ivs generalizing lo with
  | nil =>
    simp only [Tiles] at h
    subst h
    rw [List.map_nil, List.flatten_nil, eq_comm, List.dropWhile_eq_nil_iff]
    intro x hx
    have := hl x hx
    simp only [decide_eq_true_eq]
    omega
  | cons i rest ih =>
    obtain ⟨rfl, h2, h3⟩ := h
    rw [List.map_cons, List.flatten_cons, ih h3, window,
      ← @dropWhile_window α key i.1 i.2 (by omega), List.takeWhile_append_dropWhile]

end Window

end Lib.Tiling
