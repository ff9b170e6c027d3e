import Mathlib.Data.Option.Basic
import Mathlib.Data.Nat.Notation

/-!
# Walks towards the root of a parent-linked forest

A forest is a partial parent function; `up k a` is the node `k` steps above
`a`. When a height drops by one from every node to its parent, the ancestor
of `a` at height `n` is `up (height a - n) a`, and an ancestor's ancestors
are the node's own.
-/

set_option autoImplicit false

namespace Lib.Ancestry

variable {α : Type*} (parent : α → Option α)

def up : ℕ → α → Option α
  | 0, a => some a
  | k+1, a => (parent a).bind (up k)

@[simp] theorem up_zero (a : α) : up parent 0 a = some a := rfl

theorem up_succ (k : ℕ) (a : α) : up parent (k+1) a = (parent a).bind (up parent k) := rfl

theorem up_add (j k : ℕ) (a : α) : up parent (j+k) a = (up parent j a).bind (up parent k) := by
  induction j generalizing a with
  | zero => simp
  | succ j ih =>
    rw [Nat.add_right_comm, up_succ, up_succ]
    cases parent a with
    | none => rfl
    | some p => exact ih p

theorem up_add_of_up {j k : ℕ} {a b : α} (h : up parent j a = some b) :
    up parent (j+k) a = up parent k b := by
  rw [up_add, h]
  rfl

theorem up_one {a p : α} (h : parent a = some p) : up parent 1 a = some p := by
  rw [up_succ, h]
  rfl

theorem isSome_up_of_le {j k : ℕ} {a : α} (h : (up parent k a).isSome) (hjk : j ≤ k) :
    (up parent j a).isSome := by
  obtain ⟨i, rfl⟩ := Nat.exists_eq_add_of_le hjk
  rw [up_add] at h
  cases hj : up parent j a with
  | none => simp [hj] at h
  | some b => rfl

section Graded
variable (height : α → ℕ)

/-- The ancestor of `a` at height `n`, for `n ≤ height a`. -/
def ancestorAt (a : α) (n : ℕ) : Option α := up parent (height a-n) a

theorem ancestorAt_self (a : α) : ancestorAt parent height a (height a) = some a := by
  simp [ancestorAt]

theorem isSome_ancestorAt {a : α} {m n : ℕ} (h : (ancestorAt parent height a n).isSome)
    (hnm : n ≤ m) : (ancestorAt parent height a m).isSome :=
  isSome_up_of_le parent h (by omega)

variable {parent height} (graded : ∀ a p, parent a = some p → height a = height p+1)
include graded

theorem height_up {k : ℕ} {a b : α} (h : up parent k a = some b) : height b+k = height a := by
  induction k generalizing a with
  | zero =>
    cases h
    rfl
  | succ k ih =>
    rw [up_succ, Option.bind_eq_some_iff] at h
    obtain ⟨p, hp, hpb⟩ := h
    have hb := ih hpb
    have ha := graded a p hp
    omega

theorem height_of_ancestorAt {a b : α} {n : ℕ} (h : ancestorAt parent height a n = some b)
    (hn : n ≤ height a) : height b = n := by
  have := height_up graded h
  omega

theorem ancestorAt_of_up {k n : ℕ} {a b : α} (h : up parent k a = some b) (hn : n ≤ height b) :
    ancestorAt parent height a n = ancestorAt parent height b n := by
  have hab := height_up graded h
  unfold ancestorAt
  rw [show height a-n = k+(height b-n) by omega, up_add_of_up parent h]

theorem ancestorAt_height_of_up {k : ℕ} {a b : α} (h : up parent k a = some b) :
    ancestorAt parent height a (height b) = some b := by
  rw [ancestorAt_of_up graded h (Nat.le_refl _), ancestorAt_self]

theorem ancestorAt_trans {a b : α} {m n : ℕ} (h : ancestorAt parent height a m = some b)
    (hm : m ≤ height a) (hn : n ≤ m) :
    ancestorAt parent height a n = ancestorAt parent height b n :=
  ancestorAt_of_up graded h (by rw [height_of_ancestorAt graded h hm]; exact hn)

theorem ancestorAt_of_parent {a p : α} {n : ℕ} (h : parent a = some p) (hn : n ≤ height p) :
    ancestorAt parent height a n = ancestorAt parent height p n :=
  ancestorAt_of_up graded (up_one parent h) hn

end Graded

end Lib.Ancestry
