import Mathlib.Order.WithBot

/-!
# Activation over a run of blocks

Items activate at a time, or never (`⊤`). A block with a parent activates what is
due by its own time and was not yet due by its parent's; a block without one (the
first) activates all that is due by its time. When the items are listed in
activation order, a run of blocks over non-decreasing times activates, block after
block, exactly what one block from the start to the last time would, in list order:
how the time is split into blocks does not matter.
-/

set_option autoImplicit false

namespace Lib.Schedule

variable {α β : Type} [LinearOrder β] (f : α → WithTop β)

/-- Whether `x` activates in the transition from `parent` (none: before all time)
to `current`. -/
def transition (parent : Option β) (current : β) (x : α) : Bool :=
  !(parent.any fun p => decide (f x ≤ p)) && decide (f x ≤ current)

/-- What each block activates, for blocks at the given times after `parent`. -/
def perBlock (l : List α) : Option β → List β → List α
  | _, [] => []
  | parent, t :: ts => l.filter (transition f parent t) ++ perBlock l (some t) ts

def InOrder (l : List α) : Prop := l.Pairwise fun x y => f x = ⊤ ∨ f x ≤ f y

variable {f}

theorem transition_top {x : α} (hx : f x = ⊤) (parent : Option β) (current : β) :
    transition f parent current x = false := by
  simp [transition, hx]

theorem transition_of_le {x : α} {a : β} (hx : f x ≤ a) (parent : Option β) {b : β}
    (hab : a ≤ b) :
    transition f parent b x = transition f parent a x ∧ transition f (some a) b x = false := by
  have hb : f x ≤ b := hx.trans (WithTop.coe_le_coe.mpr hab)
  simp [transition, hx, hb]

theorem transition_of_lt {x : α} {a : β} (hx : (a : WithTop β) < f x) {parent : Option β}
    (hp : ∀ p ∈ parent, p ≤ a) (b : β) :
    transition f parent a x = false ∧ transition f parent b x = transition f (some a) b x := by
  cases parent with
  | none => simp [transition, not_le.mpr hx]
  | some p =>
    have hpa : (p : WithTop β) ≤ a := WithTop.coe_le_coe.mpr (hp p rfl)
    simp [transition, not_le.mpr (lt_of_le_of_lt hpa hx), not_le.mpr hx]

theorem filter_transition_append {l : List α} (hl : InOrder f l) {parent : Option β} {a b : β}
    (hp : ∀ p ∈ parent, p ≤ a) (hab : a ≤ b) :
    l.filter (transition f parent a) ++ l.filter (transition f (some a) b) =
      l.filter (transition f parent b) := by
  induction l with
  | nil => rfl
  | cons x l ih =>
    obtain ⟨hx, hl⟩ := List.pairwise_cons.mp hl
    by_cases htop : f x = ⊤
    · simp only [List.filter_cons, transition_top htop, Bool.false_eq_true, ↓reduceIte, ih hl]
    by_cases hxa : f x ≤ a
    · -- `x` activates in the first part if at all
      obtain ⟨h1, h2⟩ := transition_of_le hxa parent hab
      simp only [List.filter_cons, h1, h2, Bool.false_eq_true, ↓reduceIte, ← ih hl]
      split <;> rfl
    · -- `x` and all after it activate after `a`
      have hlt : ∀ y ∈ x :: l, (a : WithTop β) < f y := by
        intro y hy
        rcases List.mem_cons.mp hy with rfl | hy
        · exact not_le.mp hxa
        · rcases hx y hy with h | h
          · exact absurd h htop
          · exact lt_of_lt_of_le (not_le.mp hxa) h
      rw [List.filter_eq_nil_iff.mpr fun y hy => by simp [(transition_of_lt (hlt y hy) hp b).1],
        List.nil_append]
      exact List.filter_congr fun y hy => ((transition_of_lt (hlt y hy) hp b).2).symm

/-- **A run of blocks activates what one block to its last time would.** -/
theorem perBlock_eq {l : List α} (hl : InOrder f l) (t : β) (ts : List β)
    (hts : (t :: ts).Pairwise (· ≤ ·)) (parent : Option β) (hp : ∀ p ∈ parent, p ≤ t) :
    perBlock f l parent (t :: ts) =
      l.filter (transition f parent ((t :: ts).getLast (List.cons_ne_nil t ts))) := by
  induction ts generalizing parent t with
  | nil => simp [perBlock]
  | cons t' ts ih =>
    obtain ⟨ht, hts⟩ := List.pairwise_cons.mp hts
    have hlast : t ≤ (t' :: ts).getLast (List.cons_ne_nil t' ts) := ht _ (List.getLast_mem _)
    rw [perBlock, ih t' hts (some t) (fun p hmem => Option.some_inj.mp hmem ▸ ht t' (by simp)),
      filter_transition_append hl hp hlast, List.getLast_cons (List.cons_ne_nil t' ts)]

end Lib.Schedule
