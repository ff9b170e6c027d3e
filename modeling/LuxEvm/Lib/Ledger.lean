import Mathlib.Algebra.BigOperators.Group.Finset.Piecewise
import Mathlib.Algebra.Order.BigOperators.Group.Finset

/-!
# Ledgers

A ledger gives every account of a finite set a natural balance. Its total is
what a transfer between accounts keeps, a credit raises by its amount and a
debit lowers by its amount; no single account holds more than the total.
-/

set_option autoImplicit false

namespace Lib.Ledger

variable {α : Type} [Fintype α]

def total (bal : α → ℕ) : ℕ := ∑ a, bal a

theorem le_total (bal : α → ℕ) (a : α) : bal a ≤ total bal :=
  Finset.single_le_sum (fun _ _ => Nat.zero_le _) (Finset.mem_univ a)

variable [DecidableEq α]

theorem total_update (bal : α → ℕ) (a : α) (v : ℕ) :
    total (Function.update bal a v) + bal a = total bal + v := by
  unfold total
  rw [Finset.sum_update_of_mem (Finset.mem_univ a), Finset.sdiff_singleton_eq_erase,
    ← Finset.add_sum_erase _ bal (Finset.mem_univ a)]
  omega

theorem total_credit (bal : α → ℕ) (a : α) (v : ℕ) :
    total (Function.update bal a (bal a + v)) = total bal + v := by
  have := total_update bal a (bal a + v)
  omega

theorem total_debit (bal : α → ℕ) (a : α) {v : ℕ} (hv : v ≤ bal a) :
    total (Function.update bal a (bal a - v)) + v = total bal := by
  have := total_update bal a (bal a - v)
  omega

omit [Fintype α] in
theorem update_credit_credit (bal : α → ℕ) (a b : α) (x y : ℕ) :
    Function.update (Function.update bal a (bal a + x)) b (Function.update bal a (bal a + x) b + y) =
      fun c => bal c + (if c = a then x else 0) + (if c = b then y else 0) := by
  funext c
  by_cases hb : c = b <;> by_cases ha : c = a
  · subst hb ha
    simp
  · subst hb
    simp [ha]
  · subst ha
    simp [hb]
  · simp [ha, hb]

end Lib.Ledger
