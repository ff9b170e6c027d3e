import Mathlib.Order.Defs.Unbundled
import Mathlib.Data.List.Forall2
import Mathlib.Logic.Relation

/-!
# Relations kept by computations with state and failure

A program in `ExceptT ε (StateM σ)` either returns or fails, and in both cases
leaves a state behind. A relation between the start and the final state is
kept by pure steps and failures when it is reflexive, by sequencing when it is
transitive, and by a state update when the update keeps it, so the footprint
of a whole program follows from the footprints of its primitives.
-/

set_option autoImplicit false

namespace Lib.StateRel

variable {σ ε α β : Type}

abbrev Prog (σ ε α : Type) := ExceptT ε (StateM σ) α

/-- The outcome and final state of `m` started in `s`. -/
def step (m : Prog σ ε α) (s : σ) : Except ε α × σ := m.run.run s

@[simp] theorem step_pure (a : α) (s : σ) : step (pure a : Prog σ ε α) s = (.ok a, s) := rfl

@[simp] theorem step_throw (e : ε) (s : σ) : step (throw e : Prog σ ε α) s = (.error e, s) := rfl

@[simp] theorem step_get (s : σ) : step (get : Prog σ ε σ) s = (.ok s, s) := rfl

@[simp] theorem step_set (t : σ) (s : σ) : step (set t : Prog σ ε PUnit) s = (.ok ⟨⟩, t) := rfl

@[simp] theorem step_get_bind (k : σ → Prog σ ε α) (s : σ) : step (get >>= k) s = step (k s) s :=
  rfl

@[simp] theorem step_modify (f : σ → σ) (s : σ) :
    step (modify f : Prog σ ε PUnit) s = (.ok ⟨⟩, f s) := rfl

theorem step_bind (m : Prog σ ε α) (k : α → Prog σ ε β) (s : σ) :
    step (m >>= k) s = match step m s with
      | (.ok a, s') => step (k a) s'
      | (.error e, s') => (.error e, s') := by
  simp only [step, ExceptT.run_bind, StateT.run_bind]
  rcases m.run.run s with ⟨r, s'⟩
  cases r <;> rfl

theorem step_bind_eq_ok {m : Prog σ ε α} {k : α → Prog σ ε β} {s s'' : σ} {b : β} :
    step (m >>= k) s = (.ok b, s'') ↔ ∃ a s', step m s = (.ok a, s') ∧ step (k a) s' = (.ok b, s'') := by
  rw [step_bind]
  rcases hm : step m s with ⟨r, s'⟩
  cases r with
  | error e => simp
  | ok a =>
    simp only [Prod.mk.injEq, Except.ok.injEq]
    exact ⟨fun h => ⟨a, s', ⟨rfl, rfl⟩, h⟩, fun ⟨_, _, ⟨ha, hs⟩, h⟩ => ha ▸ hs ▸ h⟩

/-- Every final state of `m` is related to its start state. -/
def Keeps (R : σ → σ → Prop) (m : Prog σ ε α) : Prop := ∀ s, R s (step m s).2

section Keeps

variable (R : σ → σ → Prop)

theorem Keeps.mono {R R' : σ → σ → Prop} {m : Prog σ ε α} (h : Keeps R m)
    (hR : ∀ s s', R s s' → R' s s') : Keeps R' m :=
  fun s => hR s _ (h s)

theorem keeps_pure [Std.Refl R] (a : α) : Keeps R (pure a : Prog σ ε α) :=
  fun s => Std.Refl.refl s

theorem keeps_throw [Std.Refl R] (e : ε) : Keeps R (throw e : Prog σ ε α) :=
  fun s => Std.Refl.refl s

theorem keeps_get [Std.Refl R] : Keeps R (get : Prog σ ε σ) :=
  fun s => Std.Refl.refl s

theorem keeps_modify (f : σ → σ) (hf : ∀ s, R s (f s)) : Keeps R (modify f : Prog σ ε PUnit) :=
  hf

theorem keeps_bind [Std.Refl R] [IsTrans σ R] {m : Prog σ ε α} {k : α → Prog σ ε β}
    (hm : Keeps R m) (hk : ∀ a, Keeps R (k a)) : Keeps R (m >>= k) := by
  intro s
  rw [step_bind]
  rcases h : step m s with ⟨r, s'⟩
  have hs : R s s' := by simpa [h] using hm s
  cases r with
  | error e => exact hs
  | ok a => exact trans_of R hs (hk a s')

theorem keeps_get_bind {k : σ → Prog σ ε α} (hk : ∀ s, R s (step (k s) s).2) :
    Keeps R (get >>= k) :=
  hk

end Keeps

/-! ## Failure without state -/

section Except

@[simp] theorem pure_eq_ok (a : α) : (pure a : Except ε α) = .ok a := rfl

@[simp] theorem throw_eq_error (e : ε) : (throw e : Except ε α) = .error e := rfl

@[simp] theorem ok_bind (a : α) (f : α → Except ε β) : (Except.ok a >>= f) = f a := rfl

@[simp] theorem error_bind (e : ε) (f : α → Except ε β) : (Except.error e >>= f) = .error e := rfl

@[simp] theorem map_ok (g : α → β) (a : α) : (g <$> Except.ok a : Except ε β) = .ok (g a) := rfl

@[simp] theorem map_error (g : α → β) (e : ε) : (g <$> Except.error e : Except ε β) = .error e := rfl

@[simp] theorem mapError_ok {ε' : Type} (g : ε → ε') (a : α) : (Except.ok a).mapError g = .ok a := rfl

@[simp] theorem mapError_error {ε' : Type} (g : ε → ε') (e : ε) :
    (Except.error e : Except ε α).mapError g = .error (g e) := rfl

theorem mapError_eq_ok {ε' : Type} {g : ε → ε'} {x : Except ε α} {a : α} :
    x.mapError g = .ok a ↔ x = .ok a := by
  cases x <;> simp

theorem map_eq_ok {g : α → β} {x : Except ε α} {b : β} :
    g <$> x = .ok b ↔ ∃ a, x = .ok a ∧ g a = b := by
  cases x <;> simp

theorem bind_eq_ok {x : Except ε α} {f : α → Except ε β} {b : β} :
    x >>= f = .ok b ↔ ∃ a, x = .ok a ∧ f a = .ok b := by
  cases x <;> simp

theorem ite_throw_bind_eq_ok {c : Prop} [Decidable c] {e : ε} {k : β → Except ε α}
    {r : Except ε α} {a : α} : (if c then throw e >>= k else r) = .ok a ↔ ¬c ∧ r = .ok a := by
  by_cases hc : c <;> simp [hc]

theorem ite_error_eq_ok {c : Prop} [Decidable c] {e : ε} {r : Except ε α} {a : α} :
    (if c then .error e else r) = .ok a ↔ ¬c ∧ r = .ok a := by
  by_cases hc : c <;> simp [hc]

section Loop

variable {γ : Type} {f : σ → γ → Except ε σ} (l : List γ) (P : List γ → σ → Prop)

theorem foldlM_eq_ok_inv
    (step : ∀ done e rest t t', done ++ e :: rest = l → P done t → f t e = .ok t' →
      P (done ++ [e]) t')
    {t t' : σ} (h₀ : P [] t) (h : l.foldlM f t = .ok t') : P l t' := by
  -- induction on the part still to run, with the part done in the invariant
  suffices ∀ rest done t, done ++ rest = l → P done t → rest.foldlM f t = .ok t' → P l t' from
    this l [] t rfl h₀ h
  intro rest
  induction rest with
  | nil =>
    intro done t hl ht h
    cases h
    simpa [← hl] using ht
  | cons e rest ih =>
    intro done t hl ht h
    obtain ⟨t₁, h₁, hrest⟩ := bind_eq_ok.mp h
    exact ih (done ++ [e]) t₁ (by simpa using hl) (step done e rest t t₁ hl ht h₁) hrest

theorem foldlM_eq_ok_of_inv
    (step : ∀ done e rest t, done ++ e :: rest = l → P done t →
      ∃ t', f t e = .ok t' ∧ P (done ++ [e]) t')
    {t : σ} (h₀ : P [] t) : ∃ t', l.foldlM f t = .ok t' ∧ P l t' := by
  suffices ∀ rest done t, done ++ rest = l → P done t → ∃ t', rest.foldlM f t = .ok t' ∧ P l t' from
    this l [] t rfl h₀
  intro rest
  induction rest with
  | nil =>
    intro done t hl ht
    exact ⟨t, rfl, by simpa [← hl] using ht⟩
  | cons e rest ih =>
    intro done t hl ht
    obtain ⟨t₁, h₁, ht₁⟩ := step done e rest t hl ht
    obtain ⟨t', hrest, ht'⟩ := ih (done ++ [e]) t₁ (by simpa using hl) ht₁
    exact ⟨t', by rw [List.foldlM_cons, h₁]; exact hrest, ht'⟩

end Loop

theorem mapM_eq_ok_of_forall {γ : Type} {g : γ → Except ε α} {l : List γ}
    (h : ∀ a ∈ l, ∃ b, g a = .ok b) :
    ∃ bs, l.mapM g = .ok bs ∧ List.Forall₂ (fun a b => g a = .ok b) l bs := by
  induction l with
  | nil => exact ⟨[], rfl, .nil⟩
  | cons a l ih =>
    obtain ⟨b, hb⟩ := h a List.mem_cons_self
    obtain ⟨bs, hbs, hall⟩ := ih fun a ha => h a (List.mem_cons_of_mem _ ha)
    exact ⟨b :: bs, by simp [List.mapM_cons, hb, hbs], .cons hb hall⟩

end Except

/-! ## Loops that stop at the first error

A loop over a mutable state that returns the first error it meets leaves the
state of the steps before it, and the failing step's own, behind. -/

section UntilError

variable {γ : Type} (f : σ → γ → σ × Option ε)

/-- Run `f` over a list from a state, stopping at the first error: the state
reached and the error, if any. -/
def untilError : σ → List γ → σ × Option ε
  | s, [] => (s, none)
  | s, e :: rest =>
    match f s e with
    | (s', some err) => (s', some err)
    | (s', none) => untilError s' rest

variable {f}

theorem untilError_cons_of_ok {s : σ} {e : γ} (rest : List γ) (h : (f s e).2 = none) :
    untilError f s (e :: rest) = untilError f (f s e).1 rest := by
  rw [untilError]
  rcases hf : f s e with ⟨s', r⟩
  rw [hf] at h
  cases h
  rfl

theorem untilError_keeps (Q : σ → Prop) (hQ : ∀ s e, Q s → Q (f s e).1) (l : List γ) {s : σ}
    (hs : Q s) : Q (untilError f s l).1 := by
  induction l generalizing s with
  | nil => exact hs
  | cons e rest ih =>
    rw [untilError]
    rcases hf : f s e with ⟨s', r⟩
    have hs' : Q s' := by simpa [hf] using hQ s e hs
    cases r with
    | some err => exact hs'
    | none => exact ih hs'

theorem untilError_inv (l : List γ) (P : List γ → σ → Prop)
    (step : ∀ done e rest s, done ++ e :: rest = l → P done s →
      (f s e).2 = none ∧ P (done ++ [e]) (f s e).1)
    {s : σ} (h₀ : P [] s) : (untilError f s l).2 = none ∧ P l (untilError f s l).1 := by
  -- induction on the part still to run, with the part done in the invariant
  suffices ∀ rest done s, done ++ rest = l → P done s →
      (untilError f s rest).2 = none ∧ P l (untilError f s rest).1 from this l [] s rfl h₀
  intro rest
  induction rest with
  | nil =>
    intro done s hl hs
    exact ⟨rfl, by simpa [untilError, ← hl] using hs⟩
  | cons e rest ih =>
    intro done s hl hs
    obtain ⟨hok, hs'⟩ := step done e rest s hl hs
    rw [untilError_cons_of_ok rest hok]
    exact ih (done ++ [e]) _ (by simpa using hl) hs'

end UntilError

/-! ## Runs of a step relation -/

section Runs

variable {r : σ → σ → Prop}

theorem reflTransGen_keeps (P : σ → Prop) (hP : ∀ s t, r s t → P s → P t) {s t : σ}
    (hrun : Relation.ReflTransGen r s t) (hs : P s) : P t := by
  induction hrun with
  | refl => exact hs
  | tail _ hst ih => exact hP _ _ hst ih

end Runs

end Lib.StateRel
