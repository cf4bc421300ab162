import Mathlib.Data.List.Basic

/-!
# Handlers and runs of event-driven systems

Two small pieces shared by every protocol of the development.

`Outcome` is what one call of an event handler leaves behind: the state (also
the part changed before an exception), the messages it handed to the network
in order, and the exception if one was thrown. `andThen` is the `;` of the
source: what follows a thrown exception does not run.

`Run step ok s t` is a run from `s` to `t` in which every step met the
condition `ok` on the state before it and its event. A statement about *every* run
takes `ok` to be true; one that holds only under a condition on the steps
says which one. `Run.invariant` is the induction rule.
-/

namespace Dittor.Lib

/-- The result of running a handler. -/
structure Outcome (σ μ ε : Type*) where
  state : σ
  sent : List μ := []
  thrown : Option ε := none

namespace Outcome

variable {σ μ ε : Type*}

/-- Sequencing: run `f` on the state left by `o`, unless `o` threw. -/
def andThen (o : Outcome σ μ ε) (f : σ → Outcome σ μ ε) : Outcome σ μ ε :=
  match o.thrown with
  | some _ => o
  | none => { f o.state with sent := o.sent ++ (f o.state).sent }

theorem andThen_ok (s : σ) (l : List μ) (f : σ → Outcome σ μ ε) :
    (Outcome.mk s l none).andThen f = { f s with sent := l ++ (f s).sent } := rfl

end Outcome

/-- A run of `step` from `s` every step of which meets `ok`. -/
inductive Run {σ ε : Type*} (step : σ → ε → Option σ) (ok : σ → ε → Prop) (s : σ) : σ → Prop
  | refl : Run step ok s s
  | tail {t u : σ} {e : ε} : Run step ok s t → ok t e → step t e = some u → Run step ok s u

namespace Run

variable {σ ε : Type*} {step : σ → ε → Option σ} {ok ok' : σ → ε → Prop} {s t u : σ}

/-- What holds at the start and survives every step holds at the end. -/
theorem invariant {I : σ → Prop} (h : Run step ok s t) (hs : I s)
    (hstep : ∀ {t u : σ} {e : ε}, I t → ok t e → step t e = some u → I u) : I t := by
  induction h with
  | refl => exact hs
  | tail _ hok hst ih => exact hstep ih hok hst

theorem trans (h₁ : Run step ok s t) (h₂ : Run step ok t u) : Run step ok s u := by
  induction h₂ with
  | refl => exact h₁
  | tail _ hok hst ih => exact ih.tail hok hst

/-- A run into a property has a step that enters it. -/
theorem exists_enters {P : σ → Prop} (h : Run step ok s t) (hs : ¬ P s) (ht : P t) :
    ∃ (u v : σ) (e : ε), (Run step ok s u ∧ ok u e ∧ step u e = some v ∧ Run step ok v t)
      ∧ ¬ P u ∧ P v := by
  induction h with
  | refl => exact absurd ht hs
  | @tail w x e hrun hok hst ih =>
    by_cases hw : P w
    · obtain ⟨u, v, e', ⟨h₁, hok', hst', h₂⟩, hu, hv⟩ := ih hw
      exact ⟨u, v, e', ⟨h₁, hok', hst', h₂.tail hok hst⟩, hu, hv⟩
    · exact ⟨w, x, e, ⟨hrun, hok, hst, .refl⟩, hw, ht⟩

theorem mono (h : Run step ok s t) (hle : ∀ t e, ok t e → ok' t e) : Run step ok' s t := by
  induction h with
  | refl => exact .refl
  | tail _ hok hst ih => exact ih.tail (hle _ _ hok) hst

end Run

/-- Run a list of events; `none` as soon as one is refused or does not meet `ok`. -/
def runEvents {σ ε : Type*} (step : σ → ε → Option σ) (ok : σ → ε → Prop)
    [∀ s e, Decidable (ok s e)] : σ → List ε → Option σ
  | s, [] => some s
  | s, e :: es => if ok s e then (step s e).bind fun t => runEvents step ok t es else none

/-- An executed event list is a run. -/
theorem run_of_runEvents {σ ε : Type*} {step : σ → ε → Option σ} {ok : σ → ε → Prop}
    [∀ s e, Decidable (ok s e)] :
    ∀ {es : List ε} {s t : σ}, runEvents step ok s es = some t → Run step ok s t := by
  intro es
  induction es with
  | nil =>
    intro s t h
    simp only [runEvents, Option.some.injEq] at h
    subst h
    exact .refl
  | cons e es ih =>
    intro s t h
    rw [runEvents] at h
    split at h
    next hok =>
      obtain ⟨u, hu, hrest⟩ := Option.bind_eq_some_iff.mp h
      exact (Run.refl.tail hok hu).trans (ih hrest)
    · exact absurd h (by simp)

/-- A run to a state with a given property, by execution. -/
theorem exists_run {σ ε : Type*} {step : σ → ε → Option σ} {ok : σ → ε → Prop}
    [∀ s e, Decidable (ok s e)] {P : σ → Prop} [DecidablePred P] {s : σ} (es : List ε)
    (h : (runEvents step ok s es).any (fun t => decide (P t)) = true) :
    ∃ t, Run step ok s t ∧ P t := by
  cases ht : runEvents step ok s es with
  | none =>
    rw [ht] at h
    simp at h
  | some t =>
    rw [ht] at h
    exact ⟨t, run_of_runEvents ht, by simpa using h⟩

/-- Where no step fails from a state with the invariant, no list of steps does. -/
theorem foldlM_of_keeps {σ α : Type*} {step : σ → α → Option σ} {Inv : σ → Prop}
    (hstep : ∀ s a, Inv s → ∃ s', step s a = some s' ∧ Inv s') :
    ∀ (steps : List α) (s : σ), Inv s → ∃ s', steps.foldlM step s = some s' ∧ Inv s'
  | [], s, hs => ⟨s, rfl, hs⟩
  | a :: steps, s, hs => by
    obtain ⟨s', heq, hs'⟩ := hstep s a hs
    obtain ⟨t, hrun, ht⟩ := foldlM_of_keeps hstep steps s' hs'
    exact ⟨t, by rw [List.foldlM_cons, heq]; exact hrun, ht⟩

end Dittor.Lib
