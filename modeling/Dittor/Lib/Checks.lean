import Mathlib

/-!
# Programs that assert

A program that stops at a failed assertion is a computation in `Except`, where the error names
the assertion. `Passes` says that no assertion of it fails; the rules here take it apart along
the program: a sequence passes if its parts do, one after the other, and a loop over independent
elements passes if its body does (`mapM_ok`).
-/

namespace Dittor.Lib

variable {ε α β : Type}

/-- `tor_assert`; the error says which one it was. -/
def torAssert (p : Prop) [Decidable p] (failed : ε) : Except ε Unit :=
  if p then .ok () else .error failed

/-- A pointer that is asserted not to be `NULL`. -/
def torAssertSome (failed : ε) : Option α → Except ε α
  | some a => .ok a
  | none => .error failed

/-- No assertion fails. -/
def Passes (x : Except ε α) : Prop := ∃ a, x = .ok a

instance (x : Except ε α) : Decidable (Passes x) :=
  match x with
  | .ok a => isTrue ⟨a, rfl⟩
  | .error _ => isFalse fun ⟨_, h⟩ => nomatch h

theorem torAssert_eq_ok {p : Prop} [Decidable p] {e : ε} {u : Unit} :
    torAssert p e = .ok u ↔ p := by
  unfold torAssert
  split_ifs with h
  · simp [h]
  · simp [h]

section Bind

variable {x : Except ε α} {f : α → Except ε β} {b : β}

theorem bind_eq_ok : (x >>= f) = .ok b ↔ ∃ a, x = .ok a ∧ f a = .ok b := by
  cases x with
  | ok a => exact ⟨fun h => ⟨a, rfl, h⟩, fun ⟨a', ha, h⟩ => by cases ha; exact h⟩
  | error e => exact ⟨(fun h => nomatch h), fun ⟨_, ha, _⟩ => nomatch ha⟩

theorem passes_bind : Passes (x >>= f) ↔ ∃ a, x = .ok a ∧ Passes (f a) := by
  constructor
  · intro ⟨b, hb⟩
    obtain ⟨a, ha, hf⟩ := bind_eq_ok.mp hb
    exact ⟨a, ha, b, hf⟩
  · intro ⟨a, ha, b, hf⟩
    exact ⟨b, bind_eq_ok.mpr ⟨a, ha, hf⟩⟩

/-- A step whose result has `P`, and a continuation that passes whenever its argument does. -/
theorem Passes.bind {P : α → Prop} (hx : ∃ a, x = .ok a ∧ P a) (hf : ∀ a, P a → Passes (f a)) :
    Passes (x >>= f) := by
  obtain ⟨a, ha, hP⟩ := hx
  exact passes_bind.mpr ⟨a, ha, hf a hP⟩

end Bind

/-- A loop over independent elements. -/
theorem mapM_ok {f : α → Except ε β} {P : β → Prop} :
    ∀ {l : List α}, (∀ a ∈ l, ∃ b, f a = .ok b ∧ P b) → ∃ bs, l.mapM f = .ok bs ∧ ∀ b ∈ bs, P b
  | [], _ => ⟨[], rfl, by simp⟩
  | a :: l, h => by
    obtain ⟨b, hb, hP⟩ := h a (by simp)
    obtain ⟨bs, hbs, hPs⟩ := mapM_ok fun a ha => h a (List.mem_cons_of_mem _ ha)
    refine ⟨b :: bs, ?_, ?_⟩
    · rw [List.mapM_cons, hb]
      show (l.mapM f >>= fun bs => pure (b :: bs)) = _
      rw [hbs]
      rfl
    · intro b' hb'
      rcases List.mem_cons.mp hb' with rfl | hb'
      · exact hP
      · exact hPs b' hb'

end Dittor.Lib
