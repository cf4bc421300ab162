import Mathlib

/-!
# Rules of which the first that covers decides

A list of rules, each with a verdict, is asked a question: the verdict is that of the first rule
that covers it, or a default (`firstMatch`). The lemmas about it are the ones behind the removal of
rules: rules behind one that covers all they cover, and a rule whose verdict is repeated by a later
one with no other verdict in between.

Where a question is known in part, a rule may be sure to cover it or might do so. `surely` is the
verdict if it does not depend on which rules do (`surely_eq_some_iff`); it is that of every question
which the sure rules cover indeed (`firstMatch_of_surely`).
-/

namespace Dittor.Lib

variable {R Q V : Type} (covers : R → Q → Bool) (verdict : R → V) (otherwise : V)

/-- The verdict of the first rule that covers the question. -/
def firstMatch : List R → Q → V
  | [], _ => otherwise
  | r :: rules, q => if covers r q then verdict r else firstMatch rules q

section FirstMatch

variable {covers verdict otherwise} {q : Q} {a b : R} {l m : List R} {v : V}

theorem firstMatch_cons_of_covered (h : covers a q = true) :
    firstMatch covers verdict otherwise (a :: l) q = verdict a := by
  rw [firstMatch, if_pos h]

theorem firstMatch_cons_of_not_covered (h : covers a q = false) :
    firstMatch covers verdict otherwise (a :: l) q = firstMatch covers verdict otherwise l q := by
  rw [firstMatch, h]
  rfl

/-- Rules that do not cover the question are passed. -/
theorem firstMatch_append_of_not_covered (h : ∀ r ∈ l, covers r q = false) :
    firstMatch covers verdict otherwise (l ++ m) q = firstMatch covers verdict otherwise m q := by
  induction l with
  | nil => rfl
  | cons a l ih =>
    rw [List.cons_append, firstMatch_cons_of_not_covered (h a List.mem_cons_self)]
    exact ih fun r hr => h r (List.mem_cons_of_mem _ hr)

/-- Rules in front that agree on a verdict give it, unless none of them covers the question. -/
theorem firstMatch_append_of_verdicts (h : ∀ r ∈ l, covers r q = true → verdict r = v) :
    firstMatch covers verdict otherwise (l ++ m) q = v
      ∨ (∀ r ∈ l, covers r q = false)
        ∧ firstMatch covers verdict otherwise (l ++ m) q
          = firstMatch covers verdict otherwise m q := by
  induction l with
  | nil => exact .inr ⟨by simp, rfl⟩
  | cons a l ih =>
    rw [List.cons_append]
    cases hcov : covers a q with
    | true =>
      rw [firstMatch_cons_of_covered hcov]
      exact .inl (h a List.mem_cons_self hcov)
    | false =>
      rw [firstMatch_cons_of_not_covered hcov]
      refine (ih fun r hr => h r (List.mem_cons_of_mem _ hr)).imp_right fun ⟨hnone, heq⟩ => ?_
      exact ⟨List.forall_mem_cons.mpr ⟨hcov, hnone⟩, heq⟩

/-- If one of them does, they give it. -/
theorem firstMatch_append_of_agree (h : ∀ r ∈ l, covers r q = true → verdict r = v)
    (hb : covers b q = true) (hv : verdict b = v) :
    firstMatch covers verdict otherwise (l ++ b :: m) q = v := by
  refine (firstMatch_append_of_verdicts h).elim id fun ⟨_, heq⟩ => ?_
  rw [heq, firstMatch_cons_of_covered hb, hv]

/-- Rules behind one that covers all they cover can go. -/
theorem firstMatch_filter_shadowed {keep : R → Bool}
    (h : ∀ r ∈ l, keep r = false → covers r q = true → covers a q = true) :
    firstMatch covers verdict otherwise (a :: l.filter keep) q
      = firstMatch covers verdict otherwise (a :: l) q := by
  cases ha : covers a q with
  | true => rw [firstMatch_cons_of_covered ha, firstMatch_cons_of_covered ha]
  | false =>
    rw [firstMatch_cons_of_not_covered ha, firstMatch_cons_of_not_covered ha]
    induction l with
    | nil => rfl
    | cons b l ih =>
      have hrest := ih fun r hr => h r (List.mem_cons_of_mem _ hr)
      cases hkeep : keep b with
      | true =>
        rw [List.filter_cons_of_pos hkeep, firstMatch, firstMatch, hrest]
      | false =>
        have hb : covers b q = false := by
          by_contra hcov
          have := h b List.mem_cons_self hkeep (by simpa using hcov)
          rw [ha] at this
          cases this
        rw [List.filter_cons_of_neg (by simp [hkeep]), firstMatch_cons_of_not_covered hb, hrest]

/-- A rule can go whose verdict comes again in a later rule that covers as much, with no other
verdict for the same question in between. -/
theorem firstMatch_drop_repeated {mid post : List R}
    (hmid : ∀ r ∈ mid, covers a q = true → covers r q = true → verdict r = verdict a)
    (hcov : covers a q = true → covers b q = true) (hv : verdict b = verdict a) :
    firstMatch covers verdict otherwise (a :: (mid ++ b :: post)) q
      = firstMatch covers verdict otherwise (mid ++ b :: post) q := by
  cases ha : covers a q with
  | false => exact firstMatch_cons_of_not_covered ha
  | true =>
    rw [firstMatch_cons_of_covered ha]
    exact (firstMatch_append_of_agree (fun r hr => hmid r hr ha) (hcov ha) hv).symm

end FirstMatch

/-! ## Questions that are known in part -/

section Surely

variable (might sure : R → Bool) [DecidableEq V]

/-- The verdict, if it is the same whichever of the rules that might cover the question do. -/
def surely : List R → Option V
  | [] => some otherwise
  | r :: rules =>
    if might r then
      if sure r then some (verdict r) else (surely rules).filter fun v => v = verdict r
    else surely rules

variable {verdict otherwise might sure} {l : List R} {v : V}

/-- Rules that might cover the question, none of them for sure, and all with one verdict. -/
def Tentative (verdict : R → V) (might sure : R → Bool) (v : V) (l : List R) : Prop :=
  ∀ r ∈ l, might r = true → sure r = false ∧ verdict r = v

/-- The verdict is that of the first sure rule, or the default, and that of all tentative rules in
front. -/
theorem surely_eq_some_iff :
    surely verdict otherwise might sure l = some v ↔
      (∃ front stop behind, l = front ++ stop :: behind ∧ might stop = true ∧ sure stop = true
        ∧ verdict stop = v ∧ Tentative verdict might sure v front)
      ∨ otherwise = v ∧ Tentative verdict might sure v l := by
  induction l with
  | nil => simp [surely, Tentative]
  | cons a l ih =>
    rw [surely]
    cases hmight : might a with
    | false =>
      have hskip : ∀ m : List R, Tentative verdict might sure v (a :: m) ↔
          Tentative verdict might sure v m := fun m => by
        simp [Tentative, hmight]
      rw [if_neg (by simp), ih, hskip]
      refine or_congr_left ⟨?_, ?_⟩
      · rintro ⟨front, stop, behind, rfl, h⟩
        exact ⟨a :: front, stop, behind, rfl, h.1, h.2.1, h.2.2.1, (hskip _).mpr h.2.2.2⟩
      · rintro ⟨front, stop, behind, heq, h⟩
        cases front with
        | nil =>
          obtain ⟨rfl, rfl⟩ := List.cons.inj heq
          rw [hmight] at h
          cases h.1
        | cons c front =>
          obtain ⟨rfl, rfl⟩ := List.cons.inj heq
          exact ⟨front, stop, behind, rfl, h.1, h.2.1, h.2.2.1, (hskip _).mp h.2.2.2⟩
    | true =>
      rw [if_pos rfl]
      cases hsure : sure a with
      | true =>
        have hnot : ∀ m : List R, ¬ Tentative verdict might sure v (a :: m) := fun m h => by
          have := (h a List.mem_cons_self hmight).1
          rw [hsure] at this
          cases this
        rw [if_pos rfl, Option.some_inj]
        constructor
        · intro hv
          exact .inl ⟨[], a, l, rfl, hmight, hsure, hv, by simp [Tentative]⟩
        · rintro (⟨front, stop, behind, heq, -, -, hv, htent⟩ | ⟨-, htent⟩)
          · cases front with
            | nil => exact (List.cons.inj heq).1 ▸ hv
            | cons c front =>
              rw [(List.cons.inj heq).1] at hnot
              exact absurd htent (hnot front)
          · exact absurd htent (hnot l)
      | false =>
        have hkeep : ∀ m : List R, Tentative verdict might sure v (a :: m) ↔
            verdict a = v ∧ Tentative verdict might sure v m := fun m => by
          simp [Tentative, hmight, hsure]
        rw [if_neg (by simp), Option.filter_eq_some_iff, ih, decide_eq_true_iff, hkeep]
        constructor
        · rintro ⟨⟨front, stop, behind, rfl, h⟩ | ⟨hother, htent⟩, hv⟩
          · exact .inl ⟨a :: front, stop, behind, rfl, h.1, h.2.1, h.2.2.1,
              (hkeep _).mpr ⟨hv.symm, h.2.2.2⟩⟩
          · exact .inr ⟨hother, hv.symm, htent⟩
        · rintro (⟨front, stop, behind, heq, h⟩ | ⟨hother, hv, htent⟩)
          · cases front with
            | nil =>
              rw [← (List.cons.inj heq).1, hsure] at h
              cases h.2.1
            | cons c front =>
              obtain ⟨rfl, rfl⟩ := List.cons.inj heq
              obtain ⟨hv, htent⟩ := (hkeep _).mp h.2.2.2
              exact ⟨.inl ⟨front, stop, behind, rfl, h.1, h.2.1, h.2.2.1, htent⟩, hv.symm⟩
          · exact ⟨.inr ⟨hother, htent⟩, hv.symm⟩

/-- It is the verdict of a question that only the rules which might cover it do, and the sure ones
indeed. -/
theorem firstMatch_of_surely {covers : R → Q → Bool} {q : Q}
    (hmight : ∀ r ∈ l, covers r q = true → might r = true)
    (hsure : ∀ r ∈ l, might r = true → sure r = true → covers r q = true)
    (h : surely verdict otherwise might sure l = some v) :
    firstMatch covers verdict otherwise l q = v := by
  rcases surely_eq_some_iff.mp h with ⟨front, stop, behind, rfl, hm, hs, hv, htent⟩ | ⟨rfl, htent⟩
  · have hfront : ∀ r ∈ front, covers r q = true → verdict r = v := fun r hr hcov =>
      (htent r hr (hmight r (by simp [hr]) hcov)).2
    exact firstMatch_append_of_agree hfront (hsure stop (by simp) hm hs) hv
  · have hall : ∀ r ∈ l, covers r q = true → verdict r = otherwise := fun r hr hcov =>
      (htent r hr (hmight r hr hcov)).2
    rw [← List.append_nil l]
    exact (firstMatch_append_of_verdicts hall).elim id fun h => h.2

end Surely

end Dittor.Lib
