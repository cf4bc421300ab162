import Mathlib

/-!
# A line editor

Commands that append lines behind a line, delete a range of lines or change it, executed one after
the other on a document; line numbers start at 1, and each command counts the lines of the document
that the one before it left. A script goes backward if no command addresses a line behind the point
where the one before it left off (`Backward`); then a command finds the lines of the base document
(`LineCommand.run_take`), up to the point where it leaves off itself.
-/

namespace Dittor.Lib

variable {α : Type*}

/-- `a`, `d` and `c` -/
inductive LineCommand (α : Type*) where
  | append (line : ℕ) (added : List α)
  | delete (first last : ℕ)
  | change (first last : ℕ) (added : List α)
deriving DecidableEq, Repr

namespace LineCommand

/-- The document after the command. There is no line 0: a range that starts with it starts with
line 1. -/
def run (doc : List α) : LineCommand α → List α
  | append line added => doc.take line ++ added ++ doc.drop line
  | delete first last => doc.take (max first 1 - 1) ++ doc.drop last
  | change first last added => doc.take (max first 1 - 1) ++ added ++ doc.drop last

/-- The first line number of the command. -/
def first : LineCommand α → ℕ
  | append line _ => line
  | delete first _ => first
  | change first _ _ => first

/-- The last line number of the command. -/
def last : LineCommand α → ℕ
  | append line _ => line
  | delete _ last => last
  | change _ last _ => last

/-- The lines that come in. -/
def added : LineCommand α → List α
  | append _ added => added
  | delete _ _ => []
  | change _ _ added => added

/-- The last line in front of what the command changed; -1 behind a range that starts with line
0. -/
def leftOff : LineCommand α → ℤ
  | append line _ => line
  | delete first _ => first - 1
  | change first _ _ => first - 1

end LineCommand

/-- No command addresses a line behind the point where the one before it left off. -/
def Backward : ℤ → List (LineCommand α) → Prop
  | _, [] => True
  | j, c :: cs => c.first ≤ c.last ∧ (c.last : ℤ) ≤ j ∧ Backward c.leftOff cs

/-- Where the last of the commands left off, `j` if there is none. -/
def leftOffBy (j : ℤ) (cs : List (LineCommand α)) : ℤ := cs.foldl (fun _ c => c.leftOff) j

variable {base out : List α} {c : LineCommand α} {cs : List (LineCommand α)} {j : ℤ}

theorem LineCommand.leftOff_le (h : c.first ≤ c.last) : c.leftOff ≤ c.last := by
  cases c with
  | append line added => exact le_rfl
  | delete first last =>
    have hle : first ≤ last := h
    show (first : ℤ) - 1 ≤ last
    omega
  | change first last added =>
    have hle : first ≤ last := h
    show (first : ℤ) - 1 ≤ last
    omega

/-- **One command**, where the first `j` lines are those of the base. -/
theorem LineCommand.run_take (hj : j ≤ base.length) (hfirst : c.first ≤ c.last)
    (hlast : (c.last : ℤ) ≤ j) :
    c.run (base.take j.toNat ++ out)
      = base.take c.leftOff.toNat ++ (c.added ++ ((base.take j.toNat).drop c.last ++ out)) := by
  have hlen : (base.take j.toNat).length = j.toNat := by
    rw [List.length_take]
    omega
  have hfront : ∀ n : ℕ, (n : ℤ) ≤ j → (base.take j.toNat ++ out).take n = base.take n := by
    intro n hn
    rw [List.take_append_of_le_length (by omega), List.take_take, Nat.min_eq_left (by omega)]
  have hback : (base.take j.toNat ++ out).drop c.last = (base.take j.toNat).drop c.last ++ out :=
    List.drop_append_of_le_length (by omega)
  cases c with
  | append line added =>
    simp only [LineCommand.last] at hlast hback ⊢
    rw [LineCommand.run, hfront line hlast, hback, List.append_assoc]
    rfl
  | delete first last =>
    simp only [LineCommand.first, LineCommand.last] at hfirst hlast hback ⊢
    have hleft : (LineCommand.delete first last : LineCommand α).leftOff.toNat = max first 1 - 1 := by
      show ((first : ℤ) - 1).toNat = _
      omega
    rw [LineCommand.run, hfront _ (by omega), hback, hleft]
    rfl
  | change first last added =>
    simp only [LineCommand.first, LineCommand.last] at hfirst hlast hback ⊢
    have hleft : (LineCommand.change first last added).leftOff.toNat = max first 1 - 1 := by
      show ((first : ℤ) - 1).toNat = _
      omega
    rw [LineCommand.run, hfront _ (by omega), hback, hleft, List.append_assoc]
    rfl

/-- **All commands**: up to where they left off the document is the base. -/
theorem foldl_run_take : ∀ {cs : List (LineCommand α)} {j : ℤ} (out : List α), j ≤ base.length →
    Backward j cs → ∃ back, cs.foldl LineCommand.run (base.take j.toNat ++ out)
      = base.take (leftOffBy j cs).toNat ++ back
  | [], _, out, _, _ => ⟨out, rfl⟩
  | c :: cs, j, out, hj, ⟨hfirst, hlast, hrest⟩ => by
    have hleft := c.leftOff_le hfirst
    rw [List.foldl_cons, LineCommand.run_take hj hfirst hlast]
    exact foldl_run_take _ (by omega) hrest

theorem leftOffBy_le : ∀ {cs : List (LineCommand α)} {j : ℤ}, Backward j cs → leftOffBy j cs ≤ j
  | [], _, _ => le_rfl
  | c :: cs, j, ⟨hfirst, hlast, hrest⟩ => by
    have hleft := c.leftOff_le hfirst
    exact (leftOffBy_le hrest).trans (by omega)

/-- The commands in front of one leave off at or behind its last line. -/
theorem Backward.split {after : List (LineCommand α)} : ∀ {before : List (LineCommand α)} {j : ℤ},
    Backward j (before ++ c :: after) →
    Backward j before ∧ c.first ≤ c.last ∧ (c.last : ℤ) ≤ leftOffBy j before
  | [], _, ⟨hfirst, hlast, _⟩ => ⟨trivial, hfirst, hlast⟩
  | _ :: _, _, ⟨hfirst, hlast, hrest⟩ =>
    have ⟨hbefore, hc⟩ := Backward.split hrest
    ⟨⟨hfirst, hlast, hbefore⟩, hc⟩

end Dittor.Lib
