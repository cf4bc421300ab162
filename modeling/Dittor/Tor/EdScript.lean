import Mathlib
import Dittor.Lib.Checks
import Dittor.Lib.LineEditor
import Dittor.Tor.DiffApply

/-!
# Applying a diff is executing its script (`consdiff.c`)

`apply_ed_diff` makes one pass over the base document, from its end to its start. Read without the
position of that pass, a script is a list of commands of a line editor (`scriptCommands`). A script
that is applied goes backward, so each command finds the lines of the base that it addresses, and
the result is that of executing the commands one after the other (`apply_ed_diff_executes`).

`applyEdDiffIndexed` is the same pass with the lines of the base read by index.
-/

namespace Dittor.Tor

open Dittor.Lib

/-! ## The commands of a script -/

/-- A command line at a position that no line number is behind. -/
def commandLine (len : ℕ) (line : Bytes) : Option EdCommand :=
  readCommand len (max len intMax : ℕ) line

/-- The commands with the lines that they insert. -/
def scriptCommands (len : ℕ) (diff : List Bytes) : Option (List (LineCommand Bytes)) :=
  match diff with
  | [] => some []
  | line :: diff =>
    match commandLine len line with
    | none => none
    | some c =>
      match c.action with
      | .delete => (scriptCommands len diff).map fun cs => .delete c.start c.stop :: cs
      | .append =>
        if fromDot diff = [] ∨ addedLines diff = [] then none
        else (scriptCommands len (fromDot diff).tail).map fun cs =>
          .append c.start (addedLines diff) :: cs
      | .change =>
        if fromDot diff = [] ∨ addedLines diff = [] then none
        else (scriptCommands len (fromDot diff).tail).map fun cs =>
          .change c.start c.stop (addedLines diff) :: cs
termination_by diff.length
decreasing_by
  · simp
  all_goals
    have := List.length_dropWhile_le (· ≠ cstring ".") diff
    simp only [List.length_tail, List.length_cons, fromDot]
    omega

section Read

variable {len : ℕ} {j : ℤ} {line ptr : Bytes} {r : EdRange} {c : EdCommand}

theorem getLinenum_le {s rest : Bytes} {num : ℕ} (h : getLinenum s = some (num, rest)) :
    num ≤ intMax := by
  unfold getLinenum at h
  split at h
  · cases h
  · split at h
    · rename_i hle
      cases h
      exact hle
    · cases h

/-- The line numbers are in order, and the same without a range. -/
theorem readRange_spec (h : readRange len ptr = some r) :
    r.start ≤ r.stop ∧ (r.hadRange = false → r.start = r.stop) ∧ r.stop ≤ max len intMax := by
  unfold readRange at h
  split at h
  · cases h
  rename_i start ptr' hstart
  have hmax := getLinenum_le hstart
  split at h
  · split at h
    · split at h
      · cases h
      · rename_i hlt
        cases h
        exact ⟨(not_le.mp hlt).le, (fun hno => nomatch hno), le_max_left _ _⟩
    · split at h
      · cases h
      rename_i stop ptr'' hstop
      have hmax' := getLinenum_le hstop
      split at h
      · cases h
      · rename_i hlt
        cases h
        exact ⟨(not_le.mp hlt).le, (fun hno => nomatch hno), hmax'.trans (le_max_right _ _)⟩
  · cases h
    exact ⟨le_rfl, fun _ => rfl, hmax.trans (le_max_right _ _)⟩

/-- What a command line is made of. -/
theorem readCommand_cases (h : readCommand len j line = some c) :
    line.length ≤ 127 ∧ ∃ r b action, readRange len (line.takeWhile (· ≠ 0)) = some r
      ∧ (r.stop : ℤ) ≤ j ∧ r.ptr = [b] ∧ EdAction.ofByte b = some action
      ∧ ¬ (r.endWasEof ∧ action ≠ .delete) ∧ ¬ (r.hadRange ∧ action = .append)
      ∧ c = ⟨r.start, r.stop, action⟩ := by
  unfold readCommand at h
  split at h
  · cases h
  rename_i hlong
  refine ⟨not_lt.mp hlong, ?_⟩
  cases hr : readRange len (line.takeWhile (· ≠ 0)) with
  | none =>
    rw [hr] at h
    cases h
  | some r =>
    rw [hr] at h
    simp only at h
    split at h
    · cases h
    rename_i hbehind
    split at h
    · rename_i b hptr
      cases haction : EdAction.ofByte b with
      | none =>
        rw [haction] at h
        cases h
      | some action =>
        rw [haction] at h
        simp only at h
        split at h
        · cases h
        rename_i heof
        split at h
        · cases h
        rename_i hrange
        exact ⟨r, b, action, rfl, not_lt.mp hbehind, hptr, haction, heof, hrange,
          (Option.some.inj h).symm⟩
    · cases h

/-- **What is read**: the command does not depend on the position, and is not behind it. -/
theorem readCommand_spec (h : readCommand len j line = some c) :
    commandLine len line = some c ∧ c.start ≤ c.stop ∧ (c.stop : ℤ) ≤ j
      ∧ (c.action = .append → c.start = c.stop) := by
  obtain ⟨hlong, r, b, action, hr, hbehind, hptr, haction, heof, hrange, rfl⟩ := readCommand_cases h
  obtain ⟨hle, hone, hmax⟩ := readRange_spec hr
  refine ⟨?_, hle, hbehind, fun happend => hone ?_⟩
  · rw [commandLine, readCommand, if_neg (by omega), hr]
    simp only [hptr, haction]
    rw [if_neg (by omega), if_neg heof, if_neg hrange]
  · rw [Bool.eq_false_iff]
    exact fun hhad => hrange ⟨hhad, happend⟩

end Read

/-! ## Reading by index -/

/-- Why there is no result: the script is refused, or a line of the base is read that it does not
have. -/
inductive EdFailure where
  | refused | outside
deriving DecidableEq, Repr

/-- The lines of the base from `j` down to behind `stop`, in front of `out`. -/
def copyLines (cons1 : List Bytes) (stop : ℕ) : ℕ → List Bytes → Except EdFailure (List Bytes)
  | 0, out => .ok out
  | j + 1, out =>
    if stop < j + 1 then
      match cons1[j]? with
      | none => .error .outside
      | some consLine => copyLines cons1 stop j (consLine :: out)
    else .ok out

/-- `applyLoop` with the lines of the base read one by one. -/
def applyLoopIndexed (cons1 : List Bytes) (j : ℤ) (diff out : List Bytes) :
    Except EdFailure (List Bytes) :=
  match diff with
  | [] => copyLines cons1 0 j.toNat out
  | line :: diff =>
    match readCommand cons1.length j line with
    | none => .error .refused
    | some c =>
      match copyLines cons1 c.stop j.toNat out with
      | .error e => .error e
      | .ok out =>
        match c.action with
        | .delete => applyLoopIndexed cons1 (c.start - 1) diff out
        | .append | .change =>
          let j' : ℤ := if c.action = .append then c.stop else c.start - 1
          if fromDot diff = [] ∨ addedLines diff = [] then .error .refused
          else applyLoopIndexed cons1 j' (fromDot diff).tail (addedLines diff ++ out)
termination_by diff.length
decreasing_by
  · simp
  · have := List.length_dropWhile_le (· ≠ cstring ".") diff
    simp only [List.length_tail, List.length_cons, fromDot]
    omega

/-- `apply_ed_diff` with the lines of the base read one by one. -/
def applyEdDiffIndexed (cons1 diff : List Bytes) (diffStartingLine : ℕ) :
    Except EdFailure (List Bytes) :=
  applyLoopIndexed cons1 cons1.length (diff.drop diffStartingLine) []

/-- All lines that are copied are there. -/
theorem copyLines_spec {cons1 : List Bytes} (stop : ℕ) : ∀ {j : ℕ} (out : List Bytes),
    j ≤ cons1.length → copyLines cons1 stop j out = .ok ((cons1.take j).drop stop ++ out)
  | 0, out, _ => by
    rw [copyLines, List.take_zero, List.drop_nil, List.nil_append]
  | j + 1, out, hj => by
    have hline : cons1[j]? = some cons1[j] := List.getElem?_eq_getElem hj
    rw [copyLines]
    split
    · rename_i hlt
      rw [hline]
      simp only
      rw [copyLines_spec stop _ (by omega), List.take_add_one, hline,
        List.drop_append_of_le_length (by rw [List.length_take]; omega), List.append_assoc]
      rfl
    · rw [List.drop_of_length_le (by rw [List.length_take]; omega), List.nil_append]

/-- A command: the lines that it keeps are copied, and its own are put in front of them. -/
theorem applyLoopIndexed_command {cons1 : List Bytes} {j : ℤ} {line : Bytes} {c : EdCommand}
    (diff out : List Bytes) (hj : j ≤ cons1.length)
    (hread : readCommand cons1.length j line = some c) :
    applyLoopIndexed cons1 j (line :: diff) out =
      match c.action with
      | .delete =>
        applyLoopIndexed cons1 (c.start - 1) diff ((cons1.take j.toNat).drop c.stop ++ out)
      | .append | .change =>
        if fromDot diff = [] ∨ addedLines diff = [] then .error .refused
        else applyLoopIndexed cons1 (if c.action = .append then c.stop else c.start - 1)
          (fromDot diff).tail (addedLines diff ++ ((cons1.take j.toNat).drop c.stop ++ out)) := by
  rw [applyLoopIndexed, hread]
  simp only [copyLines_spec c.stop out (show j.toNat ≤ cons1.length by omega)]

/-- **No line is read that is not there**, by induction over the script. -/
theorem applyLoopIndexed_eq (cons1 : List Bytes) (j : ℤ) (diff out : List Bytes)
    (hj : j ≤ cons1.length) : applyLoopIndexed cons1 j diff out
      = torAssertSome .refused (applyLoop cons1 j diff out) := by
  fun_induction applyLoop cons1 j diff out with
  | case1 j out =>
    rw [applyLoopIndexed, copyLines_spec 0 out (by omega), List.drop_zero]
    rfl
  | case2 j out line diff hread =>
    rw [applyLoopIndexed, hread]
    rfl
  | case3 j out line diff c hread out' haction ih =>
    obtain ⟨-, hle, hstop, -⟩ := readCommand_spec hread
    rw [applyLoopIndexed_command diff out hj hread]
    simp only [haction]
    exact ih (by omega)
  | case4 j out line diff c hread haction hnone | case6 j out line diff c hread haction hnone =>
    obtain ⟨-, hle, hstop, -⟩ := readCommand_spec hread
    rw [applyLoopIndexed_command diff out hj hread]
    simp only [haction, if_pos hnone]
    rfl
  | case5 j out line diff c hread out' haction j' hsome ih =>
    obtain ⟨-, hle, hstop, -⟩ := readCommand_spec hread
    have hj' : j' = c.stop := dif_pos haction
    rw [hj'] at ih ⊢
    rw [applyLoopIndexed_command diff out hj hread]
    simp only [haction, if_neg hsome]
    exact ih (by omega)
  | case7 j out line diff c hread out' haction j' hsome ih =>
    obtain ⟨-, hle, hstop, -⟩ := readCommand_spec hread
    have hj' : j' = c.start - 1 := dif_neg (by rw [haction]; decide)
    rw [hj'] at ih ⊢
    rw [applyLoopIndexed_command diff out hj hread]
    simp only [haction, if_neg hsome]
    exact ih (by omega)

/-! ## Executing the script -/

/-- **The pass executes the script**, by induction over it: the lines up to `j` and what was added
behind them are the document that the commands so far have made. -/
theorem applyLoop_executes {cons1 result : List Bytes} {j : ℤ} {diff out : List Bytes}
    (hj : j ≤ cons1.length) (h : applyLoop cons1 j diff out = some result) :
    ∃ commands, scriptCommands cons1.length diff = some commands ∧ Backward j commands
      ∧ commands.foldl LineCommand.run (cons1.take j.toNat ++ out) = result := by
  fun_induction applyLoop cons1 j diff out with
  | case1 j out =>
    cases h
    exact ⟨[], by rw [scriptCommands], trivial, rfl⟩
  | case2 | case4 | case6 => cases h
  | case3 j out line diff c hread out' haction ih =>
    obtain ⟨hline, hle, hstop, -⟩ := readCommand_spec hread
    obtain ⟨commands, hscript, hback, hrun⟩ := ih (by omega) h
    refine ⟨.delete c.start c.stop :: commands, ?_, ⟨hle, hstop, hback⟩, ?_⟩
    · rw [scriptCommands, hline]
      simp only [haction, hscript, Option.map_some]
    · rw [List.foldl_cons, LineCommand.run_take (c := .delete c.start c.stop) hj hle hstop]
      exact hrun
  | case5 j out line diff c hread out' haction j' hsome ih =>
    obtain ⟨hline, hle, hstop, hone⟩ := readCommand_spec hread
    have hj' : j' = c.start := by
      rw [hone haction]
      exact dif_pos haction
    rw [hj'] at ih h
    have hstart : (c.start : ℤ) ≤ j := by omega
    obtain ⟨commands, hscript, hback, hrun⟩ := ih (by omega) h
    refine ⟨.append c.start (addedLines diff) :: commands, ?_, ⟨le_rfl, hstart, hback⟩, ?_⟩
    · rw [scriptCommands, hline]
      simp only [haction, hscript, Option.map_some, if_neg hsome]
    · rw [List.foldl_cons, LineCommand.run_take (c := .append c.start (addedLines diff)) hj le_rfl hstart]
      show commands.foldl LineCommand.run (cons1.take c.start
        ++ (addedLines diff ++ ((cons1.take j.toNat).drop c.start ++ out))) = result
      rw [hone haction] at hrun ⊢
      exact hrun
  | case7 j out line diff c hread out' haction j' hsome ih =>
    obtain ⟨hline, hle, hstop, -⟩ := readCommand_spec hread
    have hj' : j' = c.start - 1 := dif_neg (by rw [haction]; decide)
    rw [hj'] at ih h
    obtain ⟨commands, hscript, hback, hrun⟩ := ih (by omega) h
    refine ⟨.change c.start c.stop (addedLines diff) :: commands, ?_, ⟨hle, hstop, hback⟩, ?_⟩
    · rw [scriptCommands, hline]
      simp only [haction, hscript, Option.map_some, if_neg hsome]
    · rw [List.foldl_cons, LineCommand.run_take (c := .change c.start c.stop (addedLines diff)) hj hle hstop]
      exact hrun

/-- **Applying a diff is executing the ed script.** -/
theorem apply_ed_diff_executes {cons1 diff result : List Bytes} {diffStartingLine : ℕ}
    (h : applyEdDiff cons1 diff diffStartingLine = some result) :
    applyEdDiffIndexed cons1 diff diffStartingLine = .ok result
      ∧ ∃ commands, scriptCommands cons1.length (diff.drop diffStartingLine) = some commands
        ∧ commands.foldl LineCommand.run cons1 = result
        ∧ ∀ before c after, commands = before ++ c :: after →
          c.first ≤ c.last ∧ c.last ≤ cons1.length
            ∧ (c.last : ℤ) ≤ leftOffBy cons1.length before
            ∧ ∃ back, before.foldl LineCommand.run cons1
              = cons1.take (leftOffBy cons1.length before).toNat ++ back := by
  have hall : cons1.take (cons1.length : ℤ).toNat ++ [] = cons1 := by
    rw [Int.toNat_natCast, List.take_length, List.append_nil]
  obtain ⟨commands, hscript, hback, hrun⟩ := applyLoop_executes le_rfl h
  rw [hall] at hrun
  refine ⟨?_, commands, hscript, hrun, fun before c after hsplit => ?_⟩
  · rw [applyEdDiffIndexed, applyLoopIndexed_eq cons1 _ _ _ le_rfl]
    exact congrArg (torAssertSome EdFailure.refused) h
  · rw [hsplit] at hback
    obtain ⟨hbefore, hfirst, hlast⟩ := hback.split
    have hle := leftOffBy_le hbefore
    obtain ⟨back, hback⟩ := @foldl_run_take _ cons1 _ _ [] le_rfl hbefore
    rw [hall] at hback
    exact ⟨hfirst, by omega, hlast, back, hback⟩

theorem apply_ed_diff_change_append :
    applyEdDiffIndexed (["a", "b", "c", "d"].map cstring)
        (["3,4c", "x", ".", "0a", "y", "."].map cstring) 0
      = .ok (["y", "a", "b", "x"].map cstring)
    ∧ ∃ commands : List (LineCommand Bytes),
      commands.foldl LineCommand.run (["a", "b", "c", "d"].map cstring)
        = ["y", "a", "b", "x"].map cstring := by
  have happlied : applyEdDiff (["a", "b", "c", "d"].map cstring)
      (["3,4c", "x", ".", "0a", "y", "."].map cstring) 0
        = some (["y", "a", "b", "x"].map cstring) := by
    decide +kernel
  obtain ⟨hindexed, commands, -, hrun, -⟩ := apply_ed_diff_executes happlied
  exact ⟨hindexed, commands, hrun⟩

end Dittor.Tor
