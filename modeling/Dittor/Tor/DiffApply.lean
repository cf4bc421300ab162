import Dittor.Tor.ConsDiff

/-!
# Applying a consensus diff (`consdiff.c`)

`apply_ed_diff` reads the commands of a script from the last line of the base to the first.
Its line numbers are C `int`s: the position `j` is -1 behind a command that deletes a line 0.

A command that the generator writes for an edit does what the edit says
(`applyLoop_editLines`), so the script gives the target document, unless the trailer of the
base is a single line: then the range of the command for the trailer, `N,$` in a document of
`N` lines, is refused as empty (`applyEdDiff_genEdDiff`).
-/

namespace Dittor.Tor

open Dittor.Lib

/-! ## Commands -/

/-- `get_linenum`; `tor_parse_long` takes no number above `INT32_MAX` -/
def getLinenum (s : Bytes) : Option (ℕ × Bytes) :=
  match readDecimal s with
  | none => none
  | some (num, next) => if num ≤ intMax then some (num, next) else none

/-- `a`, `c` and `d` -/
inductive EdAction where
  | append | change | delete
deriving DecidableEq

/-- The letter of an action. -/
def EdAction.ofByte (b : UInt8) : Option EdAction :=
  if b = byte 'a' then some .append
  else if b = byte 'c' then some .change
  else if b = byte 'd' then some .delete
  else none

/-- The line numbers of a command and what stands behind them. -/
structure EdRange where
  start : ℕ
  stop : ℕ
  hadRange : Bool
  endWasEof : Bool
  ptr : Bytes
deriving DecidableEq

/-- Up to the check of the range; `len` lines are in the base. -/
def readRange (len : ℕ) (ptr : Bytes) : Option EdRange :=
  match getLinenum ptr with
  | none => none
  | some (start, ptr) =>
    if ptr.head? = some (byte ',') then
      if ptr.tail.head? = some (byte '$') then
        if len ≤ start then none else some ⟨start, len, true, true, ptr.tail.tail⟩
      else
        match getLinenum ptr.tail with
        | none => none
        | some (stop, ptr) =>
          if stop ≤ start then none else some ⟨start, stop, true, false, ptr⟩
    else some ⟨start, start, false, false, ptr⟩

/-- A command that passed all checks but those of its text. -/
structure EdCommand where
  start : ℕ
  stop : ℕ
  action : EdAction
deriving DecidableEq

/-- The checks on one command line, at position `j`. -/
def readCommand (len : ℕ) (j : ℤ) (line : Bytes) : Option EdCommand :=
  if line.length > 127 then none
  else
    -- the copy in `diff_line` ends at its first NUL
    match readRange len (line.takeWhile (· ≠ 0)) with
    | none => none
    | some r =>
      if (r.stop : ℤ) > j then none
      else
        match r.ptr with
        | [b] =>
          match EdAction.ofByte b with
          | none => none
          | some action =>
            if r.endWasEof ∧ action ≠ .delete then none
            else if r.hadRange ∧ action = .append then none
            else some ⟨r.start, r.stop, action⟩
        | _ => none

/-- The lines up to the one that is a dot. -/
def addedLines (diff : List Bytes) : List Bytes := diff.takeWhile (· ≠ cstring ".")

/-- From that line on. -/
def fromDot (diff : List Bytes) : List Bytes := diff.dropWhile (· ≠ cstring ".")

/-- The loop of `apply_ed_diff` on the commands that are left. What was added to `cons2` is
`out`, in its final order. -/
def applyLoop (cons1 : List Bytes) (j : ℤ) (diff out : List Bytes) : Option (List Bytes) :=
  match diff with
  | [] => some (cons1.take j.toNat ++ out)
  | line :: diff =>
    match readCommand cons1.length j line with
    | none => none
    | some c =>
      -- the lines from `j` down to the end of the range are copied
      let out := (cons1.take j.toNat).drop c.stop ++ out
      match c.action with
      | .delete => applyLoop cons1 (c.start - 1) diff out
      | .append | .change =>
        let j' : ℤ := if c.action = .append then c.stop else c.start - 1
        if fromDot diff = [] ∨ addedLines diff = [] then none
        else applyLoop cons1 j' (fromDot diff).tail (addedLines diff ++ out)
termination_by diff.length
decreasing_by
  · simp
  · have := List.length_dropWhile_le (· ≠ cstring ".") diff
    simp only [List.length_tail, List.length_cons, fromDot]
    omega

/-- `apply_ed_diff` -/
def applyEdDiff (cons1 diff : List Bytes) (diffStartingLine : ℕ) : Option (List Bytes) :=
  applyLoop cons1 cons1.length (diff.drop diffStartingLine) []

/-! ## The generator's commands are read -/

theorem cstring_comma : cstring "," = [byte ','] := rfl

theorem isDigit_comma : isDigit (byte ',') = false := by decide

theorem getLinenum_decimal {n : ℕ} (hn : n ≤ intMax) {rest : Bytes}
    (h : ∀ b ∈ rest.head?, isDigit b = false) :
    getLinenum (decimal n ++ rest) = some (n, rest) := by
  rw [getLinenum, readDecimal_decimal n h]
  exact if_pos hn

theorem length_decimal {n : ℕ} (hn : n ≤ intMax) : (decimal n).length ≤ 10 := by
  refine length_decimal_le ?_ (by decide)
  have : intMax = 2147483647 := rfl
  omega

theorem zero_notMem_decimal (n : ℕ) : (0 : UInt8) ∉ decimal n := by
  intro h
  have := isDigit_of_mem_decimal h
  exact absurd this (by decide)

theorem readRange_one (len : ℕ) {n : ℕ} (hn : n ≤ intMax) {b : UInt8}
    (hdigit : isDigit b = false) (hcomma : b ≠ byte ',') :
    readRange len (decimal n ++ [b]) = some ⟨n, n, false, false, [b]⟩ := by
  rw [readRange, getLinenum_decimal hn (by simpa using hdigit)]
  simp [hcomma]

theorem head_decimal_ne_dollar (n : ℕ) (rest : Bytes) :
    (decimal n ++ rest).head? ≠ some (byte '$') := by
  intro h
  obtain ⟨b, bs, hb⟩ := List.exists_cons_of_ne_nil (decimal_ne_nil n)
  have hdigit := isDigit_of_mem_decimal (n := n) (b := b) (by rw [hb]; exact List.mem_cons_self)
  rw [hb, List.cons_append, List.head?_cons, Option.some.injEq] at h
  subst h
  exact absurd hdigit (by decide)

theorem readRange_two (len : ℕ) {n m : ℕ} (hn : n ≤ intMax) (hm : m ≤ intMax) (hlt : n < m)
    {b : UInt8} (hdigit : isDigit b = false) :
    readRange len (decimal n ++ cstring "," ++ decimal m ++ [b]) =
      some ⟨n, m, true, false, [b]⟩ := by
  have htext : decimal n ++ cstring "," ++ decimal m ++ [b] =
      decimal n ++ byte ',' :: (decimal m ++ [b]) := by
    rw [cstring_comma]
    simp
  rw [htext, readRange, getLinenum_decimal hn (by simpa using isDigit_comma)]
  show (if (decimal m ++ [b]).head? = some (byte '$') then _ else _) = _
  rw [if_neg (head_decimal_ne_dollar m [b]), List.tail_cons,
    getLinenum_decimal hm (by simpa using hdigit)]
  exact if_neg (Nat.not_le.mpr hlt)

/-- The range `N,$` is empty in a document of `N` lines. -/
theorem readRange_eof (len : ℕ) {n : ℕ} (hn : n ≤ intMax) :
    readRange len (decimal n ++ cstring ",$d") =
      if len ≤ n then none else some ⟨n, len, true, true, [byte 'd']⟩ := by
  have htext : cstring ",$d" = [byte ',', byte '$', byte 'd'] := rfl
  rw [htext, readRange, getLinenum_decimal hn (by simpa using isDigit_comma)]
  rfl

/-- The copy of a line without a NUL is the line. -/
theorem takeWhile_no_nul {line : Bytes} (h : 0 ∉ line) : line.takeWhile (· ≠ 0) = line := by
  rw [List.takeWhile_eq_self_iff]
  intro b hb
  simpa using fun h0 : b = 0 => h (h0 ▸ hb)

/-- What a command line must be for its numbers to be all that is checked. -/
theorem readCommand_of_range {len : ℕ} {j : ℤ} {line : Bytes} {start stop : ℕ}
    {hadRange endWasEof : Bool} {b : UInt8} {action : EdAction} (hlen : line.length ≤ 127)
    (hnul : 0 ∉ line)
    (hr : readRange len line = some ⟨start, stop, hadRange, endWasEof, [b]⟩)
    (hj : (stop : ℤ) ≤ j) (hb : EdAction.ofByte b = some action)
    (heof : endWasEof = true → action = .delete) (hrange : hadRange = true → action ≠ .append) :
    readCommand len j line = some ⟨start, stop, action⟩ := by
  rw [readCommand, if_neg (by omega), takeWhile_no_nul hnul, hr]
  simp only [hb]
  rw [if_neg (by omega), if_neg (fun h => h.2 (heof h.1)), if_neg (fun h => hrange h.1 h.2)]

/-- The letter of an action. -/
def EdAction.toByte : EdAction → UInt8
  | .append => byte 'a'
  | .change => byte 'c'
  | .delete => byte 'd'

theorem EdAction.toByte_facts (action : EdAction) :
    EdAction.ofByte action.toByte = some action ∧ isDigit action.toByte = false
      ∧ action.toByte ≠ byte ',' ∧ action.toByte ≠ 0 ∧ action.toByte ≠ byte '\n' := by
  cases action <;> decide

/-- A command without a range. -/
theorem readCommand_one (len : ℕ) {j : ℤ} {n : ℕ} (hn : n ≤ intMax) (hj : (n : ℤ) ≤ j)
    (action : EdAction) :
    readCommand len j (decimal n ++ [action.toByte]) = some ⟨n, n, action⟩ := by
  obtain ⟨hof, hdigit, hcomma, hnul, -⟩ := action.toByte_facts
  refine readCommand_of_range ?_ ?_ (readRange_one len hn hdigit hcomma) hj hof (by simp) (by simp)
  · have := length_decimal hn
    simp only [List.length_append, List.length_singleton]
    omega
  · simp [zero_notMem_decimal, hnul.symm]

/-- A command with a range. -/
theorem readCommand_two (len : ℕ) {j : ℤ} {n m : ℕ} (hlt : n < m) (hm : m ≤ intMax)
    (hj : (m : ℤ) ≤ j) {a : EdAction} (haction : a ≠ .append) :
    readCommand len j (decimal n ++ cstring "," ++ decimal m ++ [a.toByte]) =
      some ⟨n, m, a⟩ := by
  obtain ⟨hof, hdigit, -, hnul, -⟩ := a.toByte_facts
  refine readCommand_of_range ?_ ?_ (readRange_two len (by omega) hm hlt hdigit) hj hof (by simp)
    (fun _ => haction)
  · have := length_decimal (n := n) (by omega)
    have := length_decimal hm
    simp only [cstring_comma, List.length_append, List.length_singleton]
    omega
  · have hcomma : (0 : UInt8) ≠ byte ',' := by decide
    simp [cstring_comma, zero_notMem_decimal, hnul.symm, hcomma]

theorem zero_notMem_trailer (n : ℕ) : (0 : UInt8) ∉ decimal n ++ cstring ",$d" := by
  have htext : (0 : UInt8) ∉ cstring ",$d" := by decide
  simp [zero_notMem_decimal, htext]

/-- The command for the trailer. -/
theorem readCommand_eof {len n : ℕ} (hn : n < len) (hlen : len ≤ intMax) :
    readCommand len len (decimal n ++ cstring ",$d") = some ⟨n, len, .delete⟩ := by
  have hr := readRange_eof len (n := n) (by omega)
  rw [if_neg (by omega)] at hr
  refine readCommand_of_range ?_ (zero_notMem_trailer n) hr (Int.le_refl _) (by decide) (by simp)
    (by simp)
  have hnum := length_decimal (n := n) (by omega)
  have htext : (cstring ",$d").length = 3 := rfl
  rw [List.length_append, htext]
  omega

theorem readCommand_eof_empty {len : ℕ} (hlen : len ≤ intMax) :
    readCommand len len (decimal len ++ cstring ",$d") = none := by
  rw [readCommand, takeWhile_no_nul (zero_notMem_trailer len), readRange_eof len hlen,
    if_pos (Nat.le_refl _)]
  split <;> rfl

/-! ## One command, and all of them -/

section Loop

variable {cons1 : List Bytes} {j : ℕ}

theorem applyLoop_delete {line : Bytes} {start stop : ℕ} (rest out : List Bytes)
    (h : readCommand cons1.length j line = some ⟨start + 1, stop, .delete⟩) :
    applyLoop cons1 j (line :: rest) out =
      applyLoop cons1 start rest ((cons1.take j).drop stop ++ out) := by
  rw [applyLoop, h]
  simp only [Int.toNat_natCast]
  rw [show ((start + 1 : ℕ) : ℤ) - 1 = (start : ℤ) by omega]

/-- The lines that are inserted end at the dot. -/
theorem addedLines_dot {added : List Bytes} (h : cstring "." ∉ added) (rest : List Bytes) :
    addedLines (added ++ cstring "." :: rest) = added
      ∧ fromDot (added ++ cstring "." :: rest) = cstring "." :: rest := by
  have hall : ∀ line ∈ added, decide (line ≠ cstring ".") = true := by
    intro line hline
    rw [decide_eq_true_iff]
    exact fun heq => h (heq ▸ hline)
  unfold addedLines fromDot
  rw [List.takeWhile_append_of_pos hall, List.dropWhile_append_of_pos hall,
    List.takeWhile_cons_of_neg (by simp), List.dropWhile_cons_of_neg (by simp), List.append_nil]
  exact ⟨rfl, rfl⟩

theorem applyLoop_insert {line : Bytes} {c : EdCommand} {added : List Bytes} {keep : ℕ}
    (rest out : List Bytes) (h : readCommand cons1.length j line = some c)
    (haction : c.action ≠ .delete)
    (hkeep : (if c.action = .append then (c.stop : ℤ) else c.start - 1) = keep)
    (hne : added ≠ []) (hdot : cstring "." ∉ added) :
    applyLoop cons1 j (line :: (added ++ cstring "." :: rest)) out =
      applyLoop cons1 keep rest (added ++ ((cons1.take j).drop c.stop ++ out)) := by
  obtain ⟨hadded, hfrom⟩ := addedLines_dot hdot rest
  rw [applyLoop, h]
  simp only [Int.toNat_natCast]
  rw [hkeep, hadded, hfrom, if_neg (by simp [hne])]
  obtain ⟨start, stop, action⟩ := c
  cases action with
  | delete => exact absurd rfl haction
  | append => rfl
  | change => rfl

/-- The command for an edit does what the edit says. -/
theorem applyLoop_editLines {e : Edit Bytes} {lines : List Bytes} (rest out : List Bytes)
    (hfit : e.keep + e.deleted ≤ j) (hdo : e.deleted ≠ 0 ∨ e.added ≠ []) (hj : j ≤ intMax)
    (h : editLines e = some lines) :
    applyLoop cons1 j (lines ++ rest) out =
      applyLoop cons1 e.keep rest
        (e.added ++ ((cons1.take j).drop (e.keep + e.deleted) ++ out)) := by
  obtain ⟨keep, deleted, added⟩ := e
  simp only at hfit hdo h ⊢
  unfold editLines at h
  simp only at h
  split at h
  case isTrue hnone =>
    have hpos : deleted ≠ 0 := hdo.resolve_right fun hne => hne hnone
    rw [hnone, List.nil_append]
    split at h
    case isTrue hone =>
      cases h
      subst hone
      exact applyLoop_delete rest out
        (readCommand_one _ (n := keep + 1) (by omega) (by omega) .delete)
    case isFalse hone =>
      cases h
      exact applyLoop_delete rest out
        (readCommand_two _ (n := keep + 1) (m := keep + deleted) (a := .delete) (by omega)
          (by omega) (by omega) (by decide))
  case isFalse hsome =>
    split at h
    case isTrue => cases h
    case isFalse hdot =>
      cases h
      have hlines : ∀ command : Bytes, command :: added ++ [cstring "."] ++ rest =
          command :: (added ++ cstring "." :: rest) := by
        intro command
        simp
      rw [hlines]
      -- the three ways to write the line numbers
      split
      case isTrue hzero =>
        subst hzero
        exact applyLoop_insert rest out
          (readCommand_one _ (n := keep) (by omega) (by omega) .append) (by simp) rfl hsome hdot
      case isFalse hpos =>
        split
        case isTrue hone =>
          subst hone
          exact applyLoop_insert rest out
            (readCommand_one _ (n := keep + 1) (by omega) (by omega) .change) (by simp)
            (by show ((keep + 1 : ℕ) : ℤ) - 1 = keep; omega) hsome hdot
        case isFalse hone =>
          have hread := readCommand_two cons1.length (j := j) (n := keep + 1) (m := keep + deleted)
            (a := .change) (by omega) (by omega) (by omega) (by decide)
          exact applyLoop_insert rest out hread (by simp) (by show ((keep + 1 : ℕ) : ℤ) - 1 = keep; omega) hsome hdot

/-- The commands of all edits, by induction over the edits. -/
theorem applyLoop_commands : ∀ {edits : List (Edit Bytes)} {commands : List (List Bytes)} {j : ℕ}
    (out : List Bytes), Fits j edits → j ≤ intMax → edits.mapM editLines = some commands →
    applyLoop cons1 j commands.flatten out = some (applyEdits cons1 j edits out)
  | [], commands, j, out, _, _, h => by
    cases h
    rw [List.reverse_nil, List.flatten_nil, applyLoop, applyEdits, Int.toNat_natCast]
  | e :: edits, commands, j, out, hfits, hj, h => by
    obtain ⟨hfit, hdo, hrest⟩ := hfits
    rw [List.mapM_cons] at h
    obtain ⟨lines, hlines, h⟩ := Option.bind_eq_some_iff.mp h
    obtain ⟨more, hmore, h⟩ := Option.bind_eq_some_iff.mp h
    cases h
    rw [List.flatten_cons, applyLoop_editLines _ out hfit hdo hj hlines, applyEdits,
      applyLoop_commands _ hrest (by omega) hmore]

/-- The commands of the changes in the first `n` lines give the target. -/
theorem applyLoop_changes {cons2 : List Bytes} {n : ℕ} (hn : n ≤ cons1.length)
    (hlen : cons1.length ≤ intMax) {m : Changes} (hm : IsChanges (cons1.take n) cons2 m)
    {commands : List (List Bytes)}
    (h : (backEdits m.changed1.reverse m.changed2.reverse).mapM editLines = some commands) :
    applyLoop cons1 n commands.flatten [] = some cons2 := by
  have hcount : m.changed1.reverse.length = n := by
    rw [List.length_reverse, ← List.length_map Prod.snd, hm.lines1, List.length_take]
    omega
  have hcovers : Covers cons1 m.changed1.reverse := by
    refine ⟨by omega, ?_⟩
    rw [hcount, List.map_reverse, hm.lines1]
  have hsame : unmarked m.changed1.reverse = unmarked m.changed2.reverse := by
    rw [unmarked_reverse, unmarked_reverse, hm.same]
  have hfits := fits_backEdits m.changed1.reverse m.changed2.reverse (Nat.le_of_eq hcount)
  rw [applyLoop_commands [] hfits (by omega) h,
    applyEdits_backEdits _ _ [] hcovers (Nat.le_of_eq hcount) hsame, hcount, List.map_reverse,
    List.reverse_reverse, hm.lines2, List.drop_of_length_le (by rw [List.length_take]; omega),
    List.append_nil, List.append_nil]

end Loop

/-! ## The script gives the target -/

/-- The signatures of the document are a single line. -/
def OneLineTrailer (cons : List Bytes) : Prop :=
  cons.findIdx? startsSignatures = some (cons.length - 1)

instance (cons : List Bytes) : Decidable (OneLineTrailer cons) :=
  (inferInstance : Decidable (cons.findIdx? startsSignatures = some (cons.length - 1)))

/-- What a script is made of. -/
theorem genEdDiff_cases {cons1 cons2 script : List Bytes} (h : genEdDiff cons1 cons2 = some script) :
    ∃ m commands, IsChanges (preprocessConsensus cons1).1 cons2 m
      ∧ (backEdits m.changed1.reverse m.changed2.reverse).mapM editLines = some commands
      ∧ script = (preprocessConsensus cons1).2 ++ commands.flatten := by
  unfold genEdDiff at h
  obtain ⟨m, hm, h⟩ := Option.bind_eq_some_iff.mp h
  obtain ⟨commands, hcommands, h⟩ := Option.bind_eq_some_iff.mp h
  have hchanges := changedLines_isChanges (by rfl) (by rfl) hm
  rw [List.drop_zero, List.drop_zero] at hchanges
  exact ⟨m, commands, hchanges, hcommands, (Option.some.inj h).symm⟩

/-- Applied to the base, a generated script gives the target, or is refused because of its
command for the trailer. -/
theorem applyEdDiff_genEdDiff {cons1 cons2 script : List Bytes} (hlen : cons1.length ≤ intMax)
    (h : genEdDiff cons1 cons2 = some script) :
    applyEdDiff cons1 script 0 = if OneLineTrailer cons1 then none else some cons2 := by
  obtain ⟨m, commands, hm, hcommands, rfl⟩ := genEdDiff_cases h
  rw [applyEdDiff, List.drop_zero]
  unfold preprocessConsensus at hm ⊢
  split at hm
  next hnone =>
    have htrailer : ¬ OneLineTrailer cons1 := by simp [OneLineTrailer, hnone]
    rw [if_neg htrailer]
    rw [List.nil_append]
    refine applyLoop_changes (Nat.le_refl _) hlen ?_ hcommands
    rwa [List.take_length]
  next k hk =>
    have hlt : k < cons1.length := (List.findIdx?_eq_some_iff_getElem.mp hk).1
    rw [List.singleton_append]
    by_cases hone : cons1.length = k + 1
    · have htrailer : OneLineTrailer cons1 := by rw [OneLineTrailer, hk, hone, Nat.add_sub_cancel]
      rw [if_pos htrailer, applyLoop, ← hone, readCommand_eof_empty hlen]
    · have htrailer : ¬ OneLineTrailer cons1 := by
        rw [OneLineTrailer, hk, Option.some.injEq]
        omega
      rw [if_neg htrailer, applyLoop_delete _ _ (readCommand_eof (by omega) hlen),
        List.drop_of_length_le (by rw [List.length_take]; omega), List.nil_append]
      exact applyLoop_changes hlt.le hlen hm hcommands

end Dittor.Tor
