import Dittor.Tor.Base64
import Dittor.Tor.DiffApply
import Dittor.Tor.Enforcement
import Dittor.Tor.SignedRange

/-!
# Consensus diffs as documents (`consdiff.c`)

`consensus_diff_generate` splits both documents into lines, generates the script, applies it
to the base to see that it works, and puts two header lines in front: the version and the
digests of the two documents. `consensus_diff_apply` checks these digests. SHA3-256 is a
parameter. A returned `char *` is the bytes up to its first NUL.

The self-check can only fail in one way, on a base whose signatures are a single line
(`consdiffGenDiff_spec`); a diff that is returned always gives the target.
-/

namespace Dittor.Tor

open Dittor.Lib

/-! ## Lines -/

/-- `CONSENSUS_LINE_MAX_LEN` -/
def consensusLineMaxLen : ℕ := 1048576

/-- The loop of `consensus_split_lines`. -/
def splitLoop (s : Bytes) : Option (List Bytes) :=
  if _h : s = [] then some []
  else if byte '\n' ∉ s then none
  else if (lineOf s).length > consensusLineMaxLen then none
  else (splitLoop ((afterLine s).drop 1)).map fun out => lineOf s :: out
termination_by s.length
decreasing_by
  have hle := (afterLine_suffix s).length_le
  have hpos := List.length_pos_of_ne_nil _h
  rw [List.length_drop]
  omega

/-- `consensus_split_lines`; a list that would get longer than its capacity fails an
assertion -/
def consensusSplitLines (s : Bytes) : Option Smartlist :=
  match splitLoop s with
  | none => none
  | some lines => if h : lines.length ≤ intMax then some ⟨lines, h⟩ else none

/-- `consensus_join_lines` -/
def consensusJoinLines (lines : List Bytes) : Bytes := lines.flatMap fun line => line ++ [byte '\n']

/-- What a reader of a `char *` sees. -/
def asCString (s : Bytes) : Bytes := s.takeWhile (· ≠ 0)

/-! ## Digests -/

/-- A digest of `DIGEST256_LEN` bytes. -/
abbrev Digest256 := { d : Bytes // d.length = 32 }

section Diff

variable (sha3 : Bytes → Digest256)

/-- `consensus_compute_digest_as_signed`: of the signed part, or of everything if there is
none -/
def digestAsSigned (cons : Bytes) : Digest256 :=
  match routerGetHashImplHelper (cstring "network-status-version")
    (cstring "\ndirectory-signature") (byte ' ') cons with
  | some (_, signed) => sha3 signed
  | none => sha3 cons

/-- `ns_diff_version` -/
def nsDiffVersion : Bytes := cstring "network-status-diff-version 1"

/-- `hash_token` -/
def hashToken : Bytes := cstring "hash"

/-- Where `consdiff_gen_diff` gives up: there is no script; the script does not apply; it
gives something else; the diff is too long for its list. -/
inductive GenError where
  | noEdDiff | notApplied | notTarget | capacity
deriving DecidableEq

/-- The second line of a diff. -/
def hashLine (digests1 digests2 : Digest256) : Bytes :=
  hashToken ++ cstring " " ++ base16Encode digests1 ++ cstring " " ++ base16Encode digests2

/-- `consdiff_gen_diff` -/
def consdiffGenDiff (cons1 cons2 : Smartlist) (digests1 digests2 : Digest256) :
    Except GenError Smartlist :=
  match genEdDiff cons1 cons2 with
  | none => .error .noEdDiff
  | some edDiff =>
    match applyEdDiff cons1 edDiff 0 with
    | none => .error .notApplied
    | some edCons2 =>
      if edCons2 ≠ cons2 then .error .notTarget
      else
        let result := nsDiffVersion :: hashLine digests1 digests2 :: edDiff
        if h : result.length ≤ intMax then .ok ⟨result, h⟩ else .error .capacity

/-- `consdiff_get_digests`. More than three words, of which the source splits off no more than
four, are as wrong as fewer. -/
def consdiffGetDigests (diff : List Bytes) : Option (Bytes × Bytes) :=
  match diff with
  | format :: line2 :: _ =>
    if format ≠ nsDiffVersion then none
    else
      match (asCString line2).splitOn (byte ' ') with
      | [token, cons1HashHex, cons2HashHex] =>
        if token ≠ hashToken then none
        else if cons1HashHex.length ≠ 64 ∨ cons2HashHex.length ≠ 64 then none
        else
          match base16Decode cons1HashHex, base16Decode cons2HashHex with
          | some cons1Hash, some cons2Hash => some (cons1Hash, cons2Hash)
          | _, _ => none
      | _ => none
  | _ => none

/-- `consdiff_apply_diff` -/
def consdiffApplyDiff (cons1 diff : List Bytes) (digests1 : Digest256) : Option Bytes :=
  match consdiffGetDigests diff with
  | none => none
  | some (eCons1Hash, eCons2Hash) =>
    if digests1.val ≠ eCons1Hash then none
    else
      match applyEdDiff cons1 diff 2 with
      | none => none
      | some cons2 =>
        let cons2Str := asCString (consensusJoinLines cons2)
        if (sha3 cons2Str).val ≠ eCons2Hash then none else some cons2Str

/-- `consensus_diff_generate` -/
def consensusDiffGenerate (cons1 cons2 : Bytes) : Option Bytes :=
  match consensusSplitLines cons1, consensusSplitLines cons2 with
  | some lines1, some lines2 =>
    match consdiffGenDiff lines1 lines2 (digestAsSigned sha3 cons1) (sha3 cons2) with
    | .ok resultLines => some (asCString (consensusJoinLines resultLines))
    | .error _ => none
  | _, _ => none

/-- `consensus_diff_apply` -/
def consensusDiffApply (consensus diff : Bytes) : Option Bytes :=
  match consensusSplitLines consensus, consensusSplitLines diff with
  | some lines1, some lines2 => consdiffApplyDiff sha3 lines1 lines2 (digestAsSigned sha3 consensus)
  | _, _ => none

end Diff

/-! ## Lines are split where they were joined -/

/-- A line that survives being joined, read as a string and split. -/
structure PlainLine (line : Bytes) : Prop where
  no_newline : byte '\n' ∉ line
  short : line.length ≤ consensusLineMaxLen

theorem splitLoop_spec {s : Bytes} {lines : List Bytes} (h : splitLoop s = some lines) :
    consensusJoinLines lines = s ∧ ∀ line ∈ lines, PlainLine line := by
  fun_induction splitLoop s generalizing lines with
  | case1 =>
    cases h
    exact ⟨rfl, by simp⟩
  | case2 => cases h
  | case3 => cases h
  | case4 s hne hnl hshort ih =>
    obtain ⟨rest, hrest, rfl⟩ := Option.map_eq_some_iff.mp h
    obtain ⟨line, post, rfl, hline⟩ := List.eq_append_cons_of_mem (not_not.mp hnl)
    rw [(line_cut hline post).1] at hshort ⊢
    rw [(line_cut hline post).2, List.drop_one, List.tail_cons] at hrest ih
    obtain ⟨hjoin, hplain⟩ := ih hrest
    refine ⟨?_, ?_⟩
    · show line ++ [byte '\n'] ++ consensusJoinLines rest = line ++ byte '\n' :: post
      rw [hjoin]
      simp
    · intro l hl
      rcases List.mem_cons.mp hl with rfl | hl
      · exact ⟨hline, Nat.not_lt.mp hshort⟩
      · exact hplain l hl

theorem splitLoop_join : ∀ {lines : List Bytes}, (∀ line ∈ lines, PlainLine line) →
    splitLoop (consensusJoinLines lines) = some lines
  | [], _ => by rw [splitLoop]; exact dif_pos rfl
  | line :: lines, h => by
    have hline := h line List.mem_cons_self
    have htext : consensusJoinLines (line :: lines) =
        line ++ byte '\n' :: consensusJoinLines lines := by
      simp [consensusJoinLines]
    rw [htext, splitLoop, dif_neg (by simp), if_neg (by simp), (line_cut hline.no_newline _).1,
      (line_cut hline.no_newline _).2, if_neg (Nat.not_lt.mpr hline.short), List.drop_one,
      List.tail_cons, splitLoop_join fun l hl => h l (List.mem_cons_of_mem _ hl)]
    rfl

/-! ## The header is read back -/

theorem IsGraphic.facts {b : UInt8} (h : IsGraphic b) :
    b ≠ byte ' ' ∧ b ≠ byte '\n' ∧ b ≠ 0 := by
  obtain ⟨hlo, -⟩ := h
  refine ⟨?_, ?_, ?_⟩ <;>
  · intro heq
    rw [heq] at hlo
    exact absurd hlo (by decide)

theorem hashLine_eq (d1 d2 : Digest256) :
    hashLine d1 d2 = [byte ' '].intercalate [hashToken, base16Encode d1, base16Encode d2] := by
  have hspace : cstring " " = [byte ' '] := rfl
  simp [hashLine, hspace, List.intercalate, List.intersperse]

theorem hashToken_facts : byte ' ' ∉ hashToken ∧ byte '\n' ∉ hashToken ∧ 0 ∉ hashToken := by
  decide

/-- Neither a newline nor a NUL is in the line of the digests. -/
theorem hashLine_clean (d1 d2 : Digest256) : byte '\n' ∉ hashLine d1 d2 ∧ 0 ∉ hashLine d1 d2 := by
  have hspace : cstring " " = [byte ' '] := rfl
  have hbyte : byte '\n' ≠ byte ' ' ∧ (0 : UInt8) ≠ byte ' ' := by decide
  have hhex : ∀ d : Digest256, byte '\n' ∉ base16Encode d ∧ 0 ∉ base16Encode d := fun d =>
    ⟨fun h => (mem_base16Encode h).1.facts.2.1 rfl, fun h => (mem_base16Encode h).1.facts.2.2 rfl⟩
  simp [hashLine, hspace, hashToken_facts, hbyte, hhex]

theorem consdiffGetDigests_header (d1 d2 : Digest256) (rest : List Bytes) :
    consdiffGetDigests (nsDiffVersion :: hashLine d1 d2 :: rest) = some (d1.val, d2.val) := by
  have hwords : (hashLine d1 d2).splitOn (byte ' ') =
      [hashToken, base16Encode d1, base16Encode d2] := by
    rw [hashLine_eq, List.splitOn_intercalate _ _ (by simp)]
    intro word hword
    rcases List.mem_cons.mp hword with rfl | hword
    · exact hashToken_facts.1
    · have hhex : ∀ d : Digest256, byte ' ' ∉ base16Encode d :=
        fun d h => (mem_base16Encode h).1.facts.1 rfl
      rcases List.mem_cons.mp hword with rfl | hword
      · exact hhex d1
      · rw [List.mem_singleton.mp hword]
        exact hhex d2
  have hlen : ∀ d : Digest256, (base16Encode d).length = 64 := fun d => by
    rw [length_base16Encode, d.property]
  rw [consdiffGetDigests, if_neg (not_not.mpr rfl), asCString,
    takeWhile_no_nul (hashLine_clean d1 d2).2, hwords]
  simp only [base16Decode_encode, hlen]
  simp

/-! ## The lines of a diff -/

/-- What stands in a diff beside lines of the target. -/
structure CommandLine (line : Bytes) : Prop where
  no_newline : byte '\n' ∉ line
  no_nul : 0 ∉ line
  short : line.length ≤ 127

theorem decimal_clean (n : ℕ) : byte '\n' ∉ decimal n ∧ 0 ∉ decimal n := by
  refine ⟨fun h => ?_, zero_notMem_decimal n⟩
  exact absurd (isDigit_of_mem_decimal h) (by decide)

/-- A number and a short text. -/
theorem commandLine_one {n : ℕ} (hn : n ≤ intMax) {text : Bytes} (hnl : byte '\n' ∉ text)
    (hnul : 0 ∉ text) (hlen : text.length ≤ 100) : CommandLine (decimal n ++ text) where
  no_newline := by simp [decimal_clean, hnl]
  no_nul := by simp [decimal_clean, hnul]
  short := by
    have := length_decimal hn
    rw [List.length_append]
    omega

/-- A range and a short text. -/
theorem commandLine_two {n m : ℕ} (hn : n ≤ intMax) (hm : m ≤ intMax) {text : Bytes}
    (hnl : byte '\n' ∉ text) (hnul : 0 ∉ text) (hlen : text.length ≤ 50) :
    CommandLine (decimal n ++ cstring "," ++ decimal m ++ text) := by
  have hcomma : byte '\n' ≠ byte ',' ∧ (0 : UInt8) ≠ byte ',' := by decide
  rw [List.append_assoc, List.append_assoc]
  refine commandLine_one hn ?_ ?_ ?_
  · simp [cstring_comma, decimal_clean, hnl, hcomma]
  · simp [cstring_comma, decimal_clean, hnul, hcomma]
  · have := length_decimal hm
    simp only [cstring_comma, List.length_append, List.length_singleton]
    omega

theorem mem_editLines {e : Edit Bytes} {lines : List Bytes} (hbound : e.keep + e.deleted ≤ intMax)
    (hdo : e.deleted ≠ 0 ∨ e.added ≠ []) (h : editLines e = some lines) {line : Bytes}
    (hline : line ∈ lines) : CommandLine line ∨ line ∈ e.added := by
  have ha : byte '\n' ∉ cstring "a" ∧ 0 ∉ cstring "a" ∧ (cstring "a").length = 1 := by decide
  have hc : byte '\n' ∉ cstring "c" ∧ 0 ∉ cstring "c" ∧ (cstring "c").length = 1 := by decide
  have hd : byte '\n' ∉ cstring "d" ∧ 0 ∉ cstring "d" ∧ (cstring "d").length = 1 := by decide
  unfold editLines at h
  simp only at h
  split at h
  case isTrue hnone =>
    have hpos : e.deleted ≠ 0 := hdo.resolve_right fun hne => hne hnone
    left
    split at h
    case isTrue hone =>
      cases h
      rw [List.mem_singleton.mp hline]
      exact commandLine_one (by omega) hd.1 hd.2.1 (by rw [hd.2.2]; omega)
    case isFalse hone =>
      cases h
      rw [List.mem_singleton.mp hline]
      exact commandLine_two (by omega) hbound hd.1 hd.2.1 (by rw [hd.2.2]; omega)
  case isFalse hsome =>
    split at h
    case isTrue => cases h
    case isFalse hdot =>
      cases h
      rw [List.cons_append, List.mem_cons, List.mem_append, List.mem_singleton] at hline
      rcases hline with rfl | hline | rfl
      · left
        split
        case isTrue hzero =>
          exact commandLine_one (by omega) ha.1 ha.2.1 (by rw [ha.2.2]; omega)
        case isFalse hpos =>
          split
          case isTrue hone =>
            exact commandLine_one (by omega) hc.1 hc.2.1 (by rw [hc.2.2]; omega)
          case isFalse hone =>
            exact commandLine_two (by omega) hbound hc.1 hc.2.1 (by rw [hc.2.2]; omega)
      · exact .inr hline
      · left
        refine ⟨by decide, by decide, by decide⟩

theorem mem_commands : ∀ {edits : List (Edit Bytes)} {commands : List (List Bytes)} {line : Bytes},
    edits.mapM editLines = some commands → line ∈ commands.flatten →
    ∃ e ∈ edits, ∃ lines, editLines e = some lines ∧ line ∈ lines
  | [], commands, line, h, hline => by
    cases h
    simp at hline
  | e :: edits, commands, line, h, hline => by
    rw [List.mapM_cons] at h
    obtain ⟨lines, hlines, h⟩ := Option.bind_eq_some_iff.mp h
    obtain ⟨more, hmore, h⟩ := Option.bind_eq_some_iff.mp h
    cases h
    rw [List.flatten_cons, List.mem_append] at hline
    rcases hline with hline | hline
    · exact ⟨e, List.mem_cons_self, lines, hlines, hline⟩
    · obtain ⟨f, hf, rest⟩ := mem_commands hmore hline
      exact ⟨f, List.mem_cons_of_mem _ hf, rest⟩

/-- A script is made of commands and of lines of the target. -/
theorem mem_genEdDiff {cons1 cons2 script : List Bytes} (hlen : cons1.length ≤ intMax)
    (h : genEdDiff cons1 cons2 = some script) {line : Bytes} (hline : line ∈ script) :
    CommandLine line ∨ line ∈ cons2 := by
  obtain ⟨m, commands, hm, hcommands, rfl⟩ := genEdDiff_cases h
  rcases List.mem_append.mp hline with htrailer | hline
  · left
    unfold preprocessConsensus at htrailer
    split at htrailer
    next => simp at htrailer
    next k hk =>
      have hlt : k < cons1.length := (List.findIdx?_eq_some_iff_getElem.mp hk).1
      rw [List.mem_singleton.mp htrailer]
      exact commandLine_one (by omega) (by decide) (by decide) (by decide)
  · obtain ⟨e, he, lines, hlines, hmem⟩ := mem_commands hcommands hline
    have hcount : m.changed1.reverse.length ≤ intMax := by
      have hbase : (preprocessConsensus cons1).1.length ≤ cons1.length := by
        unfold preprocessConsensus
        split
        · exact Nat.le_refl _
        · exact List.length_take_le' _ _
      rw [List.length_reverse, ← List.length_map Prod.snd, hm.lines1]
      omega
    obtain ⟨hbound, hdo⟩ := (fits_backEdits _ _ (Nat.le_refl _)).mem he
    refine (mem_editLines (by omega) hdo hlines hmem).imp_right fun hadded => ?_
    have hmem2 := mem_added_backEdits he hadded
    rwa [List.map_reverse, List.mem_reverse, hm.lines2] at hmem2

/-! ## Diffs restore the target -/

section Restore

variable {sha3 : Bytes → Digest256}

/-- The self-check fails on a base with a trailer of one line and never else. -/
theorem consdiffGenDiff_spec {cons1 cons2 : Smartlist} {script : List Bytes}
    (h : genEdDiff cons1 cons2 = some script) (d1 d2 : Digest256) :
    consdiffGenDiff cons1 cons2 d1 d2 =
      if OneLineTrailer cons1 then .error .notApplied
      else if hlen : (nsDiffVersion :: hashLine d1 d2 :: script).length ≤ intMax then
        .ok ⟨nsDiffVersion :: hashLine d1 d2 :: script, hlen⟩
      else .error .capacity := by
  rw [consdiffGenDiff, h]
  simp only [applyEdDiff_genEdDiff cons1.property h]
  by_cases htrailer : OneLineTrailer cons1
  · rw [if_pos htrailer, if_pos htrailer]
  · rw [if_neg htrailer, if_neg htrailer]
    exact if_neg (not_not.mpr rfl)

/-- The lines of a diff that was generated, and what they give. -/
theorem consdiffGenDiff_ok {cons1 cons2 diff : Smartlist} {d1 d2 : Digest256}
    (h : consdiffGenDiff cons1 cons2 d1 d2 = .ok diff) :
    ∃ script, diff.val = nsDiffVersion :: hashLine d1 d2 :: script
      ∧ applyEdDiff cons1 script 0 = some cons2.val
      ∧ ∀ line ∈ diff.val, CommandLine line ∨ line ∈ cons2.val ∨ line = hashLine d1 d2 := by
  cases hgen : genEdDiff cons1 cons2 with
  | none => simp [consdiffGenDiff, hgen] at h
  | some script =>
    rw [consdiffGenDiff_spec hgen] at h
    split at h
    case isTrue => cases h
    case isFalse htrailer =>
      split at h
      case isFalse => cases h
      case isTrue hlen =>
        cases h
        refine ⟨script, rfl, ?_, ?_⟩
        · rw [applyEdDiff_genEdDiff cons1.property hgen, if_neg htrailer]
        · intro line hline
          rcases List.mem_cons.mp hline with rfl | hline
          · exact .inl ⟨by decide, by decide, by decide⟩
          · rcases List.mem_cons.mp hline with rfl | hline
            · exact .inr (.inr rfl)
            · exact (mem_genEdDiff cons1.property hgen hline).imp_right .inl

theorem length_hashLine (d1 d2 : Digest256) : (hashLine d1 d2).length ≤ consensusLineMaxLen := by
  have htext : hashToken.length = 4 ∧ (cstring " ").length = 1 := by decide
  simp only [hashLine, List.length_append, length_base16Encode, d1.property, d2.property, htext]
  decide

/-- A diff of a NUL-free target is joined, read as a string and split without loss. -/
theorem split_diff {cons1 cons2 diff : Smartlist} {d1 d2 : Digest256}
    (h : consdiffGenDiff cons1 cons2 d1 d2 = .ok diff)
    (hplain : ∀ line ∈ cons2.val, PlainLine line ∧ 0 ∉ line) :
    consensusSplitLines (asCString (consensusJoinLines diff)) = some diff := by
  obtain ⟨script, hdiff, -, hlines⟩ := consdiffGenDiff_ok h
  have hall : ∀ line ∈ diff.val, PlainLine line ∧ 0 ∉ line := by
    intro line hline
    rcases hlines line hline with hcommand | hmem | rfl
    · refine ⟨⟨hcommand.no_newline, hcommand.short.trans (by decide)⟩, hcommand.no_nul⟩
    · exact hplain line hmem
    · exact ⟨⟨(hashLine_clean d1 d2).1, length_hashLine d1 d2⟩, (hashLine_clean d1 d2).2⟩
  have hnul : 0 ∉ consensusJoinLines diff := by
    intro h0
    obtain ⟨line, hline, h0⟩ := List.mem_flatMap.mp h0
    rcases List.mem_append.mp h0 with h0 | h0
    · exact (hall line hline).2 h0
    · exact absurd (List.mem_singleton.mp h0) (by decide)
  rw [asCString, takeWhile_no_nul hnul, consensusSplitLines,
    splitLoop_join fun line hline => (hall line hline).1]
  exact dif_pos diff.property

theorem splitLines_spec {s : Bytes} {lines : Smartlist} (h : consensusSplitLines s = some lines) :
    splitLoop s = some lines.val := by
  unfold consensusSplitLines at h
  split at h
  · cases h
  · split at h
    · cases h
      assumption
    · cases h

/-- A diff that is returned gives the target. -/
theorem consensusDiffApply_generate {c1 c2 diff : Bytes} (hnul : 0 ∉ c2)
    (h : consensusDiffGenerate sha3 c1 c2 = some diff) :
    consensusDiffApply sha3 c1 diff = some c2 := by
  unfold consensusDiffGenerate at h
  split at h
  next lines1 lines2 hsplit1 hsplit2 =>
    split at h
    next resultLines hgen =>
      cases h
      obtain ⟨hjoin, hplain⟩ := splitLoop_spec (splitLines_spec hsplit2)
      have hnul2 : ∀ line ∈ lines2.val, 0 ∉ line := by
        intro line hline h0
        apply hnul
        rw [← hjoin]
        exact List.mem_flatMap.mpr ⟨line, hline, List.mem_append_left _ h0⟩
      obtain ⟨script, hdiff, happly, -⟩ := consdiffGenDiff_ok hgen
      have hscript : applyEdDiff lines1 resultLines 2 = some lines2.val := by
        rw [hdiff]
        exact happly
      have htext : asCString (consensusJoinLines lines2) = c2 := by
        rw [hjoin, asCString, takeWhile_no_nul hnul]
      rw [consensusDiffApply, hsplit1, split_diff hgen fun line hline =>
        ⟨hplain line hline, hnul2 line hline⟩]
      simp only [consdiffApplyDiff, hscript, htext]
      rw [hdiff, consdiffGetDigests_header]
      simp
    next => cases h
  next => cases h

end Restore

/-- For every script that the generator writes: it gives the target, and the self-check
passes, exactly if the signatures of the base are not a single line. And whatever diff is
returned gives the target. -/
theorem consensus_diffs_restore_target (sha3 : Bytes → Digest256) :
    (∀ (cons1 cons2 : Smartlist) (script : List Bytes), genEdDiff cons1 cons2 = some script →
      (applyEdDiff cons1 script 0 = some cons2.val ↔ ¬ OneLineTrailer cons1)
        ∧ ∀ d1 d2 : Digest256,
          (consdiffGenDiff cons1 cons2 d1 d2 ≠ .error .notApplied
            ∧ consdiffGenDiff cons1 cons2 d1 d2 ≠ .error .notTarget) ↔ ¬ OneLineTrailer cons1)
      ∧ ∀ c1 c2 diff : Bytes, 0 ∉ c2 → consensusDiffGenerate sha3 c1 c2 = some diff →
        consensusDiffApply sha3 c1 diff = some c2 := by
  refine ⟨fun cons1 cons2 script h => ⟨?_, fun d1 d2 => ?_⟩,
    fun c1 c2 diff hnul h => consensusDiffApply_generate hnul h⟩
  · rw [applyEdDiff_genEdDiff cons1.property h]
    by_cases htrailer : OneLineTrailer cons1 <;> simp [htrailer]
  · rw [consdiffGenDiff_spec h]
    by_cases htrailer : OneLineTrailer cons1
    · simp [htrailer]
    · rw [if_neg htrailer]
      split <;> simp [htrailer]

/-- A base with one router, whose signature takes two lines. -/
def sampleBase : Smartlist :=
  ⟨["network-status-version 3", "r a AAAA", "s Fast", "directory-signature A B",
    "-----BEGIN SIGNATURE-----"].map cstring, by decide⟩

/-- A target in which that router has other flags and a second one follows it. -/
def sampleTarget : Smartlist :=
  ⟨["network-status-version 3", "r a AAAA", "s Valid", "r b BBBB"].map cstring, by decide⟩

theorem consensus_diffs_restore_sample :
    ∃ script, genEdDiff sampleBase sampleTarget = some script
      ∧ applyEdDiff sampleBase script 0 = some sampleTarget.val := by
  have hgen : genEdDiff sampleBase sampleTarget =
      some (["4,$d", "3c", "s Valid", "r b BBBB", "."].map cstring) := by decide +kernel
  have hrestored := (consensus_diffs_restore_target fun _ => ⟨List.replicate 32 0, by decide⟩).1
    sampleBase sampleTarget _ hgen
  exact ⟨_, hgen, hrestored.1.mpr (by decide)⟩

/-- The last of two lines is the trailer: the script deletes the lines from 2 to the end, and
that range is refused. -/
theorem one_line_trailer_refused :
    ∃ base target : Smartlist,
      consensusJoinLines base = cstring "network-status-version 3\ndirectory-signature A B\n"
      ∧ genEdDiff base target = some [cstring "2,$d"]
      ∧ applyEdDiff base [cstring "2,$d"] 0 = none
      ∧ ∀ d1 d2 : Digest256, consdiffGenDiff base target d1 d2 = .error .notApplied := by
  have hgen : genEdDiff (["network-status-version 3", "directory-signature A B"].map cstring)
      (["network-status-version 3"].map cstring) = some [cstring "2,$d"] := by decide +kernel
  have happly : applyEdDiff (["network-status-version 3", "directory-signature A B"].map cstring)
      [cstring "2,$d"] 0 = none := by decide +kernel
  refine ⟨⟨["network-status-version 3", "directory-signature A B"].map cstring, by decide⟩,
    ⟨["network-status-version 3"].map cstring, by decide⟩, by decide, hgen, happly, ?_⟩
  intro d1 d2
  rw [consdiffGenDiff, hgen]
  simp only [happly]

end Dittor.Tor
