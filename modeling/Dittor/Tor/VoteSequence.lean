import Mathlib
import Dittor.Tor.VoteText

/-!
# Votes one behind the other (`ns_parse.c`)

A vote that is accepted on its own is accepted in front of other votes as well, and what is behind
it is given back (`parseVoteText_append`): each place that the parser looks for in the text is found
where it was, since a signature stands in front of what was added, and what was added begins with a
line that is not looked for before the footer ends.
-/

namespace Dittor.Tor

open Dittor.Lib

/-! ## Lines of a longer text -/

section Lines

variable {s more : Bytes}

theorem memstr_of_between {needle : Bytes} (hne : needle ≠ []) : ∀ {before behind : Bytes},
    memstr needle (before ++ (needle ++ behind)) ≠ none
  | [], behind => by
    obtain ⟨b, bs, rfl⟩ := List.exists_cons_of_ne_nil hne
    have hpre : (b :: bs).isPrefixOf (b :: (bs ++ behind)) = true :=
      List.isPrefixOf_iff_prefix.mpr ⟨behind, rfl⟩
    rw [List.nil_append, List.cons_append, memstr, if_pos hpre]
    simp
  | b :: before, behind => by
    rw [List.cons_append, memstr]
    split
    · simp
    · have := @memstr_of_between _ hne before behind
      simpa using this

theorem cstring_newline : cstring "\n" = [byte '\n'] := by decide

/-- A line that is found is found in a longer text. -/
theorem memline_append {text : String} {r : Bytes × Bytes} (h : memline text s = some r) :
    memline text (s ++ more) = some (r.1, r.2 ++ more) := by
  obtain ⟨⟨front, behind⟩, hmem, rfl⟩ := Option.map_eq_some_iff.mp h
  obtain ⟨-, hneedle⟩ := memstr_spec hmem
  have hlen : 1 ≤ behind.length := by
    have := hneedle.length_le
    rw [List.length_append, cstring_newline] at this
    simp only [List.length_singleton] at this
    omega
  rw [memline, memstr_append hmem, Option.map_some, List.drop_append_of_le_length hlen]

/-- Where no line is found, one can only begin at what is added or in it. -/
theorem memline_append_of_none {text : String} (htext : byte '\n' ∉ cstring text)
    (hs : EndsLine s) (hne : s ≠ []) (h : memline text s = none) :
    memline text (s ++ more) = if cstring text <+: more then some (s, more)
      else (memline text more).map fun r => (s ++ r.1, r.2) := by
  have hnone : memstr (cstring "\n" ++ cstring text) s = none := by
    simpa [memline] using h
  have hmem : memstr (cstring "\n" ++ cstring text) (s ++ more)
      = if cstring text <+: more then some (s.dropLast, byte '\n' :: more)
        else (memstr (cstring "\n" ++ cstring text) more).map fun r => (s ++ r.1, r.2) := by
    clear h
    induction s with
    | nil => exact absurd rfl hne
    | cons b bs ih =>
      rw [memstr] at hnone
      split_ifs at hnone with hpre
      have hbs : memstr (cstring "\n" ++ cstring text) bs = none := by simpa using hnone
      rw [List.cons_append, memstr]
      cases bs with
      | nil =>
        -- the line would begin behind the last newline
        obtain rfl : b = byte '\n' := hs b rfl
        have hiff : (cstring "\n" ++ cstring text).isPrefixOf (byte '\n' :: ([] ++ more)) = true
            ↔ cstring text <+: more := by
          rw [List.isPrefixOf_iff_prefix, cstring_newline, List.singleton_append, List.nil_append,
            List.prefix_cons_inj]
        by_cases hmore : cstring text <+: more
        · rw [if_pos (hiff.mpr hmore), if_pos hmore]
          rfl
        · rw [if_neg fun h => hmore (hiff.mp h), if_neg hmore]
          rfl
      | cons c cs =>
        have hends : EndsLine (c :: cs) := fun x hx => hs x (by simpa using hx)
        have hlast : byte '\n' ∈ c :: cs := hends.newline_mem (by simp)
        have hno : ¬ (cstring "\n" ++ cstring text).isPrefixOf (b :: (c :: cs ++ more)) = true := by
          intro hp
          rw [List.isPrefixOf_iff_prefix, cstring_newline, List.singleton_append,
            List.cons_prefix_cons] at hp
          obtain ⟨hb, hp⟩ := hp
          rcases Nat.le_total (cstring text).length (c :: cs).length with hle | hle
          · refine hpre (List.isPrefixOf_iff_prefix.mpr ?_)
            rw [cstring_newline, List.singleton_append, List.cons_prefix_cons]
            exact ⟨hb, (prefix_append_iff hle more).mp hp⟩
          · exact htext ((List.prefix_of_prefix_length_le (List.prefix_append _ _) hp hle).subset hlast)
        rw [if_neg hno, ih hends (by simp) hbs]
        by_cases hmore : cstring text <+: more
        · simp [hmore]
        · simp [hmore, Function.comp_def]
  rw [memline, hmem]
  by_cases hmore : cstring text <+: more
  · rw [if_pos hmore, if_pos hmore, Option.map_some]
    have hlast : s.dropLast ++ [byte '\n'] = s := by
      have hget := hs (s.getLast hne) (List.getLast?_eq_some_getLast hne)
      rw [← hget]
      exact List.dropLast_append_getLast hne
    simp [hlast]
  · rw [if_neg hmore, if_neg hmore, memline, Option.map_map, Option.map_map]
    congr 1
    funext r
    simp

/-- The line is not found in front of what is added. -/
theorem length_le_of_memline_none {text : String} {r : Bytes × Bytes}
    (htext : byte '\n' ∉ cstring text) (hs : EndsLine s) (hne : s ≠ [])
    (h : memline text s = none) (hr : memline text (s ++ more) = some r) :
    s.length ≤ r.1.length := by
  rw [memline_append_of_none htext hs hne h] at hr
  split_ifs at hr
  · rw [← Option.some.inj hr]
  · obtain ⟨r', -, rfl⟩ := Option.map_eq_some_iff.mp hr
    simp

theorem findFooter_append (hs : EndsLine s) (hne : s ≠ [])
    (hsig : memline "directory-signature" s ≠ none) :
    findFooter (s ++ more) = ((findFooter s).1, (findFooter s).2 ++ more) := by
  obtain ⟨sig, hsig⟩ := Option.ne_none_iff_exists'.mp hsig
  obtain ⟨hcut, -, htext⟩ := memline_spec hsig
  unfold findFooter
  rw [memline_append hsig, hsig]
  cases hfooter : memline "directory-footer" s with
  | some footer =>
    rw [memline_append hfooter]
    dsimp only
    split_ifs <;> rfl
  | none =>
    cases hmore : memline "directory-footer" (s ++ more) with
    | none => rfl
    | some footer =>
      -- such a footer is behind the signature
      have hle := length_le_of_memline_none (by decide) hs hne hfooter hmore
      have hlen := congrArg List.length hcut
      have hpos : 0 < sig.2.length := lt_of_lt_of_le (by decide) htext.length_le
      rw [List.length_append] at hlen
      dsimp only
      rw [if_neg (by omega)]

/-- A router entry does not begin what is added. -/
theorem findStartOfNextRouterstatus_append (hs : EndsLine s) (hne : s ≠ [])
    (hsig : memline "directory-signature" s ≠ none) (hmore : ¬ cstring "r " <+: more) :
    findStartOfNextRouterstatus (s ++ more) = ((findStartOfNextRouterstatus s).1,
      (findStartOfNextRouterstatus s).2 ++ more) := by
  unfold findStartOfNextRouterstatus
  cases hr : memline "r " s with
  | some eos =>
    rw [memline_append hr]
    simp
  | none =>
    rw [memline_append_of_none (by decide) hs hne hr, if_neg hmore]
    cases hbehind : memline "r " more with
    | none => simp [findFooter_append hs hne hsig]
    | some eos =>
      obtain ⟨hcut, -, -⟩ := memline_spec hbehind
      simp [findFooter_append hs hne hsig, hcut]

theorem findFooter_cases (s : Bytes) :
    (memline "directory-signature" s = none ∧ findFooter s = (s, []))
      ∨ cstring "directory-" <+: (findFooter s).2 := by
  have hfooter : ∀ {r}, memline "directory-footer" s = some r → cstring "directory-" <+: r.2 :=
    fun h => List.IsPrefix.trans (by decide) (memline_spec h).2.2
  have hsig : ∀ {r}, memline "directory-signature" s = some r → cstring "directory-" <+: r.2 :=
    fun h => List.IsPrefix.trans (by decide) (memline_spec h).2.2
  unfold findFooter
  cases hf : memline "directory-footer" s with
  | none =>
    cases hg : memline "directory-signature" s with
    | none => exact .inl ⟨rfl, rfl⟩
    | some sig => exact .inr (hsig hg)
  | some footer =>
    cases hg : memline "directory-signature" s with
    | none => exact .inr (hfooter hf)
    | some sig =>
      refine .inr ?_
      dsimp only
      split_ifs
      · exact hfooter hf
      · exact hsig hg

theorem not_prefix_of_both {t : Bytes} (h : cstring "r " <+: t) (h' : cstring "directory-" <+: t) :
    False := by
  obtain ⟨t, rfl⟩ := h
  exact absurd (List.cons_prefix_cons.mp h').1 (by decide)

/-- In front of another entry there is no signature yet. -/
theorem signature_behind (hsig : memline "directory-signature" s ≠ none)
    (hentry : cstring "r " <+: (findStartOfNextRouterstatus s).2) :
    memline "directory-signature" (findStartOfNextRouterstatus s).2 ≠ none := by
  have hstart : (findStartOfNextRouterstatus s).2 = (findFooter ((memline "r " s).getD (s, [])).1).2
      ++ ((memline "r " s).getD (s, [])).2 := rfl
  rcases findFooter_cases ((memline "r " s).getD (s, [])).1 with ⟨hnone, hfooter⟩ | hline
  · cases hr : memline "r " s with
    | none =>
      rw [hr] at hnone
      exact absurd hnone hsig
    | some eos =>
      rw [hr, Option.getD_some] at hnone hfooter hstart
      rw [hfooter, List.nil_append] at hstart
      rw [hstart] at hentry ⊢
      obtain ⟨hcut, hne, -⟩ := memline_spec hr
      obtain ⟨front, -, rfl⟩ := Option.map_eq_some_iff.mp hr
      rw [hcut, memline_append_of_none (by decide) (endsLine_newline _) hne hnone,
        if_neg fun h => not_prefix_of_both hentry (List.IsPrefix.trans (by decide) h)] at hsig
      exact fun h => hsig (by rw [h]; rfl)
  · exact (not_prefix_of_both hentry (hstart ▸ hline.trans (List.prefix_append _ _))).elim

/-- **The entries are the same**, where a signature is behind them. -/
theorem routerstatusTexts_append (hmore : ¬ cstring "r " <+: more) (hs : EndsLine s)
    (hsig : cstring "r " <+: s → memline "directory-signature" s ≠ none) :
    routerstatusTexts (s ++ more) = ((routerstatusTexts s).1, (routerstatusTexts s).2 ++ more) := by
  induction s using routerstatusTexts.induct with
  | case1 s h ih =>
    have hentry : cstring "r " <+: s := List.isPrefixOf_iff_prefix.mp h
    have hne : s ≠ [] := fun hnil => absurd (hnil ▸ h) (by decide)
    have hbehind : EndsLine (findStartOfNextRouterstatus s).2 := by
      obtain ⟨hcut, -⟩ := findStartOfNextRouterstatus_spec hne
      exact hs.suffix ⟨_, hcut.symm⟩
    have hlong : (cstring "r ").isPrefixOf (s ++ more) = true :=
      List.isPrefixOf_iff_prefix.mpr (hentry.trans (List.prefix_append s more))
    rw [routerstatusTexts_entry hlong, routerstatusTexts_entry h,
      findStartOfNextRouterstatus_append hs hne (hsig hentry) hmore,
      ih hbehind (signature_behind (hsig hentry))]
  | case2 s h =>
    have hlong : ¬ (cstring "r ").isPrefixOf (s ++ more) = true := by
      intro hp
      rw [List.isPrefixOf_iff_prefix] at hp h
      cases s with
      | nil => exact hmore hp
      | cons b bs =>
        -- a single byte is a newline
        cases bs with
        | nil => exact absurd (List.cons_prefix_cons.mp hp).1 (by rw [hs b rfl]; decide)
        | cons c cs =>
          have htwo : (cstring "r ").length ≤ (b :: c :: cs).length := by
            rw [show (cstring "r ").length = 2 by decide]
            exact Nat.le_add_left 2 cs.length
          exact h ((prefix_append_iff htwo more).mp hp)
    rw [routerstatusTexts_end hlong, routerstatusTexts_end h]

/-- The footer ends where what is added begins. -/
theorem splitFooter_append (hs : EndsLine s) (hne : s ≠ []) (hlast : (splitFooter s).2 = [])
    (hmore : more = [] ∨ startsWith "network-status-version " more = true) :
    splitFooter (s ++ more) = ((splitFooter s).1, more) := by
  have hnone : memline "network-status-version " s = none := by
    cases h : memline "network-status-version " s with
    | none => rfl
    | some r =>
      have hpre := (memline_spec h).2.2
      rw [splitFooter, h, Option.getD_some] at hlast
      rw [hlast] at hpre
      exact absurd (List.prefix_nil.mp hpre) (by decide)
  rcases hmore with rfl | hmore
  · rw [List.append_nil, splitFooter, hnone]
    rfl
  · rw [splitFooter, memline_append_of_none (by decide) hs hne hnone,
      if_pos (List.isPrefixOf_iff_prefix.mp hmore), splitFooter, hnone]
    rfl

end Lines

/-! ## The vote -/

section Vote

variable {Key : Type} {L : VoteLib} {D : KeyDecoder} {C : VoteCrypto Key} {testing : Bool}
  {s more : Bytes} {vote : Vote}

theorem routerGetHashImplHelper_append {startStr endStr : Bytes} {endC : UInt8}
    {r : Bytes × Bytes} (h : routerGetHashImplHelper startStr endStr endC s = some r) :
    routerGetHashImplHelper startStr endStr endC (s ++ more) = some r := by
  unfold routerGetHashImplHelper at h ⊢
  cases hstart : memstr startStr s with
  | none =>
    rw [hstart] at h
    cases h
  | some cut =>
    obtain ⟨before, start⟩ := cut
    have hlen : startStr.length ≤ start.length := (memstr_spec hstart).2.length_le
    rw [hstart] at h
    rw [memstr_append hstart]
    dsimp only at h ⊢
    split_ifs at h ⊢ with hline
    rw [List.drop_append_of_le_length hlen]
    cases hend : memstr endStr (start.drop startStr.length) with
    | none =>
      rw [hend] at h
      cases h
    | some cut' =>
      obtain ⟨text, stop⟩ := cut'
      have hlen' : endStr.length ≤ stop.length := (memstr_spec hend).2.length_le
      rw [hend] at h
      rw [memstr_append hend]
      dsimp only at h ⊢
      rw [List.drop_append_of_le_length hlen']
      split_ifs at h with hmem
      rw [if_pos (List.mem_append_left more hmem), ← h]
      -- the character is found before what is added
      have hshort : ¬ ((stop.drop endStr.length).takeWhile (· ≠ endC)).length
          = (stop.drop endStr.length).length := fun hlen => by
        have hall := (List.takeWhile_prefix (· ≠ endC)).eq_of_length hlen
        have hin := List.mem_takeWhile_imp (p := (· ≠ endC)) (hall.symm ▸ hmem)
        simp at hin
      rw [List.takeWhile_append, if_neg hshort]

/-- What is hashed ends with a signature. -/
theorem memline_signature {startStr : Bytes} {endC : UInt8} {r : Bytes × Bytes}
    (h : routerGetHashImplHelper startStr (cstring "\ndirectory-signature") endC s = some r) :
    memline "directory-signature" s ≠ none := by
  unfold routerGetHashImplHelper at h
  cases hstart : memstr startStr s with
  | none =>
    rw [hstart] at h
    cases h
  | some cut =>
    obtain ⟨before, start⟩ := cut
    rw [hstart] at h
    dsimp only at h
    split_ifs at h
    cases hend : memstr (cstring "\ndirectory-signature") (start.drop startStr.length) with
    | none =>
      rw [hend] at h
      cases h
    | some cut' =>
      obtain ⟨text, stop⟩ := cut'
      obtain ⟨hcut, behind, rfl⟩ := memstr_spec hend
      obtain ⟨front, hfront⟩ := (List.drop_suffix startStr.length start).trans (memstr_suffix hstart)
      have hneedle : cstring "\ndirectory-signature" = cstring "\n" ++ cstring "directory-signature" :=
        by decide
      rw [← hfront, hcut, ← List.append_assoc, memline, ← hneedle]
      have hfound := @memstr_of_between (cstring "\ndirectory-signature") (by decide) (front ++ text)
        behind
      simpa using hfound

theorem footerOk_of_parseVote {doc : VoteDocument} {ns : VoteStatus}
    (h : parseVote L testing doc = some ns) : doc.footerOk = true := by
  simp only [parseVote, Option.bind_eq_bind, Option.bind_eq_some_iff] at h
  obtain ⟨_, -, _, -, _, -, _, -, _, -, _, -, _, -, _, -, _, -, _, -, _, -, _, hok, -⟩ := h
  by_contra hno
  rw [guard, if_neg hno] at hok
  cases hok

/-- There is no vote without a footer. -/
theorem footer_ne_nil {signed header footer : Bytes} {entryTexts : List Bytes}
    (h : parseVoteParts L D C testing signed header entryTexts footer = some vote) :
    footer ≠ [] := by
  rintro rfl
  simp only [parseVoteParts, Option.bind_eq_bind, Option.bind_eq_some_iff] at h
  obtain ⟨_, -, _, -, cert, -, _, -, _, hns, -⟩ := h
  have hok : voteFooterOk D C cert (C.sha1 signed) [] = true := footerOk_of_parseVote hns
  unfold voteFooterOk at hok
  split at hok
  next => cases hok
  next tokens htokens =>
    have hloop := (tokenizeString_iff.mp htokens).2.1
    rw [tokenizeLoop, if_pos rfl] at hloop
    rw [← Except.ok.inj hloop] at hok
    exact absurd hok (by simp)

/-- **A vote in front of others**: what is behind it is given back. -/
theorem parseVoteText_append (h : parseVoteText L D C testing s = some (vote, []))
    (hs : EndsLine s) (hmore : more = [] ∨ startsWith "network-status-version " more = true) :
    parseVoteText L D C testing (s ++ more) = some (vote, more) := by
  have hentry : ¬ cstring "r " <+: more := by
    intro hr
    rcases hmore with rfl | hmore
    · exact absurd (List.prefix_nil.mp hr) (by decide)
    · obtain ⟨t, rfl⟩ := List.isPrefixOf_iff_prefix.mp hmore
      exact absurd (List.cons_prefix_cons.mp hr).1 (by decide)
  obtain ⟨hne, hnext⟩ := parseVoteText_next h
  unfold parseVoteText at h ⊢
  split at h
  next => cases h
  next before signed hsigned =>
    obtain ⟨vote', hvote, heq⟩ := Option.map_eq_some_iff.mp h
    obtain ⟨rfl, -⟩ := Prod.mk.inj heq
    have hsig := memline_signature hsigned
    set body := (findStartOfNextRouterstatus s).2 with hbody
    set behind := (routerstatusTexts body).2 with hbehind
    have hbodyEnds : EndsLine body := by
      obtain ⟨hcut, -⟩ := findStartOfNextRouterstatus_spec hne
      exact hs.suffix ⟨_, hcut.symm⟩
    have hbehindEnds : EndsLine behind := hbodyEnds.suffix (routerstatusTexts_suffix body)
    have hfooter : behind ≠ [] := by
      intro hnil
      refine footer_ne_nil hvote ?_
      have : (splitFooter behind).1 = [] := by rw [hnil]; rfl
      exact this
    rw [routerGetHashImplHelper_append hsigned,
      findStartOfNextRouterstatus_append hs hne hsig hentry]
    dsimp only
    rw [← hbody, routerstatusTexts_append hentry hbodyEnds fun hr => signature_behind hsig hr]
    dsimp only
    rw [← hbehind, splitFooter_append hbehindEnds hfooter hnext.symm hmore]
    exact congrArg (Option.map fun vote => (vote, more)) hvote

end Vote

end Dittor.Tor
