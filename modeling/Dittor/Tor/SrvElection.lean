import Mathlib
import Dittor.Lib.FirstOfClass
import Dittor.Lib.Words
import Dittor.Tor.SharedRandom

/-!
# The shared random values of a consensus (`shared_random.c`)

`sr_get_string_for_consensus` prints the previous and the current shared random value that enough
authorities vote for. The candidates are sorted and counted by their values, and the number of
reveals that is printed with a value is that of the candidate that came out first.

So a line is what enough authorities have voted for, in whatever order their votes are, if and only
if those who vote for the value that wins all name one number of reveals
(`srv_lines_agreed_iff`).
-/

namespace Dittor.Tor

open Dittor.Lib

/-- `networkstatus_sr_info_t`, without the commits. -/
structure SrInfo where
  participate : Bool := true
  previousSrv : Option SrSrv := none
  currentSrv : Option SrSrv := none

/-- What the authority knows besides the votes: an option, how many authorities there are, whether
its own shared random value is fresh, and the parameter that the votes have agreed on. -/
structure SrvContext where
  authDirSharedRandomness : Bool := true
  nVoters : ℕ
  isSrvFresh : Bool
  numSrvAgreements : ℤ

/-- `should_keep_srv` -/
def shouldKeepSrv (X : SrvContext) (nAgreements : ℕ) : Bool :=
  let votesRequiredForMajority := X.nVoters / 2 + 1
  if nAgreements < votesRequiredForMajority then false
  else if X.isSrvFresh ∧ (nAgreements : ℤ) < X.numSrvAgreements then false
  else true

/-- `compare_srv_` and `compare_srvs_` -/
def compareSrv (a b : SrSrv) : ℤ := strcmp a.value b.value

/-- The candidates, in the order of the votes. -/
def srvList (votes : List SrInfo) (current : Bool) : List SrSrv :=
  votes.filterMap fun v =>
    if ¬ v.participate then none else if current then v.currentSrv else v.previousSrv

/-- `get_majority_srv_from_votes` -/
def getMajoritySrvFromVotes (Q : Qsort) (X : SrvContext) (votes : List SrInfo) (current : Bool) :
    Option SrSrv :=
  match smartlistGetMostFrequent compareSrv (Q.sort compareSrv (srvList votes current)) with
  | none => none
  | some (mostFrequentSrv, count) => if shouldKeepSrv X count then some mostFrequentSrv else none

/-- `previous_srv_str` -/
def previousSrvStr : Bytes := cstring "shared-rand-previous-value"

/-- `current_srv_str` -/
def currentSrvStr : Bytes := cstring "shared-rand-current-value"

/-- `srv_to_ns_string`, with `sr_srv_encode` -/
def srvToNsString (srv : SrSrv) (key : Bytes) : Bytes :=
  key ++ byte ' ' :: (decimal srv.numReveals ++ byte ' ' :: (base64Chars srv.value ++ [byte '\n']))

/-- `get_ns_str_from_sr_values` -/
def getNsStrFromSrValues : Option SrSrv → Option SrSrv → Option Bytes
  | none, none => none
  | some prev, none => some (srvToNsString prev previousSrvStr)
  | none, some cur => some (srvToNsString cur currentSrvStr)
  | some prev, some cur =>
    some (srvToNsString prev previousSrvStr ++ srvToNsString cur currentSrvStr)

/-- `sr_get_string_for_consensus` -/
def srGetStringForConsensus (Q : Qsort) (X : SrvContext) (votes : List SrInfo) : Option Bytes :=
  if ¬ X.authDirSharedRandomness then none
  else
    let prevSrv := getMajoritySrvFromVotes Q X votes false
    let curSrv := getMajoritySrvFromVotes Q X votes true
    getNsStrFromSrValues prevSrv curSrv

/-! ## The text -/

theorem newline_not_mem_base64Chars (src : Bytes) : byte '\n' ∉ base64Chars src := by
  intro h
  rcases mem_base64Chars h with heq | ⟨n, hn, heq⟩
  · exact absurd heq (by decide)
  · exact (base64Char_facts hn).2.2.2.1 heq.symm

theorem base64Chars_injective {src src' : Bytes} (h : base64Chars src = base64Chars src') :
    src = src' := by
  have hloop := base64Loop_chars src
  rw [h, base64Loop_chars] at hloop
  exact (Option.some.inj hloop).symm

/-- A line says which value it is about, whatever follows it. -/
theorem srvToNsString_append_inj {srv srv' : SrSrv} {key s s' : Bytes}
    (h : srvToNsString srv key ++ s = srvToNsString srv' key ++ s') : srv = srv' ∧ s = s' := by
  have hnumber : ∀ (srv : SrSrv) (s : Bytes),
      readDecimal (decimal srv.numReveals ++ byte ' ' :: (base64Chars srv.value ++ byte '\n' :: s))
        = some (srv.numReveals, byte ' ' :: (base64Chars srv.value ++ byte '\n' :: s)) := by
    intro srv s
    refine readDecimal_decimal srv.numReveals fun b hb => ?_
    obtain rfl := Option.some.inj hb
    rfl
  have htext : decimal srv.numReveals ++ byte ' ' :: (base64Chars srv.value ++ byte '\n' :: s)
      = decimal srv'.numReveals ++ byte ' ' :: (base64Chars srv'.value ++ byte '\n' :: s') := by
    simpa [srvToNsString] using h
  have hread := hnumber srv s
  rw [htext, hnumber] at hread
  obtain ⟨hreveals, hrest⟩ := Prod.mk.inj (Option.some.inj hread)
  obtain ⟨hvalue, hs⟩ := append_cons_inj_left (newline_not_mem_base64Chars _)
    (newline_not_mem_base64Chars _) (List.cons.inj hrest).2
  refine ⟨?_, hs.symm⟩
  cases srv
  cases srv'
  exact congrArg₂ SrSrv.mk hreveals.symm (base64Chars_injective hvalue.symm)

/-- The two keys differ in their 13th character. -/
theorem srvToNsString_keys_ne {srv srv' : SrSrv} {s s' : Bytes} :
    srvToNsString srv previousSrvStr ++ s ≠ srvToNsString srv' currentSrvStr ++ s' := by
  intro h
  have hkey := congrArg (fun t => t[12]?) h
  have hprev : previousSrvStr[12]? = some (byte 'p') := by decide
  have hcur : currentSrvStr[12]? = some (byte 'c') := by decide
  have hlen : 12 < previousSrvStr.length ∧ 12 < currentSrvStr.length := by decide
  simp only [srvToNsString, List.append_assoc, List.getElem?_append_left hlen.1,
    List.getElem?_append_left hlen.2, hprev, hcur] at hkey
  exact absurd hkey (by decide)

/-- The lines of a text. -/
def srvLines (prev cur : Option SrSrv) : Bytes :=
  (prev.elim [] fun srv => srvToNsString srv previousSrvStr)
    ++ (cur.elim [] fun srv => srvToNsString srv currentSrvStr)

theorem srvToNsString_ne_nil (srv : SrSrv) (key : Bytes) : srvToNsString srv key ≠ [] := by
  intro h
  simp [srvToNsString] at h

theorem getNsStrFromSrValues_eq (prev cur : Option SrSrv) :
    getNsStrFromSrValues prev cur
      = if srvLines prev cur = [] then none else some (srvLines prev cur) := by
  cases prev <;> cases cur <;> simp [getNsStrFromSrValues, srvLines, srvToNsString_ne_nil]

theorem srvLines_injective {prev cur prev' cur' : Option SrSrv}
    (h : srvLines prev cur = srvLines prev' cur') : prev = prev' ∧ cur = cur' := by
  have hlast : ∀ {cur cur' : Option SrSrv}, srvLines none cur = srvLines none cur' → cur = cur' := by
    intro cur cur' h
    cases cur with
    | none =>
      cases cur' with
      | none => rfl
      | some srv' => exact absurd h.symm (srvToNsString_ne_nil srv' currentSrvStr)
    | some srv =>
      cases cur' with
      | none => exact absurd h (srvToNsString_ne_nil srv currentSrvStr)
      | some srv' =>
        have heq : srvToNsString srv currentSrvStr ++ [] = srvToNsString srv' currentSrvStr ++ [] := by
          simpa [srvLines] using h
        rw [(srvToNsString_append_inj heq).1]
  -- a first line is about the previous value or not
  have hfirst : ∀ (srv : SrSrv) (cur cur' : Option SrSrv),
      srvLines (some srv) cur ≠ srvLines none cur' := by
    intro srv cur cur' h
    cases cur' with
    | none =>
      refine srvToNsString_ne_nil srv previousSrvStr (List.append_eq_nil_iff.mp h).1
    | some srv' =>
      have hkeys : srvToNsString srv previousSrvStr ++ _ = srvToNsString srv' currentSrvStr ++ [] :=
        h.trans (List.append_nil _).symm
      exact srvToNsString_keys_ne hkeys
  cases prev with
  | none =>
    cases prev' with
    | none => exact ⟨rfl, hlast h⟩
    | some srv' => exact absurd h.symm (hfirst srv' cur' cur)
  | some srv =>
    cases prev' with
    | none => exact absurd h (hfirst srv cur cur')
    | some srv' =>
      obtain ⟨hsrv, hrest⟩ := srvToNsString_append_inj h
      exact ⟨by rw [hsrv], hlast hrest⟩

/-- **The text tells the two values.** -/
theorem getNsStrFromSrValues_injective {prev cur prev' cur' : Option SrSrv}
    (h : getNsStrFromSrValues prev cur = getNsStrFromSrValues prev' cur') :
    prev = prev' ∧ cur = cur' := by
  refine srvLines_injective ?_
  rw [getNsStrFromSrValues_eq, getNsStrFromSrValues_eq] at h
  split_ifs at h with hnil hnil'
  · rw [hnil, hnil']
  · exact Option.some.inj h

/-! ## The election -/

theorem orders_compareSrv : Orders compareSrv Set.univ := orders_strcmp.comap SrSrv.value

theorem compareSrv_eq_zero {a b : SrSrv} : compareSrv a b = 0 ↔ a.value = b.value := strcmp_eq_zero

theorem shouldKeepSrv_iff {X : SrvContext} {n : ℕ} :
    shouldKeepSrv X n = true
      ↔ X.nVoters / 2 + 1 ≤ n ∧ (X.isSrvFresh = true → X.numSrvAgreements ≤ n) := by
  simp only [shouldKeepSrv]
  by_cases hmajority : n < X.nVoters / 2 + 1
  · rw [if_pos hmajority]
    exact iff_of_false (by simp) fun h => absurd h.1 (by omega)
  · rw [if_neg hmajority]
    by_cases hfresh : X.isSrvFresh = true ∧ (n : ℤ) < X.numSrvAgreements
    · rw [if_pos hfresh]
      exact iff_of_false (by simp) fun h => absurd (h.2 hfresh.1) (by omega)
    · rw [if_neg hfresh]
      exact iff_of_true rfl ⟨by omega, fun h => not_lt.mp fun hlt => hfresh ⟨h, hlt⟩⟩

/-- How many of the candidates have a value. -/
def valueCount (l : List SrSrv) (value : Bytes) : ℕ := l.countP fun srv => srv.value = value

/-- Enough authorities vote for a value, and it is the last of those that most vote for. -/
structure ElectedValue (X : SrvContext) (l : List SrSrv) (value : Bytes) : Prop where
  majority : X.nVoters / 2 + 1 ≤ valueCount l value
  agreement : X.isSrvFresh = true → X.numSrvAgreements ≤ valueCount l value
  most : ∀ srv ∈ l, valueCount l srv.value ≤ valueCount l value
  last : ∀ srv ∈ l, valueCount l srv.value = valueCount l value → strcmp srv.value value ≤ 0

/-- Enough authorities vote for a value together with a number of reveals. -/
def SrvAgreed (X : SrvContext) (l : List SrSrv) (srv : SrSrv) : Prop :=
  X.nVoters / 2 + 1 ≤ l.count srv ∧ (X.isSrvFresh = true → X.numSrvAgreements ≤ l.count srv)

theorem classCount_compareSrv {l : List SrSrv} {srv : SrSrv} :
    classCount compareSrv l srv = valueCount l srv.value :=
  List.countP_congr fun x _ => by
    simp only [decide_eq_true_iff, compareSrv_eq_zero]
    exact eq_comm

theorem valueCount_perm {l l' : List SrSrv} (h : l.Perm l') (value : Bytes) :
    valueCount l value = valueCount l' value := h.countP_eq _

theorem ElectedValue.perm {X : SrvContext} {l l' : List SrSrv} {value : Bytes} (h : l.Perm l')
    (he : ElectedValue X l value) : ElectedValue X l' value := by
  have hcount := valueCount_perm h
  exact ⟨hcount value ▸ he.majority, fun hfresh => hcount value ▸ he.agreement hfresh,
    fun srv hsrv => hcount value ▸ hcount srv.value ▸ he.most srv (h.mem_iff.mpr hsrv),
    fun srv hsrv heq => he.last srv (h.mem_iff.mpr hsrv) (by rw [hcount, hcount]; exact heq)⟩

theorem ElectedValue.exists_mem {X : SrvContext} {l : List SrSrv} {value : Bytes}
    (h : ElectedValue X l value) : ∃ srv ∈ l, srv.value = value := by
  have hpos : 0 < l.countP fun srv => srv.value = value := by
    have := h.majority
    unfold valueCount at this
    omega
  obtain ⟨srv, hsrv, heq⟩ := List.countP_pos_iff.mp hpos
  exact ⟨srv, hsrv, by simpa using heq⟩

/-- At most one value is elected. -/
theorem ElectedValue.unique {X : SrvContext} {l : List SrSrv} {value value' : Bytes}
    (h : ElectedValue X l value) (h' : ElectedValue X l value') : value = value' := by
  obtain ⟨a, ha, hav⟩ := h.exists_mem
  obtain ⟨b, hb, hbv⟩ := h'.exists_mem
  have hle := h'.most a ha
  have hle' := h.most b hb
  rw [hav] at hle
  rw [hbv] at hle'
  have hfirst := h'.last a ha (by rw [hav]; omega)
  have hsecond := h.last b hb (by rw [hbv]; omega)
  rw [hav] at hfirst
  rw [hbv] at hsecond
  exact strcmp_antisymm hfirst hsecond

/-- **What is taken from the votes** is a candidate with the value that is elected, and there is one
if a value is elected. -/
theorem getMajoritySrvFromVotes_spec (Q : Qsort) (X : SrvContext) (votes : List SrInfo)
    (current : Bool) :
    (∀ srv, getMajoritySrvFromVotes Q X votes current = some srv →
        srv ∈ srvList votes current ∧ ElectedValue X (srvList votes current) srv.value)
      ∧ (∀ value, ElectedValue X (srvList votes current) value →
        ∃ srv, getMajoritySrvFromVotes Q X votes current = some srv ∧ srv.value = value) := by
  set l := srvList votes current with hl
  have hperm : (Q.sort compareSrv l).Perm l := Q.perm compareSrv l
  obtain ⟨hnone, hsome⟩ := smartlistGetMostFrequent_spec orders_compareSrv (fun _ _ => trivial)
    (Q.sorted (orders_compareSrv.consistentOn (l := l) fun _ _ => trivial))
  -- what is found, in terms of the list as it was
  have hfound : ∀ srv count,
      smartlistGetMostFrequent compareSrv (Q.sort compareSrv l) = some (srv, count) →
      srv ∈ l ∧ count = valueCount l srv.value
        ∧ (∀ x ∈ l, valueCount l x.value ≤ count)
        ∧ ∀ x ∈ l, valueCount l x.value = count → strcmp x.value srv.value ≤ 0 := by
    intro srv count h
    have hm := hsome srv count h
    have hcount : ∀ x, classCount compareSrv (Q.sort compareSrv l) x = valueCount l x.value :=
      fun x => classCount_compareSrv.trans (valueCount_perm hperm x.value)
    refine ⟨hperm.mem_iff.mp hm.mem, hm.count.trans (hcount srv), fun x hx => ?_, fun x hx heq => ?_⟩
    · rw [← hcount x]
      exact hm.most x (hperm.mem_iff.mpr hx)
    · exact hm.last x (hperm.mem_iff.mpr hx) ((hcount x).trans heq)
  have helected : ∀ srv, getMajoritySrvFromVotes Q X votes current = some srv →
      srv ∈ l ∧ ElectedValue X l srv.value := by
    intro srv h
    unfold getMajoritySrvFromVotes at h
    split at h
    · cases h
    · rename_i m count hm
      obtain ⟨hmem, hcount, hmost, hlast⟩ := hfound m count hm
      split_ifs at h with hkeep
      obtain rfl := Option.some.inj h
      obtain ⟨hmajority, hagree⟩ := shouldKeepSrv_iff.mp hkeep
      rw [hcount] at hmajority hagree hmost hlast
      exact ⟨hmem, hmajority, hagree, hmost, hlast⟩
  refine ⟨helected, fun value hv => ?_⟩
  cases hm : smartlistGetMostFrequent compareSrv (Q.sort compareSrv l) with
  | none =>
    have hnil : l = [] := by
      have := hnone.mp hm
      rw [← List.length_eq_zero_iff, Q.length_sort] at this
      exact List.length_eq_zero_iff.mp this
    have hmajority := hv.majority
    rw [hnil] at hmajority
    exact absurd hmajority (by simp [valueCount])
  | some found =>
    obtain ⟨srv, count⟩ := found
    obtain ⟨hmem, hcount, hmost, hlast⟩ := hfound srv count hm
    obtain ⟨x, hx, hxv⟩ := hv.exists_mem
    have hle : valueCount l value ≤ count := hxv ▸ hmost x hx
    have hkeep : shouldKeepSrv X count = true := by
      refine shouldKeepSrv_iff.mpr ⟨hv.majority.trans hle, fun hfresh => ?_⟩
      exact (hv.agreement hfresh).trans (by exact_mod_cast hle)
    have hget : getMajoritySrvFromVotes Q X votes current = some srv := by
      rw [getMajoritySrvFromVotes, ← hl, hm]
      exact if_pos hkeep
    exact ⟨srv, hget, (helected srv hget).2.unique hv⟩

/-- All who vote for the value that is elected name one number of reveals. -/
def OneNumberOfReveals (X : SrvContext) (l : List SrSrv) : Prop :=
  ∀ value, ElectedValue X l value → ∀ a ∈ l, ∀ b ∈ l, a.value = value → b.value = value →
    a.numReveals = b.numReveals

theorem srvList_perm {votes votes' : List SrInfo} (h : votes.Perm votes') (current : Bool) :
    (srvList votes current).Perm (srvList votes' current) := h.filterMap _

section OneNumber

variable {X : SrvContext} {l : List SrSrv} {a b : SrSrv}

theorem OneNumberOfReveals.eq (h : OneNumberOfReveals X l) (ha : a ∈ l) (hb : b ∈ l)
    (he : ElectedValue X l a.value) (hv : b.value = a.value) : b = a := by
  have hreveals := h a.value he b hb a ha hv rfl
  cases a
  cases b
  exact congrArg₂ SrSrv.mk hreveals hv

/-- Then the candidates with the value are all the same one. -/
theorem OneNumberOfReveals.agreed (h : OneNumberOfReveals X l) (ha : a ∈ l)
    (he : ElectedValue X l a.value) : SrvAgreed X l a := by
  have hcount : l.count a = valueCount l a.value := by
    refine List.countP_congr fun x hx => ?_
    rw [beq_iff_eq, decide_eq_true_iff]
    exact ⟨congrArg SrSrv.value, h.eq ha hx he⟩
  exact ⟨hcount ▸ he.majority, hcount ▸ he.agreement⟩

end OneNumber

/-- Then another order of the votes, or another sort, makes no difference. -/
theorem getMajoritySrvFromVotes_perm {Q Q' : Qsort} {X : SrvContext} {votes votes' : List SrInfo}
    {current : Bool} (h : OneNumberOfReveals X (srvList votes current)) (hperm : votes'.Perm votes) :
    getMajoritySrvFromVotes Q' X votes' current = getMajoritySrvFromVotes Q X votes current := by
  obtain ⟨hchosen, hexists⟩ := getMajoritySrvFromVotes_spec Q X votes current
  obtain ⟨hchosen', hexists'⟩ := getMajoritySrvFromVotes_spec Q' X votes' current
  have hlist := srvList_perm hperm current
  cases hget : getMajoritySrvFromVotes Q X votes current with
  | none =>
    cases hget' : getMajoritySrvFromVotes Q' X votes' current with
    | none => rfl
    | some srv =>
      obtain ⟨other, hother, -⟩ := hexists srv.value ((hchosen' srv hget').2.perm hlist)
      rw [hget] at hother
      cases hother
  | some srv =>
    obtain ⟨hmem, helected⟩ := hchosen srv hget
    obtain ⟨other, hother, hvalue⟩ := hexists' srv.value (helected.perm hlist.symm)
    have hin : other ∈ srvList votes current := hlist.mem_iff.mp (hchosen' other hother).1
    rw [hother, h.eq hmem hin helected hvalue]

/-- With a stable sort the first vote decides which candidate with the value is taken. -/
theorem getMajoritySrvFromVotes_first {X : SrvContext} {votes votes' : List SrInfo} {current : Bool}
    {srv : SrSrv} {l : List SrSrv} (hlist : srvList votes current = srv :: l)
    (hperm : votes.Perm votes') (he : ElectedValue X (srvList votes' current) srv.value) :
    getMajoritySrvFromVotes Qsort.insertion X votes current = some srv := by
  obtain ⟨other, hother, hvalue⟩ := (getMajoritySrvFromVotes_spec Qsort.insertion X votes
    current).2 srv.value (he.perm (srvList_perm hperm current).symm)
  have hget := hother
  unfold getMajoritySrvFromVotes at hget
  split at hget
  · cases hget
  · rename_i m count hm
    split_ifs at hget with hkeep
    obtain rfl := Option.some.inj hget
    rw [hlist] at hm
    rw [hother, smartlistGetMostFrequent_insertion orders_compareSrv (fun _ _ => trivial) hm
      (compareSrv_eq_zero.mpr hvalue.symm)]

/-- Each candidate can be made the first one. -/
theorem exists_votes_first {votes : List SrInfo} {current : Bool} {srv : SrSrv}
    (h : srv ∈ srvList votes current) :
    ∃ votes' l, votes'.Perm votes ∧ srvList votes' current = srv :: l := by
  obtain ⟨v, hv, hsrv⟩ := List.mem_filterMap.mp h
  obtain ⟨before, after, rfl⟩ := List.append_of_mem hv
  refine ⟨v :: (before ++ after), srvList (before ++ after) current, List.perm_middle.symm, ?_⟩
  exact List.filterMap_cons_some hsrv

/-- The text is made of lines each of which enough authorities have voted for. -/
def LinesAgreed (X : SrvContext) (votes : List SrInfo) (text : Option Bytes) : Prop :=
  ∃ prev cur, text = getNsStrFromSrValues prev cur
    ∧ (∀ srv ∈ prev, SrvAgreed X (srvList votes false) srv)
    ∧ ∀ srv ∈ cur, SrvAgreed X (srvList votes true) srv

/-- **When the lines are agreed on**: whatever sort is used and whatever order the votes are in,
enough authorities have voted for each line as it is printed, and the text is the same. -/
theorem srv_lines_agreed_iff (X : SrvContext) (votes : List SrInfo) :
    (∀ (Q : Qsort) (votes' : List SrInfo), votes'.Perm votes →
        LinesAgreed X votes' (srGetStringForConsensus Q X votes')
          ∧ srGetStringForConsensus Q X votes' = srGetStringForConsensus Q X votes)
      ↔ (X.authDirSharedRandomness = true →
        ∀ current, OneNumberOfReveals X (srvList votes current)) := by
  have htext : X.authDirSharedRandomness = true → ∀ (Q : Qsort) (votes : List SrInfo),
      srGetStringForConsensus Q X votes = getNsStrFromSrValues
        (getMajoritySrvFromVotes Q X votes false) (getMajoritySrvFromVotes Q X votes true) := by
    intro hon Q votes
    rw [srGetStringForConsensus, if_neg (by simpa using hon)]
  constructor
  · intro h hon current value helected a ha b hb hav hbv
    -- the order of the votes does not change what is taken
    have hsame : ∀ votes', votes'.Perm votes →
        getMajoritySrvFromVotes Qsort.insertion X votes' current
          = getMajoritySrvFromVotes Qsort.insertion X votes current := by
      intro votes' hperm
      have heq := (h Qsort.insertion votes' hperm).2
      rw [htext hon, htext hon] at heq
      obtain ⟨hprev, hcur⟩ := getNsStrFromSrValues_injective heq
      cases current
      · exact hprev
      · exact hcur
    -- but each of the candidates is taken if its vote comes first
    have htaken : ∀ srv ∈ srvList votes current, srv.value = value →
        getMajoritySrvFromVotes Qsort.insertion X votes current = some srv := by
      intro srv hsrv hvalue
      obtain ⟨votes', l, hperm, hlist⟩ := exists_votes_first hsrv
      rw [← hsame votes' hperm]
      exact getMajoritySrvFromVotes_first hlist hperm (hvalue ▸ helected)
    have hab := (htaken a ha hav).symm.trans (htaken b hb hbv)
    rw [Option.some.inj hab]
  · intro h Q votes' hperm
    cases hon : X.authDirSharedRandomness with
    | false =>
      have hnone : ∀ votes, srGetStringForConsensus Q X votes = none := fun votes => by
        rw [srGetStringForConsensus, if_pos (by simp [hon])]
      rw [hnone, hnone]
      exact ⟨⟨none, none, rfl, by simp, by simp⟩, rfl⟩
    | true =>
      have hone := h hon
      have hagreed : ∀ current, ∀ srv ∈ getMajoritySrvFromVotes Q X votes' current,
          SrvAgreed X (srvList votes' current) srv := by
        intro current srv hsrv
        have hlist := srvList_perm hperm current
        obtain ⟨hmem, helected⟩ := (getMajoritySrvFromVotes_spec Q X votes' current).1 srv hsrv
        have hagreed := (hone current).agreed (hlist.mem_iff.mp hmem) (helected.perm hlist)
        unfold SrvAgreed at hagreed ⊢
        rwa [hlist.count_eq srv]
      rw [htext hon, htext hon]
      refine ⟨⟨_, _, rfl, hagreed false, hagreed true⟩, ?_⟩
      rw [getMajoritySrvFromVotes_perm (hone false) hperm,
        getMajoritySrvFromVotes_perm (hone true) hperm]

/-- A vote for the value of zeros. -/
def zerosVote (numReveals : ℕ) : SrInfo := { currentSrv := some ⟨numReveals, List.replicate 32 0⟩ }

/-- Three authorities, a value that is not fresh. -/
def threeVoters : SrvContext := { nVoters := 3, isSrvFresh := false, numSrvAgreements := 2 }

/-- Two of three authorities vote for a value with four reveals, and one, whose vote comes first, for
the same value with three: its line is printed. -/
theorem srv_line_of_one_vote :
    let votes := [zerosVote 3, zerosVote 4, zerosVote 4]
    let text := srGetStringForConsensus Qsort.insertion threeVoters
    text votes = some (cstring
        "shared-rand-current-value 3 AAAAAAAAAAAAAAAAAAAAAAAAAAAAAAAAAAAAAAAAAAA=\n")
      ∧ ¬ LinesAgreed threeVoters votes (text votes)
      ∧ text [zerosVote 4, zerosVote 4, zerosVote 3] ≠ text votes := by
  have hfirst : srGetStringForConsensus Qsort.insertion threeVoters
      [zerosVote 3, zerosVote 4, zerosVote 4] = getNsStrFromSrValues none (zerosVote 3).currentSrv := by
    decide
  refine ⟨by decide, ?_, by decide⟩
  rintro ⟨prev, cur, htext, -, hcur⟩
  obtain ⟨-, rfl⟩ := getNsStrFromSrValues_injective (hfirst.symm.trans htext)
  exact absurd (hcur ⟨3, List.replicate 32 0⟩ rfl).1 (by decide)

end Dittor.Tor
