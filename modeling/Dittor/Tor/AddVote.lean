import Mathlib
import Dittor.Tor.VoteSequence

/-!
# The loop over the votes of a text (`dirvote.c`)

`dirvote_add_vote` as a machine: a pass from its label `again` to the next jump leads to another
state or to the answer (`AddVoteState.again`). A pass moves on in the text, except that a vote which
takes the place of an older one is parsed once more, and is a duplicate then
(`AddVoteState.again_replaced`). So the machine stops on every text with every list
(`add_vote_ends`), after the votes up to the first that does not parse.
-/

namespace Dittor.Tor

open Dittor.Lib

/-- The variables of `dirvote_add_vote`; `pendingVoteList` and the two results are not its own. -/
structure AddVoteState where
  pendingVoteList : List Vote
  voteBody : Bytes
  statusOut : ℕ := 0
  msgOut : Option String := none
  anyFailed : Bool := false
  pendingVote : Option Vote := none

/-- What a call leaves behind and returns. -/
structure AddVoteAnswer where
  pendingVoteList : List Vote
  statusOut : ℕ
  msgOut : String
  returned : Option Vote

namespace AddVoteState

variable (V : VotingPeriod) (timePosted : ℤ)

/-- `done:` -/
def done (s : AddVoteState) : AddVoteAnswer where
  pendingVoteList := s.pendingVoteList
  statusOut := max s.statusOut 200
  msgOut := s.msgOut.getD (if !s.anyFailed && s.pendingVote.isNone then "Duplicate discarded" else "ok")
  returned := if s.anyFailed then none else s.pendingVote

/-- `discard:`, where the vote ends before `endOfVote` -/
def discard (s : AddVoteState) (endOfVote : Bytes) : AddVoteState ⊕ AddVoteAnswer :=
  if startsWith "network-status-version " endOfVote then .inl { s with voteBody := endOfVote }
  else .inr s.done

/-- `err:` with a message -/
def err (s : AddVoteState) (msg : String) (endOfVote : Bytes) : AddVoteState ⊕ AddVoteAnswer :=
  discard { s with msgOut := some msg, anyFailed := true, statusOut := max s.statusOut 400 }
    endOfVote

/-- From `again:` to the next jump. -/
def again (P : VoteParser) (s : AddVoteState) : AddVoteState ⊕ AddVoteAnswer :=
  match P.parse s.voteBody with
  -- the parser does not say where a text ends that it rejects
  | none => s.err "Unable to parse vote" []
  | some (vote, endOfVote) =>
    match addVote V timePosted s.pendingVoteList vote with
    | (_, .rejected msg) => s.err msg endOfVote
    | (_, .duplicate) => discard { s with statusOut := max s.statusOut 200 } endOfVote
    | (l, .replaced) =>
      let s := { s with pendingVoteList := l }
      -- `vote_body` is not moved here, and the keyword is tested without its blank
      if startsWith "network-status-version" endOfVote then .inl s
      else .inr {
        pendingVoteList := l
        statusOut := max s.statusOut 200
        msgOut := s.msgOut.getD "OK"
        returned := some vote }
    | (l, .added) =>
      let s := { s with pendingVoteList := l, pendingVote := some vote }
      if startsWith "network-status-version " endOfVote then .inl { s with voteBody := endOfVote }
      else .inr s.done

end AddVoteState

section Run

variable (V : VotingPeriod) (timePosted : ℤ) (P : VoteParser)

/-- The loop from a state to its answer, with the votes that it considers: those it parses. -/
inductive AddVoteRun : AddVoteState → List Vote → AddVoteAnswer → Prop
  | last {s : AddVoteState} {answer : AddVoteAnswer}
      (h : s.again V timePosted P = .inr answer) :
      AddVoteRun s ((P.parse s.voteBody).map Prod.fst).toList answer
  | again {s s' : AddVoteState} {votes : List Vote} {answer : AddVoteAnswer}
      (h : s.again V timePosted P = .inl s') (hrun : AddVoteRun s' votes answer) :
      AddVoteRun s (((P.parse s.voteBody).map Prod.fst).toList ++ votes) answer

/-- The votes that a text begins with, one behind the other, and the rest, which does not parse. -/
inductive VotesUpTo : Bytes → List Vote → Bytes → Prop
  | stop {body : Bytes} (h : P.parse body = none) : VotesUpTo body [] body
  | vote {body next tail : Bytes} {vote : Vote} {votes : List Vote}
      (h : P.parse body = some (vote, next)) (hnext : VotesUpTo next votes tail) :
      VotesUpTo body (vote :: votes) tail

end Run

section Step

variable {V : VotingPeriod} {timePosted : ℤ} {P : VoteParser} {s : AddVoteState} {vote : Vote}
  {next : Bytes}

namespace AddVoteState

/-- Where a pass goes that is done with its vote. -/
def leave (s : AddVoteState) (next : Bytes) : AddVoteState ⊕ AddVoteAnswer :=
  if startsWith "network-status-version " next then .inl { s with voteBody := next }
  else .inr s.done

theorem again_of_none (h : P.parse s.voteBody = none) :
    ∃ answer, s.again V timePosted P = .inr answer
      ∧ answer.pendingVoteList = s.pendingVoteList := by
  rw [again, h]
  exact ⟨_, rfl, rfl⟩

/-- A vote that does not take the place of another one is done with. -/
theorem again_of_some (h : P.parse s.voteBody = some (vote, next))
    (hnew : (addVote V timePosted s.pendingVoteList vote).2 ≠ .replaced) :
    ∃ s' : AddVoteState, s.again V timePosted P = s'.leave next
      ∧ s'.pendingVoteList = (addVote V timePosted s.pendingVoteList vote).1 := by
  have hspec := addVote_spec V timePosted s.pendingVoteList vote
  rw [again, h]
  dsimp only
  generalize addVote V timePosted s.pendingVoteList vote = out at hspec hnew
  obtain ⟨l, verdict⟩ := out
  cases hspec with
  | unacceptable => exact ⟨_, rfl, rfl⟩
  | added => exact ⟨_, rfl, rfl⟩
  | duplicate => exact ⟨_, rfl, rfl⟩
  | replaced => exact absurd rfl hnew
  | older => exact ⟨_, rfl, rfl⟩

/-- One that does is parsed once more if another vote follows, and is a duplicate then. -/
theorem again_replaced (h : P.parse s.voteBody = some (vote, next))
    (hreplaced : (addVote V timePosted s.pendingVoteList vote).2 = .replaced) :
    (startsWith "network-status-version" next = false →
        ∃ answer, s.again V timePosted P = .inr answer
          ∧ answer.pendingVoteList = (addVote V timePosted s.pendingVoteList vote).1)
      ∧ (startsWith "network-status-version" next = true →
        ∃ s' s'' : AddVoteState, s.again V timePosted P = .inl s' ∧ s'.voteBody = s.voteBody
          ∧ s'.again V timePosted P = s''.leave next
          ∧ s''.pendingVoteList = (addVote V timePosted s.pendingVoteList vote).1) := by
  have hspec := addVote_spec V timePosted s.pendingVoteList vote
  obtain ⟨l, hout⟩ : ∃ l, addVote V timePosted s.pendingVoteList vote = (l, .replaced) :=
    ⟨_, Prod.ext rfl hreplaced⟩
  rw [hout] at hspec ⊢
  have hpass : s.again V timePosted P
      = if startsWith "network-status-version" next then .inl { s with pendingVoteList := l }
        else .inr {
          pendingVoteList := l
          statusOut := max s.statusOut 200
          msgOut := s.msgOut.getD "OK"
          returned := some vote } := by
    rw [again, h]
    dsimp only
    rw [hout]
  refine ⟨fun hlast => ?_, fun hmore => ?_⟩
  · rw [if_neg (by simp [hlast])] at hpass
    exact ⟨_, hpass, rfl⟩
  · rw [if_pos hmore] at hpass
    have hduplicate : (addVote V timePosted l vote).2 ≠ .replaced := by
      rw [addVote_again hspec]
      simp
    obtain ⟨s'', hagain, hlist⟩ := again_of_some (s := { s with pendingVoteList := l }) h hduplicate
    rw [addVote_again hspec] at hlist
    exact ⟨_, s'', hpass, rfl, hagain, hlist⟩

end AddVoteState

end Step

section Ends

variable {V : VotingPeriod} {timePosted : ℤ} {P : VoteParser}

/-- The run is determined by the state. -/
theorem AddVoteRun.unique {s : AddVoteState} {votes votes' : List Vote}
    {answer answer' : AddVoteAnswer} (h : AddVoteRun V timePosted P s votes answer)
    (h' : AddVoteRun V timePosted P s votes' answer') : votes' = votes ∧ answer' = answer := by
  induction h generalizing votes' with
  | last hlast =>
    cases h' with
    | last hlast' => exact ⟨rfl, Sum.inr.inj (hlast'.symm.trans hlast)⟩
    | again hagain' => exact absurd (hagain'.symm.trans hlast) (by simp)
  | again hagain _ ih =>
    cases h' with
    | last hlast' => exact absurd (hagain.symm.trans hlast') (by simp)
    | again hagain' hrun' =>
      obtain rfl := Sum.inl.inj (hagain.symm.trans hagain')
      obtain ⟨hvotes, hanswer⟩ := ih hrun'
      exact ⟨by rw [hvotes], hanswer⟩

/-- What the votes that are considered have to do with those of the text. -/
structure Considers (votes considered : List Vote) : Prop where
  sublist : votes.Sublist considered
  only : ∀ v ∈ considered, v ∈ votes
  length : considered.length ≤ 2 * votes.length

theorem Considers.once {votes considered : List Vote} (h : Considers votes considered) (v : Vote) :
    Considers (v :: votes) (v :: considered) where
  sublist := h.sublist.cons_cons v
  only w hw := (List.mem_cons.mp hw).elim (fun heq => heq ▸ List.mem_cons_self)
    fun hmem => List.mem_cons_of_mem v (h.only w hmem)
  length := by
    have := h.length
    simp only [List.length_cons]
    omega

theorem Considers.twice {votes considered : List Vote} (h : Considers votes considered) (v : Vote) :
    Considers (v :: votes) (v :: v :: considered) where
  sublist := (h.once v).sublist.cons v
  only w hw := (List.mem_cons.mp hw).elim (fun heq => heq ▸ List.mem_cons_self)
    fun hmem => (h.once v).only w hmem
  length := by
    have := h.length
    simp only [List.length_cons]
    omega

theorem considers_nil : Considers [] [] := ⟨List.Sublist.slnil, by simp, by simp⟩

/-- **The machine stops**, where a text goes on behind a vote with another vote or not at all. -/
theorem exists_addVoteRun
    (hnext : ∀ {body vote next}, P.parse body = some (vote, next) →
      next = [] ∨ startsWith "network-status-version " next = true) (s : AddVoteState) :
    ∃ considered answer votes tail, AddVoteRun V timePosted P s considered answer
      ∧ VotesUpTo P s.voteBody votes tail ∧ Considers votes considered
      ∧ answer.pendingVoteList = addVotes V timePosted s.pendingVoteList votes := by
  have hend : P.parse [] = none := by
    cases h : P.parse [] with
    | none => rfl
    | some r => exact absurd (P.shorter (show P.parse [] = some (r.1, r.2) from h)) (by simp)
  induction hlen : s.voteBody.length using Nat.strongRecOn generalizing s with
  | ind n ih =>
    subst hlen
    cases hparse : P.parse s.voteBody with
    | none =>
      obtain ⟨answer, hlast, hlist⟩ := AddVoteState.again_of_none (V := V) hparse
      have hrun := AddVoteRun.last hlast
      rw [hparse] at hrun
      exact ⟨[], answer, [], s.voteBody, hrun, .stop hparse, considers_nil, hlist⟩
    | some r =>
      obtain ⟨vote, next⟩ := r
      -- the votes behind this one
      have hrest : ∀ {s₀ s' : AddVoteState}, s₀.voteBody = s.voteBody →
          s₀.again V timePosted P = s'.leave next →
          ∃ considered answer votes tail, AddVoteRun V timePosted P s₀ (vote :: considered) answer
            ∧ VotesUpTo P next votes tail ∧ Considers votes considered
            ∧ answer.pendingVoteList = addVotes V timePosted s'.pendingVoteList votes := by
        intro s₀ s' hbody hagain
        have hparse₀ : P.parse s₀.voteBody = some (vote, next) := hbody ▸ hparse
        unfold AddVoteState.leave at hagain
        rcases hnext hparse with rfl | hmore
        · have hrun := AddVoteRun.last hagain
          rw [hparse₀] at hrun
          exact ⟨[], _, [], [], hrun, .stop hend, considers_nil, rfl⟩
        · rw [if_pos hmore] at hagain
          obtain ⟨considered, answer, votes, tail, hrun, hvotes, hconsiders, hlist⟩ :=
            ih next.length (P.shorter hparse) { s' with voteBody := next } rfl
          have hrun₀ := AddVoteRun.again hagain hrun
          rw [hparse₀] at hrun₀
          exact ⟨considered, answer, votes, tail, hrun₀, hvotes, hconsiders, hlist⟩
      have hcons : ∀ votes, addVotes V timePosted s.pendingVoteList (vote :: votes)
          = addVotes V timePosted (addVote V timePosted s.pendingVoteList vote).1 votes :=
        fun _ => rfl
      by_cases hreplaced : (addVote V timePosted s.pendingVoteList vote).2 = .replaced
      · obtain ⟨hlast, hmore⟩ := AddVoteState.again_replaced hparse hreplaced
        cases hstart : startsWith "network-status-version" next with
        | false =>
          obtain ⟨answer, hagain, hlist⟩ := hlast hstart
          have hnil : next = [] := (hnext hparse).resolve_right fun h =>
            absurd (startsWith_of_blank h) (by simp [hstart])
          have hrun := AddVoteRun.last hagain
          rw [hparse] at hrun
          exact ⟨[vote], answer, [vote], [], hrun, .vote hparse (by rw [hnil]; exact .stop hend),
            considers_nil.once vote, hlist⟩
        | true =>
          -- the same text once more
          obtain ⟨s', s'', hagain, hbody, hagain', hlist⟩ := hmore hstart
          obtain ⟨considered, answer, votes, tail, hrun, hvotes, hconsiders, hanswer⟩ :=
            hrest hbody hagain'
          have hrun₀ := AddVoteRun.again hagain hrun
          rw [hparse] at hrun₀
          exact ⟨_, answer, vote :: votes, tail, hrun₀, .vote hparse hvotes, hconsiders.twice vote,
            by rw [hanswer, hcons, hlist]⟩
      · obtain ⟨s', hagain, hlist⟩ := AddVoteState.again_of_some hparse hreplaced
        obtain ⟨considered, answer, votes, tail, hrun, hvotes, hconsiders, hanswer⟩ :=
          hrest rfl hagain
        exact ⟨_, answer, vote :: votes, tail, hrun, .vote hparse hvotes, hconsiders.once vote,
          by rw [hanswer, hcons, hlist]⟩

end Ends

/-! ## The votes of a text -/

section Votes

variable {P : VoteParser} {body tail tail' : Bytes} {votes votes' : List Vote}

theorem exists_votesUpTo (P : VoteParser) (body : Bytes) :
    ∃ votes tail, VotesUpTo P body votes tail := by
  induction hlen : body.length using Nat.strongRecOn generalizing body with
  | ind n ih =>
    subst hlen
    cases h : P.parse body with
    | none => exact ⟨[], body, .stop h⟩
    | some r =>
      obtain ⟨votes, tail, hnext⟩ := ih r.2.length (P.shorter h) r.2 rfl
      exact ⟨r.1 :: votes, tail, .vote h hnext⟩

theorem VotesUpTo.unique (h : VotesUpTo P body votes tail) (h' : VotesUpTo P body votes' tail') :
    votes' = votes ∧ tail' = tail := by
  induction h generalizing votes' with
  | stop hnone =>
    cases h' with
    | stop => exact ⟨rfl, rfl⟩
    | vote hsome => exact absurd (hsome.symm.trans hnone) (by simp)
  | vote hsome _ ih =>
    cases h' with
    | stop hnone => exact absurd (hsome.symm.trans hnone) (by simp)
    | vote hsome' hnext' =>
      obtain ⟨rfl, rfl⟩ := Prod.mk.inj (Option.some.inj (hsome.symm.trans hsome'))
      obtain ⟨hvotes, htail⟩ := ih hnext'
      exact ⟨by rw [hvotes], htail⟩

theorem VotesUpTo.tail_eq_none (h : VotesUpTo P body votes tail) : P.parse tail = none := by
  induction h with
  | stop hnone => exact hnone
  | vote _ _ ih => exact ih

/-- They are the votes that the collection of votes goes through. -/
theorem VotesUpTo.eq_votesOf
    (hnext : ∀ {body vote next}, P.parse body = some (vote, next) →
      next = [] ∨ startsWith "network-status-version " next = true)
    (h : VotesUpTo P body votes tail) : votes = votesOf P body := by
  induction h with
  | stop hnone =>
    rw [votesOf]
    split
    next => rfl
    next hsome => exact absurd (hnone.symm.trans hsome) (by simp)
  | @vote body next tail vote votes hsome hbehind ih =>
    rw [votesOf]
    split
    next hnone => exact absurd (hnone.symm.trans hsome) (by simp)
    next vote' next' hsome' =>
      obtain ⟨rfl, rfl⟩ := Prod.mk.inj (Option.some.inj (hsome.symm.trans hsome'))
      rcases hnext hsome with rfl | hmore
      · cases hbehind with
        | stop => rfl
        | vote hsome'' => exact absurd (P.shorter hsome'') (by simp)
      · rw [if_pos hmore, ih]

end Votes

section Parser

variable {Key : Type} (L : VoteLib) (D : KeyDecoder) (C : VoteCrypto Key) (testing : Bool)

/-- The parser of `ns_parse.c`. -/
def voteParser : VoteParser where
  parse := parseVoteText L D C testing
  shorter := parseVoteText_shorter

/-- A text that is a vote and nothing else, of complete lines. -/
structure VoteAlone (text : Bytes) (vote : Vote) : Prop where
  accepted : parseVoteText L D C testing text = some (vote, [])
  begins : startsWith "network-status-version " text = true
  ends : EndsLine text

variable {L D C testing}

/-- **Votes that are put one behind the other are the votes of the text.** -/
theorem votesUpTo_concatenated {more tail : Bytes} {votes : List Vote}
    (hmore : more = [] ∨ startsWith "network-status-version " more = true)
    (hvotes : VotesUpTo (voteParser L D C testing) more votes tail) :
    ∀ {texts : List (Bytes × Vote)}, (∀ x ∈ texts, VoteAlone L D C testing x.1 x.2) →
      VotesUpTo (voteParser L D C testing) ((texts.map Prod.fst).flatten ++ more)
        (texts.map Prod.snd ++ votes) tail
  | [], _ => hvotes
  | x :: texts, h => by
    have hx := h x List.mem_cons_self
    have hrest := votesUpTo_concatenated hmore hvotes
      fun y hy => h y (List.mem_cons_of_mem x hy)
    have hnext : (texts.map Prod.fst).flatten ++ more = []
        ∨ startsWith "network-status-version " ((texts.map Prod.fst).flatten ++ more) = true := by
      cases texts with
      | nil => exact hmore
      | cons y texts =>
        have hy := List.isPrefixOf_iff_prefix.mp (h y (by simp)).begins
        refine .inr (List.isPrefixOf_iff_prefix.mpr (hy.trans ?_))
        simp
    rw [List.map_cons, List.map_cons, List.flatten_cons, List.append_assoc, List.cons_append]
    exact .vote (parseVoteText_append hx.accepted hx.ends hnext) hrest

theorem voteParser_next {body next : Bytes} {vote : Vote}
    (h : (voteParser L D C testing).parse body = some (vote, next)) :
    next = [] ∨ startsWith "network-status-version " next = true := by
  rw [(parseVoteText_next h).2]
  exact splitFooter_next _

/-- The list that the machine leaves is that of `dirvoteAddVote`. -/
theorem AddVoteRun.pendingVoteList_eq {V : VotingPeriod} {timePosted : ℤ} {s : AddVoteState}
    {considered : List Vote} {answer : AddVoteAnswer}
    (h : AddVoteRun V timePosted (voteParser L D C testing) s considered answer) :
    answer.pendingVoteList = dirvoteAddVote (voteParser L D C testing) V s.pendingVoteList
      ⟨s.voteBody, timePosted⟩ := by
  obtain ⟨_, answer', votes, tail, hrun, hvotes, -, hlist⟩ :=
    exists_addVoteRun (V := V) voteParser_next s
  rw [(hrun.unique h).2, hlist, hvotes.eq_votesOf voteParser_next, dirvoteAddVote_eq]

/-- **A body of votes is processed to its end**: on every body and every list the loop stops, with
one answer. The votes that it considers are those of the body up to the first text that does not
parse, in their order, each once or twice, and the list holds what comes of adding them once. Votes
that were put one behind the other are among them. -/
theorem add_vote_ends (L : VoteLib) (D : KeyDecoder) (C : VoteCrypto Key) (testing : Bool)
    (V : VotingPeriod) (timePosted : ℤ) (pendingVoteList : List Vote) (voteBody : Bytes) :
    ∃ considered answer votes tail,
      AddVoteRun V timePosted (voteParser L D C testing) ⟨pendingVoteList, voteBody, 0, none, false,
        none⟩ considered answer
      ∧ (∀ considered' answer', AddVoteRun V timePosted (voteParser L D C testing)
          ⟨pendingVoteList, voteBody, 0, none, false, none⟩ considered' answer' →
            considered' = considered ∧ answer' = answer)
      ∧ VotesUpTo (voteParser L D C testing) voteBody votes tail
      ∧ parseVoteText L D C testing tail = none
      ∧ Considers votes considered
      ∧ answer.pendingVoteList = addVotes V timePosted pendingVoteList votes
      ∧ ∀ (texts : List (Bytes × Vote)) (more : Bytes),
        (∀ x ∈ texts, VoteAlone L D C testing x.1 x.2) →
        more = [] ∨ startsWith "network-status-version " more = true →
        voteBody = (texts.map Prod.fst).flatten ++ more → texts.map Prod.snd <+: votes := by
  obtain ⟨considered, answer, votes, tail, hrun, hvotes, hconsiders, hlist⟩ :=
    exists_addVoteRun (V := V) voteParser_next ⟨pendingVoteList, voteBody, 0, none, false, none⟩
  refine ⟨considered, answer, votes, tail, hrun, fun _ _ h => hrun.unique h, hvotes,
    hvotes.tail_eq_none, hconsiders, hlist, fun texts more hall hmore hbody => ?_⟩
  obtain ⟨votes', tail', hbehind⟩ := exists_votesUpTo (voteParser L D C testing) more
  have hconcatenated := votesUpTo_concatenated hmore hbehind hall
  rw [← hbody] at hconcatenated
  rw [← (hvotes.unique hconcatenated).1]
  exact List.prefix_append _ _

end Parser

end Dittor.Tor
