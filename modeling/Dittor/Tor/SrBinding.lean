import Dittor.Tor.SharedRandom

/-!
# Commitments of shared randomness are binding

From the start of a run of the protocol to its end a commitment that is stored stays as it is, and
so does a reveal value. The commitment of another authority comes from a vote of its own in the
commit phase, and its reveal value from a vote of its own in the reveal phase, with the hash that
was committed to (`commitments_binding`). What one event can do to a commit is in
`step_commits`; that a commitment is what its text decodes to (`Decoded`) ties the hash of a later
vote to the one that is stored.
-/

namespace Dittor.Tor

open Dittor.Lib

variable {X : SrContext}

/-! ## One commit of a vote -/

/-- What a commit of a vote can do. -/
theorem receive_cases (s : SrState) (voterKey : Bytes) (c : SrCommit) :
    s.receive X voterKey c = s
      ∨ (s.phase = .commit ∧ c.rsaIdentity = voterKey ∧ s.commits.lookup voterKey = none
        ∧ c.encodedReveal = [] ∧ s.receive X voterKey c = s.addCommit c)
      ∨ ∃ saved, s.phase = .reveal ∧ c.rsaIdentity = voterKey
        ∧ s.commits.lookup voterKey = some saved ∧ c.encodedCommit = saved.encodedCommit
        ∧ saved.encodedReveal = [] ∧ c.encodedReveal ≠ [] ∧ X.sha3 c.revealArray = c.hashedReveal
        ∧ s.receive X voterKey c =
          { s with commits := s.commits.insert voterKey (saved.copyRevealInfo c) } := by
  unfold SrState.receive
  split_ifs with hkeep
  case neg => exact Or.inl rfl
  unfold shouldKeepCommit at hkeep
  rw [Bool.and_eq_true, Bool.and_eq_true, decide_eq_true_eq] at hkeep
  obtain ⟨⟨rfl, -⟩, hkeep⟩ := hkeep
  unfold SrState.saveCommit
  cases hphase : s.phase with
  | commit =>
    cases hlookup : s.commits.lookup c.rsaIdentity with
    | some saved =>
      rw [hphase, hlookup] at hkeep
      cases hkeep
    | none =>
      rw [hphase, hlookup] at hkeep
      refine Or.inr (Or.inl ⟨rfl, rfl, rfl, ?_, rfl⟩)
      simpa [SrCommit.hasRevealValue] using hkeep
  | reveal =>
    cases hlookup : s.commits.lookup c.rsaIdentity with
    | none =>
      rw [hphase, hlookup] at hkeep
      cases hkeep
    | some saved =>
      rw [hphase, hlookup] at hkeep
      simp only [Bool.and_eq_true, commitmentsAreTheSame, SrCommit.hasRevealValue,
        verifyCommitAndReveal, decide_eq_true_eq, Bool.not_eq_true', decide_eq_false_iff_not,
        not_not] at hkeep
      obtain ⟨⟨⟨hsame, hold⟩, hnew⟩, -, hhash⟩ := hkeep
      exact Or.inr (Or.inr ⟨saved, rfl, rfl, rfl, hsame, hold, hnew, hhash, rfl⟩)

/-- A commit is kept: its commitment as it is, and its reveal value once there is one. -/
structure Extends (c c' : SrCommit) : Prop where
  commitment : c'.encodedCommit = c.encodedCommit ∧ c'.commitTs = c.commitTs
    ∧ c'.hashedReveal = c.hashedReveal ∧ c'.rsaIdentity = c.rsaIdentity
  reveal : c.encodedReveal ≠ [] → c' = c

theorem Extends.refl (c : SrCommit) : Extends c c := ⟨⟨rfl, rfl, rfl, rfl⟩, fun _ => rfl⟩

theorem Extends.trans {a b c : SrCommit} (hab : Extends a b) (hbc : Extends b c) : Extends a c := by
  obtain ⟨⟨h1, h2, h3, h4⟩, hr⟩ := hab
  obtain ⟨⟨k1, k2, k3, k4⟩, kr⟩ := hbc
  refine ⟨⟨k1.trans h1, k2.trans h2, k3.trans h3, k4.trans h4⟩, fun hne => ?_⟩
  obtain rfl := hr hne
  exact kr hne

/-- The state keeps every commit. -/
def KeepsCommits (s s' : SrState) : Prop :=
  ∀ id c, s.commits.lookup id = some c → ∃ c', s'.commits.lookup id = some c' ∧ Extends c c'

theorem KeepsCommits.refl (s : SrState) : KeepsCommits s s :=
  fun _ c hc => ⟨c, hc, Extends.refl c⟩

theorem KeepsCommits.trans {s s' s'' : SrState} (h : KeepsCommits s s') (h' : KeepsCommits s' s'') :
    KeepsCommits s s'' := by
  intro id c hc
  obtain ⟨c', hc', hext⟩ := h id c hc
  obtain ⟨c'', hc'', hext'⟩ := h' id c' hc'
  exact ⟨c'', hc'', hext.trans hext'⟩

/-- A commit that a vote of `voterKey` brings to the state, with no reveal value. -/
def StoredFrom (s s' : SrState) (commits : List SrCommit) (voterKey id : Bytes) : Prop :=
  s.commits.lookup id = none → ∀ c, s'.commits.lookup id = some c →
    s.phase = .commit ∧ id = voterKey ∧ c ∈ commits ∧ c.rsaIdentity = id ∧ c.encodedReveal = []

/-- A reveal value that a vote of `voterKey` brings to the state. -/
def RevealedFrom (X : SrContext) (s s' : SrState) (commits : List SrCommit) (voterKey id : Bytes) :
    Prop :=
  ∀ c c', s.commits.lookup id = some c → c.encodedReveal = [] → s'.commits.lookup id = some c' →
    c'.encodedReveal ≠ [] →
    s.phase = .reveal ∧ id = voterKey ∧ ∃ r ∈ commits, r.rsaIdentity = id
      ∧ r.encodedCommit = c.encodedCommit ∧ r.encodedReveal = c'.encodedReveal
      ∧ X.sha3 r.revealArray = r.hashedReveal

/-- The commits of a vote leave the phase, and whatever is not the voter's. -/
theorem receive_phase (s : SrState) (voterKey : Bytes) (c : SrCommit) :
    (s.receive X voterKey c).phase = s.phase := by
  rcases receive_cases (X := X) s voterKey c with h | ⟨-, -, -, -, h⟩ | ⟨_, -, -, -, -, -, -, -, h⟩
  · rw [h]
  · rw [h]
    rfl
  · rw [h]

theorem receive_keeps (s : SrState) (voterKey : Bytes) (c : SrCommit) :
    KeepsCommits s (s.receive X voterKey c) := by
  rcases receive_cases (X := X) s voterKey c with h | ⟨-, rfl, hnone, -, h⟩ |
    ⟨saved, -, rfl, hsaved, -, hold, -, -, h⟩
  · rw [h]
    exact KeepsCommits.refl s
  · rw [h]
    intro id c' hc'
    refine ⟨c', ?_, Extends.refl c'⟩
    have hne : id ≠ c.rsaIdentity := by
      intro hid
      rw [hid, hnone] at hc'
      cases hc'
    exact (AList.lookup_insert_ne hne).trans hc'
  · rw [h]
    intro id c' hc'
    by_cases hid : id = c.rsaIdentity
    · subst hid
      obtain rfl := Option.some.inj (hsaved.symm.trans hc')
      exact ⟨_, AList.lookup_insert _, ⟨rfl, rfl, rfl, rfl⟩, fun hne => absurd hold hne⟩
    · exact ⟨c', (AList.lookup_insert_ne hid).trans hc', Extends.refl c'⟩

/-- In the commit phase nothing that is stored changes. -/
theorem receive_commit_phase {s : SrState} {voterKey id : Bytes} {c saved : SrCommit}
    (hphase : s.phase = .commit) (hsaved : s.commits.lookup id = some saved) :
    (s.receive X voterKey c).commits.lookup id = some saved := by
  rcases receive_cases (X := X) s voterKey c with h | ⟨-, rfl, hnone, -, h⟩ | ⟨_, hreveal, -⟩
  · rw [h]
    exact hsaved
  · have hne : id ≠ c.rsaIdentity := by
      intro hid
      rw [hid, hnone] at hsaved
      cases hsaved
    rw [h]
    exact (AList.lookup_insert_ne hne).trans hsaved
  · rw [hphase] at hreveal
    cases hreveal

theorem receive_stored (s : SrState) (voterKey id : Bytes) (c : SrCommit) :
    StoredFrom s (s.receive X voterKey c) [c] voterKey id := by
  intro hnone saved hsaved
  rcases receive_cases (X := X) s voterKey c with h | ⟨hphase, rfl, -, hreveal, h⟩ |
    ⟨old, -, rfl, hold, -, -, -, -, h⟩
  · rw [h, hnone] at hsaved
    cases hsaved
  · rw [h] at hsaved
    by_cases hid : id = c.rsaIdentity
    · subst hid
      rw [SrState.addCommit, AList.lookup_insert] at hsaved
      obtain rfl := Option.some.inj hsaved
      exact ⟨hphase, rfl, List.mem_singleton_self _, rfl, hreveal⟩
    · rw [SrState.addCommit, AList.lookup_insert_ne hid, hnone] at hsaved
      cases hsaved
  · have hne : id ≠ c.rsaIdentity := by
      intro hid
      rw [hid, hold] at hnone
      cases hnone
    rw [h, AList.lookup_insert_ne hne, hnone] at hsaved
    cases hsaved

theorem receive_revealed (s : SrState) (voterKey id : Bytes) (c : SrCommit) :
    RevealedFrom X s (s.receive X voterKey c) [c] voterKey id := by
  intro saved saved' hsaved hempty hsaved' hne
  have hsame : (s.receive X voterKey c).commits.lookup id = some saved → False := by
    intro h
    obtain rfl := Option.some.inj (h.symm.trans hsaved')
    exact hne hempty
  rcases receive_cases (X := X) s voterKey c with h | ⟨hphase, -⟩ |
    ⟨old, hphase, rfl, hold, hcommit, -, -, hhash, h⟩
  · rw [h] at hsame
    exact absurd hsaved hsame
  · exact absurd (receive_commit_phase hphase hsaved) hsame
  · by_cases hid : id = c.rsaIdentity
    · subst hid
      obtain rfl := Option.some.inj (hold.symm.trans hsaved)
      rw [h, AList.lookup_insert] at hsaved'
      obtain rfl := Option.some.inj hsaved'
      exact ⟨hphase, rfl, c, List.mem_singleton_self c, rfl, hcommit, rfl, hhash⟩
    · rw [h, AList.lookup_insert_ne hid] at hsame
      exact absurd hsaved hsame

/-! ## One vote -/

/-- What a vote does, by induction over its commits. -/
structure VoteEffect (X : SrContext) (s s' : SrState) (commits : List SrCommit) (voterKey : Bytes) :
    Prop where
  phase : s'.phase = s.phase
  keeps : KeepsCommits s s'
  fixed : s.phase = .commit → ∀ id c, s.commits.lookup id = some c → s'.commits.lookup id = some c
  stored : ∀ id, StoredFrom s s' commits voterKey id
  revealed : ∀ id, RevealedFrom X s s' commits voterKey id

theorem receive_effect (s : SrState) (voterKey : Bytes) (c : SrCommit) :
    VoteEffect X s (s.receive X voterKey c) [c] voterKey where
  phase := receive_phase s voterKey c
  keeps := receive_keeps s voterKey c
  fixed hphase _ _ hsaved := receive_commit_phase hphase hsaved
  stored id := receive_stored s voterKey id c
  revealed id := receive_revealed s voterKey id c

theorem VoteEffect.trans {s s' s'' : SrState} {l l' : List SrCommit} {voterKey : Bytes}
    (h : VoteEffect X s s' l voterKey) (h' : VoteEffect X s' s'' l' voterKey) :
    VoteEffect X s s'' (l ++ l') voterKey where
  phase := h'.phase.trans h.phase
  keeps := h.keeps.trans h'.keeps
  fixed hphase id c hc :=
    h'.fixed (h.phase.trans hphase) id c (h.fixed hphase id c hc)
  stored id := by
    intro hnone c hc
    cases hmid : s'.commits.lookup id with
    | none =>
      obtain ⟨hphase, hid, hmem, hrest⟩ := h'.stored id hmid c hc
      exact ⟨h.phase ▸ hphase, hid, List.mem_append_right _ hmem, hrest⟩
    | some c₁ =>
      obtain ⟨hphase, hid, hmem, hrest⟩ := h.stored id hnone c₁ hmid
      have hsame := h'.fixed (h.phase.trans hphase) id c₁ hmid
      obtain rfl := Option.some.inj (hsame.symm.trans hc)
      exact ⟨hphase, hid, List.mem_append_left _ hmem, hrest⟩
  revealed id := by
    intro c c' hc hempty hc' hne
    obtain ⟨c₁, hmid, hext⟩ := h.keeps id c hc
    by_cases hmiddle : c₁.encodedReveal = []
    · obtain ⟨hphase, hid, r, hr, hown, hcommit, hrest⟩ := h'.revealed id c₁ c' hmid hmiddle hc' hne
      exact ⟨h.phase ▸ hphase, hid, r, List.mem_append_right _ hr, hown,
        hcommit.trans hext.commitment.1, hrest⟩
    · obtain ⟨hphase, hid, r, hr, hown, hcommit, hreveal, hhash⟩ :=
        h.revealed id c c₁ hc hempty hmid hmiddle
      obtain ⟨c₂, hlast, hext'⟩ := h'.keeps id c₁ hmid
      obtain rfl := Option.some.inj (hlast.symm.trans hc')
      rw [hext'.reveal hmiddle]
      exact ⟨hphase, hid, r, List.mem_append_left _ hr, hown, hcommit, hreveal, hhash⟩

theorem handleReceivedCommits_effect : ∀ (commits : List SrCommit) (s : SrState) (voterKey : Bytes),
    VoteEffect X s (s.handleReceivedCommits X commits voterKey) commits voterKey
  | [], s, voterKey => by
    refine ⟨rfl, KeepsCommits.refl s, fun _ _ _ hc => hc, ?_, ?_⟩
    · intro id hnone c hc
      cases hnone.symm.trans hc
    · intro id c c' hc hempty hc' hne
      obtain rfl := Option.some.inj (hc.symm.trans hc')
      exact absurd hempty hne
  | c :: commits, s, voterKey =>
    (receive_effect s voterKey c).trans (handleReceivedCommits_effect commits _ voterKey)

/-! ## One round -/

/-- The update starts a new run of the protocol. -/
def StartsRun (X : SrContext) (s : SrState) (validAfter : ℕ) : Prop :=
  s.validAfter < validAfter ∧ s.phase = .reveal ∧ getSrProtocolPhase X validAfter = .commit

theorem addOurCommit_commits (s : SrState) (timestamp : ℕ) (rand : Option Bytes) :
    (s.addOurCommit X timestamp rand).commits = s.commits
      ∨ ∃ c : SrCommit, (s.addOurCommit X timestamp rand).commits =
        s.commits.insert X.ourIdentity c := by
  cases rand with
  | none => exact Or.inl rfl
  | some rand => exact Or.inr ⟨generateOurCommit X timestamp rand, rfl⟩

theorem update_commits (s : SrState) (validAfter : ℕ) (rand : Option Bytes) :
    (s.update X validAfter rand).commits =
      if s.validAfter < validAfter then (s.enterPhase X validAfter rand).commits else s.commits := by
  unfold SrState.update SrState.countRound
  split_ifs <;> first | rfl | omega

/-- A new run begins with no commit, but perhaps one of our own. -/
theorem update_startsRun {s : SrState} {validAfter : ℕ} {rand : Option Bytes}
    (h : StartsRun X s validAfter) {id : Bytes} (hid : id ≠ X.ourIdentity) :
    (s.update X validAfter rand).commits.lookup id = none := by
  obtain ⟨hlater, hphase, hnext⟩ := h
  rw [update_commits, if_pos hlater]
  unfold SrState.enterPhase
  rw [hnext, hphase, if_pos (by decide), if_pos rfl]
  unfold SrState.newProtocolRun
  dsimp only
  rcases addOurCommit_commits (X := X)
    (SrState.resetForNewProtocolRun (if s.phase = .reveal then s.rotateSrv.computeSrv X else s)
      validAfter) validAfter rand with hsame | ⟨c, hinsert⟩
  · rw [hsame]
    rfl
  · rw [hinsert, AList.lookup_insert_ne hid]
    rfl

/-- In a run a commit is added only where there is none, and it is our own. -/
theorem update_inRun {s : SrState} {validAfter : ℕ} (h : ¬ StartsRun X s validAfter)
    (rand : Option Bytes) :
    (s.update X validAfter rand).commits = s.commits
      ∨ ((∀ id, s.commits.lookup id = none)
        ∧ ∃ c : SrCommit, (s.update X validAfter rand).commits =
          s.commits.insert X.ourIdentity c) := by
  rw [update_commits]
  split_ifs with hlater
  case neg => exact Or.inl rfl
  unfold SrState.enterPhase
  dsimp only
  split_ifs with hphase hnext hempty
  · refine absurd ⟨hlater, ?_, hnext⟩ h
    rw [hnext] at hphase
    cases hs : s.phase with
    | commit => exact absurd hs hphase
    | reveal => rfl
  · exact Or.inl rfl
  · rcases addOurCommit_commits (X := X) s validAfter rand with hsame | hinsert
    · exact Or.inl hsame
    · refine Or.inr ⟨fun id => ?_, hinsert⟩
      have hnone : s.commits.keys = [] := by
        rw [AList.keys, List.keys, List.length_eq_zero_iff.mp hempty.2]
        rfl
      rw [AList.lookup_eq_none, AList.mem_keys, hnone]
      exact List.not_mem_nil
  · exact Or.inl rfl

theorem update_keeps {s : SrState} {validAfter : ℕ} (h : ¬ StartsRun X s validAfter)
    (rand : Option Bytes) : KeepsCommits s (s.update X validAfter rand) := by
  rcases update_inRun h rand with hsame | ⟨hnone, -⟩
  · intro id c hc
    rw [hsame]
    exact ⟨c, hc, Extends.refl c⟩
  · intro id c hc
    rw [hnone] at hc
    cases hc

theorem update_others {s : SrState} {validAfter : ℕ} (h : ¬ StartsRun X s validAfter)
    (rand : Option Bytes) {id : Bytes} (hid : id ≠ X.ourIdentity) :
    (s.update X validAfter rand).commits.lookup id = s.commits.lookup id := by
  rcases update_inRun h rand with hsame | ⟨-, c, hinsert⟩
  · rw [hsame]
  · rw [hinsert, AList.lookup_insert_ne hid]

/-! ## A run -/

/-- No event starts a new run. -/
def InOneRun (X : SrContext) : SrState → List SrEvent → Prop
  | _, [] => True
  | s, .vote voterKey lines :: events => InOneRun X (s.step X (.vote voterKey lines)) events
  | s, .update validAfter rand :: events =>
    ¬ StartsRun X s validAfter ∧ InOneRun X (s.step X (.update validAfter rand)) events

/-- A run begins: there are no commits of others. -/
def RunStart (X : SrContext) (s : SrState) : Prop :=
  ∀ id, id ≠ X.ourIdentity → s.commits.lookup id = none

theorem runStart_update {s : SrState} {validAfter : ℕ} (h : StartsRun X s validAfter)
    (rand : Option Bytes) : RunStart X (s.update X validAfter rand) :=
  fun _ hid => update_startsRun h hid

theorem runStart_stateNew (now : ℕ) : RunStart X (stateNew X now) := fun _ _ => rfl

/-- The commitments of the others are what their texts say. -/
def Decoded (X : SrContext) (s : SrState) : Prop :=
  ∀ id, id ≠ X.ourIdentity → ∀ c, s.commits.lookup id = some c →
    srDecode c.encodedCommit = some (c.commitTs, c.hashedReveal)

theorem srParseCommit_decoded {args : List Bytes} {c : SrCommit} (h : srParseCommit args = some c) :
    srDecode c.encodedCommit = some (c.commitTs, c.hashedReveal) := by
  unfold srParseCommit at h
  split at h
  next version algname fpr value rest =>
    split_ifs at h
    split at h
    next digest ts hashed _ hvalue =>
      split at h
      · cases h
        exact hvalue
      · obtain ⟨r, -, rfl⟩ := Option.map_eq_some_iff.mp h
        exact hvalue
    next => cases h
  next => cases h

/-- One event of a run. -/
theorem Decoded.step {s : SrState} {e : SrEvent} (h : Decoded X s) (hrun : InOneRun X s [e]) :
    Decoded X (s.step X e) := by
  intro id hid c hc
  cases e with
  | update validAfter rand =>
    refine h id hid c ?_
    rw [← update_others hrun.1 rand hid]
    exact hc
  | vote voterKey lines =>
    have heffect := handleReceivedCommits_effect (X := X) (lines.filterMap srParseCommit) s voterKey
    cases hold : s.commits.lookup id with
    | none =>
      obtain ⟨-, -, hmem, -⟩ := heffect.stored id hold c hc
      obtain ⟨args, -, hargs⟩ := List.mem_filterMap.mp hmem
      exact srParseCommit_decoded hargs
    | some c₀ =>
      obtain ⟨c', hc', hext⟩ := heffect.keeps id c₀ hold
      obtain rfl := Option.some.inj (hc'.symm.trans hc)
      obtain ⟨hcommit, hts, hhash, -⟩ := hext.commitment
      rw [hcommit, hts, hhash]
      exact h id hid c₀ hold

theorem step_keeps {s : SrState} {e : SrEvent} (hrun : InOneRun X s [e]) :
    KeepsCommits s (s.step X e) := by
  cases e with
  | update validAfter rand => exact update_keeps hrun.1 rand
  | vote voterKey lines => exact (handleReceivedCommits_effect _ s voterKey).keeps

theorem inOneRun_cons (s : SrState) (e : SrEvent) (events : List SrEvent) :
    InOneRun X s (e :: events) ↔ InOneRun X s [e] ∧ InOneRun X (s.step X e) events := by
  cases e with
  | update validAfter rand => simp [InOneRun]
  | vote voterKey lines => simp [InOneRun]

theorem inOneRun_append : ∀ (events events' : List SrEvent) (s : SrState),
    InOneRun X s (events ++ events') ↔ InOneRun X s events ∧ InOneRun X (s.run X events) events'
  | [], events', s => by simp [InOneRun, SrState.run]
  | e :: events, events', s => by
    rw [List.cons_append, inOneRun_cons, inOneRun_append events events', inOneRun_cons s e events,
      and_assoc]
    rfl

theorem run_append (s : SrState) (events events' : List SrEvent) :
    s.run X (events ++ events') = (s.run X events).run X events' :=
  List.foldl_append

theorem Decoded.run : ∀ {events : List SrEvent} {s : SrState}, Decoded X s → InOneRun X s events →
    Decoded X (s.run X events)
  | [], _, h, _ => h
  | e :: events, s, h, hrun => by
    obtain ⟨hfirst, hrest⟩ := (inOneRun_cons _ _ _).mp hrun
    show Decoded X ((s.step X e).run X events)
    exact Decoded.run (h.step hfirst) hrest

theorem run_keeps : ∀ {events : List SrEvent} {s : SrState}, InOneRun X s events →
    KeepsCommits s (s.run X events)
  | [], s, _ => KeepsCommits.refl s
  | e :: events, s, hrun => by
    obtain ⟨hfirst, hrest⟩ := (inOneRun_cons _ _ _).mp hrun
    exact (step_keeps hfirst).trans (run_keeps hrest)

/-- What binds an authority in a run. -/
structure Binding (X : SrContext) (s : SrState) (events : List SrEvent) : Prop where
  /-- A commitment that is stored stays, and so does a reveal value. -/
  kept : ∀ before after : List SrEvent, events = before ++ after →
    KeepsCommits (s.run X before) (s.run X events)
  /-- The commitment of another authority comes from its own vote in the commit phase, without a
  reveal value. -/
  stored : ∀ (before : List SrEvent) (e : SrEvent) (after : List SrEvent),
    events = before ++ e :: after → ∀ id, id ≠ X.ourIdentity →
    (s.run X before).commits.lookup id = none →
    ∀ c, (s.run X (before ++ [e])).commits.lookup id = some c →
    (s.run X before).phase = .commit ∧ ∃ lines, e = .vote id lines
      ∧ c ∈ lines.filterMap srParseCommit ∧ c.rsaIdentity = id ∧ c.encodedReveal = []
  /-- The reveal value of another authority comes from its own vote in the reveal phase, and has the
  hash that was committed to. -/
  revealed : ∀ (before : List SrEvent) (e : SrEvent) (after : List SrEvent),
    events = before ++ e :: after → ∀ id, id ≠ X.ourIdentity →
    ∀ c c', (s.run X before).commits.lookup id = some c → c.encodedReveal = [] →
    (s.run X (before ++ [e])).commits.lookup id = some c' → c'.encodedReveal ≠ [] →
    (s.run X before).phase = .reveal ∧ ∃ lines, e = .vote id lines
      ∧ (∃ r ∈ lines.filterMap srParseCommit, r.rsaIdentity = id
        ∧ r.encodedCommit = c.encodedCommit ∧ r.encodedReveal = c'.encodedReveal)
      ∧ X.sha3 c'.revealArray = c.hashedReveal

/-- **Commitments are binding** in every run of the protocol, whatever the votes. -/
theorem commitments_binding {s : SrState} {events : List SrEvent} (hstart : RunStart X s)
    (hrun : InOneRun X s events) : Binding X s events := by
  have hdecoded : Decoded X s := by
    intro id hid c hc
    rw [hstart id hid] at hc
    cases hc
  have hstep : ∀ {before : List SrEvent} {e : SrEvent} {after : List SrEvent},
      events = before ++ e :: after → InOneRun X (s.run X before) [e]
        ∧ Decoded X (s.run X before) := by
    intro before e after hevents
    rw [hevents, inOneRun_append] at hrun
    exact ⟨((inOneRun_cons _ _ _).mp hrun.2).1, hdecoded.run hrun.1⟩
  refine ⟨?_, ?_, ?_⟩
  · intro before after hevents
    rw [hevents, inOneRun_append] at hrun
    rw [hevents, run_append]
    exact run_keeps hrun.2
  · intro before e after hevents id hid hnone c hc
    obtain ⟨hone, -⟩ := hstep hevents
    rw [run_append] at hc
    cases e with
    | update validAfter rand =>
      have hsame := update_others hone.1 rand hid
      rw [hnone] at hsame
      cases hsame.symm.trans hc
    | vote voterKey lines =>
      obtain ⟨hphase, rfl, hmem, hown, hempty⟩ :=
        (handleReceivedCommits_effect (X := X) _ (s.run X before) voterKey).stored id hnone c hc
      exact ⟨hphase, lines, rfl, hmem, hown, hempty⟩
  · intro before e after hevents id hid c c' hc hempty hc' hne
    obtain ⟨hone, hdec⟩ := hstep hevents
    rw [run_append] at hc'
    cases e with
    | update validAfter rand =>
      have hsame := update_others hone.1 rand hid
      obtain rfl := Option.some.inj (hc.symm.trans (hsame.symm.trans hc'))
      exact absurd hempty hne
    | vote voterKey lines =>
      obtain ⟨hphase, rfl, r, hr, hown, hcommit, hreveal, hhash⟩ :=
        (handleReceivedCommits_effect (X := X) _ (s.run X before) voterKey).revealed id c c' hc
          hempty hc' hne
      refine ⟨hphase, lines, rfl, ⟨r, hr, hown, hcommit, hreveal⟩, ?_⟩
      -- the two commits have one text, so the hash that was checked is the one that is stored
      obtain ⟨args, -, hargs⟩ := List.mem_filterMap.mp hr
      have hr' := srParseCommit_decoded hargs
      rw [hcommit, hdec id hid c hc] at hr'
      obtain ⟨-, hhashed⟩ := Prod.mk.inj (Option.some.inj hr')
      rw [hhashed, ← hhash, SrCommit.revealArray, SrCommit.revealArray, hreveal]

/-! ## A commitment and its reveal value -/

section Sample

/-- Two authorities with hourly votes; the first 32 bytes stand for a hash. -/
def sampleSr : SrContext where
  sha3 b := b.take 32
  authorities := [List.replicate 20 65, List.replicate 20 66]
  ourIdentity := List.replicate 20 65
  votingInterval := 3600
  qsort := Qsort.insertion
  iterate m := m.entries.map Sigma.snd
  iterate_perm _ := List.Perm.refl _

/-- A reveal value: the time and the random number are zero. -/
def sampleReveal : Bytes := base64Chars (List.replicate 40 0)

/-- The commitment to it. -/
def sampleCommitment : Bytes := base64Chars (List.replicate 8 0 ++ sampleReveal.take 32)

/-- The line of an authority. -/
def sampleCommitLine (c : UInt8) (reveal : List Bytes) : List Bytes :=
  [cstring "1", cstring "sha3-256", base16Encode (List.replicate 20 c), sampleCommitment] ++ reveal

/-- A vote in each phase. -/
def sampleSrEvents : List SrEvent :=
  [.update 3600 none, .vote (List.replicate 20 66) [sampleCommitLine 66 []], .update 46800 none,
    .vote (List.replicate 20 66) [sampleCommitLine 66 [sampleReveal]]]

/-- The other authority has committed and revealed. -/
theorem binding_two_votes :
    Binding sampleSr (stateNew sampleSr 0) sampleSrEvents
      ∧ (((stateNew sampleSr 0).run sampleSr sampleSrEvents).commits.lookup
        (List.replicate 20 66)).map (fun c => (c.encodedCommit, c.encodedReveal)) =
          some (sampleCommitment, sampleReveal) := by
  refine ⟨commitments_binding (runStart_stateNew 0) ?_, by decide +kernel⟩
  refine ⟨fun h => ?_, fun h => ?_, trivial⟩
  · exact absurd h.2.1 (by decide)
  · exact absurd h.2.2 (by decide)

end Sample

end Dittor.Tor
