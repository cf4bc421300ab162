import Dittor.Tor.SrBinding

/-!
# Shared randomness and the runs of the protocol

A run takes 24 rounds, 12 of each phase. `sr_state_update` notices that a new run has begun by the
change from the reveal phase to the commit phase. As long as every change to a later run is one, the
state is that of the run it is in (`state_belongs_to_run`): its commits were stored in that run, and
the value was computed anew where a run ended. An authority that misses the rounds between two
commit phases, or two reveal phases, takes the commits of one run into another.
-/

namespace Dittor.Tor

open Dittor.Lib

variable {X : SrContext}

/-- The run of the protocol a time is in. -/
def srRun (X : SrContext) (validAfter : ℕ) : ℕ := validAfter / X.votingInterval / srTotalRounds

/-- The time of the last update, at first that of the start. -/
def srClock (now : ℕ) (events : List SrEvent) : ℕ :=
  events.foldl (fun t e => match e with
    | .update validAfter _ => validAfter
    | .vote _ _ => t) now

/-- The updates go on in time. -/
def Increasing : ℕ → List SrEvent → Prop
  | _, [] => True
  | t, .vote _ _ :: events => Increasing t events
  | t, .update validAfter _ :: events => t < validAfter ∧ Increasing validAfter events

/-- Every change to a later run goes from the reveal phase to the commit phase. -/
def NoRunMissed (X : SrContext) : ℕ → List SrEvent → Prop
  | _, [] => True
  | t, .vote _ _ :: events => NoRunMissed X t events
  | t, .update validAfter _ :: events =>
    (srRun X t ≠ srRun X validAfter →
        getSrProtocolPhase X t = .reveal ∧ getSrProtocolPhase X validAfter = .commit)
      ∧ NoRunMissed X validAfter events

/-- The event adds a commitment of an authority to the state. -/
def AddsCommitment (X : SrContext) (s : SrState) (e : SrEvent) (id encodedCommit : Bytes) : Prop :=
  ((s.step X e).commits.lookup id).map (·.encodedCommit) = some encodedCommit
    ∧ (s.commits.lookup id = none ∨ ∃ validAfter rand, e = .update validAfter rand
      ∧ StartsRun X s validAfter)

/-- Every commit was stored in the run that contains `t`. -/
def StoredInRun (X : SrContext) (now : ℕ) (s : SrState) (events : List SrEvent) (t : ℕ) : Prop :=
  ∀ id c, (s.run X events).commits.lookup id = some c → ∃ before e after,
    events = before ++ e :: after ∧ srRun X (srClock now (before ++ [e])) = srRun X t
      ∧ AddsCommitment X (s.run X before) e id c.encodedCommit

/-- What holds after each update, of the last event `update validAfter rand`. -/
structure BelongsToRun (X : SrContext) (now : ℕ) (s : SrState) (events : List SrEvent)
    (validAfter : ℕ) (rand : Option Bytes) : Prop where
  phase : (s.run X (events ++ [SrEvent.update validAfter rand])).phase =
    getSrProtocolPhase X validAfter
  commits : StoredInRun X now s (events ++ [SrEvent.update validAfter rand]) validAfter
  rounds : (s.run X (events ++ [SrEvent.update validAfter rand])).phase = .commit →
    (s.run X (events ++ [SrEvent.update validAfter rand])).nRevealRounds = 0
  /-- The value is rotated and computed anew where a run ends, -/
  recomputed : getSrProtocolPhase X (srClock now events) = .reveal →
    srRun X (srClock now events) < srRun X validAfter →
    (s.run X (events ++ [SrEvent.update validAfter rand])).previousSrv = (s.run X events).currentSrv
      ∧ (s.run X (events ++ [SrEvent.update validAfter rand])).currentSrv =
        some (srvOfCommits X (X.iterate (s.run X events).commits) (s.run X events).currentSrv)
  /-- and nowhere else. -/
  unchanged : ¬ (getSrProtocolPhase X (srClock now events) = .reveal
      ∧ srRun X (srClock now events) < srRun X validAfter) →
    (s.run X (events ++ [SrEvent.update validAfter rand])).previousSrv
        = (s.run X events).previousSrv
      ∧ (s.run X (events ++ [SrEvent.update validAfter rand])).currentSrv
        = (s.run X events).currentSrv

/-! ## Phases and runs -/

/-- Time does not go from the reveal phase back to the commit phase in one run. -/
theorem srRun_ne_of_phases {t validAfter : ℕ} (hlt : t < validAfter)
    (hreveal : getSrProtocolPhase X t = .reveal)
    (hcommit : getSrProtocolPhase X validAfter = .commit) : srRun X t < srRun X validAfter := by
  unfold getSrProtocolPhase at hreveal hcommit
  unfold srRun
  have hmono : t / X.votingInterval ≤ validAfter / X.votingInterval :=
    Nat.div_le_div_right (le_of_lt hlt)
  split_ifs at hreveal hcommit with h1 h2
  rw [srTotalRounds] at *
  omega

/-! ## The state and the clock -/

/-- What holds at all times: the phase and the time are those of the clock, and in the commit phase
no round of revealing is counted. -/
structure Timed (X : SrContext) (t : ℕ) (s : SrState) : Prop where
  validAfter : s.validAfter ≤ t
  phase : s.phase = getSrProtocolPhase X t
  rounds : s.phase = .commit → s.nRevealRounds = 0

theorem addOurCommit_same (s : SrState) (timestamp : ℕ) (rand : Option Bytes) :
    (s.addOurCommit X timestamp rand).phase = s.phase
      ∧ (s.addOurCommit X timestamp rand).nRevealRounds = s.nRevealRounds
      ∧ (s.addOurCommit X timestamp rand).previousSrv = s.previousSrv
      ∧ (s.addOurCommit X timestamp rand).currentSrv = s.currentSrv := by
  cases rand with
  | none => exact ⟨rfl, rfl, rfl, rfl⟩
  | some rand => exact ⟨rfl, rfl, rfl, rfl⟩

theorem enterPhase_phase (s : SrState) (validAfter : ℕ) (rand : Option Bytes) :
    (s.enterPhase X validAfter rand).phase = getSrProtocolPhase X validAfter := by
  unfold SrState.enterPhase
  dsimp only
  split_ifs with hphase
  · rfl
  · rfl
  · rw [(addOurCommit_same s validAfter rand).1]
    exact not_not.mp hphase
  · exact not_not.mp hphase

theorem countRound_same (s : SrState) :
    s.countRound.phase = s.phase ∧ s.countRound.validAfter = s.validAfter
      ∧ s.countRound.previousSrv = s.previousSrv ∧ s.countRound.currentSrv = s.currentSrv := by
  unfold SrState.countRound
  split_ifs <;> exact ⟨rfl, rfl, rfl, rfl⟩

/-- A round that is not missed out. -/
theorem update_later {s : SrState} {validAfter : ℕ} (h : s.validAfter < validAfter)
    (rand : Option Bytes) : s.update X validAfter rand =
      { s.enterPhase X validAfter rand with validAfter := validAfter }.countRound := by
  rw [SrState.update, if_neg (not_le.mpr h)]

/-- A change from the reveal phase to the commit phase. -/
theorem enterPhase_startsRun {s : SrState} {validAfter : ℕ} (hphase : s.phase = .reveal)
    (hnext : getSrProtocolPhase X validAfter = .commit) (rand : Option Bytes) :
    (s.enterPhase X validAfter rand).nRevealRounds = 0
      ∧ (s.enterPhase X validAfter rand).previousSrv = s.currentSrv
      ∧ (s.enterPhase X validAfter rand).currentSrv =
        some (srvOfCommits X (X.iterate s.commits) s.currentSrv) := by
  unfold SrState.enterPhase
  dsimp only
  rw [if_pos (by rw [hphase, hnext]; decide), if_pos hnext]
  unfold SrState.newProtocolRun
  rw [if_pos hphase]
  obtain ⟨-, hrounds, hprevious, hcurrent⟩ := addOurCommit_same (X := X)
    ((s.rotateSrv.computeSrv X).resetForNewProtocolRun validAfter) validAfter rand
  have hcompute : s.rotateSrv.computeSrv X = { s.rotateSrv with
      currentSrv := some (srvOfCommits X (X.iterate s.commits) s.currentSrv)
      isSrvFresh := true } := by
    have hrotated : s.rotateSrv.phase = .reveal := hphase
    rw [SrState.computeSrv, if_neg (not_not.mpr hrotated)]
    rfl
  refine ⟨hrounds, hprevious.trans ?_, hcurrent.trans ?_⟩
  · rw [hcompute]
    rfl
  · rw [hcompute]
    rfl

/-- Every other round. -/
theorem enterPhase_inRun {s : SrState} {validAfter : ℕ}
    (h : ¬ (s.phase = .reveal ∧ getSrProtocolPhase X validAfter = .commit)) (rand : Option Bytes) :
    (s.enterPhase X validAfter rand).nRevealRounds = s.nRevealRounds
      ∧ (s.enterPhase X validAfter rand).previousSrv = s.previousSrv
      ∧ (s.enterPhase X validAfter rand).currentSrv = s.currentSrv := by
  unfold SrState.enterPhase
  dsimp only
  split_ifs with hphase hnext hempty
  · refine absurd ⟨?_, hnext⟩ h
    rw [hnext] at hphase
    cases hs : s.phase with
    | commit => exact absurd hs hphase
    | reveal => rfl
  · exact ⟨rfl, rfl, rfl⟩
  · exact (addOurCommit_same s validAfter rand).2
  · exact ⟨rfl, rfl, rfl⟩

theorem Timed.update {t : ℕ} {s : SrState} (h : Timed X t s) {validAfter : ℕ}
    (hlt : t < validAfter) (rand : Option Bytes) :
    Timed X validAfter (s.update X validAfter rand) := by
  have hlater : s.validAfter < validAfter := lt_of_le_of_lt h.validAfter hlt
  rw [update_later hlater]
  obtain ⟨hphase, hafter, -, -⟩ :=
    countRound_same { s.enterPhase X validAfter rand with validAfter := validAfter }
  refine ⟨le_of_eq hafter, hphase.trans (enterPhase_phase s validAfter rand), fun hcommit => ?_⟩
  rw [hphase] at hcommit
  have hnext : getSrProtocolPhase X validAfter = .commit :=
    (enterPhase_phase s validAfter rand).symm.trans hcommit
  have hzero : (s.enterPhase X validAfter rand).nRevealRounds = 0 := by
    cases hs : s.phase with
    | reveal => exact (enterPhase_startsRun hs hnext rand).1
    | commit =>
      rw [(enterPhase_inRun (fun h => by rw [hs] at h; cases h.1) rand).1]
      exact h.rounds hs
  unfold SrState.countRound
  rw [if_pos hcommit]
  split_ifs
  · exact hzero
  · exact hzero

/-- A vote leaves everything but the commits. -/
theorem handleReceivedCommits_same : ∀ (commits : List SrCommit) (s : SrState) (voterKey : Bytes),
    (s.handleReceivedCommits X commits voterKey).validAfter = s.validAfter
      ∧ (s.handleReceivedCommits X commits voterKey).phase = s.phase
      ∧ (s.handleReceivedCommits X commits voterKey).nRevealRounds = s.nRevealRounds
  | [], s, voterKey => ⟨rfl, rfl, rfl⟩
  | c :: commits, s, voterKey => by
    have hfirst : (s.receive X voterKey c).validAfter = s.validAfter
        ∧ (s.receive X voterKey c).phase = s.phase
        ∧ (s.receive X voterKey c).nRevealRounds = s.nRevealRounds := by
      rcases receive_cases (X := X) s voterKey c with h | ⟨-, -, -, -, h⟩ |
        ⟨_, -, -, -, -, -, -, -, h⟩
      · rw [h]
        exact ⟨rfl, rfl, rfl⟩
      · rw [h]
        exact ⟨rfl, rfl, rfl⟩
      · rw [h]
        exact ⟨rfl, rfl, rfl⟩
    obtain ⟨h1, h2, h3⟩ := handleReceivedCommits_same commits (s.receive X voterKey c) voterKey
    exact ⟨h1.trans hfirst.1, h2.trans hfirst.2.1, h3.trans hfirst.2.2⟩

theorem Timed.vote {t : ℕ} {s : SrState} (h : Timed X t s) (voterKey : Bytes)
    (lines : List (List Bytes)) : Timed X t (s.step X (.vote voterKey lines)) := by
  obtain ⟨hafter, hphase, hrounds⟩ :=
    handleReceivedCommits_same (X := X) (lines.filterMap srParseCommit) s voterKey
  refine ⟨le_trans (le_of_eq hafter) h.validAfter, hphase.trans h.phase, fun hcommit => ?_⟩
  exact hrounds.trans (h.rounds (hphase.symm.trans hcommit))

/-! ## Lists of events, from the end -/

theorem srClock_concat_vote (now : ℕ) (events : List SrEvent) (voterKey : Bytes)
    (lines : List (List Bytes)) :
    srClock now (events ++ [SrEvent.vote voterKey lines]) = srClock now events := by
  rw [srClock, List.foldl_append]
  rfl

theorem srClock_concat_update (now : ℕ) (events : List SrEvent) (validAfter : ℕ)
    (rand : Option Bytes) :
    srClock now (events ++ [SrEvent.update validAfter rand]) = validAfter := by
  rw [srClock, List.foldl_append]
  rfl

theorem increasing_append : ∀ (events events' : List SrEvent) (t : ℕ),
    Increasing t (events ++ events') ↔ Increasing t events ∧ Increasing (srClock t events) events'
  | [], events', t => by simp [Increasing, srClock]
  | .vote voterKey lines :: events, events', t => increasing_append events events' t
  | .update validAfter rand :: events, events', t => by
    have ih := increasing_append events events' validAfter
    rw [List.cons_append, Increasing, Increasing, ih, and_assoc]
    rfl

theorem noRunMissed_append : ∀ (events events' : List SrEvent) (t : ℕ),
    NoRunMissed X t (events ++ events') ↔
      NoRunMissed X t events ∧ NoRunMissed X (srClock t events) events'
  | [], events', t => by simp [NoRunMissed, srClock]
  | .vote voterKey lines :: events, events', t => noRunMissed_append events events' t
  | .update validAfter rand :: events, events', t => by
    have ih := noRunMissed_append events events' validAfter
    rw [List.cons_append, NoRunMissed, NoRunMissed, ih, and_assoc]
    rfl

/-! ## The commits -/

/-- One more event: what it adds is stored in its run, and everything else was stored before in a
run that goes on. -/
theorem StoredInRun.concat {now t : ℕ} {s : SrState} {events : List SrEvent} {e : SrEvent}
    (h : StoredInRun X now s events (srClock now events))
    (hclock : srClock now (events ++ [e]) = t)
    (hcommits : ∀ id c, ((s.run X events).step X e).commits.lookup id = some c →
      AddsCommitment X (s.run X events) e id c.encodedCommit
        ∨ srRun X (srClock now events) = srRun X t ∧ ∃ c₀,
          (s.run X events).commits.lookup id = some c₀ ∧ c.encodedCommit = c₀.encodedCommit) :
    StoredInRun X now s (events ++ [e]) t := by
  intro id c hc
  rw [run_append] at hc
  rcases hcommits id c hc with hadds | ⟨hrun, c₀, hc₀, hsame⟩
  · exact ⟨events, e, [], rfl, by rw [hclock], hadds⟩
  · obtain ⟨before, e', after, hevents, hbefore, hadds⟩ := h id c₀ hc₀
    refine ⟨before, e', after ++ [e], ?_, hbefore.trans hrun, ?_⟩
    · rw [hevents, List.append_assoc]
      rfl
    · rw [hsame]
      exact hadds

/-- What the step of a run keeps, it keeps or adds. -/
theorem adds_or_kept {s : SrState} {e : SrEvent} (hkeeps : KeepsCommits s (s.step X e)) {id : Bytes}
    {c : SrCommit} (hc : (s.step X e).commits.lookup id = some c) :
    AddsCommitment X s e id c.encodedCommit
      ∨ ∃ c₀, s.commits.lookup id = some c₀ ∧ c.encodedCommit = c₀.encodedCommit := by
  cases hold : s.commits.lookup id with
  | none =>
    refine Or.inl ⟨?_, Or.inl hold⟩
    rw [hc]
    rfl
  | some c₀ =>
    obtain ⟨c', hc', hext⟩ := hkeeps id c₀ hold
    obtain rfl := Option.some.inj (hc'.symm.trans hc)
    exact Or.inr ⟨c₀, rfl, hext.commitment.1⟩

/-- **The invariant** of every run whose rounds are not missed. -/
theorem timed_and_stored {now : ℕ} (events : List SrEvent) (hinc : Increasing now events)
    (hmissed : NoRunMissed X now events) :
    Timed X (srClock now events) ((stateNew X now).run X events)
      ∧ StoredInRun X now (stateNew X now) events (srClock now events) := by
  induction events using List.reverseRecOn with
  | nil =>
    refine ⟨⟨Nat.zero_le _, rfl, fun _ => rfl⟩, ?_⟩
    intro id c hc
    cases hc
  | append_singleton events e ih =>
    rw [increasing_append] at hinc
    rw [noRunMissed_append] at hmissed
    obtain ⟨htimed, hstored⟩ := ih hinc.1 hmissed.1
    cases e with
    | vote voterKey lines =>
      have hclock := srClock_concat_vote now events voterKey lines
      rw [hclock, run_append]
      refine ⟨htimed.vote voterKey lines, hstored.concat hclock fun id c hc => ?_⟩
      rcases adds_or_kept (handleReceivedCommits_effect _ _ voterKey).keeps hc with hadds | hkept
      · exact Or.inl hadds
      · exact Or.inr ⟨rfl, hkept⟩
    | update validAfter rand =>
      have hclock := srClock_concat_update now events validAfter rand
      rw [hclock, run_append]
      refine ⟨htimed.update hinc.2.1 rand, hstored.concat hclock fun id c hc => ?_⟩
      by_cases hstarts : StartsRun X ((stateNew X now).run X events) validAfter
      · refine Or.inl ⟨?_, Or.inr ⟨validAfter, rand, rfl, hstarts⟩⟩
        rw [hc]
        rfl
      · have hrun : srRun X (srClock now events) = srRun X validAfter := by
          by_contra hne
          obtain ⟨hreveal, hcommit⟩ := hmissed.2.1 hne
          exact hstarts ⟨lt_of_le_of_lt htimed.validAfter hinc.2.1, htimed.phase.trans hreveal,
            hcommit⟩
        rcases adds_or_kept (e := .update validAfter rand) (update_keeps hstarts rand) hc with
          hadds | hkept
        · exact Or.inl hadds
        · exact Or.inr ⟨hrun, hkept⟩

/-- **The state belongs to the run it is in**, in every sequence of updates and votes in which every
change to a later run is one from the reveal phase to the commit phase. -/
theorem state_belongs_to_run {now validAfter : ℕ} {events : List SrEvent} {rand : Option Bytes}
    (hinc : Increasing now (events ++ [SrEvent.update validAfter rand]))
    (hmissed : NoRunMissed X now (events ++ [SrEvent.update validAfter rand])) :
    BelongsToRun X now (stateNew X now) events validAfter rand := by
  obtain ⟨hlast, hstored⟩ := timed_and_stored _ hinc hmissed
  rw [srClock_concat_update] at hlast hstored
  rw [increasing_append] at hinc
  rw [noRunMissed_append] at hmissed
  obtain ⟨htimed, -⟩ := timed_and_stored events hinc.1 hmissed.1
  have hlater := lt_of_le_of_lt htimed.validAfter hinc.2.1
  have hupdate : (stateNew X now).run X (events ++ [SrEvent.update validAfter rand]) =
      { ((stateNew X now).run X events).enterPhase X validAfter rand with
        validAfter := validAfter }.countRound := by
    rw [run_append]
    exact update_later hlater rand
  obtain ⟨-, -, hprevious, hcurrent⟩ := countRound_same
    { ((stateNew X now).run X events).enterPhase X validAfter rand with validAfter := validAfter }
  refine ⟨hlast.phase, hstored, hlast.rounds, ?_, ?_⟩
  · intro hreveal hrun
    obtain ⟨-, hcommit⟩ := hmissed.2.1 (by omega)
    obtain ⟨-, hp, hc⟩ := enterPhase_startsRun (htimed.phase.trans hreveal) hcommit rand
    rw [hupdate]
    exact ⟨hprevious.trans hp, hcurrent.trans hc⟩
  · intro hcross
    have hsame : ¬ (((stateNew X now).run X events).phase = .reveal
        ∧ getSrProtocolPhase X validAfter = .commit) := by
      intro hphases
      have hreveal := htimed.phase.symm.trans hphases.1
      exact hcross ⟨hreveal, srRun_ne_of_phases hinc.2.1 hreveal hphases.2⟩
    obtain ⟨-, hp, hc⟩ := enterPhase_inRun hsame rand
    rw [hupdate]
    exact ⟨hprevious.trans hp, hcurrent.trans hc⟩

/-! ## Two rounds of two runs -/

section Sample

/-- An hour of a day, and the same hour of the next day. -/
def missedDay : List SrEvent := [.update 3600 (some (List.replicate 32 1))]

/-- The change of a day. -/
theorem belongs_after_midnight :
    BelongsToRun sampleSr 0 (stateNew sampleSr 0) [.update 46800 none] 86400 none := by
  refine state_belongs_to_run ⟨by decide, by decide, trivial⟩ ⟨fun h => ?_, fun _ => ?_, trivial⟩
  · exact absurd (by decide) h
  · exact ⟨by decide, by decide⟩

/-- **A commit of yesterday is a commit of today**, for an authority that was away in between. -/
theorem commit_kept_over_missed_day :
    Increasing 0 (missedDay ++ [SrEvent.update 90000 none])
      ∧ ¬ BelongsToRun sampleSr 0 (stateNew sampleSr 0) missedDay 90000 none := by
  refine ⟨⟨by decide, by decide, trivial⟩, fun h => ?_⟩
  have hthere : (((stateNew sampleSr 0).run sampleSr
      (missedDay ++ [SrEvent.update 90000 none])).commits.lookup sampleSr.ourIdentity).isSome
        = true := by
    decide +kernel
  obtain ⟨c, hc⟩ := Option.isSome_iff_exists.mp hthere
  obtain ⟨before, e, after, hevents, hrun, -, hadds⟩ := h.commits _ c hc
  -- it was added by the first update, which is in another run
  match before with
  | [] =>
    obtain ⟨rfl, -⟩ := List.cons.inj hevents
    exact absurd hrun (by decide)
  | [first] =>
    obtain ⟨rfl, hrest⟩ := List.cons.inj hevents
    obtain ⟨rfl, -⟩ := List.cons.inj hrest
    rcases hadds with hnone | ⟨_, _, heq, hstarts⟩
    · exact absurd hnone (by decide +kernel)
    · exact absurd hstarts.2.1 (by decide)
  | _ :: _ :: before =>
    have hlength := congrArg List.length hevents
    simp only [missedDay, List.length_append, List.length_cons, List.length_nil] at hlength
    omega

end Sample

end Dittor.Tor
