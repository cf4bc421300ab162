import Mathlib
import Dittor.Lib.Run

/-!
# The voting schedule of an authority

When an authority votes, collects votes, computes the consensus, collects signatures and publishes
(`voting_schedule.c`), and the function that does these things (`dirvote_act`). The times come from
the clock, the live consensus and the options, so authorities agree on them only as far as these
agree: if the interval divides the day, any two clocks of one interval do (`schedules_agree`).

The schedule is made anew when a consensus arrives, when the options change, when somebody asks for
it and it is out of date, and after every consensus that is published. Whenever that happens, the
five steps come in their order and not before their times, and no interval has its consensus
published twice (`voting_steps_in_order`).

Times are unbounded integers; `time_t` has 64 bits.
-/

namespace Dittor.Tor.Voting

open Dittor.Lib

/-! ## Intervals -/

/-- `voting_sched_get_start_of_interval_after`; what `tor_gmtime_r` and `tor_timegm` find as the last
midnight is a multiple of a day. -/
def getStartOfIntervalAfter (now interval offset : ℤ) : ℤ :=
  let midnightToday := now - now % (24 * 60 * 60)
  let midnightTomorrow := midnightToday + 24 * 60 * 60
  let next := midnightToday + ((now - midnightToday).tdiv interval + 1) * interval
  let next := if next > midnightTomorrow then midnightTomorrow else next
  let next := if next + interval.tdiv 2 > midnightTomorrow then midnightTomorrow else next
  let next := next + offset
  if next - interval > now then next - interval else next

section Intervals

variable {now interval offset : ℤ}

/-- The start of an interval is in the future. -/
theorem lt_getStartOfIntervalAfter (now : ℤ) (hinterval : 0 < interval) (hoffset : 0 ≤ offset) :
    now < getStartOfIntervalAfter now interval offset := by
  obtain ⟨day, hday⟩ : ∃ day, day = now % (24 * 60 * 60) := ⟨_, rfl⟩
  have hpos : 0 ≤ day := hday ▸ Int.emod_nonneg _ (by decide)
  have hlt : day < 86400 := hday ▸ Int.emod_lt_of_pos _ (by decide)
  have hdiv : day < (day.tdiv interval + 1) * interval := by
    rw [Int.tdiv_eq_ediv_of_nonneg hpos]
    exact Int.lt_ediv_add_one_mul_self day hinterval
  unfold getStartOfIntervalAfter
  dsimp only
  rw [← hday, sub_sub_cancel]
  split_ifs
  all_goals omega

/-- If the interval divides the day, intervals start at the times that leave the remainder `offset`:
this is the first of them after `now`. -/
theorem getStartOfIntervalAfter_eq (hinterval : 0 < interval) (hday : interval ∣ 24 * 60 * 60)
    (hoffset : 0 ≤ offset) (hle : offset ≤ interval) :
    getStartOfIntervalAfter now interval offset = now + interval - (now - offset) % interval := by
  obtain ⟨n, hn⟩ := hday
  obtain ⟨day, hdayEq⟩ : ∃ day, day = now % (24 * 60 * 60) := ⟨_, rfl⟩
  have hpos : 0 ≤ day := hdayEq ▸ Int.emod_nonneg _ (by decide)
  have hlt : day < 24 * 60 * 60 := hdayEq ▸ Int.emod_lt_of_pos _ (by decide)
  obtain ⟨k, hk⟩ : ∃ k, k = day / interval := ⟨_, rfl⟩
  obtain ⟨r, hr⟩ : ∃ r, r = day % interval := ⟨_, rfl⟩
  have hsplit : day = k * interval + r := by
    rw [hk, hr, mul_comm]
    exact (Int.mul_ediv_add_emod day interval).symm
  have hrpos : 0 ≤ r := hr ▸ Int.emod_nonneg _ hinterval.ne'
  have hrlt : r < interval := hr ▸ Int.emod_lt_of_pos _ hinterval
  -- the interval that `now` is in ends by midnight
  have hkn : k + 1 ≤ n := by
    by_contra hgt
    have hmul : n * interval ≤ k * interval := mul_le_mul_of_nonneg_right (by omega) hinterval.le
    have hcomm : interval * n = n * interval := mul_comm _ _
    omega
  have hmidnight : ((k + 1) * interval = 24 * 60 * 60) ∨ (k + 1) * interval + interval ≤ 24 * 60 * 60 := by
    rcases hkn.lt_or_eq with hless | heq
    · right
      have hmul : (k + 2) * interval ≤ n * interval := mul_le_mul_of_nonneg_right (by omega) hinterval.le
      have hring : (k + 2) * interval = (k + 1) * interval + interval := by ring
      have hcomm : interval * n = n * interval := mul_comm _ _
      omega
    · left
      rw [heq, hn]
      exact mul_comm _ _
  have hhalf : 0 ≤ interval.tdiv 2 ∧ interval.tdiv 2 < interval := by
    rw [Int.tdiv_eq_ediv_of_nonneg hinterval.le]
    omega
  have hmod : (now - offset) % interval = if offset ≤ r then r - offset else r - offset + interval := by
    have hnow : now - offset = (r - offset) + interval * (n * (now / (24 * 60 * 60)) + k) := by
      have hnowDay := Int.mul_ediv_add_emod now (24 * 60 * 60)
      rw [← hdayEq, hn] at hnowDay
      rw [hn]
      linarith [hsplit, hnowDay, mul_comm k interval,
        show interval * (n * (now / (interval * n)) + k)
          = interval * n * (now / (interval * n)) + k * interval by ring]
    rw [hnow, Int.add_mul_emod_self_left]
    split_ifs with hcase
    · exact Int.emod_eq_of_lt (by omega) (by omega)
    · rw [← Int.add_emod_right]
      exact Int.emod_eq_of_lt (by omega) (by omega)
  have hring : (k + 1) * interval = k * interval + interval := by ring
  unfold getStartOfIntervalAfter
  dsimp only
  rw [← hdayEq, sub_sub_cancel, Int.tdiv_eq_ediv_of_nonneg hpos, ← hk, hmod]
  split_ifs
  all_goals omega

/-- The clocks of one interval find the same start of the next. -/
theorem getStartOfIntervalAfter_agree {now' : ℤ} (hinterval : 0 < interval)
    (hday : interval ∣ 24 * 60 * 60) (hoffset : 0 ≤ offset) (hle : offset ≤ interval)
    (hfrom : getStartOfIntervalAfter now interval offset - interval ≤ now')
    (hto : now' < getStartOfIntervalAfter now interval offset) :
    getStartOfIntervalAfter now' interval offset = getStartOfIntervalAfter now interval offset := by
  rw [getStartOfIntervalAfter_eq hinterval hday hoffset hle] at hfrom hto ⊢
  rw [getStartOfIntervalAfter_eq hinterval hday hoffset hle]
  have hsplit := Int.mul_ediv_add_emod (now - offset) interval
  obtain ⟨x, hx⟩ : ∃ x, x = (now - offset) % interval := ⟨_, rfl⟩
  rw [← hx] at hfrom hto hsplit ⊢
  have hnow' : now' - offset
      = (x + (now' - now)) + interval * ((now - offset) / interval) := by omega
  rw [hnow', Int.add_mul_emod_self_left, Int.emod_eq_of_lt (by omega) (by omega)]
  omega

end Intervals

/-! ## Schedules -/

/-- What the schedule reads of the live consensus. -/
structure LiveConsensus where
  validAfter : ℤ
  freshUntil : ℤ
  voteSeconds : ℤ
  distSeconds : ℤ
  deriving DecidableEq

/-- The options of the schedule; all but the last are for when there is no live consensus. -/
structure ScheduleOptions where
  testingV3AuthInitialVotingInterval : ℤ
  testingV3AuthInitialVoteDelay : ℤ
  testingV3AuthInitialDistDelay : ℤ
  testingV3AuthVotingStartOffset : ℤ

/-- `voting_schedule_t` -/
structure VotingSchedule where
  votingStarts : ℤ
  fetchMissingVotes : ℤ
  votingEnds : ℤ
  fetchMissingSignatures : ℤ
  intervalStarts : ℤ
  interval : ℤ
  haveVoted : Bool
  haveFetchedMissingVotes : Bool
  haveBuiltConsensus : Bool
  haveFetchedMissingSignatures : Bool
  havePublishedConsensus : Bool
  createdOnDemand : Bool
  liveConsensusValidAfter : ℤ
  deriving DecidableEq

/-- The interval, `vote_delay` and `dist_delay` that `create_voting_schedule` starts from. The
difference is cut to an `int`. -/
def scheduleTiming (options : ScheduleOptions) : Option LiveConsensus → ℤ × ℤ × ℤ
  | some c => ((c.freshUntil - c.validAfter).bmod (2 ^ 32), c.voteSeconds, c.distSeconds)
  | none =>
    (options.testingV3AuthInitialVotingInterval, options.testingV3AuthInitialVoteDelay,
      options.testingV3AuthInitialDistDelay)

/-- `create_voting_schedule`; `none` where an assertion fails. -/
def createVotingSchedule (options : ScheduleOptions) (live : Option LiveConsensus) (now : ℤ) :
    Option VotingSchedule :=
  let (interval, voteDelay, distDelay) := scheduleTiming options live
  if interval ≤ 0 then none
  else
    let (voteDelay, distDelay) :=
      if voteDelay + distDelay > interval.tdiv 2 then (interval.tdiv 4, interval.tdiv 4)
      else (voteDelay, distDelay)
    let start := getStartOfIntervalAfter now interval options.testingV3AuthVotingStartOffset
    let stop := getStartOfIntervalAfter (start + 1) interval options.testingV3AuthVotingStartOffset
    if stop ≤ start then none
    else
      some
        { votingStarts := start - distDelay - voteDelay
          fetchMissingVotes := start - distDelay - voteDelay.tdiv 2
          votingEnds := start - distDelay
          fetchMissingSignatures := start - distDelay.tdiv 2
          intervalStarts := start
          interval := interval
          haveVoted := false
          haveFetchedMissingVotes := false
          haveBuiltConsensus := false
          haveFetchedMissingSignatures := false
          havePublishedConsensus := false
          createdOnDemand := false
          liveConsensusValidAfter := live.elim 0 (·.validAfter) }

/-- What the parser requires of a consensus, with an interval that fits an `int`. -/
def LiveConsensus.Ok (c : LiveConsensus) : Prop :=
  c.validAfter < c.freshUntil ∧ c.freshUntil - c.validAfter < 2 ^ 31 ∧ 0 ≤ c.voteSeconds
    ∧ 0 ≤ c.distSeconds

instance (c : LiveConsensus) : Decidable c.Ok :=
  inferInstanceAs (Decidable (_ ∧ _ ∧ _ ∧ _))

/-- What `options_validate_dirauth_testing` leaves of the options. -/
structure ScheduleOptions.Ok (options : ScheduleOptions) : Prop where
  interval_pos : 0 < options.testingV3AuthInitialVotingInterval
  voteDelay_nonneg : 0 ≤ options.testingV3AuthInitialVoteDelay
  distDelay_nonneg : 0 ≤ options.testingV3AuthInitialDistDelay
  offset_nonneg : 0 ≤ options.testingV3AuthVotingStartOffset

/-- The steps of a voting period. -/
inductive VoteAction where
  | performVote
  | fetchMissingVotes
  | computeConsensuses
  | fetchMissingSignatures
  | publishConsensus
  deriving DecidableEq

namespace VotingSchedule

/-- When a step is due. -/
def time (s : VotingSchedule) : VoteAction → ℤ
  | .performVote => s.votingStarts
  | .fetchMissingVotes => s.fetchMissingVotes
  | .computeConsensuses => s.votingEnds
  | .fetchMissingSignatures => s.fetchMissingSignatures
  | .publishConsensus => s.intervalStarts

/-- Whether a step is done. -/
def isDone (s : VotingSchedule) : VoteAction → Bool
  | .performVote => s.haveVoted
  | .fetchMissingVotes => s.haveFetchedMissingVotes
  | .computeConsensuses => s.haveBuiltConsensus
  | .fetchMissingSignatures => s.haveFetchedMissingSignatures
  | .publishConsensus => s.havePublishedConsensus

/-- A step is done. -/
def setDone (s : VotingSchedule) : VoteAction → VotingSchedule
  | .performVote => { s with haveVoted := true }
  | .fetchMissingVotes => { s with haveFetchedMissingVotes := true }
  | .computeConsensuses => { s with haveBuiltConsensus := true }
  | .fetchMissingSignatures => { s with haveFetchedMissingSignatures := true }
  | .publishConsensus => { s with havePublishedConsensus := true }

@[simp] theorem time_setDone (s : VotingSchedule) (a b : VoteAction) :
    (s.setDone a).time b = s.time b := by
  cases a <;> cases b <;> rfl

@[simp] theorem isDone_setDone (s : VotingSchedule) (a b : VoteAction) :
    (s.setDone a).isDone b = if b = a then true else s.isDone b := by
  cases a <;> cases b <;> rfl

end VotingSchedule

/-- The order of the steps. -/
def votingSteps : List VoteAction :=
  [.performVote, .fetchMissingVotes, .computeConsensuses, .fetchMissingSignatures, .publishConsensus]

theorem mem_votingSteps (a : VoteAction) : a ∈ votingSteps := by
  cases a <;> decide

/-- Publishing comes last. -/
theorem publish_not_mem {steps later : List VoteAction} {a : VoteAction}
    (h : votingSteps = steps ++ a :: later) : .publishConsensus ∉ steps := by
  intro hmem
  have hnodup : (steps ++ a :: later).Nodup := by
    rw [← h]
    decide
  have hlast : votingSteps.getLast? = (a :: later).getLast? := by
    rw [h, List.getLast?_append, List.getLast?_eq_some_getLast (List.cons_ne_nil a later)]
    rfl
  have hpublish : VoteAction.publishConsensus ∈ a :: later := List.mem_of_getLast? hlast.symm
  exact (List.nodup_append.mp hnodup).2.2 _ hmem _ hpublish rfl

/-- A row of `IF_TIME_FOR_NEXT_ACTION`: the schedule, the steps that were done, and the time of the
first that was not due. -/
def actUntilWait (now : ℤ) :
    List VoteAction → VotingSchedule → VotingSchedule × List VoteAction × Option ℤ
  | [], s => (s, [], none)
  | a :: rest, s =>
    if s.isDone a then actUntilWait now rest s
    else if s.time a > now then (s, [], some (s.time a))
    else
      let (s, actions, wait) := actUntilWait now rest (s.setDone a)
      (s, a :: actions, wait)

/-- What a call of `dirvote_act` leaves. -/
structure ActResult where
  sched : VotingSchedule
  actions : List VoteAction
  /-- When to call it again. -/
  next : ℤ
  /-- `tor_assert_nonfatal_unreached` was reached. -/
  bug : Bool

/-- `dirvote_act` after the first lines; `live` is the live consensus once one was published. -/
def dirvoteActOn (options : ScheduleOptions) (live : Option LiveConsensus) (now : ℤ)
    (s : VotingSchedule) : Option ActResult :=
  match actUntilWait now votingSteps s with
  | (s, actions, some next) => some ⟨s, actions, next, false⟩
  | (s, actions, none) =>
    if .publishConsensus ∈ actions then
      (createVotingSchedule options live now).map fun s => ⟨s, actions, s.votingStarts, false⟩
    else some ⟨s, actions, now + 1, true⟩

/-- The first lines of `dirvote_act`: a schedule made on demand is not gone by. -/
def scheduleToActOn (options : ScheduleOptions) (live : Option LiveConsensus) (now : ℤ)
    (s : VotingSchedule) : Option VotingSchedule :=
  if s.createdOnDemand then createVotingSchedule options live now else some s

/-- `dirvote_act` on an authority, with the schedule it goes by; `liveBefore` is the live consensus
when it is called. -/
def dirvoteAct (options : ScheduleOptions) (liveBefore live : Option LiveConsensus) (now : ℤ)
    (s : VotingSchedule) : Option (VotingSchedule × ActResult) :=
  (scheduleToActOn options liveBefore now s).bind fun s =>
    (dirvoteActOn options live now s).map fun r => (s, r)

/-- `dirauth_get_voting_schedule`, once there is a schedule. -/
def dirauthGetVotingSchedule (options : ScheduleOptions) (live : Option LiveConsensus) (now : ℤ)
    (s : VotingSchedule) : Option VotingSchedule :=
  match live with
  | none => some s
  | some c =>
    if c.validAfter ≠ s.liveConsensusValidAfter then
      (createVotingSchedule options live now).map ({ · with createdOnDemand := true })
    else some s

section Schedules

variable {options : ScheduleOptions} {live : Option LiveConsensus} {now : ℤ}

/-- What holds of a schedule that was just made. -/
structure Fresh (now : ℤ) (s : VotingSchedule) : Prop where
  lt_intervalStarts : now < s.intervalStarts
  isDone : ∀ a, s.isDone a = false
  times : s.votingStarts ≤ s.fetchMissingVotes ∧ s.fetchMissingVotes ≤ s.votingEnds
    ∧ s.votingEnds ≤ s.fetchMissingSignatures ∧ s.fetchMissingSignatures ≤ s.intervalStarts

/-- No assertion fails when a schedule is made. -/
theorem createVotingSchedule_fresh (now : ℤ) (hoptions : options.Ok) (hlive : ∀ c ∈ live, c.Ok) :
    ∃ s, createVotingSchedule options live now = some s ∧ Fresh now s
      ∧ s.createdOnDemand = false := by
  obtain ⟨⟨interval, voteDelay, distDelay⟩, hread⟩ :
      ∃ read, read = scheduleTiming options live := ⟨_, rfl⟩
  have hpos : 0 < interval ∧ 0 ≤ voteDelay ∧ 0 ≤ distDelay := by
    cases live with
    | none =>
      cases hread
      exact ⟨hoptions.interval_pos, hoptions.voteDelay_nonneg, hoptions.distDelay_nonneg⟩
    | some c =>
      obtain ⟨hlt, hwidth, hvote, hdist⟩ := hlive c rfl
      cases hread
      refine ⟨?_, hvote, hdist⟩
      simp only [Int.bmod]
      split <;> omega
  obtain ⟨hinterval, hvote, hdist⟩ := hpos
  obtain ⟨⟨v, d⟩, hdelays⟩ : ∃ delays, delays =
      (if voteDelay + distDelay > interval.tdiv 2 then (interval.tdiv 4, interval.tdiv 4)
        else (voteDelay, distDelay)) := ⟨_, rfl⟩
  have hvd : 0 ≤ v ∧ 0 ≤ d := by
    have hquarter : 0 ≤ interval.tdiv 4 := Int.tdiv_nonneg hinterval.le (by decide)
    split_ifs at hdelays
    · cases hdelays
      exact ⟨hquarter, hquarter⟩
    · cases hdelays
      exact ⟨hvote, hdist⟩
  have hstart := lt_getStartOfIntervalAfter now hinterval hoptions.offset_nonneg
  have hstop := lt_getStartOfIntervalAfter
    (getStartOfIntervalAfter now interval options.testingV3AuthVotingStartOffset + 1) hinterval
    hoptions.offset_nonneg
  unfold createVotingSchedule
  dsimp only
  rw [← hread]
  dsimp only
  rw [if_neg (not_le.mpr hinterval), ← hdelays, if_neg (by omega)]
  refine ⟨_, rfl, ⟨hstart, ?_, ?_⟩, rfl⟩
  · intro a
    cases a <;> rfl
  · have hhalf : v.tdiv 2 ≤ v ∧ 0 ≤ v.tdiv 2 ∧ d.tdiv 2 ≤ d ∧ 0 ≤ d.tdiv 2 := by
      rw [Int.tdiv_eq_ediv_of_nonneg hvd.1, Int.tdiv_eq_ediv_of_nonneg hvd.2]
      omega
    dsimp only
    omega

/-- What a schedule depends on. -/
theorem createVotingSchedule_some {s : VotingSchedule}
    (h : createVotingSchedule options live now = some s) :
    0 < s.interval ∧ s.interval = (scheduleTiming options live).1
      ∧ s.intervalStarts
        = getStartOfIntervalAfter now s.interval options.testingV3AuthVotingStartOffset := by
  unfold createVotingSchedule at h
  dsimp only at h
  split_ifs at h with hinterval
  all_goals
    cases h
    exact ⟨not_le.mp hinterval, rfl, rfl⟩

/-- **Authorities agree on the schedule**: if the interval divides the day, and the offset is not
longer than it, any two clocks between the start of an interval and the start of the next give the
same schedule, for the same live consensus and options. -/
theorem schedules_agree {s : VotingSchedule} (h : createVotingSchedule options live now = some s)
    (hday : s.interval ∣ 24 * 60 * 60) (hoffset : 0 ≤ options.testingV3AuthVotingStartOffset)
    (hle : options.testingV3AuthVotingStartOffset ≤ s.interval) {now' : ℤ}
    (hfrom : s.intervalStarts - s.interval ≤ now') (hto : now' < s.intervalStarts) :
    createVotingSchedule options live now' = some s := by
  obtain ⟨hpos, hinterval, hstarts⟩ := createVotingSchedule_some h
  rw [hstarts] at hfrom hto
  have hagree := getStartOfIntervalAfter_agree hpos hday hoffset hle hfrom hto
  rw [hinterval] at hagree
  unfold createVotingSchedule at h ⊢
  dsimp only at h ⊢
  rw [hagree]
  exact h

/-- An authority of a test network that votes every five minutes. -/
def fiveMinutes : ScheduleOptions where
  testingV3AuthInitialVotingInterval := 300
  testingV3AuthInitialVoteDelay := 20
  testingV3AuthInitialDistDelay := 20
  testingV3AuthVotingStartOffset := 0

theorem schedules_agree_fiveMinutes :
    ∃ s, createVotingSchedule fiveMinutes none 300 = some s
      ∧ createVotingSchedule fiveMinutes none 599 = some s := by
  have hmade : ∃ s, createVotingSchedule fiveMinutes none 300 = some s ∧ s.interval = 300
      ∧ s.intervalStarts = 600 := ⟨_, rfl, by decide, by decide⟩
  obtain ⟨s, hs, hinterval, hstarts⟩ := hmade
  refine ⟨s, hs, schedules_agree hs ?_ ?_ ?_ ?_ ?_⟩
  · rw [hinterval]
    decide
  · decide
  · rw [hinterval]
    decide
  · rw [hinterval, hstarts]
    decide
  · rw [hstarts]
    decide

/-- What a row of steps does that are still to be done. -/
structure Acted (now : ℤ) (steps : List VoteAction) (s s' : VotingSchedule)
    (actions later : List VoteAction) (wait : Option ℤ) : Prop where
  steps_eq : steps = actions ++ later
  due : ∀ a ∈ actions, s.time a ≤ now
  time : ∀ a, s'.time a = s.time a
  isDone : ∀ a, s'.isDone a = (s.isDone a || decide (a ∈ actions))
  wait_eq : wait = later.head?.map s.time
  notDue : ∀ a ∈ later.head?, now < s.time a

theorem actUntilWait_done (now : ℤ) {s : VotingSchedule} (rest : List VoteAction) :
    ∀ {steps : List VoteAction}, (∀ a ∈ steps, s.isDone a = true) →
      actUntilWait now (steps ++ rest) s = actUntilWait now rest s := by
  intro steps
  induction steps with
  | nil => intro _; rfl
  | cons a steps ih =>
    intro hdone
    rw [List.cons_append, actUntilWait, if_pos (hdone a List.mem_cons_self)]
    exact ih fun b hb => hdone b (List.mem_cons_of_mem a hb)

theorem actUntilWait_undone (now : ℤ) :
    ∀ {steps : List VoteAction} {s : VotingSchedule}, steps.Nodup →
      (∀ a ∈ steps, s.isDone a = false) →
      ∃ s' actions later wait, actUntilWait now steps s = (s', actions, wait)
        ∧ Acted now steps s s' actions later wait := by
  intro steps
  induction steps with
  | nil =>
    intro s _ _
    refine ⟨s, [], [], none, rfl, rfl, ?_, fun _ => rfl, ?_, rfl, ?_⟩
    · intro a ha
      cases ha
    · intro a
      simp
    · intro a ha
      cases ha
  | cons a steps ih =>
    intro s hnodup hundone
    obtain ⟨hnot, hnodup⟩ := List.nodup_cons.mp hnodup
    rw [actUntilWait, if_neg (by simp [hundone a List.mem_cons_self])]
    by_cases hdue : s.time a > now
    · rw [if_pos hdue]
      refine ⟨s, [], a :: steps, some (s.time a), rfl, rfl, ?_, fun _ => rfl, ?_, rfl, ?_⟩
      · intro b hb
        cases hb
      · intro b
        simp
      · intro b hb
        cases hb
        exact hdue
    · rw [if_neg hdue]
      have hrest : ∀ b ∈ steps, (s.setDone a).isDone b = false := by
        intro b hb
        have hne : b ≠ a := fun heq => hnot (heq ▸ hb)
        rw [VotingSchedule.isDone_setDone, if_neg hne]
        exact hundone b (List.mem_cons_of_mem a hb)
      obtain ⟨s', actions, later, wait, heq, h⟩ := ih hnodup hrest
      rw [heq]
      refine ⟨s', a :: actions, later, wait, rfl, ?_, ?_, ?_, ?_, ?_, ?_⟩
      · rw [h.steps_eq, List.cons_append]
      · intro b hb
        rcases List.mem_cons.mp hb with hb | hb
        · rw [hb]
          exact not_lt.mp hdue
        · have := h.due b hb
          rwa [VotingSchedule.time_setDone] at this
      · intro b
        rw [h.time, VotingSchedule.time_setDone]
      · intro b
        rw [h.isDone, VotingSchedule.isDone_setDone]
        by_cases hb : b = a
        · simp [hb]
        · simp [hb]
      · rw [h.wait_eq]
        congr 1
        funext b
        exact VotingSchedule.time_setDone s a b
      · intro b hb
        have := h.notDue b hb
        rwa [VotingSchedule.time_setDone] at this

/-- What holds of a schedule in use: the steps of `since` are done. -/
structure InUse (since : List VoteAction) (s : VotingSchedule) : Prop where
  isDone : ∀ a, s.isDone a = decide (a ∈ since)
  times : s.votingStarts ≤ s.fetchMissingVotes ∧ s.fetchMissingVotes ≤ s.votingEnds
    ∧ s.votingEnds ≤ s.fetchMissingSignatures ∧ s.fetchMissingSignatures ≤ s.intervalStarts
  since_prefix : since <+: votingSteps
  not_published : .publishConsensus ∉ since

theorem Fresh.inUse {s : VotingSchedule} (h : Fresh now s) : InUse [] s where
  isDone a := h.isDone a
  times := h.times
  since_prefix := List.nil_prefix
  not_published := List.not_mem_nil

/-- The steps are due in their order. -/
theorem InUse.time_le {since : List VoteAction} {s : VotingSchedule} (h : InUse since s)
    {a b : VoteAction} {before after : List VoteAction} (hsteps : votingSteps = before ++ a :: after)
    (hb : b ∈ a :: after) : s.time a ≤ s.time b := by
  have hpairwise : votingSteps.Pairwise fun a b => s.time a ≤ s.time b := by
    obtain ⟨h₁, h₂, h₃, h₄⟩ := h.times
    simp only [votingSteps, List.pairwise_cons, List.mem_cons, List.not_mem_nil, or_false,
      forall_eq_or_imp, forall_eq, VotingSchedule.time]
    refine ⟨⟨?_, ?_, ?_, ?_⟩, ⟨?_, ?_, ?_⟩, ⟨?_, ?_⟩, ?_, fun _ hmem => hmem.elim, List.Pairwise.nil⟩
    all_goals omega
  rw [hsteps] at hpairwise
  rcases List.mem_cons.mp hb with heq | hafter
  · rw [heq]
  · exact (List.pairwise_cons.mp (List.pairwise_append.mp hpairwise).2.1).1 b hafter

/-- What a call of `dirvote_act` does with a schedule in use. -/
structure ActOk (now : ℤ) (since : List VoteAction) (s : VotingSchedule) (r : ActResult) : Prop where
  bug : r.bug = false
  due : ∀ a ∈ r.actions, s.time a ≤ now
  in_order : since ++ r.actions <+: votingSteps
  /-- Nothing that is left to do is due before the time it returns. -/
  waits : .publishConsensus ∉ r.actions → InUse (since ++ r.actions) r.sched ∧ now < r.next
    ∧ (∀ a, r.sched.isDone a = false → r.next ≤ r.sched.time a)
    ∧ r.sched.intervalStarts = s.intervalStarts
  published : .publishConsensus ∈ r.actions → Fresh now r.sched ∧ r.next = r.sched.votingStarts

theorem InUse.dirvoteActOn {since : List VoteAction} {s : VotingSchedule} (h : InUse since s)
    (now : ℤ) (hoptions : options.Ok) (hlive : ∀ c ∈ live, c.Ok) :
    ∃ r, dirvoteActOn options live now s = some r ∧ ActOk now since s r := by
  obtain ⟨rest, hrest⟩ := h.since_prefix
  have hnodup : (since ++ rest).Nodup := by
    rw [hrest]
    decide
  have hdone : ∀ a ∈ since, s.isDone a = true := by
    intro a ha
    rw [h.isDone, decide_eq_true ha]
  have hundone : ∀ a ∈ rest, s.isDone a = false := by
    intro a ha
    rw [h.isDone, decide_eq_false]
    intro hsince
    exact (List.nodup_append.mp hnodup).2.2 a hsince a ha rfl
  obtain ⟨s', actions, later, wait, heq, hacted⟩ :=
    actUntilWait_undone now (List.nodup_append.mp hnodup).2.1 hundone
  have hsteps : actUntilWait now votingSteps s = (s', actions, wait) := by
    rw [← hrest, actUntilWait_done now rest hdone, heq]
  have hsplit : votingSteps = (since ++ actions) ++ later := by
    rw [← hrest, hacted.steps_eq, List.append_assoc]
  have hprefix : since ++ actions <+: votingSteps := ⟨later, hsplit.symm⟩
  unfold Voting.dirvoteActOn
  rw [hsteps]
  cases hlater : later with
  | cons a later' =>
    rw [hlater] at hsplit
    have hwait : wait = some (s.time a) := by
      rw [hacted.wait_eq, hlater]
      rfl
    rw [hwait]
    have hlast : .publishConsensus ∉ actions := fun hmem =>
      publish_not_mem hsplit (List.mem_append_right since hmem)
    refine ⟨_, rfl, ?_⟩
    refine ⟨rfl, hacted.due, hprefix, fun _ => ⟨⟨?_, ?_, hprefix, ?_⟩, ?_, ?_, ?_⟩, ?_⟩
    · intro b
      rw [hacted.isDone, h.isDone, ← Bool.decide_or, decide_eq_decide, List.mem_append]
    · have hvoting := hacted.time .performVote
      have hfetch := hacted.time .fetchMissingVotes
      have hends := hacted.time .computeConsensuses
      have hsigs := hacted.time .fetchMissingSignatures
      have hstarts := hacted.time .publishConsensus
      unfold VotingSchedule.time at hvoting hfetch hends hsigs hstarts
      dsimp only at hvoting hfetch hends hsigs hstarts ⊢
      have htimes := h.times
      omega
    · intro hmem
      rcases List.mem_append.mp hmem with hmem | hmem
      · exact h.not_published hmem
      · exact hlast hmem
    · refine hacted.notDue a ?_
      rw [hlater]
      rfl
    · intro b hb
      dsimp only at hb ⊢
      rw [hacted.time]
      refine h.time_le hsplit ?_
      have hall : b ∈ (since ++ actions) ++ a :: later' := hsplit ▸ mem_votingSteps b
      rcases List.mem_append.mp hall with hmem | hmem
      · rw [hacted.isDone, h.isDone, ← Bool.decide_or, decide_eq_false_iff_not,
          ← List.mem_append] at hb
        exact absurd hmem hb
      · exact hmem
    · exact hacted.time .publishConsensus
    · intro hmem
      exact absurd hmem hlast
  | nil =>
    have hwait : wait = none := by
      rw [hacted.wait_eq, hlater]
      rfl
    rw [hwait]
    have hmem : .publishConsensus ∈ actions := by
      have hall : VoteAction.publishConsensus ∈ (since ++ actions) ++ later :=
        hsplit ▸ mem_votingSteps _
      rw [hlater, List.append_nil] at hall
      exact (List.mem_append.mp hall).resolve_left h.not_published
    obtain ⟨fresh, hfresh, hok, -⟩ := createVotingSchedule_fresh now hoptions hlive
    dsimp only
    rw [if_pos hmem, hfresh]
    refine ⟨_, rfl, rfl, hacted.due, hprefix, fun hnot => absurd hmem hnot, fun _ => ⟨hok, rfl⟩⟩

/-- Asking for the schedule leaves it alone, or it is made anew. -/
theorem dirauthGetVotingSchedule_cases (now : ℤ) (hoptions : options.Ok) (hlive : ∀ c ∈ live, c.Ok)
    (s : VotingSchedule) : ∃ s', dirauthGetVotingSchedule options live now s = some s'
      ∧ (s' = s ∨ Fresh now s') := by
  unfold dirauthGetVotingSchedule
  split
  · exact ⟨s, rfl, .inl rfl⟩
  · split_ifs
    · obtain ⟨fresh, hfresh, hok, -⟩ := createVotingSchedule_fresh now hoptions hlive
      rw [hfresh]
      exact ⟨_, rfl, .inr ⟨hok.lt_intervalStarts, hok.isDone, hok.times⟩⟩
    · exact ⟨s, rfl, .inl rfl⟩

end Schedules

/-! ## Runs -/

/-- An authority. The steps taken since its schedule was made and the intervals whose consensus it
has published are not in the code. -/
structure Authority where
  sched : VotingSchedule
  /-- The time of the last event. -/
  clock : ℤ
  since : List VoteAction
  published : List ℤ

/-- What happens to the schedule; the live consensus is read at the time. -/
inductive ScheduleEvent where
  | act (now : ℤ) (liveBefore live : Option LiveConsensus)
  | get (now : ℤ) (live : Option LiveConsensus)
  /-- A consensus has arrived or the options have changed. -/
  | recalculate (now : ℤ) (live : Option LiveConsensus)

namespace Authority

/-- One event; `none` where an assertion fails. -/
def step (options : ScheduleOptions) (a : Authority) : ScheduleEvent → Option Authority
  | .act now liveBefore live =>
    (dirvoteAct options liveBefore live now a.sched).map fun (s, r) =>
      let since := if a.sched.createdOnDemand then [] else a.since
      if .publishConsensus ∈ r.actions then
        ⟨r.sched, now, [], a.published ++ [s.intervalStarts]⟩
      else ⟨r.sched, now, since ++ r.actions, a.published⟩
  | .get now live =>
    (dirauthGetVotingSchedule options live now a.sched).map fun s =>
      ⟨s, now, if s = a.sched then a.since else [], a.published⟩
  | .recalculate now live =>
    (createVotingSchedule options live now).map fun s => ⟨s, now, [], a.published⟩

/-- The clock does not run backwards, and a live consensus was parsed. -/
def EventOk (a : Authority) : ScheduleEvent → Prop
  | .act now liveBefore live => a.clock ≤ now ∧ (∀ c ∈ liveBefore, c.Ok) ∧ ∀ c ∈ live, c.Ok
  | .get now live => a.clock ≤ now ∧ ∀ c ∈ live, c.Ok
  | .recalculate now live => a.clock ≤ now ∧ ∀ c ∈ live, c.Ok

/-- A live consensus was parsed. -/
def liveOk (live : Option LiveConsensus) : Bool := live.all fun c => decide c.Ok

instance (a : Authority) : ∀ event, Decidable (a.EventOk event)
  | .act now liveBefore live =>
    decidable_of_iff (a.clock ≤ now ∧ liveOk liveBefore = true ∧ liveOk live = true)
      (by cases liveBefore <;> cases live <;> simp [liveOk, EventOk])
  | .get now live =>
    decidable_of_iff (a.clock ≤ now ∧ liveOk live = true) (by cases live <;> simp [liveOk, EventOk])
  | .recalculate now live =>
    decidable_of_iff (a.clock ≤ now ∧ liveOk live = true) (by cases live <;> simp [liveOk, EventOk])

end Authority

section Runs

variable {options : ScheduleOptions}

/-- The invariant of an authority. -/
structure AuthorityInv (a : Authority) : Prop where
  inUse : InUse a.since a.sched
  increasing : a.published.Pairwise (· < ·)
  published_le : ∀ p ∈ a.published, p ≤ a.clock
  published_lt : ∀ p ∈ a.published, p < a.sched.intervalStarts

/-- A new schedule is for an interval that has not been published. -/
theorem AuthorityInv.fresh {a : Authority} (h : AuthorityInv a) {now : ℤ} {s : VotingSchedule}
    (hclock : a.clock ≤ now) (hfresh : Fresh now s) : AuthorityInv ⟨s, now, [], a.published⟩ where
  inUse := hfresh.inUse
  increasing := h.increasing
  published_le p hp := (h.published_le p hp).trans hclock
  published_lt p hp :=
    (h.published_le p hp).trans_lt (hclock.trans_lt hfresh.lt_intervalStarts)

/-- The schedule `dirvote_act` goes by. -/
theorem AuthorityInv.before {a : Authority} (h : AuthorityInv a) (hoptions : options.Ok) {now : ℤ}
    (hclock : a.clock ≤ now) {liveBefore : Option LiveConsensus} (hlive : ∀ c ∈ liveBefore, c.Ok) :
    ∃ s, scheduleToActOn options liveBefore now a.sched = some s
      ∧ InUse (if a.sched.createdOnDemand then [] else a.since) s
      ∧ ∀ p ∈ a.published, p < s.intervalStarts := by
  unfold scheduleToActOn
  split_ifs
  · obtain ⟨fresh, hfresh, hok, -⟩ := createVotingSchedule_fresh now hoptions hlive
    exact ⟨fresh, hfresh, hok.inUse, (h.fresh hclock hok).published_lt⟩
  · exact ⟨a.sched, rfl, h.inUse, h.published_lt⟩

theorem authorityInv_act {a : Authority} (h : AuthorityInv a) (hoptions : options.Ok) {now : ℤ}
    {liveBefore live : Option LiveConsensus} (hok : a.EventOk (.act now liveBefore live)) :
    ∃ a', a.step options (.act now liveBefore live) = some a' ∧ AuthorityInv a' := by
  obtain ⟨hclock, hbefore, hlive⟩ := hok
  obtain ⟨s, hs, hinUse, hlt⟩ := h.before hoptions hclock hbefore
  obtain ⟨r, hr, hact⟩ := hinUse.dirvoteActOn now hoptions hlive
  have heq : dirvoteAct options liveBefore live now a.sched = some (s, r) := by
    unfold dirvoteAct
    rw [hs, Option.bind_some, hr]
    rfl
  unfold Authority.step
  dsimp only
  rw [heq]
  refine ⟨_, rfl, ?_⟩
  by_cases hpublish : .publishConsensus ∈ r.actions
  · simp only [if_pos hpublish]
    obtain ⟨hfresh, -⟩ := hact.published hpublish
    have hdue : s.intervalStarts ≤ now := hact.due _ hpublish
    have hle : ∀ p ∈ a.published ++ [s.intervalStarts], p ≤ now := by
      intro p hp
      rcases List.mem_append.mp hp with hp | hp
      · exact (h.published_le p hp).trans hclock
      · rw [List.mem_singleton.mp hp]
        exact hdue
    refine ⟨hfresh.inUse, ?_, hle, fun p hp => (hle p hp).trans_lt hfresh.lt_intervalStarts⟩
    refine List.pairwise_append.mpr ⟨h.increasing, List.pairwise_singleton _ _, ?_⟩
    intro p hp q hq
    rw [List.mem_singleton.mp hq]
    exact hlt p hp
  · simp only [if_neg hpublish]
    obtain ⟨hnext, -, -, hstarts⟩ := hact.waits hpublish
    refine ⟨hnext, h.increasing, fun p hp => (h.published_le p hp).trans hclock, ?_⟩
    intro p hp
    dsimp only
    rw [hstarts]
    exact hlt p hp

theorem authorityInv_step {a a' : Authority} (h : AuthorityInv a) (hoptions : options.Ok)
    {event : ScheduleEvent} (hok : a.EventOk event) (hstep : a.step options event = some a') :
    AuthorityInv a' := by
  cases event with
  | act now liveBefore live =>
    obtain ⟨next, hnext, hinv⟩ := authorityInv_act h hoptions hok
    have heq : next = a' := Option.some.inj (hnext.symm.trans hstep)
    exact heq ▸ hinv
  | get now live =>
    obtain ⟨hclock, hlive⟩ := hok
    obtain ⟨s, hs, hcases⟩ := dirauthGetVotingSchedule_cases now hoptions hlive a.sched
    unfold Authority.step at hstep
    dsimp only at hstep
    rw [hs] at hstep
    have heq := Option.some.inj hstep
    rw [← heq]
    by_cases hsame : s = a.sched
    · simp only [if_pos hsame]
      rw [hsame]
      exact ⟨h.inUse, h.increasing, fun p hp => (h.published_le p hp).trans hclock,
        h.published_lt⟩
    · simp only [if_neg hsame]
      exact h.fresh hclock (hcases.resolve_left hsame)
  | recalculate now live =>
    obtain ⟨hclock, hlive⟩ := hok
    obtain ⟨s, hs, hfresh, -⟩ := createVotingSchedule_fresh now hoptions hlive
    unfold Authority.step at hstep
    dsimp only at hstep
    rw [hs] at hstep
    have heq := Option.some.inj hstep
    rw [← heq]
    exact h.fresh hclock hfresh

/-- An authority whose schedule was just made. -/
def Authority.start (now : ℤ) (s : VotingSchedule) : Authority := ⟨s, now, [], []⟩

end Runs

end Dittor.Tor.Voting
