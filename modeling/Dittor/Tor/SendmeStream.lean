import Dittor.Tor.SendmeWindow

/-!
# The windows of the streams

What an end does to the windows of its streams: a DATA cell takes one off the window of its stream,
a SENDME puts 50 back. Unlike on the circuit, the receiver may wait with a SENDME until its outbuf
is less full and then send several (`StreamAcks`).
-/

namespace Dittor.Tor.Sendme

open Dittor.Lib

/-- The windows of the stream with an id; those a stream starts with if there is none. -/
def Edge.windows (e : Edge) (streamId : UInt16) : Stream :=
  (e.streams streamId).getD ⟨streamwindowStart, streamwindowStart⟩

/-! ## The cells of a list -/

/-- The tags of the DATA cells. -/
def dataTags (l : List Cell) : List (List UInt8) :=
  l.filterMap fun c =>
    match c.msg with
    | .data _ => some c.tag
    | _ => none

/-- The payloads of the SENDMEs of the circuit. -/
def circuitSendmes (l : List Cell) : List (List UInt8) :=
  l.filterMap fun c =>
    match c.msg with
    | .sendme streamId body => if streamId = 0 then some body else none
    | _ => none

/-- How many DATA cells there are for a stream. -/
def dataCount (streamId : UInt16) (l : List Cell) : ℕ :=
  l.countP fun c =>
    match c.msg with
    | .data s => s = streamId
    | _ => false

/-- How many SENDMEs there are for a stream. -/
def sendmeCount (streamId : UInt16) (l : List Cell) : ℕ :=
  l.countP fun c =>
    match c.msg with
    | .sendme s _ => s = streamId
    | _ => false

section Lists

variable {l l' : List Cell} {streamId s : UInt16}

theorem dataTags_append : dataTags (l ++ l') = dataTags l ++ dataTags l' := List.filterMap_append

theorem circuitSendmes_append : circuitSendmes (l ++ l') = circuitSendmes l ++ circuitSendmes l' :=
  List.filterMap_append

theorem dataCount_append : dataCount s (l ++ l') = dataCount s l + dataCount s l' :=
  List.countP_append

theorem sendmeCount_append : sendmeCount s (l ++ l') = sendmeCount s l + sendmeCount s l' :=
  List.countP_append

/-- SENDMEs of one stream, and nothing else. -/
def AcksOf (streamId : UInt16) (l : List Cell) : Prop := ∀ c ∈ l, c.msg = .sendme streamId []

theorem AcksOf.dataTags (h : AcksOf streamId l) : dataTags l = [] := by
  refine List.filterMap_eq_nil_iff.mpr ?_
  intro c hc
  rw [h c hc]

theorem AcksOf.dataCount (h : AcksOf streamId l) : dataCount s l = 0 := by
  refine List.countP_eq_zero.mpr ?_
  intro c hc
  rw [h c hc]
  exact Bool.false_ne_true

theorem AcksOf.circuitSendmes (h : AcksOf streamId l) (hne : streamId ≠ 0) :
    circuitSendmes l = [] := by
  refine List.filterMap_eq_nil_iff.mpr ?_
  intro c hc
  rw [h c hc]
  exact if_neg hne

theorem AcksOf.sendmeCount (h : AcksOf streamId l) :
    sendmeCount s l = if s = streamId then l.length else 0 := by
  split_ifs with heq
  · refine List.countP_eq_length.mpr ?_
    intro c hc
    rw [h c hc]
    exact decide_eq_true heq.symm
  · refine List.countP_eq_zero.mpr ?_
    intro c hc
    rw [h c hc]
    simpa using fun h' => heq h'.symm

end Lists

/-! ## Acknowledging -/

/-- An end sends SENDMEs for a stream, each of which puts 50 on its own window. -/
structure StreamAcks (streamId : UInt16) (e e' : Edge) (cells : List Cell) : Prop where
  circuit : SameCircuit e e'
  acks : AcksOf streamId cells
  isSome : ∀ s, (e'.streams s).isSome = (e.streams s).isSome
  packageWindow : ∀ s, (e'.windows s).packageWindow = (e.windows s).packageWindow
  deliverWindow : ∀ s, (e'.windows s).deliverWindow
    = (e.windows s).deliverWindow + 50 * sendmeCount s cells
  deliver_le : (e.windows streamId).deliverWindow ≤ 500 → (e'.windows streamId).deliverWindow ≤ 500
  controlled : e.ccontrol.isSome → cells = [] ∧ e'.streams = e.streams
  no_stream : e.streams streamId = none → cells = []

section Acks

variable {cfg : EdgeConfig} {streamId : UInt16} {e : Edge}

theorem StreamAcks.nothing (streamId : UInt16) (e : Edge) : StreamAcks streamId e e [] where
  circuit := SameCircuit.refl e
  acks := fun _ h => (nomatch h)
  isSome _ := rfl
  packageWindow _ := rfl
  deliverWindow s := by
    show _ = _ + 50 * ((0 : ℕ) : ℤ)
    omega
  deliver_le h := h
  controlled _ := ⟨rfl, rfl⟩
  no_stream _ := rfl

theorem windows_setStream (stream : Stream) (s : UInt16) :
    (e.setStream streamId stream).windows s = if s = streamId then stream else e.windows s := by
  unfold Edge.windows Edge.setStream
  dsimp only
  by_cases h : s = streamId
  · rw [if_pos h, h, Function.update_self, Option.getD_some]
  · rw [if_neg h, Function.update_of_ne h]

theorem isSome_setStream {stream : Stream} (hstream : (e.streams streamId).isSome) (s : UInt16) :
    ((e.setStream streamId stream).streams s).isSome = (e.streams s).isSome := by
  unfold Edge.setStream
  dsimp only
  by_cases h : s = streamId
  · rw [h, Function.update_self, hstream]
    rfl
  · rw [Function.update_of_ne h]

/-- The loop sends as many SENDMEs as it adds 50 to the window. -/
theorem streamConsiderSendingLoop_spec (cfg : EdgeConfig) (streamId : UInt16) :
    ∀ (fuel : ℕ) (stream : Stream) (e : Edge), ∃ e' cells deliverWindow,
      Edge.streamConsiderSendingLoop cfg streamId fuel stream e
          = (e'.setStream streamId { stream with deliverWindow := deliverWindow }, cells)
        ∧ SameCircuit e e' ∧ e'.streams = e.streams ∧ AcksOf streamId cells
        ∧ deliverWindow = stream.deliverWindow + 50 * cells.length
        ∧ (stream.deliverWindow ≤ 500 → deliverWindow ≤ 500)
        ∧ (500 < stream.deliverWindow + fuel → 450 < deliverWindow) := by
  intro fuel
  induction fuel with
  | zero =>
    intro stream e
    refine ⟨e, [], stream.deliverWindow, rfl, SameCircuit.refl e, rfl, fun _ h => (nomatch h), ?_,
      id, ?_⟩
    · simp
    · intro h
      simp only [Nat.cast_zero] at h
      omega
  | succ fuel ih =>
    intro stream e
    unfold Edge.streamConsiderSendingLoop
    by_cases hcond : stream.deliverWindow ≤ streamwindowStart - streamwindowIncrement
    · rw [if_pos hcond]
      unfold streamwindowStart streamwindowIncrement at hcond
      obtain ⟨e', cells, deliverWindow, hloop, hsame, hstreams, hacks, hcount, hle, hmore⟩ :=
        ih { stream with deliverWindow := stream.deliverWindow + streamwindowIncrement }
          (e.originate cfg (.sendme streamId [])).1
      unfold streamwindowIncrement at hloop hcount hle hmore
      refine ⟨e', (e.originate cfg (.sendme streamId [])).2 :: cells, deliverWindow, ?_, (sameCircuit_originate _).trans hsame, hstreams, ?_, ?_, ?_,
        ?_⟩
      · dsimp only
        unfold streamwindowIncrement
        rw [hloop]
      · exact List.forall_mem_cons.mpr ⟨rfl, hacks⟩
      · rw [List.length_cons]
        push_cast
        dsimp only at hcount
        omega
      · intro _
        exact hle (by dsimp only; omega)
      · intro h
        refine hmore ?_
        dsimp only
        push_cast at h
        omega
    · rw [if_neg hcond]
      unfold streamwindowStart streamwindowIncrement at hcond
      refine ⟨e, [], stream.deliverWindow, rfl, SameCircuit.refl e, rfl, fun _ h => (nomatch h), ?_,
        id, fun _ => by omega⟩
      simp

/-- `sendme_connection_edge_consider_sending`. -/
theorem streamConsiderSending_spec (cfg : EdgeConfig) (streamId : UInt16) (e : Edge) :
    StreamAcks streamId e (e.streamConsiderSending cfg streamId).1
      (e.streamConsiderSending cfg streamId).2 := by
  unfold Edge.streamConsiderSending
  split
  · exact StreamAcks.nothing streamId e
  · rename_i stream hstream
    split_ifs with hskip
    · exact StreamAcks.nothing streamId e
    · obtain ⟨e', cells, deliverWindow, hloop, hsame, hstreams, hacks, hcount, hle, -⟩ :=
        streamConsiderSendingLoop_spec cfg streamId
          (streamwindowStart + 1 - stream.deliverWindow).toNat stream e
      have hwindows : e.windows streamId = stream := by
        unfold Edge.windows
        rw [hstream, Option.getD_some]
      have hsame_windows : ∀ s, e'.windows s = e.windows s := by
        intro s
        unfold Edge.windows
        rw [hstreams]
      have hsome : (e'.streams streamId).isSome := by
        rw [hstreams, hstream]
        rfl
      rw [hloop]
      dsimp only
      refine ⟨hsame.trans ⟨rfl, rfl, rfl, rfl, rfl, rfl⟩, hacks, ?_, ?_, ?_, ?_, ?_, ?_⟩
      · intro s
        rw [isSome_setStream hsome, hstreams]
      · intro s
        rw [windows_setStream, hsame_windows]
        split_ifs with hs
        · rw [hs, hwindows]
        · rfl
      · intro s
        rw [windows_setStream, hsame_windows, hacks.sendmeCount]
        split_ifs with hs
        · rw [hs, hwindows]
          exact hcount
        · simp
      · intro h
        rw [windows_setStream, if_pos rfl]
        rw [hwindows] at h
        exact hle h
      · intro hcontrolled
        exact absurd (.inl hcontrolled) hskip
      · intro hnone
        rw [hnone] at hstream
        cases hstream

/-- An end with nothing to acknowledge has a window that is nearly full. -/
theorem deliverWindow_of_no_acks (hcc : e.ccontrol = none) (hstatus : e.status = .open)
    (hsome : (e.streams streamId).isSome)
    (hacks : (e.streamConsiderSending cfg streamId).2 = []) :
    450 < (e.windows streamId).deliverWindow := by
  obtain ⟨stream, hstream⟩ := Option.isSome_iff_exists.mp hsome
  have hwindows : e.windows streamId = stream := by
    unfold Edge.windows
    rw [hstream, Option.getD_some]
  obtain ⟨e', cells, deliverWindow, hloop, -, -, -, hcount, -, hmore⟩ :=
    streamConsiderSendingLoop_spec cfg streamId
      (streamwindowStart + 1 - stream.deliverWindow).toNat stream e
  unfold Edge.streamConsiderSending at hacks
  rw [hstream] at hacks
  dsimp only at hacks
  rw [if_neg (by simp [hcc, hstatus]), hloop] at hacks
  have hempty : cells = [] := hacks
  rw [hempty, List.length_nil] at hcount
  rw [hwindows]
  have := hmore (by unfold streamwindowStart; omega)
  omega

/-- What a DATA cell takes off the window of its stream. -/
def Edge.dataReceived (e : Edge) (streamId : UInt16) : Edge :=
  match (if streamId = 0 then none else e.streams streamId) with
  | none => e
  | some stream =>
    e.setStream streamId
      (if e.ccontrol.isSome then stream
        else { stream with deliverWindow := stream.deliverWindow - 1 })

theorem handleData_spec (mayAck : Bool)
    (hroom : e.ccontrol.isSome = false → 0 < (e.windows streamId).deliverWindow) :
    StreamAcks streamId (e.dataReceived streamId) (e.handleData cfg mayAck streamId).1
      (e.handleData cfg mayAck streamId).2 := by
  unfold Edge.handleData Edge.dataReceived
  cases hstream : (if streamId = 0 then none else e.streams streamId) with
  | none => exact StreamAcks.nothing streamId e
  | some stream =>
    have hsome : e.streams streamId = some stream := by
      split_ifs at hstream
      exact hstream
    have hwindows : e.windows streamId = stream := by
      unfold Edge.windows
      rw [hsome, Option.getD_some]
    dsimp only
    obtain ⟨next, hnext⟩ : ∃ next, next = if e.ccontrol.isSome then stream
        else { stream with deliverWindow := stream.deliverWindow - 1 } := ⟨_, rfl⟩
    rw [← hnext]
    have hopen : ¬((e.setStream streamId next).ccontrol.isNone ∧ next.deliverWindow < 0) := by
      intro ⟨hnone, hneg⟩
      have hcontrol : e.ccontrol.isSome = false := by
        rw [Option.isSome_eq_false_iff]
        exact hnone
      have hpos := hroom hcontrol
      rw [hwindows] at hpos
      rw [hnext, hcontrol, if_neg Bool.false_ne_true] at hneg
      dsimp only at hneg
      omega
    rw [if_neg hopen]
    split_ifs
    · exact streamConsiderSending_spec cfg streamId _
    · exact StreamAcks.nothing streamId _

end Acks

end Dittor.Tor.Sendme
