import Dittor.Lib.Run
import Dittor.Tor.SendmeStream

/-!
# Two ends of a circuit

A client and the hop its streams exit from, with a FIFO channel in each direction. Data to package,
outbufs that are flushed, cells of other kinds and the delivery of the oldest cell of a channel come
in any order, and with them any readings of the clock and of the channel.

`NetInv` refines each direction to a flow of `Lib.AckWindow`. In every state that is reached, neither
end has closed the circuit, and the windows account for what is on its way
(`honest_circuit_never_closed`); when nothing is on its way, both ends may send, if their windows are
wide enough (`window_pos_of_quiet`).
-/

namespace Dittor.Tor.Sendme

open Dittor.Lib

/-- Both ends, and the cells on their way from each of them. -/
structure Net where
  edge : Bool → Edge
  chan : Bool → List Cell

/-- The events of the system. -/
inductive NetEvent where
  /-- A stream has data to package. -/
  | package (b : Bool) (streamId : UInt16) (nowUsec : UInt64)
  | sendOther (b : Bool)
  /-- The outbuf of a stream was flushed. -/
  | flushed (b : Bool) (streamId : UInt16)
  /-- The oldest cell from the other end reaches `b`. -/
  | deliver (b : Bool) (mayAck : Bool) (reading : CcReading)

namespace Net

/-- An end changes and sends. -/
def put (net : Net) (b : Bool) (r : Edge × List Cell) : Net where
  edge := Function.update net.edge b r.1
  chan := Function.update net.chan b (net.chan b ++ r.2)

/-- The oldest cell of a channel is taken off it. -/
def take (net : Net) (b : Bool) (rest : List Cell) : Net :=
  { net with chan := Function.update net.chan b rest }

/-- One event. -/
def step (cfg : Bool → EdgeConfig) (net : Net) : NetEvent → Option Net
  | .package b streamId nowUsec =>
    some (net.put b ((net.edge b).packageRawInbuf (cfg b) nowUsec streamId))
  | .sendOther b => some (net.put b ((net.edge b).sendOther (cfg b)))
  | .flushed b streamId => some (net.put b ((net.edge b).streamConsiderSending (cfg b) streamId))
  | .deliver b mayAck reading =>
    match net.chan (!b) with
    | [] => none
    | cell :: rest =>
      some ((net.take (!b) rest).put b
        ((net.edge b).receiveRelayCell (cfg b) mayAck reading cell))

end Net

/-- How a circuit was set up: what the consensus gives both ends as `circwindow`, the increment that
was negotiated if congestion control was, and for each end the consensus it reads and the path it
takes the circuit for. -/
structure CircuitSetup where
  circwindow : ℤ
  negotiated : Option UInt8
  consensus : Bool → String → Option ℤ
  path : Bool → CcPath
  /-- The streams that are open. -/
  streams : UInt16 → Bool

namespace CircuitSetup

/-- The number of cells a SENDME acknowledges. -/
def inc (s : CircuitSetup) : ℕ :=
  match s.negotiated with
  | none => 100
  | some n => n.toNat

/-- One end of a new circuit. -/
def newEdge (s : CircuitSetup) (b : Bool) : Edge where
  packageWindow := s.circwindow
  deliverWindow := circwindowStart
  ccontrol := s.negotiated.map fun n => CongestionControl.new (s.consensus b) n (s.path b)
  sendmeLastDigests := []
  sendmeTag := []
  originated := 0
  streams streamId :=
    if s.streams streamId then some ⟨streamwindowStart, streamwindowStart⟩ else none
  status := .open
  assertFailed := false

/-- A new circuit. -/
def net (s : CircuitSetup) : Net := ⟨s.newEdge, fun _ => []⟩

end CircuitSetup

/-- What the two ends have in common: the encryption, the SENDME versions, and numbers for which the
cells the sender expects a SENDME for are those the receiver sends one for. -/
structure Agreed (s : CircuitSetup) (cfg : Bool → EdgeConfig) : Prop where
  crypto : (cfg true).crypto = (cfg false).crypto
  version : ∀ b, versionPermitted (cfg b) (emittedVersion (cfg !b)) = true
  circwindow_mem : 100 ≤ s.circwindow ∧ s.circwindow ≤ 1000
  circwindow_dvd : s.negotiated = none → 100 ∣ s.circwindow
  two_le_inc : 2 ≤ s.inc
  no_stream_zero : s.streams 0 = false

/-- An end with default parameters. The cells it originates have the tags `0 0 …`, `1 1 …`, …. -/
def plainConfig (isOrigin : Bool) : EdgeConfig where
  isOrigin := isOrigin
  usedLegacyCircuitHandshake := false
  emitMinVersion := 1
  acceptMinVersion := 1
  globals := .ofConsensus fun _ => none
  crypto := .tor1
  tag n := List.replicate 20 (.ofNat n)
  length_tag _ := List.length_replicate

/-- A circuit with one stream, under a consensus without parameters. -/
def plainSetup (negotiated : Option UInt8) : CircuitSetup where
  circwindow := 1000
  negotiated := negotiated
  consensus _ _ := none
  path _ := .exit
  streams streamId := streamId = 1

theorem agreed_plain {negotiated : Option UInt8} (h : 2 ≤ (plainSetup negotiated).inc) :
    Agreed (plainSetup negotiated) plainConfig where
  crypto := rfl
  version b := by
    cases b with
    | true => decide
    | false => decide
  circwindow_mem := by
    show (100 : ℤ) ≤ 1000 ∧ (1000 : ℤ) ≤ 1000
    decide
  circwindow_dvd _ := by
    show (100 : ℤ) ∣ 1000
    decide
  two_le_inc := h
  no_stream_zero := rfl

/-! ## The invariant -/

/-- What holds of one end and of the cells on their way from it; `out` is the flow of its DATA cells
and `into` the flow of those it receives. -/
structure SideInv (cfg : EdgeConfig) (s : CircuitSetup) (out into : TagFlow s.inc) (e : Edge)
    (chan : List Cell) : Prop where
  status : e.status = .open
  assertOk : e.assertFailed = false
  sender : Sender cfg s.circwindow out e
  receiver : Receiver into e
  data : dataTags chan = out.inFlight
  acks : circuitSendmes chan = into.ackInFlight.map (honestPayload cfg)
  controlled : e.ccontrol.isSome = s.negotiated.isSome
  streams : ∀ streamId, (e.streams streamId).isSome = s.streams streamId

/-- What holds of the windows of a stream in one direction: `own` at the sender and `other` at the
receiver, with the DATA cells on their way, the SENDMEs on their way back, and the SENDMEs on their
way from the sender. -/
def StreamOk (controlled : Bool) (own other : Stream) (data acks ownAcks : ℕ) : Prop :=
  if controlled then own = ⟨500, 500⟩ ∧ ownAcks = 0
  else 500 - own.packageWindow = data + (500 - other.deliverWindow) + 50 * acks
    ∧ 0 ≤ own.packageWindow ∧ own.deliverWindow ≤ 500

/-- The windows of a stream at two ends, with the channels between them. -/
def StreamInv (s : CircuitSetup) (net : Net) (b : Bool) (streamId : UInt16) : Prop :=
  StreamOk s.negotiated.isSome ((net.edge b).windows streamId) ((net.edge !b).windows streamId)
    (dataCount streamId (net.chan b)) (sendmeCount streamId (net.chan !b))
    (sendmeCount streamId (net.chan b))

/-- The invariant of the system. -/
structure NetInv (cfg : Bool → EdgeConfig) (s : CircuitSetup) (f : Bool → TagFlow s.inc)
    (net : Net) : Prop where
  side : ∀ b, SideInv (cfg b) s (f b) (f !b) (net.edge b) (net.chan b)
  stream : ∀ b streamId, streamId ≠ 0 → StreamInv s net b streamId

section Rebuild

variable {cfg : Bool → EdgeConfig} {s : CircuitSetup} {net net' : Net}

@[simp] theorem put_edge_self (b : Bool) (r : Edge × List Cell) : (net.put b r).edge b = r.1 :=
  Function.update_self _ _ _

@[simp] theorem put_edge_not (b : Bool) (r : Edge × List Cell) :
    (net.put b r).edge (!b) = net.edge (!b) :=
  Function.update_of_ne (by cases b <;> decide) _ _

@[simp] theorem put_chan_self (b : Bool) (r : Edge × List Cell) :
    (net.put b r).chan b = net.chan b ++ r.2 :=
  Function.update_self _ _ _

@[simp] theorem put_chan_not (b : Bool) (r : Edge × List Cell) :
    (net.put b r).chan (!b) = net.chan (!b) :=
  Function.update_of_ne (by cases b <;> decide) _ _

@[simp] theorem take_edge (b c : Bool) (rest : List Cell) : (net.take b rest).edge c = net.edge c :=
  rfl

@[simp] theorem take_chan_self (b : Bool) (rest : List Cell) : (net.take b rest).chan b = rest :=
  Function.update_self _ _ _

@[simp] theorem take_not_chan (b : Bool) (rest : List Cell) :
    (net.take (!b) rest).chan b = net.chan b :=
  Function.update_of_ne (by cases b <;> decide) _ _

/-- The invariant, from one end and the other. -/
theorem exists_netInv (b : Bool) (out into : TagFlow s.inc)
    (hself : SideInv (cfg b) s out into (net'.edge b) (net'.chan b))
    (hother : SideInv (cfg !b) s into out (net'.edge !b) (net'.chan !b))
    (hstream : ∀ streamId, streamId ≠ 0 → StreamInv s net' b streamId)
    (hback : ∀ streamId, streamId ≠ 0 → StreamInv s net' (!b) streamId) :
    ∃ f, NetInv cfg s f net' := by
  refine ⟨fun c => if c = b then out else into, ?_, ?_⟩
  · intro c
    by_cases hc : c = b
    · have hne : (!b) ≠ b := by cases b <;> decide
      subst hc
      rw [if_pos rfl, if_neg hne]
      exact hself
    · have hnot : c = !b := by
        cases b <;> cases c <;> simp_all
      subst hnot
      rw [if_neg hc, if_pos (Bool.not_not b)]
      exact hother
  · intro c streamId hne
    by_cases hc : c = b
    · rw [hc]
      exact hstream streamId hne
    · have hnot : c = !b := by
        cases b <;> cases c <;> simp_all
      rw [hnot]
      exact hback streamId hne

end Rebuild

/-! ## One event -/

section Step

variable {cfg : Bool → EdgeConfig} {s : CircuitSetup} {net : Net} {f : Bool → TagFlow s.inc}

theorem Agreed.setup (h : Agreed s cfg) : Setup s.circwindow s.inc := by
  refine ⟨h.two_le_inc, ?_, h.circwindow_mem.2⟩
  unfold CircuitSetup.inc
  split
  · omega
  · rename_i n _
    have := UInt8.toNat_lt n
    omega

theorem put_nothing (b : Bool) : net.put b (net.edge b, []) = net := by
  unfold Net.put
  rw [Function.update_eq_self, List.append_nil, Function.update_eq_self]

/-- The other side sees nothing of what an end does to itself. -/
theorem SideInv.congr {cfg : EdgeConfig} {out out' into into' : TagFlow s.inc} {e : Edge}
    {chan : List Cell} (h : SideInv cfg s out into e chan) (hout : out' = out)
    (hreceived : into'.received = into.received) (hacks : into'.ackInFlight = into.ackInFlight) :
    SideInv cfg s out' into' e chan := by
  subst hout
  refine { h with receiver := ?_, acks := ?_ }
  · have := h.receiver
    unfold Receiver at this ⊢
    rw [hreceived]
    exact this
  · rw [hacks]
    exact h.acks

/-- An end sends cells that are neither DATA nor SENDMEs of the circuit, and its windows of the
circuit stay as they are. -/
theorem SideInv.append {cfg : EdgeConfig} {out into : TagFlow s.inc} {e e' : Edge}
    {chan cells : List Cell} (h : SideInv cfg s out into e chan) (hsame : SameCircuit e e')
    (hstreams : ∀ streamId, (e'.streams streamId).isSome = (e.streams streamId).isSome)
    (hdata : dataTags cells = []) (hacks : circuitSendmes cells = []) :
    SideInv cfg s out into e' (chan ++ cells) where
  status := hsame.status.trans h.status
  assertOk := hsame.assertFailed.trans h.assertOk
  sender := hsame.sender h.sender
  receiver := hsame.receiver h.receiver
  data := by rw [dataTags_append, hdata, List.append_nil, h.data]
  acks := by rw [circuitSendmes_append, hacks, List.append_nil, h.acks]
  controlled := by rw [hsame.ccontrol, h.controlled]
  streams streamId := (hstreams streamId).trans (h.streams streamId)

theorem noteStreamDataPackaged_spec {e : Edge} {streamId : UInt16} {stream : Stream}
    (hstream : e.streams streamId = some stream) :
    SameCircuit e (e.noteStreamDataPackaged streamId stream)
      ∧ (∀ t, ((e.noteStreamDataPackaged streamId stream).streams t).isSome
        = (e.streams t).isSome)
      ∧ (e.ccontrol.isSome = true → (e.noteStreamDataPackaged streamId stream) = e)
      ∧ (e.ccontrol.isSome = false → ∀ t, (e.noteStreamDataPackaged streamId stream).windows t
        = if t = streamId then { stream with packageWindow := stream.packageWindow - 1 }
          else e.windows t) := by
  unfold Edge.noteStreamDataPackaged
  have hsome : (e.streams streamId).isSome := by
    rw [hstream]
    rfl
  split_ifs with hcontrol
  · exact ⟨SameCircuit.refl e, fun _ => rfl, fun _ => rfl, fun h => absurd hcontrol (by simp [h])⟩
  · exact ⟨⟨rfl, rfl, rfl, rfl, rfl, rfl⟩, isSome_setStream hsome, fun h => absurd h hcontrol,
      fun _ t => windows_setStream _ t⟩

theorem netInv_package (hagreed : Agreed s cfg) (h : NetInv cfg s f net) (b : Bool)
    (streamId : UInt16) (nowUsec : UInt64) :
    ∃ f', NetInv cfg s f'
      (net.put b ((net.edge b).packageRawInbuf (cfg b) nowUsec streamId)) := by
  have hb := h.side b
  have hnot := h.side (!b)
  rw [Bool.not_not] at hnot
  rcases packageRawInbuf_cases hagreed.setup hb.sender hb.status nowUsec streamId with hnone | hsent
  · rw [hnone, put_nothing]
    exact ⟨f, h⟩
  obtain ⟨stream, e₁, hstream, hpos, hsent, hresult⟩ := hsent
  have hstream₁ : e₁.streams streamId = some stream := by rw [hsent.streams, hstream]
  obtain ⟨hsame, hisSome, hkeep, hwindows⟩ := noteStreamDataPackaged_spec hstream₁
  have hown : (net.edge b).windows streamId = stream := by
    unfold Edge.windows
    rw [hstream, Option.getD_some]
  have hsame_windows : ∀ t, e₁.windows t = (net.edge b).windows t := by
    intro t
    unfold Edge.windows
    rw [hsent.streams]
  rw [hresult]
  refine exists_netInv b ((f b).send ((cfg b).tag (net.edge b).originated)) (f !b) ?_ ?_ ?_ ?_
  · rw [put_edge_self, put_chan_self]
    exact
      { status := hsame.status.trans hsent.status
        assertOk := hsame.assertFailed.trans (hsent.assertFailed.trans hb.assertOk)
        sender := hsame.sender hsent.sender
        receiver := by
          show _ = _
          rw [hsame.deliverWindow, hsent.deliverWindow]
          exact hb.receiver
        data := by
          rw [dataTags_append, hb.data, Flow.inFlight_send]
          rfl
        acks := by
          rw [circuitSendmes_append, hb.acks]
          exact List.append_nil _
        controlled := by rw [hsame.ccontrol, hsent.isSome, hb.controlled]
        streams := by
          intro t
          rw [hisSome, hsent.streams]
          exact hb.streams t }
  · rw [put_edge_not, put_chan_not]
    exact hnot.congr rfl rfl (Flow.ackInFlight_send _)
  · intro t hne
    have hinv := h.stream b t hne
    unfold StreamInv StreamOk at hinv ⊢
    rw [put_edge_self, put_edge_not, put_chan_self, put_chan_not, dataCount_append,
      sendmeCount_append]
    have hsendmes : sendmeCount t
        [(⟨.data streamId, (cfg b).tag (net.edge b).originated⟩ : Cell)] = 0 := rfl
    rw [hsendmes, Nat.add_zero]
    by_cases hcontrol : s.negotiated.isSome = true
    · rw [if_pos hcontrol] at hinv ⊢
      rw [hkeep (by rw [hsent.isSome, hb.controlled, hcontrol]), hsame_windows]
      exact hinv
    · rw [if_neg hcontrol] at hinv ⊢
      rw [hwindows (by rw [hsent.isSome, hb.controlled]; simpa using hcontrol), hsame_windows]
      by_cases ht : t = streamId
      · have hdata : dataCount t
            [(⟨.data streamId, (cfg b).tag (net.edge b).originated⟩ : Cell)] = 1 := by
          rw [ht]
          simp [dataCount]
        rw [if_pos ht, hdata]
        rw [ht, hown] at hinv
        rw [ht]
        dsimp only
        push_cast
        omega
      · have hdata : dataCount t
            [(⟨.data streamId, (cfg b).tag (net.edge b).originated⟩ : Cell)] = 0 := by
          simp [dataCount, Ne.symm ht]
        rw [if_neg ht, hdata]
        exact hinv
  · intro t hne
    have hinv := h.stream (!b) t hne
    unfold StreamInv StreamOk at hinv ⊢
    rw [Bool.not_not] at hinv ⊢
    rw [put_edge_self, put_edge_not, put_chan_self, put_chan_not, sendmeCount_append]
    have hsendmes : sendmeCount t
        [(⟨.data streamId, (cfg b).tag (net.edge b).originated⟩ : Cell)] = 0 := rfl
    rw [hsendmes, Nat.add_zero]
    by_cases hcontrol : s.negotiated.isSome = true
    · rw [if_pos hcontrol] at hinv ⊢
      exact hinv
    · rw [if_neg hcontrol] at hinv ⊢
      rw [hwindows (by rw [hsent.isSome, hb.controlled]; simpa using hcontrol), hsame_windows]
      by_cases ht : t = streamId
      · rw [if_pos ht]
        rw [ht, hown] at hinv
        rw [ht]
        exact hinv
      · rw [if_neg ht]
        exact hinv

/-- SENDMEs for a stream are sent. -/
theorem netInv_streamAcks (hagreed : Agreed s cfg) (h : NetInv cfg s f net) {b : Bool}
    {streamId : UInt16} {e' : Edge} {cells : List Cell}
    (hacks : StreamAcks streamId (net.edge b) e' cells) :
    ∃ f', NetInv cfg s f' (net.put b (e', cells)) := by
  have hb := h.side b
  have hnot := h.side (!b)
  rw [Bool.not_not] at hnot
  have hsendmes : circuitSendmes cells = [] := by
    by_cases hzero : streamId = 0
    · have hnone : (net.edge b).streams streamId = none := by
        have := hb.streams 0
        rw [hagreed.no_stream_zero, Option.isSome_eq_false_iff, Option.isNone_iff_eq_none] at this
        rw [hzero, this]
      rw [hacks.no_stream hnone]
      rfl
    · exact hacks.acks.circuitSendmes hzero
  refine exists_netInv b (f b) (f !b) ?_ ?_ ?_ ?_
  · rw [put_edge_self, put_chan_self]
    exact hb.append hacks.circuit hacks.isSome hacks.acks.dataTags hsendmes
  · rw [put_edge_not, put_chan_not]
    exact hnot
  · intro t hne
    have hinv := h.stream b t hne
    unfold StreamInv StreamOk at hinv ⊢
    rw [put_edge_self, put_edge_not, put_chan_self, put_chan_not, dataCount_append,
      sendmeCount_append, hacks.acks.dataCount, Nat.add_zero]
    by_cases hcontrol : s.negotiated.isSome = true
    · rw [if_pos hcontrol] at hinv ⊢
      obtain ⟨hcells, hstreams⟩ := hacks.controlled (by rw [hb.controlled, hcontrol])
      unfold Edge.windows at hinv ⊢
      rw [hstreams, hcells]
      exact hinv
    · rw [if_neg hcontrol] at hinv ⊢
      rw [hacks.packageWindow]
      refine ⟨hinv.1, hinv.2.1, ?_⟩
      by_cases ht : t = streamId
      · rw [ht] at hinv ⊢
        exact hacks.deliver_le hinv.2.2
      · have := hacks.deliverWindow t
        rw [hacks.acks.sendmeCount, if_neg ht] at this
        show (e'.windows t).deliverWindow ≤ 500
        omega
  · intro t hne
    have hinv := h.stream (!b) t hne
    unfold StreamInv StreamOk at hinv ⊢
    rw [Bool.not_not] at hinv ⊢
    rw [put_edge_self, put_edge_not, put_chan_self, put_chan_not, sendmeCount_append]
    by_cases hcontrol : s.negotiated.isSome = true
    · rw [if_pos hcontrol] at hinv ⊢
      exact hinv
    · rw [if_neg hcontrol] at hinv ⊢
      have := hacks.deliverWindow t
      push_cast
      omega

theorem netInv_flushed (hagreed : Agreed s cfg) (h : NetInv cfg s f net) (b : Bool)
    (streamId : UInt16) :
    ∃ f', NetInv cfg s f'
      (net.put b ((net.edge b).streamConsiderSending (cfg b) streamId)) :=
  netInv_streamAcks hagreed h (streamConsiderSending_spec (cfg b) streamId (net.edge b))

theorem netInv_sendOther (h : NetInv cfg s f net) (b : Bool) :
    ∃ f', NetInv cfg s f' (net.put b ((net.edge b).sendOther (cfg b))) := by
  have hb := h.side b
  have hnot := h.side (!b)
  rw [Bool.not_not] at hnot
  have hresult : (net.edge b).sendOther (cfg b)
      = (((net.edge b).originate (cfg b) .other).1,
        [⟨.other, (cfg b).tag (net.edge b).originated⟩]) :=
    if_neg (not_not_intro hb.status)
  rw [hresult]
  refine exists_netInv b (f b) (f !b) ?_ ?_ ?_ ?_
  · rw [put_edge_self, put_chan_self]
    exact hb.append (sameCircuit_originate .other) (fun _ => rfl) rfl rfl
  · rw [put_edge_not, put_chan_not]
    exact hnot
  · intro t hne
    have hinv := h.stream b t hne
    unfold StreamInv at hinv ⊢
    rw [put_edge_self, put_edge_not, put_chan_self, put_chan_not, dataCount_append,
      sendmeCount_append]
    exact hinv
  · intro t hne
    have hinv := h.stream (!b) t hne
    unfold StreamInv at hinv ⊢
    rw [Bool.not_not] at hinv ⊢
    rw [put_edge_self, put_edge_not, put_chan_self, put_chan_not, sendmeCount_append]
    exact hinv

/-- What does not change when the oldest cell is taken off the channel from `b`. -/
theorem SideInv.tail {cfg : EdgeConfig} {out into out' into' : TagFlow s.inc} {e : Edge}
    {cell : Cell} {rest : List Cell} (h : SideInv cfg s out into e (cell :: rest))
    (hsender : Sender cfg s.circwindow out' e) (hreceived : into'.received = into.received)
    (hdata : dataTags rest = out'.inFlight)
    (hacks : circuitSendmes rest = into'.ackInFlight.map (honestPayload cfg)) :
    SideInv cfg s out' into' e rest where
  status := h.status
  assertOk := h.assertOk
  sender := hsender
  receiver := by
    have := h.receiver
    unfold Receiver at this ⊢
    rw [hreceived]
    exact this
  data := hdata
  acks := hacks
  controlled := h.controlled
  streams := h.streams

theorem Sender.arrive {cfg : EdgeConfig} {w0 : ℤ} {inc : ℕ} {f : TagFlow inc} {e : Edge}
    (h : Sender cfg w0 f e) (hlt : f.received < f.sent.length) : Sender cfg w0 (f.arrive hlt) e :=
  ⟨h.digests, h.counts, h.length_tag⟩

theorem put_put (b : Bool) (r r' : Edge × List Cell) :
    (net.put b r).put b r' = net.put b (r'.1, r.2 ++ r'.2) := by
  unfold Net.put
  simp only [Function.update_self, Function.update_idem, List.append_assoc]

/-- The windows of the circuit behind a DATA cell. -/
structure DataArrived (cfg : EdgeConfig) (inc : ℕ) (e e' : Edge) (received : ℕ) (tag : List UInt8)
    (cells : List Cell) : Prop where
  same : SameCircuit { e with deliverWindow := 1000 - ((received + 1) % inc : ℕ) } e'
  streams : e'.streams = e.streams
  data : dataTags cells = []
  acks : circuitSendmes cells
    = (if (received + 1) % inc = 0 then [tag] else []).map (honestPayload cfg)
  dataCount : ∀ t, dataCount t cells = 0
  sendmeCount : ∀ t, t ≠ 0 → sendmeCount t cells = 0

theorem circuitConsiderSending_spec {cfg : EdgeConfig} {w0 : ℤ} {inc : ℕ} (hsetup : Setup w0 inc)
    {e : Edge} {received : ℕ} (hcount : e.sendmeGetIncCount = inc)
    (hwindow : e.deliverWindow = afterData inc received)
    (htag : e.sendmeTag.length = cfg.crypto.sendmeTagLen) :
    DataArrived cfg inc e (e.circuitConsiderSending cfg).1 received e.sendmeTag
      (e.circuitConsiderSending cfg).2 := by
  by_cases hmark : (received + 1) % inc = 0
  · obtain ⟨e', cell, hresult, hmsg, hsame, hstreams⟩ :=
      circuitConsiderSending_of_mark hsetup hcount hwindow htag hmark
    rw [hresult]
    refine ⟨?_, hstreams, ?_, ?_, ?_, ?_⟩
    · rw [hmark]
      exact hsame
    · simp [dataTags, hmsg]
    · rw [if_pos hmark]
      simp [circuitSendmes, hmsg]
    · intro t
      simp [Sendme.dataCount, hmsg]
    · intro t hne
      simp [Sendme.sendmeCount, hmsg, hne.symm]
  · rw [circuitConsiderSending_of_not hsetup hcount hwindow hmark]
    refine ⟨?_, rfl, rfl, ?_, fun _ => rfl, fun _ _ => rfl⟩
    · have hnext : (received + 1) % inc = received % inc + 1 := by
        have hlt : received % inc < inc := Nat.mod_lt received (by have := hsetup.two_le; omega)
        have hne : received % inc + 1 ≠ inc := by
          intro h
          apply hmark
          rw [Nat.add_mod, Nat.mod_eq_of_lt (show 1 < inc from hsetup.two_le), h, Nat.mod_self]
        rw [Nat.add_mod, Nat.mod_eq_of_lt (show 1 < inc from hsetup.two_le)]
        exact Nat.mod_eq_of_lt (by omega)
      refine ⟨rfl, ?_, rfl, rfl, rfl, rfl⟩
      rw [hwindow, hnext]
      unfold afterData
      push_cast
      omega
    · rw [if_neg hmark]
      rfl

theorem windows_dataReceived (e : Edge) (streamId t : UInt16) :
    ((e.dataReceived streamId).windows t).packageWindow = (e.windows t).packageWindow
      ∧ ((e.dataReceived streamId).windows t).deliverWindow = (e.windows t).deliverWindow
        - if t = streamId ∧ streamId ≠ 0 ∧ (e.streams streamId).isSome
            ∧ e.ccontrol.isSome = false then 1 else 0 := by
  unfold Edge.dataReceived
  by_cases hzero : streamId = 0
  · rw [if_pos hzero, if_neg (by simp [hzero]), Int.sub_zero]
    exact ⟨rfl, rfl⟩
  · rw [if_neg hzero]
    cases hstream : e.streams streamId with
    | none =>
      rw [if_neg (by simp), Int.sub_zero]
      exact ⟨rfl, rfl⟩
    | some stream =>
      have hown : e.windows streamId = stream := by
        unfold Edge.windows
        rw [hstream, Option.getD_some]
      dsimp only
      rw [windows_setStream]
      by_cases ht : t = streamId
      · rw [if_pos ht, ht, hown]
        by_cases hcontrol : e.ccontrol.isSome = true
        · rw [if_pos hcontrol, if_neg (by simp [hcontrol]), Int.sub_zero]
          exact ⟨rfl, rfl⟩
        · rw [if_neg hcontrol, if_pos ⟨rfl, hzero, rfl, by simpa using hcontrol⟩]
          exact ⟨rfl, rfl⟩
      · rw [if_neg ht, if_neg (fun h => ht h.1), Int.sub_zero]
        exact ⟨rfl, rfl⟩

theorem sameCircuit_dataReceived (e : Edge) (streamId : UInt16) :
    SameCircuit e (e.dataReceived streamId)
      ∧ ∀ t, ((e.dataReceived streamId).streams t).isSome = (e.streams t).isSome := by
  unfold Edge.dataReceived
  split
  · exact ⟨SameCircuit.refl e, fun _ => rfl⟩
  · rename_i stream hstream
    have hsome : (e.streams streamId).isSome := by
      split_ifs at hstream
      rw [hstream]
      rfl
    exact ⟨⟨rfl, rfl, rfl, rfl, rfl, rfl⟩, isSome_setStream hsome⟩

/-- The circuit's part of a DATA cell that arrives, with the stream's window one lower; the SENDMEs
for the stream follow. -/
theorem netInv_arrived (hagreed : Agreed s cfg) (h : NetInv cfg s f net) {b : Bool}
    {streamId : UInt16} {tag : List UInt8} {rest acks : List Cell}
    (hchan : net.chan (!b) = ⟨.data streamId, tag⟩ :: rest) {e₁ : Edge}
    (harrived : DataArrived (cfg b) s.inc (net.edge b) e₁ (f !b).received tag acks) :
    (s.negotiated.isSome = false → 0 < (e₁.windows streamId).deliverWindow)
      ∧ ∃ f', NetInv cfg s f' ((net.take (!b) rest).put b (e₁.dataReceived streamId, acks)) := by
  have hb := h.side b
  have hnot := h.side (!b)
  rw [Bool.not_not] at hnot
  rw [hchan] at hnot
  have hflight : (f !b).inFlight = tag :: dataTags rest := hnot.data.symm
  obtain ⟨hsame, hisSome⟩ := sameCircuit_dataReceived e₁ streamId
  have hwindows₁ : ∀ t, e₁.windows t = (net.edge b).windows t := by
    intro t
    unfold Edge.windows
    rw [harrived.streams]
  have hcontrol₁ : e₁.ccontrol.isSome = s.negotiated.isSome := by
    rw [harrived.same.ccontrol]
    exact hb.controlled
  have hcount : ∀ t, dataCount t (net.chan !b)
      = dataCount t rest + if t = streamId then 1 else 0 := by
    intro t
    rw [hchan]
    unfold dataCount
    rw [List.countP_cons]
    by_cases ht : t = streamId
    · simp [ht]
    · simp [ht, Ne.symm ht]
  have hsendmes : ∀ t, sendmeCount t (net.chan !b) = sendmeCount t rest := by
    intro t
    rw [hchan]
    rfl
  -- a cell for a stream is on its way, so the stream is open and has room for it
  have hopen : s.negotiated.isSome = false → streamId ≠ 0 →
      0 < ((net.edge b).windows streamId).deliverWindow
        ∧ ((net.edge b).streams streamId).isSome := by
    intro hcontrol hne
    have hinv := h.stream (!b) streamId hne
    unfold StreamInv StreamOk at hinv
    rw [Bool.not_not, hcontrol, if_neg Bool.false_ne_true, hcount, if_pos rfl] at hinv
    refine ⟨by omega, ?_⟩
    by_contra hnone
    have hclosed : ∀ c, ((net.edge c).streams streamId) = none := by
      intro c
      have hopen := (h.side c).streams streamId
      rw [← hb.streams streamId] at hopen
      rw [← Option.isNone_iff_eq_none, ← Option.isSome_eq_false_iff, hopen]
      simpa using hnone
    unfold Edge.windows at hinv
    rw [hclosed, hclosed, Option.getD_none] at hinv
    unfold streamwindowStart at hinv
    dsimp only at hinv
    omega
  have hzero : (net.edge b).windows 0 = ⟨500, 500⟩ := by
    have := hb.streams 0
    rw [hagreed.no_stream_zero, Option.isSome_eq_false_iff, Option.isNone_iff_eq_none] at this
    unfold Edge.windows
    rw [this]
    rfl
  refine ⟨?_, exists_netInv b (f b) ((f !b).arrive (Flow.received_lt hflight)) ?_ ?_ ?_ ?_⟩
  · intro hcontrol
    rw [hwindows₁]
    by_cases hne : streamId = 0
    · rw [hne, hzero]
      decide
    · exact (hopen hcontrol hne).1
  · rw [put_edge_self, put_chan_self, take_not_chan]
    have hall := harrived.same.trans hsame
    exact
      { status := hall.status.trans hb.status
        assertOk := hall.assertFailed.trans hb.assertOk
        sender := hall.sender ⟨hb.sender.digests, hb.sender.counts, hb.sender.length_tag⟩
        receiver := hall.deliverWindow
        data := by rw [dataTags_append, harrived.data, List.append_nil, hb.data]
        acks := by
          rw [circuitSendmes_append, hb.acks, harrived.acks, Flow.ackInFlight_arrive hflight,
            List.map_append]
        controlled := by rw [hsame.ccontrol, hcontrol₁]
        streams := by
          intro t
          rw [hisSome, harrived.streams]
          exact hb.streams t }
  · rw [put_edge_not, put_chan_not, take_edge, take_chan_self]
    exact hnot.tail (hnot.sender.arrive _) rfl (Flow.inFlight_arrive hflight).symm hnot.acks
  · intro t hne
    have hinv := h.stream b t hne
    obtain ⟨hpackage, hdeliver⟩ := windows_dataReceived e₁ streamId t
    unfold StreamInv StreamOk at hinv ⊢
    rw [put_edge_self, put_edge_not, put_chan_self, put_chan_not, take_edge, take_not_chan,
      take_chan_self, dataCount_append, sendmeCount_append, harrived.dataCount,
      harrived.sendmeCount t hne, Nat.add_zero, Nat.add_zero]
    rw [hsendmes] at hinv
    rw [hwindows₁] at hpackage hdeliver
    by_cases hcontrol : s.negotiated.isSome = true
    · rw [if_pos hcontrol] at hinv ⊢
      rw [if_neg (by simp [hcontrol₁, hcontrol]), Int.sub_zero] at hdeliver
      refine ⟨?_, hinv.2⟩
      rw [hinv.1] at hpackage hdeliver
      cases hwin : (e₁.dataReceived streamId).windows t with
      | mk p d =>
        rw [hwin] at hpackage hdeliver
        dsimp only at hpackage hdeliver
        rw [hpackage, hdeliver]
    · rw [if_neg hcontrol] at hinv ⊢
      rw [hpackage]
      refine ⟨hinv.1, hinv.2.1, ?_⟩
      have hle := hinv.2.2
      dsimp only
      split_ifs at hdeliver
      · omega
      · omega
  · intro t hne
    have hinv := h.stream (!b) t hne
    obtain ⟨-, hdeliver⟩ := windows_dataReceived e₁ streamId t
    unfold StreamInv StreamOk at hinv ⊢
    rw [Bool.not_not] at hinv ⊢
    rw [put_edge_self, put_edge_not, put_chan_self, put_chan_not, take_edge, take_not_chan,
      take_chan_self, sendmeCount_append, harrived.sendmeCount t hne, Nat.add_zero]
    rw [hsendmes, hcount] at hinv
    rw [hwindows₁] at hdeliver
    by_cases hcontrol : s.negotiated.isSome = true
    · rw [if_pos hcontrol] at hinv ⊢
      exact hinv
    · rw [if_neg hcontrol] at hinv ⊢
      have hcontrol' : s.negotiated.isSome = false := by simpa using hcontrol
      refine ⟨?_, hinv.2⟩
      have hconserved := hinv.1
      by_cases ht : t = streamId
      · subst ht
        obtain ⟨-, hsome⟩ := hopen hcontrol' hne
        rw [if_pos ⟨rfl, hne, by rw [harrived.streams]; exact hsome, by rw [hcontrol₁, hcontrol']⟩]
          at hdeliver
        rw [if_pos rfl] at hconserved
        rw [hdeliver]
        push_cast at hconserved
        omega
      · rw [if_neg (fun hall => ht hall.1), Int.sub_zero] at hdeliver
        rw [if_neg ht, Nat.add_zero] at hconserved
        rw [hdeliver]
        exact hconserved

/-- A DATA cell reaches `b`. -/
theorem netInv_data (hagreed : Agreed s cfg) (h : NetInv cfg s f net) {b : Bool}
    {streamId : UInt16} {tag : List UInt8} {rest : List Cell}
    (hchan : net.chan (!b) = ⟨.data streamId, tag⟩ :: rest) (mayAck : Bool) (reading : CcReading) :
    ∃ f', NetInv cfg s f' ((net.take (!b) rest).put b
      ((net.edge b).receiveRelayCell (cfg b) mayAck reading ⟨.data streamId, tag⟩)) := by
  have hb := h.side b
  have hnot := h.side (!b)
  rw [Bool.not_not, hchan] at hnot
  have hmem : tag ∈ (f !b).sent := by
    have hflight : (f !b).inFlight = tag :: dataTags rest := hnot.data.symm
    have hin : tag ∈ (f !b).inFlight := by
      rw [hflight]
      exact List.mem_cons_self
    exact List.mem_of_mem_drop hin
  have hlength : tag.length = (cfg b).crypto.sendmeTagLen := by
    have hcrypto : (cfg b).crypto = (cfg !b).crypto := by
      cases b with
      | true => exact hagreed.crypto
      | false => exact hagreed.crypto.symm
    rw [hcrypto]
    exact hnot.sender.length_tag tag hmem
  obtain ⟨e₀, he₀⟩ : ∃ e₀ : Edge, e₀ = { net.edge b with
      sendmeTag := tag, deliverWindow := (net.edge b).deliverWindow - 1 } := ⟨_, rfl⟩
  have hwindow : e₀.deliverWindow = afterData s.inc (f !b).received := by
    have hreceiver := hb.receiver
    unfold Receiver at hreceiver
    unfold afterData
    rw [he₀, ← hreceiver]
  have hcount : e₀.sendmeGetIncCount = s.inc := by
    rw [he₀]
    exact hb.sender.counts.sendmeGetIncCount
  have hroom : ¬e₀.deliverWindow < 0 := by
    have hlt : (f !b).received % s.inc < s.inc :=
      Nat.mod_lt _ (by have := hagreed.two_le_inc; omega)
    have hinc := hagreed.setup.inc_le
    rw [hwindow]
    unfold afterData
    omega
  have harrived := circuitConsiderSending_spec hagreed.setup hcount hwindow
    (by rw [he₀]; exact hlength)
  obtain ⟨e₁, acks, hacked⟩ : ∃ e₁ acks, e₀.circuitConsiderSending (cfg b) = (e₁, acks) :=
    ⟨_, _, rfl⟩
  rw [hacked] at harrived
  have harrived' : DataArrived (cfg b) s.inc (net.edge b) e₁ (f !b).received tag acks := by
    rw [he₀] at harrived
    exact ⟨⟨harrived.same.packageWindow, harrived.same.deliverWindow, harrived.same.ccontrol,
      harrived.same.digests, harrived.same.status, harrived.same.assertFailed⟩, harrived.streams,
      harrived.data, harrived.acks, harrived.dataCount, harrived.sendmeCount⟩
  obtain ⟨hopen, f₁, h₁⟩ := netInv_arrived hagreed h hchan harrived'
  have hstatus : e₁.status = .open := harrived'.same.status.trans hb.status
  have hcontrol₁ : e₁.ccontrol.isSome = s.negotiated.isSome := by
    rw [harrived'.same.ccontrol]
    exact hb.controlled
  have hdata : StreamAcks streamId (e₁.dataReceived streamId)
      (e₁.handleData (cfg b) mayAck streamId).1 (e₁.handleData (cfg b) mayAck streamId).2 :=
    handleData_spec mayAck fun hcontrol => hopen (hcontrol₁ ▸ hcontrol)
  have hresult : (net.edge b).receiveRelayCell (cfg b) mayAck reading ⟨.data streamId, tag⟩
      = ((e₁.handleData (cfg b) mayAck streamId).1,
        acks ++ (e₁.handleData (cfg b) mayAck streamId).2) := by
    unfold Edge.receiveRelayCell
    rw [if_neg (not_not_intro hb.status)]
    dsimp only
    unfold Edge.processData
    dsimp only
    rw [he₀] at hroom hacked
    rw [if_neg hroom, hacked]
    dsimp only
    rw [if_neg (not_not_intro hstatus)]
  have hput := netInv_streamAcks hagreed h₁ (by rw [put_edge_self]; exact hdata)
  rw [put_put] at hput
  rw [hresult]
  exact hput

/-- A SENDME of the circuit reaches `b`. -/
theorem netInv_circuitSendme (hagreed : Agreed s cfg) (h : NetInv cfg s f net) {b : Bool}
    {body tag : List UInt8} {rest : List Cell}
    (hchan : net.chan (!b) = ⟨.sendme 0 body, tag⟩ :: rest) (mayAck : Bool) (reading : CcReading) :
    ∃ f', NetInv cfg s f' ((net.take (!b) rest).put b
      ((net.edge b).receiveRelayCell (cfg b) mayAck reading ⟨.sendme 0 body, tag⟩)) := by
  have hb := h.side b
  have hnot := h.side (!b)
  rw [Bool.not_not, hchan] at hnot
  have hacks : body :: circuitSendmes rest
      = (f b).ackInFlight.map (honestPayload (cfg !b)) := hnot.acks
  obtain ⟨marked, others, hflight, hbody, hrest⟩ := List.map_eq_cons_iff.mp hacks.symm
  obtain ⟨e₀, he₀⟩ : ∃ e₀ : Edge, e₀ = { net.edge b with sendmeTag := tag } := ⟨_, rfl⟩
  have hsame : SameCircuit (net.edge b) e₀ := by
    rw [he₀]
    exact ⟨rfl, rfl, rfl, rfl, rfl, rfl⟩
  have hacked := processCircuitLevel_honest hagreed.setup (hsame.sender hb.sender)
    (hagreed.version b) hflight reading
  rw [hbody] at hacked
  have hresult : (net.edge b).receiveRelayCell (cfg b) mayAck reading ⟨.sendme 0 body, tag⟩
      = (e₀.processCircuitLevel (cfg b) reading body, []) := by
    unfold Edge.receiveRelayCell
    rw [if_neg (not_not_intro hb.status), he₀]
    exact if_pos rfl
  have hstreams : (e₀.processCircuitLevel (cfg b) reading body).streams = (net.edge b).streams := by
    rw [hacked.streams, he₀]
  have hwindows : ∀ t, (e₀.processCircuitLevel (cfg b) reading body).windows t
      = (net.edge b).windows t := by
    intro t
    unfold Edge.windows
    rw [hstreams]
  have hsendmes : ∀ t, t ≠ 0 → sendmeCount t (net.chan !b) = sendmeCount t rest := by
    intro t hne
    rw [hchan]
    unfold sendmeCount
    rw [List.countP_cons]
    simp [hne.symm]
  have hcount : ∀ t, dataCount t (net.chan !b) = dataCount t rest := by
    intro t
    rw [hchan]
    rfl
  rw [hresult]
  refine exists_netInv b ((f b).takeAck (Flow.acked_lt hflight)) (f !b) ?_ ?_ ?_ ?_
  · rw [put_edge_self, put_chan_self, take_not_chan, List.append_nil]
    exact
      { status := hacked.status.trans (hsame.status.trans hb.status)
        assertOk := hacked.assertFailed.trans (hsame.assertFailed.trans hb.assertOk)
        sender := hacked.sender
        receiver := by
          show _ = _
          rw [hacked.deliverWindow, hsame.deliverWindow]
          exact hb.receiver
        data := hb.data
        acks := hb.acks
        controlled := by rw [hacked.isSome, hsame.ccontrol, hb.controlled]
        streams := by
          intro t
          rw [hstreams]
          exact hb.streams t }
  · rw [put_edge_not, put_chan_not, take_edge, take_chan_self]
    refine hnot.tail hnot.sender rfl hnot.data ?_
    rw [Flow.ackInFlight_takeAck hflight]
    exact hrest.symm
  · intro t hne
    have hinv := h.stream b t hne
    unfold StreamInv at hinv ⊢
    rw [put_edge_self, put_edge_not, put_chan_self, put_chan_not, take_edge, take_not_chan,
      take_chan_self, List.append_nil, hwindows]
    rw [hsendmes t hne] at hinv
    exact hinv
  · intro t hne
    have hinv := h.stream (!b) t hne
    unfold StreamInv at hinv ⊢
    rw [Bool.not_not] at hinv ⊢
    rw [put_edge_self, put_edge_not, put_chan_self, put_chan_not, take_edge, take_not_chan,
      take_chan_self, List.append_nil, hwindows]
    rw [hsendmes t hne, hcount] at hinv
    exact hinv

/-- A SENDME of a stream reaches `b`. -/
theorem netInv_streamSendme (h : NetInv cfg s f net) {b : Bool} {streamId : UInt16}
    (hstreamId : streamId ≠ 0) {body tag : List UInt8} {rest : List Cell}
    (hchan : net.chan (!b) = ⟨.sendme streamId body, tag⟩ :: rest) (mayAck : Bool)
    (reading : CcReading) :
    ∃ f', NetInv cfg s f' ((net.take (!b) rest).put b
      ((net.edge b).receiveRelayCell (cfg b) mayAck reading ⟨.sendme streamId body, tag⟩)) := by
  have hb := h.side b
  have hnot := h.side (!b)
  rw [Bool.not_not, hchan] at hnot
  have hsendmes : ∀ t, sendmeCount t (net.chan !b)
      = sendmeCount t rest + if t = streamId then 1 else 0 := by
    intro t
    rw [hchan]
    unfold sendmeCount
    rw [List.countP_cons]
    by_cases ht : t = streamId
    · simp [ht]
    · simp [ht, Ne.symm ht]
  have hcount : ∀ t, dataCount t (net.chan !b) = dataCount t rest := by
    intro t
    rw [hchan]
    rfl
  have hcircuit : circuitSendmes rest = (f b).ackInFlight.map (honestPayload (cfg !b)) := by
    have := hnot.acks
    unfold circuitSendmes at this ⊢
    rw [List.filterMap_cons_none (by exact if_neg hstreamId)] at this
    exact this
  -- the SENDME is for a stream without congestion control, whose window has room for it
  have hcontrol : s.negotiated.isSome = false := by
    by_contra hsome
    have hinv := h.stream (!b) streamId hstreamId
    unfold StreamInv StreamOk at hinv
    rw [if_pos (Bool.eq_true_of_not_eq_false hsome), hsendmes, if_pos rfl] at hinv
    omega
  have hinv := h.stream b streamId hstreamId
  have hback := h.stream (!b) streamId hstreamId
  unfold StreamInv StreamOk at hinv hback
  rw [hcontrol, if_neg Bool.false_ne_true] at hinv hback
  rw [hsendmes, if_pos rfl] at hinv
  have hroom : ((net.edge b).windows streamId).packageWindow + 50 ≤ 500 := by
    push_cast at hinv
    omega
  obtain ⟨stream, hstream⟩ : ∃ stream, (net.edge b).streams streamId = some stream := by
    cases hnone : (net.edge b).streams streamId with
    | none =>
      unfold Edge.windows at hroom
      rw [hnone, Option.getD_none] at hroom
      unfold streamwindowStart at hroom
      dsimp only at hroom
      omega
    | some stream => exact ⟨stream, rfl⟩
  have hown : (net.edge b).windows streamId = stream := by
    unfold Edge.windows
    rw [hstream, Option.getD_some]
  obtain ⟨e₀, he₀⟩ : ∃ e₀ : Edge, e₀ = { net.edge b with sendmeTag := tag } := ⟨_, rfl⟩
  have hresult : (net.edge b).receiveRelayCell (cfg b) mayAck reading
      ⟨.sendme streamId body, tag⟩ = (e₀.setStream streamId
        { stream with packageWindow := stream.packageWindow + streamwindowIncrement }, []) := by
    unfold Edge.receiveRelayCell
    rw [if_neg (not_not_intro hb.status)]
    dsimp only
    rw [if_neg hstreamId, hstream, ← he₀]
    dsimp only
    unfold Edge.processStreamLevel
    rw [if_neg, if_neg]
    · rw [← hown]
      unfold streamwindowIncrement streamwindowStart
      omega
    · rw [he₀]
      show ¬(net.edge b).ccontrol.isSome = true
      rw [hb.controlled, hcontrol]
      exact Bool.false_ne_true
  have hwindows : ∀ t, (e₀.setStream streamId
      { stream with packageWindow := stream.packageWindow + streamwindowIncrement }).windows t
      = if t = streamId then
          { stream with packageWindow := stream.packageWindow + streamwindowIncrement }
        else (net.edge b).windows t := by
    intro t
    rw [windows_setStream, he₀]
    rfl
  rw [hresult]
  refine exists_netInv b (f b) (f !b) ?_ ?_ ?_ ?_
  · rw [put_edge_self, put_chan_self, take_not_chan]
    refine hb.append ?_ ?_ rfl rfl
    · rw [he₀]
      exact ⟨rfl, rfl, rfl, rfl, rfl, rfl⟩
    · intro t
      rw [isSome_setStream (by rw [he₀, hstream]; rfl), he₀]
  · rw [put_edge_not, put_chan_not, take_edge, take_chan_self]
    exact hnot.tail hnot.sender rfl hnot.data hcircuit
  · intro t hne
    have hinv' := h.stream b t hne
    unfold StreamInv StreamOk at hinv' ⊢
    rw [put_edge_self, put_edge_not, put_chan_self, put_chan_not, take_edge, take_not_chan,
      take_chan_self, List.append_nil, hwindows]
    rw [hsendmes] at hinv'
    rw [hcontrol, if_neg Bool.false_ne_true] at hinv' ⊢
    by_cases ht : t = streamId
    · subst ht
      rw [if_pos rfl] at hinv' ⊢
      rw [hown] at hinv'
      unfold streamwindowIncrement
      dsimp only
      push_cast at hinv'
      omega
    · rw [if_neg ht] at hinv' ⊢
      exact hinv'
  · intro t hne
    have hinv' := h.stream (!b) t hne
    unfold StreamInv StreamOk at hinv' ⊢
    rw [Bool.not_not] at hinv' ⊢
    rw [put_edge_self, put_edge_not, put_chan_self, put_chan_not, take_edge, take_not_chan,
      take_chan_self, List.append_nil, hwindows]
    rw [hcount] at hinv'
    rw [hcontrol, if_neg Bool.false_ne_true] at hinv' ⊢
    by_cases ht : t = streamId
    · subst ht
      rw [if_pos rfl]
      rw [hown] at hinv'
      exact hinv'
    · rw [if_neg ht]
      exact hinv'

/-- A cell of another kind reaches `b`. -/
theorem netInv_other (h : NetInv cfg s f net) {b : Bool} {tag : List UInt8} {rest : List Cell}
    (hchan : net.chan (!b) = ⟨.other, tag⟩ :: rest) (mayAck : Bool) (reading : CcReading) :
    ∃ f', NetInv cfg s f' ((net.take (!b) rest).put b
      ((net.edge b).receiveRelayCell (cfg b) mayAck reading ⟨.other, tag⟩)) := by
  have hb := h.side b
  have hnot := h.side (!b)
  rw [Bool.not_not, hchan] at hnot
  have hresult : (net.edge b).receiveRelayCell (cfg b) mayAck reading ⟨.other, tag⟩
      = ({ net.edge b with sendmeTag := tag }, []) :=
    if_neg (not_not_intro hb.status)
  have hcount : ∀ t, dataCount t (net.chan !b) = dataCount t rest := by
    intro t
    rw [hchan]
    rfl
  have hsendmes : ∀ t, sendmeCount t (net.chan !b) = sendmeCount t rest := by
    intro t
    rw [hchan]
    rfl
  rw [hresult]
  refine exists_netInv b (f b) (f !b) ?_ ?_ ?_ ?_
  · rw [put_edge_self, put_chan_self, take_not_chan]
    exact hb.append ⟨rfl, rfl, rfl, rfl, rfl, rfl⟩ (fun _ => rfl) rfl rfl
  · rw [put_edge_not, put_chan_not, take_edge, take_chan_self]
    exact hnot.tail hnot.sender rfl hnot.data hnot.acks
  · intro t hne
    have hinv := h.stream b t hne
    unfold StreamInv at hinv ⊢
    rw [put_edge_self, put_edge_not, put_chan_self, put_chan_not, take_edge, take_not_chan,
      take_chan_self, List.append_nil]
    rw [hsendmes] at hinv
    exact hinv
  · intro t hne
    have hinv := h.stream (!b) t hne
    unfold StreamInv at hinv ⊢
    rw [Bool.not_not] at hinv ⊢
    rw [put_edge_self, put_edge_not, put_chan_self, put_chan_not, take_edge, take_not_chan,
      take_chan_self, List.append_nil]
    rw [hsendmes, hcount] at hinv
    exact hinv

/-- Every event keeps the invariant. -/
theorem netInv_step (hagreed : Agreed s cfg) (h : NetInv cfg s f net) {event : NetEvent}
    {net' : Net} (hstep : net.step cfg event = some net') : ∃ f', NetInv cfg s f' net' := by
  cases event with
  | package b streamId nowUsec =>
    cases hstep
    exact netInv_package hagreed h b streamId nowUsec
  | sendOther b =>
    cases hstep
    exact netInv_sendOther h b
  | flushed b streamId =>
    cases hstep
    exact netInv_flushed hagreed h b streamId
  | deliver b mayAck reading =>
    unfold Net.step at hstep
    dsimp only at hstep
    split at hstep
    · cases hstep
    · rename_i cell rest hchan
      cases hstep
      obtain ⟨msg, tag⟩ := cell
      cases msg with
      | data streamId => exact netInv_data hagreed h hchan mayAck reading
      | sendme streamId body =>
        by_cases hzero : streamId = 0
        · rw [hzero] at hchan ⊢
          exact netInv_circuitSendme hagreed h hchan mayAck reading
        · exact netInv_streamSendme h hzero hchan mayAck reading
      | other => exact netInv_other h hchan mayAck reading

end Step

/-! ## Runs -/

section Runs

variable {cfg : Bool → EdgeConfig} {s : CircuitSetup} {net : Net}

/-- A new circuit meets the invariant. -/
theorem netInv_start (hagreed : Agreed s cfg) :
    NetInv cfg s (fun _ => Flow.start (List UInt8) s.inc) s.net where
  side b :=
    { status := rfl
      assertOk := rfl
      sender :=
        { digests := rfl
          counts := by
            have hdvd := hagreed.circwindow_dvd
            have hmem := hagreed.circwindow_mem
            show Counts s.circwindow _ (s.newEdge b)
            unfold Counts CircuitSetup.newEdge CircuitSetup.inc
            cases hnegotiated : s.negotiated with
            | none =>
              refine ⟨rfl, hdvd hnegotiated, ?_, ?_⟩
              · show s.circwindow = s.circwindow - ((0 : ℕ) : ℤ)
                omega
              · show 0 ≤ s.circwindow
                omega
            | some n => exact ⟨rfl, rfl, rfl⟩
          length_tag := fun _ ht => (nomatch ht) }
      receiver := by
        show (1000 : ℤ) = 1000 - (0 % s.inc : ℕ)
        rw [Nat.zero_mod]
        rfl
      data := rfl
      acks := rfl
      controlled := by
        show (s.negotiated.map _).isSome = _
        rw [Option.isSome_map]
      streams := by
        intro streamId
        show (if s.streams streamId then some _ else none : Option Stream).isSome = _
        split_ifs with hopen
        · exact hopen.symm
        · simpa using hopen }
  stream b streamId _ := by
    have hwindows : ∀ c, (s.net.edge c).windows streamId = ⟨500, 500⟩ := by
      intro c
      show ((if s.streams streamId then some _ else none : Option Stream).getD _) = _
      split_ifs
      · rfl
      · rfl
    unfold StreamInv
    rw [hwindows, hwindows]
    unfold StreamOk
    split_ifs
    · exact ⟨rfl, rfl⟩
    · refine ⟨?_, ?_, ?_⟩
      · show (500 : ℤ) - 500 = ((0 : ℕ) : ℤ) + (500 - 500) + 50 * ((0 : ℕ) : ℤ)
        omega
      · show (0 : ℤ) ≤ 500
        omega
      · exact le_refl _

theorem netInv_run (hagreed : Agreed s cfg)
    (hrun : Run (Net.step cfg) (fun _ _ => True) s.net net) : ∃ f, NetInv cfg s f net := by
  refine hrun.invariant (I := fun net => ∃ f, NetInv cfg s f net) ⟨_, netInv_start hagreed⟩ ?_
  intro net net' event h _ hstep
  obtain ⟨f, h⟩ := h
  exact netInv_step hagreed h hstep

/-- The cells sent and not acknowledged, by the sender's own window. -/
def Edge.unacknowledged (e : Edge) (circwindow : ℤ) : ℤ :=
  match e.ccontrol with
  | none => circwindow - e.packageWindow
  | some cc => cc.inflight.toNat

theorem unacknowledged_eq {inc : ℕ} {f : TagFlow inc} {w0 : ℤ} {e : Edge} (h : Counts w0 f e) :
    e.unacknowledged w0 = f.unacked := by
  unfold Edge.unacknowledged
  split
  · rename_i hnone
    have := (h.fixed hnone).2.2.1
    omega
  · rename_i cc hsome
    rw [(h.controlled hsome).2.1]

theorem getPackageWindow_nonneg {inc : ℕ} {f : TagFlow inc} {w0 : ℤ} {e : Edge}
    (h : Counts w0 f e) : 0 ≤ e.getPackageWindow := by
  unfold Edge.getPackageWindow
  split
  · rename_i hnone
    exact (h.fixed hnone).2.2.2
  · rename_i cc _
    exact getPackageWindow_controlled_nonneg cc

/-- Two cells with an increment of 2, and the SENDME for them. -/
def twoCells : List NetEvent :=
  [.package true 1 5, .package true 1 6, .deliver false true ⟨7, 0, false, false⟩,
    .deliver false true ⟨8, 0, false, false⟩, .deliver true true ⟨9, 0, false, false⟩]

/-- With nothing on its way, the window of the circuit is above zero, with congestion control if it
is at least one increment wide; and so is that of every stream whose other end has no SENDME to
send. -/
theorem window_pos_of_quiet (hagreed : Agreed s cfg)
    (hrun : Run (Net.step cfg) (fun _ _ => True) s.net net) (hquiet : ∀ b, net.chan b = [])
    (b : Bool) (hwide : ∀ cc, (net.edge b).ccontrol = some cc → s.inc ≤ cc.cwnd.toNat) :
    0 < (net.edge b).getPackageWindow
      ∧ (s.negotiated = none → ∀ streamId, s.streams streamId = true →
        ((net.edge !b).streamConsiderSending (cfg !b) streamId).2 = [] →
        0 < ((net.edge b).windows streamId).packageWindow) := by
  obtain ⟨f, h⟩ := netInv_run hagreed hrun
  have hb := h.side b
  have hnot := h.side (!b)
  rw [Bool.not_not] at hnot
  have hinc : 0 < s.inc := by
    have := hagreed.two_le_inc
    omega
  have hflight : (f b).inFlight = [] := by
    rw [← hb.data, hquiet b]
    rfl
  have hacks : (f b).ackInFlight = [] := by
    have := hnot.acks
    rw [hquiet (!b)] at this
    exact List.map_eq_nil_iff.mp this.symm
  have hlt := Flow.unacked_lt_of_quiet hinc hflight hacks
  constructor
  · unfold Edge.getPackageWindow
    split
    · rename_i hnone
      obtain ⟨hinc100, -, hwindow, -⟩ := hb.sender.counts.fixed hnone
      have := hagreed.circwindow_mem.1
      omega
    · rename_i cc hsome
      obtain ⟨-, hinflight, -⟩ := hb.sender.counts.controlled hsome
      have hless : cc.inflight.toNat < cc.cwnd.toNat := by
        rw [hinflight]
        exact hlt.trans_le (hwide cc hsome)
      have hle : cc.inflight ≤ cc.cwnd := UInt64.le_iff_toNat_le.mpr hless.le
      unfold CongestionControl.getPackageWindow
      rw [if_neg (UInt64.not_lt.mpr hle)]
      split_ifs
      · decide
      · rw [UInt64.toNat_sub_of_le _ _ hle]
        omega
  · intro hnone streamId hstream hflushed
    have hne : streamId ≠ 0 := by
      intro hzero
      rw [hzero, hagreed.no_stream_zero] at hstream
      cases hstream
    have hinv := h.stream b streamId hne
    unfold StreamInv StreamOk at hinv
    rw [hquiet b, hquiet (!b), hnone] at hinv
    have hcc : (net.edge !b).ccontrol = none := by
      have := hnot.controlled
      rw [hnone, Option.isSome_none, Option.isSome_eq_false_iff, Option.isNone_iff_eq_none] at this
      exact this
    have hdeliver := deliverWindow_of_no_acks hcc hnot.status
      (by rw [hnot.streams, hstream]) hflushed
    have hconserved : 500 - ((net.edge b).windows streamId).packageWindow
        = ((0 : ℕ) : ℤ) + (500 - ((net.edge !b).windows streamId).deliverWindow)
          + 50 * ((0 : ℕ) : ℤ) := hinv.1
    omega

end Runs

end Dittor.Tor.Sendme
