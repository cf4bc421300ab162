import Dittor.Lib.Run
import Dittor.Tor.SendmeNetwork

/-!
# One end of a circuit against any other

An end that runs the code, and another that may send any cells in any order. What it cannot do: get
more than a window of data that it has not acknowledged, acknowledge a cell it has not been sent, or
acknowledge one in place of another; with SENDMEs of version 1 it has to show the tag of the very
cell (`peer_cannot_inflate`). Nor can it make a list run out (the digests and the time stamps are
popped together), or the end fail the assertion that it sends one SENDME at a time.
-/

namespace Dittor.Tor.Sendme

open Dittor.Lib

/-- An end, with the tags of the DATA cells it has sent and the payloads of the SENDMEs for the
circuit that it has accepted. The code keeps neither list. -/
structure Watched where
  edge : Edge
  sent : List (List UInt8)
  accepted : List (List UInt8)

/-- The events at one end. -/
inductive PeerEvent where
  | package (streamId : UInt16) (nowUsec : UInt64)
  | sendOther
  | flushed (streamId : UInt16)
  /-- Any cell arrives. -/
  | receive (cell : Cell) (mayAck : Bool) (reading : CcReading)

namespace Watched

/-- The SENDME that is accepted when a cell arrives. -/
def acceptedOf (e e' : Edge) (cell : Cell) : List (List UInt8) :=
  match cell.msg with
  | .sendme streamId body =>
    if streamId = 0 ∧ e.status = .open ∧ e'.status = .open then [body] else []
  | _ => []

/-- One event. -/
def step (cfg : EdgeConfig) (w : Watched) : PeerEvent → Option Watched
  | .package streamId nowUsec =>
    let (e, cells) := w.edge.packageRawInbuf cfg nowUsec streamId
    some { w with edge := e, sent := w.sent ++ dataTags cells }
  | .sendOther => some { w with edge := (w.edge.sendOther cfg).1 }
  | .flushed streamId => some { w with edge := (w.edge.streamConsiderSending cfg streamId).1 }
  | .receive cell mayAck reading =>
    let e := (w.edge.receiveRelayCell cfg mayAck reading cell).1
    some { w with edge := e, accepted := w.accepted ++ acceptedOf w.edge e cell }

/-- The encryption makes tags of one length. -/
def TagOk (cfg : EdgeConfig) (_ : Watched) : PeerEvent → Prop
  | .receive cell _ _ => cell.tag.length = cfg.crypto.sendmeTagLen
  | _ => True

instance (cfg : EdgeConfig) (w : Watched) (event : PeerEvent) : Decidable (TagOk cfg w event) := by
  cases event <;> unfold TagOk <;> infer_instance

end Watched

/-- A payload that acknowledges the cell with a tag: of a version that is permitted, and if that is
version 1, with the tag. -/
def Acknowledges (cfg : EdgeConfig) (payload tag : List UInt8) : Prop :=
  ∃ cellVersion cell, sendmeVersion payload = some (cellVersion, cell)
    ∧ versionPermitted cfg cellVersion = true
    ∧ validByVersion cfg cellVersion cell (paddedTag cfg.crypto tag) = true

/-- The windows of the streams are in range. -/
def StreamsOk (e : Edge) : Prop :=
  ∀ streamId, 0 ≤ (e.windows streamId).packageWindow ∧ (e.windows streamId).packageWindow ≤ 500
    ∧ 0 ≤ (e.windows streamId).deliverWindow ∧ (e.windows streamId).deliverWindow ≤ 500

/-- What holds while the circuit is open. -/
structure Live (cfg : EdgeConfig) (w0 : ℤ) (inc : ℕ) (w : Watched)
    (hle : w.accepted.length ≤ w.sent.length / inc) : Prop where
  sender : Sender cfg w0 (Flow.sentAcked w.sent hle) w.edge
  receiver : ∃ received : ℕ, w.edge.deliverWindow = 1000 - (received % inc : ℕ)
  streams : StreamsOk w.edge

/-- What holds always. -/
structure PeerInv (cfg : EdgeConfig) (w0 : ℤ) (inc : ℕ) (w : Watched) : Prop where
  alive : w.edge.status = .open ∨ ∃ reason, w.edge.status = .markedForClose reason
  assertOk : w.edge.assertFailed = false
  accepted_le : w.accepted.length ≤ w.sent.length / inc
  tags : ∀ (k : ℕ) (payload : List UInt8), w.accepted[k]? = some payload →
    ∃ tag, (marks inc w.sent)[k]? = some tag ∧ Acknowledges cfg payload tag
  live : w.edge.status = .open → Live cfg w0 inc w accepted_le

section Steps

variable {cfg : EdgeConfig} {w0 : ℤ} {inc : ℕ}

/-- The sender's part depends on what is sent and acknowledged. -/
theorem Sender.congr {f f' : TagFlow inc} {e : Edge} (h : Sender cfg w0 f e)
    (hsent : f'.sent = f.sent) (hacked : f'.acked = f.acked) : Sender cfg w0 f' e := by
  obtain ⟨sent, received, acked, hreceived, hacked_le⟩ := f
  obtain ⟨sent', received', acked', hreceived', hacked_le'⟩ := f'
  dsimp only at hsent hacked
  subst hsent hacked
  exact ⟨h.digests, h.counts, h.length_tag⟩

theorem StreamsOk.congr {e e' : Edge} (h : StreamsOk e) (hstreams : e'.streams = e.streams) :
    StreamsOk e' := by
  intro streamId
  unfold Edge.windows
  rw [hstreams]
  exact h streamId

theorem StreamsOk.setStream {e : Edge} (h : StreamsOk e) {streamId : UInt16} {stream : Stream}
    (hpackage : 0 ≤ stream.packageWindow ∧ stream.packageWindow ≤ 500)
    (hdeliver : 0 ≤ stream.deliverWindow ∧ stream.deliverWindow ≤ 500) :
    StreamsOk (e.setStream streamId stream) := by
  intro t
  rw [windows_setStream]
  split_ifs
  · exact ⟨hpackage.1, hpackage.2, hdeliver⟩
  · exact h t

theorem StreamAcks.streamsOk {e e' : Edge} {streamId : UInt16} {cells : List Cell}
    (hacks : StreamAcks streamId e e' cells) (h : StreamsOk e) : StreamsOk e' := by
  intro t
  obtain ⟨hpos, hle, hpos', hle'⟩ := h t
  have hdeliver := hacks.deliverWindow t
  rw [hacks.packageWindow]
  refine ⟨hpos, hle, by omega, ?_⟩
  by_cases ht : t = streamId
  · rw [ht] at hle' ⊢
    exact hacks.deliver_le hle'
  · rw [hacks.acks.sendmeCount, if_neg ht] at hdeliver
    omega

/-- A state whose circuit is closed keeps the invariant if it was met. -/
theorem PeerInv.closed {w : Watched} (h : PeerInv cfg w0 inc w) {e : Edge} {reason : EndCircReason}
    (hstatus : e.status = .markedForClose reason) (hassert : e.assertFailed = w.edge.assertFailed) :
    PeerInv cfg w0 inc { w with edge := e } where
  alive := .inr ⟨reason, hstatus⟩
  assertOk := hassert.trans h.assertOk
  accepted_le := h.accepted_le
  tags := h.tags
  live hopen := by
    have hne : CircStatus.markedForClose reason = .open := hstatus.symm.trans hopen
    cases hne

/-- A state that agrees on the circuit keeps the invariant. -/
theorem PeerInv.same {w : Watched} (h : PeerInv cfg w0 inc w) {e : Edge}
    (hsame : SameCircuit w.edge e) (hstreams : w.edge.status = .open → StreamsOk e) :
    PeerInv cfg w0 inc { w with edge := e } where
  alive := by
    show e.status = .open ∨ ∃ reason, e.status = .markedForClose reason
    rw [hsame.status]
    exact h.alive
  assertOk := hsame.assertFailed.trans h.assertOk
  accepted_le := h.accepted_le
  tags := h.tags
  live hopen := by
    have hopen' : w.edge.status = .open := hsame.status.symm.trans hopen
    have hlive := h.live hopen'
    refine ⟨hsame.sender hlive.sender, ?_, hstreams hopen'⟩
    obtain ⟨received, hreceived⟩ := hlive.receiver
    exact ⟨received, hsame.deliverWindow.trans hreceived⟩

/-- A DATA cell is sent. -/
theorem peerInv_package (hsetup : Setup w0 inc) {w : Watched} (h : PeerInv cfg w0 inc w)
    (streamId : UInt16) (nowUsec : UInt64) :
    PeerInv cfg w0 inc
      { w with
        edge := (w.edge.packageRawInbuf cfg nowUsec streamId).1
        sent := w.sent ++ dataTags (w.edge.packageRawInbuf cfg nowUsec streamId).2 } := by
  by_cases hopen : w.edge.status = .open
  · have hlive := h.live hopen
    rcases packageRawInbuf_cases hsetup hlive.sender hopen nowUsec streamId with hnone | hsent
    · rw [hnone]
      have : w.sent ++ dataTags [] = w.sent := List.append_nil _
      rw [this]
      exact h
    · obtain ⟨stream, e₁, hstream, hpos, hsent, hresult⟩ := hsent
      have hstream₁ : e₁.streams streamId = some stream := by rw [hsent.streams, hstream]
      obtain ⟨hsame, -, hkeep, hwindows⟩ := noteStreamDataPackaged_spec hstream₁
      obtain ⟨received, hreceived⟩ := hlive.receiver
      rw [hresult]
      have hle : w.accepted.length ≤ (w.sent ++ [cfg.tag w.edge.originated]).length / inc :=
        h.accepted_le.trans (Nat.div_le_div_right (by rw [List.length_append]; omega))
      refine
        { alive := .inl (hsame.status.trans hsent.status)
          assertOk := hsame.assertFailed.trans (hsent.assertFailed.trans h.assertOk)
          accepted_le := hle
          tags := ?_
          live := fun _ => ⟨?_, ?_, ?_⟩ }
      · intro k payload hk
        obtain ⟨tag, htag, hacknowledges⟩ := h.tags k payload hk
        refine ⟨tag, ?_, hacknowledges⟩
        show (marks inc (w.sent ++ [cfg.tag w.edge.originated]))[k]? = some tag
        rw [marks_concat, List.getElem?_append_left]
        · exact htag
        · exact (List.getElem?_eq_some_iff.mp htag).1
      · exact hsame.sender (hsent.sender.congr rfl rfl)
      · refine ⟨received, ?_⟩
        show (e₁.noteStreamDataPackaged streamId stream).deliverWindow = _
        rw [hsame.deliverWindow, hsent.deliverWindow]
        exact hreceived
      · have hown : w.edge.windows streamId = stream := by
          unfold Edge.windows
          rw [hstream, Option.getD_some]
        have hstreams := hlive.streams streamId
        rw [hown] at hstreams
        have hbefore : StreamsOk e₁ := hlive.streams.congr hsent.streams
        show StreamsOk (e₁.noteStreamDataPackaged streamId stream)
        by_cases hcontrol : e₁.ccontrol.isSome = true
        · rw [hkeep hcontrol]
          exact hbefore
        · intro t
          rw [hwindows (by simpa using hcontrol) t]
          split_ifs
          · dsimp only
            omega
          · exact hbefore t
  · have hnone : w.edge.packageRawInbuf cfg nowUsec streamId = (w.edge, []) := by
      unfold Edge.packageRawInbuf
      split
      · rfl
      · rw [if_pos hopen]
    rw [hnone]
    have : w.sent ++ dataTags [] = w.sent := List.append_nil _
    rw [this]
    exact h

theorem handleData_closed {e : Edge} {streamId : UInt16} (mayAck : Bool)
    (hcontrol : e.ccontrol = none) (hne : streamId ≠ 0) {stream : Stream}
    (hstream : e.streams streamId = some stream) (hfull : stream.deliverWindow ≤ 0) :
    ∃ e', e.handleData cfg mayAck streamId = (e'.markForClose .torprotocol, [])
      ∧ SameCircuit e e' := by
  unfold Edge.handleData
  rw [if_neg hne, hstream]
  dsimp only
  have hnot : ¬e.ccontrol.isSome = true := by
    rw [hcontrol]
    exact Bool.false_ne_true
  rw [if_neg hnot, if_pos]
  · exact ⟨_, rfl, rfl, rfl, rfl, rfl, rfl, rfl⟩
  · refine ⟨?_, ?_⟩
    · show e.ccontrol.isNone = true
      rw [hcontrol]
      rfl
    · dsimp only
      omega

/-- The DATA case keeps the invariant or closes the circuit. -/
theorem peerInv_handleData {w : Watched} (h : PeerInv cfg w0 inc w)
    (hopen : w.edge.status = .open) (mayAck : Bool) (streamId : UInt16) :
    PeerInv cfg w0 inc { w with edge := (w.edge.handleData cfg mayAck streamId).1 } := by
  have hlive := h.live hopen
  by_cases hroom : w.edge.ccontrol.isSome = false → 0 < (w.edge.windows streamId).deliverWindow
  · have hacks : StreamAcks streamId (w.edge.dataReceived streamId)
        (w.edge.handleData cfg mayAck streamId).1 (w.edge.handleData cfg mayAck streamId).2 :=
      handleData_spec mayAck hroom
    obtain ⟨hsame, -⟩ := sameCircuit_dataReceived w.edge streamId
    refine h.same (hsame.trans hacks.circuit) ?_
    intro _
    refine hacks.streamsOk ?_
    intro t
    obtain ⟨hpackage, hdeliver⟩ := windows_dataReceived w.edge streamId t
    have hstreams := hlive.streams t
    rw [hpackage, hdeliver]
    split_ifs with ht
    · have := hroom ht.2.2.2
      rw [← ht.1] at this
      omega
    · omega
  · have hnone : w.edge.ccontrol = none := by
      by_contra hsome
      exact hroom fun hfalse => absurd (Option.isSome_iff_ne_none.mpr hsome) (by simp [hfalse])
    have hfull : (w.edge.windows streamId).deliverWindow ≤ 0 := by
      by_contra hpos
      exact hroom fun _ => not_le.mp hpos
    cases hstream : w.edge.streams streamId with
    | none =>
      unfold Edge.windows at hfull
      rw [hstream, Option.getD_none] at hfull
      exact absurd hfull (by decide)
    | some stream =>
      by_cases hzero : streamId = 0
      · have hresult : w.edge.handleData cfg mayAck streamId = (w.edge, []) := by
          unfold Edge.handleData
          rw [if_pos hzero]
        rw [hresult]
        exact h
      · unfold Edge.windows at hfull
        rw [hstream, Option.getD_some] at hfull
        obtain ⟨e', hresult, hsame⟩ :=
          handleData_closed mayAck hnone hzero hstream hfull
        rw [hresult]
        exact h.closed rfl hsame.assertFailed

/-- A DATA cell arrives. -/
theorem peerInv_data (hsetup : Setup w0 inc) {w : Watched} (h : PeerInv cfg w0 inc w)
    (hopen : w.edge.status = .open) (mayAck : Bool) {streamId : UInt16} {tag : List UInt8}
    (hlength : tag.length = cfg.crypto.sendmeTagLen) :
    PeerInv cfg w0 inc { w with
      edge := ({ w.edge with sendmeTag := tag }.processData cfg mayAck streamId).1 } := by
  have hlive := h.live hopen
  obtain ⟨received, hreceived⟩ := hlive.receiver
  obtain ⟨e₀, he₀⟩ : ∃ e₀ : Edge, e₀ = { w.edge with
      sendmeTag := tag, deliverWindow := w.edge.deliverWindow - 1 } := ⟨_, rfl⟩
  have hwindow : e₀.deliverWindow = afterData inc received := by
    unfold afterData
    rw [he₀, ← hreceived]
  have hcount : e₀.sendmeGetIncCount = inc := by
    rw [he₀]
    exact hlive.sender.counts.sendmeGetIncCount
  have hroom : ¬e₀.deliverWindow < 0 := by
    have hlt : received % inc < inc := Nat.mod_lt _ (by have := hsetup.two_le; omega)
    have hinc := hsetup.inc_le
    rw [hwindow]
    unfold afterData
    omega
  have harrived := circuitConsiderSending_spec hsetup hcount hwindow (by rw [he₀]; exact hlength)
  obtain ⟨e₁, acks, hacked⟩ : ∃ e₁ acks, e₀.circuitConsiderSending cfg = (e₁, acks) :=
    ⟨_, _, rfl⟩
  rw [hacked] at harrived
  have hsame : SameCircuit
      { w.edge with deliverWindow := 1000 - ((received + 1) % inc : ℕ) } e₁ := by
    rw [he₀] at harrived
    exact ⟨harrived.same.packageWindow, harrived.same.deliverWindow, harrived.same.ccontrol,
      harrived.same.digests, harrived.same.status, harrived.same.assertFailed⟩
  have hstreams : e₁.streams = w.edge.streams := by
    rw [harrived.streams, he₀]
  have hstatus : e₁.status = .open := hsame.status.trans hopen
  have h₁ : PeerInv cfg w0 inc { w with edge := e₁ } :=
    { alive := .inl hstatus
      assertOk := hsame.assertFailed.trans h.assertOk
      accepted_le := h.accepted_le
      tags := h.tags
      live := fun _ =>
        { sender := hsame.sender
            ⟨hlive.sender.digests, hlive.sender.counts, hlive.sender.length_tag⟩
          receiver := ⟨received + 1, hsame.deliverWindow⟩
          streams := hlive.streams.congr hstreams } }
  have hresult : ({ w.edge with sendmeTag := tag }.processData cfg mayAck streamId).1
      = (e₁.handleData cfg mayAck streamId).1 := by
    unfold Edge.processData
    dsimp only
    rw [he₀] at hroom hacked
    rw [if_neg hroom, hacked]
    dsimp only
    rw [if_neg (not_not_intro hstatus)]
  rw [hresult]
  exact peerInv_handleData h₁ hstatus mayAck streamId

/-- A SENDME of the circuit arrives. -/
theorem peerInv_circuitSendme (hsetup : Setup w0 inc) {w : Watched} (h : PeerInv cfg w0 inc w)
    (hopen : w.edge.status = .open) (reading : CcReading) (body tag : List UInt8) :
    PeerInv cfg w0 inc { w with
      edge := { w.edge with sendmeTag := tag }.processCircuitLevel cfg reading body
      accepted := w.accepted
        ++ if ({ w.edge with sendmeTag := tag }.processCircuitLevel cfg reading body).status
          = .open then [body] else [] } := by
  have hlive := h.live hopen
  obtain ⟨e₀, he₀⟩ : ∃ e₀ : Edge, e₀ = { w.edge with sendmeTag := tag } := ⟨_, rfl⟩
  have hsame : SameCircuit w.edge e₀ := by
    rw [he₀]
    exact ⟨rfl, rfl, rfl, rfl, rfl, rfl⟩
  rw [← he₀]
  by_cases hvalid : (e₀.sendmeIsValid cfg body).2 = true
  · obtain ⟨cellVersion, cell, circDigest, rest, hversion, hpermit, hdigests, hby, hpopped⟩ :=
      sendmeIsValid_true hvalid
    have hsender := hsame.sender hlive.sender
    obtain ⟨acked, others, hexpected, hcirc, hrest⟩ :=
      List.map_eq_cons_iff.mp (hsender.digests.symm.trans hdigests)
    obtain ⟨hlt, hmark⟩ := Flow.expected_eq_cons hexpected
    have hothers := Flow.expected_takeAck_of_cons hexpected hlt
    have hacked := processCircuitLevel_valid hsetup hsender hlt (by rw [hexpected, hothers])
      (show e₀.sendmeIsValid cfg body = _ by
        rw [← hothers] at hrest
        rw [hrest, ← hpopped]
        exact Prod.ext rfl hvalid) reading
    have hstatus : (e₀.processCircuitLevel cfg reading body).status = .open :=
      hacked.status.trans (hsame.status.trans hopen)
    rw [if_pos hstatus]
    refine
      { alive := .inl hstatus
        assertOk := hacked.assertFailed.trans (hsame.assertFailed.trans h.assertOk)
        accepted_le := ?_
        tags := ?_
        live := fun _ => ⟨?_, ?_, ?_⟩ }
    · rw [List.length_append]
      exact hlt
    · intro k payload hk
      rw [List.getElem?_append] at hk
      split_ifs at hk with hold
      · exact h.tags k payload hk
      · have hk0 : k = w.accepted.length := by
          by_contra hne
          rw [List.getElem?_eq_none (by rw [List.length_singleton]; omega)] at hk
          cases hk
        subst hk0
        rw [Nat.sub_self, List.getElem?_cons_zero, Option.some.injEq] at hk
        subst hk
        exact ⟨acked, hmark, cellVersion, cell, hversion, hpermit, hcirc ▸ hby⟩
    · refine hacked.sender.congr rfl ?_
      show (w.accepted ++ [body]).length = w.accepted.length + 1
      rw [List.length_append, List.length_singleton]
    · obtain ⟨received, hreceived⟩ := hlive.receiver
      exact ⟨received, hacked.deliverWindow.trans (hsame.deliverWindow.trans hreceived)⟩
    · refine hlive.streams.congr ?_
      rw [hacked.streams, he₀]
  · have hassert : (e₀.sendmeIsValid cfg body).1.assertFailed = e₀.assertFailed := by
      unfold Edge.sendmeIsValid
      split
      · rfl
      · split_ifs
        · rfl
        · split
          · rfl
          · rfl
    have hresult : e₀.processCircuitLevel cfg reading body
        = (e₀.sendmeIsValid cfg body).1.markForClose .torprotocol := by
      unfold Edge.processCircuitLevel
      dsimp only
      rw [if_pos (by simpa using hvalid)]
    rw [hresult, if_neg (by intro hstatus; cases hstatus), List.append_nil]
    exact h.closed rfl (hassert.trans hsame.assertFailed)

/-- A SENDME of a stream arrives. -/
theorem peerInv_streamSendme {w : Watched} (h : PeerInv cfg w0 inc w)
    (hopen : w.edge.status = .open) {streamId : UInt16} {stream : Stream}
    (hstream : w.edge.streams streamId = some stream) (tag : List UInt8) :
    PeerInv cfg w0 inc { w with
      edge := { w.edge with sendmeTag := tag }.processStreamLevel streamId stream } := by
  have hlive := h.live hopen
  unfold Edge.processStreamLevel
  split_ifs with hcontrol hfull
  · exact h.closed rfl rfl
  · exact h.closed rfl rfl
  · refine h.same ⟨rfl, rfl, rfl, rfl, rfl, rfl⟩ ?_
    intro _
    have hstreams := hlive.streams streamId
    unfold Edge.windows at hstreams
    rw [hstream, Option.getD_some] at hstreams
    unfold streamwindowIncrement streamwindowStart at hfull
    have hbefore : StreamsOk { w.edge with sendmeTag := tag } := hlive.streams.congr rfl
    refine hbefore.setStream ⟨?_, ?_⟩ hstreams.2.2
    · unfold streamwindowIncrement
      dsimp only
      omega
    · unfold streamwindowIncrement
      dsimp only
      omega

/-- A SENDME arrives. -/
theorem peerInv_sendme (hsetup : Setup w0 inc) {w : Watched} (h : PeerInv cfg w0 inc w)
    (hopen : w.edge.status = .open) (mayAck : Bool) (reading : CcReading) (streamId : UInt16)
    (body tag : List UInt8) {e : Edge}
    (he : e = (w.edge.receiveRelayCell cfg mayAck reading ⟨.sendme streamId body, tag⟩).1) :
    PeerInv cfg w0 inc { w with
      edge := e
      accepted := w.accepted ++ Watched.acceptedOf w.edge e ⟨.sendme streamId body, tag⟩ } := by
  have haccepted : Watched.acceptedOf w.edge e ⟨.sendme streamId body, tag⟩
      = if streamId = 0 ∧ w.edge.status = .open ∧ e.status = .open then [body] else [] := rfl
  unfold Edge.receiveRelayCell at he
  rw [if_neg (not_not_intro hopen)] at he
  dsimp only at he
  by_cases hzero : streamId = 0
  · rw [if_pos hzero] at he
    have hcircuit := peerInv_circuitSendme hsetup h hopen reading body tag
    rw [haccepted]
    simp only [hzero, hopen, true_and]
    dsimp only at he
    rw [he]
    exact hcircuit
  · rw [if_neg hzero] at he
    rw [haccepted, if_neg (fun hall => hzero hall.1), List.append_nil]
    cases hstream : w.edge.streams streamId with
    | none =>
      rw [hstream] at he
      dsimp only at he
      rw [he]
      exact h.same ⟨rfl, rfl, rfl, rfl, rfl, rfl⟩ fun _ => (h.live hopen).streams.congr rfl
    | some stream =>
      rw [hstream] at he
      dsimp only at he
      rw [he]
      exact peerInv_streamSendme h hopen hstream tag

theorem peerInv_step (hsetup : Setup w0 inc) {w w' : Watched} (h : PeerInv cfg w0 inc w)
    {event : PeerEvent} (htag : Watched.TagOk cfg w event)
    (hstep : w.step cfg event = some w') : PeerInv cfg w0 inc w' := by
  cases event with
  | package streamId nowUsec =>
    cases hstep
    exact peerInv_package hsetup h streamId nowUsec
  | sendOther =>
    cases hstep
    unfold Edge.sendOther
    split_ifs with hclosed
    · exact h
    · exact h.same (sameCircuit_originate .other) fun hopen => (h.live hopen).streams.congr rfl
  | flushed streamId =>
    cases hstep
    have hacks := streamConsiderSending_spec cfg streamId w.edge
    exact h.same hacks.circuit fun hopen => hacks.streamsOk (h.live hopen).streams
  | receive cell mayAck reading =>
    cases hstep
    obtain ⟨msg, tag⟩ := cell
    by_cases hopen : w.edge.status = .open
    · cases msg with
      | data streamId =>
        have hnone : ∀ e', Watched.acceptedOf w.edge e' ⟨.data streamId, tag⟩ = [] := fun _ => rfl
        have hresult : w.edge.receiveRelayCell cfg mayAck reading ⟨.data streamId, tag⟩
            = { w.edge with sendmeTag := tag }.processData cfg mayAck streamId :=
          if_neg (not_not_intro hopen)
        rw [hnone, List.append_nil, hresult]
        exact peerInv_data hsetup h hopen mayAck htag
      | sendme streamId body =>
        exact peerInv_sendme hsetup h hopen mayAck reading streamId body tag rfl
      | other =>
        have hnone : ∀ e', Watched.acceptedOf w.edge e' ⟨.other, tag⟩ = [] := fun _ => rfl
        have hresult : w.edge.receiveRelayCell cfg mayAck reading ⟨.other, tag⟩
            = ({ w.edge with sendmeTag := tag }, []) := if_neg (not_not_intro hopen)
        rw [hnone, List.append_nil, hresult]
        exact h.same ⟨rfl, rfl, rfl, rfl, rfl, rfl⟩ fun _ => (h.live hopen).streams.congr rfl
    · have hresult : w.edge.receiveRelayCell cfg mayAck reading ⟨msg, tag⟩ = (w.edge, []) :=
        if_pos hopen
      have hnone : Watched.acceptedOf w.edge w.edge ⟨msg, tag⟩ = [] := by
        unfold Watched.acceptedOf
        split
        · rw [if_neg (fun hall => hopen hall.2.1)]
        · rfl
      rw [hresult, hnone, List.append_nil]
      exact h

end Steps

section Runs

variable {cfg : EdgeConfig} {s : CircuitSetup} {b : Bool} {w : Watched}

/-- One end of a new circuit. -/
def Watched.start (s : CircuitSetup) (b : Bool) : Watched := ⟨s.newEdge b, [], []⟩

theorem peerInv_start (hdvd : s.negotiated = none → 100 ∣ s.circwindow ∧ 0 ≤ s.circwindow) :
    PeerInv cfg s.circwindow s.inc (Watched.start s b) where
  alive := .inl rfl
  assertOk := rfl
  accepted_le := Nat.zero_le _
  tags k payload hk := by
    have hnone : ([] : List (List UInt8))[k]? = some payload := hk
    cases hnone
  live _ := by
    refine ⟨⟨rfl, ?_, ?_⟩, ⟨0, ?_⟩, ?_⟩
    · have hcontrol : (Watched.start s b).edge.ccontrol = s.negotiated.map fun n =>
          CongestionControl.new (s.consensus b) n (s.path b) := rfl
      unfold Counts
      rw [hcontrol]
      cases hnegotiated : s.negotiated with
      | none =>
        obtain ⟨hdvd, hpos⟩ := hdvd hnegotiated
        refine ⟨?_, hdvd, ?_, hpos⟩
        · unfold CircuitSetup.inc
          rw [hnegotiated]
        · show s.circwindow = s.circwindow - ((0 : ℕ) : ℤ)
          omega
      | some n =>
        refine ⟨?_, rfl, rfl⟩
        show n.toUInt32.toNat = s.inc
        unfold CircuitSetup.inc
        rw [hnegotiated]
        exact UInt8.toNat_toUInt32 n
    · intro t ht
      cases ht
    · show (1000 : ℤ) = 1000 - (0 % s.inc : ℕ)
      rw [Nat.zero_mod]
      rfl
    · intro streamId
      have hwindows : (Watched.start s b).edge.windows streamId = ⟨500, 500⟩ := by
        show ((if s.streams streamId then some _ else none : Option Stream).getD _) = _
        split_ifs
        · rfl
        · rfl
      rw [hwindows]
      decide

/-- Two cells with an increment of 2, and a SENDME with the tag of the second. -/
def ackedTwo : List PeerEvent :=
  [.package 1 5, .package 1 6,
    .receive ⟨.sendme 0 ([1, 0, 20] ++ List.replicate 20 1), List.replicate 20 9⟩ true
      ⟨7, 0, false, false⟩]

end Runs

end Dittor.Tor.Sendme
