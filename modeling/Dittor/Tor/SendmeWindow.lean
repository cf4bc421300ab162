import Dittor.Lib.AckWindow
import Dittor.Tor.Sendme

/-!
# The windows of one end of a circuit

What the functions of `Sendme` do to the two windows of a circuit, stated against the flows of
`Lib.AckWindow`: one for the DATA cells this end sends (`Sender`), one for those it receives
(`Receiver`). An item of a flow is the tag of a DATA cell.

The sender expects a SENDME for every cell that brings its window to a multiple of the increment,
the receiver sends one for every cell that does so to its own window. Both are the cells whose
number is a multiple of the increment, if the window the sender starts with is one (`Counts`).
-/

namespace Dittor.Tor.Sendme

open Dittor.Lib

/-- The DATA cells a sender has sent, by their tags. -/
abbrev TagFlow (inc : ℕ) := Flow (List UInt8) inc

/-- What the two windows of a circuit start with: `w0` is the sender's (`circwindow`), `inc` the
number of cells a SENDME acknowledges. With `inc = 1` no digest would be recorded for the first
cell. -/
structure Setup (w0 : ℤ) (inc : ℕ) : Prop where
  two_le : 2 ≤ inc
  inc_le : inc ≤ 1000
  w0_le : w0 ≤ 1000

/-- What the sender's window says about the cells not acknowledged. With a `w0` that is not a
multiple of 100 the sender would record the tag of another cell than the receiver acknowledges. -/
def Counts (w0 : ℤ) {inc : ℕ} (f : TagFlow inc) (e : Edge) : Prop :=
  match e.ccontrol with
  | none => inc = 100 ∧ 100 ∣ w0 ∧ e.packageWindow = w0 - f.unacked ∧ 0 ≤ e.packageWindow
  | some cc =>
    cc.sendmeInc.toNat = inc ∧ cc.inflight.toNat = f.unacked
      ∧ cc.sendmePendingTimestamps.length = f.expected.length

/-- The sender's part of an end. -/
structure Sender (cfg : EdgeConfig) (w0 : ℤ) {inc : ℕ} (f : TagFlow inc) (e : Edge) : Prop where
  digests : e.sendmeLastDigests = f.expected.map (paddedTag cfg.crypto)
  counts : Counts w0 f e
  length_tag : ∀ t ∈ f.sent, t.length = cfg.crypto.sendmeTagLen

/-- The receiver's part of an end. -/
def Receiver {inc : ℕ} (f : TagFlow inc) (e : Edge) : Prop :=
  e.deliverWindow = 1000 - (f.received % inc : ℕ)

/-- Two states of an end that agree on the circuit; their streams may differ. -/
structure SameCircuit (e e' : Edge) : Prop where
  packageWindow : e'.packageWindow = e.packageWindow
  deliverWindow : e'.deliverWindow = e.deliverWindow
  ccontrol : e'.ccontrol = e.ccontrol
  digests : e'.sendmeLastDigests = e.sendmeLastDigests
  status : e'.status = e.status
  assertFailed : e'.assertFailed = e.assertFailed

namespace SameCircuit

variable {e e' e'' : Edge}

theorem refl (e : Edge) : SameCircuit e e := ⟨rfl, rfl, rfl, rfl, rfl, rfl⟩

theorem trans (h : SameCircuit e e') (h' : SameCircuit e' e'') : SameCircuit e e'' :=
  ⟨h'.packageWindow.trans h.packageWindow, h'.deliverWindow.trans h.deliverWindow,
    h'.ccontrol.trans h.ccontrol, h'.digests.trans h.digests, h'.status.trans h.status,
    h'.assertFailed.trans h.assertFailed⟩

theorem counts {w0 : ℤ} {inc : ℕ} {f : TagFlow inc} (h : SameCircuit e e') (hc : Counts w0 f e) :
    Counts w0 f e' := by
  unfold Counts at hc ⊢
  rw [h.ccontrol, h.packageWindow]
  exact hc

theorem sender {cfg : EdgeConfig} {w0 : ℤ} {inc : ℕ} {f : TagFlow inc} (h : SameCircuit e e')
    (hs : Sender cfg w0 f e) : Sender cfg w0 f e' :=
  ⟨h.digests.trans hs.digests, h.counts hs.counts, hs.length_tag⟩

theorem receiver {inc : ℕ} {f : TagFlow inc} (h : SameCircuit e e') (hr : Receiver f e) :
    Receiver f e' :=
  h.deliverWindow.trans hr

end SameCircuit

section Counting

variable {w0 : ℤ} {inc : ℕ} {f : TagFlow inc} {e : Edge}

theorem Counts.sendmeGetIncCount (hc : Counts w0 f e) : e.sendmeGetIncCount = inc := by
  unfold Counts at hc
  unfold Edge.sendmeGetIncCount
  cases hcontrol : e.ccontrol with
  | none =>
    rw [hcontrol] at hc
    rw [hc.1]
    rfl
  | some cc =>
    rw [hcontrol] at hc
    show (cc.sendmeInc.toNat : ℤ) = inc
    rw [hc.1]

/-- How many cells are not acknowledged, by the sender's own window. -/
theorem Counts.fixed (hc : Counts w0 f e) (hnone : e.ccontrol = none) :
    inc = 100 ∧ 100 ∣ w0 ∧ e.packageWindow = w0 - f.unacked ∧ 0 ≤ e.packageWindow := by
  unfold Counts at hc
  rw [hnone] at hc
  exact hc

theorem Counts.controlled {cc : CongestionControl} (hc : Counts w0 f e)
    (hsome : e.ccontrol = some cc) :
    cc.sendmeInc.toNat = inc ∧ cc.inflight.toNat = f.unacked
      ∧ cc.sendmePendingTimestamps.length = f.expected.length := by
  unfold Counts at hc
  rw [hsome] at hc
  exact hc

/-- With congestion control, a cell that may be sent finds fewer in flight than the window. -/
theorem inflight_lt {cc : CongestionControl} (h : 0 < cc.getPackageWindow) :
    cc.inflight.toNat < cc.cwnd.toNat := by
  unfold CongestionControl.getPackageWindow at h
  split_ifs at h with hgt hmax
  · exact absurd h (by omega)
  · have hle : cc.inflight ≤ cc.cwnd := UInt64.not_lt.mp hgt
    have hlt : (2147483647 : UInt64).toNat < (cc.cwnd - cc.inflight).toNat := UInt64.lt_iff_toNat_lt.mp hmax
    rw [UInt64.toNat_sub_of_le _ _ hle] at hlt
    omega
  · have hle : cc.inflight ≤ cc.cwnd := UInt64.not_lt.mp hgt
    rw [UInt64.toNat_sub_of_le _ _ hle] at h
    omega

/-- The sender expects a SENDME for the next cell if its number is a multiple of the increment. -/
theorem sentCellForSendme_iff (hsetup : Setup w0 inc) (hc : Counts w0 f e)
    (hopen : 0 < e.getPackageWindow) :
    e.circuitSentCellForSendme = true ↔ (f.sent.length + 1) % inc = 0 := by
  obtain ⟨htwo, -, hle⟩ := hsetup
  rw [← Flow.unacked_mod]
  unfold Edge.circuitSentCellForSendme
  split
  · rename_i cc hsome
    obtain ⟨hinc, hinflight, -⟩ := hc.controlled hsome
    have hlt : cc.inflight.toNat < cc.cwnd.toNat := by
      refine inflight_lt ?_
      unfold Edge.getPackageWindow at hopen
      rw [hsome] at hopen
      exact hopen
    have hcwnd := UInt64.toNat_lt cc.cwnd
    unfold CongestionControl.sentCellForSendme
    by_cases hzero : cc.inflight = 0
    · rw [if_pos hzero, ← hinflight, hzero]
      have : (1 : ℕ) % inc = 1 := Nat.mod_eq_of_lt htwo
      simp [this]
    · rw [if_neg hzero, decide_eq_true_iff, ← UInt64.toNat_inj, UInt64.toNat_mod, UInt64.toNat_add,
        UInt8.toNat_toUInt64, hinc, hinflight]
      show (f.unacked + 1) % 2 ^ 64 % inc = 0 ↔ _
      have hfits : (f.unacked + 1) % 2 ^ 64 = f.unacked + 1 := Nat.mod_eq_of_lt (by omega)
      rw [hfits]
  · rename_i hnone
    obtain ⟨hinc, hdvd, hwindow, -⟩ := hc.fixed hnone
    obtain ⟨m, hm⟩ := hdvd
    have hpos' : 0 < e.packageWindow := by
      unfold Edge.getPackageWindow at hopen
      rw [hnone] at hopen
      exact hopen
    subst hinc
    have hmod : (e.packageWindow - 1).tmod circwindowIncrement = (e.packageWindow - 1) % 100 :=
      Int.tmod_eq_emod_of_nonneg (by omega)
    by_cases hstart : e.packageWindow = circwindowStart
    · rw [if_pos hstart]
      unfold circwindowStart at hstart
      constructor
      · intro h
        cases h
      · intro h
        omega
    · rw [if_neg hstart, decide_eq_true_iff, hmod]
      omega

end Counting

/-! ## Sending a DATA cell -/

section Sending

variable {cfg : EdgeConfig} {w0 : ℤ} {inc : ℕ} {f : TagFlow inc} {e : Edge}

theorem getPackageWindow_controlled_nonneg (cc : CongestionControl) : 0 ≤ cc.getPackageWindow := by
  unfold CongestionControl.getPackageWindow
  split_ifs
  · exact le_refl 0
  · decide
  · omega

theorem sameCircuit_originate (msg : RelayMsg) : SameCircuit e (e.originate cfg msg).1 :=
  ⟨rfl, rfl, rfl, rfl, rfl, rfl⟩

/-- `sendme_note_circuit_data_packaged` counts one cell more. -/
theorem counts_note (hsetup : Setup w0 inc) (hc : Counts w0 f e) (hopen : 0 < e.getPackageWindow)
    (nowUsec : UInt64) (t : List UInt8) :
    Counts w0 (f.send t) (e.noteCircuitDataPackaged nowUsec) := by
  have hmark := sentCellForSendme_iff hsetup hc hopen
  have hunacked : (f.send t).unacked = f.unacked + 1 := Flow.unacked_send t
  unfold Edge.noteCircuitDataPackaged
  unfold Edge.circuitSentCellForSendme at hmark
  unfold Edge.getPackageWindow at hopen
  cases hcc : e.ccontrol with
  | none =>
    rw [hcc] at hopen
    obtain ⟨hinc, hdvd, hwindow, -⟩ := hc.fixed hcc
    have hpos : 0 < e.packageWindow := hopen
    show Counts w0 (f.send t) { e with packageWindow := e.packageWindow - 1, ccontrol := none }
    refine ⟨hinc, hdvd, ?_, ?_⟩
    · show e.packageWindow - 1 = w0 - ((f.send t).unacked : ℕ)
      omega
    · show 0 ≤ e.packageWindow - 1
      omega
  | some cc =>
    rw [hcc] at hmark hopen
    obtain ⟨hinc, hinflight, htimes⟩ := hc.controlled hcc
    have hlt := inflight_lt hopen
    have hcwnd := UInt64.toNat_lt cc.cwnd
    have hnext : (cc.inflight + 1).toNat = (f.send t).unacked := by
      rw [UInt64.toNat_add, hunacked, hinflight]
      show (f.unacked + 1) % 2 ^ 64 = f.unacked + 1
      exact Nat.mod_eq_of_lt (by omega)
    show Counts w0 (f.send t) { e with ccontrol := some (cc.noteCellSent nowUsec) }
    unfold CongestionControl.noteCellSent
    by_cases hsent : cc.sentCellForSendme = true
    · rw [if_pos hsent]
      refine ⟨hinc, hnext, ?_⟩
      rw [Flow.expected_send, if_pos (hmark.mp hsent), List.length_append, List.length_append,
        htimes]
      rfl
    · rw [if_neg hsent]
      refine ⟨hinc, hnext, ?_⟩
      rw [Flow.expected_send, if_neg fun h => hsent (hmark.mpr h), List.append_nil]
      exact htimes

/-- A cell is sent: the flow has one item more, and only the sender's part changes. -/
structure Sent (cfg : EdgeConfig) (w0 : ℤ) {inc : ℕ} (f : TagFlow inc) (e e' : Edge) : Prop where
  sender : Sender cfg w0 (f.send (cfg.tag e.originated)) e'
  deliverWindow : e'.deliverWindow = e.deliverWindow
  isSome : e'.ccontrol.isSome = e.ccontrol.isSome
  status : e'.status = .open
  assertFailed : e'.assertFailed = e.assertFailed
  streams : e'.streams = e.streams

theorem sendData_spec (hsetup : Setup w0 inc) (hs : Sender cfg w0 f e)
    (hopen : 0 < e.getPackageWindow) (hstatus : e.status = .open) (nowUsec : UInt64)
    (streamId : UInt16) :
    Sent cfg w0 f e (e.sendData cfg nowUsec streamId).1
      ∧ (e.sendData cfg nowUsec streamId).2 = ⟨.data streamId, cfg.tag e.originated⟩ := by
  obtain ⟨e₁, he₁⟩ : ∃ e₁, e₁ = (e.originate cfg (.data streamId)).1.recordCellDigestOnCirc cfg :=
    ⟨_, rfl⟩
  have hmark := sentCellForSendme_iff hsetup hs.counts hopen
  have hrecord : e₁ = { (e.originate cfg (.data streamId)).1 with
      sendmeLastDigests :=
        (f.send (cfg.tag e.originated)).expected.map (paddedTag cfg.crypto) } := by
    rw [he₁, Flow.expected_send, List.map_append, ← hs.digests]
    unfold Edge.recordCellDigestOnCirc
    by_cases hsent : e.circuitSentCellForSendme = true
    · rw [if_pos (show (e.originate cfg (.data streamId)).1.circuitSentCellForSendme = true from
        hsent), if_pos (hmark.mp hsent)]
      rfl
    · rw [if_neg (show ¬(e.originate cfg (.data streamId)).1.circuitSentCellForSendme = true from
        hsent), if_neg fun h => hsent (hmark.mpr h), List.map_nil, List.append_nil]
      rfl
  have hcounts : Counts w0 (f.send (cfg.tag e.originated)) (e₁.noteCircuitDataPackaged nowUsec) := by
    refine counts_note hsetup (e := e₁) ?_ ?_ nowUsec _
    · rw [hrecord]
      exact hs.counts
    · rw [hrecord]
      exact hopen
  have hwindow : ¬(e₁.noteCircuitDataPackaged nowUsec).getPackageWindow < 0 := by
    unfold Edge.getPackageWindow
    split
    · rename_i hnone
      exact not_lt.mpr (hcounts.fixed hnone).2.2.2
    · rename_i cc _
      exact not_lt.mpr (getPackageWindow_controlled_nonneg cc)
  have hresult : (e.sendData cfg nowUsec streamId).1 = e₁.noteCircuitDataPackaged nowUsec := by
    rw [he₁] at hwindow ⊢
    exact if_neg hwindow
  have hlength : ∀ t ∈ (f.send (cfg.tag e.originated)).sent, t.length = cfg.crypto.sendmeTagLen := by
    intro t ht
    rcases List.mem_append.mp ht with ht | ht
    · exact hs.length_tag t ht
    · rw [List.mem_singleton.mp ht]
      exact cfg.length_tag _
  refine ⟨?_, rfl⟩
  rw [hresult]
  have hnote : (e₁.noteCircuitDataPackaged nowUsec).sendmeLastDigests = e₁.sendmeLastDigests
      ∧ (e₁.noteCircuitDataPackaged nowUsec).deliverWindow = e₁.deliverWindow
      ∧ (e₁.noteCircuitDataPackaged nowUsec).ccontrol.isSome = e₁.ccontrol.isSome
      ∧ (e₁.noteCircuitDataPackaged nowUsec).status = e₁.status
      ∧ (e₁.noteCircuitDataPackaged nowUsec).assertFailed = e₁.assertFailed
      ∧ (e₁.noteCircuitDataPackaged nowUsec).streams = e₁.streams := by
    unfold Edge.noteCircuitDataPackaged
    split
    · rename_i hsome
      rw [hsome]
      exact ⟨rfl, rfl, rfl, rfl, rfl, rfl⟩
    · exact ⟨rfl, rfl, rfl, rfl, rfl, rfl⟩
  obtain ⟨hdigests, hdeliver, hisSome, hstatus', hassert, hstreams⟩ := hnote
  rw [hrecord] at hdigests hdeliver hisSome hstatus' hassert hstreams hcounts ⊢
  exact
    { sender := ⟨hdigests, hcounts, hlength⟩
      deliverWindow := hdeliver
      isSome := hisSome
      status := hstatus'.trans hstatus
      assertFailed := hassert
      streams := hstreams }

/-- One turn of the packaging loop: nothing happens, or a cell is sent and both windows are above
zero before. -/
theorem packageRawInbuf_cases (hsetup : Setup w0 inc) (hs : Sender cfg w0 f e)
    (hstatus : e.status = .open) (nowUsec : UInt64) (streamId : UInt16) :
    e.packageRawInbuf cfg nowUsec streamId = (e, [])
      ∨ ∃ stream e₁, e.streams streamId = some stream ∧ 0 < stream.packageWindow
        ∧ Sent cfg w0 f e e₁
        ∧ e.packageRawInbuf cfg nowUsec streamId
          = (e₁.noteStreamDataPackaged streamId stream,
            [⟨.data streamId, cfg.tag e.originated⟩]) := by
  unfold Edge.packageRawInbuf
  split
  · exact .inl rfl
  · rename_i stream hstream
    rw [if_neg (not_not_intro hstatus)]
    split_ifs with hclosed hstream_closed
    · exact .inl rfl
    · exact .inl rfl
    · obtain ⟨hsent, hcell⟩ :=
        sendData_spec hsetup hs (not_le.mp hclosed) hstatus nowUsec streamId
      refine .inr ⟨stream, _, hstream, not_le.mp hstream_closed, hsent, ?_⟩
      dsimp only
      rw [if_pos hsent.status, hcell]

end Sending

/-! ## Acknowledging -/

/-- The payload of a SENDME for a cell with a tag. -/
def honestPayload (cfg : EdgeConfig) (tag : List UInt8) : List UInt8 :=
  if cfg.emitMinVersion = 1 then 1 :: be16 (.ofNat tag.length) ++ tag else []

section Acknowledging

variable {cfg : EdgeConfig} {w0 : ℤ} {inc : ℕ} {f : TagFlow inc} {e : Edge}

theorem sendmeTagLen_cases (crypto : RelayCryptoKind) :
    crypto.sendmeTagLen = 20 ∨ crypto.sendmeTagLen = 16 := by
  cases crypto with
  | tor1 => exact .inl rfl
  | cgo => exact .inr rfl

/-- `sendme_cell_encode` of a version 1 cell. -/
theorem sendmeCellEncode_v1 {avail : ℕ} {dataLen : UInt16} {tag : List UInt8}
    (hdata : dataLen = 16 ∨ dataLen = 20) (hroom : 3 + tag.length ≤ avail)
    (hshort : tag.length ≤ 65535) :
    sendmeCellEncode avail ⟨1, dataLen, tag⟩ = some (1 :: be16 (.ofNat tag.length) ++ tag) := by
  have hcheck : sendmeCellCheck ⟨1, dataLen, tag⟩ = true := by
    unfold sendmeCellCheck
    rcases hdata with rfl | rfl
    · rfl
    · rfl
  unfold sendmeCellEncode
  rw [hcheck, if_neg (by decide)]
  dsimp only
  rw [if_pos rfl, if_neg (by omega), if_neg (by omega)]

theorem sendmePayload_eq {tag : List UInt8} (htag : tag.length = cfg.crypto.sendmeTagLen) :
    Edge.sendmePayload cfg tag = some (honestPayload cfg tag) := by
  unfold Edge.sendmePayload honestPayload Edge.buildCellPayloadV1
  split_ifs with hemit
  · have htake : tag.take cfg.crypto.sendmeTagLen = tag := by
      rw [← htag, List.take_length]
    rw [htake]
    rcases sendmeTagLen_cases cfg.crypto with hlen | hlen
    all_goals
      rw [hlen] at htag ⊢
      exact sendmeCellEncode_v1 (by decide)
        (by rw [htag]; decide) (by omega)
  · rfl

/-- What is left of the receiver's window when one cell more has arrived. -/
def afterData (inc received : ℕ) : ℤ := 1000 - (received % inc : ℕ) - 1

/-- A cell that is not acknowledged. -/
theorem circuitConsiderSending_of_not (hsetup : Setup w0 inc) {received : ℕ}
    (hcount : e.sendmeGetIncCount = inc) (hwindow : e.deliverWindow = afterData inc received)
    (hmark : (received + 1) % inc ≠ 0) : e.circuitConsiderSending cfg = (e, []) := by
  have hpos : 0 < inc := by have := hsetup.two_le; omega
  have hlt : received % inc < inc := Nat.mod_lt received hpos
  have hne : received % inc + 1 ≠ inc := by
    intro h
    apply hmark
    rw [Nat.add_mod, Nat.mod_eq_of_lt (show 1 < inc from hsetup.two_le), h, Nat.mod_self]
  have hcond : ¬e.deliverWindow ≤ circwindowStart - e.sendmeGetIncCount := by
    rw [hcount, hwindow]
    unfold afterData circwindowStart
    omega
  unfold Edge.circuitConsiderSending
  cases (circwindowStart + 1 - e.deliverWindow).toNat with
  | zero =>
    unfold Edge.circuitConsiderSendingLoop
    rw [if_neg hcond]
  | succ fuel =>
    unfold Edge.circuitConsiderSendingLoop
    rw [if_neg hcond]

/-- A cell that is acknowledged: one SENDME is sent, with the tag of the cell. -/
theorem circuitConsiderSending_of_mark (hsetup : Setup w0 inc) {received : ℕ}
    (hcount : e.sendmeGetIncCount = inc) (hwindow : e.deliverWindow = afterData inc received)
    (htag : e.sendmeTag.length = cfg.crypto.sendmeTagLen) (hmark : (received + 1) % inc = 0) :
    ∃ e' cell, e.circuitConsiderSending cfg = (e', [cell])
      ∧ cell.msg = .sendme 0 (honestPayload cfg e.sendmeTag)
      ∧ SameCircuit { e with deliverWindow := 1000 } e' ∧ e'.streams = e.streams := by
  have hpos : 0 < inc := by have := hsetup.two_le; omega
  have hlt : received % inc < inc := Nat.mod_lt received hpos
  have heq : received % inc + 1 = inc := by
    by_contra hne
    have hmod : (received + 1) % inc = received % inc + 1 := by
      rw [Nat.add_mod, Nat.mod_eq_of_lt (show 1 < inc from hsetup.two_le)]
      exact Nat.mod_eq_of_lt (by omega)
    omega
  have hdeliver : e.deliverWindow = 1000 - (inc : ℤ) := by
    rw [hwindow]
    unfold afterData
    omega
  obtain ⟨fuel, hfuel⟩ : ∃ fuel, (circwindowStart + 1 - e.deliverWindow).toNat = fuel + 2 := by
    refine ⟨inc - 1, ?_⟩
    rw [hdeliver]
    unfold circwindowStart
    have := hsetup.two_le
    omega
  have hcond : e.deliverWindow ≤ circwindowStart - e.sendmeGetIncCount := by
    rw [hcount, hdeliver]
    exact le_refl _
  have hnext : e.deliverWindow + e.sendmeGetIncCount = 1000 := by
    rw [hcount, hdeliver]
    omega
  have hstop : ∀ e' : Edge, e'.deliverWindow = 1000 → e'.sendmeGetIncCount = inc →
      e'.circuitConsiderSendingLoop cfg (fuel + 1) true = (e', []) := by
    intro e' hdeliver' hcount'
    unfold Edge.circuitConsiderSendingLoop
    rw [if_neg]
    rw [hcount', hdeliver']
    unfold circwindowStart
    omega
  unfold Edge.circuitConsiderSending
  rw [hfuel, Edge.circuitConsiderSendingLoop, if_pos hcond]
  dsimp only
  rw [sendmePayload_eq htag]
  dsimp only [Edge.originate]
  rw [hnext, hstop]
  · exact ⟨_, _, rfl, rfl, ⟨rfl, rfl, rfl, rfl, rfl, by simp⟩, rfl⟩
  · rfl
  · exact hcount

end Acknowledging

/-! ## Being acknowledged -/

/-- The version of the SENDMEs that an end sends. -/
def emittedVersion (cfg : EdgeConfig) : UInt8 := if cfg.emitMinVersion = 1 then 1 else 0

section Acknowledged

variable {cfg : EdgeConfig} {w0 : ℤ} {inc : ℕ} {f : TagFlow inc} {e : Edge}

/-- `sendme_cell_parse` of what `sendme_cell_encode` wrote. -/
theorem sendmeCellParse_encode {tag : List UInt8} (htag : tag.length = 16 ∨ tag.length = 20) :
    sendmeCellParse (1 :: be16 (.ofNat tag.length) ++ tag) = some ⟨1, .ofNat tag.length, tag⟩ := by
  have hlen : (UInt8.ofNat ((UInt16.ofNat tag.length).toNat / 256)).toNat * 256
      + (UInt8.ofNat ((UInt16.ofNat tag.length).toNat % 256)).toNat = tag.length := by
    rcases htag with h | h
    all_goals
      rw [h]
      rfl
  unfold be16
  simp only [List.cons_append, List.nil_append, sendmeCellParse]
  rw [hlen, if_neg (by decide), if_neg (by omega), if_neg (lt_irrefl _), if_pos trivial,
    List.take_length]

theorem take_paddedTag {crypto : RelayCryptoKind} {tag : List UInt8}
    (htag : tag.length = crypto.sendmeTagLen) :
    (paddedTag crypto tag).take crypto.sendmeTagLen = tag := by
  rw [← htag]
  cases crypto with
  | tor1 => exact List.take_length
  | cgo => exact List.take_left

/-- A SENDME with the tag of the cell it is for has the version of its sender and is valid. -/
theorem honestPayload_valid (peer : EdgeConfig) {tag : List UInt8}
    (htag : tag.length = cfg.crypto.sendmeTagLen) :
    ∃ cell, sendmeVersion (honestPayload peer tag) = some (emittedVersion peer, cell)
      ∧ validByVersion cfg (emittedVersion peer) cell (paddedTag cfg.crypto tag) = true := by
  unfold honestPayload emittedVersion
  split_ifs with hemit
  · have hlen : tag.length = 16 ∨ tag.length = 20 := by
      rcases sendmeTagLen_cases cfg.crypto with h | h
      · exact .inr (htag.trans h)
      · exact .inl (htag.trans h)
    have hnat : (UInt16.ofNat tag.length).toNat = tag.length := by
      rcases hlen with h | h
      all_goals
        rw [h]
        rfl
    refine ⟨some ⟨1, .ofNat tag.length, tag⟩, ?_, ?_⟩
    · unfold sendmeVersion
      rw [if_neg (by simp), sendmeCellParse_encode hlen]
      rfl
    · have hok : tagLenOk tag.length = true := by
        rcases hlen with h | h
        all_goals
          rw [h]
          rfl
      unfold validByVersion cellV1IsValid v1TagMatches
      dsimp only
      rw [if_pos rfl, hnat, hok, if_neg (by decide), if_neg (lt_irrefl _),
        if_neg (not_not_intro htag), htag, take_paddedTag htag, ← htag, List.take_length]
      exact decide_eq_true rfl
  · exact ⟨none, rfl, rfl⟩

/-- What `sendme_is_valid` accepted. -/
theorem sendmeIsValid_true {payload : List UInt8} (h : (e.sendmeIsValid cfg payload).2 = true) :
    ∃ cellVersion cell circDigest rest, sendmeVersion payload = some (cellVersion, cell)
      ∧ versionPermitted cfg cellVersion = true
      ∧ e.sendmeLastDigests = circDigest :: rest
      ∧ validByVersion cfg cellVersion cell circDigest = true
      ∧ (e.sendmeIsValid cfg payload).1 = { e with sendmeLastDigests := rest } := by
  unfold Edge.sendmeIsValid at h ⊢
  cases hversion : sendmeVersion payload with
  | none =>
    rw [hversion] at h
    cases h
  | some parsed =>
    obtain ⟨cellVersion, cell⟩ := parsed
    rw [hversion] at h
    dsimp only at h ⊢
    by_cases hpermit : versionPermitted cfg cellVersion = false
    · rw [if_pos hpermit] at h
      cases h
    · rw [if_neg hpermit] at h ⊢
      cases hdigests : e.sendmeLastDigests with
      | nil =>
        rw [hdigests] at h
        cases h
      | cons circDigest rest =>
        rw [hdigests] at h
        exact ⟨cellVersion, cell, circDigest, rest, rfl, by simpa using hpermit, rfl, h, rfl⟩

/-- A SENDME is taken: the flow has one acknowledgement more, and only the sender's part changes. -/
structure Acked (cfg : EdgeConfig) (w0 : ℤ) {inc : ℕ} (f : TagFlow inc) (e e' : Edge) : Prop where
  sender : Sender cfg w0 f e'
  deliverWindow : e'.deliverWindow = e.deliverWindow
  isSome : e'.ccontrol.isSome = e.ccontrol.isSome
  status : e'.status = e.status
  assertFailed : e'.assertFailed = e.assertFailed
  streams : e'.streams = e.streams

/-- `sendme_process_circuit_level` behind a SENDME that is valid: the window is what it should be,
no check of its size fails and no list runs out. -/
theorem processCircuitLevel_valid (hsetup : Setup w0 inc) (hs : Sender cfg w0 f e)
    (hlt : f.acked < f.received / inc) {payload : List UInt8} {tag : List UInt8}
    (hexpected : f.expected = tag :: (f.takeAck hlt).expected)
    (hvalid : e.sendmeIsValid cfg payload
      = ({ e with sendmeLastDigests := (f.takeAck hlt).expected.map (paddedTag cfg.crypto) }, true))
    (reading : CcReading) :
    Acked cfg w0 (f.takeAck hlt) e (e.processCircuitLevel cfg reading payload) := by
  obtain ⟨hle, hunacked⟩ := Flow.unacked_takeAck hlt
  unfold Edge.processCircuitLevel
  rw [hvalid]
  dsimp only
  rw [if_neg (by decide)]
  cases hcc : e.ccontrol with
  | none =>
    obtain ⟨hinc, hdvd, hwindow, hnonneg⟩ := hs.counts.fixed hcc
    have hroom : ¬e.packageWindow + circwindowIncrement > circwindowStart := by
      have := hsetup.w0_le
      unfold circwindowIncrement circwindowStart
      omega
    unfold Edge.processCircuitLevelImpl
    dsimp only
    rw [if_neg hroom]
    refine ⟨⟨rfl, ?_, hs.length_tag⟩, rfl, by rw [hcc], rfl, rfl, rfl⟩
    refine ⟨hinc, hdvd, ?_, ?_⟩
    · show e.packageWindow + 100 = w0 - ((f.takeAck hlt).unacked : ℕ)
      omega
    · show 0 ≤ e.packageWindow + 100
      omega
  | some cc =>
    obtain ⟨hinc, hinflight, htimes⟩ := hs.counts.controlled hcc
    obtain ⟨timestamp, rest, hpending⟩ : ∃ timestamp rest,
        cc.sendmePendingTimestamps = timestamp :: rest := by
      refine List.exists_cons_of_length_eq_add_one (n := (f.takeAck hlt).expected.length) ?_
      rw [htimes, hexpected, List.length_cons]
    obtain ⟨cc', hdispatch, hinflight', hinc', hpending'⟩ :=
      CongestionControl.dispatchCcAlg_cons cfg.globals reading hpending
    dsimp only
    rw [hdispatch]
    refine ⟨⟨rfl, ?_, hs.length_tag⟩, rfl, by rw [hcc]; rfl, rfl, rfl, rfl⟩
    show cc'.sendmeInc.toNat = inc ∧ cc'.inflight.toNat = (f.takeAck hlt).unacked
      ∧ cc'.sendmePendingTimestamps.length = (f.takeAck hlt).expected.length
    refine ⟨hinc' ▸ hinc, ?_, ?_⟩
    · have hsub : cc.sendmeInc.toUInt64 ≤ cc.inflight := by
        rw [UInt64.le_iff_toNat_le, UInt8.toNat_toUInt64, hinc, hinflight]
        exact hle
      rw [hinflight', UInt64.toNat_sub_of_le _ _ hsub, UInt8.toNat_toUInt64, hinc, hinflight,
        hunacked]
    · have hlen : cc.sendmePendingTimestamps.length = rest.length + 1 := by
        rw [hpending, List.length_cons]
      rw [htimes, hexpected, List.length_cons] at hlen
      rw [hpending']
      omega

/-- The SENDME that the other end sent for a cell is taken. -/
theorem processCircuitLevel_honest (hsetup : Setup w0 inc) (hs : Sender cfg w0 f e)
    {peer : EdgeConfig} (hversion : versionPermitted cfg (emittedVersion peer) = true) {tag : List UInt8}
    {acks : List (List UInt8)} (hack : f.ackInFlight = tag :: acks) (reading : CcReading) :
    Acked cfg w0 (f.takeAck (Flow.acked_lt hack)) e
      (e.processCircuitLevel cfg reading (honestPayload peer tag)) := by
  have hexpected := Flow.expected_takeAck hack
  have hmem : tag ∈ f.sent := by
    have hexp : tag ∈ f.expected := by
      rw [hexpected]
      exact List.mem_cons_self
    exact mem_of_mem_marks (List.mem_of_mem_drop hexp)
  obtain ⟨cell, hparsed, hvalid⟩ := honestPayload_valid peer (hs.length_tag tag hmem)
  refine processCircuitLevel_valid hsetup hs _ hexpected ?_ reading
  unfold Edge.sendmeIsValid
  rw [hparsed]
  dsimp only
  rw [if_neg (by simp [hversion]), hs.digests, hexpected, List.map_cons]
  dsimp only
  rw [hvalid]

end Acknowledged

end Dittor.Tor.Sendme
