import Dittor.Lib.Buffer
import Dittor.Tor.CongestionControl

/-!
# SENDME cells

The two windows of a circuit and of its streams (`sendme.c`, and the parts of `relay.c` and
`congestion_control_common.c` that call it or are called by it). `Edge` is one end of a circuit: the
client, whose windows are those of the hop its streams exit from, or that hop, whose windows are
those of the circuit. The source picks the one or the other at each access (`layer_hint`).

The encryption is not part of the model. What `sendme.c` reads of it is the tag of the last cell that
was originated or recognized; `EdgeConfig.tag` are the tags the encryption makes of the cells an end
originates, and a cell on the wire has its tag with it, since the other end computes the same.
Conflux and the XON/XOFF of streams on a circuit with congestion control are left out.
-/

namespace Dittor.Tor.Sendme

open Dittor.Lib

/-! ## The cell -/

/-- `sendme_cell_t` -/
structure SendmeCell where
  version : UInt8
  dataLen : UInt16
  dataV1Digest : List UInt8
  deriving DecidableEq

/-- What `sendme_cell_check` accepts. -/
def sendmeCellCheck (cell : SendmeCell) : Bool :=
  (cell.version = 0 || cell.version = 1) && (cell.dataLen = 16 || cell.dataLen = 20)

/-- `sendme_cell_parse`. What is behind the cell is not looked at. -/
def sendmeCellParse : List UInt8 → Option SendmeCell
  | version :: hi :: lo :: rest =>
    if version ≠ 0 ∧ version ≠ 1 then none
    else
      let dataLen := hi.toNat * 256 + lo.toNat
      if dataLen ≠ 16 ∧ dataLen ≠ 20 then none
      else if rest.length < dataLen then none
      else some ⟨version, .ofNat dataLen, if version = 1 then rest.take dataLen else []⟩
  | _ => none

/-- `sendme_cell_encode` into a buffer of `avail` bytes. The length written is that of the digest. -/
def sendmeCellEncode (avail : ℕ) (cell : SendmeCell) : Option (List UInt8) :=
  if sendmeCellCheck cell = false then none
  else
    let data := if cell.version = 1 then cell.dataV1Digest else []
    if avail < 3 + data.length then none
    else if data.length > 65535 then none
    else some (cell.version :: be16 (.ofNat data.length) ++ data)

/-- `RELAY_PAYLOAD_SIZE_MAX` -/
def relayPayloadSizeMax : ℕ := 509 - 11

/-! ## An end of a circuit -/

/-- The kind of a `relay_crypto_t`. -/
inductive RelayCryptoKind where
  | tor1
  | cgo
  deriving DecidableEq

/-- `relay_crypto_sendme_tag_len` -/
def RelayCryptoKind.sendmeTagLen : RelayCryptoKind → ℕ
  | .tor1 => 20
  | .cgo => 16

/-- What stays as it is while a circuit is used. -/
structure EdgeConfig where
  isOrigin : Bool
  /-- The circuit was made with CREATE_FAST; only a relay's circuit says so. -/
  usedLegacyCircuitHandshake : Bool
  /-- The consensus parameters `sendme_emit_min_version` and `sendme_accept_min_version`. -/
  emitMinVersion : UInt8
  acceptMinVersion : UInt8
  globals : CcGlobals
  crypto : RelayCryptoKind
  /-- The tag of the cell number `n` that this end originates. -/
  tag : ℕ → List UInt8
  length_tag : ∀ n, (tag n).length = crypto.sendmeTagLen

/-- The reasons a circuit is closed for. -/
inductive EndCircReason where
  | torprotocol
  | internal
  deriving DecidableEq

/-- What has become of a circuit. -/
inductive CircStatus where
  | open
  | markedForClose (reason : EndCircReason)
  /-- A list was read past its end. -/
  | crashed
  /-- A loop without end: every SENDME acknowledges 0 cells. -/
  | hung
  deriving DecidableEq

/-- The windows of an `edge_connection_t`. -/
structure Stream where
  packageWindow : ℤ
  deliverWindow : ℤ
  deriving DecidableEq

/-- One end of a circuit, and its streams. -/
structure Edge where
  packageWindow : ℤ
  deliverWindow : ℤ
  ccontrol : Option CongestionControl
  sendmeLastDigests : List (List UInt8)
  /-- The tag of the last cell originated or recognized. -/
  sendmeTag : List UInt8
  /-- How many cells this end has originated. -/
  originated : ℕ
  streams : UInt16 → Option Stream
  status : CircStatus
  /-- `tor_assert_nonfatal(!sent_one_sendme)` has failed. -/
  assertFailed : Bool

/-- A relay message, as far as the windows depend on it. -/
inductive RelayMsg where
  | data (streamId : UInt16)
  | sendme (streamId : UInt16) (body : List UInt8)
  | other
  deriving DecidableEq

/-- A relay cell on its way, with the tag the encryption gave it. -/
structure Cell where
  msg : RelayMsg
  tag : List UInt8
  deriving DecidableEq

/-- `CIRCWINDOW_START`, `CIRCWINDOW_START_MAX` -/
def circwindowStart : ℤ := 1000

/-- `CIRCWINDOW_INCREMENT` -/
def circwindowIncrement : ℤ := 100

/-- `STREAMWINDOW_START`, `STREAMWINDOW_START_MAX` -/
def streamwindowStart : ℤ := 500

/-- `STREAMWINDOW_INCREMENT` -/
def streamwindowIncrement : ℤ := 50

namespace Edge

/-- `congestion_control_get_package_window` -/
def getPackageWindow (e : Edge) : ℤ :=
  match e.ccontrol with
  | none => e.packageWindow
  | some cc => cc.getPackageWindow

/-- `sendme_get_inc_count` -/
def sendmeGetIncCount (e : Edge) : ℤ :=
  match e.ccontrol with
  | none => circwindowIncrement
  | some cc => cc.sendmeInc.toNat

/-- `circuit_sent_cell_for_sendme` -/
def circuitSentCellForSendme (e : Edge) : Bool :=
  match e.ccontrol with
  | some cc => cc.sentCellForSendme
  | none =>
    if e.packageWindow = circwindowStart then false
    else (e.packageWindow - 1).tmod circwindowIncrement = 0

/-- `circuit_mark_for_close` -/
def markForClose (e : Edge) (reason : EndCircReason) : Edge :=
  { e with status := .markedForClose reason }

/-- The stream with an id changes its windows. -/
def setStream (e : Edge) (streamId : UInt16) (stream : Stream) : Edge :=
  { e with streams := Function.update e.streams streamId (some stream) }

/-! ## Sending -/

/-- A cell is encrypted and queued. -/
def originate (cfg : EdgeConfig) (e : Edge) (msg : RelayMsg) : Edge × Cell :=
  let tag := cfg.tag e.originated
  ({ e with sendmeTag := tag, originated := e.originated + 1 }, ⟨msg, tag⟩)

end Edge

/-- The digest that `record_cell_digest_on_circ` stores: 20 bytes, whatever the tag. -/
def paddedTag (crypto : RelayCryptoKind) (tag : List UInt8) : List UInt8 :=
  match crypto with
  | .tor1 => tag
  | .cgo => tag ++ [0, 0, 0, 0]

namespace Edge

/-- `sendme_record_cell_digest_on_circ` -/
def recordCellDigestOnCirc (cfg : EdgeConfig) (e : Edge) : Edge :=
  if e.circuitSentCellForSendme then
    { e with sendmeLastDigests := e.sendmeLastDigests ++ [paddedTag cfg.crypto e.sendmeTag] }
  else e

/-- `sendme_note_circuit_data_packaged`; what it returns is `getPackageWindow` of the result. -/
def noteCircuitDataPackaged (e : Edge) (nowUsec : UInt64) : Edge :=
  match e.ccontrol with
  | some cc => { e with ccontrol := some (cc.noteCellSent nowUsec) }
  | none => { e with packageWindow := e.packageWindow - 1 }

/-- `relay_send_command_from_edge` for a DATA cell. -/
def sendData (cfg : EdgeConfig) (nowUsec : UInt64) (e : Edge) (streamId : UInt16) : Edge × Cell :=
  let (e, cell) := e.originate cfg (.data streamId)
  let e := (e.recordCellDigestOnCirc cfg).noteCircuitDataPackaged nowUsec
  (if e.getPackageWindow < 0 then e.markForClose .torprotocol else e, cell)

/-- `sendme_note_stream_data_packaged` -/
def noteStreamDataPackaged (e : Edge) (streamId : UInt16) (stream : Stream) : Edge :=
  if e.ccontrol.isSome then e
  else e.setStream streamId { stream with packageWindow := stream.packageWindow - 1 }

/-- One turn of `connection_edge_package_raw_inbuf`, when the stream has data. -/
def packageRawInbuf (cfg : EdgeConfig) (nowUsec : UInt64) (e : Edge) (streamId : UInt16) :
    Edge × List Cell :=
  match e.streams streamId with
  | none => (e, [])
  | some stream =>
    if e.status ≠ .open then (e, [])
    else if e.getPackageWindow ≤ 0 then (e, [])
    else if stream.packageWindow ≤ 0 then (e, [])
    else
      let (e, cell) := e.sendData cfg nowUsec streamId
      (if e.status = .open then e.noteStreamDataPackaged streamId stream else e, [cell])

/-! ## Acknowledging -/

/-- `build_cell_payload_v1` -/
def buildCellPayloadV1 (crypto : RelayCryptoKind) (tag : List UInt8) : Option (List UInt8) :=
  sendmeCellEncode relayPayloadSizeMax
    ⟨1, .ofNat crypto.sendmeTagLen, tag.take crypto.sendmeTagLen⟩

/-- The payload of `send_circuit_level_sendme`. -/
def sendmePayload (cfg : EdgeConfig) (tag : List UInt8) : Option (List UInt8) :=
  if cfg.emitMinVersion = 1 then buildCellPayloadV1 cfg.crypto tag else some []

/-- The loop of `sendme_circuit_consider_sending`; `sent` says that it has sent a SENDME. -/
def circuitConsiderSendingLoop (cfg : EdgeConfig) : ℕ → Bool → Edge → Edge × List Cell
  | 0, _, e =>
    (if e.deliverWindow ≤ circwindowStart - e.sendmeGetIncCount then { e with status := .hung }
      else e, [])
  | fuel + 1, sent, e =>
    if e.deliverWindow ≤ circwindowStart - e.sendmeGetIncCount then
      let e := { e with deliverWindow := e.deliverWindow + e.sendmeGetIncCount }
      match sendmePayload cfg e.sendmeTag with
      | none => (e, [])
      | some payload =>
        let (e, cell) := e.originate cfg (.sendme 0 payload)
        let (e, cells) :=
          circuitConsiderSendingLoop cfg fuel true { e with assertFailed := e.assertFailed || sent }
        (e, cell :: cells)
    else (e, [])

/-- `sendme_circuit_consider_sending` -/
def circuitConsiderSending (cfg : EdgeConfig) (e : Edge) : Edge × List Cell :=
  circuitConsiderSendingLoop cfg (circwindowStart + 1 - e.deliverWindow).toNat false e

/-- The loop of `sendme_connection_edge_consider_sending`. -/
def streamConsiderSendingLoop (cfg : EdgeConfig) (streamId : UInt16) :
    ℕ → Stream → Edge → Edge × List Cell
  | 0, stream, e => (e.setStream streamId stream, [])
  | fuel + 1, stream, e =>
    if stream.deliverWindow ≤ streamwindowStart - streamwindowIncrement then
      let stream := { stream with deliverWindow := stream.deliverWindow + streamwindowIncrement }
      let (e, cell) := e.originate cfg (.sendme streamId [])
      let (e, cells) := streamConsiderSendingLoop cfg streamId fuel stream e
      (e, cell :: cells)
    else (e.setStream streamId stream, [])

/-- `sendme_connection_edge_consider_sending`, when the outbuf is not too full. -/
def streamConsiderSending (cfg : EdgeConfig) (streamId : UInt16) (e : Edge) : Edge × List Cell :=
  match e.streams streamId with
  | none => (e, [])
  | some stream =>
    if e.ccontrol.isSome ∨ e.status ≠ .open then (e, [])
    else
      streamConsiderSendingLoop cfg streamId (streamwindowStart + 1 - stream.deliverWindow).toNat
        stream e

/-! ## Being acknowledged -/

end Edge

/-- `tag_len_ok` -/
def tagLenOk (tagLen : ℕ) : Bool := tagLen = 16 || tagLen = 20

/-- `v1_tag_matches` -/
def v1TagMatches (circDigest cellTag : List UInt8) (tagLen : ℕ) : Bool :=
  circDigest.take tagLen = cellTag.take tagLen

/-- `cell_v1_is_valid` -/
def cellV1IsValid (cell : SendmeCell) (circDigest : List UInt8) (circDigestLen : ℕ) : Bool :=
  let tagLen := cell.dataLen.toNat
  if tagLenOk tagLen = false then false
  else if cell.dataV1Digest.length < tagLen then false
  else if tagLen ≠ circDigestLen then false
  else v1TagMatches circDigest cell.dataV1Digest tagLen

/-- `SENDME_MAX_SUPPORTED_VERSION` -/
def sendmeMaxSupportedVersion : UInt8 := 1

/-- `cell_version_can_be_handled` -/
def cellVersionCanBeHandled (acceptVersion cellVersion : UInt8) : Bool :=
  if acceptVersion > sendmeMaxSupportedVersion then false
  else if cellVersion < acceptVersion then false
  else if cellVersion > sendmeMaxSupportedVersion then false
  else true

/-- The version of `sendme_is_valid`, with the cell if one was parsed. -/
def sendmeVersion (payload : List UInt8) : Option (UInt8 × Option SendmeCell) :=
  if payload = [] then some (0, none)
  else (sendmeCellParse payload).map fun cell => (cell.version, some cell)

/-- The version is one that `sendme_is_valid` goes on with. -/
def versionPermitted (cfg : EdgeConfig) (cellVersion : UInt8) : Bool :=
  (!cfg.isOrigin && cfg.usedLegacyCircuitHandshake && cellVersion = 0)
    || cellVersionCanBeHandled cfg.acceptMinVersion cellVersion

/-- The `switch` of `sendme_is_valid`. -/
def validByVersion (cfg : EdgeConfig) (cellVersion : UInt8) (cell : Option SendmeCell)
    (circDigest : List UInt8) : Bool :=
  match cell with
  | some cell => if cellVersion = 1 then cellV1IsValid cell circDigest cfg.crypto.sendmeTagLen else true
  | none => true

namespace Edge

/-- `sendme_is_valid`, with the list of digests it leaves. -/
def sendmeIsValid (cfg : EdgeConfig) (e : Edge) (payload : List UInt8) : Edge × Bool :=
  match sendmeVersion payload with
  | none => (e, false)
  | some (cellVersion, cell) =>
    if versionPermitted cfg cellVersion = false then (e, false)
    else
      -- `pop_first_cell_digest`
      match e.sendmeLastDigests with
      | [] => (e, false)
      | circDigest :: rest =>
        ({ e with sendmeLastDigests := rest }, validByVersion cfg cellVersion cell circDigest)

/-- `sendme_process_circuit_level_impl` -/
def processCircuitLevelImpl (e : Edge) : Edge :=
  if e.packageWindow + circwindowIncrement > circwindowStart then e.markForClose .torprotocol
  else { e with packageWindow := e.packageWindow + circwindowIncrement }

/-- `sendme_process_circuit_level` -/
def processCircuitLevel (cfg : EdgeConfig) (reading : CcReading) (e : Edge) (payload : List UInt8) :
    Edge :=
  let (e, valid) := e.sendmeIsValid cfg payload
  if valid = false then e.markForClose .torprotocol
  else
    match e.ccontrol with
    | none => e.processCircuitLevelImpl
    | some cc =>
      match cc.dispatchCcAlg cfg.globals reading with
      | none => { e with status := .crashed }
      | some cc => { e with ccontrol := some cc }

/-- `sendme_process_stream_level` -/
def processStreamLevel (e : Edge) (streamId : UInt16) (stream : Stream) : Edge :=
  if e.ccontrol.isSome then e.markForClose .torprotocol
  else if stream.packageWindow + streamwindowIncrement > streamwindowStart then
    e.markForClose .torprotocol
  else e.setStream streamId { stream with packageWindow := stream.packageWindow + streamwindowIncrement }

/-- The DATA case of `handle_relay_msg`; `mayAck` says that the data is not optimistic and the
outbuf not too full. -/
def handleData (cfg : EdgeConfig) (mayAck : Bool) (e : Edge) (streamId : UInt16) :
    Edge × List Cell :=
  match (if streamId = 0 then none else e.streams streamId) with
  | none => (e, [])
  | some stream =>
    -- `sendme_stream_data_received`; with congestion control it returns 0
    let stream :=
      if e.ccontrol.isSome then stream
      else { stream with deliverWindow := stream.deliverWindow - 1 }
    let e := e.setStream streamId stream
    if e.ccontrol.isNone ∧ stream.deliverWindow < 0 then (e.markForClose .torprotocol, [])
    else if mayAck then e.streamConsiderSending cfg streamId
    else (e, [])

/-- A DATA cell in `connection_edge_process_relay_cell`. -/
def processData (cfg : EdgeConfig) (mayAck : Bool) (e : Edge) (streamId : UInt16) :
    Edge × List Cell :=
  let e := { e with deliverWindow := e.deliverWindow - 1 }
  if e.deliverWindow < 0 then (e.markForClose .torprotocol, [])
  else
    let (e, acks) := e.circuitConsiderSending cfg
    if e.status ≠ .open then (e, acks)
    else
      let (e, streamAcks) := e.handleData cfg mayAck streamId
      (e, acks ++ streamAcks)

/-- `circuit_receive_relay_cell` and `connection_edge_process_relay_cell`, for a cell that is
recognized. -/
def receiveRelayCell (cfg : EdgeConfig) (mayAck : Bool) (reading : CcReading) (e : Edge)
    (cell : Cell) : Edge × List Cell :=
  if e.status ≠ .open then (e, [])
  else
    let e := { e with sendmeTag := cell.tag }
    match cell.msg with
    | .data streamId => e.processData cfg mayAck streamId
    | .sendme streamId body =>
      if streamId = 0 then (e.processCircuitLevel cfg reading body, [])
      else
        match e.streams streamId with
        | none => (e, [])
        | some stream => (e.processStreamLevel streamId stream, [])
    | .other => (e, [])

/-- A cell that is neither DATA nor a SENDME is sent. -/
def sendOther (cfg : EdgeConfig) (e : Edge) : Edge × List Cell :=
  if e.status ≠ .open then (e, [])
  else
    let (e, cell) := e.originate cfg .other
    (e, [cell])

end Edge

end Dittor.Tor.Sendme
