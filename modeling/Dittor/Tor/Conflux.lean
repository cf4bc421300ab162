import Dittor.Lib.Pqueue
import Dittor.Tor.Base64

/-!
# Conflux (`conflux.c`, `conflux_cell.c`)

Two endpoints send relay messages to each other over several circuits, the legs of a conflux set.
The sender counts its messages on each leg. When it changes to another leg it sends a SWITCH cell
there, with how far the count of that leg is behind, and the receiver adds that to its own count
for the leg. So the receiver knows the number of every message; those that come too early wait in a
priority queue.

Which leg is next is what `conflux_decide_next_circ` answers from round-trip times and congestion
windows; here any answer is possible. Sequence numbers are 64 bits wide in the source, more than
there will ever be messages; they are natural numbers here. Messages are those that got past the
checks for a closed circuit and for a missing stream id.
-/

namespace Dittor.Tor

open Dittor.Lib

/-! ## Messages -/

/-- `RELAY_COMMAND_BEGIN` and the like. -/
inductive RelayCommand where
  | begin
  | data
  | endStream
  | connected
  | sendme
  | extend
  | extended
  | truncate
  | truncated
  | drop
  | resolve
  | resolved
  | beginDir
  | extend2
  | extended2
  | confluxLink
  | confluxLinked
  | confluxLinkedAck
  | confluxSwitch
  | establishIntro
  | establishRendezvous
  | introduce1
  | introduce2
  | rendezvous1
  | rendezvous2
  | introEstablished
  | rendezvousEstablished
  | introduceAck
  | paddingNegotiate
  | paddingNegotiated
  | xoff
  | xon
deriving DecidableEq

/-- `conflux_should_multiplex` -/
def RelayCommand.shouldMultiplex : RelayCommand → Bool
  | .begin | .data | .endStream | .connected => true
  | .resolve | .resolved => true
  | .xoff | .xon => true
  | _ => false

/-- `relay_msg_t` -/
structure RelayMsg where
  command : RelayCommand
  body : Bytes
deriving DecidableEq

/-- `trn_cell_conflux_switch_encode` -/
def encodeSwitch (seqnum : ℕ) : Bytes :=
  [UInt8.ofNat (seqnum / 16777216), UInt8.ofNat (seqnum / 65536), UInt8.ofNat (seqnum / 256),
    UInt8.ofNat seqnum]

/-- `conflux_cell_parse_switch` -/
def parseSwitch : Bytes → ℕ
  | a :: b :: c :: d :: _ =>
    ((a.toNat * 256 + b.toNat) * 256 + c.toNat) * 256 + d.toNat
  | _ => 0

theorem parseSwitch_encodeSwitch {seqnum : ℕ} (h : seqnum < 4294967296) :
    parseSwitch (encodeSwitch seqnum) = seqnum := by
  simp only [encodeSwitch, parseSwitch, UInt8.toNat_ofNat']
  omega

/-! ## An endpoint -/

/-- Why the circuits are closed. -/
inductive CloseReason where
  /-- The sender finds the count of the leg it changes to above that of the one it leaves. -/
  | incoherentSeq
  /-- A relative sequence number that does not fit a SWITCH cell. -/
  | relativeSeqTooHigh
  /-- The receiver gets a message with a number it has delivered. -/
  | seqTooSmall
  /-- The queue of early messages is full. -/
  | oooqFull
deriving DecidableEq

/-- `conflux_leg_t` -/
structure ConfluxLeg where
  lastSeqRecv : ℕ
  lastSeqSent : ℕ

/-- `conflux_msg_t` -/
structure ConfluxMsg where
  seq : ℕ
  msg : RelayMsg

/-- `conflux_params_get_max_oooq`, and what `conflux_msg_alloc_cost` adds to the length of a body. -/
structure ConfluxParams where
  maxOooq : ℕ
  msgOverhead : ℕ

/-- `conflux_t`, with its legs by their circuits. -/
structure Conflux (ι : Type) where
  legs : ι → ConfluxLeg
  oooQ : Array ConfluxMsg
  oooQAllocCost : ℕ
  lastSeqDelivered : ℕ
  currLeg : Option ι
  prevLeg : Option ι

namespace Conflux

variable {ι : Type} [DecidableEq ι]

/-- A set whose legs are all linked before any message. -/
def linked : Conflux ι := ⟨fun _ => ⟨0, 0⟩, #[], 0, 0, none, none⟩

def setSent (cfx : Conflux ι) (leg : ι) (seq : ℕ) : Conflux ι :=
  { cfx with legs := Function.update cfx.legs leg { cfx.legs leg with lastSeqSent := seq } }

def setRecv (cfx : Conflux ι) (leg : ι) (seq : ℕ) : Conflux ι :=
  { cfx with legs := Function.update cfx.legs leg { cfx.legs leg with lastSeqRecv := seq } }

theorem setSent_legs_self (cfx : Conflux ι) (leg : ι) (seq : ℕ) :
    (cfx.setSent leg seq).legs leg = { cfx.legs leg with lastSeqSent := seq } :=
  Function.update_self leg _ _

theorem setSent_legs_of_ne (cfx : Conflux ι) {leg leg' : ι} (h : leg' ≠ leg) (seq : ℕ) :
    (cfx.setSent leg seq).legs leg' = cfx.legs leg' :=
  Function.update_of_ne h _ _

theorem setRecv_legs_self (cfx : Conflux ι) (leg : ι) (seq : ℕ) :
    (cfx.setRecv leg seq).legs leg = { cfx.legs leg with lastSeqRecv := seq } :=
  Function.update_self leg _ _

theorem setRecv_legs_of_ne (cfx : Conflux ι) {leg leg' : ι} (h : leg' ≠ leg) (seq : ℕ) :
    (cfx.setRecv leg seq).legs leg' = cfx.legs leg' :=
  Function.update_of_ne h _ _

/-- What `conflux_decide_next_circ` does to the set: a first leg is picked if there is none. -/
def pickFirstLeg (cfx : Conflux ι) (first : ι) : Conflux ι :=
  { cfx with currLeg := some (cfx.currLeg.getD first) }

/-- The current leg becomes the previous one. -/
def changeLeg (cfx : Conflux ι) (newCirc : ι) : Conflux ι :=
  { cfx with prevLeg := cfx.currLeg, currLeg := some newCirc }

/-- `conflux_decide_circ_for_send`, for a message that is multiplexed. `next` is the answer of
`conflux_decide_next_circ`. The result has the circuit to send on, and a SWITCH cell for it. -/
def decideCircForSend (cfx : Conflux ι) (first : ι) (next : Option ι) (command : RelayCommand) :
    Except CloseReason (Conflux ι × Option ι × List RelayMsg) :=
  let cfx := cfx.pickFirstLeg first
  match next with
  | none => .ok (cfx, if command ≠ .data then cfx.currLeg else none, [])
  | some newCirc =>
    if some newCirc = cfx.currLeg then .ok (cfx, some newCirc, [])
    else
      let prevSeq := (cfx.legs (cfx.currLeg.getD first)).lastSeqSent
      let currSeq := (cfx.legs newCirc).lastSeqSent
      if prevSeq < currSeq then .error .incoherentSeq
      else if 4294967295 ≤ prevSeq - currSeq then .error .relativeSeqTooHigh
      else .ok ((cfx.changeLeg newCirc).setSent newCirc prevSeq, some newCirc,
        [⟨.confluxSwitch, encodeSwitch (prevSeq - currSeq)⟩])

/-- `conflux_note_cell_sent`, for a message that is multiplexed. -/
def noteCellSent (cfx : Conflux ι) (circ : ι) : Conflux ι :=
  cfx.setSent circ ((cfx.legs circ).lastSeqSent + 1)

/-- `conflux_process_switch_command` -/
def processSwitchCommand (cfx : Conflux ι) (inCirc : ι) (msg : RelayMsg) : Conflux ι :=
  cfx.setRecv inCirc ((cfx.legs inCirc).lastSeqRecv + parseSwitch msg.body)

def noteDelivered (cfx : Conflux ι) : Conflux ι :=
  { cfx with lastSeqDelivered := cfx.lastSeqDelivered + 1 }

/-- A message is put into the queue. -/
def addOooq (P : ConfluxParams) (cfx : Conflux ι) (seq : ℕ) (msg : RelayMsg) : Conflux ι :=
  { cfx with oooQ := pqueueAdd ConfluxMsg.seq cfx.oooQ ⟨seq, msg⟩
             oooQAllocCost := cfx.oooQAllocCost + (msg.body.length + P.msgOverhead) }

/-- `conflux_process_relay_msg` -/
def processRelayMsg (P : ConfluxParams) (cfx : Conflux ι) (inCirc : ι) (msg : RelayMsg) :
    Except CloseReason (Conflux ι × Bool) :=
  let seq := (cfx.legs inCirc).lastSeqRecv + 1
  let cfx := cfx.setRecv inCirc seq
  if seq = cfx.lastSeqDelivered + 1 then .ok (cfx.noteDelivered, true)
  else if seq ≤ cfx.lastSeqDelivered then .error .seqTooSmall
  else if P.maxOooq ≤ cfx.oooQAllocCost then .error .oooqFull
  else .ok (cfx.addOooq P seq msg, false)

/-- `conflux_dequeue_relay_msg` -/
def dequeueRelayMsg (P : ConfluxParams) (cfx : Conflux ι) : Option (RelayMsg × Conflux ι) :=
  match cfx.oooQ[0]? with
  | none => none
  | some top =>
    if top.seq = cfx.lastSeqDelivered + 1 then
      match pqueuePop ConfluxMsg.seq cfx.oooQ with
      | none => none
      | some (top, rest) =>
        some (top.msg,
          { cfx with oooQ := rest
                     oooQAllocCost := cfx.oooQAllocCost - (top.msg.body.length + P.msgOverhead)
                     lastSeqDelivered := cfx.lastSeqDelivered + 1 })
    else none

/-- The loop over `conflux_dequeue_relay_msg`; each round takes one message, so the size of the
queue is enough fuel. -/
def dequeueAll (P : ConfluxParams) : ℕ → Conflux ι → Conflux ι × List RelayMsg
  | 0, cfx => (cfx, [])
  | fuel + 1, cfx =>
    match dequeueRelayMsg P cfx with
    | none => (cfx, [])
    | some (msg, cfx) =>
      ((dequeueAll P fuel cfx).1, msg :: (dequeueAll P fuel cfx).2)

/-- `connection_edge_process_relay_cell`, as far as conflux goes, with the messages that are handed
to the streams. -/
def processRelayCell (P : ConfluxParams) (cfx : Conflux ι) (inCirc : ι) (msg : RelayMsg) :
    Except CloseReason (Conflux ι × List RelayMsg) :=
  if msg.command.shouldMultiplex then
    match processRelayMsg P cfx inCirc msg with
    | .error reason => .error reason
    | .ok (cfx, false) => .ok (cfx, [])
    | .ok (cfx, true) =>
      .ok ((dequeueAll P cfx.oooQ.size cfx).1, msg :: (dequeueAll P cfx.oooQ.size cfx).2)
  else if msg.command = .confluxSwitch then .ok (cfx.processSwitchCommand inCirc msg, [])
  else .ok (cfx, [])

end Conflux

/-! ## Both endpoints -/

/-- The two ends of a conflux set. -/
inductive Side where
  | client
  | exit
deriving DecidableEq

def Side.other : Side → Side
  | .client => .exit
  | .exit => .client

/-- Both ends, what is under way from each of them on each leg (the oldest first), what each has
sent, and what each has handed to its streams. -/
structure ConfluxNet (ι : Type) where
  ends : Side → Conflux ι
  wires : Side → ι → List RelayMsg
  sent : Side → List RelayMsg
  delivered : Side → List RelayMsg

/-- What can happen. -/
inductive ConfluxEvent (ι : Type) where
  /-- `conflux_decide_next_circ` for its answer alone. -/
  | decideNext (side : Side) (first : ι)
  /-- A message is to be sent; `packaged` says whether `circuit_package_relay_cell` queued it. -/
  | send (side : Side) (msg : RelayMsg) (first : ι) (next : Option ι) (packaged : Bool)
  /-- The oldest message on a leg arrives. -/
  | arrive (side : Side) (leg : ι)

namespace ConfluxNet

variable {ι : Type} [DecidableEq ι]

/-- All legs are linked, and nothing has been sent. -/
def linked : ConfluxNet ι := ⟨fun _ => .linked, fun _ _ => [], fun _ => [], fun _ => []⟩

/-- One end has changed, and has queued cells on a leg. -/
def sendFrom (s : ConfluxNet ι) (side : Side) (cfx : Conflux ι) (leg : ι) (cells : List RelayMsg) :
    ConfluxNet ι :=
  { s with ends := Function.update s.ends side cfx
           wires := Function.update s.wires side
             (Function.update (s.wires side) leg (s.wires side leg ++ cells)) }

def setEnd (s : ConfluxNet ι) (side : Side) (cfx : Conflux ι) : ConfluxNet ι :=
  { s with ends := Function.update s.ends side cfx }

def noteSent (s : ConfluxNet ι) (side : Side) (msg : RelayMsg) : ConfluxNet ι :=
  { s with sent := Function.update s.sent side (s.sent side ++ [msg]) }

/-- `relay_send_command_from_edge_`; a message that is not multiplexed goes on its own circuit and
is not counted. -/
def send (s : ConfluxNet ι) (side : Side) (msg : RelayMsg) (first : ι) (next : Option ι)
    (packaged : Bool) : Except CloseReason (ConfluxNet ι) :=
  if !msg.command.shouldMultiplex then .ok s
  else
    match (s.ends side).decideCircForSend first next msg.command with
    | .error reason => .error reason
    | .ok (cfx, none, _) => .ok (s.setEnd side cfx)
    | .ok (cfx, some circ, cells) =>
      if packaged then
        .ok ((s.sendFrom side (cfx.noteCellSent circ) circ (cells ++ [msg])).noteSent side msg)
      else .ok (s.sendFrom side cfx circ cells)

/-- The oldest message on a leg from the other side is taken off and handled. -/
def arrive (P : ConfluxParams) (s : ConfluxNet ι) (side : Side) (leg : ι) :
    Except CloseReason (ConfluxNet ι) :=
  match s.wires side.other leg with
  | [] => .ok s
  | msg :: rest =>
    match (s.ends side).processRelayCell P leg msg with
    | .error reason => .error reason
    | .ok (cfx, msgs) =>
      .ok { ends := Function.update s.ends side cfx
            wires := Function.update s.wires side.other
              (Function.update (s.wires side.other) leg rest)
            sent := s.sent
            delivered := Function.update s.delivered side (s.delivered side ++ msgs) }

def step (P : ConfluxParams) (s : ConfluxNet ι) :
    ConfluxEvent ι → Except CloseReason (ConfluxNet ι)
  | .decideNext side first => .ok (s.setEnd side ((s.ends side).pickFirstLeg first))
  | .send side msg first next packaged => s.send side msg first next packaged
  | .arrive side leg => s.arrive P side leg

end ConfluxNet

end Dittor.Tor
