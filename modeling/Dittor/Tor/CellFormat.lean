import Mathlib
import Dittor.Lib.Buffer

/-!
# Relay messages in cells (`relay_msg.c`)

A relay message goes into the payload of a cell in one of two formats. The old one has fields for
the digest, and a stream for every command. The new one has a tag in front of the message, and a
stream for some commands only. Both fill up the cell with random bytes.

`messageByte` is the layout of the two formats. What is encoded has it (`relayMsgEncodeCell_get`),
and what is decoded is read from it (`decode_of_layout`, `layout_of_decode`); the recognized field,
the digest and the tag are not part of the message, and encoding leaves them at zero.
-/

namespace Dittor.Tor.CellFormat

open Dittor.Lib

/-! ## Cells and messages -/

/-- `relay_cell_fmt_t` -/
inductive RelayCellFmt where
  | v0 | v1
deriving DecidableEq, Repr

/-- `cell_t`; `CELL_PAYLOAD_SIZE` is 509. -/
structure Cell where
  circId : ℕ
  command : UInt8
  payload : Buffer 509
deriving DecidableEq

/-- `relay_msg_t`, with the bytes that can be read at `body`. -/
structure RelayMsg where
  command : UInt8
  length : UInt16
  streamId : UInt16
  isRelayEarly : Bool
  body : List UInt8
  available : length.toNat ≤ body.length
deriving DecidableEq

/-- `relay_msg_t` as decoding leaves it: `body` points into the payload of the cell. -/
structure RelayMsgInPlace where
  command : UInt8
  length : UInt16
  streamId : UInt16
  isRelayEarly : Bool
  body : ℕ
deriving DecidableEq

/-- `CELL_RELAY` -/
def cellRelay : UInt8 := 3

/-- `CELL_RELAY_EARLY` -/
def cellRelayEarly : UInt8 := 9

/-- `relay_cmd_expects_streamid_in_v1`: `BEGIN`, `BEGIN_DIR`, `CONNECTED`, `DATA`, `END`, `RESOLVE`,
`RESOLVED`, `XOFF` and `XON`. -/
def relayCmdExpectsStreamidInV1 (relayCommand : UInt8) : Bool :=
  relayCommand ∈ ([1, 13, 4, 2, 3, 11, 12, 43, 44] : List UInt8)

/-- `is_known_relay_command` -/
def isKnownRelayCommand (cmd : UInt8) : Bool :=
  cmd ∈ ([1, 13, 19, 20, 21, 22, 4, 2, 10, 3, 32, 33, 14, 6, 15, 7, 34, 35, 40, 38, 41, 42, 36, 37,
    39, 11, 12, 5, 8, 9, 43, 44] : List UInt8)

/-- `relay_cell_max_payload_size` -/
def relayCellMaxPayloadSize (format : RelayCellFmt) (relayCommand : UInt8) : ℕ :=
  match format with
  | .v0 => 509 - 11
  | .v1 => if relayCmdExpectsStreamidInV1 relayCommand then 509 - 21 else 509 - 19

/-! ## Encoding -/

section Encode

variable (rng : (n : ℕ) → Buffer n)

/-- `relay_cell_pad`: random bytes, from four bytes behind the message on. -/
def relayCellPad (cell : Cell) (endOfMessage : ℕ) : Cell :=
  if h : endOfMessage + 4 ≥ 509 then cell
  else
    { cell with
      payload := cell.payload.write (endOfMessage + 4) (rng (509 - (endOfMessage + 4))).bytes
        (by rw [Buffer.length_eq]; omega) }

/-- `memcpy(out + pos, msg->body, msg->length)` -/
def writeBody (msg : RelayMsg) (out : Buffer 509) (pos : ℕ) (h : pos + msg.length.toNat ≤ 509) :
    Buffer 509 :=
  out.write pos (msg.body.take msg.length.toNat)
    (by rw [List.length_take, Nat.min_eq_left msg.available]; exact h)

/-- `encode_v0_cell` -/
def encodeV0Cell (msg : RelayMsg) (cellOut : Cell) : Option Cell :=
  if h : msg.length.toNat > relayCellMaxPayloadSize .v0 msg.command then none
  else
    let out := cellOut.payload
    let out := out.write 0 [msg.command] (by simp)
    let out := out.write 3 (be16 msg.streamId) (by simp [be16])
    let out := out.write 9 (be16 msg.length) (by simp [be16])
    let out := writeBody msg out 11 (by simp only [relayCellMaxPayloadSize] at h; omega)
    some (relayCellPad rng { cellOut with payload := out } (11 + msg.length.toNat))

/-- `encode_v1_cell` -/
def encodeV1Cell (msg : RelayMsg) (cellOut : Cell) : Option Cell :=
  if h : msg.length.toNat > relayCellMaxPayloadSize .v1 msg.command then none
  else
    let out := cellOut.payload
    let out := out.write 16 [msg.command] (by simp)
    let out := out.write 17 (be16 msg.length) (by simp [be16])
    if hstream : relayCmdExpectsStreamidInV1 msg.command then
      if msg.streamId = 0 then none
      else
        let out := out.write 19 (be16 msg.streamId) (by simp [be16])
        let out := writeBody msg out 21
          (by simp only [relayCellMaxPayloadSize, if_pos hstream] at h; omega)
        some (relayCellPad rng { cellOut with payload := out } (21 + msg.length.toNat))
    else
      if msg.streamId ≠ 0 then none
      else
        let out := writeBody msg out 19
          (by simp only [relayCellMaxPayloadSize, if_neg hstream] at h; omega)
        some (relayCellPad rng { cellOut with payload := out } (19 + msg.length.toNat))

/-- `relay_msg_encode_cell`; `rng` stands for `crypto_fast_rng_getbytes`. -/
def relayMsgEncodeCell (format : RelayCellFmt) (msg : RelayMsg) : Option Cell :=
  let cellOut : Cell :=
    { circId := 0
      command := if msg.isRelayEarly then cellRelayEarly else cellRelay
      payload := .zeros 509 }
  match format with
  | .v0 => encodeV0Cell rng msg cellOut
  | .v1 => encodeV1Cell rng msg cellOut

end Encode

/-! ## Decoding -/

/-- `decode_v0_cell` -/
def decodeV0Cell (cell : Cell) : Option RelayMsgInPlace :=
  let length := cell.payload.uint16At 9
  if length.toNat > 509 - 11 then none
  else
    some
      { isRelayEarly := cell.command = cellRelayEarly
        command := cell.payload.get 0
        streamId := cell.payload.uint16At 3
        length
        body := 11 }

/-- `decode_v1_cell` -/
def decodeV1Cell (cell : Cell) : Option RelayMsgInPlace :=
  let command := cell.payload.get 16
  if !isKnownRelayCommand command then none
  else
    let length := cell.payload.uint16At 17
    let expects := relayCmdExpectsStreamidInV1 command
    let payloadOffset := if expects then 21 else 19
    if length.toNat > 509 - payloadOffset then none
    else
      some
        { isRelayEarly := cell.command = cellRelayEarly
          command
          streamId := if expects then cell.payload.uint16At 19 else 0
          length
          body := payloadOffset }

/-- `relay_msg_decode_cell_in_place` -/
def relayMsgDecodeCellInPlace (format : RelayCellFmt) (cell : Cell) : Option RelayMsgInPlace :=
  match format with
  | .v0 => decodeV0Cell cell
  | .v1 => decodeV1Cell cell

/-- A decoded message with the bytes that `body` points to. -/
def RelayMsgInPlace.toMsg (m : RelayMsgInPlace) (cell : Cell) (h : m.body + m.length.toNat ≤ 509) :
    RelayMsg where
  command := m.command
  length := m.length
  streamId := m.streamId
  isRelayEarly := m.isRelayEarly
  body := cell.payload.bytes.drop m.body
  available := by
    rw [List.length_drop, cell.payload.length_eq]
    omega

/-! ## The layout -/

/-- The position of the body. -/
def payloadOffset : RelayCellFmt → UInt8 → ℕ
  | .v0, _ => 11
  | .v1, command => if relayCmdExpectsStreamidInV1 command then 21 else 19

/-- The recognized field and the digest of the old format, the tag of the new one. -/
def isCryptoField : RelayCellFmt → ℕ → Bool
  | .v0, i => i = 1 ∨ i = 2 ∨ 5 ≤ i ∧ i ≤ 8
  | .v1, i => i < 16

/-- The bytes of the body. -/
def RelayMsg.content (msg : RelayMsg) : List UInt8 := msg.body.take msg.length.toNat

/-- The bytes of the header: command, stream and length are at different places in the formats. -/
def headerByte (msg : RelayMsg) : RelayCellFmt → ℕ → UInt8
  | .v0, i =>
    if i = 0 then msg.command
    else if 3 ≤ i ∧ i < 5 then (be16 msg.streamId).getD (i - 3) 0
    else if 9 ≤ i then (be16 msg.length).getD (i - 9) 0
    else 0
  | .v1, i =>
    if i < 16 then 0
    else if i = 16 then msg.command
    else if i < 19 then (be16 msg.length).getD (i - 17) 0
    else (be16 msg.streamId).getD (i - 19) 0

/-- The bytes of a message in a cell. -/
def messageByte (format : RelayCellFmt) (msg : RelayMsg) (i : ℕ) : UInt8 :=
  if i < payloadOffset format msg.command then headerByte msg format i
  else msg.content.getD (i - payloadOffset format msg.command) 0

/-- A message that fits the format. -/
def RelayMsg.Fits (msg : RelayMsg) (format : RelayCellFmt) : Prop :=
  payloadOffset format msg.command + msg.length.toNat ≤ 509
    ∧ (format = .v1 → (relayCmdExpectsStreamidInV1 msg.command = true ↔ msg.streamId ≠ 0))

/-- The cell has the message. -/
structure Cell.Holds (cell : Cell) (format : RelayCellFmt) (msg : RelayMsg) : Prop where
  command : cell.command = if msg.isRelayEarly then cellRelayEarly else cellRelay
  bytes : ∀ i < payloadOffset format msg.command + msg.length.toNat,
    cell.payload.get i = messageByte format msg i

section Layout

variable {rng : (n : ℕ) → Buffer n} {format : RelayCellFmt} {msg : RelayMsg} {cell : Cell}
  {out : Buffer 509} {pos i : ℕ}

theorem payloadOffset_of_expects (h : relayCmdExpectsStreamidInV1 msg.command = true) :
    payloadOffset .v1 msg.command = 21 := if_pos h

theorem payloadOffset_of_not_expects (h : ¬ relayCmdExpectsStreamidInV1 msg.command = true) :
    payloadOffset .v1 msg.command = 19 := if_neg h

theorem length_be16 (v : UInt16) : (be16 v).length = 2 := rfl

theorem length_content (msg : RelayMsg) : msg.content.length = msg.length.toNat := by
  rw [RelayMsg.content, List.length_take, Nat.min_eq_left msg.available]

theorem relayCellPad_command (endOfMessage : ℕ) :
    (relayCellPad rng cell endOfMessage).command = cell.command := by
  unfold relayCellPad
  split <;> rfl

/-- The padding is behind the message. -/
theorem relayCellPad_get {endOfMessage : ℕ} (hi : i < endOfMessage) :
    (relayCellPad rng cell endOfMessage).payload.get i = cell.payload.get i := by
  unfold relayCellPad
  split
  · rfl
  · rw [Buffer.get_write_of_not]
    omega

theorem writeBody_get {h : pos + msg.length.toNat ≤ 509} (hi : i < pos + msg.length.toNat) :
    (writeBody msg out pos h).get i
      = if i < pos then out.get i else msg.content.getD (i - pos) 0 := by
  have hlength := length_content msg
  unfold RelayMsg.content at hlength
  unfold writeBody RelayMsg.content
  rw [Buffer.get_write]
  by_cases hpos : i < pos
  · rw [if_neg (by omega), if_pos hpos]
  · rw [if_pos (by omega), if_neg hpos]

/-- The header that the old format writes. -/
theorem headerV0_get (hi : i < 11) {h0 h3 h9} :
    ((((Buffer.zeros 509).write 0 [msg.command] h0).write 3 (be16 msg.streamId) h3).write 9
      (be16 msg.length) h9).get i = headerByte msg .v0 i := by
  have hstream := length_be16 msg.streamId
  have hlength := length_be16 msg.length
  unfold headerByte
  by_cases hlast : 9 ≤ i
  · rw [Buffer.get_write_of_mem hlast (by omega)]
    dsimp only
    rw [if_neg (by omega), if_neg (by omega), if_pos hlast]
  · rw [Buffer.get_write_of_not (by omega)]
    by_cases hmid : 3 ≤ i ∧ i < 5
    · rw [Buffer.get_write_of_mem hmid.1 (by omega)]
      dsimp only
      rw [if_neg (by omega), if_pos hmid]
    · rw [Buffer.get_write_of_not (by omega)]
      dsimp only
      rw [if_neg hmid, if_neg hlast]
      by_cases hzero : i = 0
      · rw [Buffer.get_write_of_mem (by omega) (by simp [hzero]), if_pos hzero, hzero]
        rfl
      · rw [Buffer.get_write_of_not (by simp; omega), Buffer.get_zeros, if_neg hzero]

/-- The header that the new format writes for every command. -/
theorem headerV1_get (hi : i < 19) {h16 h17} :
    (((Buffer.zeros 509).write 16 [msg.command] h16).write 17 (be16 msg.length) h17).get i
      = headerByte msg .v1 i := by
  have hlength := length_be16 msg.length
  unfold headerByte
  dsimp only
  by_cases hlast : 17 ≤ i
  · rw [Buffer.get_write_of_mem hlast (by omega), if_neg (by omega), if_neg (by omega), if_pos hi]
  · rw [Buffer.get_write_of_not (by omega)]
    by_cases hfirst : i = 16
    · rw [Buffer.get_write_of_mem (by omega) (by simp [hfirst]), if_neg (by omega), if_pos hfirst,
        hfirst]
      rfl
    · rw [Buffer.get_write_of_not (by simp; omega), Buffer.get_zeros, if_pos (by omega)]

end Layout

/-! ## What is encoded -/

section Encoded

variable {rng : (n : ℕ) → Buffer n} {format : RelayCellFmt} {msg : RelayMsg}

theorem encodeV0Cell_spec (cellOut : Cell) (hzeros : cellOut.payload = .zeros 509)
    (hcommand : cellOut.command = if msg.isRelayEarly then cellRelayEarly else cellRelay)
    (hfits : msg.Fits .v0) :
    ∃ cell, encodeV0Cell rng msg cellOut = some cell ∧ cell.Holds .v0 msg := by
  have hlength : 11 + msg.length.toNat ≤ 509 := hfits.1
  unfold encodeV0Cell
  rw [dif_neg (by simp only [relayCellMaxPayloadSize]; omega)]
  refine ⟨_, rfl, ?_, fun i hi => ?_⟩
  · rw [relayCellPad_command]
    exact hcommand
  · replace hi : i < 11 + msg.length.toNat := hi
    rw [relayCellPad_get hi]
    dsimp only
    rw [writeBody_get hi, messageByte, hzeros, show payloadOffset .v0 msg.command = 11 from rfl]
    by_cases hheader : i < 11
    · rw [if_pos hheader, headerV0_get hheader, if_pos hheader]
    · rw [if_neg hheader, if_neg hheader]

theorem encodeV1Cell_spec (cellOut : Cell) (hzeros : cellOut.payload = .zeros 509)
    (hcommand : cellOut.command = if msg.isRelayEarly then cellRelayEarly else cellRelay)
    (hfits : msg.Fits .v1) :
    ∃ cell, encodeV1Cell rng msg cellOut = some cell ∧ cell.Holds .v1 msg := by
  obtain ⟨hlength, hstream⟩ := hfits
  replace hstream := hstream rfl
  unfold encodeV1Cell
  by_cases hexpects : relayCmdExpectsStreamidInV1 msg.command = true
  · have hoffset := payloadOffset_of_expects hexpects
    rw [hoffset] at hlength
    rw [dif_neg (by rw [relayCellMaxPayloadSize, if_pos hexpects]; omega)]
    dsimp only
    rw [dif_pos hexpects, if_neg (hstream.mp hexpects)]
    refine ⟨_, rfl, ?_, fun i hi => ?_⟩
    · rw [relayCellPad_command]
      exact hcommand
    · rw [hoffset] at hi
      rw [relayCellPad_get hi]
      dsimp only
      rw [writeBody_get hi, messageByte, hoffset, hzeros]
      by_cases hheader : i < 21
      · rw [if_pos hheader, if_pos hheader]
        by_cases hfirst : i < 19
        · rw [Buffer.get_write_of_not (.inl hfirst), headerV1_get hfirst]
        · rw [Buffer.get_write_of_mem (by omega) (by rw [length_be16]; omega), headerByte,
            if_neg (by omega), if_neg (by omega), if_neg hfirst]
      · rw [if_neg hheader, if_neg hheader]
  · have hoffset := payloadOffset_of_not_expects hexpects
    rw [hoffset] at hlength
    rw [dif_neg (by rw [relayCellMaxPayloadSize, if_neg hexpects]; omega)]
    dsimp only
    rw [dif_neg hexpects, if_neg (fun h => hexpects (hstream.mpr h))]
    refine ⟨_, rfl, ?_, fun i hi => ?_⟩
    · rw [relayCellPad_command]
      exact hcommand
    · rw [hoffset] at hi
      rw [relayCellPad_get hi]
      dsimp only
      rw [writeBody_get hi, messageByte, hoffset, hzeros]
      by_cases hheader : i < 19
      · rw [if_pos hheader, headerV1_get hheader, if_pos hheader]
      · rw [if_neg hheader, if_neg hheader]

/-- **What encoding writes.** -/
theorem relayMsgEncodeCell_spec (rng : (n : ℕ) → Buffer n) (hfits : msg.Fits format) :
    ∃ cell, relayMsgEncodeCell rng format msg = some cell ∧ cell.Holds format msg := by
  cases format with
  | v0 => exact encodeV0Cell_spec _ rfl rfl hfits
  | v1 => exact encodeV1Cell_spec _ rfl rfl hfits

/-- Only what fits is encoded. -/
theorem fits_of_encode {cell : Cell} (h : relayMsgEncodeCell rng format msg = some cell) :
    msg.Fits format := by
  cases format with
  | v0 =>
    refine ⟨?_, nofun⟩
    unfold relayMsgEncodeCell encodeV0Cell at h
    dsimp only at h
    split at h
    · exact nomatch h
    · rename_i hlength
      simp only [relayCellMaxPayloadSize] at hlength
      simp only [payloadOffset]
      omega
  | v1 =>
    unfold relayMsgEncodeCell encodeV1Cell at h
    dsimp only at h
    split at h
    · exact nomatch h
    · rename_i hlength
      unfold relayCellMaxPayloadSize at hlength
      unfold RelayMsg.Fits payloadOffset
      dsimp only at hlength ⊢
      split at h
      all_goals rename_i hexpects
      · rw [if_pos hexpects] at hlength ⊢
        refine ⟨by omega, fun _ => ⟨fun _ hzero => ?_, fun _ => hexpects⟩⟩
        rw [if_pos hzero] at h
        exact nomatch h
      · rw [if_neg hexpects] at hlength ⊢
        refine ⟨by omega, fun _ => ⟨fun h => absurd h hexpects, fun hne => ?_⟩⟩
        rw [if_pos hne] at h
        exact nomatch h

theorem holds_of_encode {cell : Cell} (h : relayMsgEncodeCell rng format msg = some cell) :
    cell.Holds format msg := by
  obtain ⟨cell', heq, hholds⟩ := relayMsgEncodeCell_spec rng (fits_of_encode h)
  rw [h, Option.some.injEq] at heq
  rwa [heq]

end Encoded

/-! ## What is decoded -/

section Decoded

variable {format : RelayCellFmt} {msg : RelayMsg} {cell : Cell} {m : RelayMsgInPlace}

theorem Cell.Holds.header (h : cell.Holds format msg) {i : ℕ}
    (hi : i < payloadOffset format msg.command) : cell.payload.get i = headerByte msg format i := by
  rw [h.bytes i (by omega), messageByte, if_pos hi]

/-- The body is where the header ends. -/
theorem Cell.Holds.body (h : cell.Holds format msg)
    (hfits : payloadOffset format msg.command + msg.length.toNat ≤ 509) :
    cell.payload.slice (payloadOffset format msg.command) msg.length.toNat = msg.content := by
  have hlength := length_content msg
  rw [← hlength] at hfits ⊢
  refine Buffer.slice_eq_list hfits fun i hi => ?_
  rw [h.bytes _ (by omega), messageByte, if_neg (by omega), Nat.add_sub_cancel_left]

theorem Cell.Holds.isRelayEarly (h : cell.Holds format msg) :
    decide (cell.command = cellRelayEarly) = msg.isRelayEarly := by
  rw [h.command]
  cases msg.isRelayEarly <;> rfl

/-- **What is encoded is decoded.** -/
theorem decode_of_holds (h : cell.Holds format msg) (hfits : msg.Fits format)
    (hknown : format = .v1 → isKnownRelayCommand msg.command = true) :
    relayMsgDecodeCellInPlace format cell = some
      { command := msg.command
        length := msg.length
        streamId := msg.streamId
        isRelayEarly := msg.isRelayEarly
        body := payloadOffset format msg.command } := by
  obtain ⟨hlength, hstream⟩ := hfits
  cases format with
  | v0 =>
    replace hlength : 11 + msg.length.toNat ≤ 509 := hlength
    have hheader : ∀ i < 11, cell.payload.get i = headerByte msg .v0 i := fun i hi => h.header hi
    have hcommand : cell.payload.get 0 = msg.command := hheader 0 (by decide)
    have hid : cell.payload.uint16At 3 = msg.streamId :=
      Buffer.uint16At_eq (hheader 3 (by decide)) (hheader 4 (by decide))
    have hlen : cell.payload.uint16At 9 = msg.length :=
      Buffer.uint16At_eq (hheader 9 (by decide)) (hheader 10 (by decide))
    unfold relayMsgDecodeCellInPlace decodeV0Cell
    dsimp only
    rw [hlen, if_neg (by omega), hid, hcommand, h.isRelayEarly]
    rfl
  | v1 =>
    have hheader : ∀ i < 19, cell.payload.get i = headerByte msg .v1 i := by
      refine fun i hi => h.header ?_
      unfold payloadOffset
      dsimp only
      split <;> omega
    have hcommand : cell.payload.get 16 = msg.command := hheader 16 (by decide)
    have hlen : cell.payload.uint16At 17 = msg.length :=
      Buffer.uint16At_eq (hheader 17 (by decide)) (hheader 18 (by decide))
    unfold relayMsgDecodeCellInPlace decodeV1Cell
    dsimp only
    rw [hcommand, hknown rfl, hlen, h.isRelayEarly]
    by_cases hexpects : relayCmdExpectsStreamidInV1 msg.command = true
    · have hoffset := payloadOffset_of_expects hexpects
      rw [hoffset] at hlength
      have hid : cell.payload.uint16At 19 = msg.streamId :=
        Buffer.uint16At_eq (h.header (by omega)) (h.header (by omega))
      rw [if_pos hexpects, if_pos hexpects, hoffset, hid, if_neg (by decide), if_neg (by omega)]
    · have hoffset := payloadOffset_of_not_expects hexpects
      rw [hoffset] at hlength
      have hid : msg.streamId = 0 := not_not.mp fun hne => hexpects ((hstream rfl).mpr hne)
      rw [if_neg hexpects, if_neg hexpects, hoffset, hid, if_neg (by decide), if_neg (by omega)]

/-- The two bytes of a number in the cell. -/
theorem getD_be16_uint16At {n : ℕ} {b : Buffer n} {pos i : ℕ} (hpos : pos ≤ i) (hi : i < pos + 2) :
    (be16 (b.uint16At pos)).getD (i - pos) 0 = b.get i := by
  rw [Buffer.be16_uint16At]
  obtain rfl | rfl : i = pos ∨ i = pos + 1 := by omega
  · rw [Nat.sub_self]
    rfl
  · rw [Nat.add_sub_cancel_left]
    rfl

/-- What decoding accepts: the message lies inside the payload, and its header is in the cell. -/
structure Accepted (format : RelayCellFmt) (cell : Cell) (m : RelayMsgInPlace) : Prop where
  body : m.body = payloadOffset format m.command
  inside : m.body + m.length.toNat ≤ 509
  early : m.isRelayEarly = decide (cell.command = cellRelayEarly)
  noStream : format = .v1 → ¬ relayCmdExpectsStreamidInV1 m.command = true → m.streamId = 0
  header : ∀ msg : RelayMsg, msg.command = m.command → msg.length = m.length →
    msg.streamId = m.streamId → ∀ i < m.body,
      headerByte msg format i = if isCryptoField format i then 0 else cell.payload.get i

theorem accepted_of_decodeV0 (h : decodeV0Cell cell = some m) : Accepted .v0 cell m := by
  unfold decodeV0Cell at h
  dsimp only at h
  split at h
  · exact nomatch h
  · obtain rfl := Option.some.inj h
    refine ⟨rfl, by dsimp only; omega, rfl, nofun, fun msg hcommand hlength hid i hi => ?_⟩
    dsimp only at hi
    unfold headerByte isCryptoField
    simp only [decide_eq_true_eq, hcommand, hlength, hid]
    by_cases hzero : i = 0
    · rw [if_pos hzero, if_neg (by omega), hzero]
    · rw [if_neg hzero]
      by_cases hmid : 3 ≤ i ∧ i < 5
      · rw [if_pos hmid, if_neg (by omega), getD_be16_uint16At hmid.1 (by omega)]
      · rw [if_neg hmid]
        by_cases hlast : 9 ≤ i
        · rw [if_pos hlast, if_neg (by omega), getD_be16_uint16At hlast (by omega)]
        · rw [if_neg hlast, if_pos (by omega)]

theorem accepted_of_decodeV1 (h : decodeV1Cell cell = some m) : Accepted .v1 cell m := by
  unfold decodeV1Cell at h
  dsimp only at h
  split at h
  · exact nomatch h
  · have hhalf : ∀ i < 19, ∀ msg : RelayMsg, msg.command = cell.payload.get 16 →
        msg.length = cell.payload.uint16At 17 →
        headerByte msg .v1 i = if isCryptoField .v1 i then 0 else cell.payload.get i := by
      intro i hi msg hcommand hlength
      unfold headerByte isCryptoField
      simp only [decide_eq_true_eq, hcommand, hlength]
      by_cases htag : i < 16
      · rw [if_pos htag, if_pos htag]
      · rw [if_neg htag, if_neg htag]
        by_cases hfirst : i = 16
        · rw [if_pos hfirst, hfirst]
        · rw [if_neg hfirst, if_pos hi, getD_be16_uint16At (by omega) (by omega)]
    by_cases hexpects : relayCmdExpectsStreamidInV1 (cell.payload.get 16) = true
    · rw [if_pos hexpects, if_pos hexpects, Option.ite_none_left_eq_some] at h
      obtain ⟨hinside, h⟩ := h
      obtain rfl := Option.some.inj h
      refine ⟨(if_pos hexpects).symm, by dsimp only; omega, rfl, fun _ hnot => absurd hexpects hnot,
        fun msg hcommand hlength hid i hi => ?_⟩
      by_cases hfirst : i < 19
      · exact hhalf i hfirst msg hcommand hlength
      · dsimp only at hi
        unfold headerByte isCryptoField
        simp only [decide_eq_true_eq, hid]
        rw [if_neg (by omega), if_neg (by omega), if_neg hfirst, if_neg (by omega),
          getD_be16_uint16At (by omega) (by omega)]
    · rw [if_neg hexpects, if_neg hexpects, Option.ite_none_left_eq_some] at h
      obtain ⟨hinside, h⟩ := h
      obtain rfl := Option.some.inj h
      exact ⟨(if_neg hexpects).symm, by dsimp only; omega, rfl, fun _ _ => rfl,
        fun msg hcommand hlength _ i hi => hhalf i hi msg hcommand hlength⟩

theorem accepted_of_decode (h : relayMsgDecodeCellInPlace format cell = some m) :
    Accepted format cell m := by
  cases format with
  | v0 => exact accepted_of_decodeV0 h
  | v1 => exact accepted_of_decodeV1 h

/-- **What is decoded is encoded again**, with the recognized field, the digest and the tag at
zero. -/
theorem encode_of_accepted (rng : (n : ℕ) → Buffer n) (h : Accepted format cell m)
    (hid : format = .v1 → relayCmdExpectsStreamidInV1 m.command = true → m.streamId ≠ 0) :
    ∃ cell', relayMsgEncodeCell rng format (m.toMsg cell h.inside) = some cell'
      ∧ ∀ i < m.body + m.length.toNat,
        cell'.payload.get i
          = if i < m.body ∧ isCryptoField format i then 0 else cell.payload.get i := by
  have hbody := h.body
  have hinside := h.inside
  have hfits : (m.toMsg cell h.inside).Fits format := by
    refine ⟨hbody ▸ hinside, fun hformat => ⟨hid hformat, fun hne => ?_⟩⟩
    by_contra hexpects
    exact hne (h.noStream hformat hexpects)
  obtain ⟨cell', hencode, hholds⟩ := relayMsgEncodeCell_spec rng hfits
  refine ⟨cell', hencode, fun i hi => ?_⟩
  have hoffset : payloadOffset format (m.toMsg cell hinside).command = m.body := hbody.symm
  have hbyte := hholds.bytes i (by rw [hoffset]; exact hi)
  rw [hbyte, messageByte, hoffset]
  by_cases hheader : i < m.body
  · rw [if_pos hheader, h.header _ rfl rfl rfl i hheader]
    simp only [hheader, true_and]
  · rw [if_neg hheader, if_neg (fun hcrypto => hheader hcrypto.1)]
    have hlength := cell.payload.length_eq
    change ((cell.payload.bytes.drop m.body).take m.length.toNat).getD (i - m.body) 0 = _
    rw [List.getD_eq_getElem?_getD, List.getElem?_take_of_lt (by omega), List.getElem?_drop,
      Nat.add_sub_cancel' (by omega)]
    rfl

end Decoded

/-! ## The round trips -/

/-- **Relay messages survive cell encoding**: whatever the padding, what is encoded is decoded as the
same message; what is decoded lies inside the payload, and encoding it again gives the same command,
stream, length and body, in a cell whose recognized field, digest and tag are zero. -/
theorem relay_msg_round_trip (rng : (n : ℕ) → Buffer n) (format : RelayCellFmt) :
    (∀ (msg : RelayMsg) (cell : Cell), relayMsgEncodeCell rng format msg = some cell →
      (format = .v1 → isKnownRelayCommand msg.command = true) →
      ∃ m, relayMsgDecodeCellInPlace format cell = some m
        ∧ m.command = msg.command ∧ m.streamId = msg.streamId ∧ m.length = msg.length
        ∧ m.isRelayEarly = msg.isRelayEarly
        ∧ cell.payload.slice m.body m.length.toNat = msg.body.take msg.length.toNat)
    ∧ ∀ (cell : Cell) (m : RelayMsgInPlace), relayMsgDecodeCellInPlace format cell = some m →
      ∃ hinside : m.body + m.length.toNat ≤ 509,
        (format = .v1 → relayCmdExpectsStreamidInV1 m.command = true → m.streamId ≠ 0) →
        ∃ cell', relayMsgEncodeCell rng format (m.toMsg cell hinside) = some cell'
          ∧ ∀ i < m.body + m.length.toNat,
            cell'.payload.get i
              = if i < m.body ∧ isCryptoField format i then 0 else cell.payload.get i := by
  constructor
  · intro msg cell hencode hknown
    have hfits := fits_of_encode hencode
    have hholds := holds_of_encode hencode
    exact ⟨_, decode_of_holds hholds hfits hknown, rfl, rfl, rfl, rfl, hholds.body hfits.1⟩
  · intro cell m hdecode
    have haccepted := accepted_of_decode hdecode
    exact ⟨haccepted.inside, encode_of_accepted rng haccepted⟩

/-- A `DATA` message of two bytes. -/
def exampleMsg : RelayMsg :=
  { command := 2, length := 2, streamId := 7, isRelayEarly := true, body := [104, 105, 33]
    available := by decide }

/-- A message that is encoded in the new format, and decoded. -/
theorem relay_msg_round_trip_data : ∃ cell, relayMsgEncodeCell .zeros .v1 exampleMsg = some cell
    ∧ ∃ m, relayMsgDecodeCellInPlace .v1 cell = some m ∧ m.command = 2 ∧ m.streamId = 7
      ∧ cell.payload.slice m.body m.length.toNat = [104, 105] := by
  have hfits : exampleMsg.Fits .v1 := ⟨by decide, fun _ => by decide⟩
  obtain ⟨cell, hencode, -⟩ := relayMsgEncodeCell_spec .zeros hfits
  obtain ⟨m, hdecode, hcommand, hid, -, -, hbody⟩ :=
    (relay_msg_round_trip .zeros .v1).1 exampleMsg cell hencode (fun _ => by decide)
  exact ⟨cell, hencode, m, hdecode, hcommand, hid, hbody⟩

/-- A cell of the old format with a digest. -/
def cellWithDigest : Cell :=
  { circId := 0, command := cellRelay
    payload := (Buffer.zeros 509).write 5 [222, 173, 190, 239] (by decide) }

/-- The digest is a part of the header that is not encoded again. -/
theorem reencoding_clears_digest : ¬ ∀ (rng : (n : ℕ) → Buffer n) (format : RelayCellFmt)
    (cell : Cell) (m : RelayMsgInPlace) (hinside : m.body + m.length.toNat ≤ 509),
    relayMsgDecodeCellInPlace format cell = some m →
    (format = .v1 → relayCmdExpectsStreamidInV1 m.command = true → m.streamId ≠ 0) →
    ∃ cell', relayMsgEncodeCell rng format (m.toMsg cell hinside) = some cell'
      ∧ cell'.payload.slice 0 (m.body + m.length.toNat)
        = cell.payload.slice 0 (m.body + m.length.toNat) := by
  intro h
  have hdecode : relayMsgDecodeCellInPlace .v0 cellWithDigest = some
      { command := 0, length := 0, streamId := 0, isRelayEarly := false, body := 11 } := by decide
  have haccepted := accepted_of_decode hdecode
  obtain ⟨cell', hencode, hslice⟩ := h .zeros .v0 _ _ haccepted.inside hdecode nofun
  obtain ⟨cell'', hencode', hbytes⟩ := encode_of_accepted .zeros haccepted nofun
  rw [hencode, Option.some.injEq] at hencode'
  subst hencode'
  have hfirst : cell'.payload.get 5 = 0 := hbytes 5 (by decide)
  have hbyte := congrArg (fun bytes : List UInt8 => bytes[5]?) hslice
  dsimp only at hbyte
  rw [Buffer.getElem?_slice (by decide) (by decide), Buffer.getElem?_slice (by decide) (by decide),
    hfirst] at hbyte
  exact absurd hbyte (by decide)

end Dittor.Tor.CellFormat
