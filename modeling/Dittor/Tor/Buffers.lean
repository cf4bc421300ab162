import Mathlib.Algebra.Order.BigOperators.Group.List
import Mathlib.Data.List.TakeDrop
import Mathlib.Tactic.Ring

/-!
# Byte queues made of chunks (`lib/buf/buffers.c`)

A `buf_t` is a linked list of chunks. A chunk is a block of memory `mem` with
the unread bytes somewhere in the middle: `data` is where they start and
`datalen` how many there are. Bytes are taken from the first chunk and written
behind those of the last.

The memory is modelled with what is in it. What `malloc` returns is unknown, so
a function that allocates has the contents as an argument (`junk`); `Chunk.bytes`
never shows them, and the lemmas hold for every `junk`. The chunks of a buffer
are a list, whose last element is what `tail` points to.

`total` is `total_bytes_allocated_in_chunks`. A `tor_assert` that fails ends the
process: `none`. `Becomes` says what an operation does to a buffer as a queue of
bytes, and each operation has one lemma of that form.
-/

namespace Dittor.Tor

/-! ## Chunks -/

/-- `BUF_MAX_LEN`, which is `INT_MAX - 1`. -/
def bufMaxLen : ℕ := 2147483646

/-- `CHUNK_OVERHEAD` with 8-byte pointers: the header and 4 sentinel bytes. -/
def chunkOverhead : ℕ := 44 + 4

/-- `CHUNK_ALLOC_SIZE` -/
def chunkAllocSize (memlen : ℕ) : ℕ := chunkOverhead + memlen

/-- `CHUNK_SIZE_WITH_ALLOC` -/
def chunkSizeWithAlloc (alloc : ℕ) : ℕ := alloc - chunkOverhead

/-- `MIN_CHUNK_ALLOC` -/
def minChunkAlloc : ℕ := 256

/-- `MAX_CHUNK_ALLOC` -/
def maxChunkAlloc : ℕ := 65536

/-- `SIZE_T_CEILING`, which is `SSIZE_MAX - 16`. -/
def sizeTCeiling : ℕ := 2 ^ 63 - 17

/-- `chunk_t`; `memlen` is the length of `mem`. -/
structure Chunk where
  mem : List UInt8
  data : ℕ := 0
  datalen : ℕ := 0
deriving DecidableEq, Repr

namespace Chunk

def memlen (c : Chunk) : ℕ := c.mem.length

/-- What the chunk was allocated with. -/
def alloc (c : Chunk) : ℕ := chunkAllocSize c.memlen

/-- `CHUNK_REMAINING_CAPACITY` -/
def remainingCapacity (c : Chunk) : ℕ := c.memlen - (c.data + c.datalen)

/-- The stored bytes. -/
def bytes (c : Chunk) : List UInt8 := (c.mem.drop c.data).take c.datalen

/-- `memcpy(CHUNK_WRITE_PTR(chunk), …)`, and `datalen` counts it. -/
def write (c : Chunk) (src : List UInt8) : Chunk :=
  { c with mem := c.mem.take (c.data + c.datalen) ++ src
      ++ c.mem.drop (c.data + c.datalen + src.length)
           datalen := c.datalen + src.length }

/-- `data += n; datalen -= n` -/
def skip (c : Chunk) (n : ℕ) : Chunk := { c with data := c.data + n, datalen := c.datalen - n }

/-- `chunk_repack` -/
def repack (c : Chunk) : Chunk :=
  { c with mem := if c.datalen ≠ 0 ∧ c.data ≠ 0 then c.bytes ++ c.mem.drop c.datalen else c.mem
           data := 0 }

/-- Memory with unknown contents. -/
def fresh (junk : ℕ → UInt8) (n : ℕ) : List UInt8 := (List.range n).map junk

/-- `chunk_new_with_alloc_size` -/
def newWithAllocSize (junk : ℕ → UInt8) (alloc : ℕ) : Chunk :=
  { mem := fresh junk (chunkSizeWithAlloc alloc) }

/-- `chunk_grow`, whose `realloc` keeps what is there. -/
def grow (c : Chunk) (junk : ℕ → UInt8) (sz : ℕ) : Option Chunk :=
  if c.memlen < sz then some { c with mem := c.mem ++ fresh junk (sz - c.memlen) } else none

/-- The data lie within the memory: three of the assertions of `buf_assert_ok`. -/
def Ok (c : Chunk) : Prop := c.data + c.datalen ≤ c.memlen

variable {c : Chunk} {src : List UInt8} {n : ℕ}

theorem Ok.length_bytes (h : c.Ok) : c.bytes.length = c.datalen := by
  unfold Ok memlen at h
  unfold bytes
  rw [List.length_take, List.length_drop]
  omega

theorem memlen_write (h : c.Ok) (hroom : src.length ≤ c.remainingCapacity) :
    (c.write src).memlen = c.memlen := by
  unfold Ok memlen at h
  unfold remainingCapacity memlen at hroom
  show (c.mem.take (c.data + c.datalen) ++ src ++ c.mem.drop (c.data + c.datalen + src.length)).length
    = c.mem.length
  rw [List.length_append, List.length_append, List.length_take, List.length_drop]
  omega

theorem Ok.write (h : c.Ok) (hroom : src.length ≤ c.remainingCapacity) : (c.write src).Ok := by
  show c.data + (c.datalen + src.length) ≤ (c.write src).memlen
  rw [memlen_write h hroom]
  unfold Ok at h
  unfold remainingCapacity at hroom
  omega

/-- The new bytes are behind the old ones. -/
theorem bytes_write (h : c.Ok) : (c.write src).bytes = c.bytes ++ src := by
  unfold Ok memlen at h
  unfold bytes Chunk.write
  dsimp only
  have hlen : (c.mem.take (c.data + c.datalen)).length = c.data + c.datalen := by
    rw [List.length_take]
    omega
  rw [List.append_assoc, List.drop_append_of_le_length (by omega), List.drop_take]
  rw [show c.data + c.datalen - c.data = c.datalen by omega]
  have hpre : ((c.mem.drop c.data).take c.datalen).length = c.datalen := by
    rw [List.length_take, List.length_drop]
    omega
  rw [List.take_append, hpre, List.take_of_length_le (by omega), Nat.add_sub_cancel_left,
    List.take_left]

theorem Ok.skip (h : c.Ok) (hn : n ≤ c.datalen) : (c.skip n).Ok := by
  unfold Ok at h
  show c.data + n + (c.datalen - n) ≤ c.memlen
  omega

theorem bytes_skip : (c.skip n).bytes = c.bytes.drop n := by
  unfold bytes Chunk.skip
  dsimp only
  rw [List.drop_take, List.drop_drop]

@[simp] theorem memlen_skip : (c.skip n).memlen = c.memlen := rfl

theorem memlen_repack (h : c.Ok) : c.repack.memlen = c.memlen := by
  show (if c.datalen ≠ 0 ∧ c.data ≠ 0 then c.bytes ++ c.mem.drop c.datalen else c.mem).length
    = c.mem.length
  split
  · rw [List.length_append, h.length_bytes, List.length_drop]
    unfold Ok memlen at h
    omega
  · rfl

theorem Ok.repack (h : c.Ok) : c.repack.Ok := by
  show 0 + c.datalen ≤ c.repack.memlen
  rw [memlen_repack h]
  unfold Ok at h
  omega

theorem bytes_repack (h : c.Ok) : c.repack.bytes = c.bytes := by
  show ((if c.datalen ≠ 0 ∧ c.data ≠ 0 then c.bytes ++ c.mem.drop c.datalen else c.mem).drop
    0).take c.datalen = c.bytes
  split
  · rw [List.drop_zero, List.take_append_of_le_length (le_of_eq h.length_bytes.symm),
      List.take_of_length_le (le_of_eq h.length_bytes)]
  next hcond =>
    rw [List.drop_zero]
    by_cases hzero : c.datalen = 0
    · unfold bytes
      rw [hzero, List.take_zero, List.take_zero]
    · have hdata : c.data = 0 := by
        by_contra hd
        exact hcond ⟨hzero, hd⟩
      unfold bytes
      rw [hdata, List.drop_zero]

@[simp] theorem length_fresh (junk : ℕ → UInt8) (n : ℕ) : (fresh junk n).length = n := by
  simp [fresh]

/-- Growing shows nothing of the new memory. -/
theorem grow_eq (h : c.Ok) (junk : ℕ → UInt8) {sz : ℕ} (hsz : c.memlen < sz) :
    ∃ c', c.grow junk sz = some c' ∧ c'.Ok ∧ c'.bytes = c.bytes ∧ c'.memlen = sz
      ∧ c'.data = c.data ∧ c'.datalen = c.datalen := by
  unfold grow
  rw [if_pos hsz]
  refine ⟨_, rfl, ?_, ?_, ?_, rfl, rfl⟩
  · show c.data + c.datalen ≤ (c.mem ++ fresh junk (sz - c.memlen)).length
    rw [List.length_append]
    unfold Ok memlen at h
    omega
  · unfold bytes
    dsimp only
    unfold Ok memlen at h
    rw [List.drop_append_of_le_length (by omega), List.take_append_of_le_length]
    rw [List.length_drop]
    omega
  · show (c.mem ++ fresh junk (sz - c.memlen)).length = sz
    rw [List.length_append, length_fresh]
    unfold memlen at hsz ⊢
    omega

end Chunk

/-! ## The size of a new chunk -/

/-- The loop of `buf_preferred_chunk_size`. -/
def doubleSize (target : ℕ) : ℕ → ℕ → ℕ
  | 0, sz => sz
  | fuel + 1, sz => if chunkSizeWithAlloc sz < target then doubleSize target fuel (2 * sz) else sz

/-- `buf_preferred_chunk_size`. From 256 bytes the loop reaches 65536 in 8 rounds. -/
def bufPreferredChunkSize (target : ℕ) : Option ℕ :=
  if sizeTCeiling - chunkOverhead < target then none
  else if maxChunkAlloc ≤ chunkAllocSize target then some (chunkAllocSize target)
  else some (doubleSize target 8 minChunkAlloc)

theorem le_doubleSize (target : ℕ) :
    ∀ (fuel sz : ℕ), chunkOverhead ≤ sz → target + chunkOverhead ≤ 2 ^ fuel * sz →
      target + chunkOverhead ≤ doubleSize target fuel sz := by
  intro fuel
  induction fuel with
  | zero =>
    intro sz _ h
    rwa [pow_zero, one_mul] at h
  | succ fuel ih =>
    intro sz hsz h
    rw [doubleSize]
    split
    · apply ih
      · omega
      · rw [← mul_assoc, ← pow_succ]
        exact h
    next hbig =>
      unfold chunkSizeWithAlloc at hbig
      omega

theorem le_doubleSize_start (target : ℕ) :
    ∀ (fuel sz : ℕ), sz ≤ doubleSize target fuel sz := by
  intro fuel
  induction fuel with
  | zero => exact fun sz => le_refl sz
  | succ fuel ih =>
    intro sz
    rw [doubleSize]
    split
    · have := ih (2 * sz)
      omega
    · exact le_refl sz

/-- The chunk holds what it is to hold. -/
theorem bufPreferredChunkSize_spec {target alloc : ℕ} (h : bufPreferredChunkSize target = some alloc) :
    target ≤ sizeTCeiling - chunkOverhead ∧ target ≤ chunkSizeWithAlloc alloc
      ∧ minChunkAlloc ≤ alloc := by
  unfold bufPreferredChunkSize at h
  split at h
  · exact absurd h (by simp)
  next hceil =>
    refine ⟨not_lt.mp hceil, ?_⟩
    split at h
    next hlarge =>
      rw [← Option.some.inj h]
      unfold maxChunkAlloc chunkAllocSize at hlarge
      unfold chunkSizeWithAlloc chunkAllocSize minChunkAlloc
      omega
    next hsmall =>
      rw [← Option.some.inj h]
      have hle := le_doubleSize target 8 minChunkAlloc (by decide) (by
        unfold maxChunkAlloc chunkAllocSize at hsmall
        unfold minChunkAlloc
        omega)
      have hstart := le_doubleSize_start target 8 minChunkAlloc
      unfold chunkSizeWithAlloc
      omega

theorem bufPreferredChunkSize_isSome {target : ℕ} (h : target ≤ sizeTCeiling - chunkOverhead) :
    ∃ alloc, bufPreferredChunkSize target = some alloc := by
  unfold bufPreferredChunkSize
  rw [if_neg (not_lt.mpr h)]
  split
  · exact ⟨_, rfl⟩
  · exact ⟨_, rfl⟩

/-! ## Buffers -/

/-- `buf_t`, without the magic number and the age of the chunks. -/
structure Buf where
  datalen : ℕ := 0
  defaultChunkSize : ℕ := 4096
  chunks : List Chunk := []
deriving DecidableEq, Repr

/-- `a - b` in `size_t`. -/
def sizeSub (a b : ℕ) : ℕ := (a + 2 ^ 64 - b % 2 ^ 64) % 2 ^ 64

theorem sizeSub_of_le {a b : ℕ} (h : b ≤ a) (ha : a < 2 ^ 64) : sizeSub a b = a - b := by
  unfold sizeSub
  omega

/-- `buf_chunk_free_unchecked` -/
def chunkFree (total : ℕ) (c : Chunk) : Option ℕ :=
  if c.alloc ≤ total then some (total - c.alloc) else none

namespace Buf

/-- `buf_allocation` -/
def allocation (b : Buf) : ℕ := (b.chunks.map Chunk.alloc).sum

/-- `buf_slack` -/
def slack (b : Buf) : ℕ :=
  match b.chunks.getLast? with
  | none => 0
  | some tail => tail.remainingCapacity

/-- The bytes in the buffer, the first one first. -/
def contents (b : Buf) : List UInt8 := b.chunks.flatMap Chunk.bytes

/-- `buf_new_with_capacity`; `buf_new` is the default value of the structure. -/
def newWithCapacity (size : ℕ) : Option Buf :=
  (bufPreferredChunkSize size).map fun alloc => { defaultChunkSize := alloc }

/-- `buf_add_chunk_with_capacity` -/
def addChunkWithCapacity (b : Buf) (junk : ℕ → UInt8) (capacity : ℕ) (capped : Bool)
    (total : ℕ) : Option (Buf × ℕ) :=
  let alloc :=
    if chunkAllocSize capacity < b.defaultChunkSize then some b.defaultChunkSize
    else if capped = true ∧ maxChunkAlloc < chunkAllocSize capacity then some maxChunkAlloc
    else bufPreferredChunkSize capacity
  alloc.map fun alloc =>
    ({ b with chunks := b.chunks ++ [.newWithAllocSize junk alloc] }, total + alloc)

/-- The memory `buf_add` writes to: the tail, or a new chunk when that is full. -/
def withRoom (b : Buf) (junk : ℕ → UInt8) (stringLen total : ℕ) : Option (Buf × ℕ) :=
  if b.slack = 0 then b.addChunkWithCapacity junk stringLen true total else some (b, total)

/-- Write behind the bytes of the tail. -/
def writeTail (b : Buf) (tail : Chunk) (src : List UInt8) : Buf :=
  { b with datalen := b.datalen + src.length, chunks := b.chunks.dropLast ++ [tail.write src] }

/-- The loop of `buf_add`. Each round writes a byte, so there are at most `stringLen`. -/
def addLoop (junk : ℕ → UInt8) : ℕ → Buf → ℕ → List UInt8 → Option (Buf × ℕ)
  | _, b, total, [] => some (b, total)
  | 0, _, _, _ :: _ => none
  | fuel + 1, b, total, ch :: string =>
    (b.withRoom junk (ch :: string).length total).bind fun next =>
      next.1.chunks.getLast?.bind fun tail =>
        let copy := min tail.remainingCapacity (ch :: string).length
        addLoop junk fuel (next.1.writeTail tail ((ch :: string).take copy)) next.2
          ((ch :: string).drop copy)

/-- `buf_add`. The subtraction is unsigned: for a string longer than
`BUF_MAX_LEN` the second test passes and the last assertion fails. -/
def add (b : Buf) (junk : ℕ → UInt8) (string : List UInt8) (total : ℕ) :
    Option (ℤ × Buf × ℕ) :=
  if string = [] then some (b.datalen, b, total)
  else if bufMaxLen < b.datalen ∨ sizeSub bufMaxLen string.length < b.datalen then
    some (-1, b, total)
  else (addLoop junk string.length b total string).bind fun next =>
    if next.1.datalen ≤ bufMaxLen then some (next.1.datalen, next) else none

/-- The loop of `buf_drain` over the chunks, with `buf->datalen`. -/
def drainLoop : List Chunk → ℕ → ℕ → ℕ → Option (List Chunk × ℕ × ℕ)
  | chunks, datalen, total, 0 => some (chunks, datalen, total)
  | [], _, _, _ + 1 => none
  | head :: rest, datalen, total, n + 1 =>
    if n + 1 < head.datalen then some (head.skip (n + 1) :: rest, datalen - (n + 1), total)
    else (chunkFree total head).bind fun total =>
      drainLoop rest (datalen - head.datalen) total (n + 1 - head.datalen)

/-- `buf_drain` -/
def drain (b : Buf) (n total : ℕ) : Option (Buf × ℕ) :=
  if b.datalen < n then none
  else (drainLoop b.chunks b.datalen total n).map fun next =>
    ({ b with chunks := next.1, datalen := next.2.1 }, next.2.2)

/-- The loop of `buf_peek`. -/
def peekLoop : List Chunk → ℕ → Option (List UInt8)
  | _, 0 => some []
  | [], _ + 1 => none
  | chunk :: rest, n + 1 =>
    let copy := min chunk.datalen (n + 1)
    (peekLoop rest (n + 1 - copy)).map fun out => chunk.bytes.take copy ++ out

/-- `buf_peek` -/
def peek (b : Buf) (stringLen : ℕ) : Option (List UInt8) :=
  if b.datalen < stringLen then none else peekLoop b.chunks stringLen

/-- `buf_get_bytes`, with the bytes it stores. -/
def getBytes (b : Buf) (stringLen total : ℕ) : Option (ℤ × List UInt8 × Buf × ℕ) :=
  (b.peek stringLen).bind fun string =>
    (b.drain stringLen total).bind fun next =>
      if next.1.datalen ≤ bufMaxLen then some (next.1.datalen, string, next) else none

/-- The loop of `buf_move_to_buf`, 4096 bytes at a time. The value of `buf_add`
is not looked at. -/
def moveLoop (junk : ℕ → UInt8) : ℕ → Buf → Buf → ℕ → ℕ → Option (Buf × Buf × ℕ)
  | _, out, inp, total, 0 => some (out, inp, total)
  | 0, _, _, _, _ + 1 => none
  | fuel + 1, out, inp, total, len + 1 =>
    let n := min (len + 1) 4096
    (inp.getBytes n total).bind fun got =>
      (out.add junk got.2.1 got.2.2.2).bind fun put =>
        moveLoop junk fuel put.2.1 got.2.2.1 put.2.2 (len + 1 - n)

/-- `buf_move_to_buf` with the value of `*buf_flushlen` it leaves. -/
def moveToBuf (out inp : Buf) (junk : ℕ → UInt8) (flushlen total : ℕ) :
    Option (ℤ × ℕ × Buf × Buf × ℕ) :=
  if bufMaxLen < out.datalen ∨ bufMaxLen < flushlen
      ∨ sizeSub bufMaxLen flushlen < out.datalen then
    some (-1, flushlen, out, inp, total)
  else
    let cp := min flushlen inp.datalen
    if bufMaxLen < cp then none
    else (moveLoop junk cp out inp total cp).map fun next => (cp, flushlen - cp, next)

/-- `buf_move_all` -/
def moveAll (out inp : Buf) : ℕ × Buf × Buf :=
  if inp.datalen = 0 then (0, out, inp)
  else if bufMaxLen < out.datalen ∨ bufMaxLen < inp.datalen
      ∨ sizeSub bufMaxLen inp.datalen < out.datalen then
    (0, out, inp)
  else
    (inp.datalen,
      { out with chunks := out.chunks ++ inp.chunks, datalen := out.datalen + inp.datalen },
      { inp with chunks := [], datalen := 0 })

/-- `buf_copy`. A chunk is copied with all of its memory. -/
def copy (b : Buf) (total : ℕ) : Buf × ℕ := (b, total + b.allocation)

/-- `buf_clear`; `buf_free_` is this and the end of the buffer. -/
def clear (b : Buf) (total : ℕ) : Option (Buf × ℕ) :=
  (b.chunks.foldlM chunkFree total).map fun total => ({ b with chunks := [], datalen := 0 }, total)

/-- The loop of `buf_pullup`, with the chunks after the first. -/
def pullupLoop (bytes : ℕ) : Chunk → List Chunk → ℕ → Option (List Chunk × ℕ)
  | dest, [], total => if dest.datalen < bytes then none else some ([dest], total)
  | dest, src :: rest, total =>
    if dest.datalen < bytes then
      let n := bytes - dest.datalen
      if src.datalen ≤ n then
        (chunkFree total src).bind fun total =>
          pullupLoop bytes (dest.write src.bytes) rest total
      else some (dest.write (src.bytes.take n) :: src.skip n :: rest, total)
    else some (dest :: src :: rest, total)

/-- The first chunk with room for `capacity` bytes: as it is, with its bytes
moved to the front, or larger. -/
def makeRoom (junk : ℕ → UInt8) (head : Chunk) (capacity total : ℕ) : Option (Chunk × ℕ) :=
  if capacity ≤ head.memlen then
    let needed := capacity - head.datalen
    let head := if head.remainingCapacity < needed then head.repack else head
    if needed ≤ head.remainingCapacity then some (head, total) else none
  else
    (bufPreferredChunkSize capacity).bind fun alloc =>
      (head.repack.grow junk (chunkSizeWithAlloc alloc)).bind fun newhead =>
        if capacity ≤ newhead.memlen then
          some (newhead, total + (newhead.alloc - head.repack.alloc))
        else none

/-- `buf_pullup`, with the bytes at `*head_out`; none of them without a chunk. -/
def pullup (b : Buf) (junk : ℕ → UInt8) (bytes total : ℕ) : Option (List UInt8 × Buf × ℕ) :=
  match b.chunks with
  | [] => some ([], b, total)
  | head :: rest =>
    let bytes := min b.datalen bytes
    if bytes ≤ head.datalen then some (head.bytes, b, total)
    else (makeRoom junk head bytes total).bind fun next =>
      (pullupLoop bytes next.1 rest next.2).map fun done =>
        ((done.1.head?.map Chunk.bytes).getD [], { b with chunks := done.1 }, done.2)

/-- `buf_find_offset_of_char` over the chunks; `offset` is the length of the ones before. -/
def findOffsetOfChar (ch : UInt8) : List Chunk → ℕ → Option ℕ
  | [], _ => none
  | chunk :: rest, offset =>
    match chunk.bytes.findIdx? (· = ch) with
    | some k => some (offset + k)
    | none => findOffsetOfChar ch rest (offset + chunk.datalen)

/-- `buf_get_line` with the line and the value of `*data_len` it leaves. -/
def getLine (b : Buf) (dataLen total : ℕ) : Option (ℤ × List UInt8 × ℕ × Buf × ℕ) :=
  if b.chunks = [] then some (0, [], dataLen, b, total)
  else if bufMaxLen < b.datalen then none
  else match findOffsetOfChar 10 b.chunks 0 with
  | none => some (0, [], dataLen, b, total)
  | some sz =>
    if dataLen < sz + 2 then some (-1, [], sz + 2, b, total)
    else (b.getBytes (sz + 1) total).map fun got => (1, got.2.1, sz + 1, got.2.2)

/-- The chunk `buf_read_from_fd` reads into: the tail, or a new one when that has
less than `MIN_READ_LEN` bytes of room. -/
def readRoom (b : Buf) (junk : ℕ → UInt8) (atMost total : ℕ) : Option (Buf × ℕ) :=
  if b.slack < 8 then b.addChunkWithCapacity junk atMost true total else some (b, total)

/-- The loop of `buf_read_from_fd`. A `recv` gives an error (`none`) or bytes, no
bytes at the end of the stream or when it would block; an exhausted list blocks.
More bytes than were asked for do not occur. -/
def readLoop (junk : ℕ → UInt8) (atMost : ℕ) :
    List (Option (List UInt8)) → ℕ → Buf → ℕ → Option (ℤ × Buf × ℕ)
  | recvs, totalRead, b, total =>
    if atMost ≤ totalRead then some (totalRead, b, total)
    else (b.readRoom junk atMost total).bind fun next =>
      next.1.chunks.getLast?.bind fun tail =>
        let readlen := min (atMost - totalRead) tail.remainingCapacity
        match recvs with
        | [] => some (totalRead, next)
        | none :: _ => some (-1, next)
        | some received :: recvs =>
          if readlen < received.length then none
          else if bufMaxLen < totalRead + received.length then none
          else if received.length < readlen then
            some (totalRead + received.length, next.1.writeTail tail received, next.2)
          else readLoop junk atMost recvs (totalRead + received.length)
            (next.1.writeTail tail received) next.2

/-- `buf_read_from_fd` -/
def readFromFd (b : Buf) (junk : ℕ → UInt8) (atMost : ℕ) (recvs : List (Option (List UInt8)))
    (total : ℕ) : Option (ℤ × Buf × ℕ) :=
  if bufMaxLen < b.datalen ∨ sizeSub bufMaxLen atMost < b.datalen then some (-1, b, total)
  else readLoop junk atMost recvs 0 b total

/-- `buf_assert_ok` -/
def assertOk (b : Buf) : Bool :=
  if b.chunks = [] then b.datalen = 0
  else b.chunks.all (fun c => decide (c.datalen ≤ c.memlen) && decide (c.datalen ≤ bufMaxLen)
      && decide (c.data ≤ c.memlen) && decide (c.data + c.datalen ≤ c.memlen))
    && decide (b.datalen = (b.chunks.map Chunk.datalen).sum)

/-! ## What the operations do to the queue -/

/-- The chunks are sound and `datalen` counts their bytes. -/
structure Sound (b : Buf) : Prop where
  chunks : ∀ c ∈ b.chunks, c.Ok
  datalen : b.datalen = b.contents.length
  size : chunkOverhead < b.defaultChunkSize

/-- Every chunk holds at least one byte. -/
def Dense (b : Buf) : Prop := ∀ c ∈ b.chunks, 0 < c.datalen

/-- `b` becomes a sound buffer with the bytes `q`, and what is newly allocated or
freed is counted. -/
structure Becomes (b : Buf) (total : ℕ) (b' : Buf) (total' : ℕ) (q : List UInt8) : Prop where
  sound : b'.Sound
  contents : b'.contents = q
  balance : total' + b.allocation = total + b'.allocation

/-- The same without leaving an empty chunk behind. -/
structure BecomesDense (b : Buf) (total : ℕ) (b' : Buf) (total' : ℕ) (q : List UInt8) : Prop
    extends Becomes b total b' total' q where
  dense : b.Dense → b'.Dense

section Lemmas

variable {b b' : Buf} {total total' : ℕ} {junk : ℕ → UInt8}

theorem Becomes.trans {b'' : Buf} {total'' : ℕ} {q q' : List UInt8}
    (h : Becomes b total b' total' q) (h' : Becomes b' total' b'' total'' q') :
    Becomes b total b'' total'' q' where
  sound := h'.sound
  contents := h'.contents
  balance := by
    have := h.balance
    have := h'.balance
    omega

theorem BecomesDense.trans {b'' : Buf} {total'' : ℕ} {q q' : List UInt8}
    (h : BecomesDense b total b' total' q) (h' : BecomesDense b' total' b'' total'' q') :
    BecomesDense b total b'' total'' q' :=
  ⟨h.toBecomes.trans h'.toBecomes, fun hb => h'.dense (h.dense hb)⟩

theorem Sound.refl (h : b.Sound) (total : ℕ) : BecomesDense b total b total b.contents :=
  ⟨⟨h, rfl, rfl⟩, id⟩

theorem contents_append (chunks chunks' : List Chunk) (n size : ℕ) :
    contents ⟨n, size, chunks ++ chunks'⟩
      = chunks.flatMap Chunk.bytes ++ chunks'.flatMap Chunk.bytes :=
  List.flatMap_append

theorem length_flatMap_bytes {chunks : List Chunk} (h : ∀ c ∈ chunks, c.Ok) :
    (chunks.flatMap Chunk.bytes).length = (chunks.map Chunk.datalen).sum := by
  rw [List.length_flatMap]
  congr 1
  apply List.map_congr_left
  intro c hc
  exact (h c hc).length_bytes

/-- A sound buffer within the bound passes `buf_assert_ok`. -/
theorem Sound.assertOk (h : b.Sound) (hmax : b.datalen ≤ bufMaxLen) : b.assertOk = true := by
  have hsum : b.datalen = (b.chunks.map Chunk.datalen).sum := by
    rw [h.datalen]
    exact length_flatMap_bytes h.chunks
  unfold Buf.assertOk
  split
  next hnil =>
    rw [hsum, hnil]
    rfl
  next =>
    rw [Bool.and_eq_true]
    refine ⟨?_, decide_eq_true hsum⟩
    rw [List.all_eq_true]
    intro c hc
    have hok := h.chunks c hc
    have hle : c.datalen ≤ (b.chunks.map Chunk.datalen).sum :=
      List.le_sum_of_mem (List.mem_map_of_mem hc)
    unfold Chunk.Ok at hok
    simp only [Bool.and_eq_true, decide_eq_true_eq]
    omega

theorem allocation_append (chunks chunks' : List Chunk) (n size : ℕ) :
    allocation ⟨n, size, chunks ++ chunks'⟩
      = (chunks.map Chunk.alloc).sum + (chunks'.map Chunk.alloc).sum := by
  unfold allocation
  rw [List.map_append, List.sum_append]

/-! ### Adding bytes -/

theorem newWithAllocSize_spec (junk : ℕ → UInt8) {alloc : ℕ} (h : chunkOverhead ≤ alloc) :
    (Chunk.newWithAllocSize junk alloc).Ok ∧ (Chunk.newWithAllocSize junk alloc).bytes = []
      ∧ (Chunk.newWithAllocSize junk alloc).alloc = alloc
      ∧ (Chunk.newWithAllocSize junk alloc).remainingCapacity = chunkSizeWithAlloc alloc := by
  have hlen : (Chunk.newWithAllocSize junk alloc).memlen = chunkSizeWithAlloc alloc :=
    Chunk.length_fresh ..
  refine ⟨Nat.zero_le _, rfl, ?_, ?_⟩
  · unfold Chunk.alloc chunkAllocSize
    rw [hlen]
    unfold chunkSizeWithAlloc
    omega
  · show (Chunk.newWithAllocSize junk alloc).memlen - 0 = _
    rw [hlen, Nat.sub_zero]

/-- A new tail for at least one byte. -/
theorem addChunk_spec (hsize : chunkOverhead < b.defaultChunkSize) (junk : ℕ → UInt8)
    (total : ℕ) {capacity : ℕ} (hcap : 0 < capacity) :
    ∃ c : Chunk, b.addChunkWithCapacity junk capacity true total
        = some ({ b with chunks := b.chunks ++ [c] }, total + c.alloc)
      ∧ c.Ok ∧ c.bytes = [] ∧ 0 < c.remainingCapacity := by
  -- whatever the size, the header does not fill the chunk
  have hnew : ∀ alloc, chunkOverhead < alloc →
      ∃ c : Chunk, ({ b with chunks := b.chunks ++ [.newWithAllocSize junk alloc] }, total + alloc)
          = (({ b with chunks := b.chunks ++ [c] }, total + c.alloc) : Buf × ℕ)
        ∧ c.Ok ∧ c.bytes = [] ∧ 0 < c.remainingCapacity := by
    intro alloc halloc
    obtain ⟨hok, hbytes, halloc', hrem⟩ := newWithAllocSize_spec junk halloc.le
    refine ⟨_, by rw [halloc'], hok, hbytes, ?_⟩
    rw [hrem]
    unfold chunkSizeWithAlloc
    omega
  unfold addChunkWithCapacity
  dsimp only
  split
  · obtain ⟨c, hc, hrest⟩ := hnew _ hsize
    exact ⟨c, congrArg some hc, hrest⟩
  · split
    · obtain ⟨c, hc, hrest⟩ := hnew maxChunkAlloc (by decide)
      exact ⟨c, congrArg some hc, hrest⟩
    next hcapped =>
      have hsmall : capacity ≤ sizeTCeiling - chunkOverhead := by
        have hle : ¬ maxChunkAlloc < chunkAllocSize capacity := fun h => hcapped ⟨rfl, h⟩
        unfold maxChunkAlloc chunkAllocSize at hle
        unfold sizeTCeiling
        omega
      obtain ⟨alloc, halloc⟩ := bufPreferredChunkSize_isSome hsmall
      obtain ⟨-, -, hmin⟩ := bufPreferredChunkSize_spec halloc
      have hroom : chunkOverhead < alloc := lt_of_lt_of_le (by decide) hmin
      obtain ⟨c, hc, hrest⟩ := hnew alloc hroom
      exact ⟨c, by rw [halloc, Option.map_some, hc], hrest⟩

/-- A buffer whose tail has room, with the chunks before it. -/
structure HasRoom (b : Buf) (total : ℕ) (b' : Buf) (total' : ℕ) (init : List Chunk) (tail : Chunk) :
    Prop where
  chunks : b' = { b with chunks := init ++ [tail] }
  ok : ∀ c ∈ init ++ [tail], c.Ok
  contents : init.flatMap Chunk.bytes ++ tail.bytes = b.contents
  balance : total' + b.allocation = total + ((init ++ [tail]).map Chunk.alloc).sum
  dense : b.Dense → ∀ c ∈ init, 0 < c.datalen

/-- The tail of a sound buffer, or a new one. -/
theorem hasRoom_new (h : b.Sound) {c : Chunk} (hok : c.Ok) (hbytes : c.bytes = []) :
    HasRoom b total { b with chunks := b.chunks ++ [c] } (total + c.alloc) b.chunks c where
  chunks := rfl
  ok d hd := by
    rcases List.mem_append.mp hd with hd | hd
    · exact h.chunks d hd
    · rw [List.mem_singleton.mp hd]
      exact hok
  contents := by
    rw [hbytes, List.append_nil]
    rfl
  balance := by
    rw [List.map_append, List.sum_append, List.map_singleton, List.sum_singleton]
    unfold allocation
    omega
  dense hb := hb

theorem hasRoom_old (h : b.Sound) {tail : Chunk} (htail : b.chunks.getLast? = some tail) :
    HasRoom b total b total b.chunks.dropLast tail := by
  have hsplit : b.chunks = b.chunks.dropLast ++ [tail] :=
    (List.dropLast_append_getLast? tail htail).symm
  refine ⟨?_, ?_, ?_, ?_, ?_⟩
  · rw [← hsplit]
  · rw [← hsplit]
    exact h.chunks
  · unfold contents
    conv => rhs; rw [hsplit]
    rw [List.flatMap_append, List.flatMap_singleton]
  · rw [← hsplit]
    rfl
  · intro hb c hc
    exact hb c ((List.dropLast_sublist _).mem hc)

theorem withRoom_spec (h : b.Sound) (junk : ℕ → UInt8) (total : ℕ) {n : ℕ} (hn : 0 < n) :
    ∃ b' total' init tail, b.withRoom junk n total = some (b', total')
      ∧ HasRoom b total b' total' init tail ∧ 0 < tail.remainingCapacity := by
  unfold withRoom
  split
  · obtain ⟨c, hc, hok, hbytes, hroom⟩ := addChunk_spec h.size junk total
      hn
    exact ⟨_, _, _, c, hc, hasRoom_new h hok hbytes, hroom⟩
  next hslack =>
    unfold slack at hslack
    cases htail : b.chunks.getLast? with
    | none =>
      rw [htail] at hslack
      exact absurd rfl hslack
    | some tail =>
      rw [htail] at hslack
      exact ⟨b, total, _, tail, rfl, hasRoom_old h htail, Nat.pos_of_ne_zero hslack⟩

/-- Writing behind the tail. The buffer keeps its chunks' sizes. -/
theorem HasRoom.writeTail (h : b.Sound) {init : List Chunk} {tail : Chunk}
    (hr : HasRoom b total b' total' init tail) {src : List UInt8}
    (hroom : src.length ≤ tail.remainingCapacity) :
    (b'.writeTail tail src).Sound ∧ (b'.writeTail tail src).contents = b.contents ++ src
      ∧ total' + b.allocation = total + (b'.writeTail tail src).allocation
      ∧ (src ≠ [] → b.Dense → (b'.writeTail tail src).Dense) := by
  obtain ⟨rfl, hok, hcont, hbal, hne⟩ := hr
  have htail : tail.Ok := hok tail (List.mem_append_right _ (List.mem_singleton.mpr rfl))
  have hchunks : (Buf.writeTail { b with chunks := init ++ [tail] } tail src).chunks
      = init ++ [tail.write src] := by
    unfold Buf.writeTail
    rw [List.dropLast_concat]
  have hcontents : (Buf.writeTail { b with chunks := init ++ [tail] } tail src).contents
      = b.contents ++ src := by
    rw [Buf.contents, hchunks, List.flatMap_append, List.flatMap_singleton, Chunk.bytes_write htail,
      ← List.append_assoc, hcont]
  refine ⟨⟨?_, ?_, h.size⟩, hcontents, ?_, ?_⟩
  · intro c hc
    rw [hchunks] at hc
    rcases List.mem_append.mp hc with hc | hc
    · exact hok c (List.mem_append_left _ hc)
    · rw [List.mem_singleton.mp hc]
      exact htail.write hroom
  · rw [hcontents, List.length_append, ← h.datalen]
    rfl
  · unfold allocation
    rw [hchunks]
    unfold allocation at hbal
    rw [hbal, List.map_append, List.map_append, List.map_singleton, List.map_singleton,
      Chunk.alloc, Chunk.alloc, Chunk.memlen_write htail hroom]
  · intro hsrc hb c hc
    rw [hchunks] at hc
    rcases List.mem_append.mp hc with hc | hc
    · exact hne hb c hc
    · rw [List.mem_singleton.mp hc]
      have := List.length_pos_iff.mpr hsrc
      show 0 < tail.datalen + src.length
      omega

theorem HasRoom.getLast? {init : List Chunk} {tail : Chunk}
    (hr : HasRoom b total b' total' init tail) : b'.chunks.getLast? = some tail := by
  rw [hr.chunks]
  exact List.getLast?_concat

/-- **`buf_add` appends**, over as many chunks as it takes. -/
theorem addLoop_spec (junk : ℕ → UInt8) :
    ∀ (fuel : ℕ) {b : Buf} (total : ℕ) (string : List UInt8), b.Sound → string.length ≤ fuel →
      ∃ b' total', addLoop junk fuel b total string = some (b', total')
        ∧ BecomesDense b total b' total' (b.contents ++ string) := by
  intro fuel
  induction fuel with
  | zero =>
    intro b total string h hlen
    obtain rfl : string = [] := List.length_eq_zero_iff.mp (Nat.le_zero.mp hlen)
    refine ⟨b, total, rfl, ?_⟩
    rw [List.append_nil]
    exact h.refl total
  | succ fuel ih =>
    intro b total string h hlen
    cases string with
    | nil =>
      refine ⟨b, total, rfl, ?_⟩
      rw [List.append_nil]
      exact h.refl total
    | cons ch string =>
      obtain ⟨b₁, total₁, init, tail, hroom, hr, hpos⟩ := withRoom_spec (n := (ch :: string).length) h
        junk total (Nat.succ_pos _)
      rw [addLoop, hroom, Option.bind_some]
      dsimp only
      rw [hr.getLast?, Option.bind_some]
      -- at least one byte is copied in this round
      generalize hcopy : min tail.remainingCapacity (ch :: string).length = copy
      have hcopy1 : 0 < copy := by
        rw [← hcopy, List.length_cons]
        omega
      have htake : ((ch :: string).take copy).length ≤ tail.remainingCapacity := by
        rw [List.length_take]
        omega
      obtain ⟨hs, hc, hbal, hne⟩ := hr.writeTail h htake
      have hrest : ((ch :: string).drop copy).length ≤ fuel := by
        rw [List.length_drop, List.length_cons]
        rw [List.length_cons] at hlen
        omega
      obtain ⟨b₂, total₂, hloop, hbecomes⟩ := ih total₁ ((ch :: string).drop copy) hs hrest
      refine ⟨b₂, total₂, hloop, ?_⟩
      have hstep : BecomesDense b total (b₁.writeTail tail ((ch :: string).take copy)) total₁
          (b.contents ++ (ch :: string).take copy) := by
        refine ⟨⟨hs, hc, hbal⟩, hne ?_⟩
        intro hnil
        rw [List.take_eq_nil_iff] at hnil
        rcases hnil with hnil | hnil
        · omega
        · exact absurd hnil (by simp)
      have htrans := hstep.trans hbecomes
      rw [hc, List.append_assoc, List.take_append_drop] at htrans
      exact htrans

end Lemmas

end Buf

end Dittor.Tor
