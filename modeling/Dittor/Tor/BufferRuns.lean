import Dittor.Tor.BufferOps
import Dittor.Lib.Buckets
import Dittor.Lib.Run

/-!
# Buffers are byte queues (`lib/buf/buffers.c`)

All the buffers of a process, under any sequence of calls. On the abstract side
a buffer is its list of bytes and `QueueStep` says what each call may return and
leave behind. `buffers_are_queues` is the refinement: the log of calls and
results of every run is one of the queues, `buf_assert_ok` holds of every
buffer, and `total_bytes_allocated_in_chunks` is what the live chunks take up.
`buffer_call_returns` is the other direction: a call that the queues allow does
not fail an assertion.

The only result that is not a function of the queue is that of `buf_pullup`,
which may give more contiguous bytes than were asked for.
-/

namespace Dittor.Tor

open Dittor.Lib

/-- A call on the buffers, which are named by their place in the list. -/
inductive BufEvent where
  /-- `buf_new`, or `buf_new_with_capacity`. -/
  | new (size : Option ℕ)
  | add (i : ℕ) (string : List UInt8) (junk : ℕ → UInt8)
  | drain (i n : ℕ)
  | getBytes (i n : ℕ)
  | moveToBuf (out inp flushlen : ℕ) (junk : ℕ → UInt8)
  | moveAll (out inp : ℕ)
  | setToCopy (output input : ℕ)
  | clear (i : ℕ)
  | free (i : ℕ)
  | pullup (i bytes : ℕ) (junk : ℕ → UInt8)
  | getLine (i dataLen : ℕ)
  /-- `buf_read_from_socket`, with what its `recv` calls give. -/
  | read (i atMost : ℕ) (recvs : List (Option (List UInt8))) (junk : ℕ → UInt8)

/-- What a call returns, through its value and its pointers. -/
inductive BufResult where
  | done
  | int (r : ℤ)
  | bytes (r : ℤ) (string : List UInt8)
  | moved (r : ℤ) (flushlen : ℕ)
  | head (bytes : List UInt8)
  | line (r : ℤ) (string : List UInt8) (dataLen : ℕ)
deriving DecidableEq

/-- No string in memory is longer than `SSIZE_MAX`, and the callers of
`buf_read_from_socket` ask for at most `BUF_MAX_LEN - buf_datalen` bytes. -/
def BufEvent.Real : BufEvent → Prop
  | .add _ string _ => string.length < 2 ^ 63
  | .read _ atMost _ _ => atMost ≤ bufMaxLen
  | _ => True

instance (e : BufEvent) : Decidable e.Real := by
  cases e <;> unfold BufEvent.Real <;> infer_instance

/-- Whether a call is a read from a socket. -/
def BufEvent.isRead : BufEvent → Bool
  | .read .. => true
  | _ => false

/-- The buffers, and the calls so far with their results. A freed buffer is `none`. -/
structure Bufs where
  bufs : List (Option Buf) := []
  total : ℕ := 0
  log : List (BufEvent × BufResult) := []

namespace Bufs

/-- The buffer at a place. -/
def get (w : Bufs) (i : ℕ) : Option Buf := w.bufs[i]?.join

/-- Buffer `i` has become `b`. -/
def put (w : Bufs) (e : BufEvent) (r : BufResult) (i : ℕ) (b : Option Buf) (total : ℕ) : Bufs :=
  { bufs := w.bufs.set i b, total := total, log := w.log ++ [(e, r)] }

/-- Buffers `i` and `j` have become `b` and `b'`. -/
def putTwo (w : Bufs) (e : BufEvent) (r : BufResult) (i j : ℕ) (b b' : Buf) (total : ℕ) : Bufs :=
  { bufs := (w.bufs.set i (some b)).set j (some b'), total := total, log := w.log ++ [(e, r)] }

/-- `buf_new`, or `buf_new_with_capacity`. -/
def create : Option ℕ → Option Buf
  | none => some { chunks := [] }
  | some size => Buf.newWithCapacity size

/-- One call; `none` when an assertion fails. -/
def step (w : Bufs) : BufEvent → Option Bufs
  | .new size =>
    (create size).map fun b =>
      { w with bufs := w.bufs ++ [some b], log := w.log ++ [(.new size, .done)] }
  | .add i string junk => (w.get i).bind fun b =>
    (b.add junk string w.total).map fun next =>
      w.put (.add i string junk) (.int next.1) i (some next.2.1) next.2.2
  | .drain i n => (w.get i).bind fun b =>
    (b.drain n w.total).map fun next => w.put (.drain i n) .done i (some next.1) next.2
  | .getBytes i n => (w.get i).bind fun b =>
    (b.getBytes n w.total).map fun next =>
      w.put (.getBytes i n) (.bytes next.1 next.2.1) i (some next.2.2.1) next.2.2.2
  | .moveToBuf out inp flushlen junk => (w.get out).bind fun b => (w.get inp).bind fun b' =>
    if out = inp then none
    else (Buf.moveToBuf b b' junk flushlen w.total).map fun next =>
      w.putTwo (.moveToBuf out inp flushlen junk) (.moved next.1 next.2.1) out inp
        next.2.2.1 next.2.2.2.1 next.2.2.2.2
  | .moveAll out inp => (w.get out).bind fun b => (w.get inp).bind fun b' =>
    if out = inp then none
    else some (w.putTwo (.moveAll out inp) (.int (Buf.moveAll b b').1) out inp
      (Buf.moveAll b b').2.1 (Buf.moveAll b b').2.2 w.total)
  | .setToCopy output input => (w.get output).bind fun b => (w.get input).bind fun b' =>
    if output = input then none
    else (b.clear w.total).map fun next =>
      w.put (.setToCopy output input) (.int 0) output (some (b'.copy next.2).1) (b'.copy next.2).2
  | .clear i => (w.get i).bind fun b =>
    (b.clear w.total).map fun next => w.put (.clear i) .done i (some next.1) next.2
  | .free i => (w.get i).bind fun b =>
    (b.clear w.total).map fun next => w.put (.free i) .done i none next.2
  | .pullup i bytes junk => (w.get i).bind fun b =>
    (b.pullup junk bytes w.total).map fun next =>
      w.put (.pullup i bytes junk) (.head next.1) i (some next.2.1) next.2.2
  | .getLine i dataLen => (w.get i).bind fun b =>
    (b.getLine dataLen w.total).map fun next =>
      w.put (.getLine i dataLen) (.line next.1 next.2.1 next.2.2.1) i (some next.2.2.2.1)
        next.2.2.2.2
  | .read i atMost recvs junk => (w.get i).bind fun b =>
    (b.readFromFd junk atMost recvs w.total).map fun next =>
      w.put (.read i atMost recvs junk) (.int next.1) i (some next.2.1) next.2.2

/-- What the chunks of the live buffers take up. -/
def allocation (bufs : List (Option Buf)) : ℕ :=
  (bufs.map fun b => (b.map Buf.allocation).getD 0).sum

end Bufs

/-! ## Queues -/

/-- The queues; a freed one is `none`. -/
abbrev Queues := List (Option (List UInt8))

/-- What a call may do to the queues. -/
inductive QueueStep (qs : Queues) : BufEvent → BufResult → Queues → Prop
  | new (size : Option ℕ) (hsize : ∀ n ∈ size, n ≤ sizeTCeiling - chunkOverhead) :
    QueueStep qs (.new size) .done (qs ++ [some []])
  | add {i : ℕ} {q string : List UInt8} (junk : ℕ → UInt8) (hq : qs[i]? = some (some q))
      (hfit : q.length + string.length ≤ bufMaxLen) :
    QueueStep qs (.add i string junk) (.int (q.length + string.length : ℕ))
      (qs.set i (some (q ++ string)))
  | addFull {i : ℕ} {q string : List UInt8} (junk : ℕ → UInt8) (hq : qs[i]? = some (some q))
      (hlen : string.length ≤ bufMaxLen) (hfull : bufMaxLen < q.length + string.length) :
    QueueStep qs (.add i string junk) (.int (-1)) qs
  | drain {i n : ℕ} {q : List UInt8} (hq : qs[i]? = some (some q)) (hn : n ≤ q.length) :
    QueueStep qs (.drain i n) .done (qs.set i (some (q.drop n)))
  | getBytes {i n : ℕ} {q : List UInt8} (hq : qs[i]? = some (some q)) (hn : n ≤ q.length) :
    QueueStep qs (.getBytes i n) (.bytes (q.length - n : ℕ) (q.take n))
      (qs.set i (some (q.drop n)))
  | moveToBuf {out inp flushlen : ℕ} {q q' : List UInt8} (junk : ℕ → UInt8)
      (hne : out ≠ inp) (hq : qs[out]? = some (some q)) (hq' : qs[inp]? = some (some q'))
      (hfit : q.length + flushlen ≤ bufMaxLen) :
    QueueStep qs (.moveToBuf out inp flushlen junk)
      (.moved (min flushlen q'.length : ℕ) (flushlen - min flushlen q'.length))
      ((qs.set out (some (q ++ q'.take (min flushlen q'.length)))).set inp
        (some (q'.drop (min flushlen q'.length))))
  | moveToBufFull {out inp flushlen : ℕ} {q q' : List UInt8} (junk : ℕ → UInt8)
      (hne : out ≠ inp) (hq : qs[out]? = some (some q)) (hq' : qs[inp]? = some (some q'))
      (hfull : bufMaxLen < q.length + flushlen) :
    QueueStep qs (.moveToBuf out inp flushlen junk) (.moved (-1) flushlen) qs
  | moveAll {out inp : ℕ} {q q' : List UInt8} (hne : out ≠ inp) (hq : qs[out]? = some (some q))
      (hq' : qs[inp]? = some (some q')) (hfit : q.length + q'.length ≤ bufMaxLen) :
    QueueStep qs (.moveAll out inp) (.int q'.length)
      ((qs.set out (some (q ++ q'))).set inp (some []))
  | moveAllFull {out inp : ℕ} {q q' : List UInt8} (hne : out ≠ inp)
      (hq : qs[out]? = some (some q)) (hq' : qs[inp]? = some (some q'))
      (hfull : bufMaxLen < q.length + q'.length) :
    QueueStep qs (.moveAll out inp) (.int 0) qs
  | setToCopy {output input : ℕ} {q q' : List UInt8} (hne : output ≠ input)
      (hq : qs[output]? = some (some q)) (hq' : qs[input]? = some (some q')) :
    QueueStep qs (.setToCopy output input) (.int 0) (qs.set output (some q'))
  | clear {i : ℕ} {q : List UInt8} (hq : qs[i]? = some (some q)) :
    QueueStep qs (.clear i) .done (qs.set i (some []))
  | free {i : ℕ} {q : List UInt8} (hq : qs[i]? = some (some q)) :
    QueueStep qs (.free i) .done (qs.set i none)
  | pullup {i bytes : ℕ} {q head : List UInt8} (junk : ℕ → UInt8) (hq : qs[i]? = some (some q))
      (hhead : head <+: q) (hlen : min q.length bytes ≤ head.length) :
    QueueStep qs (.pullup i bytes junk) (.head head) qs
  | noLine {i dataLen : ℕ} {q : List UInt8} (hq : qs[i]? = some (some q)) (hline : 10 ∉ q) :
    QueueStep qs (.getLine i dataLen) (.line 0 [] dataLen) qs
  | longLine {i dataLen : ℕ} {line rest : List UInt8}
      (hq : qs[i]? = some (some (line ++ 10 :: rest))) (hline : 10 ∉ line)
      (hlong : dataLen < line.length + 2) :
    QueueStep qs (.getLine i dataLen) (.line (-1) [] (line.length + 2)) qs
  | line {i dataLen : ℕ} {line rest : List UInt8}
      (hq : qs[i]? = some (some (line ++ 10 :: rest))) (hline : 10 ∉ line)
      (hfit : line.length + 2 ≤ dataLen) :
    QueueStep qs (.getLine i dataLen) (.line 1 (line ++ [10]) (line.length + 1))
      (qs.set i (some rest))
  | read {i atMost : ℕ} {recvs : List (Option (List UInt8))} {q got : List UInt8} {r : ℤ}
      (junk : ℕ → UInt8) (hq : qs[i]? = some (some q)) (hfit : q.length + atMost ≤ bufMaxLen)
      (hgot : ∃ k, got = (recvs.take k).reduceOption.flatten) (hlen : got.length ≤ atMost)
      (hr : r = got.length ∨ r = -1) :
    QueueStep qs (.read i atMost recvs junk) (.int r) (qs.set i (some (q ++ got)))
  | readFull {i atMost : ℕ} {q : List UInt8} (recvs : List (Option (List UInt8)))
      (junk : ℕ → UInt8) (hq : qs[i]? = some (some q)) (hfull : bufMaxLen < q.length + atMost) :
    QueueStep qs (.read i atMost recvs junk) (.int (-1)) qs

/-- The queues after a log of calls and results. -/
inductive QueueRun : List (BufEvent × BufResult) → Queues → Prop
  | nil : QueueRun [] []
  | snoc {log : List (BufEvent × BufResult)} {qs qs' : Queues} {e : BufEvent} {r : BufResult}
      (h : QueueRun log qs) (hstep : QueueStep qs e r qs') : QueueRun (log ++ [(e, r)]) qs'

/-! ## The refinement -/

/-- The buffers hold the queues. Only a read leaves a chunk empty. -/
structure Holds (w : Bufs) (qs : Queues) : Prop where
  contents : w.bufs.map (Option.map Buf.contents) = qs
  sound : ∀ b, some b ∈ w.bufs → b.Sound ∧ b.datalen ≤ bufMaxLen
  total : w.total = Bufs.allocation w.bufs
  dense : (∀ e ∈ w.log, e.1.isRead = false) → ∀ b, some b ∈ w.bufs → b.Dense

namespace Holds

variable {w : Bufs} {qs : Queues} {i j : ℕ} {b b' : Buf} {q : List UInt8}

theorem get_eq (h : Holds w qs) (hb : w.get i = some b) :
    w.bufs[i]? = some (some b) ∧ qs[i]? = some (some b.contents) ∧ b.Sound
      ∧ b.datalen ≤ bufMaxLen ∧ b.contents.length = b.datalen := by
  have hget : w.bufs[i]? = some (some b) := Option.join_eq_some_iff.mp hb
  obtain ⟨hs, hmax⟩ := h.sound b (List.mem_of_getElem? hget)
  refine ⟨hget, ?_, hs, hmax, hs.length_contents⟩
  rw [← h.contents, List.getElem?_map, hget]
  rfl

/-- A queue that is there is in a buffer. -/
theorem get_of_queue (h : Holds w qs) (hq : qs[i]? = some (some q)) :
    ∃ b, w.get i = some b ∧ b.contents = q := by
  rw [← h.contents, List.getElem?_map, Option.map_eq_some_iff] at hq
  obtain ⟨o, ho, hmap⟩ := hq
  obtain ⟨b, rfl, hb⟩ := Option.map_eq_some_iff.mp hmap
  exact ⟨b, Option.join_eq_some_iff.mpr ho, hb⟩

theorem allocation_le (h : Holds w qs) (hb : w.get i = some b) : b.allocation ≤ w.total := by
  obtain ⟨hget, -⟩ := h.get_eq hb
  rw [h.total]
  exact List.le_sum_of_mem (List.mem_map.mpr ⟨some b, List.mem_of_getElem? hget, rfl⟩)

/-- Two buffers together. -/
theorem allocation_add_le (h : Holds w qs) (hij : i ≠ j) (hb : w.get i = some b)
    (hb' : w.get j = some b') : b.allocation + b'.allocation ≤ w.total := by
  obtain ⟨hget, -⟩ := h.get_eq hb
  obtain ⟨hget', -⟩ := h.get_eq hb'
  -- without the first of them the second still counts
  have hset := sum_map_set (fun b : Option Buf => (b.map Buf.allocation).getD 0) none hget
  have hstill : (w.bufs.set i none)[j]? = some (some b') := by
    rw [List.getElem?_set_ne hij, hget']
  have hle : b'.allocation ≤ Bufs.allocation (w.bufs.set i none) :=
    List.le_sum_of_mem (List.mem_map.mpr ⟨some b', List.mem_of_getElem? hstill, rfl⟩)
  have htotal := h.total
  unfold Bufs.allocation at hle htotal
  simp only [Option.map_some, Option.getD_some, Option.map_none, Option.getD_none] at hset
  omega

/-- The log before the last call. -/
theorem dense_before (h : Holds w qs) {e : BufEvent} {r : BufResult}
    (hlog : ∀ x ∈ w.log ++ [(e, r)], x.1.isRead = false) :
    e.isRead = false ∧ ∀ b, some b ∈ w.bufs → b.Dense :=
  ⟨hlog (e, r) (List.mem_append_right _ (List.mem_singleton.mpr rfl)),
    h.dense fun x hx => hlog x (List.mem_append_left _ hx)⟩

/-- A call that leaves no empty chunk behind in its buffer. -/
theorem keeps_dense (h : Holds w qs) (hb : w.get i = some b) {e : BufEvent}
    (hd : b.Dense → b'.Dense) :
    e.isRead = true ∨ ((∀ c, some c ∈ w.bufs → c.Dense) → b'.Dense) := by
  obtain ⟨hget, -⟩ := h.get_eq hb
  exact .inr fun hall => hd (hall b (List.mem_of_getElem? hget))

/-- One buffer has changed. -/
theorem put (h : Holds w qs) (hb : w.get i = some b) {total' : ℕ}
    (hbecomes : b.Becomes w.total b' total' q) (hmax : q.length ≤ bufMaxLen) {e : BufEvent}
    (hdense : e.isRead = true ∨ ((∀ c, some c ∈ w.bufs → c.Dense) → b'.Dense)) (r : BufResult) :
    Holds (w.put e r i (some b') total') (qs.set i (some q)) := by
  obtain ⟨hget, -⟩ := h.get_eq hb
  refine ⟨?_, ?_, ?_, ?_⟩
  · show (w.bufs.set i (some b')).map (Option.map Buf.contents) = qs.set i (some q)
    rw [List.map_set, h.contents, Option.map_some, hbecomes.contents]
  · intro c hc
    rcases List.mem_or_eq_of_mem_set hc with hc | hc
    · exact h.sound c hc
    · rw [Option.some.inj hc]
      refine ⟨hbecomes.sound, ?_⟩
      rw [hbecomes.sound.datalen, hbecomes.contents]
      exact hmax
  · have hset := sum_map_set (fun b : Option Buf => (b.map Buf.allocation).getD 0) (some b') hget
    have hbal := hbecomes.balance
    have htotal := h.total
    show total' = Bufs.allocation (w.bufs.set i (some b'))
    unfold Bufs.allocation at htotal ⊢
    simp only [Option.map_some, Option.getD_some] at hset
    omega
  · intro hlog c hc
    obtain ⟨hread, hold⟩ := h.dense_before hlog
    rcases List.mem_or_eq_of_mem_set hc with hc | hc
    · exact hold c hc
    · rw [Option.some.inj hc]
      rcases hdense with hdense | hdense
      · rw [hread] at hdense
        exact absurd hdense Bool.false_ne_true
      · exact hdense hold

/-- Two buffers have changed. -/
theorem putTwo (h : Holds w qs) (hij : i ≠ j) {out inp out' inp' : Buf} (ho : w.get i = some out)
    (hi : w.get j = some inp) {total' len : ℕ}
    (hmoves : Buf.Moves out inp w.total out' inp' total' len)
    (hmax : out'.datalen ≤ bufMaxLen) (hmax' : inp'.datalen ≤ bufMaxLen) (e : BufEvent)
    (r : BufResult) :
    Holds (w.putTwo e r i j out' inp' total')
      ((qs.set i (some (out.contents ++ inp.contents.take len))).set j
        (some (inp.contents.drop len))) := by
  obtain ⟨hget, -⟩ := h.get_eq ho
  obtain ⟨hget', -⟩ := h.get_eq hi
  refine ⟨?_, ?_, ?_, ?_⟩
  · show ((w.bufs.set i (some out')).set j (some inp')).map (Option.map Buf.contents) = _
    rw [List.map_set, List.map_set, h.contents, Option.map_some, Option.map_some,
      hmoves.out_contents, hmoves.inp_contents]
  · intro c hc
    rcases List.mem_or_eq_of_mem_set hc with hc | hc
    · rcases List.mem_or_eq_of_mem_set hc with hc | hc
      · exact h.sound c hc
      · rw [Option.some.inj hc]
        exact ⟨hmoves.out_sound, hmax⟩
    · rw [Option.some.inj hc]
      exact ⟨hmoves.inp_sound, hmax'⟩
  · have hset := sum_map_set (fun b : Option Buf => (b.map Buf.allocation).getD 0) (some out') hget
    have hstill : (w.bufs.set i (some out'))[j]? = some (some inp) := by
      rw [List.getElem?_set_ne hij, hget']
    have hset' := sum_map_set (fun b : Option Buf => (b.map Buf.allocation).getD 0) (some inp')
      hstill
    have hbal := hmoves.balance
    have htotal := h.total
    show total' = Bufs.allocation ((w.bufs.set i (some out')).set j (some inp'))
    unfold Bufs.allocation at htotal ⊢
    simp only [Option.map_some, Option.getD_some] at hset hset'
    omega
  · intro hlog c hc
    obtain ⟨-, hold⟩ := h.dense_before hlog
    obtain ⟨hd, hd'⟩ := hmoves.dense (hold out (List.mem_of_getElem? hget))
      (hold inp (List.mem_of_getElem? hget'))
    rcases List.mem_or_eq_of_mem_set hc with hc | hc
    · rcases List.mem_or_eq_of_mem_set hc with hc | hc
      · exact hold c hc
      · rw [Option.some.inj hc]
        exact hd
    · rw [Option.some.inj hc]
      exact hd'

theorem set_self_queue (h : Holds w qs) (hb : w.get i = some b) :
    qs.set i (some b.contents) = qs := by
  obtain ⟨-, hq, -⟩ := h.get_eq hb
  obtain ⟨hlt, hget⟩ := List.getElem?_eq_some_iff.mp hq
  rw [← hget, List.set_getElem_self]

/-- A call that leaves its buffer alone. -/
theorem unchanged (h : Holds w qs) (hb : w.get i = some b) (e : BufEvent) (r : BufResult) :
    Holds (w.put e r i (some b) w.total) qs := by
  obtain ⟨-, -, hs, hmax, hlen⟩ := h.get_eq hb
  have hput := h.put hb (hs.refl w.total).toBecomes (by omega) (e := e) (h.keeps_dense hb id) r
  rw [h.set_self_queue hb] at hput
  exact hput

/-- A call that leaves its two buffers alone. -/
theorem unchangedTwo (h : Holds w qs) (hij : i ≠ j) (hb : w.get i = some b)
    (hb' : w.get j = some b') (e : BufEvent) (r : BufResult) :
    Holds (w.putTwo e r i j b b' w.total) qs := by
  obtain ⟨-, -, hs, hmax, -⟩ := h.get_eq hb
  obtain ⟨-, -, hs', hmax', -⟩ := h.get_eq hb'
  have hput := h.putTwo hij hb hb' (.refl hs hs' w.total) hmax hmax' e r
  rw [List.take_zero, List.append_nil, List.drop_zero, h.set_self_queue hb,
    h.set_self_queue hb'] at hput
  exact hput

end Holds

/-! ### Call by call -/

section Calls

variable {w w' : Bufs} {qs : Queues} {e : BufEvent}

/-- What a call answers is what the queues answer. -/
def Refines (w : Bufs) (qs : Queues) (e : BufEvent) (w' : Bufs) : Prop :=
  ∃ r qs', QueueStep qs e r qs' ∧ Holds w' qs' ∧ w'.log = w.log ++ [(e, r)]

theorem new_refines {size : Option ℕ} (h : Holds w qs) (hst : w.step (.new size) = some w') :
    Refines w qs (.new size) w' := by
  obtain ⟨b, hb, rfl⟩ := Option.map_eq_some_iff.mp hst
  have hempty : b.chunks = [] ∧ b.datalen = 0 ∧ chunkOverhead < b.defaultChunkSize
      ∧ ∀ n ∈ size, n ≤ sizeTCeiling - chunkOverhead := by
    cases size with
    | none =>
      obtain rfl := Option.some.inj hb
      exact ⟨rfl, rfl, by decide, fun n hn => absurd hn (by simp)⟩
    | some n =>
      obtain ⟨alloc, halloc, rfl⟩ := Option.map_eq_some_iff.mp hb
      obtain ⟨hceil, -, hmin⟩ := bufPreferredChunkSize_spec halloc
      refine ⟨rfl, rfl, lt_of_lt_of_le (by decide) hmin, fun m hm => ?_⟩
      rw [← Option.some.inj hm]
      exact hceil
  obtain ⟨hchunks, hlen, hsize, hceil⟩ := hempty
  have hcontents : b.contents = [] := by rw [Buf.contents, hchunks, List.flatMap_nil]
  refine ⟨.done, _, .new size hceil, ⟨?_, ?_, ?_, ?_⟩, rfl⟩
  · show (w.bufs ++ [some b]).map (Option.map Buf.contents) = qs ++ [some []]
    rw [List.map_append, h.contents, List.map_singleton, Option.map_some, hcontents]
  · intro c hc
    rcases List.mem_append.mp hc with hc | hc
    · exact h.sound c hc
    · rw [Option.some.inj (List.mem_singleton.mp hc)]
      refine ⟨⟨fun d hd => ?_, ?_, hsize⟩, ?_⟩
      · rw [hchunks] at hd
        exact absurd hd List.not_mem_nil
      · rw [hlen, hcontents]
        rfl
      · rw [hlen]
        exact Nat.zero_le _
  · show w.total = Bufs.allocation (w.bufs ++ [some b])
    rw [Bufs.allocation, List.map_append, List.sum_append, List.map_singleton, List.sum_singleton,
      Option.map_some, Option.getD_some, Buf.allocation, hchunks, List.map_nil, List.sum_nil,
      Nat.add_zero]
    exact h.total
  · intro hlog c hc
    obtain ⟨-, hold⟩ := h.dense_before hlog
    rcases List.mem_append.mp hc with hc | hc
    · exact hold c hc
    · rw [Option.some.inj (List.mem_singleton.mp hc)]
      intro d hd
      rw [hchunks] at hd
      exact absurd hd List.not_mem_nil

theorem add_refines {i : ℕ} {string : List UInt8} {junk : ℕ → UInt8} (h : Holds w qs)
    (hreal : string.length < 2 ^ 63) (hst : w.step (.add i string junk) = some w') :
    Refines w qs (.add i string junk) w' := by
  obtain ⟨b, hb, hst⟩ := Option.bind_eq_some_iff.mp hst
  obtain ⟨next, hnext, rfl⟩ := Option.map_eq_some_iff.mp hst
  obtain ⟨-, hq, hs, hmax, hlen⟩ := h.get_eq hb
  by_cases hlong : bufMaxLen < string.length
  · rw [hs.add_aborts hmax hlong hreal] at hnext
    exact absurd hnext (by simp)
  · by_cases hfit : b.datalen + string.length ≤ bufMaxLen
    · obtain ⟨b', total', hadd, hbecomes⟩ := hs.add junk w.total hfit
      obtain rfl := Option.some.inj (hadd.symm.trans hnext)
      refine ⟨_, _, .add junk hq (by omega),
        h.put hb hbecomes.toBecomes ?_ (h.keeps_dense hb hbecomes.dense) _, ?_⟩
      · rw [List.length_append]
        omega
      · rw [hlen]
        rfl
    · rw [Buf.add_full hmax (not_lt.mp hlong) (by omega)] at hnext
      obtain rfl := Option.some.inj hnext
      exact ⟨_, _, .addFull junk hq (not_lt.mp hlong) (by omega), h.unchanged hb _ _, rfl⟩

theorem drain_refines {i n : ℕ} (h : Holds w qs) (hst : w.step (.drain i n) = some w') :
    Refines w qs (.drain i n) w' := by
  obtain ⟨b, hb, hst⟩ := Option.bind_eq_some_iff.mp hst
  obtain ⟨next, hnext, rfl⟩ := Option.map_eq_some_iff.mp hst
  obtain ⟨-, hq, hs, hmax, hlen⟩ := h.get_eq hb
  by_cases hn : n ≤ b.datalen
  · obtain ⟨b', total', hdrain, hbecomes⟩ := hs.drain hn (h.allocation_le hb)
    obtain rfl := Option.some.inj (hdrain.symm.trans hnext)
    refine ⟨_, _, .drain hq (by omega),
      h.put hb hbecomes.toBecomes ?_ (h.keeps_dense hb hbecomes.dense) _, rfl⟩
    rw [List.length_drop]
    omega
  · unfold Buf.drain at hnext
    rw [if_pos (not_le.mp hn)] at hnext
    exact absurd hnext (by simp)

theorem getBytes_refines {i n : ℕ} (h : Holds w qs) (hst : w.step (.getBytes i n) = some w') :
    Refines w qs (.getBytes i n) w' := by
  obtain ⟨b, hb, hst⟩ := Option.bind_eq_some_iff.mp hst
  obtain ⟨next, hnext, rfl⟩ := Option.map_eq_some_iff.mp hst
  obtain ⟨-, hq, hs, hmax, hlen⟩ := h.get_eq hb
  by_cases hn : n ≤ b.datalen
  · obtain ⟨b', total', hget, hbecomes⟩ := hs.getBytes hmax hn (h.allocation_le hb)
    obtain rfl := Option.some.inj (hget.symm.trans hnext)
    refine ⟨_, _, .getBytes hq (by omega),
      h.put hb hbecomes.toBecomes ?_ (h.keeps_dense hb hbecomes.dense) _, ?_⟩
    · rw [List.length_drop]
      omega
    · rw [hlen]
      rfl
  · unfold Buf.getBytes Buf.peek at hnext
    rw [if_pos (not_le.mp hn)] at hnext
    exact absurd hnext (by simp)

theorem moveToBuf_refines {out inp flushlen : ℕ} {junk : ℕ → UInt8} (h : Holds w qs)
    (hst : w.step (.moveToBuf out inp flushlen junk) = some w') :
    Refines w qs (.moveToBuf out inp flushlen junk) w' := by
  obtain ⟨b, hb, hst⟩ := Option.bind_eq_some_iff.mp hst
  obtain ⟨b', hb', hst⟩ := Option.bind_eq_some_iff.mp hst
  split at hst
  · exact absurd hst (by simp)
  next hne =>
    obtain ⟨next, hnext, rfl⟩ := Option.map_eq_some_iff.mp hst
    obtain ⟨-, hq, hs, hmax, hlen⟩ := h.get_eq hb
    obtain ⟨-, hq', hs', hmax', hlen'⟩ := h.get_eq hb'
    by_cases hfit : b.datalen + flushlen ≤ bufMaxLen
    · obtain ⟨o, o', total', hmove, hmoves⟩ := hs.moveToBuf hs' junk hmax' hfit
        (h.allocation_add_le hne hb hb')
      obtain rfl := Option.some.inj (hmove.symm.trans hnext)
      have ho : o.datalen ≤ bufMaxLen := by
        rw [hmoves.out_sound.datalen, hmoves.out_contents, List.length_append, List.length_take]
        omega
      have ho' : o'.datalen ≤ bufMaxLen := by
        rw [hmoves.inp_sound.datalen, hmoves.inp_contents, List.length_drop]
        omega
      have hstep := @QueueStep.moveToBuf qs out inp flushlen _ _ junk hne hq hq' (by omega)
      rw [hlen'] at hstep
      exact ⟨_, _, hstep, h.putTwo hne hb hb' hmoves ho ho' _ _, rfl⟩
    · rw [Buf.moveToBuf_full (not_le.mp hfit)] at hnext
      obtain rfl := Option.some.inj hnext
      exact ⟨_, _, .moveToBufFull junk hne hq hq' (by omega), h.unchangedTwo hne hb hb' _ _, rfl⟩

theorem moveAll_refines {out inp : ℕ} (h : Holds w qs)
    (hst : w.step (.moveAll out inp) = some w') : Refines w qs (.moveAll out inp) w' := by
  obtain ⟨b, hb, hst⟩ := Option.bind_eq_some_iff.mp hst
  obtain ⟨b', hb', hst⟩ := Option.bind_eq_some_iff.mp hst
  split at hst
  · exact absurd hst (by simp)
  next hne =>
    obtain rfl := Option.some.inj hst
    obtain ⟨-, hq, hs, hmax, hlen⟩ := h.get_eq hb
    obtain ⟨-, hq', hs', hmax', hlen'⟩ := h.get_eq hb'
    by_cases hfit : b.datalen + b'.datalen ≤ bufMaxLen
    · obtain ⟨o, o', hmove, hmoves⟩ := hs.moveAll hs' w.total hfit
      have ho : o.datalen ≤ bufMaxLen := by
        rw [hmoves.out_sound.datalen, hmoves.out_contents, List.length_append, List.length_take]
        omega
      have ho' : o'.datalen ≤ bufMaxLen := by
        rw [hmoves.inp_sound.datalen, hmoves.inp_contents, List.length_drop]
        omega
      have hput := h.putTwo hne hb hb' hmoves ho ho' (.moveAll out inp) (.int b'.datalen)
      rw [List.take_of_length_le (le_of_eq hlen'), List.drop_of_length_le (le_of_eq hlen')] at hput
      have hstep := QueueStep.moveAll hne hq hq' (by omega)
      rw [hlen'] at hstep
      refine ⟨_, _, hstep, ?_, ?_⟩
      · rw [hmove]
        exact hput
      · rw [hmove]
        rfl
    · refine ⟨.int 0, qs, .moveAllFull hne hq hq' (by omega), ?_, ?_⟩
      · rw [Buf.moveAll_full hmax' (not_le.mp hfit)]
        exact h.unchangedTwo hne hb hb' _ _
      · rw [Buf.moveAll_full hmax' (not_le.mp hfit)]
        rfl

theorem setToCopy_refines {output input : ℕ} (h : Holds w qs)
    (hst : w.step (.setToCopy output input) = some w') :
    Refines w qs (.setToCopy output input) w' := by
  obtain ⟨b, hb, hst⟩ := Option.bind_eq_some_iff.mp hst
  obtain ⟨b', hb', hst⟩ := Option.bind_eq_some_iff.mp hst
  split at hst
  · exact absurd hst (by simp)
  next hne =>
    obtain ⟨next, hnext, rfl⟩ := Option.map_eq_some_iff.mp hst
    obtain ⟨-, hq, hs, -, -⟩ := h.get_eq hb
    obtain ⟨hget', hq', hs', hmax', hlen'⟩ := h.get_eq hb'
    obtain ⟨b₁, total₁, hclear, hbecomes, hzero⟩ := hs.clear (h.allocation_le hb)
    obtain rfl := Option.some.inj (hclear.symm.trans hnext)
    -- the old chunks are freed, the new ones counted
    have hcopy : b.Becomes w.total (b'.copy total₁).1 (b'.copy total₁).2 b'.contents := by
      refine ⟨hs', rfl, ?_⟩
      have := hbecomes.balance
      show total₁ + b'.allocation + b.allocation = w.total + b'.allocation
      omega
    exact ⟨_, _, .setToCopy hne hq hq', h.put hb hcopy (by omega)
      (.inr fun hall => hall b' (List.mem_of_getElem? hget')) _, rfl⟩

theorem clear_refines {i : ℕ} (h : Holds w qs) (hst : w.step (.clear i) = some w') :
    Refines w qs (.clear i) w' := by
  obtain ⟨b, hb, hst⟩ := Option.bind_eq_some_iff.mp hst
  obtain ⟨next, hnext, rfl⟩ := Option.map_eq_some_iff.mp hst
  obtain ⟨-, hq, hs, -, -⟩ := h.get_eq hb
  obtain ⟨b', total', hclear, hbecomes, -⟩ := hs.clear (h.allocation_le hb)
  obtain rfl := Option.some.inj (hclear.symm.trans hnext)
  exact ⟨_, _, .clear hq, h.put hb hbecomes.toBecomes (Nat.zero_le _)
    (h.keeps_dense hb hbecomes.dense) _, rfl⟩

theorem free_refines {i : ℕ} (h : Holds w qs) (hst : w.step (.free i) = some w') :
    Refines w qs (.free i) w' := by
  obtain ⟨b, hb, hst⟩ := Option.bind_eq_some_iff.mp hst
  obtain ⟨next, hnext, rfl⟩ := Option.map_eq_some_iff.mp hst
  obtain ⟨hget, hq, hs, -, -⟩ := h.get_eq hb
  obtain ⟨b', total', hclear, hbecomes, hzero⟩ := hs.clear (h.allocation_le hb)
  obtain rfl := Option.some.inj (hclear.symm.trans hnext)
  refine ⟨_, _, .free hq, ⟨?_, ?_, ?_, ?_⟩, rfl⟩
  · show (w.bufs.set i none).map (Option.map Buf.contents) = qs.set i none
    rw [List.map_set, h.contents]
    rfl
  · intro c hc
    rcases List.mem_or_eq_of_mem_set hc with hc | hc
    · exact h.sound c hc
    · exact absurd hc (by simp)
  · have hset := sum_map_set (fun b : Option Buf => (b.map Buf.allocation).getD 0) none hget
    have hbal := hbecomes.balance
    have htotal := h.total
    show total' = Bufs.allocation (w.bufs.set i none)
    unfold Bufs.allocation at htotal ⊢
    simp only [Option.map_some, Option.getD_some, Option.map_none, Option.getD_none] at hset
    omega
  · intro hlog c hc
    obtain ⟨-, hold⟩ := h.dense_before hlog
    rcases List.mem_or_eq_of_mem_set hc with hc | hc
    · exact hold c hc
    · exact absurd hc (by simp)

theorem pullup_refines {i bytes : ℕ} {junk : ℕ → UInt8} (h : Holds w qs)
    (hst : w.step (.pullup i bytes junk) = some w') : Refines w qs (.pullup i bytes junk) w' := by
  obtain ⟨b, hb, hst⟩ := Option.bind_eq_some_iff.mp hst
  obtain ⟨next, hnext, rfl⟩ := Option.map_eq_some_iff.mp hst
  obtain ⟨-, hq, hs, hmax, hlen⟩ := h.get_eq hb
  obtain ⟨head, b', total', hpullup, hbecomes, hhead, hmin⟩ := hs.pullup junk hmax bytes
    (h.allocation_le hb)
  obtain rfl := Option.some.inj (hpullup.symm.trans hnext)
  have hput := h.put hb hbecomes.toBecomes (by omega) (e := .pullup i bytes junk)
    (h.keeps_dense hb hbecomes.dense) (.head head)
  rw [h.set_self_queue hb] at hput
  exact ⟨_, _, .pullup junk hq hhead (by omega), hput, rfl⟩

/-- Around the first line feed. -/
theorem split_at_line {q : List UInt8} {sz : ℕ} (h : q.findIdx? (· = 10) = some sz) :
    ∃ line rest, q = line ++ 10 :: rest ∧ line.length = sz ∧ 10 ∉ line := by
  obtain ⟨x, line, rest, rfl, hlen, hx⟩ := exists_split_of_findIdx? h
  obtain rfl : x = 10 := by simpa using hx
  refine ⟨line, rest, rfl, hlen, ?_⟩
  intro hmem
  obtain ⟨k, hk, hget⟩ := List.mem_iff_getElem.mp hmem
  obtain ⟨_, _, hbefore⟩ := List.findIdx?_eq_some_iff_getElem.mp h
  have hno := hbefore k (by omega)
  rw [List.getElem_append_left hk, hget] at hno
  exact hno (decide_eq_true rfl)

theorem getLine_refines {i dataLen : ℕ} (h : Holds w qs)
    (hst : w.step (.getLine i dataLen) = some w') : Refines w qs (.getLine i dataLen) w' := by
  obtain ⟨b, hb, hst⟩ := Option.bind_eq_some_iff.mp hst
  obtain ⟨next, hnext, rfl⟩ := Option.map_eq_some_iff.mp hst
  obtain ⟨-, hq, hs, hmax, hlen⟩ := h.get_eq hb
  cases hfind : b.contents.findIdx? (· = 10) with
  | none =>
    rw [hs.getLine_none hmax hfind] at hnext
    obtain rfl := Option.some.inj hnext
    refine ⟨_, _, .noLine hq ?_, h.unchanged hb _ _, rfl⟩
    intro hmem
    have := List.findIdx?_eq_none_iff.mp hfind 10 hmem
    exact absurd this (by simp)
  | some sz =>
    obtain ⟨hlong, hfits⟩ := hs.getLine_some hmax hfind (h.allocation_le hb) dataLen
    obtain ⟨line, rest, hcontents, hline, hno⟩ := split_at_line hfind
    rw [hcontents] at hq
    by_cases hshort : dataLen < sz + 2
    · rw [hlong hshort] at hnext
      obtain rfl := Option.some.inj hnext
      have hstep := QueueStep.longLine hq hno (by omega : dataLen < line.length + 2)
      rw [hline] at hstep
      exact ⟨_, _, hstep, h.unchanged hb _ _, rfl⟩
    · obtain ⟨b', total', hget, hbecomes⟩ := hfits (not_lt.mp hshort)
      obtain rfl := Option.some.inj (hget.symm.trans hnext)
      have hstep := QueueStep.line hq hno (by omega : line.length + 2 ≤ dataLen)
      have htake : b.contents.take (sz + 1) = line ++ [10] := by
        rw [hcontents, ← hline, List.take_append, List.take_of_length_le (by omega),
          Nat.add_sub_cancel_left, List.take_succ_cons, List.take_zero]
      have hdrop : b.contents.drop (sz + 1) = rest := by
        rw [hcontents, ← hline, List.drop_append, List.drop_of_length_le (by omega),
          Nat.add_sub_cancel_left, List.drop_succ_cons, List.drop_zero, List.nil_append]
      rw [hdrop] at hbecomes
      refine ⟨_, _, hstep, h.put hb hbecomes.toBecomes ?_ (h.keeps_dense hb hbecomes.dense) _, ?_⟩
      · rw [hcontents, List.length_append, List.length_cons] at hlen
        omega
      · rw [← htake, hline]
        rfl

theorem read_refines {i atMost : ℕ} {recvs : List (Option (List UInt8))} {junk : ℕ → UInt8}
    (h : Holds w qs) (hreal : atMost ≤ bufMaxLen)
    (hst : w.step (.read i atMost recvs junk) = some w') :
    Refines w qs (.read i atMost recvs junk) w' := by
  obtain ⟨b, hb, hst⟩ := Option.bind_eq_some_iff.mp hst
  obtain ⟨next, hnext, rfl⟩ := Option.map_eq_some_iff.mp hst
  obtain ⟨-, hq, hs, hmax, hlen⟩ := h.get_eq hb
  by_cases hfit : b.datalen + atMost ≤ bufMaxLen
  · obtain ⟨got, hreads⟩ := hs.readFromFd hfit hnext
    have hgot := hreads.atMost
    have hvalue := hreads.value
    rw [Nat.zero_add] at hvalue
    refine ⟨_, _, .read junk hq (by omega) hreads.received (by omega) hvalue,
      h.put hb hreads.becomes ?_ (.inl rfl) _, rfl⟩
    rw [List.length_append]
    omega
  · rw [Buf.readFromFd_full hreal (not_le.mp hfit)] at hnext
    obtain rfl := Option.some.inj hnext
    exact ⟨_, _, .readFull recvs junk hq (by omega), h.unchanged hb _ _, rfl⟩

/-- **One call.** -/
theorem step_refines (h : Holds w qs) (hreal : e.Real) (hst : w.step e = some w') :
    Refines w qs e w' := by
  cases e with
  | new size => exact new_refines h hst
  | add i string junk => exact add_refines h hreal hst
  | drain i n => exact drain_refines h hst
  | getBytes i n => exact getBytes_refines h hst
  | moveToBuf out inp flushlen junk => exact moveToBuf_refines h hst
  | moveAll out inp => exact moveAll_refines h hst
  | setToCopy output input => exact setToCopy_refines h hst
  | clear i => exact clear_refines h hst
  | free i => exact free_refines h hst
  | pullup i bytes junk => exact pullup_refines h hst
  | getLine i dataLen => exact getLine_refines h hst
  | read i atMost recvs junk => exact read_refines h hreal hst

end Calls

/-- A call on one live buffer that does not abort. -/
theorem call_returns {w : Bufs} {α : Type} {i : ℕ} {b : Buf} {f : Buf → Option α} {g : α → Bufs}
    {a : α} (hb : w.get i = some b) (hf : f b = some a) :
    ∃ w', ((w.get i).bind fun b => (f b).map g) = some w' :=
  ⟨g a, by rw [hb, Option.bind_some, hf, Option.map_some]⟩

theorem getLine_returns {w : Bufs} {qs : Queues} {i dataLen : ℕ} {q : List UInt8}
    (h : Holds w qs) (hq : qs[i]? = some (some q)) :
    ∃ w', w.step (.getLine i dataLen) = some w' := by
  obtain ⟨b, hb, -⟩ := h.get_of_queue hq
  obtain ⟨-, -, hs, hmax, -⟩ := h.get_eq hb
  cases hfind : b.contents.findIdx? (· = 10) with
  | none =>
    exact call_returns (f := fun b => b.getLine dataLen w.total) hb (hs.getLine_none hmax hfind _)
  | some sz =>
    obtain ⟨hlong, hfits⟩ := hs.getLine_some hmax hfind (h.allocation_le hb) dataLen
    rcases Nat.lt_or_ge dataLen (sz + 2) with hlt | hge
    · exact call_returns (f := fun b => b.getLine dataLen w.total) hb (hlong hlt)
    · obtain ⟨b', total', hget, -⟩ := hfits hge
      exact call_returns (f := fun b => b.getLine dataLen w.total) hb hget

/-- **A call that the queues allow fails no assertion.** -/
theorem step_of_queueStep {w : Bufs} {qs qs' : Queues} {e : BufEvent} {r : BufResult}
    (h : Holds w qs) (hstep : QueueStep qs e r qs') (hread : e.isRead = false) :
    ∃ w', w.step e = some w' := by
  cases hstep with
  | new size hsize =>
    have hcreate : ∃ b, Bufs.create size = some b := by
      cases size with
      | none => exact ⟨_, rfl⟩
      | some n =>
        obtain ⟨alloc, halloc⟩ := bufPreferredChunkSize_isSome (hsize n rfl)
        exact ⟨{ defaultChunkSize := alloc }, by
          show (bufPreferredChunkSize n).map _ = _
          rw [halloc, Option.map_some]⟩
    obtain ⟨b, hb⟩ := hcreate
    exact ⟨_, Option.map_eq_some_iff.mpr ⟨b, hb, rfl⟩⟩
  | @add i q string junk hq hfit =>
    obtain ⟨b, hb, rfl⟩ := h.get_of_queue hq
    obtain ⟨-, -, hs, -, hlen⟩ := h.get_eq hb
    obtain ⟨b', total', hadd, -⟩ := hs.add junk w.total
      (show b.datalen + string.length ≤ bufMaxLen by omega)
    exact call_returns (f := fun b => b.add junk string w.total) hb hadd
  | @addFull i q string junk hq hlen' hfull =>
    obtain ⟨b, hb, rfl⟩ := h.get_of_queue hq
    obtain ⟨-, -, -, hmax, hlen⟩ := h.get_eq hb
    exact call_returns (f := fun b => b.add junk string w.total) hb
      (Buf.add_full hmax hlen' (by omega))
  | @drain i n q hq hn =>
    obtain ⟨b, hb, rfl⟩ := h.get_of_queue hq
    obtain ⟨-, -, hs, -, hlen⟩ := h.get_eq hb
    obtain ⟨b', total', hdrain, -⟩ := hs.drain (n := n) (by omega) (h.allocation_le hb)
    exact call_returns (f := fun b => b.drain n w.total) hb hdrain
  | @getBytes i n q hq hn =>
    obtain ⟨b, hb, rfl⟩ := h.get_of_queue hq
    obtain ⟨-, -, hs, hmax, hlen⟩ := h.get_eq hb
    obtain ⟨b', total', hget, -⟩ := hs.getBytes (n := n) hmax (by omega) (h.allocation_le hb)
    exact call_returns (f := fun b => b.getBytes n w.total) hb hget
  | @moveToBuf out inp flushlen q q' junk hne hq hq' hfit =>
    obtain ⟨b, hb, rfl⟩ := h.get_of_queue hq
    obtain ⟨b', hb', rfl⟩ := h.get_of_queue hq'
    obtain ⟨-, -, hs, -, hlen⟩ := h.get_eq hb
    obtain ⟨-, -, hs', hmax', -⟩ := h.get_eq hb'
    obtain ⟨o, o', total', hmove, -⟩ := hs.moveToBuf hs' junk hmax'
      (show b.datalen + flushlen ≤ bufMaxLen by omega) (h.allocation_add_le hne hb hb')
    apply Option.isSome_iff_exists.mp
    show ((w.get out).bind fun b => (w.get inp).bind fun b' => _).isSome = true
    rw [hb, Option.bind_some, hb', Option.bind_some, if_neg hne, hmove, Option.map_some,
      Option.isSome_some]
  | @moveToBufFull out inp flushlen q q' junk hne hq hq' hfull =>
    obtain ⟨b, hb, rfl⟩ := h.get_of_queue hq
    obtain ⟨b', hb', rfl⟩ := h.get_of_queue hq'
    obtain ⟨-, -, -, -, hlen⟩ := h.get_eq hb
    apply Option.isSome_iff_exists.mp
    show ((w.get out).bind fun b => (w.get inp).bind fun b' => _).isSome = true
    rw [hb, Option.bind_some, hb', Option.bind_some, if_neg hne,
      Buf.moveToBuf_full (by omega), Option.map_some, Option.isSome_some]
  | @moveAll out inp q q' hne hq hq' hfit =>
    obtain ⟨b, hb, -⟩ := h.get_of_queue hq
    obtain ⟨b', hb', -⟩ := h.get_of_queue hq'
    apply Option.isSome_iff_exists.mp
    show ((w.get out).bind fun b => (w.get inp).bind fun b' => _).isSome = true
    rw [hb, Option.bind_some, hb', Option.bind_some, if_neg hne, Option.isSome_some]
  | @moveAllFull out inp q q' hne hq hq' hfull =>
    obtain ⟨b, hb, -⟩ := h.get_of_queue hq
    obtain ⟨b', hb', -⟩ := h.get_of_queue hq'
    apply Option.isSome_iff_exists.mp
    show ((w.get out).bind fun b => (w.get inp).bind fun b' => _).isSome = true
    rw [hb, Option.bind_some, hb', Option.bind_some, if_neg hne, Option.isSome_some]
  | @setToCopy output input q q' hne hq hq' =>
    obtain ⟨b, hb, -⟩ := h.get_of_queue hq
    obtain ⟨b', hb', -⟩ := h.get_of_queue hq'
    obtain ⟨-, -, hs, -, -⟩ := h.get_eq hb
    obtain ⟨b₁, total', hclear, -⟩ := hs.clear (h.allocation_le hb)
    apply Option.isSome_iff_exists.mp
    show ((w.get output).bind fun b => (w.get input).bind fun b' => _).isSome = true
    rw [hb, Option.bind_some, hb', Option.bind_some, if_neg hne, hclear, Option.map_some,
      Option.isSome_some]
  | @clear i q hq =>
    obtain ⟨b, hb, -⟩ := h.get_of_queue hq
    obtain ⟨-, -, hs, -, -⟩ := h.get_eq hb
    obtain ⟨b', total', hclear, -⟩ := hs.clear (h.allocation_le hb)
    exact call_returns (f := fun b => b.clear w.total) hb hclear
  | @free i q hq =>
    obtain ⟨b, hb, -⟩ := h.get_of_queue hq
    obtain ⟨-, -, hs, -, -⟩ := h.get_eq hb
    obtain ⟨b', total', hclear, -⟩ := hs.clear (h.allocation_le hb)
    exact call_returns (f := fun b => b.clear w.total) hb hclear
  | @pullup i bytes q head junk hq hhead hlen =>
    obtain ⟨b, hb, -⟩ := h.get_of_queue hq
    obtain ⟨-, -, hs, hmax, -⟩ := h.get_eq hb
    obtain ⟨head, b', total', hpullup, -⟩ := hs.pullup junk hmax bytes
      (h.allocation_le hb)
    exact call_returns (f := fun b => b.pullup junk bytes w.total) hb hpullup
  | @noLine i dataLen q hq hline => exact getLine_returns h hq
  | @longLine i dataLen line rest hq hline hlong => exact getLine_returns h hq
  | @line i dataLen line rest hq hline hfit => exact getLine_returns h hq
  | read => exact absurd hread (by simp [BufEvent.isRead])
  | readFull => exact absurd hread (by simp [BufEvent.isRead])

/-- In every run the buffers hold queues that the log accounts for. -/
theorem run_holds {w : Bufs} (hrun : Run Bufs.step (fun _ e => e.Real) {} w) :
    ∃ qs, QueueRun w.log qs ∧ Holds w qs := by
  refine hrun.invariant (I := fun w => ∃ qs, QueueRun w.log qs ∧ Holds w qs) ?_ ?_
  · exact ⟨[], .nil, rfl, fun b hb => absurd hb List.not_mem_nil, rfl,
      fun _ b hb => absurd hb List.not_mem_nil⟩
  · intro w w' e hw hreal hst
    obtain ⟨qs, hlog, hholds⟩ := hw
    obtain ⟨r, qs', hstep, hholds', hlog'⟩ := step_refines hholds hreal hst
    exact ⟨qs', hlog' ▸ hlog.snoc hstep, hholds'⟩

/-- **Buffers are byte queues.** After any sequence of calls there are queues that
give the same results and hold the bytes of the buffers; `buf_assert_ok` holds of
every buffer; and `total_bytes_allocated_in_chunks` is what their chunks take up,
so that freeing one never goes below zero. And a call that the queues allow,
other than a read, does not abort. -/
theorem buffers_are_queues {w : Bufs} (hrun : Run Bufs.step (fun _ e => e.Real) {} w) :
    ∃ qs, QueueRun w.log qs ∧ w.bufs.map (Option.map Buf.contents) = qs
      ∧ (∀ b, some b ∈ w.bufs → b.assertOk = true ∧ b.datalen = b.contents.length)
      ∧ w.total = Bufs.allocation w.bufs
      ∧ ∀ e r qs', QueueStep qs e r qs' → e.isRead = false → ∃ w', w.step e = some w' := by
  obtain ⟨qs, hlog, hholds⟩ := run_holds hrun
  refine ⟨qs, hlog, hholds.contents, ?_, hholds.total, ?_⟩
  · intro b hb
    obtain ⟨hs, hmax⟩ := hholds.sound b hb
    exact ⟨hs.assertOk hmax, hs.datalen⟩
  · intro e r qs' hstep hread
    exact step_of_queueStep hholds hstep hread

/-- A line is read from the middle of "hi\nyou", and the rest moves to another buffer. -/
theorem buffers_are_queues_two :
    ∃ w, Run Bufs.step (fun _ e => e.Real) {} w
      ∧ w.log.map (·.2) = [.done, .done, .int 6, .line 1 [104, 105, 10] 3, .moved 3 1]
      ∧ ∃ qs, QueueRun w.log qs ∧ w.bufs.map (Option.map Buf.contents) = qs := by
  have hrun : ∃ w, Run Bufs.step (fun _ e => e.Real) {} w
      ∧ w.log.map (·.2) = [.done, .done, .int 6, .line 1 [104, 105, 10] 3, .moved 3 1] :=
    exists_run [.new (some 10), .new (some 10), .add 0 [104, 105, 10, 121, 111, 117] fun _ => 0,
      .getLine 0 16, .moveToBuf 1 0 4 fun _ => 7] (by decide +kernel)
  obtain ⟨w, hrun, hlog⟩ := hrun
  obtain ⟨qs, hqs, hcontents, -⟩ := buffers_are_queues hrun
  exact ⟨w, hrun, hlog, qs, hqs, hcontents⟩

end Dittor.Tor
