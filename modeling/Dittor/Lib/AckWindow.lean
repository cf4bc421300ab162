import Dittor.Lib.Run
import Mathlib

/-!
# Streams acknowledged every so many items

One direction of a connection on which the receiver acknowledges every `inc`-th item. `marks inc l`
are the items of `l` that are acknowledged. A `Flow` is what has happened so far: the items sent,
how many of them have arrived, how many acknowledgements the sender has taken. Both channels are
FIFO, so what is in flight is determined: the items sent and not yet arrived (`inFlight`), and the
marks that have arrived and whose acknowledgement has not (`ackInFlight`).

The sender keeps the marks it has sent in a queue and compares every acknowledgement with the first
of them; that this always fits is `Flow.expected_takeAck`. What it may count on besides is
arithmetic (`Flow.unacked_eq`, `Flow.unacked_lt_of_quiet`).
-/

namespace Dittor.Lib

variable {α : Type*}

/-- The items whose number in the log is a multiple of `inc`; the log starts with number `n + 1`. -/
def marksFrom (inc : ℕ) : ℕ → List α → List α
  | _, [] => []
  | n, x :: l => if (n + 1) % inc = 0 then x :: marksFrom inc (n + 1) l else marksFrom inc (n + 1) l

/-- The items number `inc`, `2 * inc`, … of a log. -/
def marks (inc : ℕ) (l : List α) : List α := marksFrom inc 0 l

section Marks

variable {inc : ℕ}

theorem marksFrom_append (l l' : List α) :
    ∀ n, marksFrom inc n (l ++ l') = marksFrom inc n l ++ marksFrom inc (n + l.length) l' := by
  induction l with
  | nil => intro n; rfl
  | cons x l ih =>
    intro n
    have hlen : n + 1 + l.length = n + (x :: l).length := by
      rw [List.length_cons]
      omega
    simp only [List.cons_append, marksFrom, ih, hlen]
    split_ifs
    · rfl
    · rfl

/-- One more item is marked when its number is a multiple of `inc`. -/
theorem marks_concat (l : List α) (x : α) :
    marks inc (l ++ [x]) = marks inc l ++ if (l.length + 1) % inc = 0 then [x] else [] := by
  unfold marks
  rw [marksFrom_append, Nat.zero_add]
  simp only [marksFrom]

theorem length_marks (l : List α) : (marks inc l).length = l.length / inc := by
  induction l using List.reverseRecOn with
  | nil => simp [marks, marksFrom]
  | append_singleton l x ih =>
    rw [marks_concat, List.length_append, ih, List.length_append, List.length_singleton]
    by_cases h : (l.length + 1) % inc = 0
    · rw [if_pos h, List.length_singleton, Nat.succ_div_of_dvd (Nat.dvd_of_mod_eq_zero h)]
    · rw [if_neg h, List.length_nil, Nat.add_zero,
        Nat.succ_div_of_not_dvd fun hdvd => h (Nat.mod_eq_zero_of_dvd hdvd)]

theorem mem_of_mem_marks {x : α} {l : List α} (h : x ∈ marks inc l) : x ∈ l := by
  induction l using List.reverseRecOn with
  | nil => exact h
  | append_singleton l y ih =>
    rw [marks_concat] at h
    rcases List.mem_append.mp h with h | h
    · exact List.mem_append_left _ (ih h)
    · split_ifs at h
      · exact List.mem_append_right _ h
      · cases h

/-- The marks of an initial part of the log come first. -/
theorem marks_take_prefix (l : List α) (n : ℕ) : marks inc (l.take n) <+: marks inc l := by
  refine ⟨marksFrom inc (l.take n).length (l.drop n), ?_⟩
  conv_rhs => rw [← List.take_append_drop n l]
  unfold marks
  rw [marksFrom_append, Nat.zero_add]

end Marks

/-- What has happened on one direction of a connection. Only what has arrived is acknowledged. -/
structure Flow (α : Type*) (inc : ℕ) where
  /-- Every item sent, the oldest first. -/
  sent : List α
  /-- How many of them have arrived. -/
  received : ℕ
  /-- How many acknowledgements the sender has taken. -/
  acked : ℕ
  received_le : received ≤ sent.length
  acked_le : acked ≤ received / inc

namespace Flow

variable {inc : ℕ} (f : Flow α inc)

/-- Nothing has been sent. -/
def start (α : Type*) (inc : ℕ) : Flow α inc := ⟨[], 0, 0, Nat.le_refl 0, Nat.zero_le _⟩

/-- The sender sends one more item. -/
def send (x : α) : Flow α inc where
  sent := f.sent ++ [x]
  received := f.received
  acked := f.acked
  received_le := by
    have := f.received_le
    rw [List.length_append]
    omega
  acked_le := f.acked_le

/-- The oldest item on its way arrives. -/
def arrive (h : f.received < f.sent.length) : Flow α inc where
  sent := f.sent
  received := f.received + 1
  acked := f.acked
  received_le := h
  acked_le := f.acked_le.trans (Nat.div_le_div_right (Nat.le_succ _))

/-- The sender takes the oldest acknowledgement on its way. -/
def takeAck (h : f.acked < f.received / inc) : Flow α inc where
  sent := f.sent
  received := f.received
  acked := f.acked + 1
  received_le := f.received_le
  acked_le := h

/-- What a sender knows by itself: all it has sent may have arrived. -/
def sentAcked (sent : List α) {acked : ℕ} (h : acked ≤ sent.length / inc) : Flow α inc :=
  ⟨sent, sent.length, acked, Nat.le_refl _, h⟩

/-- The items that have arrived. -/
def arrived : List α := f.sent.take f.received

/-- The items on their way. -/
def inFlight : List α := f.sent.drop f.received

/-- The items whose acknowledgement is on its way. -/
def ackInFlight : List α := (marks inc f.arrived).drop f.acked

/-- The items whose acknowledgement the sender is waiting for. -/
def expected : List α := (marks inc f.sent).drop f.acked

/-- How many items are sent and not acknowledged. -/
def unacked : ℕ := f.sent.length - inc * f.acked

section Lists

variable {f}

theorem length_arrived : f.arrived.length = f.received :=
  List.length_take_of_le f.received_le

theorem length_inFlight : f.inFlight.length = f.sent.length - f.received := List.length_drop

theorem length_ackInFlight :
    f.ackInFlight.length = f.received / inc - f.acked := by
  unfold ackInFlight
  rw [List.length_drop, length_marks, length_arrived]

theorem length_expected :
    f.expected.length = f.sent.length / inc - f.acked := by
  unfold expected
  rw [List.length_drop, length_marks]

theorem inFlight_send (x : α) : (f.send x).inFlight = f.inFlight ++ [x] :=
  List.drop_append_of_le_length f.received_le

theorem ackInFlight_send (x : α) : (f.send x).ackInFlight = f.ackInFlight := by
  have htake : (f.sent ++ [x]).take f.received = f.sent.take f.received :=
    List.take_append_of_le_length f.received_le
  unfold ackInFlight arrived send
  simp only [htake]

theorem acked_le_marks : f.acked ≤ (marks inc f.sent).length := by
  rw [length_marks]
  exact f.acked_le.trans (Nat.div_le_div_right f.received_le)

/-- The sender waits for one more acknowledgement when the number of the item says so. -/
theorem expected_send (x : α) :
    (f.send x).expected =
      f.expected ++ if (f.sent.length + 1) % inc = 0 then [x] else [] := by
  show (marks inc (f.sent ++ [x])).drop f.acked = _
  rw [marks_concat]
  exact List.drop_append_of_le_length (acked_le_marks)

theorem received_lt {x : α} {l : List α} (h : f.inFlight = x :: l) :
    f.received < f.sent.length := by
  have hlen : f.inFlight.length = l.length + 1 := by rw [h, List.length_cons]
  rw [length_inFlight] at hlen
  omega

theorem inFlight_arrive {x : α} {l : List α} (h : f.inFlight = x :: l) :
    (f.arrive (received_lt h)).inFlight = l := by
  show f.sent.drop (f.received + 1) = l
  rw [← List.tail_drop]
  show f.inFlight.tail = l
  rw [h, List.tail_cons]

theorem arrived_arrive {x : α} {l : List α} (h : f.inFlight = x :: l) :
    (f.arrive (received_lt h)).arrived = f.arrived ++ [x] := by
  show f.sent.take (f.received + 1) = f.sent.take f.received ++ [x]
  have hx : f.sent[f.received]? = some x := by
    have := congrArg (fun l : List α => l[0]?) h
    simpa [inFlight] using this
  rw [List.take_add_one, hx]
  rfl

/-- What the receiver acknowledges when an item arrives. -/
theorem ackInFlight_arrive {x : α} {l : List α} (h : f.inFlight = x :: l) :
    (f.arrive (received_lt h)).ackInFlight =
      f.ackInFlight ++ if (f.received + 1) % inc = 0 then [x] else [] := by
  unfold ackInFlight
  rw [arrived_arrive h, marks_concat, length_arrived]
  exact List.drop_append_of_le_length (by rw [length_marks, length_arrived]; exact f.acked_le)

/-- Every acknowledgement on its way is one the sender waits for, in that order. -/
theorem ackInFlight_prefix : f.ackInFlight <+: f.expected := by
  obtain ⟨rest, hrest⟩ : marks inc f.arrived <+: marks inc f.sent := marks_take_prefix _ _
  by_cases hle : f.acked ≤ (marks inc f.arrived).length
  · refine ⟨rest, ?_⟩
    unfold expected ackInFlight
    rw [← hrest]
    exact (List.drop_append_of_le_length hle).symm
  · unfold ackInFlight
    rw [List.drop_eq_nil_of_le (by omega)]
    exact List.nil_prefix

theorem acked_lt {x : α} {l : List α} (h : f.ackInFlight = x :: l) :
    f.acked < f.received / inc := by
  have hlen : f.ackInFlight.length = l.length + 1 := by rw [h, List.length_cons]
  rw [length_ackInFlight] at hlen
  omega

theorem ackInFlight_takeAck {x : α} {l : List α} (h : f.ackInFlight = x :: l) :
    (f.takeAck (acked_lt h)).ackInFlight = l := by
  show (marks inc f.arrived).drop (f.acked + 1) = l
  rw [← List.tail_drop]
  show f.ackInFlight.tail = l
  rw [h, List.tail_cons]

/-- The first acknowledgement on its way is the first one the sender waits for. -/
theorem expected_takeAck {x : α} {l : List α} (h : f.ackInFlight = x :: l) :
    f.expected = x :: (f.takeAck (acked_lt h)).expected := by
  obtain ⟨rest, hrest⟩ := ackInFlight_prefix (f := f)
  have htail : (f.takeAck (acked_lt h)).expected = f.expected.tail := by
    show (marks inc f.sent).drop (f.acked + 1) = ((marks inc f.sent).drop f.acked).tail
    rw [List.tail_drop]
  rw [htail, ← hrest, h]
  rfl

/-- The sender waits for an item only if it is marked. -/
theorem expected_eq_cons {x : α} {l : List α} (h : f.expected = x :: l) :
    f.acked < f.sent.length / inc ∧ (marks inc f.sent)[f.acked]? = some x := by
  constructor
  · have hlen : f.expected.length = l.length + 1 := by rw [h, List.length_cons]
    rw [length_expected] at hlen
    omega
  · have hget : f.expected[0]? = some x := by rw [h, List.getElem?_cons_zero]
    unfold expected at hget
    rw [List.getElem?_drop, Nat.add_zero] at hget
    exact hget

theorem expected_takeAck_of_cons {x : α} {l : List α} (h : f.expected = x :: l)
    (hlt : f.acked < f.received / inc) : (f.takeAck hlt).expected = l := by
  show (marks inc f.sent).drop (f.acked + 1) = l
  rw [← List.tail_drop]
  show f.expected.tail = l
  rw [h, List.tail_cons]

end Lists

section Counts

variable {f}

theorem inc_mul_acked_le : inc * f.acked ≤ f.received :=
  (Nat.mul_le_mul_left inc f.acked_le).trans (Nat.mul_div_le f.received inc)

theorem inc_mul_acked_le_sent : inc * f.acked ≤ f.sent.length :=
  inc_mul_acked_le.trans f.received_le

/-- The unacknowledged items are on their way, wait for the end of their run of `inc`, or are
covered by an acknowledgement on its way. -/
theorem unacked_eq :
    f.unacked = f.inFlight.length + f.received % inc + inc * f.ackInFlight.length := by
  have hle := f.received_le
  have hack : inc * f.acked ≤ inc * (f.received / inc) := Nat.mul_le_mul_left inc f.acked_le
  have hdiv := Nat.div_add_mod f.received inc
  unfold unacked
  rw [length_inFlight, length_ackInFlight, Nat.mul_sub]
  omega

theorem unacked_send (x : α) : (f.send x).unacked = f.unacked + 1 := by
  have := inc_mul_acked_le_sent (f := f)
  show (f.sent ++ [x]).length - inc * f.acked = f.sent.length - inc * f.acked + 1
  rw [List.length_append, List.length_singleton]
  omega

theorem unacked_takeAck (h : f.acked < f.received / inc) :
    inc ≤ f.unacked ∧ (f.takeAck h).unacked = f.unacked - inc := by
  have hmul : inc * (f.acked + 1) ≤ f.sent.length := inc_mul_acked_le_sent (f := f.takeAck h)
  rw [Nat.mul_succ] at hmul
  show inc ≤ f.sent.length - inc * f.acked
    ∧ f.sent.length - inc * (f.acked + 1) = f.sent.length - inc * f.acked - inc
  rw [Nat.mul_succ]
  omega

/-- With nothing on its way, fewer than `inc` items are unacknowledged. -/
theorem unacked_lt_of_quiet (hinc : 0 < inc) (hin : f.inFlight = []) (hack : f.ackInFlight = []) :
    f.unacked < inc := by
  rw [unacked_eq, hin, hack, List.length_nil, Nat.mul_zero]
  have := Nat.mod_lt f.received hinc
  omega

/-- The number of the next item, counted from the last acknowledged one. -/
theorem unacked_mod : (f.unacked + 1) % inc = (f.sent.length + 1) % inc := by
  have hle := inc_mul_acked_le_sent (f := f)
  have heq : f.sent.length + 1 = f.unacked + 1 + inc * f.acked := by
    unfold unacked
    omega
  rw [heq, Nat.add_mul_mod_self_left]

end Counts

end Flow

end Dittor.Lib
