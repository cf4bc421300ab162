import Dittor.Tor.Conflux

/-!
# Conflux delivers the stream in order, once

`Link` ties a sender to the receiver at the other end, for one direction: replaying what is under
way on a leg from the receiver's count gives every message its place in what was sent, and ends at
the sender's count; and every message that is not delivered is in the queue or on one leg, once.

One lemma for each thing that can happen keeps it: a change of legs (`Link.switchTo`), a message
sent (`Link.sendOn`), and on arrival a SWITCH cell (`Link.receiveSwitch`), the next message
(`Link.receiveNext`), an early one (`Link.receiveEarly`) and one from the queue (`Link.dequeue`).
-/

namespace Dittor.Tor

open Dittor.Lib

/-! ## Numbers on a leg -/

/-- The messages under way, with the numbers the receiver will give them. -/
def numbered : ℕ → List RelayMsg → List (ℕ × RelayMsg)
  | _, [] => []
  | seq, msg :: msgs =>
    if msg.command.shouldMultiplex then (seq + 1, msg) :: numbered (seq + 1) msgs
    else numbered (seq + parseSwitch msg.body) msgs

/-- The receiver's count for the leg once all of them have arrived. -/
def lastNumber : ℕ → List RelayMsg → ℕ
  | seq, [] => seq
  | seq, msg :: msgs =>
    if msg.command.shouldMultiplex then lastNumber (seq + 1) msgs
    else lastNumber (seq + parseSwitch msg.body) msgs

theorem numbered_append : ∀ (msgs msgs' : List RelayMsg) (seq : ℕ),
    numbered seq (msgs ++ msgs') = numbered seq msgs ++ numbered (lastNumber seq msgs) msgs'
  | [], _, _ => rfl
  | msg :: msgs, msgs', seq => by
    rw [List.cons_append, numbered, numbered, lastNumber]
    split
    · rw [numbered_append msgs msgs' (seq + 1), List.cons_append]
    · rw [numbered_append msgs msgs' _]

theorem lastNumber_append : ∀ (msgs msgs' : List RelayMsg) (seq : ℕ),
    lastNumber seq (msgs ++ msgs') = lastNumber (lastNumber seq msgs) msgs'
  | [], _, _ => rfl
  | msg :: msgs, msgs', seq => by
    rw [List.cons_append, lastNumber, lastNumber]
    split
    · rw [lastNumber_append msgs msgs' (seq + 1)]
    · rw [lastNumber_append msgs msgs' _]

/-- Numbers on a leg go up. -/
theorem lt_of_mem_numbered : ∀ {msgs : List RelayMsg} {seq k : ℕ} {msg : RelayMsg},
    (k, msg) ∈ numbered seq msgs → seq < k
  | msg :: msgs, seq, k, m, h => by
    rw [numbered] at h
    split at h
    · rcases List.mem_cons.mp h with heq | h
      · rw [Prod.mk.injEq] at heq
        omega
      · have := lt_of_mem_numbered h
        omega
    · have := lt_of_mem_numbered h
      omega

/-! ## One direction -/

/-- One direction between two ends: the sender's counts and its leg, the messages under way, the
receiver's counts, its queue and how many it has delivered, and all that was sent. -/
structure Link {ι : Type} (sentSeq : ι → ℕ) (curr : Option ι) (wire : ι → List RelayMsg)
    (recvSeq : ι → ℕ) (queue : List ConfluxMsg) (done : ℕ) (sent : List RelayMsg) : Prop where
  sent_le : ∀ leg, sentSeq leg ≤ sent.length
  curr_eq : ∀ leg, curr = some leg → sentSeq leg = sent.length
  curr_none : curr = none → sent = []
  last : ∀ leg, lastNumber (recvSeq leg) (wire leg) = sentSeq leg
  onWire : ∀ leg k msg, (k, msg) ∈ numbered (recvSeq leg) (wire leg) →
    done < k ∧ sent[k - 1]? = some msg
  queued : ∀ e ∈ queue, done < e.seq ∧ sent[e.seq - 1]? = some e.msg
  pending : ∀ k, done < k → k ≤ sent.length →
    (∃ e ∈ queue, e.seq = k) ∨ ∃ leg msg, (k, msg) ∈ numbered (recvSeq leg) (wire leg)
  legs_apart : ∀ leg leg' k msg msg', (k, msg) ∈ numbered (recvSeq leg) (wire leg) →
    (k, msg') ∈ numbered (recvSeq leg') (wire leg') → leg = leg'
  queue_apart : ∀ leg k msg e, (k, msg) ∈ numbered (recvSeq leg) (wire leg) → e ∈ queue →
    e.seq ≠ k
  queue_nodup : (queue.map ConfluxMsg.seq).Nodup
  done_le : done ≤ sent.length

namespace Link

variable {ι : Type} {sentSeq recvSeq : ι → ℕ} {curr : Option ι}
variable {wire : ι → List RelayMsg} {queue : List ConfluxMsg} {done : ℕ} {sent : List RelayMsg}

theorem start : Link (fun _ : ι => 0) none (fun _ => []) (fun _ => 0) [] 0 [] := by
  refine ⟨?_, ?_, ?_, ?_, ?_, ?_, fun k hk hle => ?_, ?_, ?_, ?_, ?_⟩
  case refine_7 =>
    rw [List.length_nil] at hle
    omega
  all_goals simp [numbered, lastNumber]

/-- The first leg is picked. -/
theorem pickFirst (h : Link sentSeq curr wire recvSeq queue done sent) (first : ι) :
    Link sentSeq (some (curr.getD first)) wire recvSeq queue done sent where
  sent_le := h.sent_le
  curr_eq leg hleg := by
    cases hcurr : curr with
    | some c =>
      rw [hcurr] at hleg
      exact h.curr_eq leg (hcurr.trans hleg)
    | none =>
      have := h.sent_le leg
      rw [h.curr_none hcurr, List.length_nil] at this ⊢
      omega
  curr_none hnone := by cases hnone
  last := h.last
  onWire := h.onWire
  queued := h.queued
  pending := h.pending
  legs_apart := h.legs_apart
  queue_apart := h.queue_apart
  queue_nodup := h.queue_nodup
  done_le := h.done_le

theorem head_received (h : Link sentSeq curr wire recvSeq queue done sent) {leg : ι}
    {msg : RelayMsg} {rest : List RelayMsg} (hwire : wire leg = msg :: rest)
    (hmsg : msg.command.shouldMultiplex = true) :
    done < recvSeq leg + 1 ∧ sent[recvSeq leg]? = some msg ∧
      ∀ e ∈ queue, e.seq ≠ recvSeq leg + 1 := by
  have hhead : (recvSeq leg + 1, msg) ∈ numbered (recvSeq leg) (wire leg) := by
    rw [hwire, numbered, if_pos hmsg]
    exact List.mem_cons_self
  have := h.onWire leg _ msg hhead
  exact ⟨this.1, this.2, fun e he => h.queue_apart leg _ msg e hhead he⟩

/-- The next message is taken from the queue and delivered. -/
theorem dequeue (h : Link sentSeq curr wire recvSeq queue done sent) {top : ConfluxMsg}
    {queue' : List ConfluxMsg} (hperm : (top :: queue').Perm queue) (hseq : top.seq = done + 1) :
    Link sentSeq curr wire recvSeq queue' (done + 1) sent ∧ sent[done]? = some top.msg := by
  have hin : ∀ e, e ∈ queue ↔ e = top ∨ e ∈ queue' := fun e => by
    rw [← hperm.mem_iff, List.mem_cons]
  have hnodup := (hperm.map ConfluxMsg.seq).nodup_iff.mpr h.queue_nodup
  rw [List.map_cons, List.nodup_cons] at hnodup
  have htop := (h.queued top ((hin top).mpr (.inl rfl))).2
  rw [hseq, Nat.add_sub_cancel] at htop
  have hlt := (List.getElem?_eq_some_iff.mp htop).1
  refine ⟨⟨h.sent_le, h.curr_eq, h.curr_none, h.last, ?_, ?_, ?_, h.legs_apart, ?_, hnodup.2,
    by omega⟩, htop⟩
  · intro leg k m hk
    have hwire := h.onWire leg k m hk
    have hne := h.queue_apart leg k m top hk ((hin top).mpr (.inl rfl))
    exact ⟨by omega, hwire.2⟩
  · intro e he
    have hqueued := h.queued e ((hin e).mpr (.inr he))
    have hne : e.seq ≠ top.seq := fun heq => hnodup.1 (heq ▸ List.mem_map_of_mem he)
    exact ⟨by omega, hqueued.2⟩
  · intro k hk hle
    rcases h.pending k (by omega) hle with ⟨e, he, heq⟩ | hwire
    · rcases (hin e).mp he with rfl | he
      · omega
      · exact .inl ⟨e, he, heq⟩
    · exact .inr hwire
  · exact fun leg k m e hk he => h.queue_apart leg k m e hk ((hin e).mpr (.inr he))

variable [DecidableEq ι]

/-- What is on the legs, once more cells are on one of them. -/
theorem numbered_update {leg leg' : ι} {cells : List RelayMsg} :
    numbered (recvSeq leg') (Function.update wire leg (wire leg ++ cells) leg') =
      numbered (recvSeq leg') (wire leg') ++
        if leg' = leg then numbered (lastNumber (recvSeq leg) (wire leg)) cells else [] := by
  by_cases hleg : leg' = leg
  · subst hleg
    rw [Function.update_self, if_pos rfl, numbered_append]
  · rw [Function.update_of_ne hleg, if_neg hleg, List.append_nil]

/-- A change to another leg. -/
theorem switchTo (h : Link sentSeq curr wire recvSeq queue done sent) (leg : ι)
    (hfits : sent.length - sentSeq leg < 4294967296) :
    Link (Function.update sentSeq leg sent.length) (some leg)
      (Function.update wire leg
        (wire leg ++ [⟨.confluxSwitch, encodeSwitch (sent.length - sentSeq leg)⟩]))
      recvSeq queue done sent := by
  have hnumbered : ∀ leg', numbered (recvSeq leg') (Function.update wire leg
      (wire leg ++ [⟨.confluxSwitch, encodeSwitch (sent.length - sentSeq leg)⟩]) leg') =
      numbered (recvSeq leg') (wire leg') := by
    intro leg'
    rw [numbered_update]
    have hnone : numbered (lastNumber (recvSeq leg) (wire leg))
        [⟨.confluxSwitch, encodeSwitch (sent.length - sentSeq leg)⟩] = [] := rfl
    rw [hnone, ite_self, List.append_nil]
  refine ⟨fun leg' => ?_, fun leg' hleg => ?_, (by simp), fun leg' => ?_, ?_, h.queued, ?_, ?_, ?_,
    h.queue_nodup, h.done_le⟩
  · by_cases hleg : leg' = leg
    · rw [hleg, Function.update_self]
    · rw [Function.update_of_ne hleg]
      exact h.sent_le leg'
  · rw [← Option.some_inj.mp hleg, Function.update_self]
  · by_cases hleg : leg' = leg
    · subst hleg
      have hle := h.sent_le leg'
      rw [Function.update_self, Function.update_self, lastNumber_append, h.last]
      show sentSeq leg' + parseSwitch (encodeSwitch (sent.length - sentSeq leg')) = sent.length
      rw [parseSwitch_encodeSwitch hfits]
      omega
    · rw [Function.update_of_ne hleg, Function.update_of_ne hleg]
      exact h.last leg'
  · simpa only [hnumbered] using h.onWire
  · simpa only [hnumbered] using h.pending
  · simpa only [hnumbered] using h.legs_apart
  · simpa only [hnumbered] using h.queue_apart

/-- A message goes out on the current leg. -/
theorem sendOn (h : Link sentSeq curr wire recvSeq queue done sent) {leg : ι}
    (hcurr : curr = some leg) {msg : RelayMsg} (hmsg : msg.command.shouldMultiplex = true) :
    Link (Function.update sentSeq leg (sentSeq leg + 1)) curr
      (Function.update wire leg (wire leg ++ [msg])) recvSeq queue done (sent ++ [msg]) := by
  have hseq := h.curr_eq leg hcurr
  have hlength : (sent ++ [msg]).length = sent.length + 1 := by
    rw [List.length_append, List.length_singleton]
  have hnew : numbered (lastNumber (recvSeq leg) (wire leg)) [msg] = [(sent.length + 1, msg)] := by
    rw [h.last, hseq, numbered, if_pos hmsg, numbered]
  -- the new message is on its leg alone, behind all that was there
  have hmem : ∀ leg' k m, (k, m) ∈ numbered (recvSeq leg')
      (Function.update wire leg (wire leg ++ [msg]) leg') ↔
      (k, m) ∈ numbered (recvSeq leg') (wire leg') ∨
        leg' = leg ∧ k = sent.length + 1 ∧ m = msg := by
    intro leg' k m
    rw [numbered_update, hnew, List.mem_append]
    by_cases hleg : leg' = leg <;> simp [hleg]
  have hold : ∀ k m, sent[k - 1]? = some m → k ≤ sent.length ∧ (sent ++ [msg])[k - 1]? = some m := by
    intro k m hk
    have hlt := (List.getElem?_eq_some_iff.mp hk).1
    exact ⟨by omega, by rw [List.getElem?_append_left hlt, hk]⟩
  refine ⟨fun leg' => ?_, fun leg' hleg => ?_, fun hnone => ?_, fun leg' => ?_, ?_, ?_, ?_, ?_, ?_,
    h.queue_nodup, by rw [hlength]; exact h.done_le.trans (Nat.le_succ _)⟩
  · rw [hlength]
    have := h.sent_le leg'
    by_cases hleg : leg' = leg
    · rw [hleg, Function.update_self, hseq]
    · rw [Function.update_of_ne hleg]
      omega
  · rw [hcurr, Option.some_inj] at hleg
    rw [← hleg, Function.update_self, hseq, hlength]
  · rw [hcurr] at hnone
    cases hnone
  · by_cases hleg : leg' = leg
    · subst hleg
      rw [Function.update_self, Function.update_self, lastNumber_append, h.last, lastNumber,
        if_pos hmsg, lastNumber]
    · rw [Function.update_of_ne hleg, Function.update_of_ne hleg]
      exact h.last leg'
  · intro leg' k m hk
    rcases (hmem leg' k m).mp hk with hk | ⟨-, rfl, rfl⟩
    · exact ⟨(h.onWire leg' k m hk).1, (hold k m (h.onWire leg' k m hk).2).2⟩
    · exact ⟨Nat.lt_succ_of_le h.done_le, by simp⟩
  · exact fun e he => ⟨(h.queued e he).1, (hold _ _ (h.queued e he).2).2⟩
  · intro k hk hle
    rw [hlength] at hle
    by_cases hlast : k = sent.length + 1
    · exact .inr ⟨leg, msg, (hmem leg k msg).mpr (.inr ⟨rfl, hlast, rfl⟩)⟩
    · rcases h.pending k hk (by omega) with hqueue | ⟨leg', m, hwire⟩
      · exact .inl hqueue
      · exact .inr ⟨leg', m, (hmem leg' k m).mpr (.inl hwire)⟩
  · intro leg₁ leg₂ k m₁ m₂ h₁ h₂
    rcases (hmem leg₁ k m₁).mp h₁ with w₁ | ⟨hleg₁, hk₁, -⟩ <;>
      rcases (hmem leg₂ k m₂).mp h₂ with w₂ | ⟨hleg₂, hk₂, -⟩
    · exact h.legs_apart leg₁ leg₂ k m₁ m₂ w₁ w₂
    · have := (hold k m₁ (h.onWire leg₁ k m₁ w₁).2).1
      omega
    · have := (hold k m₂ (h.onWire leg₂ k m₂ w₂).2).1
      omega
    · exact hleg₁.trans hleg₂.symm
  · intro leg' k m e hk he
    rcases (hmem leg' k m).mp hk with hk | ⟨-, rfl, -⟩
    · exact h.queue_apart leg' k m e hk he
    · have := (hold _ _ (h.queued e he).2).1
      omega

/-- A SWITCH cell arrives. -/
theorem receiveSwitch (h : Link sentSeq curr wire recvSeq queue done sent) {leg : ι}
    {msg : RelayMsg} {rest : List RelayMsg} (hwire : wire leg = msg :: rest)
    (hmsg : msg.command.shouldMultiplex = false) :
    Link sentSeq curr (Function.update wire leg rest)
      (Function.update recvSeq leg (recvSeq leg + parseSwitch msg.body)) queue done sent := by
  have hnumbered : ∀ leg', numbered
      (Function.update recvSeq leg (recvSeq leg + parseSwitch msg.body) leg')
      (Function.update wire leg rest leg') = numbered (recvSeq leg') (wire leg') := by
    intro leg'
    by_cases hleg : leg' = leg
    · subst hleg
      rw [Function.update_self, Function.update_self, hwire, numbered, hmsg]
      rfl
    · rw [Function.update_of_ne hleg, Function.update_of_ne hleg]
  refine ⟨h.sent_le, h.curr_eq, h.curr_none, fun leg' => ?_, ?_, h.queued, ?_, ?_, ?_,
    h.queue_nodup, h.done_le⟩
  · by_cases hleg : leg' = leg
    · subst hleg
      rw [Function.update_self, Function.update_self, ← h.last leg', hwire, lastNumber, hmsg]
      rfl
    · rw [Function.update_of_ne hleg, Function.update_of_ne hleg]
      exact h.last leg'
  · simpa only [hnumbered] using h.onWire
  · simpa only [hnumbered] using h.pending
  · simpa only [hnumbered] using h.legs_apart
  · simpa only [hnumbered] using h.queue_apart

/-- What is on the legs once a message has arrived: all but that message, whose number is on no leg
any more. -/
theorem mem_numbered_received (h : Link sentSeq curr wire recvSeq queue done sent) {leg : ι}
    {msg : RelayMsg} {rest : List RelayMsg} (hwire : wire leg = msg :: rest)
    (hmsg : msg.command.shouldMultiplex = true) (leg' : ι) (k : ℕ) (m : RelayMsg) :
    (k, m) ∈ numbered (Function.update recvSeq leg (recvSeq leg + 1) leg')
      (Function.update wire leg rest leg') ↔
    (k, m) ∈ numbered (recvSeq leg') (wire leg') ∧ k ≠ recvSeq leg + 1 := by
  have hhead : (recvSeq leg + 1, msg) ∈ numbered (recvSeq leg) (wire leg) := by
    rw [hwire, numbered, if_pos hmsg]
    exact List.mem_cons_self
  by_cases hleg : leg' = leg
  · subst hleg
    rw [Function.update_self, Function.update_self, hwire, numbered, if_pos hmsg, List.mem_cons]
    constructor
    · intro hk
      have := lt_of_mem_numbered hk
      exact ⟨.inr hk, by omega⟩
    · rintro ⟨heq | hk, hne⟩
      · rw [Prod.mk.injEq] at heq
        exact absurd heq.1 hne
      · exact hk
  · rw [Function.update_of_ne hleg, Function.update_of_ne hleg, iff_self_and]
    rintro hk rfl
    exact hleg (h.legs_apart leg' leg _ m msg hk hhead)

theorem last_received (h : Link sentSeq curr wire recvSeq queue done sent) {leg : ι}
    {msg : RelayMsg} {rest : List RelayMsg} (hwire : wire leg = msg :: rest)
    (hmsg : msg.command.shouldMultiplex = true) (leg' : ι) :
    lastNumber (Function.update recvSeq leg (recvSeq leg + 1) leg')
      (Function.update wire leg rest leg') = sentSeq leg' := by
  by_cases hleg : leg' = leg
  · subst hleg
    rw [Function.update_self, Function.update_self, ← h.last leg', hwire, lastNumber, if_pos hmsg]
  · rw [Function.update_of_ne hleg, Function.update_of_ne hleg]
    exact h.last leg'

/-- The next message arrives and is delivered. -/
theorem receiveNext (h : Link sentSeq curr wire recvSeq queue done sent) {leg : ι}
    {msg : RelayMsg} {rest : List RelayMsg} (hwire : wire leg = msg :: rest)
    (hmsg : msg.command.shouldMultiplex = true) (hnext : recvSeq leg + 1 = done + 1) :
    Link sentSeq curr (Function.update wire leg rest)
      (Function.update recvSeq leg (recvSeq leg + 1)) queue (done + 1) sent := by
  have hmem := h.mem_numbered_received hwire hmsg
  obtain ⟨-, hsent, hqueue⟩ := h.head_received hwire hmsg
  have hlt := (List.getElem?_eq_some_iff.mp hsent).1
  refine ⟨h.sent_le, h.curr_eq, h.curr_none, h.last_received hwire hmsg, ?_, ?_, ?_, ?_, ?_,
    h.queue_nodup, by omega⟩
  · intro leg' k m hk
    obtain ⟨hk, hne⟩ := (hmem leg' k m).mp hk
    have := h.onWire leg' k m hk
    exact ⟨by omega, this.2⟩
  · intro e he
    have := h.queued e he
    have := hqueue e he
    exact ⟨by omega, (h.queued e he).2⟩
  · intro k hk hle
    rcases h.pending k (by omega) hle with hin | ⟨leg', m, hin⟩
    · exact .inl hin
    · exact .inr ⟨leg', m, (hmem leg' k m).mpr ⟨hin, by omega⟩⟩
  · intro leg₁ leg₂ k m₁ m₂ h₁ h₂
    exact h.legs_apart leg₁ leg₂ k m₁ m₂ ((hmem _ _ _).mp h₁).1 ((hmem _ _ _).mp h₂).1
  · exact fun leg' k m e hk he => h.queue_apart leg' k m e ((hmem _ _ _).mp hk).1 he

/-- An early message arrives and is queued. -/
theorem receiveEarly (h : Link sentSeq curr wire recvSeq queue done sent) {leg : ι}
    {msg : RelayMsg} {rest : List RelayMsg} (hwire : wire leg = msg :: rest)
    (hmsg : msg.command.shouldMultiplex = true) {queue' : List ConfluxMsg}
    (hperm : queue'.Perm (⟨recvSeq leg + 1, msg⟩ :: queue)) :
    Link sentSeq curr (Function.update wire leg rest)
      (Function.update recvSeq leg (recvSeq leg + 1)) queue' done sent := by
  have hmem := h.mem_numbered_received hwire hmsg
  obtain ⟨hdone, hsent, hqueue⟩ := h.head_received hwire hmsg
  have hin : ∀ e, e ∈ queue' ↔ e = ⟨recvSeq leg + 1, msg⟩ ∨ e ∈ queue := fun e => by
    rw [hperm.mem_iff, List.mem_cons]
  refine ⟨h.sent_le, h.curr_eq, h.curr_none, h.last_received hwire hmsg, ?_, ?_, ?_, ?_, ?_, ?_,
    h.done_le⟩
  · exact fun leg' k m hk => h.onWire leg' k m ((hmem _ _ _).mp hk).1
  · intro e he
    rcases (hin e).mp he with rfl | he
    · exact ⟨hdone, hsent⟩
    · exact h.queued e he
  · intro k hk hle
    rcases h.pending k hk hle with ⟨e, he, hseq⟩ | ⟨leg', m, hk⟩
    · exact .inl ⟨e, (hin e).mpr (.inr he), hseq⟩
    · by_cases hnew : k = recvSeq leg + 1
      · exact .inl ⟨⟨recvSeq leg + 1, msg⟩, (hin _).mpr (.inl rfl), hnew.symm⟩
      · exact .inr ⟨leg', m, (hmem leg' k m).mpr ⟨hk, hnew⟩⟩
  · intro leg₁ leg₂ k m₁ m₂ h₁ h₂
    exact h.legs_apart leg₁ leg₂ k m₁ m₂ ((hmem _ _ _).mp h₁).1 ((hmem _ _ _).mp h₂).1
  · intro leg' k m e hk he
    obtain ⟨hk, hne⟩ := (hmem leg' k m).mp hk
    rcases (hin e).mp he with rfl | he
    · exact fun heq => hne heq.symm
    · exact h.queue_apart leg' k m e hk he
  · rw [(hperm.map ConfluxMsg.seq).nodup_iff, List.map_cons, List.nodup_cons]
    refine ⟨fun hseq => ?_, h.queue_nodup⟩
    obtain ⟨e, he, heq⟩ := List.mem_map.mp hseq
    exact hqueue e he heq

end Link

/-! ## The endpoints -/

section Endpoints

variable {ι : Type} {tx rx cfx : Conflux ι} {wire : ι → List RelayMsg}
variable {sent delivered : List RelayMsg}

/-- The sender `tx` and the receiver `rx` are linked, and what was delivered is the first part of
what was sent. -/
structure Carries (tx rx : Conflux ι) (wire : ι → List RelayMsg) (sent delivered : List RelayMsg) :
    Prop where
  link : Link (fun leg => (tx.legs leg).lastSeqSent) tx.currLeg wire
    (fun leg => (rx.legs leg).lastSeqRecv) rx.oooQ.toList rx.lastSeqDelivered sent
  heap : IsHeap ConfluxMsg.seq rx.oooQ
  delivered_eq : delivered = sent.take rx.lastSeqDelivered
  cells : ∀ leg, ∀ msg ∈ wire leg,
    msg.command.shouldMultiplex = true ∨ msg.command = .confluxSwitch

/-- The next message is not in the queue. -/
def Settled (cfx : Conflux ι) : Prop :=
  ∀ e ∈ cfx.oooQ.toList, e.seq ≠ cfx.lastSeqDelivered + 1

/-- What is sent leaves the receiving side of an endpoint alone. -/
structure SameReceiver (cfx cfx' : Conflux ι) : Prop where
  recv : ∀ leg, (cfx'.legs leg).lastSeqRecv = (cfx.legs leg).lastSeqRecv
  oooQ : cfx'.oooQ = cfx.oooQ
  delivered : cfx'.lastSeqDelivered = cfx.lastSeqDelivered

/-- What arrives leaves the sending side of an endpoint alone. -/
structure SameSender (cfx cfx' : Conflux ι) : Prop where
  sent : ∀ leg, (cfx'.legs leg).lastSeqSent = (cfx.legs leg).lastSeqSent
  curr : cfx'.currLeg = cfx.currLeg

theorem SameReceiver.trans {cfx' cfx'' : Conflux ι} (h : SameReceiver cfx cfx')
    (h' : SameReceiver cfx' cfx'') : SameReceiver cfx cfx'' :=
  ⟨fun leg => (h'.recv leg).trans (h.recv leg), h'.oooQ.trans h.oooQ,
    h'.delivered.trans h.delivered⟩

theorem SameSender.trans {cfx' cfx'' : Conflux ι} (h : SameSender cfx cfx')
    (h' : SameSender cfx' cfx'') : SameSender cfx cfx'' :=
  ⟨fun leg => (h'.sent leg).trans (h.sent leg), h'.curr.trans h.curr⟩

theorem Settled.congr (h : Settled cfx) {cfx' : Conflux ι} (hsame : SameReceiver cfx cfx') :
    Settled cfx' := by
  unfold Settled
  rw [hsame.oooQ, hsame.delivered]
  exact h

theorem Carries.congr_receiver (h : Carries tx rx wire sent delivered) {rx' : Conflux ι}
    (hsame : SameReceiver rx rx') : Carries tx rx' wire sent delivered where
  link := by
    have hrecv : (fun leg => (rx'.legs leg).lastSeqRecv) = fun leg => (rx.legs leg).lastSeqRecv :=
      funext hsame.recv
    rw [hrecv, hsame.oooQ, hsame.delivered]
    exact h.link
  heap := by rw [hsame.oooQ]; exact h.heap
  delivered_eq := by rw [hsame.delivered]; exact h.delivered_eq
  cells := h.cells

theorem Carries.congr_sender (h : Carries tx rx wire sent delivered) {tx' : Conflux ι}
    (hsame : SameSender tx tx') : Carries tx' rx wire sent delivered where
  link := by
    have hsent : (fun leg => (tx'.legs leg).lastSeqSent) = fun leg => (tx.legs leg).lastSeqSent :=
      funext hsame.sent
    rw [hsent, hsame.curr]
    exact h.link
  heap := h.heap
  delivered_eq := h.delivered_eq
  cells := h.cells

theorem Carries.pickFirstLeg (h : Carries tx rx wire sent delivered) (first : ι) :
    Carries (tx.pickFirstLeg first) rx wire sent delivered :=
  ⟨h.link.pickFirst first, h.heap, h.delivered_eq, h.cells⟩

variable [DecidableEq ι]

theorem sameReceiver_setSent (cfx : Conflux ι) (leg : ι) (seq : ℕ) :
    SameReceiver cfx (cfx.setSent leg seq) where
  recv leg' := by
    by_cases hleg : leg' = leg
    · rw [hleg, Conflux.setSent_legs_self]
    · rw [Conflux.setSent_legs_of_ne cfx hleg]
  oooQ := rfl
  delivered := rfl

theorem sameSender_setRecv (cfx : Conflux ι) (leg : ι) (seq : ℕ) :
    SameSender cfx (cfx.setRecv leg seq) where
  sent leg' := by
    by_cases hleg : leg' = leg
    · rw [hleg, Conflux.setRecv_legs_self]
    · rw [Conflux.setRecv_legs_of_ne cfx hleg]
  curr := rfl

theorem lastSeqSent_setSent (cfx : Conflux ι) (leg : ι) (seq : ℕ) :
    (fun leg' => ((cfx.setSent leg seq).legs leg').lastSeqSent) =
      Function.update (fun leg' => (cfx.legs leg').lastSeqSent) leg seq := by
  funext leg'
  by_cases hleg : leg' = leg
  · rw [hleg, Conflux.setSent_legs_self, Function.update_self]
  · rw [Conflux.setSent_legs_of_ne cfx hleg, Function.update_of_ne hleg]

theorem lastSeqRecv_setRecv (cfx : Conflux ι) (leg : ι) (seq : ℕ) :
    (fun leg' => ((cfx.setRecv leg seq).legs leg').lastSeqRecv) =
      Function.update (fun leg' => (cfx.legs leg').lastSeqRecv) leg seq := by
  funext leg'
  by_cases hleg : leg' = leg
  · rw [hleg, Conflux.setRecv_legs_self, Function.update_self]
  · rw [Conflux.setRecv_legs_of_ne cfx hleg, Function.update_of_ne hleg]

/-! ### Sending -/

/-- Every cell put on a leg is one of the two kinds. -/
theorem cells_update {leg : ι} {cells : List RelayMsg}
    (h : ∀ leg, ∀ msg ∈ wire leg,
      msg.command.shouldMultiplex = true ∨ msg.command = .confluxSwitch)
    (hcells : ∀ msg ∈ cells, msg.command.shouldMultiplex = true ∨ msg.command = .confluxSwitch) :
    ∀ leg', ∀ msg ∈ Function.update wire leg (wire leg ++ cells) leg',
      msg.command.shouldMultiplex = true ∨ msg.command = .confluxSwitch := by
  intro leg' msg hmsg
  by_cases hleg : leg' = leg
  · rw [hleg, Function.update_self, List.mem_append] at hmsg
    exact hmsg.elim (h leg msg) (hcells msg)
  · rw [Function.update_of_ne hleg] at hmsg
    exact h leg' msg hmsg

/-- Choosing a leg closes the circuits only if the relative number does not fit its cell. -/
theorem Carries.decideCircForSend (h : Carries tx rx wire sent delivered) (first : ι)
    (next : Option ι) (command : RelayCommand) :
    tx.decideCircForSend first next command = .error .relativeSeqTooHigh ∨
      ∃ tx' circ cells, tx.decideCircForSend first next command = .ok (tx', circ, cells) ∧
        SameReceiver tx tx' ∧
        (circ = none → Carries tx' rx wire sent delivered) ∧
        ∀ leg, circ = some leg → tx'.currLeg = some leg ∧
          Carries tx' rx (Function.update wire leg (wire leg ++ cells)) sent delivered := by
  have hpicked := h.pickFirstLeg first
  have hsame : SameReceiver tx (tx.pickFirstLeg first) := ⟨fun _ => rfl, rfl, rfl⟩
  have hnone : ∀ leg, Carries (tx.pickFirstLeg first) rx
      (Function.update wire leg (wire leg ++ [])) sent delivered := by
    intro leg
    rw [List.append_nil, Function.update_eq_self]
    exact hpicked
  unfold Conflux.decideCircForSend
  cases next with
  | none =>
    refine .inr ⟨_, _, _, rfl, hsame, fun _ => hpicked, fun leg hleg => ⟨?_, hnone leg⟩⟩
    split at hleg
    · exact hleg
    · cases hleg
  | some newCirc =>
    by_cases hcurr : some newCirc = (tx.pickFirstLeg first).currLeg
    · simp only [if_pos hcurr]
      refine .inr ⟨_, _, _, rfl, hsame, fun _ => hpicked, fun leg hleg => ⟨?_, hnone leg⟩⟩
      exact hcurr.symm.trans hleg
    · simp only [if_neg hcurr]
      -- the leg that is left has the count of all that was sent
      have hprev : (tx.legs (tx.currLeg.getD first)).lastSeqSent = sent.length :=
        hpicked.link.curr_eq _ rfl
      have hle : (tx.legs newCirc).lastSeqSent ≤ sent.length := hpicked.link.sent_le newCirc
      have hprev' : ((tx.pickFirstLeg first).legs
          ((tx.pickFirstLeg first).currLeg.getD first)).lastSeqSent = sent.length := hprev
      have hcurrSeq : ((tx.pickFirstLeg first).legs newCirc).lastSeqSent =
          (tx.legs newCirc).lastSeqSent := rfl
      rw [hprev', hcurrSeq, if_neg (by omega)]
      by_cases hhigh : 4294967295 ≤ sent.length - (tx.legs newCirc).lastSeqSent
      · rw [if_pos hhigh]
        exact .inl rfl
      · rw [if_neg hhigh]
        refine .inr ⟨_, _, _, rfl, ?_, (by simp), fun leg hleg => ?_⟩
        · have hchange : SameReceiver tx ((tx.pickFirstLeg first).changeLeg newCirc) :=
            ⟨fun _ => rfl, rfl, rfl⟩
          exact hchange.trans (sameReceiver_setSent _ _ _)
        · obtain rfl : newCirc = leg := Option.some_inj.mp hleg
          refine ⟨rfl, ?_, h.heap, h.delivered_eq, cells_update h.cells (by simp)⟩
          rw [lastSeqSent_setSent]
          exact hpicked.link.switchTo newCirc (by omega)

/-- A message is put on the current leg. -/
theorem Carries.noteCellSent (h : Carries tx rx wire sent delivered) {leg : ι}
    (hcurr : tx.currLeg = some leg) {msg : RelayMsg}
    (hmsg : msg.command.shouldMultiplex = true) :
    Carries (tx.noteCellSent leg) rx (Function.update wire leg (wire leg ++ [msg])) (sent ++ [msg])
      delivered where
  link := by
    rw [Conflux.noteCellSent, lastSeqSent_setSent]
    exact h.link.sendOn hcurr hmsg
  heap := h.heap
  delivered_eq := by rw [List.take_append_of_le_length h.link.done_le, h.delivered_eq]
  cells := cells_update h.cells (by simp [hmsg])

/-! ### Receiving -/

omit [DecidableEq ι] in
/-- One message from the queue. -/
theorem Carries.dequeueRelayMsg (h : Carries tx rx wire sent delivered) (P : ConfluxParams) :
    (rx.dequeueRelayMsg P = none ∧ Settled rx) ∨
      ∃ msg rx', rx.dequeueRelayMsg P = some (msg, rx') ∧
        Carries tx rx' wire sent (delivered ++ [msg]) ∧ SameSender rx rx' ∧
        rx'.oooQ.size + 1 = rx.oooQ.size := by
  unfold Conflux.dequeueRelayMsg
  cases htop : rx.oooQ[0]? with
  | none =>
    refine .inl ⟨rfl, fun e he => ?_⟩
    have hempty : rx.oooQ.toList = [] := by
      rw [Array.getElem?_eq_none_iff] at htop
      exact List.eq_nil_of_length_eq_zero (by rw [Array.length_toList]; omega)
    rw [hempty] at he
    cases he
  | some top =>
    obtain ⟨hsize, hzero⟩ := Array.getElem?_eq_some_iff.mp htop
    obtain ⟨rest, hpop⟩ : ∃ rest, pqueuePop ConfluxMsg.seq rx.oooQ = some (top, rest) :=
      ⟨_, by rw [pqueuePop, dif_pos hsize, hzero]⟩
    obtain ⟨hrest, hleast⟩ := h.heap.pqueuePop hpop
    have hperm := pqueuePop_perm hpop
    by_cases hnext : top.seq = rx.lastSeqDelivered + 1
    · simp only [if_pos hnext, hpop]
      obtain ⟨hlink, hmsg⟩ := h.link.dequeue hperm hnext
      refine .inr ⟨_, _, rfl, ⟨hlink, hrest, ?_, h.cells⟩, ⟨fun _ => rfl, rfl⟩, ?_⟩
      · show delivered ++ [top.msg] = sent.take (rx.lastSeqDelivered + 1)
        rw [List.take_add_one, hmsg, h.delivered_eq]
        rfl
      · have := hperm.length_eq
        simpa using this
    · simp only [if_neg hnext]
      refine .inl ⟨trivial, fun e he => ?_⟩
      have hle := hleast e he
      have hpending := (h.link.queued top (hperm.subset List.mem_cons_self)).1
      omega

omit [DecidableEq ι] in
/-- The loop takes all that is next. -/
theorem Carries.dequeueAll (P : ConfluxParams) : ∀ (fuel : ℕ) {rx : Conflux ι}
    {delivered : List RelayMsg}, Carries tx rx wire sent delivered → rx.oooQ.size ≤ fuel →
    Carries tx (rx.dequeueAll P fuel).1 wire sent (delivered ++ (rx.dequeueAll P fuel).2) ∧
      SameSender rx (rx.dequeueAll P fuel).1 ∧ Settled (rx.dequeueAll P fuel).1 := by
  intro fuel
  induction fuel with
  | zero =>
    intro rx delivered h hfuel
    have hempty : rx.oooQ.toList = [] :=
      List.eq_nil_of_length_eq_zero (by rw [Array.length_toList]; omega)
    refine ⟨by simpa [Conflux.dequeueAll] using h, ⟨fun _ => rfl, rfl⟩, fun e he => ?_⟩
    rw [Conflux.dequeueAll, hempty] at he
    cases he
  | succ fuel ih =>
    intro rx delivered h hfuel
    rcases h.dequeueRelayMsg P with ⟨hnone, hsettled⟩ | ⟨msg, rx', hsome, hcarries, hsame, hsize⟩
    · rw [Conflux.dequeueAll, hnone]
      exact ⟨by simpa using h, ⟨fun _ => rfl, rfl⟩, hsettled⟩
    · obtain ⟨hall, hsame', hsettled⟩ := ih hcarries (by omega)
      rw [Conflux.dequeueAll, hsome]
      refine ⟨?_, hsame.trans hsame', hsettled⟩
      rw [List.append_assoc, List.singleton_append] at hall
      exact hall

theorem cells_rest {leg : ι} {msg : RelayMsg} {rest : List RelayMsg} (hwire : wire leg = msg :: rest)
    (h : ∀ leg, ∀ msg ∈ wire leg,
      msg.command.shouldMultiplex = true ∨ msg.command = .confluxSwitch) :
    ∀ leg', ∀ msg ∈ Function.update wire leg rest leg',
      msg.command.shouldMultiplex = true ∨ msg.command = .confluxSwitch := by
  intro leg' m hm
  by_cases hleg : leg' = leg
  · rw [hleg, Function.update_self] at hm
    exact h leg m (by rw [hwire]; exact List.mem_cons_of_mem _ hm)
  · rw [Function.update_of_ne hleg] at hm
    exact h leg' m hm

/-- What arrives closes the circuits only if the queue is full. -/
theorem Carries.processRelayCell (h : Carries tx rx wire sent delivered) (hsettled : Settled rx)
    (P : ConfluxParams) {leg : ι} {msg : RelayMsg} {rest : List RelayMsg}
    (hwire : wire leg = msg :: rest) :
    rx.processRelayCell P leg msg = .error .oooqFull ∨
      ∃ rx' msgs, rx.processRelayCell P leg msg = .ok (rx', msgs) ∧
        Carries tx rx' (Function.update wire leg rest) sent (delivered ++ msgs) ∧
        SameSender rx rx' ∧ Settled rx' := by
  have hcells := cells_rest hwire h.cells
  unfold Conflux.processRelayCell
  cases hmsg : msg.command.shouldMultiplex with
  | false =>
    have hswitch : msg.command = .confluxSwitch := by
      rcases h.cells leg msg (by rw [hwire]; exact List.mem_cons_self) with hmulti | hswitch
      · rw [hmsg] at hmulti
        cases hmulti
      · exact hswitch
    simp only [Bool.false_eq_true, if_false, if_pos hswitch]
    refine .inr ⟨_, _, rfl, ⟨?_, h.heap, by rw [List.append_nil]; exact h.delivered_eq, hcells⟩,
      sameSender_setRecv _ _ _, hsettled⟩
    rw [Conflux.processSwitchCommand, lastSeqRecv_setRecv]
    exact h.link.receiveSwitch hwire hmsg
  | true =>
    obtain ⟨hdone, hsent, -⟩ := h.link.head_received hwire hmsg
    have hrecv := lastSeqRecv_setRecv rx leg ((rx.legs leg).lastSeqRecv + 1)
    have hsame := sameSender_setRecv rx leg ((rx.legs leg).lastSeqRecv + 1)
    have hdelivered : (rx.setRecv leg ((rx.legs leg).lastSeqRecv + 1)).lastSeqDelivered =
      rx.lastSeqDelivered := rfl
    simp only [if_true, Conflux.processRelayMsg]
    by_cases hnext : (rx.legs leg).lastSeqRecv + 1 = rx.lastSeqDelivered + 1
    · -- the next message: it is delivered, and the queue after it
      have hcarries : Carries tx (rx.setRecv leg ((rx.legs leg).lastSeqRecv + 1)).noteDelivered
          (Function.update wire leg rest) sent (delivered ++ [msg]) := by
        refine ⟨?_, h.heap, ?_, hcells⟩
        · show Link _ _ _ (fun leg' => ((rx.setRecv leg _).legs leg').lastSeqRecv) _ _ _
          rw [hrecv]
          exact h.link.receiveNext hwire hmsg hnext
        · have hat : sent[rx.lastSeqDelivered]? = some msg := by
            rw [← Nat.add_right_cancel hnext]
            exact hsent
          show delivered ++ [msg] = sent.take (rx.lastSeqDelivered + 1)
          rw [List.take_add_one, hat, h.delivered_eq]
          rfl
      have hnoted : SameSender rx
          (rx.setRecv leg ((rx.legs leg).lastSeqRecv + 1)).noteDelivered := ⟨hsame.sent, hsame.curr⟩
      obtain ⟨hall, hsame', hsettled'⟩ := hcarries.dequeueAll P _ (le_refl _)
      rw [List.append_assoc, List.singleton_append] at hall
      rw [hdelivered, if_pos hnext]
      exact .inr ⟨_, _, rfl, hall, hnoted.trans hsame', hsettled'⟩
    · rw [hdelivered, if_neg hnext, if_neg (Nat.not_le.mpr hdone)]
      by_cases hfull : P.maxOooq ≤
          (rx.setRecv leg ((rx.legs leg).lastSeqRecv + 1)).oooQAllocCost
      · rw [if_pos hfull]
        exact .inl rfl
      · rw [if_neg hfull]
        have hperm := pqueueAdd_perm ConfluxMsg.seq rx.oooQ ⟨(rx.legs leg).lastSeqRecv + 1, msg⟩
        refine .inr ⟨_, _, rfl, ⟨?_, h.heap.pqueueAdd _,
          by rw [List.append_nil]; exact h.delivered_eq, hcells⟩, ⟨hsame.sent, hsame.curr⟩, ?_⟩
        · show Link _ _ _ (fun leg' => ((rx.setRecv leg _).legs leg').lastSeqRecv) _ _ _
          rw [hrecv]
          exact h.link.receiveEarly hwire hmsg hperm
        · intro e he
          rcases List.mem_cons.mp (hperm.subset he) with rfl | he
          · exact hnext
          · exact hsettled e he

end Endpoints

/-! ## Runs -/

@[simp] theorem Side.other_other (side : Side) : side.other.other = side := by
  cases side <;> rfl

theorem Side.other_ne (side : Side) : side.other ≠ side := by
  cases side <;> simp [Side.other]

theorem Side.eq_or_eq_other (side side' : Side) : side' = side ∨ side' = side.other := by
  cases side <;> cases side' <;> simp [Side.other]

namespace ConfluxNet

variable {ι : Type} {s : ConfluxNet ι}

/-- Both directions carry what was sent, and no end has the next message in its queue. -/
structure Ordered (s : ConfluxNet ι) : Prop where
  carries : ∀ side, Carries (s.ends side) (s.ends side.other) (s.wires side) (s.sent side)
    (s.delivered side.other)
  settled : ∀ side, Settled (s.ends side)

theorem Ordered.linked : Ordered (linked : ConfluxNet ι) where
  carries _ := ⟨Link.start, fun i _ hi => absurd hi (Nat.not_lt_zero i), rfl,
    fun _ _ hmsg => absurd hmsg List.not_mem_nil⟩
  settled _ := fun _ he => absurd he List.not_mem_nil

/-- The sending side of one end has changed. -/
theorem Ordered.sender (h : Ordered s) (side : Side) {tx : Conflux ι}
    {wire : ι → List RelayMsg} {sent : List RelayMsg} (hsame : SameReceiver (s.ends side) tx)
    (hcarries : Carries tx (s.ends side.other) wire sent (s.delivered side.other)) :
    Ordered ⟨Function.update s.ends side tx, Function.update s.wires side wire,
      Function.update s.sent side sent, s.delivered⟩ where
  carries side' := by
    have hne := side.other_ne
    rcases side.eq_or_eq_other side' with rfl | rfl
    · simpa [Function.update_of_ne hne] using hcarries
    · have hown : SameReceiver (s.ends side.other.other) tx := by simpa using hsame
      have hother := (h.carries side.other).congr_receiver hown
      simpa [Function.update_of_ne hne] using hother
  settled side' := by
    rcases side.eq_or_eq_other side' with rfl | rfl
    · simpa using (h.settled side').congr hsame
    · simpa [Function.update_of_ne side.other_ne] using h.settled side.other

/-- The receiving side of one end has changed. -/
theorem Ordered.receiver (h : Ordered s) (side : Side) {rx : Conflux ι}
    {wire : ι → List RelayMsg} {delivered : List RelayMsg} (hsame : SameSender (s.ends side) rx)
    (hsettled : Settled rx)
    (hcarries : Carries (s.ends side.other) rx wire (s.sent side.other) delivered) :
    Ordered ⟨Function.update s.ends side rx, Function.update s.wires side.other wire, s.sent,
      Function.update s.delivered side delivered⟩ where
  carries side' := by
    have hne := side.other_ne
    rcases side.eq_or_eq_other side' with rfl | rfl
    · have hown := (h.carries side').congr_sender hsame
      simpa [Function.update_of_ne hne, Function.update_of_ne hne.symm] using hown
    · simpa [Function.update_of_ne hne] using hcarries
  settled side' := by
    rcases side.eq_or_eq_other side' with rfl | rfl
    · simpa using hsettled
    · simpa [Function.update_of_ne side.other_ne] using h.settled side.other

variable [DecidableEq ι]

theorem Ordered.send (h : Ordered s) (side : Side) (msg : RelayMsg) (first : ι) (next : Option ι)
    (packaged : Bool) :
    s.send side msg first next packaged = .error .relativeSeqTooHigh ∨
      ∃ s', s.send side msg first next packaged = .ok s' ∧ Ordered s' := by
  unfold ConfluxNet.send
  cases hmsg : msg.command.shouldMultiplex with
  | false => exact .inr ⟨s, rfl, h⟩
  | true =>
    simp only [Bool.not_true, Bool.false_eq_true, if_false]
    rcases (h.carries side).decideCircForSend first next msg.command with
      herror | ⟨tx, circ, cells, hdecide, hsame, hnone, hsome⟩
    · rw [herror]
      exact .inl rfl
    · rw [hdecide]
      cases circ with
      | none =>
        refine .inr ⟨_, rfl, ?_⟩
        have := h.sender side hsame (hnone rfl)
        rwa [Function.update_eq_self, Function.update_eq_self] at this
      | some leg =>
        obtain ⟨hcurr, hcarries⟩ := hsome leg rfl
        cases packaged with
        | false =>
          refine .inr ⟨_, rfl, ?_⟩
          have := h.sender side hsame hcarries
          rwa [Function.update_eq_self] at this
        | true =>
          refine .inr ⟨_, rfl, ?_⟩
          have hnoted := hcarries.noteCellSent hcurr hmsg
          rw [Function.update_self, Function.update_idem, List.append_assoc] at hnoted
          exact h.sender side (hsame.trans (sameReceiver_setSent _ _ _)) hnoted

theorem Ordered.arrive (h : Ordered s) (P : ConfluxParams) (side : Side) (leg : ι) :
    s.arrive P side leg = .error .oooqFull ∨ ∃ s', s.arrive P side leg = .ok s' ∧ Ordered s' := by
  unfold ConfluxNet.arrive
  cases hwire : s.wires side.other leg with
  | nil => exact .inr ⟨s, rfl, h⟩
  | cons msg rest =>
    have hcarries := h.carries side.other
    rw [Side.other_other] at hcarries
    rcases hcarries.processRelayCell (h.settled side) P hwire with
      herror | ⟨rx, msgs, hprocess, hcarries', hsame, hsettled⟩
    · simp only [herror]
      exact .inl trivial
    · simp only [hprocess]
      exact .inr ⟨_, rfl, h.receiver side hsame hsettled hcarries'⟩

/-- One step closes the circuits for one of two reasons, or keeps the order. -/
theorem Ordered.step (h : Ordered s) (P : ConfluxParams) (event : ConfluxEvent ι) :
    (s.step P event = .error .relativeSeqTooHigh ∨ s.step P event = .error .oooqFull) ∨
      ∃ s', s.step P event = .ok s' ∧ Ordered s' := by
  cases event with
  | decideNext side first =>
    refine .inr ⟨_, rfl, ?_⟩
    have hsame : SameReceiver (s.ends side) ((s.ends side).pickFirstLeg first) :=
      ⟨fun _ => rfl, rfl, rfl⟩
    have := h.sender side hsame ((h.carries side).pickFirstLeg first)
    rwa [Function.update_eq_self, Function.update_eq_self] at this
  | send side msg first next packaged =>
    rcases h.send side msg first next packaged with herror | hok
    · exact .inl (.inl herror)
    · exact .inr hok
  | arrive side leg =>
    rcases h.arrive P side leg with herror | hok
    · exact .inl (.inr herror)
    · exact .inr hok

/-- A run in which no circuit is closed. -/
theorem Ordered.run (P : ConfluxParams) : ∀ (events : List (ConfluxEvent ι)) {s s' : ConfluxNet ι},
    Ordered s → events.foldlM (ConfluxNet.step P) s = .ok s' → Ordered s'
  | [], s, s', h, hrun => by
    obtain rfl : s = s' := by simpa [pure, Except.pure] using hrun
    exact h
  | event :: events, s, s', h, hrun => by
    rw [List.foldlM_cons] at hrun
    rcases h.step P event with (herror | herror) | ⟨t, hstep, ht⟩
    · rw [herror] at hrun
      cases hrun
    · rw [herror] at hrun
      cases hrun
    · rw [hstep] at hrun
      exact Ordered.run P events ht hrun

omit [DecidableEq ι] in
/-- Once nothing is under way everything has been delivered. -/
theorem Ordered.delivered_all (h : Ordered s) (side : Side)
    (hempty : ∀ leg, s.wires side leg = []) : s.delivered side.other = s.sent side := by
  obtain ⟨hlink, -, hdelivered, -⟩ := h.carries side
  have hall : (s.ends side.other).lastSeqDelivered = (s.sent side).length := by
    by_contra hne
    have hle := hlink.done_le
    rcases hlink.pending ((s.ends side.other).lastSeqDelivered + 1) (by omega) (by omega) with
      ⟨e, he, hseq⟩ | ⟨leg, msg, hmsg⟩
    · exact h.settled side.other e he hseq
    · rw [hempty leg] at hmsg
      cases hmsg
  rw [hdelivered, hall, List.take_length]

end ConfluxNet

/-- Whatever both ends send, on whichever legs, and whatever arrives when, in order on each leg: as
long as no circuit is closed, each end has delivered a first part of what the other has sent, and
all of it once nothing is under way. The circuits are closed only for a relative number that does
not fit a SWITCH cell or a full queue, never for numbers that do not agree. -/
theorem conflux_delivers_in_order {ι : Type} [DecidableEq ι] (P : ConfluxParams)
    (events : List (ConfluxEvent ι)) :
    ∀ s, events.foldlM (ConfluxNet.step P) ConfluxNet.linked = .ok s →
      (∀ side : Side, s.delivered side.other <+: s.sent side) ∧
      (∀ side : Side, (∀ leg, s.wires side leg = []) → s.delivered side.other = s.sent side) ∧
      ∀ event reason, s.step P event = .error reason →
        reason = .relativeSeqTooHigh ∨ reason = .oooqFull := by
  intro s hrun
  have h := ConfluxNet.Ordered.run P events ConfluxNet.Ordered.linked hrun
  refine ⟨fun side => ?_, h.delivered_all, fun event reason hreason => ?_⟩
  · rw [(h.carries side).delivered_eq]
    exact List.take_prefix _ _
  · rcases h.step P event with (herror | herror) | ⟨s', hok, -⟩
    · rw [herror, Except.error.injEq] at hreason
      exact .inl hreason.symm
    · rw [herror, Except.error.injEq] at hreason
      exact .inr hreason.symm
    · rw [hok] at hreason
      cases hreason

/-- A message on each of two legs, with the SWITCH cell before the second. -/
def twoLegs : List (ConfluxEvent Bool) :=
  [.send .client ⟨.begin, []⟩ false none true, .send .client ⟨.data, []⟩ false (some true) true,
    .arrive .exit false, .arrive .exit true, .arrive .exit true]

theorem conflux_two_legs :
    ∃ s, twoLegs.foldlM (ConfluxNet.step ⟨0, 0⟩) ConfluxNet.linked = .ok s ∧
      s.delivered .exit = s.sent .client ∧ s.sent .client = [⟨.begin, []⟩, ⟨.data, []⟩] := by
  obtain ⟨s, hrun, hempty, hsent⟩ :
      ∃ s, twoLegs.foldlM (ConfluxNet.step ⟨0, 0⟩) ConfluxNet.linked = .ok s ∧
        (∀ leg, s.wires .client leg = []) ∧ s.sent .client = [⟨.begin, []⟩, ⟨.data, []⟩] :=
    ⟨_, rfl, fun leg => by cases leg <;> rfl, rfl⟩
  exact ⟨s, hrun, (conflux_delivers_in_order ⟨0, 0⟩ twoLegs s hrun).2.1 .client hempty, hsent⟩

end Dittor.Tor
