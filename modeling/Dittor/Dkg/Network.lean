import Dittor.Dkg.Actions
import Mathlib.Data.List.Nodup
import Mathlib.Logic.Function.Basic

/-!
# The CAs and the channels between them

The system the DKG runs in: `n` CAs with ids `1..n`, each listening at its own
host, and one FIFO channel for every ordered pair of a sender and a host (what
a TCP connection provides). Events interleave freely: a CA's call of
`startDKG`, an outgoing connection coming up, the delivery of the oldest
message of a channel, and, for a sender that does not follow the protocol, the
sending of any message at any time.

`follows` says which CAs run `CAProtocol`. A CA that does not follow it has no
state here; it is only what it sends (`inject`). A handler that throws keeps the
state and the messages it had produced, and the CA goes on: the Babel event
loop logs the exception and takes the next event.
-/

namespace Dittor.Dkg

open Dittor.Lib Dittor.Crypto

/-- The common configuration of the CAs (`ca-config/ca-*.properties`) and the
random draws of each of them. -/
structure Config (p : ℕ) where
  n : ℕ
  threshold : ℕ
  /-- Where each CA listens. -/
  host : ℤ → Host
  host_inj : Function.Injective host
  secret : ℤ → ℕ → ZMod p
  blinding : ℤ → ℕ → ZMod p

namespace Config

variable {p : ℕ} (cfg : Config p)

/-- The ids `1..n`. -/
def ids : List ℤ := (List.range cfg.n).map fun k : ℕ => (k : ℤ) + 1

/-- `peerHosts` of CA `i`: every other CA. -/
def peers (i : ℤ) : List (Host × ℤ) := (cfg.ids.filter (· ≠ i)).map fun k => (cfg.host k, k)

/-- The polynomials CA `i` draws. -/
def coeffs (i : ℤ) : Coefficients p :=
  generatePrivatePolynomial cfg.threshold (cfg.secret i) (cfg.blinding i)

/-- `f_i(j)` -/
def shareOf (i j : ℤ) : ZMod p := evaluatePolynomial (cfg.coeffs i).secretCoefficients j

/-- `f'_i(j)` -/
def blindOf (i j : ℤ) : ZMod p := evaluatePolynomial (cfg.coeffs i).blindingCoefficients j

end Config

/-- A port for every id. -/
def portOf : ℤ → ℕ
  | .ofNat k => 2 * k
  | .negSucc k => 2 * k + 1

theorem portOf_injective : Function.Injective portOf := by
  intro a b h
  cases a with
  | ofNat m =>
    cases b with
    | ofNat k =>
      have hmk : 2 * m = 2 * k := h
      rw [show m = k by omega]
    | negSucc k =>
      have hmk : 2 * m = 2 * k + 1 := h
      omega
  | negSucc m =>
    cases b with
    | ofNat k =>
      have hmk : 2 * m + 1 = 2 * k := h
      omega
    | negSucc k =>
      have hmk : 2 * m + 1 = 2 * k + 1 := h
      rw [show m = k by omega]

/-- All CAs on one machine; CA `i` draws `i, i + 1, …` and `1, 2, …`. -/
def localConfig (p n threshold : ℕ) : Config p where
  n := n
  threshold := threshold
  host k := ⟨"127.0.0.1", portOf k⟩
  host_inj _ _ h := portOf_injective (congrArg Host.port h)
  secret i k := (i : ZMod p) + k
  blinding _ k := (k : ZMod p) + 1

/-- The global state. `started` holds the CAs whose `startDKG` has got as far as
opening the connections (the commitments exist), `up` the connections reported
up, and `finalized` the set of qualified ids each CA entered `DONE` with; the
code reads none of them. -/
structure Net (p : ℕ) (G1 G2 : Type) where
  ca : ℤ → CAState p G1 G2
  chan : ℤ → Host → List (DkgMsg p G1 G2)
  started : Finset ℤ
  up : Finset (ℤ × ℤ)
  finalized : ℤ → Option (Finset ℤ)

/-- The events of the system. -/
inductive Event (p : ℕ) (G1 G2 : Type) where
  | startDKG (i : ℤ)
  /-- CA `i`'s connection to CA `j` is up. -/
  | connectionUp (i j : ℤ)
  /-- The oldest message from `i` reaches CA `j`. -/
  | deliver (i j : ℤ)
  /-- `b`, who does not follow the protocol, sends `m` to the host of `j`. -/
  | inject (b j : ℤ) (m : DkgMsg p G1 G2)

/-- Two CAs from start to end: hashes, then reveals, then shares. -/
def twoCaEvents (p : ℕ) (G1 G2 : Type) : List (Event p G1 G2) :=
  [.startDKG 1, .startDKG 2, .connectionUp 1 2, .connectionUp 2 1, .deliver 1 2, .deliver 2 1,
    .deliver 2 1, .deliver 1 2, .deliver 2 1, .deliver 1 2]

/-- The part of a list of sent messages that goes to one host. -/
def sentTo {p : ℕ} {G1 G2 : Type} (l : List (Host × DkgMsg p G1 G2)) (h : Host) :
    List (DkgMsg p G1 G2) :=
  (l.filter fun e => e.1 = h).map (·.2)

namespace Net

variable {p : ℕ} {G1 G2 GT : Type}

/-- Nothing has happened yet. -/
def init : Net p G1 G2 where
  ca j := { caID := j }
  chan _ _ := []
  started := ∅
  up := ∅
  finalized _ := none

/-- CA `j` moves to `s` and sends `l`. -/
def put (net : Net p G1 G2) (j : ℤ) (s : CAState p G1 G2) (l : List (Host × DkgMsg p G1 G2)) :
    Net p G1 G2 :=
  { net with ca := Function.update net.ca j s
             chan := fun i h => if i = j then net.chan i h ++ sentTo l h else net.chan i h
             finalized := if (net.ca j).state ≠ .done ∧ s.state = .done then
                 Function.update net.finalized j (some s.qualifiedIds.toFinset)
               else net.finalized }

/-- Replace the contents of one channel. -/
def setChan (net : Net p G1 G2) (i : ℤ) (h : Host) (l : List (DkgMsg p G1 G2)) : Net p G1 G2 :=
  { net with chan := fun i' h' => if i' = i ∧ h' = h then l else net.chan i' h' }

variable [CommGroup G1] [CommGroup G2] [CommGroup GT] [DecidableEq G1]
  (S : CryptimeleonSetup p G1 G2 GT) (cfg : Config p) (follows : ℤ → Bool)

/-- One event; `none` when it cannot happen in this state. -/
def step (net : Net p G1 G2) : Event p G1 G2 → Option (Net p G1 G2)
  | .startDKG i =>
    if i ∈ cfg.ids ∧ follows i ∧ (net.ca i).hostToPeerId = none then
      let out := (net.ca i).startDKG S (cfg.peers i) cfg.threshold cfg.n (cfg.secret i)
        (cfg.blinding i)
      some { net.put i out.state out.sent with
        started := if out.state.myCommitmentHash.isSome then insert i net.started
                   else net.started }
    else none
  | .connectionUp i j =>
    if i ∈ net.started ∧ j ∈ cfg.ids ∧ j ≠ i then
      let out := (net.ca i).onOutConnectionUp (cfg.host j)
      some { net.put i out.state out.sent with up := insert (i, j) net.up }
    else none
  | .deliver i j =>
    if j ∈ cfg.ids ∧ follows j then
      match net.chan i (cfg.host j) with
      | [] => none
      | m :: rest =>
        let out := (net.ca j).handle S m
        some ((net.setChan i (cfg.host j) rest).put j out.state out.sent)
    else none
  | .inject b j m =>
    if follows b then none
    else some (net.setChan b (cfg.host j) (net.chan b (cfg.host j) ++ [m]))

end Net

/-! ## Ids and peers -/

namespace Config

variable {p : ℕ} (cfg : Config p)

@[simp] theorem mem_ids {j : ℤ} : j ∈ cfg.ids ↔ 1 ≤ j ∧ j ≤ cfg.n := by
  simp only [ids, List.mem_map, List.mem_range]
  constructor
  · rintro ⟨k, hk, rfl⟩
    omega
  · rintro ⟨h1, hn⟩
    exact ⟨(j - 1).toNat, by omega, by omega⟩

theorem ids_nodup : cfg.ids.Nodup := by
  refine List.Nodup.map ?_ List.nodup_range
  intro a b h
  have h' : (a : ℤ) + 1 = b + 1 := h
  omega

theorem ids_length : cfg.ids.length = cfg.n := by simp [ids]

theorem ids_card : cfg.ids.toFinset.card = cfg.n := by
  rw [List.toFinset_card_of_nodup cfg.ids_nodup, ids_length]

/-- The counting of the phase checks: `n` of the ids are all of them. -/
theorem eq_ids_of_card {A : Finset ℤ} (hsub : A ⊆ cfg.ids.toFinset) (hn : cfg.n ≤ A.card) :
    A = cfg.ids.toFinset :=
  Finset.eq_of_subset_of_card_le hsub (cfg.ids_card.trans_le hn)

theorem mem_peers {i k : ℤ} {h : Host} :
    (h, k) ∈ cfg.peers i ↔ k ∈ cfg.ids ∧ k ≠ i ∧ h = cfg.host k := by
  simp only [peers, List.mem_map, List.mem_filter, decide_eq_true_eq, Prod.mk.injEq]
  constructor
  · rintro ⟨a, ⟨ha, hai⟩, rfl, rfl⟩
    exact ⟨ha, hai, rfl⟩
  · rintro ⟨ha, hai, rfl⟩
    exact ⟨k, ⟨ha, hai⟩, rfl, rfl⟩

theorem peers_length {i : ℤ} (hi : i ∈ cfg.ids) : (cfg.peers i).length + 1 = cfg.n := by
  rw [peers, List.length_map]
  have hfilter : cfg.ids.filter (· ≠ i) = cfg.ids.erase i := by
    rw [cfg.ids_nodup.erase_eq_filter]
    refine List.filter_congr fun x _ => ?_
    by_cases hx : x = i
    · simp [hx]
    · simp [hx]
  rw [hfilter, List.length_erase_of_mem hi, ids_length]
  have hpos : 0 < cfg.n := by
    have := (cfg.mem_ids).mp hi
    omega
  omega

/-- `hostToPeerId.get` on the configured map. -/
theorem lookup_peers {i k : ℤ} {h : Host} (hk : (cfg.peers i).lookup h = some k) :
    k ∈ cfg.ids ∧ k ≠ i ∧ h = cfg.host k := by
  rw [← cfg.mem_peers]
  generalize cfg.peers i = l at hk
  induction l with
  | nil => simp at hk
  | cons e l ih =>
    obtain ⟨h', k'⟩ := e
    rw [List.lookup_cons] at hk
    cases hb : h == h' with
    | true =>
      rw [hb] at hk
      have he : h = h' := eq_of_beq hb
      subst he
      simp only [Option.some.injEq] at hk
      subst hk
      exact List.mem_cons_self ..
    | false =>
      rw [hb] at hk
      exact List.mem_cons_of_mem _ (ih hk)

theorem lookup_peers_host {i j : ℤ} (hj : j ∈ cfg.ids) (hne : j ≠ i) :
    (cfg.peers i).lookup (cfg.host j) = some j := by
  have hsome : ((cfg.peers i).lookup (cfg.host j)).isSome := by
    have hm := (cfg.mem_peers (i := i)).mpr ⟨hj, hne, rfl⟩
    generalize cfg.peers i = l at hm
    induction l with
    | nil => simp at hm
    | cons e l ih =>
      rw [List.lookup_cons]
      rcases List.mem_cons.mp hm with rfl | hm'
      · simp
      · cases hb : cfg.host j == e.1 with
        | true => rfl
        | false => exact ih hm'
  obtain ⟨k, hk⟩ := Option.isSome_iff_exists.mp hsome
  obtain ⟨-, -, he⟩ := cfg.lookup_peers hk
  rw [hk, cfg.host_inj he]

end Config

/-! ## Sent messages, host by host -/

section Sent

variable {p : ℕ} {G1 G2 : Type}

@[simp] theorem sentTo_nil (h : Host) : sentTo ([] : List (Host × DkgMsg p G1 G2)) h = [] := rfl

theorem mem_sentTo {l : List (Host × DkgMsg p G1 G2)} {h : Host} {m : DkgMsg p G1 G2} :
    m ∈ sentTo l h ↔ (h, m) ∈ l := by
  simp only [sentTo, List.mem_map, List.mem_filter, decide_eq_true_eq]
  constructor
  · rintro ⟨e, ⟨he, rfl⟩, rfl⟩
    exact he
  · intro he
    exact ⟨(h, m), ⟨he, rfl⟩, rfl⟩

theorem sentTo_append (l l' : List (Host × DkgMsg p G1 G2)) (h : Host) :
    sentTo (l ++ l') h = sentTo l h ++ sentTo l' h := by
  simp [sentTo]

theorem sentTo_cons_self (h : Host) (m : DkgMsg p G1 G2) (l : List (Host × DkgMsg p G1 G2)) :
    sentTo ((h, m) :: l) h = m :: sentTo l h := by
  simp [sentTo]

theorem sentTo_cons_ne {h h' : Host} (hne : h' ≠ h) (m : DkgMsg p G1 G2)
    (l : List (Host × DkgMsg p G1 G2)) : sentTo ((h', m) :: l) h = sentTo l h := by
  simp [sentTo, hne]

/-- A broadcast over the peers of `i`, restricted to some of them, puts at most
one message into each channel. -/
theorem sentTo_peers (cfg : Config p) (i k : ℤ) (P : ℤ → Bool) (f : ℤ → DkgMsg p G1 G2) :
    sentTo (((cfg.peers i).filter fun e => P e.2).map fun e => (e.1, f e.2)) (cfg.host k)
      = if k ∈ cfg.ids ∧ k ≠ i ∧ P k = true then [f k] else [] := by
  -- one message to each id of the list; hosts of different ids differ
  have key : ∀ l : List ℤ, l.Nodup →
      sentTo (((l.map fun k => (cfg.host k, k)).filter fun e => P e.2).map
        fun e => (e.1, f e.2)) (cfg.host k) = if k ∈ l ∧ P k = true then [f k] else [] := by
    intro l
    induction l with
    | nil => intro _; simp
    | cons a l ih =>
      intro hnd
      obtain ⟨hal, hnd'⟩ := List.nodup_cons.mp hnd
      have hrest := ih hnd'
      rw [List.map_cons, List.filter_cons]
      dsimp only
      by_cases hPa : P a = true
      · rw [if_pos hPa, List.map_cons]
        by_cases hka : k = a
        · subst hka
          rw [sentTo_cons_self, hrest, if_neg (fun h => hal h.1),
            if_pos ⟨List.mem_cons_self .., hPa⟩]
        · rw [sentTo_cons_ne (fun he => hka (cfg.host_inj he).symm), hrest]
          simp [hka]
      · rw [if_neg hPa, hrest]
        by_cases hka : k = a
        · subst hka
          simp [hPa]
        · simp [hka]
  have h := key (cfg.ids.filter (· ≠ i)) (cfg.ids_nodup.filter _)
  rw [show ((cfg.ids.filter (· ≠ i)).map fun k => (cfg.host k, k)) = cfg.peers i from rfl] at h
  rw [h]
  simp [and_assoc]

end Sent

/-! ## The network after a CA has moved -/

namespace Net

variable {p : ℕ} {G1 G2 : Type}

theorem put_ca_self (net : Net p G1 G2) (j : ℤ) (s : CAState p G1 G2)
    (l : List (Host × DkgMsg p G1 G2)) : (net.put j s l).ca j = s := by
  simp [put]

theorem put_ca_ne (net : Net p G1 G2) {i j : ℤ} (h : i ≠ j) (s : CAState p G1 G2)
    (l : List (Host × DkgMsg p G1 G2)) : (net.put j s l).ca i = net.ca i := by
  simp [put, h]

theorem put_chan_self (net : Net p G1 G2) (j : ℤ) (s : CAState p G1 G2)
    (l : List (Host × DkgMsg p G1 G2)) (h : Host) :
    (net.put j s l).chan j h = net.chan j h ++ sentTo l h := by
  simp [put]

theorem put_chan_ne (net : Net p G1 G2) {i j : ℤ} (hij : i ≠ j) (s : CAState p G1 G2)
    (l : List (Host × DkgMsg p G1 G2)) (h : Host) : (net.put j s l).chan i h = net.chan i h := by
  simp [put, hij]

theorem put_finalized_ne (net : Net p G1 G2) {i j : ℤ} (hij : i ≠ j) (s : CAState p G1 G2)
    (l : List (Host × DkgMsg p G1 G2)) : (net.put j s l).finalized i = net.finalized i := by
  unfold put
  dsimp only
  split
  · exact Function.update_of_ne hij _ _
  · rfl

theorem put_finalized_new (net : Net p G1 G2) {j : ℤ} {s : CAState p G1 G2}
    (hst : (net.ca j).state ≠ .done) (hs : s.state = .done)
    (l : List (Host × DkgMsg p G1 G2)) :
    (net.put j s l).finalized j = some s.qualifiedIds.toFinset := by
  unfold put
  dsimp only
  rw [if_pos ⟨hst, hs⟩, Function.update_self]

theorem put_finalized_old (net : Net p G1 G2) {j : ℤ} (hst : (net.ca j).state = .done)
    (s : CAState p G1 G2) (l : List (Host × DkgMsg p G1 G2)) :
    (net.put j s l).finalized j = net.finalized j := by
  unfold put
  dsimp only
  rw [if_neg fun h => h.1 hst]

theorem setChan_self (net : Net p G1 G2) (i : ℤ) (h : Host) (l : List (DkgMsg p G1 G2)) :
    (net.setChan i h l).chan i h = l := by
  simp [setChan]

theorem setChan_ne (net : Net p G1 G2) {i i' : ℤ} {h h' : Host} (hne : ¬ (i' = i ∧ h' = h))
    (l : List (DkgMsg p G1 G2)) : (net.setChan i h l).chan i' h' = net.chan i' h' := by
  simp [setChan, hne]

section Steps

variable {GT : Type} [CommGroup G1] [CommGroup G2] [CommGroup GT] [DecidableEq G1]

/-- What each event can do, with its guards. -/
inductive Steps (S : CryptimeleonSetup p G1 G2 GT) (cfg : Config p) (follows : ℤ → Bool)
    (net : Net p G1 G2) : Event p G1 G2 → Net p G1 G2 → Prop
  | startDKG (i : ℤ) (out : Result p G1 G2) (hi : i ∈ cfg.ids) (hf : follows i = true)
      (hnone : (net.ca i).hostToPeerId = none)
      (hout : out = (net.ca i).startDKG S (cfg.peers i) cfg.threshold cfg.n (cfg.secret i)
        (cfg.blinding i)) :
      Steps S cfg follows net (.startDKG i)
        { net.put i out.state out.sent with
          started := if out.state.myCommitmentHash.isSome then insert i net.started
                     else net.started }
  | connectionUp (i j : ℤ) (hs : i ∈ net.started) (hj : j ∈ cfg.ids) (hji : j ≠ i) :
      Steps S cfg follows net (.connectionUp i j)
        { net.put i ((net.ca i).onOutConnectionUp (cfg.host j)).state
            ((net.ca i).onOutConnectionUp (cfg.host j)).sent with up := insert (i, j) net.up }
  | deliver (i j : ℤ) (m : DkgMsg p G1 G2) (rest : List (DkgMsg p G1 G2)) (hj : j ∈ cfg.ids)
      (hf : follows j = true) (hch : net.chan i (cfg.host j) = m :: rest) :
      Steps S cfg follows net (.deliver i j)
        ((net.setChan i (cfg.host j) rest).put j ((net.ca j).handle S m).state
          ((net.ca j).handle S m).sent)
  | inject (b j : ℤ) (m : DkgMsg p G1 G2) (hb : follows b = false) :
      Steps S cfg follows net (.inject b j m)
        (net.setChan b (cfg.host j) (net.chan b (cfg.host j) ++ [m]))

variable {S : CryptimeleonSetup p G1 G2 GT} {cfg : Config p} {follows : ℤ → Bool}
  {net net' : Net p G1 G2} {e : Event p G1 G2}

theorem step_cases (h : net.step S cfg follows e = some net') : Steps S cfg follows net e net' := by
  cases e with
  | startDKG i =>
    simp only [step] at h
    split at h
    next hc =>
      rw [← Option.some.inj h]
      exact .startDKG i _ hc.1 hc.2.1 hc.2.2 rfl
    · exact absurd h (by simp)
  | connectionUp i j =>
    simp only [step] at h
    split at h
    next hc =>
      rw [← Option.some.inj h]
      exact .connectionUp i j hc.1 hc.2.1 hc.2.2
    · exact absurd h (by simp)
  | deliver i j =>
    simp only [step] at h
    split at h
    next hc =>
      split at h
      · exact absurd h (by simp)
      next m rest hch =>
        rw [← Option.some.inj h]
        exact .deliver i j m rest hc.1 hc.2 hch
    · exact absurd h (by simp)
  | inject b j m =>
    simp only [step] at h
    split at h
    · exact absurd h (by simp)
    next hb =>
      rw [← Option.some.inj h]
      exact .inject b j m (by simpa using hb)

/-- **What a step does to CA `k`**: nothing, or it starts, or one of its
connections comes up, or it receives the oldest message of a channel. -/
theorem step_ca (h : net.step S cfg follows e = some net') (k : ℤ) :
    net'.ca k = net.ca k
      ∨ (e = .startDKG k ∧ k ∈ cfg.ids ∧ (net.ca k).hostToPeerId = none
        ∧ net'.ca k = ((net.ca k).startDKG S (cfg.peers k) cfg.threshold cfg.n (cfg.secret k)
          (cfg.blinding k)).state)
      ∨ (∃ j, e = .connectionUp k j ∧ (k ∈ net.started ∧ j ∈ cfg.ids ∧ j ≠ k)
        ∧ net'.ca k = ((net.ca k).onOutConnectionUp (cfg.host j)).state)
      ∨ ∃ i m rest, e = .deliver i k ∧ (k ∈ cfg.ids ∧ follows k = true)
        ∧ net.chan i (cfg.host k) = m :: rest ∧ net'.ca k = ((net.ca k).handle S m).state := by
  cases step_cases h with
  | startDKG i out hi hf hnone hout =>
    by_cases hki : k = i
    · subst hki hout
      exact Or.inr (Or.inl ⟨rfl, hi, hnone, by dsimp only; rw [put_ca_self]⟩)
    · exact Or.inl (by dsimp only; rw [put_ca_ne _ hki])
  | connectionUp i j hs hj hji =>
    by_cases hki : k = i
    · subst hki
      exact Or.inr (Or.inr (Or.inl ⟨j, rfl, ⟨hs, hj, hji⟩, by dsimp only; rw [put_ca_self]⟩))
    · exact Or.inl (by dsimp only; rw [put_ca_ne _ hki])
  | deliver i j m rest hj hf hch =>
    by_cases hkj : k = j
    · subst hkj
      exact Or.inr (Or.inr (Or.inr ⟨i, m, rest, rfl, ⟨hj, hf⟩, hch, put_ca_self ..⟩))
    · exact Or.inl (put_ca_ne _ hkj _ _)
  | inject b j m hb => exact Or.inl rfl

end Steps

end Net

end Dittor.Dkg
