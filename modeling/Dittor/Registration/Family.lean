import Dittor.Registration.DAServer
import Mathlib.Logic.Relation

/-!
# One identity, one family group

The registry over whole runs: any sequence of requests, through the Babel
handler or the TCP bridge, with every field chosen by the requester. The state
keeps, next to the `DA`, the list of accepted registrations (`accepted`), which
nothing reads.

What the code guarantees is local to a key: the nodes of one entry are connected
under "shares a registered family id", because a node is only added to an
existing entry when it shares one (`registerAt_cases`). A key is a context and a
pseudonym, and a public key has one pseudonym *in each context*. So the nodes of
one identity are connected as long as the identity is used in one context
(`one_identity_one_family`), and two contexts give it two groups, since neither
entry point compares the context with anything.
-/

namespace Dittor.Registration

open Dittor.Lib Dittor.Crypto Dittor.Dkg Relation

/-! ## The key of an entry -/

section Key

theorem hexDigit_ne_bar {n : ℕ} (h : n < 16) : hexDigit n ≠ '|' := by
  have hall : ∀ n < 16, hexDigit n ≠ '|' := by decide
  exact hall n h

theorem hexDigit_inj {m n : ℕ} (hm : m < 16) (hn : n < 16) (h : hexDigit m = hexDigit n) :
    m = n := by
  have hall : ∀ m < 16, ∀ n < 16, hexDigit m = hexDigit n → m = n := by decide
  exact hall m hm n hn h

theorem bar_notMem_hexText (bytes : List UInt8) : '|' ∉ hexText bytes := by
  unfold hexText
  rw [List.mem_flatMap]
  rintro ⟨b, -, hb⟩
  have hlt : b.toNat < 256 := b.toNat_lt
  rcases List.mem_cons.mp hb with h | h
  · exact hexDigit_ne_bar (by omega) h.symm
  · exact hexDigit_ne_bar (by omega) (List.mem_singleton.mp h).symm

theorem hexText_injective : Function.Injective hexText := by
  intro a
  induction a with
  | nil =>
    intro b h
    cases b with
    | nil => rfl
    | cons y ys => simp [hexText] at h
  | cons x xs ih =>
    intro b h
    cases b with
    | nil => simp [hexText] at h
    | cons y ys =>
      simp only [hexText, List.flatMap_cons, List.cons_append, List.nil_append,
        List.cons.injEq] at h
      obtain ⟨hhi, hlo, htail⟩ := h
      have hx : x.toNat < 256 := x.toNat_lt
      have hy : y.toNat < 256 := y.toNat_lt
      have h1 := hexDigit_inj (by omega) (by omega) hhi
      have h2 := hexDigit_inj (by omega) (by omega) hlo
      rw [UInt8.toNat_inj.mp (show x.toNat = y.toNat by omega), ih htail]

/-- The digits contain no bar, so the last bar of a key ends the context. -/
theorem pseudonymKey_inj {G1 G2 GT : Type} {codec : Codec G1 G2 GT}
    (hinj : Function.Injective codec.uniqueT) {c c' : Text} {y y' : GT}
    (h : pseudonymKey codec c y = pseudonymKey codec c' y') : c = c' ∧ y = y' := by
  obtain ⟨hc, hhex⟩ := append_cons_inj_right (bar_notMem_hexText _) (bar_notMem_hexText _) h
  exact ⟨hc, hinj (hexText_injective hhex)⟩

end Key

/-! ## The entries are connected -/

section Entry

/-- Two nodes of an entry share a registered family id. -/
def EntryShares (E : Entry) (n n' : Text) : Prop :=
  ∃ ids ids' f, E.lookup n = some ids ∧ E.lookup n' = some ids' ∧ f ∈ ids ∧ f ∈ ids'

/-- Every two nodes of an entry are linked by shared family ids. -/
def EntryConnected (E : Entry) : Prop :=
  ∀ n n', n ∈ E → n' ∈ E → ReflTransGen (EntryShares E) n n'

instance (E : Entry) : Std.Symm (EntryShares E) where
  symm n n' h := by
    obtain ⟨ids, ids', f, h, h', hf, hf'⟩ := h
    exact ⟨ids', ids, f, h', h, hf', hf⟩

theorem mem_singleton {n m : Text} {ids : Finset Text} :
    m ∈ (AList.singleton n ids : Entry) ↔ m = n := by
  rw [AList.mem_keys, AList.keys_singleton, List.mem_singleton]

theorem entryConnected_singleton (n : Text) (ids : Finset Text) :
    EntryConnected (AList.singleton n ids) := by
  intro a b ha hb
  rw [mem_singleton.mp ha, mem_singleton.mp hb]

/-- A new node leaves the shared ids of the others alone. -/
theorem entryShares_insert {E : Entry} {n : Text} (hn : n ∉ E) (ids : Finset Text) {a b : Text}
    (h : EntryShares E a b) : EntryShares (E.insert n ids) a b := by
  obtain ⟨ia, ib, f, ha, hb, hfa, hfb⟩ := h
  have hne : ∀ {m i}, E.lookup m = some i → m ≠ n := by
    rintro m i hm rfl
    exact hn (AList.lookup_isSome.mp (by rw [hm]; rfl))
  exact ⟨ia, ib, f, by rw [AList.lookup_insert_ne (hne ha), ha],
    by rw [AList.lookup_insert_ne (hne hb), hb], hfa, hfb⟩

/-- Adding a node with a known family id keeps an entry connected. -/
theorem EntryConnected.insert {E : Entry} (hE : EntryConnected E) {n : Text} (hn : n ∉ E)
    {ids : Finset Text} (hshare : ¬ Disjoint (knownFamilyIds E) ids) :
    EntryConnected (AList.insert n ids E) := by
  obtain ⟨f, hknown, hf⟩ := Finset.not_disjoint_iff.mp hshare
  obtain ⟨m, im, hm, hfm⟩ := mem_knownFamilyIds.mp hknown
  have hmE : m ∈ E := AList.lookup_isSome.mp (by rw [hm]; rfl)
  have hne : m ≠ n := by
    rintro rfl
    exact hn hmE
  -- `m` is the node of the entry that the new one is linked to
  have hlink : EntryShares (E.insert n ids) m n :=
    ⟨im, ids, f, by rw [AList.lookup_insert_ne hne, hm], AList.lookup_insert E, hfm, hf⟩
  have hold : ∀ {a b}, a ∈ E → b ∈ E → ReflTransGen (EntryShares (E.insert n ids)) a b :=
    fun ha hb => (hE _ _ ha hb).lift id fun _ _ h => entryShares_insert hn ids h
  have hto : ∀ {a}, a ∈ E.insert n ids → ReflTransGen (EntryShares (E.insert n ids)) m a := by
    intro a ha
    rcases (AList.mem_insert E).mp ha with rfl | ha
    · exact .single hlink
    · exact hold hmE ha
  intro a b ha hb
  exact (Std.Symm.symm _ _ (hto ha)).trans (hto hb)

/-- **An accepted registration** at a key: the entry there now has the node, keeps
its others and gains no more, stays connected, and the other keys are as before. -/
theorem registerAt_accepted {Rg R' : Registrations} {k n : Text} {ids : Finset Text}
    (h : registerAt Rg k n ids = (R', true)) :
    ∃ E', R'.lookup k = some E' ∧ (∀ k', k' ≠ k → R'.lookup k' = Rg.lookup k')
      ∧ (∀ m, m ∈ E' ↔ m = n ∨ ∃ E, Rg.lookup k = some E ∧ m ∈ E)
      ∧ ((∀ E, Rg.lookup k = some E → EntryConnected E) → EntryConnected E') := by
  rcases registerAt_cases Rg k n ids with ⟨hnone, h1⟩ | ⟨E, hE, ⟨hn, h1⟩ | ⟨-, -, h1⟩ | ⟨hn, hd, h1⟩⟩
  · obtain rfl : Rg.insert k (AList.singleton n ids) = R' := (Prod.mk.inj (h1.symm.trans h)).1
    refine ⟨_, AList.lookup_insert Rg, fun k' hk => AList.lookup_insert_ne hk, ?_,
      fun _ => entryConnected_singleton n ids⟩
    intro m
    rw [mem_singleton, hnone]
    simp
  · obtain rfl : Rg = R' := (Prod.mk.inj (h1.symm.trans h)).1
    refine ⟨E, hE, fun _ _ => rfl, ?_, fun hc => hc E hE⟩
    intro m
    rw [hE]
    constructor
    · exact fun hm => .inr ⟨E, rfl, hm⟩
    · rintro (rfl | ⟨E', hE', hm⟩)
      · exact hn
      · rwa [Option.some.inj hE']
  · exact absurd (Prod.mk.inj (h1.symm.trans h)).2 (by simp)
  · obtain rfl : Rg.insert k (E.insert n ids) = R' := (Prod.mk.inj (h1.symm.trans h)).1
    refine ⟨_, AList.lookup_insert Rg, fun k' hk => AList.lookup_insert_ne hk, ?_,
      fun hc => (hc E hE).insert hn hd⟩
    intro m
    rw [AList.mem_insert, hE]
    simp

end Entry

/-! ## Runs of requests -/

/-- A registration that was accepted. -/
structure Accepted (G2 GT : Type) where
  userPublicKeyG2 : G2
  context : Text
  nym : GT
  nodeId : Text
deriving DecidableEq

/-- The directory authority with the history of what it accepted. -/
structure Registry (G2 GT : Type) where
  da : DA G2
  accepted : List (Accepted G2 GT) := []

/-- A request, by the entry point it takes. -/
inductive Request (p : ℕ) (G1 G2 GT : Type) where
  /-- `DAProtocol.handleRegisterRelay` -/
  | relay (msg : RegisterRelayMsg p G1 G2 GT) (sender : Host)
  /-- A line that `DAServer` reads. -/
  | line (request : Text)

section Run

variable {p : ℕ} {G1 G2 GT : Type}

/-- The registration that a request asks for. -/
def Request.message (R : Restorer p G1 G2 GT) :
    Request p G1 G2 GT → Option (RegisterRelayMsg p G1 G2 GT)
  | .relay msg _ => some msg
  | .line request =>
    if validatePrefix.isPrefixOf request ∧ 9 ≤ request.length then
      parseRequest R (javaTrim (request.drop 9))
    else none

/-- What is remembered of an accepted registration. -/
def RegisterRelayMsg.record (msg : RegisterRelayMsg p G1 G2 GT) : Accepted G2 GT :=
  ⟨msg.userPublicKeyG2, msg.context, msg.vrfData.nym, msg.nodeId⟩

/-- The key of the entry a registration went to. -/
def Accepted.key (codec : Codec G1 G2 GT) (a : Accepted G2 GT) : Text :=
  pseudonymKey codec a.context a.nym

variable [CommGroup G1] [CommGroup G2] [CommGroup GT] [DecidableEq GT]
  (S : CryptimeleonSetup p G1 G2 GT) (R : Restorer p G1 G2 GT)

/-- The request at its entry point: the registry after it, and whether the answer was yes. -/
def Request.handle (da : DA G2) : Request p G1 G2 GT → DA G2 × Bool
  | .relay msg sender =>
    let o := handleRegisterRelay S da msg sender
    (o.state, o.sent.any fun r => r.2.success)
  | .line request =>
    let o := handleRequest R S da request
    (o.1, o.2 = some "VALID".toList)

/-- One request, with the history. -/
def Registry.step (s : Registry G2 GT) (e : Request p G1 G2 GT) : Option (Registry G2 GT) :=
  let o := e.handle S R s.da
  some { da := o.1
         accepted := if o.2 then (e.message R).toList.map (·.record) ++ s.accepted else s.accepted }

theorem decide_answer (b : Bool) :
    decide (some (if b = true then "VALID".toList else "INVALID".toList) = some "VALID".toList)
      = b := by
  cases b <;> decide

/-- Both entry points come down to `register` on the message. -/
theorem Request.handle_eq (da : DA G2) (e : Request p G1 G2 GT) :
    e.handle S R da = match e.message R with
      | none => (da, false)
      | some msg => register S da msg := by
  cases e with
  | relay msg sender =>
    obtain ⟨reply, hsent, -, hreg⟩ := handleRegisterRelay_reply S da msg sender
    simp only [Request.handle, Request.message, ← hreg, hsent, List.any_cons, List.any_nil,
      Bool.or_false]
  | line request =>
    by_cases hpre : validatePrefix.isPrefixOf request ∧ 9 ≤ request.length
    · simp only [Request.handle, Request.message, handleRequest, if_pos hpre]
      exact Prod.ext rfl (decide_answer _)
    · simp only [Request.handle, Request.message, handleRequest, if_neg hpre]
      rfl

variable {S R}

/-- **What one request can do**: nothing, or enter a message that passed both
checks and that `registerAt` took. -/
theorem Registry.step_cases {s t : Registry G2 GT} {e : Request p G1 G2 GT}
    (h : s.step S R e = some t) :
    t = s ∨ ∃ msg R', e.message R = some msg ∧ authorizes S s.da msg = true
      ∧ registerAt s.da.registrations (msg.record.key S.codec) msg.nodeId msg.familyIds.toFinset
        = (R', true)
      ∧ t = { da := { s.da with registrations := R' }, accepted := msg.record :: s.accepted } := by
  unfold Registry.step at h
  rw [Request.handle_eq] at h
  cases hmsg : e.message R with
  | none =>
    rw [hmsg] at h
    exact .inl (Option.some.inj h).symm
  | some msg =>
    rw [hmsg] at h
    simp only [register] at h
    split at h
    next hauth =>
      rcases hreg : registerAt s.da.registrations (msg.record.key S.codec) msg.nodeId
        msg.familyIds.toFinset with ⟨R', b⟩
      have hnode : s.da.registerNode S msg.context msg.vrfData.nym msg.nodeId
          msg.familyIds.toFinset = ({ s.da with registrations := R' }, b) := by
        unfold DA.registerNode
        rw [show pseudonymKey S.codec msg.context msg.vrfData.nym = msg.record.key S.codec from rfl,
          hreg]
      rw [hnode] at h
      cases b with
      | true => exact .inr ⟨msg, R', rfl, hauth, hreg, (Option.some.inj h).symm⟩
      | false =>
        -- a refusal changes nothing
        left
        have hsame : R' = s.da.registrations := by
          rcases registerAt_cases s.da.registrations (msg.record.key S.codec) msg.nodeId
            msg.familyIds.toFinset with ⟨-, h1⟩ | ⟨E, -, ⟨-, h1⟩ | ⟨-, -, h1⟩ | ⟨-, -, h1⟩⟩
          all_goals simp_all
        subst hsame
        exact (Option.some.inj h).symm
    next => exact .inl (Option.some.inj h).symm

end Run

/-! ## The groups of an identity -/

section Group

variable {p : ℕ} {G1 G2 GT : Type} [CommGroup G1] [CommGroup G2] [CommGroup GT]
  (S : CryptimeleonSetup p G1 G2 GT) (R : Restorer p G1 G2 GT)

/-- The family ids the registry holds for an accepted node. -/
def registeredFamily (s : Registry G2 GT) (a : Accepted G2 GT) : Option (Finset Text) :=
  (s.da.registrations.lookup (a.key S.codec)).bind fun E => E.lookup a.nodeId

/-- Two nodes accepted for one public key share a registered family id. -/
def SharesFamily (s : Registry G2 GT) (pk : G2) (n n' : Text) : Prop :=
  ∃ a ∈ s.accepted, ∃ b ∈ s.accepted, (a.userPublicKeyG2 = pk ∧ a.nodeId = n)
    ∧ (b.userPublicKeyG2 = pk ∧ b.nodeId = n')
    ∧ ∃ ids ids' f, registeredFamily S s a = some ids ∧ registeredFamily S s b = some ids'
      ∧ f ∈ ids ∧ f ∈ ids'

/-- What holds of the registry and its history after any sequence of requests. -/
structure RegistryInv (s : Registry G2 GT) : Prop where
  /-- An accepted node is in its entry. -/
  entered : ∀ a ∈ s.accepted,
    ∃ E, s.da.registrations.lookup (a.key S.codec) = some E ∧ a.nodeId ∈ E
  connected : ∀ k E, s.da.registrations.lookup k = some E → EntryConnected E
  /-- A node of an entry was accepted under its key. -/
  recorded : ∀ k E, s.da.registrations.lookup k = some E → ∀ n ∈ E,
    ∃ a ∈ s.accepted, a.key S.codec = k ∧ a.nodeId = n
  /-- The pseudonym of an accepted registration is that of its public key. -/
  genuine : ∀ a ∈ s.accepted, ∃ y, a.userPublicKeyG2 = zpw S.pairing.g2 y
    ∧ a.nym = zpw S.pairing.gpairing (pseudonymExponent S y a.context)

variable {S R} {s t : Registry G2 GT}

theorem registryInv_init (mpkG2 : G2) : RegistryInv S ({ da := { mpkG2 } } : Registry G2 GT) where
  entered a h := absurd h List.not_mem_nil
  connected k E h := by simp at h
  recorded k E h := by simp at h
  genuine a h := absurd h List.not_mem_nil

variable [Fact p.Prime] [ExpGroup p G2] [ExpGroup p GT] [DecidableEq GT]

/-- A message that passed the checks carries the pseudonym of its public key. -/
theorem genuine_of_authorizes {da : DA G2} {msg : RegisterRelayMsg p G1 G2 GT}
    (h : authorizes S da msg = true) :
    ∃ y, msg.userPublicKeyG2 = zpw S.pairing.g2 y
      ∧ msg.vrfData.nym = zpw S.pairing.gpairing (pseudonymExponent S y msg.context) := by
  obtain ⟨y, hy⟩ := S.pairing.gen2 msg.userPublicKeyG2
  unfold authorizes DA.verifyVrf at h
  rw [Bool.and_eq_true, hy, isValid_iff] at h
  exact ⟨y, hy, h.1.2.2⟩

/-- One request keeps the invariant, whatever its context. -/
theorem RegistryInv.step (h : RegistryInv S s) {e : Request p G1 G2 GT}
    (hst : s.step S R e = some t) : RegistryInv S t := by
  rcases Registry.step_cases hst with rfl | ⟨msg, R', -, hauth, hreg, rfl⟩
  · exact h
  · obtain ⟨E', hE', hother, hmem, hconn⟩ := registerAt_accepted hreg
    refine ⟨?_, ?_, ?_, ?_⟩
    · intro a ha
      by_cases hk : a.key S.codec = msg.record.key S.codec
      · refine ⟨E', by rw [hk]; exact hE', (hmem a.nodeId).mpr ?_⟩
        rcases List.mem_cons.mp ha with rfl | ha
        · exact .inl rfl
        · obtain ⟨E, hE, hn⟩ := h.entered a ha
          exact .inr ⟨E, hk ▸ hE, hn⟩
      · rcases List.mem_cons.mp ha with rfl | ha
        · exact absurd rfl hk
        · obtain ⟨E, hE, hn⟩ := h.entered a ha
          exact ⟨E, (hother _ hk).trans hE, hn⟩
    · intro k E hE
      by_cases hk : k = msg.record.key S.codec
      · subst hk
        rw [← Option.some.inj (hE'.symm.trans hE)]
        exact hconn fun E₀ hE₀ => h.connected _ E₀ hE₀
      · exact h.connected k E ((hother k hk).symm.trans hE)
    · intro k E hE n hn
      by_cases hk : k = msg.record.key S.codec
      · subst hk
        rw [← Option.some.inj (hE'.symm.trans hE)] at hn
        rcases (hmem n).mp hn with rfl | ⟨E₀, hE₀, hn₀⟩
        · exact ⟨msg.record, List.mem_cons_self, rfl, rfl⟩
        · obtain ⟨a, ha, hak⟩ := h.recorded _ E₀ hE₀ n hn₀
          exact ⟨a, List.mem_cons_of_mem _ ha, hak⟩
      · obtain ⟨a, ha, hak⟩ := h.recorded k E ((hother k hk).symm.trans hE) n hn
        exact ⟨a, List.mem_cons_of_mem _ ha, hak⟩
    · intro a ha
      rcases List.mem_cons.mp ha with rfl | ha
      · exact genuine_of_authorizes hauth
      · exact h.genuine a ha

variable (S R) in
/-- The condition on a request: if it passes the checks, the public key has not
been accepted in another context before. -/
def KeepsContext (s : Registry G2 GT) (e : Request p G1 G2 GT) : Prop :=
  ∀ msg ∈ e.message R, authorizes S s.da msg = true →
    ∀ a ∈ s.accepted, a.userPublicKeyG2 = msg.userPublicKeyG2 → a.context = msg.context

instance [DecidableEq G2] (s : Registry G2 GT) (e : Request p G1 G2 GT) :
    Decidable (KeepsContext S R s e) :=
  inferInstanceAs (Decidable (∀ msg ∈ e.message R, authorizes S s.da msg = true →
    ∀ a ∈ s.accepted, a.userPublicKeyG2 = msg.userPublicKeyG2 → a.context = msg.context))

/-- Every public key was accepted in one context only. -/
def OneContext (s : Registry G2 GT) : Prop :=
  ∀ a ∈ s.accepted, ∀ b ∈ s.accepted, a.userPublicKeyG2 = b.userPublicKeyG2 →
    a.context = b.context

omit [Fact p.Prime] [ExpGroup p G2] [ExpGroup p GT] in
theorem OneContext.step (h : OneContext s) {e : Request p G1 G2 GT} (hok : KeepsContext S R s e)
    (hst : s.step S R e = some t) : OneContext t := by
  rcases Registry.step_cases hst with rfl | ⟨msg, R', hmsg, hauth, -, rfl⟩
  · exact h
  · have hnew := hok msg hmsg hauth
    intro a ha b hb hpk
    rcases List.mem_cons.mp ha with rfl | ha
    · rcases List.mem_cons.mp hb with rfl | hb
      · rfl
      · exact (hnew b hb hpk.symm).symm
    · rcases List.mem_cons.mp hb with rfl | hb
      · exact hnew a ha hpk
      · exact h a ha b hb hpk

omit [ExpGroup p GT] [DecidableEq GT] in
/-- Equal public keys and contexts give equal keys of the registry. -/
theorem RegistryInv.key_eq (h : RegistryInv S s) {a b : Accepted G2 GT} (ha : a ∈ s.accepted)
    (hb : b ∈ s.accepted) (hpk : a.userPublicKeyG2 = b.userPublicKeyG2)
    (hctx : a.context = b.context) : a.key S.codec = b.key S.codec := by
  obtain ⟨y, hy, hnym⟩ := h.genuine a ha
  obtain ⟨y', hy', hnym'⟩ := h.genuine b hb
  have hyy : y = y' := by
    rw [hy, hy', zpw_inj S.pairing.g2_ne_one] at hpk
    exact hpk
  unfold Accepted.key
  rw [hnym, hnym', hctx, hyy]

omit [ExpGroup p G2] [DecidableEq GT] in
/-- Conversely an entry holds nodes of one public key only. -/
theorem RegistryInv.pk_eq (h : RegistryInv S s) (hinj : Function.Injective S.codec.uniqueT)
    {a b : Accepted G2 GT} (ha : a ∈ s.accepted) (hb : b ∈ s.accepted)
    (hkey : a.key S.codec = b.key S.codec) : a.userPublicKeyG2 = b.userPublicKeyG2 := by
  obtain ⟨y, hy, hnym⟩ := h.genuine a ha
  obtain ⟨y', hy', hnym'⟩ := h.genuine b hb
  obtain ⟨hctx, hn⟩ := pseudonymKey_inj hinj hkey
  rw [hnym, hnym', hctx, pseudonym_inj] at hn
  rw [hy, hy', hn]

omit [ExpGroup p G2] [DecidableEq GT] in
/-- The nodes of an entry are linked as nodes of their public key. -/
theorem RegistryInv.shares_of_entry (h : RegistryInv S s)
    (hinj : Function.Injective S.codec.uniqueT) {a : Accepted G2 GT} (ha : a ∈ s.accepted)
    {E : Entry} (hE : s.da.registrations.lookup (a.key S.codec) = some E) {n n' : Text}
    (hs : EntryShares E n n') : SharesFamily S s a.userPublicKeyG2 n n' := by
  obtain ⟨ids, ids', f, hn, hn', hf, hf'⟩ := hs
  -- both nodes were accepted under this key, hence for this public key
  have hrec : ∀ {m i}, E.lookup m = some i → ∃ c ∈ s.accepted,
      (c.userPublicKeyG2 = a.userPublicKeyG2 ∧ c.nodeId = m) ∧ registeredFamily S s c = some i := by
    intro m i hm
    obtain ⟨c, hc, hck, hcn⟩ := h.recorded _ E hE m (AList.lookup_isSome.mp (by rw [hm]; rfl))
    refine ⟨c, hc, ⟨h.pk_eq hinj hc ha hck, hcn⟩, ?_⟩
    unfold registeredFamily
    rw [hck, hE, Option.bind_some, hcn, hm]
  obtain ⟨c, hc, hcn, hci⟩ := hrec hn
  obtain ⟨d, hd, hdn, hdi⟩ := hrec hn'
  exact ⟨c, hc, d, hd, hcn, hdn, ids, ids', f, hci, hdi, hf, hf'⟩

/-- **One identity, one family group.** In every run of requests, through either
entry point, in which no public key passes the checks in two contexts, the nodes
accepted for a public key are linked by family ids they registered. -/
theorem one_identity_one_family (hinj : Function.Injective S.codec.uniqueT) {mpkG2 : G2}
    (hrun : Run (Registry.step S R) (KeepsContext S R) { da := { mpkG2 } } s)
    {a b : Accepted G2 GT} (ha : a ∈ s.accepted) (hb : b ∈ s.accepted)
    (hpk : a.userPublicKeyG2 = b.userPublicKeyG2) :
    ReflTransGen (SharesFamily S s a.userPublicKeyG2) a.nodeId b.nodeId := by
  obtain ⟨hI, hone⟩ := hrun.invariant (I := fun s => RegistryInv S s ∧ OneContext s)
    ⟨registryInv_init mpkG2, fun a ha => absurd ha List.not_mem_nil⟩
    fun h hok hst => ⟨h.1.step hst, h.2.step hok hst⟩
  have hkey := hI.key_eq ha hb hpk (hone a ha b hb hpk)
  obtain ⟨E, hE, han⟩ := hI.entered a ha
  obtain ⟨E', hE', hbn⟩ := hI.entered b hb
  obtain rfl : E = E' := by
    rw [← hkey, hE] at hE'
    exact Option.some.inj hE'
  exact (hI.connected _ E hE _ _ han hbn).lift id fun _ _ h => hI.shares_of_entry hinj ha hE h

end Group

/-! ## Two small runs -/

/-- A library that restores nothing: both runs use the Babel entry point. -/
def noRestorer (p : ℕ) (G1 G2 GT : Type) : Restorer p G1 G2 GT :=
  ⟨fun _ => none, fun _ => none, fun _ => none, fun _ => none⟩

/-- The registration of `x = 1` under the master secret `m`, with `e` for the
exponent of its pseudonym. -/
def sampleMessage (η m : ZMod 5) (context : Text) (e : ZMod 5) (nodeId : Text)
    (familyIds : List Text) :
    RegisterRelayMsg 5 (Multiplicative (ZMod 5)) (Multiplicative (ZMod 5))
      (Multiplicative (ZMod 5)) where
  userPublicKeyG2 := .ofAdd 1
  vrfData := ⟨.ofAdd e, .ofAdd e⟩
  credentialCommitmentG1 := .ofAdd 1
  credential := .ofAdd m
  dleqProof := generateProof (productSetup 5 η) 0 1 (.ofAdd 1) (.ofAdd 1) context
  context := context
  nodeId := nodeId
  familyIds := familyIds

/-- The host of the demo's user. -/
def sampleHost : Host := ⟨"127.0.0.1", 8050⟩

/-- Two nodes of one identity in one context, with the family id they share. -/
theorem one_identity_one_family_two :
    ∃ s, Run (Registry.step (productSetup 5 2) (noRestorer ..))
        (KeepsContext (productSetup 5 2) (noRestorer ..)) { da := { mpkG2 := .ofAdd 3 } } s
      ∧ ReflTransGen (SharesFamily (productSetup 5 2) s (.ofAdd 1)) ['a'] ['b'] := by
  let m1 := sampleMessage 2 3 torContext 3 ['a'] [['f']]
  let m2 := sampleMessage 2 3 torContext 3 ['b'] [['f'], ['g']]
  have hrun : ∃ s, Run (Registry.step (productSetup 5 2) (noRestorer ..))
      (KeepsContext (productSetup 5 2) (noRestorer ..)) { da := { mpkG2 := .ofAdd 3 } } s
      ∧ s.accepted = [m2.record, m1.record] :=
    exists_run [.relay m1 sampleHost, .relay m2 sampleHost] (by decide)
  obtain ⟨s, hs, hacc⟩ := hrun
  have hinj : Function.Injective (productSetup 5 2).codec.uniqueT := by decide
  exact ⟨s, hs, one_identity_one_family hinj hs (a := m1.record) (b := m2.record) (by simp [hacc])
    (by simp [hacc]) rfl⟩

/-- The same identity in two contexts: two accepted nodes without a common family. -/
theorem two_contexts_two_families :
    ∃ s, Run (Registry.step (productSetup 5 2) (noRestorer ..)) (fun _ _ => True)
        { da := { mpkG2 := .ofAdd 3 } } s
      ∧ ∃ a ∈ s.accepted, ∃ b ∈ s.accepted, a.userPublicKeyG2 = b.userPublicKeyG2
        ∧ ¬ ReflTransGen (SharesFamily (productSetup 5 2) s a.userPublicKeyG2) a.nodeId b.nodeId := by
  let m1 := sampleMessage 2 3 torContext 3 ['a'] [['f']]
  let m2 := sampleMessage 2 3 ['d'] 1 ['b'] [['g']]
  have hrun : ∃ s, Run (Registry.step (productSetup 5 2) (noRestorer ..)) (fun _ _ => True)
      { da := { mpkG2 := .ofAdd 3 } } s
      ∧ s.accepted = [m2.record, m1.record]
      ∧ registeredFamily (productSetup 5 2) s m1.record = some {['f']}
      ∧ registeredFamily (productSetup 5 2) s m2.record = some {['g']} :=
    exists_run [.relay m1 sampleHost, .relay m2 sampleHost] (by decide)
  obtain ⟨s, hs, hacc, h1, h2⟩ := hrun
  refine ⟨s, hs, m1.record, by simp [hacc], m2.record, by simp [hacc], rfl, ?_⟩
  -- no edge joins different nodes
  have hedge : ∀ n n', SharesFamily (productSetup 5 2) s m1.record.userPublicKeyG2 n n' → n = n' := by
    rintro n n' ⟨c, hc, d, hd, ⟨-, rfl⟩, ⟨-, rfl⟩, ids, ids', f, hci, hdi, hf, hf'⟩
    rw [hacc, List.mem_cons, List.mem_singleton] at hc hd
    rcases hc with rfl | rfl <;> rcases hd with rfl | rfl
    · rfl
    · rw [h2] at hci
      rw [h1] at hdi
      simp only [Option.some.injEq] at hci hdi
      subst hci hdi
      simp_all
    · rw [h1] at hci
      rw [h2] at hdi
      simp only [Option.some.injEq] at hci hdi
      subst hci hdi
      simp_all
    · rfl
  intro hpath
  have hsame : ∀ n, ReflTransGen (SharesFamily (productSetup 5 2) s m1.record.userPublicKeyG2)
      m1.record.nodeId n → m1.record.nodeId = n := by
    intro n hn
    induction hn with
    | refl => rfl
    | tail _ he ih => exact ih.trans (hedge _ _ he)
  exact absurd (hsame _ hpath) (by decide)

end Dittor.Registration
