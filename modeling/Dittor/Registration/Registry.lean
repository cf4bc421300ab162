import Dittor.Registration.Family

/-!
# The registry on its own

Two facts the Sybil check rests on, without the protocol around it.

The first is about the table: whatever `registerNode` is called with, the nodes
stored under a key stay connected under "shares a stored family id", a stored
family set is never changed, a refusal changes nothing, and a node that is in is
accepted again with any family set. `storedFamily` is the table as a function,
and one call can only extend it (`registerAt_keeps`).

The second is about the keys of the table: a request that passes both checks, and
whose two public elements have the same logarithm `x`, carries the one pseudonym
of `x` in its context. So the key tells the context and the identity, and nothing
else: the context may contain bars itself, the digits behind the last one do not.
-/

namespace Dittor.Registration

open Dittor.Lib Dittor.Crypto Dittor.Dkg Relation

/-! ## The table -/

section Table

variable {R : Registrations} {k n : Text} {ids : Finset Text}

/-- The family set stored for a node under a key. -/
def storedFamily (R : Registrations) (k n : Text) : Option (Finset Text) :=
  (R.lookup k).bind fun E => E.lookup n

/-- Nothing stored is changed or removed. -/
def Keeps (R R' : Registrations) : Prop :=
  ∀ k n ids, storedFamily R k n = some ids → storedFamily R' k n = some ids

theorem Keeps.trans {R R' R'' : Registrations} (h : Keeps R R') (h' : Keeps R' R'') :
    Keeps R R'' :=
  fun k n ids hs => h' k n ids (h k n ids hs)

theorem storedFamily_of_mem {E : Entry} (hE : R.lookup k = some E) (hn : n ∈ E) :
    ∃ ids, storedFamily R k n = some ids := by
  obtain ⟨ids, hids⟩ := Option.isSome_iff_exists.mp (AList.lookup_isSome.mpr hn)
  refine ⟨ids, ?_⟩
  unfold storedFamily
  rw [hE]
  exact hids

/-- An entry that is replaced by a larger one. -/
theorem keeps_insert {E E' : Entry} (hE : R.lookup k = some E ∨ R.lookup k = none ∧ E = ∅)
    (hsub : ∀ m i, E.lookup m = some i → E'.lookup m = some i) : Keeps R (R.insert k E') := by
  intro k' m i hm
  unfold storedFamily at hm ⊢
  by_cases hk : k' = k
  · subst hk
    rw [AList.lookup_insert]
    rcases hE with hE | ⟨hE, -⟩
    · rw [hE] at hm
      exact hsub m i hm
    · rw [hE] at hm
      exact absurd hm (by simp)
  · rw [AList.lookup_insert_ne hk]
    exact hm

/-- **One call extends the table**, and refuses without a trace. -/
theorem registerAt_keeps (R : Registrations) (k n : Text) (ids : Finset Text) :
    Keeps R (registerAt R k n ids).1
      ∧ ((registerAt R k n ids).2 = false → (registerAt R k n ids).1 = R)
      ∧ ((registerAt R k n ids).2 = true →
        ∃ ids', storedFamily (registerAt R k n ids).1 k n = some ids') := by
  rcases registerAt_cases R k n ids with ⟨hnone, h⟩ | ⟨E, hE, ⟨hn, h⟩ | ⟨-, -, h⟩ | ⟨hn, -, h⟩⟩
  · rw [h]
    refine ⟨keeps_insert (.inr ⟨hnone, rfl⟩) fun m i hm => ?_, fun hb => absurd hb (by simp),
      fun _ => ?_⟩
    · exact absurd hm (by simp)
    · exact storedFamily_of_mem (AList.lookup_insert R) (mem_singleton.mpr rfl)
  · rw [h]
    exact ⟨fun _ _ _ hs => hs, fun _ => rfl, fun _ => storedFamily_of_mem hE hn⟩
  · rw [h]
    exact ⟨fun _ _ _ hs => hs, fun _ => rfl, fun hb => absurd hb (by simp)⟩
  · rw [h]
    refine ⟨keeps_insert (.inl hE) fun m i hm => ?_, fun hb => absurd hb (by simp), fun _ => ?_⟩
    · have hne : m ≠ n := by
        rintro rfl
        exact hn (AList.lookup_isSome.mp (by rw [hm]; rfl))
      rw [AList.lookup_insert_ne hne]
      exact hm
    · exact storedFamily_of_mem (AList.lookup_insert R) ((AList.mem_insert E).mpr (.inl rfl))

/-- A stored node is accepted with any family set. -/
theorem registerAt_stored {ids' : Finset Text} (h : storedFamily R k n = some ids') :
    registerAt R k n ids = (R, true) := by
  unfold storedFamily at h
  obtain ⟨E, hE, hn⟩ := Option.bind_eq_some_iff.mp h
  have hmem : n ∈ E := AList.lookup_isSome.mp (by rw [hn]; rfl)
  unfold registerAt
  rw [hE]
  exact if_pos hmem

/-- The test of `registerNode` on the table before the call: the key is free, the
node is stored there, or it brings a known family id. -/
def Admits (R : Registrations) (k n : Text) (ids : Finset Text) : Prop :=
  ∀ E ∈ R.lookup k, n ∈ E ∨ ¬ Disjoint (knownFamilyIds E) ids

instance (R : Registrations) (k n : Text) (ids : Finset Text) : Decidable (Admits R k n ids) :=
  (inferInstance : Decidable (∀ E ∈ R.lookup k, _))

theorem registerAt_accepts_iff (R : Registrations) (k n : Text) (ids : Finset Text) :
    (registerAt R k n ids).2 = true ↔ Admits R k n ids := by
  unfold Admits
  rcases registerAt_cases R k n ids with ⟨hnone, h⟩ | ⟨E, hE, ⟨hn, h⟩ | ⟨hn, hd, h⟩ | ⟨hn, hd, h⟩⟩
  · rw [h, hnone]
    simp
  · rw [h, hE]
    simp [hn]
  · rw [h, hE]
    simp [hn, hd]
  · rw [h, hE]
    simp [hd]

/-- A call changes the table exactly when it lets a new node in. -/
theorem registerAt_unchanged_iff (R : Registrations) (k n : Text) (ids : Finset Text) :
    (registerAt R k n ids).1 = R ↔ ¬ (Admits R k n ids ∧ storedFamily R k n = none) := by
  rw [← registerAt_accepts_iff]
  constructor
  · rintro heq ⟨hacc, hnone⟩
    obtain ⟨ids', hids⟩ := (registerAt_keeps R k n ids).2.2 hacc
    rw [heq, hnone] at hids
    exact absurd hids (by simp)
  · intro h
    cases hacc : (registerAt R k n ids).2 with
    | false => exact (registerAt_keeps R k n ids).2.1 hacc
    | true =>
      cases hst : storedFamily R k n with
      | none => exact absurd ⟨hacc, hst⟩ h
      | some ids' => rw [registerAt_stored hst]

/-- Every entry of the table is connected. -/
def AllConnected (R : Registrations) : Prop := ∀ k E, R.lookup k = some E → EntryConnected E

theorem AllConnected.registerAt (h : AllConnected R) (k n : Text) (ids : Finset Text) :
    AllConnected (registerAt R k n ids).1 := by
  cases hb : (Dittor.Crypto.registerAt R k n ids).2 with
  | false =>
    rw [(registerAt_keeps R k n ids).2.1 hb]
    exact h
  | true =>
    obtain ⟨E', hE', hother, -, hconn⟩ := registerAt_accepted
      (show Dittor.Crypto.registerAt R k n ids = (_, true) from Prod.ext rfl hb)
    intro k' E hE
    -- only the entry of the pseudonym has changed
    by_cases hk : k' = k
    · subst hk
      rw [hE'] at hE
      rw [← Option.some.inj hE]
      exact hconn fun E hE => h k' E hE
    · rw [hother k' hk] at hE
      exact h k' E hE

end Table

/-! ## Sequences of calls -/

section Calls

variable {p : ℕ} {G1 G2 GT : Type} [CommGroup G1] [CommGroup G2] [CommGroup GT]
  (S : CryptimeleonSetup p G1 G2 GT)

/-- The arguments of a call of `registerNode`. -/
structure RegisterCall (GT : Type) where
  context : Text
  pseudonym : GT
  nodeId : Text
  familyIds : Finset Text

def RegisterCall.run (c : RegisterCall GT) (da : DA G2) : DA G2 × Bool :=
  da.registerNode S c.context c.pseudonym c.nodeId c.familyIds

/-- The directory authority after a sequence of calls. -/
def runCalls (da : DA G2) (calls : List (RegisterCall GT)) : DA G2 :=
  calls.foldl (fun da c => (c.run S da).1) da

theorem runCalls_keeps (calls : List (RegisterCall GT)) :
    ∀ da : DA G2, Keeps da.registrations (runCalls S da calls).registrations := by
  induction calls with
  | nil => exact fun da _ _ _ hs => hs
  | cons c calls ih => exact fun da => (registerAt_keeps _ _ _ _).1.trans (ih (c.run S da).1)

theorem runCalls_connected (calls : List (RegisterCall GT)) :
    ∀ da : DA G2, AllConnected da.registrations →
      AllConnected (runCalls S da calls).registrations := by
  induction calls with
  | nil => exact fun da h => h
  | cons c calls ih => exact fun da h => ih (c.run S da).1 (h.registerAt _ _ _)

/-- **The registry invariant.** After any calls from the empty registry: every
entry is connected by shared stored family ids; whatever is stored under a key
for a node stays so through any later calls; a call that returns `false` leaves
the directory authority as it is; and a call that returned `true` returns `true`
for the same key and node ever after, whatever family set it names. -/
theorem registry_invariant (mpkG2 : G2) (calls : List (RegisterCall GT)) :
    let da := runCalls S { mpkG2 } calls
    (∀ k E, da.registrations.lookup k = some E → EntryConnected E)
      ∧ (∀ (later : List (RegisterCall GT)) (k n : Text) (ids : Finset Text),
        storedFamily da.registrations k n = some ids →
          storedFamily (runCalls S da later).registrations k n = some ids)
      ∧ (∀ c : RegisterCall GT, (c.run S da).2 = false → (c.run S da).1 = da)
      ∧ ∀ c : RegisterCall GT, (c.run S da).2 = true →
        ∀ (later : List (RegisterCall GT)) (familyIds : Finset Text),
          ((runCalls S (c.run S da).1 later).registerNode S c.context c.pseudonym c.nodeId
            familyIds).2 = true := by
  intro da
  refine ⟨?_, ?_, ?_, ?_⟩
  · have hempty : AllConnected ({ mpkG2 } : DA G2).registrations := by
      intro k E hE
      exact absurd hE (by simp)
    exact runCalls_connected S calls _ hempty
  · exact fun later => runCalls_keeps S later da
  · intro c hrefused
    have hsame := (registerAt_keeps da.registrations (pseudonymKey S.codec c.context c.pseudonym)
      c.nodeId c.familyIds).2.1 hrefused
    -- the other fields of the state are never written
    show { da with registrations := _ } = da
    rw [hsame]
  · intro c haccepted later familyIds
    obtain ⟨ids, hids⟩ := (registerAt_keeps da.registrations
      (pseudonymKey S.codec c.context c.pseudonym) c.nodeId c.familyIds).2.2 haccepted
    -- the node is stored by then, and what is stored stays
    have hlater := runCalls_keeps S later (c.run S da).1 _ _ _ hids
    show (registerAt _ _ _ _).2 = true
    rw [registerAt_stored hlater]

end Calls

/-! ## The key of an accepted request -/

section Pinned

variable {p : ℕ} [Fact p.Prime] {G1 G2 GT : Type} [CommGroup G1] [CommGroup G2]
  [CommGroup GT] [ExpGroup p G2] [ExpGroup p GT] [DecidableEq GT]
  {S : CryptimeleonSetup p G1 G2 GT}

/-- The relation the linkage proof is about: `g1x` and the public key are powers of
the generators by the same exponent. -/
def SameLogarithm (S : CryptimeleonSetup p G1 G2 GT) (msg : RegisterRelayMsg p G1 G2 GT)
    (x : ZMod p) : Prop :=
  msg.credentialCommitmentG1 = zpw S.pairing.g1 x ∧ msg.userPublicKeyG2 = zpw S.pairing.g2 x

/-- The registry key of a request. -/
def RegisterRelayMsg.key (codec : Codec G1 G2 GT) (msg : RegisterRelayMsg p G1 G2 GT) : Text :=
  pseudonymKey codec msg.context msg.vrfData.nym

/-- **Acceptance pins the pseudonym to the identity.** A request for `x` that passes
both checks carries the credential, the VRF proof and the pseudonym of `x`; and two
such requests, to whatever states of the registry, have the same key exactly if they
agree on the context and the identity. -/
theorem acceptance_pins_pseudonym (hinj : Function.Injective S.codec.uniqueT) {m : ZMod p}
    {da da' : DA G2} (hm : da.mpkG2 = zpw S.pairing.g2 m) (hm' : da'.mpkG2 = zpw S.pairing.g2 m)
    {msg msg' : RegisterRelayMsg p G1 G2 GT} {x x' : ZMod p} (hx : SameLogarithm S msg x)
    (hx' : SameLogarithm S msg' x') (hacc : authorizes S da msg = true)
    (hacc' : authorizes S da' msg' = true) :
    (msg.credential = zpw S.pairing.g1 (x * m)
        ∧ x + hashContext S msg.context ≠ 0
        ∧ msg.vrfData.zkp = zpw S.pairing.g1 (x + hashContext S msg.context)⁻¹
        ∧ msg.vrfData.nym = zpw S.pairing.gpairing (x + hashContext S msg.context)⁻¹)
      ∧ (msg.key S.codec = msg'.key S.codec ↔ msg.context = msg'.context ∧ x = x') := by
  obtain ⟨⟨hne, hzkp, hnym⟩, -, hcred⟩ := (authorizes_iff S hm hx.2 hx.1).mp hacc
  obtain ⟨⟨-, -, hnym'⟩, -, -⟩ := (authorizes_iff S hm' hx'.2 hx'.1).mp hacc'
  refine ⟨⟨hcred, hne, hzkp, hnym⟩, ?_⟩
  unfold RegisterRelayMsg.key
  constructor
  · intro hkey
    obtain ⟨hctx, hsame⟩ := pseudonymKey_inj hinj hkey
    refine ⟨hctx, ?_⟩
    rw [hnym, hnym', ← hctx] at hsame
    exact (pseudonym_inj S).mp hsame
  · rintro ⟨hctx, rfl⟩
    rw [hnym, hnym', ← hctx]

end Pinned

/-- One identity in two contexts: both requests are accepted, and their keys differ. -/
theorem acceptance_pins_pseudonym_two :
    (sampleMessage 2 3 torContext 3 ['a'] []).credential
        = zpw (productSetup 5 2).pairing.g1 ((1 : ZMod 5) * 3)
      ∧ (sampleMessage 2 3 torContext 3 ['a'] []).key (productSetup 5 2).codec
        ≠ (sampleMessage 2 3 ['d'] 1 ['b'] []).key (productSetup 5 2).codec := by
  have hinj : Function.Injective (productSetup 5 2).codec.uniqueT := by decide
  have hone : (Multiplicative.ofAdd 1 : Multiplicative (ZMod 5)) = zpw (.ofAdd 1) (1 : ZMod 5) :=
    (zpw_ofAdd_one 5 1).symm
  have hmpk : (DA.mk (.ofAdd 3 : Multiplicative (ZMod 5)) ∅).mpkG2
      = zpw (productSetup 5 2).pairing.g2 (3 : ZMod 5) := (zpw_ofAdd_one 5 3).symm
  have hx : SameLogarithm (productSetup 5 2) (sampleMessage 2 3 torContext 3 ['a'] []) 1 :=
    ⟨hone, hone⟩
  have hx' : SameLogarithm (productSetup 5 2) (sampleMessage 2 3 ['d'] 1 ['b'] []) 1 :=
    ⟨hone, hone⟩
  obtain ⟨⟨hcred, -⟩, hkey⟩ := acceptance_pins_pseudonym hinj hmpk hmpk hx hx' (by decide)
    (by decide)
  exact ⟨hcred, fun h => absurd (hkey.mp h).1 (by decide)⟩

end Dittor.Registration
