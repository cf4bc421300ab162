import Dittor.Tor.Enforcement
import Dittor.Registration.EntryPoints

/-!
# What a rejected descriptor leaves behind

The bridge registers a node in the middle of the parse. Behind the patch's block
`router_parse_entry_from_string` still looks at the OR port and at the signature
of the descriptor, so that a descriptor can be refused after its node has been
entered into the registry (`rejected_descriptor_registers`). And in front of
"We've checked everything that's covered by the hash" the flag `can_dl_again` is
still `0`: a refusal by the registry, which depends on who registered before, is
reported like an unreadable line, and `router_parse_list_from_string` puts the
digest on the list of those not to be fetched again
(`refused_digest_blacklisted`).

What the parse does with the registry is one thing: it looks up and changes the
entry of the descriptor's own request, if the line fits the buffer and carries no
bar of its own (`ownRequest`). `parse_of_request` and `parse_without_request` are
the two cases, and everything else is read off them.
-/

namespace Dittor.Tor

open Dittor.Lib Dittor.Crypto Dittor.Dkg Dittor.Registration

/-! ## The checks behind the block -/

/-- A descriptor with the checks that come after the patch. -/
structure SignedDescriptor extends Descriptor where
  /-- The OR port of the `router` line, where `0` is read without complaint. -/
  ipv4Orport : ℕ
  /-- Whether `check_signature_token` passes. -/
  signatureOk : Bool
  after_eq : after = (decide (ipv4Orport ≠ 0) && signatureOk)
  /-- `router_get_router_hash`, `none` when it fails. -/
  rawDigest : Option Bytes

/-- `*can_dl_again_out`: `1` once the block and the check of the OR port are behind. -/
def canDlAgain {G2 : Type} (d : SignedDescriptor) (r : ParseResult G2) : Bool :=
  match r.verdict with
  | some .verified | some .keptAlive => decide (d.ipv4Orport ≠ 0)
  | some .rejected | some .noProof | none => false

/-- What `router_parse_list_from_string` returns, with the registry after it. -/
structure ListResult (G2 : Type) where
  da : DA G2
  dest : List SignedDescriptor
  invalidDigests : List Bytes

section List

variable {p : ℕ} {G1 G2 GT : Type} [CommGroup G1] [CommGroup G2] [CommGroup GT]
  [DecidableEq GT] (R : Restorer p G1 G2 GT) (S : CryptimeleonSetup p G1 G2 GT)

/-- `router_parse_list_from_string` on the router descriptors it finds. -/
def routerParseList : DA G2 → List SignedDescriptor → ListResult G2
  | da, [] => ⟨da, [], []⟩
  | da, d :: ds =>
    let r := routerParseEntry R S da d.toDescriptor
    let rest := routerParseList r.da ds
    { da := rest.da
      dest := if r.router then d :: rest.dest else rest.dest
      invalidDigests :=
        if r.router = false ∧ canDlAgain d r = false then
          d.rawDigest.toList ++ rest.invalidDigests
        else rest.invalidDigests }

end List

/-! ## The request of a descriptor -/

section Request

variable {p : ℕ} {G1 G2 GT : Type}

/-- The registration the bridge gets to decide about for a descriptor: none if
there is no proof, if the line is cut, or if the bridge cannot read it. -/
def ownRequest (R : Restorer p G1 G2 GT) (d : Descriptor) : Option (RegisterRelayMsg p G1 G2 GT) :=
  d.hasProof.bind fun args =>
    if (validationLine args d).length < payloadSize ∧ BarFree args then ownMessage R args d
    else none

end Request

section Registration

variable {p : ℕ} {G1 G2 GT : Type} [CommGroup G1] [CommGroup G2] [CommGroup GT]
  [DecidableEq GT] (S : CryptimeleonSetup p G1 G2 GT) (da : DA G2)
  (msg : RegisterRelayMsg p G1 G2 GT)

/-- The registry of `da` lets the node of the request in. -/
def AdmitsRequest : Prop :=
  Admits da.registrations (msg.key S.codec) msg.nodeId msg.familyIds.toFinset

/-- The node of the request is stored under its pseudonym. -/
def StoredRequest : Prop := storedFamily da.registrations (msg.key S.codec) msg.nodeId ≠ none

instance : Decidable (AdmitsRequest S da msg) :=
  (inferInstance : Decidable (Admits _ _ _ _))

instance : Decidable (StoredRequest S da msg) :=
  (inferInstance : Decidable (_ ≠ _))

theorem register_accepts_iff :
    (register S da msg).2 = true ↔ authorizes S da msg = true ∧ AdmitsRequest S da msg := by
  unfold register AdmitsRequest
  split
  next hauth =>
    rw [← registerAt_accepts_iff]
    exact ⟨fun h => ⟨hauth, h⟩, fun h => h.2⟩
  next hauth => exact ⟨fun h => absurd h (by simp), fun h => absurd h.1 hauth⟩

theorem register_unchanged_iff :
    (register S da msg).1 = da ↔
      ¬ (authorizes S da msg = true ∧ AdmitsRequest S da msg ∧ ¬ StoredRequest S da msg) := by
  unfold register AdmitsRequest StoredRequest
  split
  next hauth =>
    have hsame : ({ da with registrations := (registerAt da.registrations (msg.key S.codec)
        msg.nodeId msg.familyIds.toFinset).1 } : DA G2) = da
          ↔ (registerAt da.registrations (msg.key S.codec) msg.nodeId
            msg.familyIds.toFinset).1 = da.registrations :=
      ⟨fun h => congrArg DA.registrations h, fun h => by rw [h]⟩
    refine hsame.trans ((registerAt_unchanged_iff ..).trans (not_congr ?_))
    rw [not_not]
    exact ⟨fun h => ⟨hauth, h⟩, fun h => h.2⟩
  next hauth => exact ⟨fun _ h => hauth h.1, fun _ => rfl⟩

/-- The master key is not the registry's business. -/
theorem register_mpkG2 : (register S da msg).1.mpkG2 = da.mpkG2 := by
  unfold register
  split
  · rfl
  · rfl

end Registration

/-! ## What the parse does with the registry -/

section Parse

variable {p : ℕ} {G1 G2 GT : Type} [CommGroup G1] [CommGroup G2] [CommGroup GT]
  [DecidableEq GT] {R : Restorer p G1 G2 GT} {S : CryptimeleonSetup p G1 G2 GT}
  {d : Descriptor}

/-- **With a request** the registry decides, and the checks behind the block after it. -/
theorem parse_of_request (hbefore : d.before = true) {msg : RegisterRelayMsg p G1 G2 GT}
    (hreq : ownRequest R d = some msg) (da : DA G2) :
    routerParseEntry R S da d
      = ⟨(register S da msg).1, some (if (register S da msg).2 then .verified else .rejected),
          (register S da msg).2 && d.after⟩ := by
  unfold ownRequest at hreq
  obtain ⟨args, hproof, hown⟩ := Option.bind_eq_some_iff.mp hreq
  split at hown
  next hok =>
    obtain ⟨hfits, hfree⟩ := hok
    obtain ⟨-, hlen, hhead, hclean⟩ := hasProof_facts hproof
    have hvalidate : validate R S da (payloadText args d) = register S da msg := by
      unfold validate
      rw [parse_payload hlen hhead, if_pos hfree, hown]
    rw [routerParseEntry_reached hbefore hproof, askBackend_fits hclean hhead hfits, hvalidate]
    cases hreg : (register S da msg).2 with
    | true => simp
    | false => simp
  next => exact absurd hown (by simp)

/-- **Without a request** the registry is neither read nor written. -/
theorem parse_without_request (h : d.before = false ∨ ownRequest R d = none) :
    ∃ v b, ∀ da, routerParseEntry R S da d = ⟨da, v, b⟩ := by
  by_cases hbefore : d.before = false
  · refine ⟨none, false, fun da => ?_⟩
    unfold routerParseEntry
    rw [if_pos (.inl hbefore)]
  · have hreq := h.resolve_left hbefore
    rw [Bool.not_eq_false] at hbefore
    cases hproof : d.hasProof with
    | none =>
      -- the line fails in the tokenizer, or there is no line or another context
      by_cases hbad : d.proofLine.isSome ∧ d.proofArgs = none
      · refine ⟨none, false, fun da => ?_⟩
        unfold routerParseEntry
        rw [if_pos (.inr hbad)]
      · refine ⟨some .noProof, false, fun da => ?_⟩
        unfold routerParseEntry dittorBlock
        rw [if_neg, hproof]
        rintro (hb | hb)
        · exact absurd (hbefore.symm.trans hb) (by simp)
        · exact hbad hb
    | some args =>
      obtain ⟨-, hlen, hhead, hclean⟩ := hasProof_facts hproof
      by_cases hfits : (validationLine args d).length < payloadSize
      -- the request arrives, but it cannot be parsed or its own bars move the fields
      · refine ⟨some .rejected, false, fun da => ?_⟩
        have hparse : parseRequest R (payloadText args d) = none := by
          rw [parse_payload hlen hhead]
          unfold ownRequest at hreq
          rw [hproof, Option.bind_some] at hreq
          split
          next hfree => rwa [if_pos ⟨hfits, hfree⟩] at hreq
          next => rfl
        have hvalidate : validate R S da (payloadText args d) = (da, false) := by
          unfold validate
          rw [hparse]
        rw [routerParseEntry_reached hbefore hproof, askBackend_fits hclean hhead hfits, hvalidate]
        rfl
      -- the request was cut off and is never answered
      · exact ⟨_, _, fun da => keptAlive_of_long hbefore hproof (not_lt.mp hfits)⟩

omit [CommGroup G1] [CommGroup G2] [CommGroup GT] [DecidableEq GT] in
/-- The two cases. -/
theorem parse_cases (R : Restorer p G1 G2 GT) (d : Descriptor) :
    (d.before = false ∨ ownRequest R d = none)
      ∨ (d.before = true ∧ ∃ msg, ownRequest R d = some msg) := by
  cases hb : d.before with
  | false => exact .inl (.inl rfl)
  | true =>
    cases hreq : ownRequest R d with
    | none => exact .inl (.inr rfl)
    | some msg => exact .inr ⟨rfl, msg, rfl⟩

/-- The parse leaves the master key alone. -/
theorem parse_mpkG2 (R : Restorer p G1 G2 GT) (S : CryptimeleonSetup p G1 G2 GT) (da : DA G2)
    (d : Descriptor) : (routerParseEntry R S da d).da.mpkG2 = da.mpkG2 := by
  rcases parse_cases R d with h | ⟨hb, msg, hreq⟩
  · obtain ⟨v, b, hparse⟩ := parse_without_request (S := S) h
    rw [hparse]
  · rw [parse_of_request hb hreq]
    exact register_mpkG2 S da msg

end Parse

/-! ## The registry after a rejection -/

section Rejected

variable {p : ℕ} {G1 G2 GT : Type} [CommGroup G1] [CommGroup G2] [CommGroup GT]
  [DecidableEq GT] (R : Restorer p G1 G2 GT) (S : CryptimeleonSetup p G1 G2 GT)

theorem SignedDescriptor.after_eq_false_iff (d : SignedDescriptor) :
    d.after = false ↔ d.ipv4Orport = 0 ∨ d.signatureOk = false := by
  rw [d.after_eq, Bool.and_eq_false_iff, decide_eq_false_iff_not, not_not]

theorem SignedDescriptor.after_eq_true_iff (d : SignedDescriptor) :
    d.after = true ↔ d.ipv4Orport ≠ 0 ∧ d.signatureOk = true := by
  rw [d.after_eq, Bool.and_eq_true, decide_eq_true_eq]

/-- **A rejected descriptor consumes nothing**, if and only if it is not one whose
request the registry lets in for the first time and that fails behind the block. -/
theorem rejected_consumes_nothing_iff (da : DA G2) (d : SignedDescriptor) :
    ((routerParseEntry R S da d.toDescriptor).router = false →
        (routerParseEntry R S da d.toDescriptor).da = da)
      ↔ ¬ (d.before = true ∧ (d.ipv4Orport = 0 ∨ d.signatureOk = false)
        ∧ ∃ msg, ownRequest R d.toDescriptor = some msg ∧ authorizes S da msg = true
          ∧ AdmitsRequest S da msg ∧ ¬ StoredRequest S da msg) := by
  rw [← d.after_eq_false_iff]
  rcases parse_cases R d.toDescriptor with h | ⟨hbefore, msg, hreq⟩
  · obtain ⟨v, b, hparse⟩ := parse_without_request (S := S) h
    rw [hparse]
    constructor
    · rintro - ⟨hb, -, msg, hreq, -⟩
      rcases h with hb' | hnone
      · exact absurd (hb.symm.trans hb') (by simp)
      · exact absurd (hnone.symm.trans hreq) (by simp)
    · exact fun _ _ => rfl
  · rw [parse_of_request hbefore hreq]
    -- the registry changes exactly when `register` enters a new node
    have hchange := register_unchanged_iff S da msg
    constructor
    · rintro hkeep ⟨-, hafter, msg', hreq', hnew⟩
      obtain rfl : msg = msg' := Option.some.inj (hreq.symm.trans hreq')
      exact hchange.mp (hkeep (by rw [hafter, Bool.and_false])) hnew
    · intro hnot hrouter
      rw [hchange]
      intro hnew
      have hacc : (register S da msg).2 = true :=
        (register_accepts_iff S da msg).mpr ⟨hnew.1, hnew.2.1⟩
      rw [hacc, Bool.true_and] at hrouter
      exact hnot ⟨hbefore, hrouter, msg, hreq, hnew⟩

/-- The registry, and nothing else about the descriptor, is why it is refused. -/
def RegistryRefuses (da : DA G2) (d : SignedDescriptor) : Prop :=
  d.before = true ∧ (d.ipv4Orport ≠ 0 ∧ d.signatureOk = true)
    ∧ ∃ msg, ownRequest R d.toDescriptor = some msg ∧ authorizes S da msg = true
      ∧ ¬ AdmitsRequest S da msg

/-- The checks of the bridge read the master key and not the registry. -/
theorem authorizes_registrations (mpkG2 : G2) (Rg Rg' : Registrations)
    (msg : RegisterRelayMsg p G1 G2 GT) :
    authorizes S ⟨mpkG2, Rg⟩ msg = authorizes S ⟨mpkG2, Rg'⟩ msg := rfl

variable {R S}

/-- What is refused, and not by the registry, is refused in every state of it. -/
theorem refused_everywhere {mpkG2 : G2} {Rg : Registrations} {d : SignedDescriptor}
    (hrouter : (routerParseEntry R S ⟨mpkG2, Rg⟩ d.toDescriptor).router = false)
    (hnot : ¬ RegistryRefuses R S ⟨mpkG2, Rg⟩ d) (Rg' : Registrations) :
    (routerParseEntry R S ⟨mpkG2, Rg'⟩ d.toDescriptor).router = false := by
  rcases parse_cases R d.toDescriptor with h | ⟨hbefore, msg, hreq⟩
  · obtain ⟨v, b, hparse⟩ := parse_without_request (S := S) h
    rw [hparse] at hrouter ⊢
    exact hrouter
  · rw [parse_of_request hbefore hreq] at hrouter ⊢
    by_cases hafter : d.after = false
    · dsimp only
      rw [hafter, Bool.and_false]
    · rw [Bool.not_eq_false] at hafter
      obtain ⟨hport, hsig⟩ := d.after_eq_true_iff.mp hafter
      have hacc : (register S ⟨mpkG2, Rg⟩ msg).2 = false := by
        rw [hafter, Bool.and_true] at hrouter
        exact hrouter
      -- the bridge refused: not for the registry, so for the proof itself
      have hauth : authorizes S ⟨mpkG2, Rg⟩ msg ≠ true := by
        intro hauth
        refine hnot ⟨hbefore, ⟨hport, hsig⟩, msg, hreq, hauth, fun hadm => ?_⟩
        have htrue := (register_accepts_iff S ⟨mpkG2, Rg⟩ msg).mpr ⟨hauth, hadm⟩
        exact absurd (hacc.symm.trans htrue) (by simp)
      have hacc' : (register S ⟨mpkG2, Rg'⟩ msg).2 = false := by
        rw [Bool.eq_false_iff]
        intro htrue
        exact hauth ((register_accepts_iff S ⟨mpkG2, Rg'⟩ msg).mp htrue).1
      dsimp only
      rw [hacc', Bool.false_and]

/-- What the registry refuses, it refuses with the flag at `0`. -/
theorem RegistryRefuses.refused {da : DA G2} {d : SignedDescriptor}
    (h : RegistryRefuses R S da d) :
    (routerParseEntry R S da d.toDescriptor).router = false
      ∧ canDlAgain d (routerParseEntry R S da d.toDescriptor) = false := by
  obtain ⟨hbefore, -, msg, hreq, -, hadm⟩ := h
  have hacc : (register S da msg).2 = false := by
    rw [Bool.eq_false_iff]
    intro htrue
    exact hadm ((register_accepts_iff S da msg).mp htrue).2
  rw [parse_of_request hbefore hreq, hacc]
  exact ⟨rfl, rfl⟩

/-- The digests on the list are those of descriptors refused with the flag at `0`
when their turn came. -/
theorem mem_invalidDigests {x : Bytes} :
    ∀ {ds : List SignedDescriptor} {da : DA G2}, x ∈ (routerParseList R S da ds).invalidDigests →
      ∃ pre d post, ds = pre ++ d :: post ∧ d.rawDigest = some x
        ∧ (routerParseEntry R S (routerParseList R S da pre).da d.toDescriptor).router = false := by
  intro ds
  induction ds with
  | nil => intro da h; simp [routerParseList] at h
  | cons d ds ih =>
    intro da h
    -- a digest of the rest comes with one more descriptor in front
    have hrest : x ∈ (routerParseList R S (routerParseEntry R S da d.toDescriptor).da
        ds).invalidDigests →
        ∃ pre e post, d :: ds = pre ++ e :: post ∧ e.rawDigest = some x
          ∧ (routerParseEntry R S (routerParseList R S da pre).da e.toDescriptor).router
            = false := by
      intro hx
      obtain ⟨pre, e, post, rfl, hdig, href⟩ := ih hx
      exact ⟨d :: pre, e, post, rfl, hdig, href⟩
    rw [routerParseList] at h
    dsimp only at h
    split at h
    next hbad =>
      rcases List.mem_append.mp h with h | h
      · exact ⟨[], d, ds, rfl, Option.mem_toList.mp h, hbad.1⟩
      · exact hrest h
    next => exact hrest h

theorem parseList_mpkG2 (ds : List SignedDescriptor) :
    ∀ da : DA G2, (routerParseList R S da ds).da.mpkG2 = da.mpkG2 := by
  induction ds with
  | nil => intro da; rfl
  | cons d ds ih =>
    intro da
    rw [routerParseList]
    exact (ih _).trans (parse_mpkG2 R S da d.toDescriptor)

/-- **"Do not download again" is said of hopeless descriptors**, if and only if the
registry is not what refuses them. For two states of the registry: a descriptor
refused with the flag at `0` in the first is refused in the second, unless it is
sound and only its family is unknown in the first and known in the second. For a
list: if the registry refuses nobody when its turn comes, every digest that is
reported is that of a descriptor refused in every state. -/
theorem no_download_hopeless_iff (R : Restorer p G1 G2 GT) (S : CryptimeleonSetup p G1 G2 GT)
    (mpkG2 : G2) :
    (∀ (Rg Rg' : Registrations) (d : SignedDescriptor),
      ((routerParseEntry R S ⟨mpkG2, Rg⟩ d.toDescriptor).router = false
            ∧ canDlAgain d (routerParseEntry R S ⟨mpkG2, Rg⟩ d.toDescriptor) = false →
          (routerParseEntry R S ⟨mpkG2, Rg'⟩ d.toDescriptor).router = false)
        ↔ ¬ (d.before = true ∧ (d.ipv4Orport ≠ 0 ∧ d.signatureOk = true)
          ∧ ∃ msg, ownRequest R d.toDescriptor = some msg
            ∧ authorizes S ⟨mpkG2, Rg⟩ msg = true
            ∧ ¬ AdmitsRequest S ⟨mpkG2, Rg⟩ msg ∧ AdmitsRequest S ⟨mpkG2, Rg'⟩ msg))
      ∧ ∀ (Rg : Registrations) (ds : List SignedDescriptor),
        (∀ pre d post, ds = pre ++ d :: post →
          ¬ RegistryRefuses R S (routerParseList R S ⟨mpkG2, Rg⟩ pre).da d) →
        ∀ x ∈ (routerParseList R S ⟨mpkG2, Rg⟩ ds).invalidDigests,
          ∃ d ∈ ds, d.rawDigest = some x
            ∧ ∀ Rg', (routerParseEntry R S ⟨mpkG2, Rg'⟩ d.toDescriptor).router = false := by
  refine ⟨fun Rg Rg' d => ?_, fun Rg ds hnone x hx => ?_⟩
  · constructor
    · rintro hhopeless ⟨hbefore, hafter, msg, hreq, hauth, hadm, hadm'⟩
      -- refused now, and the second registry would take it
      have href := RegistryRefuses.refused (R := R) (S := S)
        ⟨hbefore, hafter, msg, hreq, hauth, hadm⟩
      have hrouter := hhopeless href
      rw [parse_of_request hbefore hreq] at hrouter
      have hacc : (register S ⟨mpkG2, Rg'⟩ msg).2 = true :=
        (register_accepts_iff S ⟨mpkG2, Rg'⟩ msg).mpr
          ⟨(authorizes_registrations S mpkG2 Rg Rg' msg).symm.trans hauth, hadm'⟩
      rw [hacc, d.after_eq_true_iff.mpr hafter] at hrouter
      exact absurd hrouter (by simp)
    · rintro hnot ⟨hrouter, -⟩
      -- either the registry refused, or the descriptor is refused under any registry
      by_cases hreg : RegistryRefuses R S ⟨mpkG2, Rg⟩ d
      · obtain ⟨hbefore, hafter, msg, hreq, hauth, hadm⟩ := hreg
        have hacc' : (register S ⟨mpkG2, Rg'⟩ msg).2 = false := by
          rw [Bool.eq_false_iff]
          intro htrue
          exact hnot ⟨hbefore, hafter, msg, hreq, hauth, hadm,
            ((register_accepts_iff S ⟨mpkG2, Rg'⟩ msg).mp htrue).2⟩
        rw [parse_of_request hbefore hreq, hacc']
        rfl
      · exact refused_everywhere hrouter hreg Rg'
  · obtain ⟨pre, d, post, rfl, hdig, href⟩ := mem_invalidDigests hx
    refine ⟨d, by simp, hdig, fun Rg' => ?_⟩
    have hmpk := parseList_mpkG2 (R := R) (S := S) pre ⟨mpkG2, Rg⟩
    have hreg := hnone pre d post rfl
    -- the descriptors before it changed the registry, but not the key
    generalize (routerParseList R S ⟨mpkG2, Rg⟩ pre).da = da at hmpk hreg href
    obtain ⟨mpkG2', Rg₁⟩ := da
    obtain rfl : mpkG2' = mpkG2 := hmpk
    exact refused_everywhere href hreg Rg'

end Rejected

/-! ## Two descriptors -/

section Samples

/-- The proof of the identity `1` under the master secret `3` in the small groups. -/
def sampleArgs : List Bytes :=
  [cstring "TorRelayConsensus2026", cstring "1", cstring "3", cstring "3", cstring "1",
    cstring "3", cstring "3", cstring "3"]

theorem sampleArgs_clean : ∀ a ∈ sampleArgs, a ≠ [] ∧ ∀ b ∈ a, isWhitespace b = false := by
  decide +kernel

/-- A relay of the family `AAAA`. -/
def sampleFamily : FamilyId where
  key := cstring "AAAA"
  base64 := by decide +kernel

theorem sampleArgs_short : ([byte ' '].intercalate sampleArgs).length ≤ 128 * 1024 := by
  decide

/-- The line with the proof. -/
def sampleLine : ArgumentLine where
  bytes := [byte ' '].intercalate sampleArgs
  clean := intercalate_clean sampleArgs_clean
  short := sampleArgs_short

/-- Its descriptor, with this OR port and a good signature. -/
def sampleDescriptor (ipv4Orport : ℕ) : SignedDescriptor where
  proofLine := some sampleLine
  identityDigest := List.replicate 20 (byte 'A')
  digest_len := rfl
  familyIds := [sampleFamily]
  before := true
  after := decide (ipv4Orport ≠ 0) && true
  ipv4Orport := ipv4Orport
  signatureOk := true
  after_eq := rfl
  rawDigest := some (List.replicate 20 (byte 'B'))

/-- What the bridge is asked about it. -/
def sampleRequest (η m e : ZMod 5) :
    RegisterRelayMsg 5 (Multiplicative (ZMod 5)) (Multiplicative (ZMod 5))
      (Multiplicative (ZMod 5)) :=
  sampleMessage η m torContext e (decodeUtf8 (base16Encode (List.replicate 20 (byte 'A'))))
    ["ed25519:AAAA".toList]

theorem sampleDescriptor_request (orport : ℕ) :
    ownRequest (digitRestorer 5) (sampleDescriptor orport).toDescriptor
      = some (sampleRequest 2 3 3) := by
  have hproof : (sampleDescriptor orport).hasProof = some sampleArgs :=
    hasProof_intercalate rfl rfl sampleArgs_clean (by decide) (by decide) rfl
  unfold ownRequest
  rw [hproof, Option.bind_some, if_pos]
  · rfl
  · refine ⟨?_, by decide⟩
    rw [length_validationLine (by decide), show (sampleDescriptor orport).familyIds
      = [sampleFamily] from rfl]
    decide

end Samples

/-- **A rejected descriptor registers its node.** With OR port `0` the descriptor is
refused, and its node is the first of its pseudonym in the registry. -/
theorem rejected_descriptor_registers :
    ∃ d : SignedDescriptor,
      (routerParseEntry (digitRestorer 5) (productSetup 5 2) ⟨.ofAdd 3, ∅⟩ d.toDescriptor).router
          = false
        ∧ storedFamily (routerParseEntry (digitRestorer 5) (productSetup 5 2) ⟨.ofAdd 3, ∅⟩
            d.toDescriptor).da.registrations ((sampleRequest 2 3 3).key (productSetup 5 2).codec)
            (decodeUtf8 d.nodeIdHex) = some {"ed25519:AAAA".toList} := by
  refine ⟨sampleDescriptor 0, ?_⟩
  rw [parse_of_request rfl (sampleDescriptor_request 0)]
  exact ⟨by decide, by decide⟩

/-- **A sound descriptor is blacklisted.** A relay of another family is registered
under the pseudonym; the descriptor is refused, and its digest is on the list of
those not to be fetched again. After a relay of both families has registered, the
same descriptor is accepted. -/
theorem refused_digest_blacklisted :
    ∃ (d : SignedDescriptor) (Rg Rg' : Registrations) (n : Text) (ids : Finset Text),
      registerAt Rg ((sampleRequest 2 3 3).key (productSetup 5 2).codec) n ids = (Rg', true)
        ∧ ((routerParseEntry (digitRestorer 5) (productSetup 5 2) ⟨.ofAdd 3, Rg⟩
            d.toDescriptor).router = false
          ∧ canDlAgain d (routerParseEntry (digitRestorer 5) (productSetup 5 2) ⟨.ofAdd 3, Rg⟩
            d.toDescriptor) = false)
        ∧ (routerParseList (digitRestorer 5) (productSetup 5 2) ⟨.ofAdd 3, Rg⟩ [d]).invalidDigests
          = d.rawDigest.toList
        ∧ (routerParseEntry (digitRestorer 5) (productSetup 5 2) ⟨.ofAdd 3, Rg'⟩
            d.toDescriptor).router = true := by
  refine ⟨sampleDescriptor 9001,
    (registerAt ∅ ((sampleRequest 2 3 3).key (productSetup 5 2).codec) "A".toList
      {"ed25519:BBBB".toList}).1, _, "B".toList,
    {"ed25519:BBBB".toList, "ed25519:AAAA".toList}, Prod.ext rfl (by decide), ?_, ?_, ?_⟩
  · rw [parse_of_request rfl (sampleDescriptor_request 9001)]
    exact ⟨by decide, by decide⟩
  · rw [routerParseList, parse_of_request rfl (sampleDescriptor_request 9001)]
    decide
  · rw [parse_of_request rfl (sampleDescriptor_request 9001)]
    decide

end Dittor.Tor
