import Mathlib
import Dittor.Tor.PublishedBody

/-!
# Whether a consensus has enough signatures (`networkstatus.c`)

`networkstatus_check_consensus_signature` checks the signatures of a consensus that have no flag
yet, and counts the voters that have a good one. Before it checks a signature it asks that the
authority is configured and that its certificate has not expired. A flag is believed; and
`networkstatus_add_detached_signatures` sets flags as well, and asks for neither.

A call finds certificates and a time (`Moment`). The history invariant is `Trusted`: every flag
of a good signature comes from a check at one of the moments so far. It holds on as long as the
documents bring no signature that verifies with a certificate that has expired or belongs to
nobody (`AddsTrusted`), and gives the quorum (`consensus_has_quorum`).
-/

namespace Dittor.Tor

open Dittor.Lib

/-- `authority_cert_t` with `expires` -/
structure DatedCert (Key : Type) extends AuthorityCert Key where
  expires : ℤ

/-- RSA: `crypto_pk_get_digest` and `crypto_pk_public_checksig`. -/
structure Rsa (Key : Type) where
  getDigest : Key → Option Bytes
  publicChecksig : Key → Bytes → Option Bytes

/-- What a call finds: `trusted_dir_certs` by identity, and the time. -/
structure Moment (Key : Type) where
  certs : Bytes → List (DatedCert Key)
  now : ℤ

section Model

variable {Key : Type} (R : Rsa Key)

/-- `authority_cert_get_by_digests` -/
def Moment.getByDigests (m : Moment Key) (idDigest skDigest : Bytes) : Option (DatedCert Key) :=
  (m.certs idDigest).find? fun cert => cert.signingKeyDigest = skDigest

/-- The same for code that does not look at the time. -/
def Moment.context (m : Moment Key) : CertContext Key where
  getDigest := R.getDigest
  publicChecksig := R.publicChecksig
  trustedDirCerts id := (m.certs id).map (·.toAuthorityCert)

/-- What is said of a signature. -/
inductive SigVerdict where
  | good
  | bad
  | missingKey
  | unknown
deriving DecidableEq, Repr

/-- What the flags say. -/
def DocumentSignature.verdict (sig : DocumentSignature) : SigVerdict :=
  if sig.goodSignature then .good else if sig.badSignature then .bad else .missingKey

variable (authorities : List Bytes) (m : Moment Key)

/-- The inner loop of `networkstatus_check_consensus_signature`: the signature with its flags, and
what it counts as; `none` where the assertion fails. -/
def checkVoterSignature (digests : CommonDigests) (voter : VoterInfo) (sig : DocumentSignature) :
    Option (DocumentSignature × SigVerdict) :=
  if sig.goodSignature || sig.badSignature then some (sig, sig.verdict)
  else if sig.identityDigest ≠ voter.identityDigest then none
  -- `trusteddirserver_get_by_v3_auth_digest`
  else if sig.identityDigest ∉ authorities then some (sig, .unknown)
  else
    match m.getByDigests sig.identityDigest sig.signingKeyDigest with
    | none => some (sig, .missingKey)
    | some cert =>
      if cert.expires < m.now then some (sig, .missingKey)
      else
        -- a signature that is not this certificate's stays without a flag
        let sig := checkDocumentSignature (m.context R) digests sig cert.toAuthorityCert
        some (sig, sig.verdict)

/-- What is said of a voter. -/
inductive VoterVerdict where
  | good
  | bad
  | missingKey
  | unknown
  | noSignature
deriving DecidableEq, Repr

/-- The counters of one voter. -/
def voterVerdict (l : List SigVerdict) : VoterVerdict :=
  if .good ∈ l then .good
  else if .bad ∈ l then .bad
  else if .missingKey ∈ l then .missingKey
  else if .unknown ∈ l then .unknown
  else .noSignature

/-- The outer loop for one voter. -/
def checkVoter (digests : CommonDigests) (voter : VoterInfo) : Option (VoterInfo × VoterVerdict) :=
  (voter.sigs.mapM (checkVoterSignature R authorities m digests voter)).map fun l =>
    ({ voter with sigs := l.map (·.1) }, voterVerdict (l.map (·.2)))

/-- `networkstatus_check_consensus_signature`: the consensus with the flags of its signatures, and
the result; `none` where the assertion fails. `authorities` are the identities of the configured
v3 authorities. -/
def checkConsensusSignature (consensus : NetworkStatus) : Option (NetworkStatus × ℤ) :=
  (consensus.voters.mapM (checkVoter R authorities m consensus.digests)).map fun l =>
    let nGood := l.countP fun r => r.2 = .good
    let nMissingKey := l.countP fun r => r.2 = .missingKey
    let nRequired := authorities.length / 2 + 1
    ({ consensus with voters := l.map (·.1) },
      if nGood = authorities.length then 1
      else if nGood ≥ nRequired then 0
      else if nGood + nMissingKey ≥ nRequired then -1
      else -2)

/-- The two calls. -/
inductive TrustCall (ι : Type) where
  | add (i : ι)
  | check

variable {ι : Type} [DecidableEq ι]

/-- One call. -/
def Round.call (s : Round ι) : TrustCall ι → Option (Round ι)
  | .add i => some (s.add (m.context R) i)
  | .check => (checkConsensusSignature R authorities m s.target).map fun r =>
    { s with target := r.1 }

/-- One call after the other, each at its moment. -/
def Round.calls (s : Round ι) (calls : List (Moment Key × TrustCall ι)) : Option (Round ι) :=
  calls.foldlM (fun s c => s.call R authorities c.1 c.2) s

end Model

/-! ## One signature -/

section Signature

variable {Key : Type} {R : Rsa Key} {authorities : List Bytes} {m : Moment Key}

/-- The signature verifies against the digest, with a certificate that has not expired and is not
on the denylist. -/
def VerifiedAt (R : Rsa Key) (m : Moment Key) (digests : CommonDigests) (sig : DocumentSignature) :
    Prop :=
  ∃ cert, m.getByDigests sig.identityDigest sig.signingKeyDigest = some cert
    ∧ cert.identityDigest = sig.identityDigest
    ∧ R.getDigest cert.signingKey = some sig.signingKeyDigest
    ∧ m.now ≤ cert.expires
    ∧ cert.isDenylisted = false
    ∧ ∃ signed, R.publicChecksig cert.signingKey sig.signature = some signed
      ∧ sig.alg.length ≤ signed.length
      ∧ signed.take sig.alg.length = (digests sig.alg).take sig.alg.length

theorem VerifiedAt.congr {digests : CommonDigests} {sig sig' : DocumentSignature}
    (hsame : SameSignature sig sig') (h : VerifiedAt R m digests sig) :
    VerifiedAt R m digests sig' := by
  unfold VerifiedAt at *
  rw [hsame.identityDigest, hsame.signingKeyDigest, hsame.alg, hsame.signature]
  exact h

theorem context_getByDigests (idDigest skDigest : Bytes) :
    (m.context R).getByDigests idDigest skDigest =
      (m.getByDigests idDigest skDigest).map (·.toAuthorityCert) := by
  unfold CertContext.getByDigests Moment.getByDigests
  exact List.find?_map

theorem checkDocumentSignature_same {C : CertContext Key} (digests : CommonDigests)
    (sig : DocumentSignature) (cert : AuthorityCert Key) :
    SameSignature sig (checkDocumentSignature C digests sig cert) := by
  rcases checkDocumentSignature_cases (C := C) digests sig cert with h | h | h
  · rw [h]
    exact ⟨rfl, rfl, rfl, rfl⟩
  · rw [h]
    exact ⟨rfl, rfl, rfl, rfl⟩
  · rw [h]
    exact ⟨rfl, rfl, rfl, rfl⟩

/-- What a good check means. -/
theorem checkDocumentSignature_good {digests : CommonDigests} {sig : DocumentSignature}
    {cert : DatedCert Key} (hnew : sig.goodSignature = false)
    (hcert : m.getByDigests sig.identityDigest sig.signingKeyDigest = some cert)
    (hdate : m.now ≤ cert.expires)
    (h : (checkDocumentSignature (m.context R) digests sig cert.toAuthorityCert).goodSignature
      = true) :
    VerifiedAt R m digests sig := by
  unfold checkDocumentSignature at h
  dsimp only at h
  split at h
  · exact absurd (hnew.symm.trans h) Bool.false_ne_true
  next keyDigest hkey =>
    split_ifs at h with hmatch hdeny
    · exact absurd (hnew.symm.trans h) Bool.false_ne_true
    · exact absurd (hnew.symm.trans h) Bool.false_ne_true
    · rw [not_or, not_not, not_not] at hmatch
      split at h
      · exact absurd (hnew.symm.trans h) Bool.false_ne_true
      next signed hsigned =>
        split_ifs at h with hdigest
        · exact absurd (hnew.symm.trans h) Bool.false_ne_true
        · rw [not_or, not_lt, not_not] at hdigest
          refine ⟨cert, hcert, hmatch.2.symm, ?_, hdate, Bool.not_eq_true _ ▸ hdeny, signed, hsigned,
            hdigest.1, hdigest.2⟩
          rw [hmatch.1]
          exact hkey

/-- A good signature is a configured authority's, and was verified at one of the moments. -/
def Vouched (R : Rsa Key) (authorities : List Bytes) (moments : List (Moment Key))
    (digests : CommonDigests) (sig : DocumentSignature) : Prop :=
  sig.goodSignature = true → sig.identityDigest ∈ authorities
    ∧ ∃ m ∈ moments, VerifiedAt R m digests sig

/-- A check of a signature that had no flag. -/
theorem vouched_of_check {moments : List (Moment Key)} {digests : CommonDigests}
    {sig : DocumentSignature} {cert : DatedCert Key} (hm : m ∈ moments)
    (hnew : sig.goodSignature = false)
    (hcert : m.getByDigests sig.identityDigest sig.signingKeyDigest = some cert)
    (htrusted : (checkDocumentSignature (m.context R) digests sig cert.toAuthorityCert).goodSignature
      = true → sig.identityDigest ∈ authorities ∧ m.now ≤ cert.expires) :
    Vouched R authorities moments digests
      (checkDocumentSignature (m.context R) digests sig cert.toAuthorityCert) := by
  intro hgood
  obtain ⟨hauth, hdate⟩ := htrusted hgood
  have hsame := checkDocumentSignature_same (C := m.context R) digests sig cert.toAuthorityCert
  rw [hsame.identityDigest]
  exact ⟨hauth, m, hm, (checkDocumentSignature_good hnew hcert hdate hgood).congr hsame⟩

end Signature

/-! ## The signatures of a document -/

section Add

variable {Key : Type} {R : Rsa Key} {authorities : List Bytes} {m : Moment Key}
  {moments : List (Moment Key)}

/-- What holds of the signatures of the consensus at all times. -/
structure TrustedTarget (R : Rsa Key) (authorities : List Bytes) (moments : List (Moment Key))
    (t : NetworkStatus) : Prop where
  /-- A signature stands at the voter it names. -/
  own : ∀ {k : ℕ} {v : VoterInfo}, t.voters[k]? = some v → ∀ sig ∈ v.sigs,
    t.voterById sig.identityDigest = some k
  one : OnePerAlgorithm t
  good : ∀ {v : VoterInfo}, v ∈ t.voters → ∀ sig ∈ v.sigs,
    Vouched R authorities moments t.digests sig

theorem TrustedTarget.own_id {t : NetworkStatus} (h : TrustedTarget R authorities moments t)
    {k : ℕ} {v : VoterInfo} (hv : t.voters[k]? = some v) {sig : DocumentSignature}
    (hsig : sig ∈ v.sigs) : sig.identityDigest = v.identityDigest := by
  obtain ⟨hlt, hid, -⟩ := List.findIdx?_eq_some_iff_getElem.mp (h.own hv sig hsig)
  rw [← Option.some.inj ((List.getElem?_eq_getElem hlt).symm.trans hv)]
  exact (of_decide_eq_true hid).symm

/-- If a signature is found good that had no flag, and the voter has none that is good, then it is
a configured authority's, with a certificate that has not expired. -/
def SigTrusted (R : Rsa Key) (authorities : List Bytes) (m : Moment Key) (t : NetworkStatus)
    (sig : DocumentSignature) : Prop :=
  ∀ j, t.voterById sig.identityDigest = some j → ¬ Good t j sig.alg → sig.goodSignature = false →
    (tryChecking (m.context R) t.digests sig).goodSignature = true →
    sig.identityDigest ∈ authorities ∧ ∀ cert,
      m.getByDigests sig.identityDigest sig.signingKeyDigest = some cert → m.now ≤ cert.expires

theorem Keeps.sigTrusted {t t' : NetworkStatus} (hkeeps : Keeps t t') {sig : DocumentSignature}
    (h : SigTrusted R authorities m t sig) : SigTrusted R authorities m t' sig := by
  intro j hj hgood hnew hcheck
  rw [hkeeps.voterById] at hj
  rw [hkeeps.digests] at hcheck
  refine h j hj (fun hg => hgood ?_) hnew hcheck
  obtain ⟨v, hv, s, hs, halg, hs'⟩ := hg
  obtain ⟨v', hv', hkept⟩ := hkeeps.good hv
  exact ⟨v', hv', s, hkept s hs hs', halg, hs'⟩

/-- The first signature of an algorithm is the only one. -/
theorem not_good_of_first {t : NetworkStatus} {j : ℕ} {v : VoterInfo} {alg : DigestAlgorithm}
    (hone : OnePerAlgorithm t) (hv : t.voters[j]? = some v)
    (hold : ∀ i old, v.sigByAlg alg = some i → v.sigs[i]? = some old → old.goodSignature = false) :
    ¬ Good t j alg := by
  intro hgood
  obtain ⟨w, hw, s, hs, halg, hs'⟩ := hgood
  obtain rfl := Option.some.inj (hw.symm.trans hv)
  cases hi : w.sigByAlg alg with
  | none => exact sigByAlg_none hi s hs halg
  | some i =>
    obtain ⟨hlt, hialg⟩ := sigByAlg_some hi
    have hsame : w.sigs.get ⟨i, hlt⟩ = s :=
      List.inj_on_of_nodup_map (hone w (List.mem_of_getElem? hw)) (List.get_mem _ _) hs
        (hialg.trans halg.symm)
    have hbad := hold i s hi (by rw [List.getElem?_eq_getElem hlt, ← hsame]; rfl)
    rw [hs'] at hbad
    cases hbad

/-- The check of a document's signature. -/
theorem tryChecking_vouched {t : NetworkStatus} {j : ℕ} {sig : DocumentSignature} (hm : m ∈ moments)
    (hj : t.voterById sig.identityDigest = some j) (hgood : ¬ Good t j sig.alg)
    (hsig : Vouched R authorities moments t.digests sig)
    (htrusted : SigTrusted R authorities m t sig) :
    Vouched R authorities moments t.digests (tryChecking (m.context R) t.digests sig) := by
  cases hnew : sig.goodSignature with
  | true =>
    have hsame : tryChecking (m.context R) t.digests sig = sig := by
      rw [tryChecking, if_pos (by rw [hnew]; rfl)]
    rw [hsame]
    exact hsig
  | false =>
    have hbelieve := htrusted j hj hgood hnew
    unfold tryChecking at hbelieve ⊢
    split_ifs at hbelieve ⊢ with hflags
    · exact hsig
    · rw [context_getByDigests] at hbelieve ⊢
      cases hcert : m.getByDigests sig.identityDigest sig.signingKeyDigest with
      | none => exact hsig
      | some cert =>
        rw [hcert, Option.map_some] at hbelieve
        refine vouched_of_check hm hnew hcert fun hcheck => ?_
        obtain ⟨hauth, hdate⟩ := hbelieve hcheck
        exact ⟨hauth, hdate cert rfl⟩

/-- One signature of a document. -/
theorem TrustedTarget.step {t t' : NetworkStatus} {sig sig' : DocumentSignature} {r : ℕ}
    (h : TrustedTarget R authorities moments t) (hm : m ∈ moments)
    (hsig : Vouched R authorities moments t.digests sig)
    (htrusted : SigTrusted R authorities m t sig)
    (hstep : AddStep (m.context R) t sig t' sig' r) :
    TrustedTarget R authorities moments t' ∧ Vouched R authorities moments t.digests sig' := by
  have hkeeps := hstep.keeps
  have hone := hstep.onePerAlgorithm h.one
  cases hstep with
  | unknown => exact ⟨h, hsig⟩
  | held => exact ⟨h, hsig⟩
  | ignored _ _ hno =>
    refine ⟨h, fun hgood => ?_⟩
    rw [hno] at hgood
    cases hgood
  | @replaced j v hj hv hold =>
    have hnot := not_good_of_first h.one hv hold
    have hvouched := tryChecking_vouched hm hj hnot hsig htrusted
    have hsame := tryChecking_same (C := m.context R) t.digests sig
    refine ⟨⟨?_, hone, ?_⟩, hvouched⟩
    · intro k w hw s hs
      rw [hkeeps.voterById]
      rw [replaceSig_getElem] at hw
      split_ifs at hw with hjk
      · subst hjk
        rw [hv, Option.map_some] at hw
        rw [← Option.some.inj hw, ← hsame.alg] at hs
        rcases mem_replaceSig hs with rfl | hs
        · rw [hsame.identityDigest]
          exact hj
        · exact h.own hv s hs
      · exact h.own hw s hs
    · intro w hw s hs
      obtain ⟨k, hk⟩ := List.mem_iff_getElem?.mp hw
      rw [replaceSig_getElem] at hk
      split_ifs at hk with hjk
      · subst hjk
        rw [hv, Option.map_some] at hk
        rw [← Option.some.inj hk, ← hsame.alg] at hs
        rcases mem_replaceSig hs with rfl | hs
        · exact hvouched
        · exact h.good (List.mem_of_getElem? hv) s hs
      · exact h.good (List.mem_of_getElem? hk) s hs

/-- The loop over the signatures of a document. -/
theorem TrustedTarget.addSignatures : ∀ {l : List DocumentSignature} {t : NetworkStatus},
    TrustedTarget R authorities moments t → m ∈ moments →
    (∀ sig ∈ l, Vouched R authorities moments t.digests sig) →
    (∀ sig ∈ l, SigTrusted R authorities m t sig) →
    TrustedTarget R authorities moments (Tor.addSignatures (m.context R) t l).1
      ∧ ∀ sig ∈ (Tor.addSignatures (m.context R) t l).2.1,
        Vouched R authorities moments t.digests sig
  | [], t, h, _, _, _ => ⟨h, by simp [Tor.addSignatures]⟩
  | sig :: l, t, h, hm, hsigs, htrusted => by
    have hstep := addSignature_spec (m.context R) t sig
    have hkeeps := hstep.keeps
    obtain ⟨hfirst, hsig⟩ := h.step hm (hsigs sig List.mem_cons_self)
      (htrusted sig List.mem_cons_self) hstep
    obtain ⟨hrest, hothers⟩ := hfirst.addSignatures (l := l) hm
      (fun s hs => by
        rw [hkeeps.digests]
        exact hsigs s (List.mem_cons_of_mem _ hs))
      (fun s hs => hkeeps.sigTrusted (htrusted s (List.mem_cons_of_mem _ hs)))
    rw [hkeeps.digests] at hothers
    refine ⟨hrest, ?_⟩
    intro s hs
    rcases List.mem_cons.mp hs with rfl | hs
    · exact hsig
    · exact hothers s hs

end Add

/-! ## The check of the whole consensus -/

section Check

variable {Key : Type} {R : Rsa Key} {authorities : List Bytes} {m : Moment Key}
  {moments : List (Moment Key)}

/-- A loop in which no step fails. -/
theorem mapM_of_forall {α β : Type} {f : α → Option β} {P : α → β → Prop} :
    ∀ {l : List α}, (∀ a ∈ l, ∃ b, f a = some b ∧ P a b) →
      ∃ l', l.mapM f = some l' ∧ List.Forall₂ P l l'
  | [], _ => ⟨[], rfl, .nil⟩
  | a :: l, h => by
    obtain ⟨b, hb, hab⟩ := h a List.mem_cons_self
    obtain ⟨l', hl', hall⟩ := mapM_of_forall fun x hx => h x (List.mem_cons_of_mem _ hx)
    refine ⟨b :: l', ?_, hall.cons hab⟩
    rw [List.mapM_cons, hb, hl']
    rfl

/-- Whatever stands in the second list comes from the same place of the first. -/
theorem forall₂_getElem? {α β : Type} {P : α → β → Prop} : ∀ {l : List α} {l' : List β},
    List.Forall₂ P l l' → ∀ {k : ℕ} {b : β}, l'[k]? = some b → ∃ a, l[k]? = some a ∧ P a b
  | [], _, .nil, k, b, h => by cases h
  | a :: l, _, .cons hab hrest, 0, b, h => ⟨a, rfl, Option.some.inj h ▸ hab⟩
  | a :: l, _, .cons hab hrest, k + 1, b, h => forall₂_getElem? hrest h

/-- What the check of a signature leaves. -/
structure SigChecked (R : Rsa Key) (authorities : List Bytes) (moments : List (Moment Key))
    (digests : CommonDigests) (sig : DocumentSignature) (r : DocumentSignature × SigVerdict) :
    Prop where
  same : SameSignature sig r.1
  vouched : Vouched R authorities moments digests r.1
  good : r.2 = .good → r.1.goodSignature = true

theorem verdict_good {sig : DocumentSignature} (h : sig.verdict = .good) :
    sig.goodSignature = true := by
  unfold DocumentSignature.verdict at h
  split_ifs at h with hgood
  exact hgood

theorem checkVoterSignature_spec {digests : CommonDigests} {voter : VoterInfo}
    {sig : DocumentSignature} (hm : m ∈ moments)
    (hsig : Vouched R authorities moments digests sig)
    (hown : sig.identityDigest = voter.identityDigest) :
    ∃ r, checkVoterSignature R authorities m digests voter sig = some r
      ∧ SigChecked R authorities moments digests sig r := by
  have hkept : ∀ v : SigVerdict, v ≠ .good →
      SigChecked R authorities moments digests sig (sig, v) := fun v hv =>
    ⟨⟨rfl, rfl, rfl, rfl⟩, hsig, fun h => absurd h hv⟩
  unfold checkVoterSignature
  split_ifs with hflags hassert hauth
  · exact ⟨_, rfl, ⟨rfl, rfl, rfl, rfl⟩, hsig, verdict_good⟩
  · exact absurd hown hassert
  · split
    · exact ⟨_, rfl, hkept .missingKey (by decide)⟩
    next cert hcert =>
      split_ifs with hdate
      · exact ⟨_, rfl, hkept .missingKey (by decide)⟩
      · have hnew : sig.goodSignature = false := by
          rw [Bool.or_eq_true, not_or, Bool.not_eq_true] at hflags
          exact hflags.1
        exact ⟨_, rfl, checkDocumentSignature_same _ _ _,
          vouched_of_check hm hnew hcert fun _ => ⟨hauth, not_lt.mp hdate⟩, verdict_good⟩
  · exact ⟨_, rfl, hkept .unknown (by decide)⟩

/-- What the check of a voter leaves. -/
structure VoterChecked (R : Rsa Key) (authorities : List Bytes) (moments : List (Moment Key))
    (digests : CommonDigests) (voter : VoterInfo) (r : VoterInfo × VoterVerdict) : Prop where
  id : r.1.identityDigest = voter.identityDigest
  same : List.Forall₂ SameSignature voter.sigs r.1.sigs
  vouched : ∀ sig ∈ r.1.sigs, Vouched R authorities moments digests sig
  good : r.2 = .good → ∃ sig ∈ r.1.sigs, sig.goodSignature = true

theorem voterVerdict_good {l : List SigVerdict} (h : voterVerdict l = .good) : .good ∈ l := by
  unfold voterVerdict at h
  split_ifs at h with hgood
  exact hgood

theorem checkVoter_spec {digests : CommonDigests} {voter : VoterInfo} (hm : m ∈ moments)
    (hsigs : ∀ sig ∈ voter.sigs, Vouched R authorities moments digests sig)
    (hown : ∀ sig ∈ voter.sigs, sig.identityDigest = voter.identityDigest) :
    ∃ r, checkVoter R authorities m digests voter = some r
      ∧ VoterChecked R authorities moments digests voter r := by
  obtain ⟨l, hl, hall⟩ := mapM_of_forall fun sig hsig =>
    checkVoterSignature_spec (m := m) hm (hsigs sig hsig) (hown sig hsig)
  have hvouched : ∀ r ∈ l, Vouched R authorities moments digests r.1
      ∧ (r.2 = .good → r.1.goodSignature = true) := by
    intro r hr
    obtain ⟨k, hk⟩ := List.mem_iff_getElem?.mp hr
    obtain ⟨sig, -, hchecked⟩ := forall₂_getElem? hall hk
    exact ⟨hchecked.vouched, hchecked.good⟩
  unfold checkVoter
  rw [hl]
  refine ⟨_, rfl, rfl, ?_, ?_, ?_⟩
  · rw [List.forall₂_map_right_iff]
    exact hall.imp fun _ _ h => h.same
  · intro sig hsig
    obtain ⟨r, hr, rfl⟩ := List.mem_map.mp hsig
    exact (hvouched r hr).1
  · intro hgood
    obtain ⟨r, hr, hr'⟩ := List.mem_map.mp (voterVerdict_good hgood)
    exact ⟨r.1, List.mem_map.mpr ⟨r, hr, rfl⟩, (hvouched r hr).2 hr'⟩

/-- **The check of a consensus**: no assertion fails, the signatures stay what they were but for
the flags, and the voters that are counted have a good one. -/
theorem checkConsensusSignature_spec {t : NetworkStatus} (hm : m ∈ moments)
    (h : TrustedTarget R authorities moments t) :
    ∃ l, t.voters.mapM (checkVoter R authorities m t.digests) = some l
      ∧ List.Forall₂ (VoterChecked R authorities moments t.digests) t.voters l := by
  refine mapM_of_forall fun v hv => checkVoter_spec hm (h.good hv) fun sig hsig => ?_
  obtain ⟨k, hk⟩ := List.mem_iff_getElem?.mp hv
  exact h.own_id hk hsig

/-- The consensus with the flags of the check. -/
theorem TrustedTarget.checked {t : NetworkStatus} {l : List (VoterInfo × VoterVerdict)}
    (h : TrustedTarget R authorities moments t)
    (hall : List.Forall₂ (VoterChecked R authorities moments t.digests) t.voters l) :
    TrustedTarget R authorities moments { t with voters := l.map (·.1) } := by
  have hplace : ∀ {k : ℕ} {w : VoterInfo}, (l.map (·.1))[k]? = some w → ∃ v r,
      t.voters[k]? = some v ∧ r.1 = w ∧ VoterChecked R authorities moments t.digests v r := by
    intro k w hw
    rw [List.getElem?_map] at hw
    obtain ⟨r, hr, rfl⟩ := Option.map_eq_some_iff.mp hw
    obtain ⟨v, hv, hchecked⟩ := forall₂_getElem? hall hr
    exact ⟨v, r, hv, rfl, hchecked⟩
  have hids : (l.map (·.1)).map (·.identityDigest) = t.voters.map (·.identityDigest) := by
    rw [← List.forall₂_eq_eq_eq, List.forall₂_map_left_iff, List.forall₂_map_left_iff,
      List.forall₂_map_right_iff]
    exact (hall.imp fun _ _ hc => hc.id).flip
  refine ⟨?_, ?_, ?_⟩
  · intro k w hw sig hsig
    obtain ⟨v, r, hv, rfl, hchecked⟩ := hplace hw
    obtain ⟨i, hi⟩ := List.mem_iff_getElem?.mp hsig
    obtain ⟨old, hold, hsame⟩ := forall₂_getElem? hchecked.same hi
    rw [voterById_eq, hids, ← voterById_eq, hsame.identityDigest]
    exact h.own hv old (List.mem_of_getElem? hold)
  · intro w hw
    obtain ⟨k, hk⟩ := List.mem_iff_getElem?.mp hw
    obtain ⟨v, r, hv, rfl, hchecked⟩ := hplace hk
    have halgs : r.1.sigs.map (·.alg) = v.sigs.map (·.alg) := by
      rw [← List.forall₂_eq_eq_eq, List.forall₂_map_left_iff, List.forall₂_map_right_iff]
      exact (hchecked.same.imp fun _ _ hs => hs.alg).flip
    rw [halgs]
    exact h.one v (List.mem_of_getElem? hv)
  · intro w hw sig hsig
    obtain ⟨k, hk⟩ := List.mem_iff_getElem?.mp hw
    obtain ⟨v, r, hv, rfl, hchecked⟩ := hplace hk
    exact hchecked.vouched sig hsig

/-- More than half of the configured authorities have a signature on the consensus that was
verified at one of the moments. -/
def HasQuorum (R : Rsa Key) (authorities : List Bytes) (moments : List (Moment Key))
    (t : NetworkStatus) : Prop :=
  ∃ ids : List Bytes, ids.Nodup ∧ ids ⊆ authorities ∧ authorities.length < 2 * ids.length
    ∧ ∀ id ∈ ids, ∃ v ∈ t.voters, ∃ sig ∈ v.sigs, sig.identityDigest = id
      ∧ ∃ m ∈ moments, VerifiedAt R m t.digests sig

/-- The voters with a good signature have different names. -/
theorem TrustedTarget.nodup {t : NetworkStatus} (h : TrustedTarget R authorities moments t)
    {p : VoterInfo → Bool} (hp : ∀ v ∈ t.voters, p v = true → v.sigs ≠ []) :
    ((t.voters.filter p).map (·.identityDigest)).Nodup := by
  have hfirst : ∀ {k : ℕ} {v : VoterInfo}, t.voters[k]? = some v → p v = true →
      t.voterById v.identityDigest = some k := by
    intro k v hv hpv
    obtain ⟨sig, rest, hsigs⟩ := List.exists_cons_of_ne_nil (hp v (List.mem_of_getElem? hv) hpv)
    have hsig : sig ∈ v.sigs := by
      rw [hsigs]
      exact List.mem_cons_self
    rw [← h.own_id hv hsig]
    exact h.own hv sig hsig
  rw [List.Nodup, List.pairwise_map, List.pairwise_filter, List.pairwise_iff_getElem]
  intro i j hi hj hlt hpi hpj hsame
  have hown := hfirst (List.getElem?_eq_getElem hi) hpi
  have hown' := hfirst (List.getElem?_eq_getElem hj) hpj
  rw [hsame] at hown
  have := Option.some.inj (hown.symm.trans hown')
  omega

/-- **What the answer means.** -/
theorem TrustedTarget.quorum {t t' : NetworkStatus} {r : ℤ} (hm : m ∈ moments)
    (h : TrustedTarget R authorities moments t) (hauth : authorities ≠ [])
    (hcheck : checkConsensusSignature R authorities m t = some (t', r)) (hr : 0 ≤ r) :
    HasQuorum R authorities moments t' := by
  obtain ⟨l, hl, hall⟩ := checkConsensusSignature_spec hm h
  have htrusted := h.checked hall
  unfold checkConsensusSignature at hcheck
  rw [hl, Option.map_some] at hcheck
  obtain ⟨rfl, hres⟩ := Prod.mk.inj (Option.some.inj hcheck)
  -- the voters with a good signature
  let p : VoterInfo → Bool := fun v => v.sigs.any (·.goodSignature)
  have hgood : (l.countP fun r => r.2 = .good) ≤ ((l.map (·.1)).filter p).length := by
    rw [← List.countP_eq_length_filter, List.countP_map]
    refine List.countP_mono_left fun r hr' hgood => ?_
    obtain ⟨k, hk⟩ := List.mem_iff_getElem?.mp hr'
    obtain ⟨v, -, hchecked⟩ := forall₂_getElem? hall hk
    exact List.any_eq_true.mpr (hchecked.good (of_decide_eq_true hgood))
  have hpos : 0 < authorities.length := List.length_pos_iff.mpr hauth
  have hmany : authorities.length < 2 * (l.countP fun r => r.2 = .good) := by
    split_ifs at hres <;> omega
  have hvoter : ∀ v ∈ (l.map (·.1)).filter p, v ∈ l.map (·.1) ∧ ∃ sig ∈ v.sigs,
      sig.identityDigest = v.identityDigest ∧ sig.goodSignature = true := by
    intro v hv
    obtain ⟨hmem, hpv⟩ := List.mem_filter.mp hv
    obtain ⟨sig, hsig, hgood⟩ := List.any_eq_true.mp hpv
    obtain ⟨k, hk⟩ := List.mem_iff_getElem?.mp hmem
    exact ⟨hmem, sig, hsig, htrusted.own_id hk hsig, hgood⟩
  refine ⟨((l.map (·.1)).filter p).map (·.identityDigest), ?_, ?_, ?_, ?_⟩
  · refine htrusted.nodup fun v _ hpv hnil => ?_
    rw [show p v = v.sigs.any (·.goodSignature) from rfl, hnil] at hpv
    cases hpv
  · intro id hid
    obtain ⟨v, hv, rfl⟩ := List.mem_map.mp hid
    obtain ⟨hmem, sig, hsig, hown, hgood⟩ := hvoter v hv
    rw [← hown]
    exact (htrusted.good hmem sig hsig hgood).1
  · rw [List.length_map]
    omega
  · intro id hid
    obtain ⟨v, hv, rfl⟩ := List.mem_map.mp hid
    obtain ⟨hmem, sig, hsig, hown, hgood⟩ := hvoter v hv
    exact ⟨v, hmem, sig, hsig, hown, (htrusted.good hmem sig hsig hgood).2⟩

end Check

/-! ## Any calls in any order -/

section Run

variable {Key : Type} {R : Rsa Key} {authorities : List Bytes} {m : Moment Key}
  {moments : List (Moment Key)} {ι : Type} [DecidableEq ι]

/-- **The history invariant**: every flag of a good signature, of the consensus or of a document,
comes from a check at one of the moments. -/
structure Trusted (R : Rsa Key) (authorities : List Bytes) (moments : List (Moment Key))
    (s : Round ι) : Prop where
  target : TrustedTarget R authorities moments s.target
  documents : ∀ {i : ι} {l : List DocumentSignature},
    (s.documents i).signatures.lookup (cstring s.target.flavor.name) = some l →
      ∀ sig ∈ l, Vouched R authorities moments s.target.digests sig

/-- What a call brings to the consensus are signatures of configured authorities, verified with
certificates that have not expired. -/
def AddsTrusted (R : Rsa Key) (authorities : List Bytes) (m : Moment Key) (s : Round ι) :
    TrustCall ι → Prop
  | .add i => ∀ l, signaturesFor s.target (s.documents i) = .ok l →
    ∀ sig ∈ l, SigTrusted R authorities m s.target sig
  | .check => True

/-- All calls are so, each in the state it finds. -/
def CallsTrusted (R : Rsa Key) (authorities : List Bytes) :
    Round ι → List (Moment Key × TrustCall ι) → Prop
  | _, [] => True
  | s, c :: calls => AddsTrusted R authorities c.1 s c.2
    ∧ ∀ s', s.call R authorities c.1 c.2 = some s' → CallsTrusted R authorities s' calls

theorem Trusted.add {s : Round ι} {i : ι} (h : Trusted R authorities moments s) (hm : m ∈ moments)
    (htrusted : AddsTrusted R authorities m s (.add i)) :
    Trusted R authorities moments (s.add (m.context R) i) := by
  unfold Round.add networkstatusAddDetachedSignatures
  cases hl : signaturesFor s.target (s.documents i) with
  | error msg => exact h
  | ok l =>
    have hkeeps := (addSignatures_spec (C := m.context R) l s.target).keeps
    obtain ⟨htarget, hsigs⟩ := h.target.addSignatures (l := l) hm
      (fun sig hsig => h.documents (signaturesFor_lookup hl) sig hsig) (htrusted l hl)
    refine ⟨htarget, ?_⟩
    intro k l' hlookup sig hsig
    show Vouched R authorities moments (addSignatures (m.context R) s.target l).1.digests sig
    rw [hkeeps.digests]
    replace hlookup : (Function.update s.documents i { s.documents i with
        signatures := (s.documents i).signatures.insert (cstring s.target.flavor.name)
          (addSignatures (m.context R) s.target l).2.1 } k).signatures.lookup
        (cstring (addSignatures (m.context R) s.target l).1.flavor.name) = some l' := hlookup
    rw [hkeeps.flavor] at hlookup
    by_cases hk : k = i
    · subst hk
      rw [Function.update_self] at hlookup
      rw [AList.lookup_insert] at hlookup
      obtain rfl := Option.some.inj hlookup
      exact hsigs sig hsig
    · rw [Function.update_of_ne hk] at hlookup
      exact h.documents hlookup sig hsig

/-- One call. -/
theorem Trusted.call {s : Round ι} {c : TrustCall ι} (h : Trusted R authorities moments s)
    (hm : m ∈ moments) (htrusted : AddsTrusted R authorities m s c) :
    ∃ s', s.call R authorities m c = some s' ∧ Trusted R authorities moments s' := by
  cases c with
  | add i => exact ⟨_, rfl, h.add hm htrusted⟩
  | check =>
    obtain ⟨l, hl, hall⟩ := checkConsensusSignature_spec hm h.target
    refine ⟨{ s with target := { s.target with voters := l.map (·.1) } }, ?_,
      h.target.checked hall, h.documents⟩
    unfold Round.call checkConsensusSignature
    rw [hl]
    rfl

/-- Any calls. -/
theorem Trusted.calls : ∀ {calls : List (Moment Key × TrustCall ι)} {s : Round ι},
    Trusted R authorities moments s → calls.map (·.1) ⊆ moments →
    CallsTrusted R authorities s calls →
    ∃ s', s.calls R authorities calls = some s' ∧ Trusted R authorities moments s'
  | [], s, h, _, _ => ⟨s, rfl, h⟩
  | c :: calls, s, h, hsub, htrusted => by
    rw [List.map_cons, List.cons_subset] at hsub
    obtain ⟨s₁, hcall, hfirst⟩ := h.call hsub.1 htrusted.1
    obtain ⟨s', hrest, hlast⟩ := hfirst.calls hsub.2 (htrusted.2 s₁ hcall)
    refine ⟨s', ?_, hlast⟩
    unfold Round.calls at hrest ⊢
    rw [List.foldlM_cons, hcall]
    exact hrest

/-- The calls leave the text that was signed. -/
theorem calls_digests {calls : List (Moment Key × TrustCall ι)} {s s' : Round ι}
    (h : s.calls R authorities calls = some s') : s'.target.digests = s.target.digests := by
  refine foldlM_invariant (I := fun r : Round ι => r.target.digests = s.target.digests) ?_ rfl h
  intro r c r' hr hcall
  cases hc : c.2 with
  | add i =>
    rw [hc] at hcall
    rw [← Option.some.inj hcall, (add_spec r i).1.digests]
    exact hr
  | check =>
    rw [hc] at hcall
    obtain ⟨res, hres, rfl⟩ := Option.map_eq_some_iff.mp hcall
    obtain ⟨l, -, rfl⟩ := Option.map_eq_some_iff.mp hres
    exact hr

/-! ## A consensus and documents as the parsers make them -/

/-- One signature of the footer. -/
theorem TrustedTarget.readSignature {acc acc' : NetworkStatus × ℕ} {tok : DirectoryToken}
    (h : TrustedTarget R authorities moments acc.1) (hread : readSignature acc tok = some acc') :
    TrustedTarget R authorities moments acc'.1 := by
  unfold Tor.readSignature at hread
  split_ifs at hread
  · cases hread
    exact h
  split at hread
  · cases hread
    exact h
  next alg idHexdigest skHexdigest _ =>
    split at hread
    next signature declaredIdentity _ _ =>
      split at hread
      next j signingKeyDigest hj _ =>
        split_ifs at hread with hdup
        · cases hread
          exact h
        · cases hread
          refine ⟨?_, ?_, ?_⟩
          · intro k w hw sig hsig
            rw [addSig_voterById]
            rw [addSig_getElem] at hw
            split_ifs at hw with hjk
            · subst hjk
              obtain ⟨v, hv, rfl⟩ := Option.map_eq_some_iff.mp hw
              rcases List.mem_append.mp hsig with hsig | hsig
              · exact h.own hv sig hsig
              · rw [List.mem_singleton.mp hsig]
                exact hj
            · exact h.own hw sig hsig
          · intro w hw
            obtain ⟨k, hk⟩ := List.mem_iff_getElem?.mp hw
            rw [addSig_getElem] at hk
            split_ifs at hk with hjk
            · subst hjk
              obtain ⟨v, hv, rfl⟩ := Option.map_eq_some_iff.mp hk
              have hnone : v.sigByAlg alg = none := by
                rw [hv, Option.any_some, Bool.not_eq_true] at hdup
                rw [← Option.isNone_iff_eq_none, ← Option.isSome_eq_false_iff]
                exact hdup
              rw [List.map_append, List.nodup_append]
              refine ⟨h.one v (List.mem_of_getElem? hv), by simp, ?_⟩
              intro a ha b hb hab
              obtain ⟨sig, hsig, rfl⟩ := List.mem_map.mp ha
              rw [List.map_singleton, List.mem_singleton] at hb
              exact sigByAlg_none hnone sig hsig (hab.trans hb)
            · exact h.one w (List.mem_of_getElem? hk)
          · intro w hw sig hsig hgood
            obtain ⟨k, hk⟩ := List.mem_iff_getElem?.mp hw
            rw [addSig_getElem] at hk
            split_ifs at hk with hjk
            · subst hjk
              obtain ⟨v, hv, rfl⟩ := Option.map_eq_some_iff.mp hk
              rcases List.mem_append.mp hsig with hsig | hsig
              · exact h.good (List.mem_of_getElem? hv) sig hsig hgood
              · rw [List.mem_singleton.mp hsig] at hgood
                cases hgood
            · exact h.good (List.mem_of_getElem? hk) sig hsig hgood
      next => cases hread
    next => cases hread

/-- A consensus as it is parsed: nothing is flagged yet. -/
theorem parseConsensus_trusted {D : KeyDecoder} {P : ConsensusParser} {body : Bytes}
    {ns : NetworkStatus} (h : parseConsensus D P body = some ns) :
    TrustedTarget R authorities moments ns := by
  unfold parseConsensus at h
  split at h
  · cases h
  next ns₀ s hbefore =>
    have hunsigned : ∀ {v : VoterInfo}, v ∈ ns₀.voters → v.sigs = [] :=
      fun hv => P.unsigned hbefore _ hv
    have hstart : TrustedTarget R authorities moments ns₀ := by
      refine ⟨?_, ?_, ?_⟩
      · intro k v hv sig hsig
        rw [hunsigned (List.mem_of_getElem? hv)] at hsig
        cases hsig
      · intro v hv
        rw [hunsigned hv]
        exact List.nodup_nil
      · intro v hv sig hsig
        rw [hunsigned hv] at hsig
        cases hsig
    unfold parseFooter at h
    split at h
    · cases h
    · split_ifs at h
      split at h
      · cases h
      next ns₁ n hread =>
        split_ifs at h
        cases h
        exact foldlM_invariant (I := fun acc => TrustedTarget R authorities moments acc.1)
          (fun ha hb => ha.readSignature hb) hstart hread

/-- **A consensus that is trusted has a quorum**, after any calls with documents that bring nothing
else than signatures of configured authorities with certificates that have not expired. -/
theorem consensus_has_quorum {D : KeyDecoder} {P : ConsensusParser}
    {parseIsoTime : Bytes → Option ℤ} {body : Bytes} {s : Round ι}
    {calls : List (Moment Key × TrustCall ι)} (m : Moment Key)
    (hbody : parseConsensus D P body = some s.target)
    (hdocs : ∀ i, ∃ text, parseDetachedSignatures D parseIsoTime text = some (s.documents i))
    (hauth : authorities ≠ []) (htrusted : CallsTrusted R authorities s calls) :
    ∃ s' t r, s.calls R authorities calls = some s'
      ∧ checkConsensusSignature R authorities m s'.target = some (t, r)
      ∧ (0 ≤ r → t.digests = s.target.digests
        ∧ HasQuorum R authorities (calls.map (·.1) ++ [m]) t) := by
  have hstart : Trusted R authorities (calls.map (·.1) ++ [m]) s := by
    refine ⟨parseConsensus_trusted hbody, ?_⟩
    intro i l hl sig hsig hgood
    obtain ⟨text, htext⟩ := hdocs i
    have hfresh := parseDetachedSignatures_spec htext _ l hl sig hsig
    rw [hfresh.not_good] at hgood
    cases hgood
  have hm : m ∈ calls.map (·.1) ++ [m] := List.mem_append_right _ (List.mem_singleton_self m)
  obtain ⟨s', hrun, hlast⟩ := hstart.calls (List.subset_append_left _ _) htrusted
  obtain ⟨l, hl, -⟩ := checkConsensusSignature_spec hm hlast.target
  obtain ⟨⟨t, r⟩, hcheck⟩ : ∃ res, checkConsensusSignature R authorities m s'.target = some res := by
    unfold checkConsensusSignature
    rw [hl]
    exact ⟨_, rfl⟩
  refine ⟨s', t, r, hrun, hcheck, fun hr => ⟨?_, hlast.target.quorum hm hauth hcheck hr⟩⟩
  obtain ⟨_, -, hres⟩ := Option.map_eq_some_iff.mp hcheck
  rw [← calls_digests hrun, ← (Prod.mk.inj hres).1]

end Run

/-! ## A document with the signature of a stranger -/

section Sample

/-- A key that shows the bytes it signed. -/
def sampleRsa : Rsa Unit where
  getDigest _ := some (sampleId 'K')
  publicChecksig _ signature := some (signature.take 32)

/-- A certificate for everybody, not expired. -/
def sampleMoment : Moment Unit where
  certs id := [⟨⟨id, (), sampleId 'K'⟩, 10⟩]
  now := 5

/-- The consensus with a signature of `A`, and a document with one of `B`. -/
def strangerRound : Option (Round Unit) :=
  match parseConsensus (fun _ => none) twoVotersParser samplePending.body,
    parseDetachedSignatures (fun _ => none) sampleIsoTime (sampleDocument []) with
  | some ns, some doc => some ⟨ns, fun _ => doc⟩
  | _, _ => none

theorem strangerRound_parsed {s : Round Unit} (h : strangerRound = some s) :
    parseConsensus (fun _ => none) twoVotersParser samplePending.body = some s.target
      ∧ ∀ i, ∃ text, parseDetachedSignatures (fun _ => none) sampleIsoTime text =
        some (s.documents i) := by
  unfold strangerRound at h
  split at h
  next ns doc hns hdoc =>
    cases h
    exact ⟨hns, fun _ => ⟨_, hdoc⟩⟩
  next => cases h

/-- The result of the check after the call with the document. -/
def strangerResult (authorities : List Bytes) (s : Round Unit) :
    Option (ℤ × List (List DocumentSignature)) :=
  match s.calls sampleRsa authorities [(sampleMoment, .add ())] with
  | none => none
  | some s' => (checkConsensusSignature sampleRsa authorities sampleMoment s'.target).map fun res =>
    (res.2, res.1.voters.map (·.sigs))

theorem strangerRound_signatures : (strangerRound.bind fun s =>
    (s.documents ()).signatures.lookup (cstring s.target.flavor.name)) =
      some [sampleSignature 'B' .sha1] := by
  decide +kernel

/-- Two of three. -/
theorem consensus_quorum_sample :
    ∃ s t r, strangerRound = some s
      ∧ (s.calls sampleRsa [sampleId 'A', sampleId 'B', sampleId 'C']
          [(sampleMoment, .add ())]).bind (fun s' => checkConsensusSignature sampleRsa
            [sampleId 'A', sampleId 'B', sampleId 'C'] sampleMoment s'.target) = some (t, r)
      ∧ (0 ≤ r → HasQuorum sampleRsa [sampleId 'A', sampleId 'B', sampleId 'C']
          [sampleMoment, sampleMoment] t) := by
  obtain ⟨s, hs, hlookup⟩ := Option.bind_eq_some_iff.mp strangerRound_signatures
  obtain ⟨hbody, hdocs⟩ := strangerRound_parsed hs
  have htrusted : CallsTrusted sampleRsa [sampleId 'A', sampleId 'B', sampleId 'C'] s
      [(sampleMoment, .add ())] := by
    refine ⟨?_, fun _ _ => trivial⟩
    intro l hl sig hsig j _ _ _ _
    have hl' := Option.some.inj ((signaturesFor_lookup hl).symm.trans hlookup)
    rw [hl', List.mem_singleton] at hsig
    rw [hsig]
    refine ⟨by decide, fun cert hcert => ?_⟩
    have hmem := List.mem_of_find?_eq_some hcert
    rw [List.mem_singleton.mp hmem]
    decide
  obtain ⟨s', t, r, hrun, hcheck, hquorum⟩ :=
    consensus_has_quorum sampleMoment hbody hdocs (by simp) htrusted
  refine ⟨s, t, r, hs, ?_, fun hr => (hquorum hr).2⟩
  rw [hrun, Option.bind_some]
  exact hcheck

/-- **The signature of somebody who is no authority counts** once a document brought it: of three
authorities only `A` has signed, and the consensus has enough. -/
theorem stranger_counts_for_quorum :
    ∃ s s' t r, strangerRound = some s
      ∧ s.calls sampleRsa [sampleId 'A', sampleId 'C', sampleId 'D'] [(sampleMoment, .add ())] =
        some s'
      ∧ checkConsensusSignature sampleRsa [sampleId 'A', sampleId 'C', sampleId 'D'] sampleMoment
        s'.target = some (t, r)
      ∧ 0 ≤ r
      ∧ ¬ HasQuorum sampleRsa [sampleId 'A', sampleId 'C', sampleId 'D']
        [sampleMoment, sampleMoment] t := by
  have hresult : (strangerRound.bind fun s =>
      strangerResult [sampleId 'A', sampleId 'C', sampleId 'D'] s) =
        some (0, [[{ sampleSignature 'A' .sha1 with goodSignature := true }],
          [{ sampleSignature 'B' .sha1 with goodSignature := true }]]) := by
    decide +kernel
  obtain ⟨s, hs, hresult⟩ := Option.bind_eq_some_iff.mp hresult
  unfold strangerResult at hresult
  split at hresult
  · cases hresult
  next s' hs' =>
    obtain ⟨⟨t, r⟩, hcheck, hpair⟩ := Option.map_eq_some_iff.mp hresult
    obtain ⟨rfl, hsigs⟩ := Prod.mk.inj hpair
    refine ⟨s, s', t, 0, hs, hs', hcheck, le_refl 0, fun hquorum => ?_⟩
    obtain ⟨ids, hnodup, hsub, hmany, hsigned⟩ := hquorum
    have hall : ∀ id ∈ ids, id ∈ [sampleId 'A'] := by
      intro id hid
      obtain ⟨v, hv, sig, hsig, hname, -⟩ := hsigned id hid
      have hmem : v.sigs ∈ t.voters.map (·.sigs) := List.mem_map_of_mem hv
      have hauth := hsub hid
      rw [hsigs, List.mem_pair] at hmem
      rcases hmem with hmem | hmem
      · rw [hmem, List.mem_singleton] at hsig
        rw [← hname, hsig]
        exact List.mem_singleton_self _
      · rw [hmem, List.mem_singleton] at hsig
        rw [← hname, hsig] at hauth
        exact absurd hauth (by decide)
    have hle := (List.subperm_of_subset hnodup hall).length_le
    simp only [List.length_cons, List.length_nil] at hmany hle
    omega

end Sample

end Dittor.Tor
