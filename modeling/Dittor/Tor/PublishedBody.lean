import Dittor.Tor.PendingConsensus

/-!
# A published consensus carries its good signatures (`dirvote.c`)

Whatever detached signatures are posted, the text of a pending consensus parses, and for
every voter and algorithm with a good signature the parsed text has exactly that signature.
The steps are those of `networkstatus_add_detached_signatures`, of which each keeps
`SignaturesInv`, and the rewriting of the text, which keeps `Stands`.

There is one condition. A document can have signatures of the ns flavor with an algorithm
other than SHA-1 (an `additional-signature ns sha256` line), the consensus keeps them, and the
line that is written for them does not name the algorithm. `sha256_signature_read_as_sha1` is
such a document, with a signature that is good.
-/

namespace Dittor.Tor

open Dittor.Lib

/-! ## Adding keeps the invariant -/

section Adding

variable {Key : Type} {C : CertContext Key}

/-- A signature that can be written without its algorithm getting lost: its line names the
algorithm or it is SHA-1, it is not kept as no voter is named, or it is not written as the check
says that it is bad. -/
def Safe (C : CertContext Key) (t : NetworkStatus) (sig : DocumentSignature) : Prop :=
  Unambiguous t.flavor sig ∨ t.voterById sig.identityDigest = none
    ∨ (tryChecking C t.digests sig).badSignature = true

/-- Nothing is changed, or the signature takes the place of none, of a bad one, or is good. -/
theorem addSignature_cases (t : NetworkStatus) (sig : DocumentSignature) :
    ((addSignature C t sig).1 = t ∧ (addSignature C t sig).2.2 = 0)
      ∨ ∃ j v, t.voterById sig.identityDigest = some j ∧ t.voters[j]? = some v
        ∧ (addSignature C t sig).1 =
          t.replaceSig j (v.sigByAlg sig.alg) (tryChecking C t.digests sig)
        ∧ (addSignature C t sig).2.2 = 1
        ∧ ((tryChecking C t.digests sig).goodSignature = true
          ∨ ∀ i old, v.sigByAlg sig.alg = some i → v.sigs[i]? = some old →
            old.badSignature = true) := by
  unfold addSignature
  split
  next => exact .inl ⟨rfl, rfl⟩
  next j hj =>
    split
    next => exact .inl ⟨rfl, rfl⟩
    next v hv =>
      dsimp only
      split
      next => exact .inl ⟨rfl, rfl⟩
      next =>
        split
        next hadd =>
          refine .inr ⟨j, v, hj, hv, rfl, rfl, ?_⟩
          rw [Bool.or_eq_true, Bool.or_eq_true] at hadd
          rcases hadd with (hgood | hnone) | hbad
          · exact .inl hgood
          · right
            intro i old hi hold
            rw [hi, Option.bind_some, hold] at hnone
            cases hnone
          · right
            intro i old hi hold
            rw [hi, Option.bind_some, hold] at hbad
            exact hbad
        next => exact .inl ⟨rfl, rfl⟩

/-- A signature after a replacement is the new one, or was there before. -/
theorem replaceSig_mem {t : NetworkStatus} {j k : ℕ} {v w : VoterInfo} {sig s : DocumentSignature}
    (hv : t.voters[j]? = some v)
    (hw : (t.replaceSig j (v.sigByAlg sig.alg) sig).voters[k]? = some w) (hs : s ∈ w.sigs) :
    (k = j ∧ s = sig) ∨ ∃ u, t.voters[k]? = some u ∧ s ∈ u.sigs := by
  rw [replaceSig_getElem] at hw
  split at hw
  next hjk =>
    subst hjk
    rw [hv, Option.map_some] at hw
    rw [← Option.some.inj hw] at hs
    rcases mem_replaceSig hs with rfl | hold
    · exact .inl ⟨rfl, rfl⟩
    · exact .inr ⟨v, hv, hold⟩
  next => exact .inr ⟨w, hw, hs⟩

/-- Something is written after a replacement as well. -/
theorem replaceSig_written {t : NetworkStatus} {j : ℕ} {v : VoterInfo} {sig : DocumentSignature}
    (hv : t.voters[j]? = some v)
    (hnew : sig.badSignature = false ∨ ∀ i old, v.sigByAlg sig.alg = some i →
      v.sigs[i]? = some old → old.badSignature = true)
    (h : ∃ w ∈ t.voters, ∃ s ∈ w.sigs, s.badSignature = false) :
    ∃ w ∈ (t.replaceSig j (v.sigByAlg sig.alg) sig).voters, ∃ s ∈ w.sigs,
      s.badSignature = false := by
  have hplace : (t.replaceSig j (v.sigByAlg sig.alg) sig).voters[j]? =
      some (v.replaceSig (v.sigByAlg sig.alg) sig) := by
    rw [replaceSig_getElem, if_pos rfl, hv, Option.map_some]
  rcases hnew with hgood | hbad
  · exact ⟨_, List.mem_of_getElem? hplace, sig, List.mem_append.mpr (.inr List.mem_cons_self),
      hgood⟩
  · obtain ⟨w, hw, s, hs, hok⟩ := h
    obtain ⟨k, hk⟩ := List.mem_iff_getElem?.mp hw
    by_cases hjk : j = k
    · subst hjk
      obtain rfl : v = w := Option.some.inj (hv.symm.trans hk)
      refine ⟨_, List.mem_of_getElem? hplace, s, List.mem_append.mpr (.inl ?_), hok⟩
      cases ho : v.sigByAlg sig.alg with
      | none => exact hs
      | some i =>
        obtain ⟨hi, -⟩ := sigByAlg_some ho
        refine (swapRemove_perm hi).mem_iff.mpr (List.mem_eraseIdx_iff_getElem?.mpr ?_)
        obtain ⟨m, hm⟩ := List.mem_iff_getElem?.mp hs
        refine ⟨m, fun he => ?_, hm⟩
        rw [he] at hm
        rw [hbad i s ho hm] at hok
        cases hok
    · refine ⟨w, List.mem_of_getElem? (i := k) ?_, s, hs, hok⟩
      rw [replaceSig_getElem, if_neg hjk, hk]

/-- A checked signature has at most one flag. -/
theorem tryChecking_flags {sig : DocumentSignature} (h : FreshSignature sig)
    (digests : CommonDigests) (hgood : (tryChecking C digests sig).goodSignature = true) :
    (tryChecking C digests sig).badSignature = false := by
  rcases tryChecking_cases (C := C) digests sig with heq | heq | heq
  · rw [heq]
    exact h.not_bad
  · rw [heq] at hgood
    exact absurd (hgood.symm.trans h.not_good) (by decide)
  · rw [heq]
    exact h.not_bad

/-- **One signature keeps the invariant.** -/
theorem SignaturesInv.addSignature {t : NetworkStatus} {sig : DocumentSignature}
    (h : SignaturesInv t) (hfresh : FreshSignature sig) (hsafe : Safe C t sig) :
    SignaturesInv (addSignature C t sig).1 := by
  have hone := (addSignature_spec C t sig).onePerAlgorithm h.one
  have hkeeps := (addSignature_spec C t sig).keeps
  rcases addSignature_cases (C := C) t sig with ⟨hsame, -⟩ | ⟨j, v, hj, hv, hreplaced, -, hold⟩
  · rw [hsame]
    exact h
  · have hchecked := tryChecking_same (C := C) t.digests sig
    have hflags := tryChecking_flags (C := C) hfresh t.digests
    rw [← hchecked.alg] at hreplaced hold
    rw [hreplaced] at hone hkeeps ⊢
    -- each field is about one signature: the new one, or one from before
    have hfrom : ∀ {w : VoterInfo},
        w ∈ (t.replaceSig j (v.sigByAlg (tryChecking C t.digests sig).alg)
          (tryChecking C t.digests sig)).voters →
        ∀ s ∈ w.sigs, s = tryChecking C t.digests sig ∨ ∃ u ∈ t.voters, s ∈ u.sigs := by
      intro w hw s hs
      obtain ⟨k, hk⟩ := List.mem_iff_getElem?.mp hw
      rcases replaceSig_mem hv hk hs with ⟨-, rfl⟩ | ⟨u, hu, hs⟩
      · exact .inl rfl
      · exact .inr ⟨u, List.mem_of_getElem? hu, hs⟩
    refine ⟨?_, ?_, hone, ?_, ?_, ?_, ?_⟩
    · intro w hw s hs
      rcases hfrom hw s hs with rfl | ⟨u, hu, hs⟩
      · refine ⟨?_, ?_, ?_, ?_⟩
        · rw [hchecked.identityDigest]
          exact hfresh.sizes.identity
        · rw [hchecked.signingKeyDigest]
          exact hfresh.sizes.signingKey
        · rw [hchecked.signature]
          exact hfresh.sizes.least
        · rw [hchecked.signature]
          exact hfresh.sizes.most
      · exact h.sizes hu s hs
    · intro k w hk s hs
      rw [hkeeps.voterById]
      rcases replaceSig_mem hv hk hs with ⟨rfl, rfl⟩ | ⟨u, hu, hs⟩
      · rw [hchecked.identityDigest]
        exact hj
      · exact h.own hu s hs
    · intro w hw s hs hbad hns
      rcases hfrom hw s hs with rfl | ⟨u, hu, hs⟩
      · rcases hsafe with halg | hnone | hisbad
        · rw [hchecked.alg]
          exact halg hns
        · rw [hj] at hnone
          cases hnone
        · rw [hbad] at hisbad
          cases hisbad
      · exact h.alg hu s hs hbad hns
    · intro w hw s hs hgood
      rcases hfrom hw s hs with rfl | ⟨u, hu, hs⟩
      · exact hflags hgood
      · exact h.flags hu s hs hgood
    · refine replaceSig_written hv ?_ h.written
      exact hold.imp_left hflags
    · have hlength := congrArg List.length hkeeps.ids
      rw [List.length_map, List.length_map] at hlength
      rw [hlength]
      exact h.few

theorem Keeps.safe {t t' : NetworkStatus} (h : Keeps t t') {sig : DocumentSignature}
    (hsafe : Safe C t sig) : Safe C t' sig := by
  unfold Safe at hsafe ⊢
  rw [h.flavor, h.voterById, h.digests]
  exact hsafe

/-- **All signatures of a document keep the invariant.** -/
theorem SignaturesInv.addSignatures {l : List DocumentSignature} : ∀ {t : NetworkStatus},
    SignaturesInv t → (∀ sig ∈ l, FreshSignature sig) → (∀ sig ∈ l, Safe C t sig) →
    SignaturesInv (addSignatures C t l).1 := by
  induction l with
  | nil => exact fun h _ _ => h
  | cons sig l ih =>
    intro t h hfresh hsafe
    have hkeeps := (addSignature_spec C t sig).keeps
    have hfirst := h.addSignature (hfresh sig List.mem_cons_self) (hsafe sig List.mem_cons_self)
    exact ih hfirst (fun s hs => hfresh s (List.mem_cons_of_mem _ hs))
      fun s hs => hkeeps.safe (hsafe s (List.mem_cons_of_mem _ hs))

/-- If none is added nothing is changed. -/
theorem addSignatures_zero {l : List DocumentSignature} : ∀ {t : NetworkStatus},
    (addSignatures C t l).2.2 = 0 → (addSignatures C t l).1 = t := by
  induction l with
  | nil => exact fun _ => rfl
  | cons sig l ih =>
    intro t h
    have hsum : (addSignature C t sig).2.2
        + (addSignatures C (addSignature C t sig).1 l).2.2 = 0 := h
    have hrest : (addSignatures C (addSignature C t sig).1 l).1 = (addSignature C t sig).1 :=
      ih (by omega)
    show (addSignatures C (addSignature C t sig).1 l).1 = t
    rw [hrest]
    rcases addSignature_cases (C := C) t sig with ⟨hsame, -⟩ | ⟨-, -, -, -, -, hone, -⟩
    · exact hsame
    · omega

end Adding

/-! ## The text after a rewriting -/

section Text

variable {D : KeyDecoder} {P : ConsensusParser}

/-- The parts of a body. -/
structure BodyParts where
  /-- The text before the first signature. -/
  head : Bytes
  /-- The signatures. -/
  sigs : Bytes
  ns : NetworkStatus
  /-- The lines of the footer, which `head` ends with, and their tokens. -/
  footer : Bytes
  tokens : List DirectoryToken

/-- The text is the one of this consensus, whatever its signatures are. -/
structure Stands (D : KeyDecoder) (P : ConsensusParser) (pc : PendingConsensus) (b : BodyParts) :
    Prop where
  found : findSignature pc.body = some (b.head, b.sigs)
  before : ∃ s t, P.before pc.body = some (b.ns, s) ∧ findSignature s = some (b.footer, t)
  footer : FooterLines D b.footer b.tokens
  flavor : b.ns.flavor = pc.consensus.flavor
  ids : b.ns.voters.map (·.identityDigest) = pc.consensus.voters.map (·.identityDigest)

/-- The body parses, and every good signature is what its voter has for its algorithm. -/
def Carried (D : KeyDecoder) (P : ConsensusParser) (pc : PendingConsensus) : Prop :=
  ∃ v, parseConsensus D P pc.body = some v
    ∧ ∀ (k : ℕ) (voter : VoterInfo), pc.consensus.voters[k]? = some voter →
      ∃ voter' : VoterInfo, v.voters[k]? = some voter' ∧ voter'.identityDigest = voter.identityDigest
        ∧ ∀ sig ∈ voter.sigs, sig.goodSignature = true →
          voter'.sigs.filter (fun s => s.alg = sig.alg) = [sig.unflagged]

/-- Signatures that are written behind a footer are what the parser reads. -/
theorem parseFooter_signatures {ns : NetworkStatus} {footer : Bytes} {tokens : List DirectoryToken}
    {flavor : ConsensusFlavor} {l : List DocumentSignature} (hfooter : FooterLines D footer tokens)
    (hunsigned : ∀ v ∈ ns.voters, v.sigs = []) (hne : l ≠ []) (hfew : l.length ≤ intMax)
    (hsizes : ∀ sig ∈ l, SignatureSizes sig) (halg : ∀ sig ∈ l, Unambiguous flavor sig)
    (hknown : ∀ sig ∈ l, ∃ j, ns.voterById sig.identityDigest = some j)
    (hdistinct : l.Pairwise Distinct) :
    parseFooter D ns (footer ++ signaturesText flavor l) = some (ns.attach l) := by
  have hfree : ∀ sig ∈ l, ∀ j v, ns.voterById sig.identityDigest = some j →
      ns.voters[j]? = some v → v.sigByAlg sig.alg = none := by
    intro sig _ j v _ hv
    rw [VoterInfo.sigByAlg, hunsigned v (List.mem_of_getElem? hv)]
    rfl
  have hread := foldlM_readSignature (n := 0) hsizes halg hknown hdistinct hfree
  rw [parseFooter, tokenizeString_signatures hfooter flavor hne hsizes hfew]
  dsimp only
  rw [if_pos (footerOk_append hfooter.ok hfooter.unsigned _ _), List.foldlM_append,
    foldlM_readSignature_other hfooter.unsigned, Option.bind_eq_bind, Option.bind_some, hread]
  dsimp only
  rw [if_neg]
  have := List.length_pos_iff.mpr hne
  omega

/-- The signatures in memory are read back, for voters of the same names. -/
theorem parseFooter_written {t ns : NetworkStatus} {footer : Bytes} {tokens : List DirectoryToken}
    (hinv : SignaturesInv t) (hfooter : FooterLines D footer tokens)
    (hids : ns.voters.map (·.identityDigest) = t.voters.map (·.identityDigest))
    (hunsigned : ∀ v ∈ ns.voters, v.sigs = []) :
    parseFooter D ns (footer ++ signaturesText t.flavor t.writtenSignatures) =
      some (ns.attach t.writtenSignatures) := by
  refine parseFooter_signatures hfooter hunsigned hinv.written_ne_nil hinv.written_length
    hinv.written_sizes ?_ ?_ hinv.written_distinct
  · intro sig hsig
    obtain ⟨v, hv, hmem, hbad⟩ := mem_writtenSignatures.mp hsig
    exact hinv.alg hv sig hmem hbad
  · intro sig hsig
    obtain ⟨v, hv, hmem, -⟩ := mem_writtenSignatures.mp hsig
    obtain ⟨k, hk⟩ := List.mem_iff_getElem?.mp hv
    refine ⟨k, ?_⟩
    rw [voterById_eq, hids, ← voterById_eq, hinv.own hk sig hmem]

/-- Among signatures of different algorithms there is one of each. -/
theorem filter_alg_eq {l : List DocumentSignature} (hnodup : (l.map (·.alg)).Nodup)
    {sig : DocumentSignature} (hsig : sig ∈ l) : l.filter (fun s => s.alg = sig.alg) = [sig] := by
  induction l with
  | nil => cases hsig
  | cons a l ih =>
    obtain ⟨hnew, hrest⟩ := List.nodup_cons.mp hnodup
    by_cases ha : a = sig
    · subst ha
      rw [List.filter_cons_of_pos (by simp), List.filter_eq_nil_iff.mpr]
      intro s hs heq
      exact hnew (List.mem_map.mpr ⟨s, hs, of_decide_eq_true heq⟩)
    · have hmem : sig ∈ l := (List.mem_cons.mp hsig).resolve_left fun h => ha h.symm
      have halg : ¬ a.alg = sig.alg := fun h => hnew (List.mem_map.mpr ⟨sig, hmem, h.symm⟩)
      rw [List.filter_cons_of_neg (by simpa using halg), ih hrest hmem]

/-- **The written text carries the good signatures, and stands again.** -/
theorem Stands.written {pc : PendingConsensus} {b : BodyParts} (h : Stands D P pc b)
    {t : NetworkStatus} (hinv : SignaturesInv t) (hflavor : t.flavor = pc.consensus.flavor)
    (hids : t.voters.map (·.identityDigest) = pc.consensus.voters.map (·.identityDigest)) :
    let pc' : PendingConsensus := ⟨t, b.head ++ signaturesText t.flavor t.writtenSignatures⟩
    (∃ b', Stands D P pc' b') ∧ Carried D P pc' := by
  intro pc'
  obtain ⟨s, rest, hbefore, hplace⟩ := h.before
  have hne := hinv.written_ne_nil
  have hflavor' : b.ns.flavor = t.flavor := h.flavor.trans hflavor.symm
  have hids' : b.ns.voters.map (·.identityDigest) = t.voters.map (·.identityDigest) :=
    h.ids.trans hids.symm
  have hbody : pc.body = b.head ++ b.sigs := findSignature_split h.found
  have hfound := h.found
  rw [hbody] at hbefore hfound
  have hbefore' := P.before_append hfound hbefore hplace hne hinv.written_sizes
  rw [hflavor'] at hbefore'
  have hparse : parseConsensus D P pc'.body = some (b.ns.attach t.writtenSignatures) := by
    rw [parseConsensus, hbefore']
    exact parseFooter_written hinv h.footer hids' (P.unsigned hbefore)
  refine ⟨⟨⟨b.head, signaturesText t.flavor t.writtenSignatures, b.ns, b.footer, b.tokens⟩,
    ?_⟩, b.ns.attach t.writtenSignatures, hparse, ?_⟩
  · refine ⟨findSignature_append (signaturesText_begins hne) hfound, ?_, h.footer, hflavor', hids'⟩
    rw [findSignature_split hplace] at hplace
    exact ⟨_, _, hbefore', findSignature_append (signaturesText_begins hne) hplace⟩
  · intro k voter hvoter
    have hids_k := congrArg (fun l => l[k]?) hids'
    simp only [List.getElem?_map] at hids_k
    have hvoter' : t.voters[k]? = some voter := hvoter
    rw [hvoter', Option.map_some] at hids_k
    obtain ⟨w, hw, hid⟩ := Option.map_eq_some_iff.mp hids_k
    have hattached := attach_getElem b.ns t.writtenSignatures k
    rw [hw, Option.map_some] at hattached
    refine ⟨_, hattached, hid, ?_⟩
    intro sig hsig hgood
    have hwritten : (t.writtenSignatures.filter fun s => b.ns.voterById s.identityDigest = some k) =
        voter.sigs.filter fun s => !s.badSignature := by
      rw [← written_filter hinv hvoter']
      simp only [voterById_eq, hids']
    have hmem : sig ∈ voter.sigs.filter fun s => !s.badSignature := by
      rw [List.mem_filter]
      exact ⟨hsig, by rw [hinv.flags (List.mem_of_getElem? hvoter') sig hsig hgood]; rfl⟩
    have hnodup : ((voter.sigs.filter fun s => !s.badSignature).map (·.alg)).Nodup :=
      (hinv.one voter (List.mem_of_getElem? hvoter')).sublist (List.filter_sublist.map _)
    show (w.sigs ++ _).filter _ = _
    rw [P.unsigned hbefore w (List.mem_of_getElem? hw), List.nil_append, hwritten, List.filter_map]
    show List.map _ (List.filter (fun s : DocumentSignature => decide (s.alg = sig.alg)) _) = _
    rw [filter_alg_eq hnodup hmem]
    rfl

/-- A pending consensus as `networkstatus_compute_consensus` writes it and
`dirvote_compute_consensuses` stores it, parsed from its text: with the signature of the
authority, and one of its legacy key if it has one. -/
structure Computed (D : KeyDecoder) (P : ConsensusParser) (pc : PendingConsensus) (b : BodyParts)
    (own : List DocumentSignature) : Prop where
  stands : Stands D P pc b
  parsed : parseConsensus D P pc.body = some pc.consensus
  sigs : b.sigs = signaturesText b.ns.flavor own
  own_ne_nil : own ≠ []
  own_two : own.length ≤ 2
  own_fresh : ∀ sig ∈ own, FreshSignature sig
  own_alg : ∀ sig ∈ own, sig.alg = match b.ns.flavor with
    | .ns => .sha1
    | .microdesc => .sha256
  own_voters : ∀ sig ∈ own, ∃ j, b.ns.voterById sig.identityDigest = some j
  own_distinct : own.Pairwise fun a b => a.identityDigest ≠ b.identityDigest
  few : 2 * b.ns.voters.length ≤ intMax

/-- Voters with one position have one name. -/
theorem voterById_inj {t : NetworkStatus} {a b : Bytes} {j : ℕ} (ha : t.voterById a = some j)
    (hb : t.voterById b = some j) : a = b := by
  obtain ⟨hlt, hsame, -⟩ := List.findIdx?_eq_some_iff_getElem.mp ha
  obtain ⟨hlt', hsame', -⟩ := List.findIdx?_eq_some_iff_getElem.mp hb
  exact (of_decide_eq_true hsame).symm.trans (of_decide_eq_true hsame')

theorem attach_voterById (ns : NetworkStatus) (l : List DocumentSignature) (id : Bytes) :
    (ns.attach l).voterById id = ns.voterById id := by
  have hids : (ns.attach l).voters.map (·.identityDigest) = ns.voters.map (·.identityDigest) := by
    refine List.ext_getElem? fun k => ?_
    rw [List.getElem?_map, List.getElem?_map, attach_getElem]
    cases ns.voters[k]? <;> rfl
  rw [voterById_eq, voterById_eq, hids]

/-- The signatures of a computed consensus are the authority's own. -/
theorem Computed.consensus {pc : PendingConsensus} {b : BodyParts} {own : List DocumentSignature}
    (h : Computed D P pc b own) : pc.consensus = b.ns.attach own := by
  obtain ⟨s, rest, hbefore, hplace⟩ := h.stands.before
  have hfound := h.stands.found
  have hsizes : ∀ sig ∈ own, SignatureSizes sig := fun sig hsig => (h.own_fresh sig hsig).sizes
  have halg : ∀ sig ∈ own, Unambiguous b.ns.flavor sig := by
    intro sig hsig hns
    have halg := h.own_alg sig hsig
    rw [hns] at halg
    exact halg
  have hdistinct : own.Pairwise Distinct := by
    refine h.own_distinct.imp ?_
    intro x y hne heq
    exact absurd heq hne
  have hbody : pc.body = b.head ++ b.sigs := findSignature_split hfound
  rw [hbody] at hbefore hfound
  have hbefore' := P.before_append hfound hbefore hplace h.own_ne_nil hsizes
  have htwo := h.own_two
  have hparsed := h.parsed
  rw [hbody, h.sigs, parseConsensus, hbefore'] at hparsed
  have hread := parseFooter_signatures h.stands.footer (P.unsigned hbefore) h.own_ne_nil
    (htwo.trans (by decide)) hsizes halg h.own_voters hdistinct
  exact Option.some.inj (hparsed.symm.trans hread)

/-- A computed consensus has the invariant. -/
theorem Computed.inv {pc : PendingConsensus} {b : BodyParts} {own : List DocumentSignature}
    (h : Computed D P pc b own) : SignaturesInv pc.consensus ∧ Carried D P pc := by
  obtain ⟨s, rest, hbefore, -⟩ := h.stands.before
  have hunsigned := P.unsigned hbefore
  have hmem : ∀ {k : ℕ} {v : VoterInfo}, pc.consensus.voters[k]? = some v →
      v.sigs = (own.filter fun sig => b.ns.voterById sig.identityDigest = some k).map
        DocumentSignature.unflagged := by
    intro k v hv
    rw [h.consensus, attach_getElem] at hv
    obtain ⟨w, hw, rfl⟩ := Option.map_eq_some_iff.mp hv
    rw [hunsigned w (List.mem_of_getElem? hw), List.nil_append]
  have hfrom : ∀ {k : ℕ} {v : VoterInfo}, pc.consensus.voters[k]? = some v → ∀ sig ∈ v.sigs,
      sig ∈ own ∧ b.ns.voterById sig.identityDigest = some k := by
    intro k v hv sig hsig
    rw [hmem hv] at hsig
    obtain ⟨s, hs, rfl⟩ := List.mem_map.mp hsig
    rw [List.mem_filter] at hs
    have hfresh := h.own_fresh s hs.1
    have hsame : s.unflagged = s := by
      show DocumentSignature.mk _ _ _ _ false false = s
      obtain ⟨-, hgood, hbad⟩ := hfresh
      cases s
      simp only at hgood hbad
      rw [hgood, hbad]
    rw [hsame]
    exact ⟨hs.1, of_decide_eq_true hs.2⟩
  have hfresh : ∀ {v : VoterInfo}, v ∈ pc.consensus.voters → ∀ sig ∈ v.sigs,
      FreshSignature sig := by
    intro v hv sig hsig
    obtain ⟨k, hk⟩ := List.mem_iff_getElem?.mp hv
    exact h.own_fresh sig (hfrom hk sig hsig).1
  have hlength : pc.consensus.voters.length = b.ns.voters.length := by
    rw [h.consensus, NetworkStatus.attach, List.length_mapIdx]
  refine ⟨⟨fun hv sig hsig => (hfresh hv sig hsig).sizes, ?_, ?_, ?_, ?_, ?_, ?_⟩, ?_⟩
  · intro k v hv sig hsig
    rw [h.consensus, attach_voterById]
    exact (hfrom hv sig hsig).2
  · intro v hv
    obtain ⟨k, hk⟩ := List.mem_iff_getElem?.mp hv
    rw [hmem hk, List.map_map]
    -- one voter, so that there is one signature at most
    have hle : (own.filter fun sig => b.ns.voterById sig.identityDigest = some k).Pairwise
        fun _ _ => False := by
      refine (h.own_distinct.sublist List.filter_sublist).imp_of_mem ?_
      intro x y hx hy hne
      rw [List.mem_filter] at hx hy
      exact hne (voterById_inj (of_decide_eq_true hx.2) (of_decide_eq_true hy.2))
    exact List.pairwise_map.mpr (hle.imp False.elim)
  · intro v hv sig hsig _ hns
    obtain ⟨k, hk⟩ := List.mem_iff_getElem?.mp hv
    have halg := h.own_alg sig (hfrom hk sig hsig).1
    rw [h.stands.flavor, hns] at halg
    exact halg
  · intro v hv sig hsig _
    exact (hfresh hv sig hsig).not_bad
  · obtain ⟨sig, rest', hown⟩ := List.exists_cons_of_ne_nil h.own_ne_nil
    have hsig : sig ∈ own := by
      rw [hown]
      exact List.mem_cons_self
    obtain ⟨j, hj⟩ := h.own_voters sig hsig
    obtain ⟨hlt, -⟩ := List.findIdx?_eq_some_iff_getElem.mp hj
    have hv : pc.consensus.voters[j]? = some _ :=
      List.getElem?_eq_getElem (i := j) (by rw [hlength]; exact hlt)
    refine ⟨_, List.mem_of_getElem? hv, sig.unflagged, ?_, rfl⟩
    rw [hmem hv]
    exact List.mem_map_of_mem (List.mem_filter.mpr ⟨hsig, decide_eq_true hj⟩)
  · rw [hlength]
    exact h.few
  · refine ⟨pc.consensus, h.parsed, fun k voter hvoter => ⟨voter, hvoter, rfl, ?_⟩⟩
    intro sig hsig hgood
    have := (hfresh (List.mem_of_getElem? hvoter) sig hsig).not_good
    rw [hgood] at this
    cases this

end Text

/-! ## All documents -/

section Run

variable {D : KeyDecoder} {P : ConsensusParser} {Key : Type} {C : CertContext Key}

/-- What holds of a pending consensus before and after every call. -/
structure Published (D : KeyDecoder) (P : ConsensusParser) (pc : PendingConsensus) : Prop where
  inv : SignaturesInv pc.consensus
  stands : ∃ b, Stands D P pc b
  carried : Carried D P pc

/-- A document of which no signature loses its algorithm. -/
def SafeDocument (C : CertContext Key) (t : NetworkStatus) (doc : DetachedSignatures) : Prop :=
  ∀ l, doc.signatures.lookup (cstring t.flavor.name) = some l → ∀ sig ∈ l, Safe C t sig

theorem Keeps.safeDocument {t t' : NetworkStatus} (h : Keeps t t') {doc : DetachedSignatures}
    (hsafe : SafeDocument C t doc) : SafeDocument C t' doc := by
  intro l hl sig hsig
  rw [h.flavor] at hl
  exact h.safe (hsafe l hl sig hsig)

/-- **One call**: the assertions hold, and the body carries the good signatures. -/
theorem Published.addToPending {pc : PendingConsensus} (h : Published D P pc)
    {doc : DetachedSignatures} (hfresh : FreshDocument doc)
    (hsafe : SafeDocument C pc.consensus doc) :
    ∃ res, addToPendingConsensus D P C pc doc = some res ∧ Published D P res.pc
      ∧ Keeps pc.consensus res.pc.consensus := by
  unfold addToPendingConsensus networkstatusAddDetachedSignatures
  cases hl : signaturesFor pc.consensus doc with
  | error msg => exact ⟨_, rfl, h, .refl _⟩
  | ok l =>
    have hlookup := signaturesFor_lookup hl
    have hkeeps := (addSignatures_spec (C := C) l pc.consensus).keeps
    have hinv : SignaturesInv (addSignatures C pc.consensus l).1 :=
      h.inv.addSignatures (hfresh _ l hlookup) (hsafe l hlookup)
    obtain ⟨b, hstands⟩ := h.stands
    have hne := hinv.written_ne_nil
    have hwritten := hstands.written hinv hkeeps.flavor hkeeps.ids
    have hformat : networkstatusFormatSignatures (addSignatures C pc.consensus l).1 false =
        some (signaturesText (addSignatures C pc.consensus l).1.flavor
          (addSignatures C pc.consensus l).1.writtenSignatures) := if_neg hne
    obtain ⟨v, hparsed, -⟩ := hwritten.2
    show ∃ res, (if (addSignatures C pc.consensus l).2.2 = 0 then _ else _) = some res ∧ _
    by_cases hr : (addSignatures C pc.consensus l).2.2 = 0
    · rw [if_pos hr, addSignatures_zero hr]
      exact ⟨_, rfl, h, .refl _⟩
    · rw [if_neg hr, hformat]
      dsimp only
      rw [hstands.found]
      dsimp only
      rw [hparsed]
      exact ⟨_, rfl, ⟨hinv, hwritten.1, hwritten.2⟩, hkeeps⟩

/-- All calls, one after the other. -/
theorem Published.addAllToPending {docs : List DetachedSignatures} : ∀ {pc : PendingConsensus},
    Published D P pc → (∀ doc ∈ docs, FreshDocument doc) →
    (∀ doc ∈ docs, SafeDocument C pc.consensus doc) →
    ∃ pc', addAllToPending D P C pc docs = some pc' ∧ Published D P pc' := by
  induction docs with
  | nil => exact fun h _ _ => ⟨_, rfl, h⟩
  | cons doc docs ih =>
    intro pc h hfresh hsafe
    obtain ⟨res, hres, hpub, hkeeps⟩ := h.addToPending (C := C) (hfresh doc List.mem_cons_self)
      (hsafe doc List.mem_cons_self)
    obtain ⟨pc', hpc', hfinal⟩ := ih hpub (fun d hd => hfresh d (List.mem_cons_of_mem _ hd))
      fun d hd => hkeeps.safeDocument (hsafe d (List.mem_cons_of_mem _ hd))
    refine ⟨pc', ?_, hfinal⟩
    rw [Tor.addAllToPending, List.foldlM_cons, hres]
    exact hpc'

end Run

/-! ## A consensus of two authorities -/

section Sample

/-- The footer of the sample. -/
def sampleFooter : Bytes := cstring "directory-footer\n"

/-- The name of an authority. -/
def sampleId (c : Char) : Bytes := List.replicate 20 (byte c)

/-- The lines of an authority. -/
def sampleSource (nickname : String) (c : Char) : Bytes :=
  [cstring "dir-source ", cstring nickname, cstring " ", base16Encode (sampleId c),
    cstring " 192.0.2.1 192.0.2.1 80 443\n", cstring "contact none\n", cstring "vote-digest ",
    base16Encode (sampleId c), cstring "\n"].flatten

/-- An unsigned consensus of two voters. -/
def sampleHead : Bytes :=
  [cstring "network-status-version 3\n", cstring "vote-status consensus\n",
    cstring "consensus-method 33\n", cstring "valid-after 2024-01-01 00:00:00\n",
    cstring "fresh-until 2024-01-01 01:00:00\n", cstring "valid-until 2024-01-01 03:00:00\n",
    cstring "voting-delay 300 300\n", cstring "known-flags Running Valid\n",
    sampleSource "alice" 'A', sampleSource "bob" 'B', sampleFooter].flatten

/-- SHA-1 and SHA-256 of the text, in hexadecimal. -/
def sampleHex : DigestAlgorithm → Bytes
  | .sha1 => cstring "AA3D5AFE76DAE02011D298E18A81DAC6D69987D3"
  | .sha256 => cstring "C6B2AB3B8D3009AABFF5A0338E89684181AB95CE2548BFC9FCDF754F9A5068B0"

def sampleDigests : CommonDigests := fun alg =>
  (base16Decode (sampleHex alg)).getD [] ++ List.replicate (32 - alg.length) 0

/-- The header. -/
def sampleNs : NetworkStatus where
  flavor := .ns
  validAfter := 1704067200
  freshUntil := 1704070800
  validUntil := 1704078000
  digests := sampleDigests
  voters := [⟨sampleId 'A', []⟩, ⟨sampleId 'B', []⟩]

/-- A parser that knows this text. -/
def sampleBefore (body : Bytes) : Option (NetworkStatus × Bytes) :=
  match findSignature body with
  | none => none
  | some (head, sigs) => if head = sampleHead then some (sampleNs, sampleFooter ++ sigs) else none

theorem sampleBefore_iff {body s : Bytes} {ns : NetworkStatus} :
    sampleBefore body = some (ns, s) ↔ ∃ sigs, findSignature body = some (sampleHead, sigs)
      ∧ ns = sampleNs ∧ s = sampleFooter ++ sigs := by
  unfold sampleBefore
  constructor
  · intro h
    split at h
    next => cases h
    next head sigs hfound =>
      split at h
      next hhead =>
        obtain ⟨rfl, rfl⟩ := Prod.mk.inj (Option.some.inj h)
        exact ⟨sigs, by rw [hfound, hhead], rfl, rfl⟩
      next => cases h
  · intro h
    obtain ⟨sigs, hfound, rfl, rfl⟩ := h
    rw [hfound]
    exact if_pos rfl

/-- The signatures begin behind the footer. -/
theorem findSignature_footer {sigs : Bytes} (h : cstring "directory-signature " <+: sigs) :
    findSignature (sampleFooter ++ sigs) = some (sampleFooter, sigs) :=
  findSignature_append h (s := cstring "directory-signature ") (by decide)

def twoVotersParser : ConsensusParser where
  before := sampleBefore
  unsigned h v hv := by
    obtain ⟨-, -, rfl, -⟩ := sampleBefore_iff.mp h
    have hall : ∀ v ∈ sampleNs.voters, v.sigs = [] := by decide
    exact hall v hv
  before_append hfound hbefore hplace l hne _ := by
    obtain ⟨sigs, hfound', rfl, rfl⟩ := sampleBefore_iff.mp hbefore
    obtain ⟨rfl, rfl⟩ := Prod.mk.inj (Option.some.inj (hfound.symm.trans hfound'))
    rw [findSignature_footer (findAtLine_spec hfound).2.1] at hplace
    obtain ⟨rfl, -⟩ := Prod.mk.inj (Option.some.inj hplace)
    exact sampleBefore_iff.mpr ⟨_, findSignature_append (signaturesText_begins hne) hfound, rfl, rfl⟩

theorem twoVotersParser_before (body : Bytes) : twoVotersParser.before body = sampleBefore body :=
  rfl

/-- The signature of an authority: the digest, filled up to the size of the key. -/
def sampleSignature (c : Char) (alg : DigestAlgorithm) : DocumentSignature where
  identityDigest := sampleId c
  signingKeyDigest := sampleId 'K'
  alg := alg
  signature := sampleDigests alg ++ List.replicate 96 (byte c)

/-- The consensus with the signature of its first voter. -/
def samplePending : PendingConsensus where
  consensus := sampleNs.attach [sampleSignature 'A' .sha1]
  body := sampleHead ++ signaturesText .ns [sampleSignature 'A' .sha1]

def sampleParts : BodyParts where
  head := sampleHead
  sigs := signaturesText .ns [sampleSignature 'A' .sha1]
  ns := sampleNs
  footer := sampleFooter
  tokens := [⟨kDirectoryFooter, [], none⟩]

/-- A certificate for everybody, with a key that shows the bytes it signed. -/
def twoVotersCerts : CertContext Unit where
  getDigest _ := some (sampleId 'K')
  publicChecksig _ signature := some (signature.take 32)
  trustedDirCerts id := [⟨id, (), sampleId 'K'⟩]

def sampleIsoTime (s : Bytes) : Option ℤ :=
  if s = cstring "2024-01-01 00:00:00" then some 1704067200
  else if s = cstring "2024-01-01 01:00:00" then some 1704070800
  else if s = cstring "2024-01-01 03:00:00" then some 1704078000
  else none

/-- A document with the SHA-1 signature of the second voter, behind the lines `more`. -/
def sampleDocument (more : Bytes) : Bytes :=
  [cstring "consensus-digest ", sampleHex .sha1, cstring "\nvalid-after 2024-01-01 00:00:00\n",
    cstring "fresh-until 2024-01-01 01:00:00\n", cstring "valid-until 2024-01-01 03:00:00\n", more,
    formatSignature .ns true (sampleSignature 'B' .sha1)].flatten

/-- The SHA-256 signature of the second voter on the same consensus. -/
def sampleAdditional : Bytes :=
  [cstring "additional-signature ns sha256 ", base16Encode (sampleId 'B'), cstring " ",
    base16Encode (sampleId 'K'), cstring "\n",
    signatureArmor (sampleSignature 'B' .sha256).signature].flatten

theorem samplePending_computed :
    Computed (fun _ => none) twoVotersParser samplePending sampleParts
      [sampleSignature 'A' .sha1] := by
  have hne : [sampleSignature 'A' .sha1] ≠ [] := by simp
  have hfound : findSignature samplePending.body = some (sampleHead, sampleParts.sigs) :=
    findSignature_append (signaturesText_begins hne) (s := cstring "directory-signature ")
      (by decide +kernel)
  have hbefore : twoVotersParser.before samplePending.body =
      some (sampleParts.ns, sampleParts.footer ++ sampleParts.sigs) := by
    rw [twoVotersParser_before, sampleBefore_iff]
    exact ⟨sampleParts.sigs, hfound, rfl, rfl⟩
  have hfooter : FooterLines (fun _ => none) sampleFooter sampleParts.tokens :=
    ⟨endsLine_newline (cstring "directory-footer"), by decide +kernel, by decide +kernel,
      by decide⟩
  have hfresh : FreshSignature (sampleSignature 'A' .sha1) :=
    ⟨⟨by decide, by decide, by decide, by decide⟩, rfl, rfl⟩
  have hvoter : ∀ sig ∈ [sampleSignature 'A' .sha1],
      ∃ j, sampleNs.voterById sig.identityDigest = some j := by
    intro sig hsig
    rw [List.mem_singleton.mp hsig]
    exact ⟨0, by decide⟩
  have hpre : cstring "directory-signature " <+: sampleParts.sigs := signaturesText_begins hne
  have hplace : findSignature (sampleParts.footer ++ sampleParts.sigs) =
      some (sampleParts.footer, sampleParts.sigs) := findSignature_footer hpre
  have hstands : Stands (fun _ => none) twoVotersParser samplePending sampleParts :=
    ⟨hfound, ⟨sampleParts.footer ++ sampleParts.sigs, sampleParts.sigs, hbefore, hplace⟩, hfooter, rfl,
      by decide⟩
  refine ⟨hstands, ?_, rfl, hne, by decide, ?_, ?_, hvoter,
    List.pairwise_singleton _ _, by decide⟩
  · rw [parseConsensus, hbefore]
    refine parseFooter_signatures hfooter (by decide) hne (by decide) ?_ ?_ hvoter
      (List.pairwise_singleton _ _)
    · intro sig hsig
      rw [List.mem_singleton.mp hsig]
      exact hfresh.sizes
    · intro sig hsig _
      rw [List.mem_singleton.mp hsig]
      rfl
  · intro sig hsig
    rw [List.mem_singleton.mp hsig]
    exact hfresh
  · intro sig hsig
    rw [List.mem_singleton.mp hsig]
    rfl

end Sample

end Dittor.Tor
