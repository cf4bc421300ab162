import Dittor.Tor.PublishedBody

/-!
# The digests of a detached-signature document

A document of detached signatures says which consensus it is about: by three times, and by
digest lines, one or more for each flavor. The parser keeps one digest for each flavor and
algorithm, the first that is not all zeros, and zeros mean that there is none. So a line of zeros,
and a line behind the right one of its algorithm, are not looked at when the signatures are added
(`addDetached_accepts_iff`); and that no digest was compared at all is noticed only in a message.
-/

namespace Dittor.Tor

open Dittor.Lib

/-- A digest line: the algorithm and the digest in hexadecimal. -/
abbrev DigestLine := DigestAlgorithm × Bytes

/-- The line a token is for a flavor. -/
def digestLine (flavor : Bytes) (tok : DirectoryToken) : Option DigestLine :=
  match digestFields tok with
  | none => none
  | some (alg, f, hexdigest) => if f = flavor then some (alg, hexdigest) else none

/-- The digest lines of a document for a flavor, in known algorithms. -/
def digestLines (tokens : List DirectoryToken) (flavor : Bytes) : List DigestLine :=
  tokens.filterMap (digestLine flavor)

/-- A digest as it stands in 32 bytes. -/
def padDigest (alg : DigestAlgorithm) (d : Bytes) : Bytes := d ++ List.replicate (32 - alg.length) 0

/-- The digest of the line is the consensus's. -/
def DigestLine.Agrees (target : NetworkStatus) (line : DigestLine) : Prop :=
  (base16Decode line.2).map (padDigest line.1) = some (target.digests line.1)

/-- The digest of the line is all zeros. -/
def DigestLine.IsZero (line : DigestLine) : Prop := (base16Decode line.2).any memIsZero = true

/-- The digest the parser keeps for an algorithm: the first that is not all zeros. -/
def firstDigest (lines : List DigestLine) (alg : DigestAlgorithm) : Option Bytes :=
  lines.findSome? fun line =>
    if line.1 = alg then (base16Decode line.2).filter fun d => !memIsZero d else none

/-- How it is kept. -/
def keptDigest (lines : List DigestLine) (alg : DigestAlgorithm) : Bytes :=
  ((firstDigest lines alg).map (padDigest alg)).getD (List.replicate 32 0)

/-! ## The first loop of the parser -/

theorem digestLines_append (tokens tokens' : List DirectoryToken) (flavor : Bytes) :
    digestLines (tokens ++ tokens') flavor =
      digestLines tokens flavor ++ digestLines tokens' flavor :=
  List.filterMap_append

theorem firstDigest_append (lines lines' : List DigestLine) (alg : DigestAlgorithm) :
    firstDigest (lines ++ lines') alg = (firstDigest lines alg).or (firstDigest lines' alg) :=
  List.findSome?_append

theorem firstDigest_singleton (line : DigestLine) (alg : DigestAlgorithm) :
    firstDigest [line] alg =
      if line.1 = alg then (base16Decode line.2).filter fun d => !memIsZero d else none := by
  rw [firstDigest, List.findSome?_singleton]

theorem firstDigest_nonzero {lines : List DigestLine} {alg : DigestAlgorithm} {d : Bytes}
    (h : firstDigest lines alg = some d) :
    ∃ before line after, lines = before ++ line :: after ∧ line.1 = alg
      ∧ base16Decode line.2 = some d ∧ memIsZero d = false ∧ firstDigest before alg = none := by
  obtain ⟨before, line, after, rfl, hline, hbefore⟩ := List.findSome?_eq_some_iff.mp h
  split_ifs at hline with halg
  obtain ⟨hd, hnonzero⟩ := Option.filter_eq_some_iff.mp hline
  exact ⟨before, line, after, rfl, halg, hd, by simpa using hnonzero,
    List.findSome?_eq_none_iff.mpr hbefore⟩

/-- Every line is in hexadecimal that comes before a digest of its algorithm is kept. -/
def LinesDecode (lines : List DigestLine) : Prop :=
  ∀ before line after, lines = before ++ line :: after →
    firstDigest before line.1 = none → ∃ d, base16Decode line.2 = some d

theorem LinesDecode.concat {lines : List DigestLine} {line : DigestLine} (h : LinesDecode lines)
    (hline : firstDigest lines line.1 = none → ∃ d, base16Decode line.2 = some d) :
    LinesDecode (lines ++ [line]) := by
  intro before line' after hsplit hnone
  -- the line is the last one, or stands in the old lines
  rcases List.eq_nil_or_concat after with rfl | ⟨after', last, rfl⟩
  · obtain ⟨rfl, hlast⟩ := List.append_inj' hsplit rfl
    obtain rfl := List.singleton_inj.mp hlast
    exact hline hnone
  · rw [List.concat_eq_append, ← List.cons_append, ← List.append_assoc] at hsplit
    obtain ⟨hlines, -⟩ := List.append_inj' hsplit rfl
    exact h before line' after' hlines hnone

/-- What the parser has kept of the digest lines of some tokens. -/
structure Kept (tokens : List DirectoryToken) (sigs : DetachedSignatures) : Prop where
  lengths : ∀ flavor, ∀ line ∈ digestLines tokens flavor, line.2.length = 2 * line.1.length
  lookup : ∀ flavor, sigs.digests.lookup flavor =
    if digestLines tokens flavor = [] then none else some (keptDigest (digestLines tokens flavor))
  decodes : ∀ flavor, LinesDecode (digestLines tokens flavor)

theorem memIsZero_append (a b : Bytes) : memIsZero (a ++ b) = (memIsZero a && memIsZero b) :=
  List.all_append

theorem memIsZero_replicate (n : ℕ) : memIsZero (List.replicate n 0) = true := by
  rw [memIsZero, List.all_eq_true]
  intro b hb
  rw [List.eq_of_mem_replicate hb]
  rfl

theorem memIsZero_padDigest (alg : DigestAlgorithm) (d : Bytes) :
    memIsZero (padDigest alg d) = memIsZero d := by
  rw [padDigest, memIsZero_append, memIsZero_replicate, Bool.and_true]

theorem eq_replicate_of_memIsZero {d : Bytes} (h : memIsZero d = true) :
    d = List.replicate d.length 0 := by
  refine List.eq_replicate_iff.mpr ⟨rfl, fun b hb => ?_⟩
  exact of_decide_eq_true (List.all_eq_true.mp h b hb)

/-- A kept digest is what a document without the algorithm has: zeros. -/
theorem padDigest_zero {alg : DigestAlgorithm} {d : Bytes} (hlen : d.length = alg.length)
    (h : memIsZero d = true) : padDigest alg d = List.replicate 32 0 := by
  rw [padDigest, eq_replicate_of_memIsZero h, hlen, List.replicate_append_replicate]
  congr 1
  cases alg <;> rfl

/-- The kept digests with the next line. -/
theorem keptDigest_concat {lines : List DigestLine} (line : DigestLine) {d : Bytes}
    (hnone : firstDigest lines line.1 = none) (hd : base16Decode line.2 = some d)
    (hlen : d.length = line.1.length) :
    keptDigest (lines ++ [line]) =
      Function.update (keptDigest lines) line.1 (padDigest line.1 d) := by
  funext alg
  unfold keptDigest
  rw [firstDigest_append, firstDigest_singleton]
  by_cases halg : alg = line.1
  · subst halg
    rw [hnone, Option.none_or, if_pos rfl, hd, Function.update_self]
    rw [Option.filter_some]
    cases hzero : memIsZero d with
    | true =>
      rw [padDigest_zero hlen hzero]
      rfl
    | false => rfl
  · rw [Function.update_of_ne halg, if_neg fun h => halg h.symm, Option.or_none]

/-- A line behind a digest that is kept changes nothing. -/
theorem keptDigest_repeated {lines : List DigestLine} (line : DigestLine) {d : Bytes}
    (hsome : firstDigest lines line.1 = some d) :
    keptDigest (lines ++ [line]) = keptDigest lines := by
  funext alg
  unfold keptDigest
  rw [firstDigest_append, firstDigest_singleton]
  by_cases halg : alg = line.1
  · subst halg
    rw [hsome, Option.some_or]
  · rw [if_neg fun h => halg h.symm, Option.or_none]

/-- The test for a digest that is already there. -/
theorem memIsZero_take_keptDigest {lines : List DigestLine} (alg : DigestAlgorithm)
    (hlengths : ∀ line ∈ lines, line.2.length = 2 * line.1.length) :
    memIsZero ((keptDigest lines alg).take alg.length) = true ↔ firstDigest lines alg = none := by
  unfold keptDigest
  cases hfirst : firstDigest lines alg with
  | none =>
    simp only [Option.map_none, Option.getD_none, List.take_replicate, iff_true]
    exact memIsZero_replicate _
  | some d =>
    obtain ⟨before, line, after, rfl, rfl, hd, hnonzero, -⟩ := firstDigest_nonzero hfirst
    have hhex := base16Decode_length hd
    have hline := hlengths line (by simp)
    have hlen : d.length = line.1.length := by omega
    simp [padDigest, List.take_left' hlen, hnonzero]

/-- One token of the first loop: the lines of its own flavor have one more, which is stored if no
digest of its algorithm is kept yet. -/
theorem addDigest_cases {tokens : List DirectoryToken} {sigs sigs' : DetachedSignatures}
    {tok : DirectoryToken} (h : Kept tokens sigs) (hstep : addDigest sigs tok = some sigs') :
    (sigs' = sigs ∧ ∀ f, digestLines (tokens ++ [tok]) f = digestLines tokens f)
      ∨ ∃ flavor line, (∀ f, f ≠ flavor → digestLines (tokens ++ [tok]) f = digestLines tokens f)
        ∧ digestLines (tokens ++ [tok]) flavor = digestLines tokens flavor ++ [line]
        ∧ line.2.length = 2 * line.1.length
        ∧ (firstDigest (digestLines tokens flavor) line.1 = none →
            ∃ d, base16Decode line.2 = some d)
        ∧ ∀ f, sigs'.digests.lookup f =
            if f = flavor then some (keptDigest (digestLines tokens flavor ++ [line]))
            else sigs.digests.lookup f := by
  have hlines : ∀ flavor, digestLines (tokens ++ [tok]) flavor =
      digestLines tokens flavor ++ (digestLine flavor tok).toList := by
    intro flavor
    rw [digestLines_append]
    cases hline : digestLine flavor tok <;> simp [digestLines, hline]
  unfold addDigest at hstep
  cases hfields : digestFields tok with
  | none =>
    rw [hfields] at hstep
    refine Or.inl ⟨(Option.some.inj hstep).symm, fun f => ?_⟩
    rw [hlines, digestLine, hfields]
    exact List.append_nil _
  | some fields =>
    obtain ⟨alg, flavor, hexdigest⟩ := fields
    rw [hfields] at hstep
    dsimp only at hstep
    have hdigests : (sigs.digests.lookup flavor).getD (fun _ => List.replicate 32 0) =
        keptDigest (digestLines tokens flavor) := by
      rw [h.lookup]
      split_ifs with hempty
      · rw [hempty]
        rfl
      · rfl
    rw [hdigests] at hstep
    have htest := memIsZero_take_keptDigest alg (h.lengths flavor)
    refine Or.inr ⟨flavor, (alg, hexdigest), fun f hf => ?_, ?_, ?_⟩
    · rw [hlines, digestLine, hfields]
      simp [Ne.symm hf]
    · rw [hlines, digestLine, hfields]
      simp
    split_ifs at hstep with hlength hkept
    all_goals rw [not_not] at hlength
    · -- a digest of this algorithm is kept
      have hnot : firstDigest (digestLines tokens flavor) alg ≠ none := by
        intro hnone
        rw [htest.mpr hnone] at hkept
        exact absurd hkept (by decide)
      obtain ⟨d, hd⟩ := Option.ne_none_iff_exists'.mp hnot
      cases hstep
      refine ⟨hlength, fun hnone => absurd hnone hnot, fun f => ?_⟩
      rw [keptDigest_repeated (alg, hexdigest) hd]
      split_ifs with hf
      · subst hf
        exact AList.lookup_insert _
      · exact AList.lookup_insert_ne hf
    · have hnone : firstDigest (digestLines tokens flavor) alg = none := by
        refine htest.mp ?_
        simpa using hkept
      cases hd : base16Decode hexdigest with
      | none =>
        rw [hd] at hstep
        cases hstep
      | some d =>
        rw [hd] at hstep
        cases hstep
        refine ⟨hlength, fun _ => ⟨d, rfl⟩, fun f => ?_⟩
        have hlen : d.length = alg.length := by
          have hhex := base16Decode_length hd
          omega
        rw [keptDigest_concat (alg, hexdigest) hnone hd hlen]
        split_ifs with hf
        · subst hf
          exact AList.lookup_insert _
        · exact (AList.lookup_insert_ne hf).trans (AList.lookup_insert_ne hf)

theorem Kept.step {tokens : List DirectoryToken} {sigs sigs' : DetachedSignatures}
    {tok : DirectoryToken} (h : Kept tokens sigs) (hstep : addDigest sigs tok = some sigs') :
    Kept (tokens ++ [tok]) sigs' := by
  rcases addDigest_cases h hstep with ⟨rfl, hsame⟩ |
    ⟨flavor, line, hother, hown, hlength, hdecodes, hlookup⟩
  · refine ⟨?_, ?_, ?_⟩ <;> simp only [hsame]
    · exact h.lengths
    · exact h.lookup
    · exact h.decodes
  · refine ⟨fun f => ?_, fun f => ?_, fun f => ?_⟩
    all_goals by_cases hf : f = flavor
    · subst hf
      intro l hl
      rw [hown, List.mem_append, List.mem_singleton] at hl
      rcases hl with hl | rfl
      · exact h.lengths _ l hl
      · exact hlength
    · rw [hother f hf]
      exact h.lengths f
    · subst hf
      rw [hlookup, if_pos rfl, hown, if_neg (by simp)]
    · rw [hlookup, if_neg hf, hother f hf]
      exact h.lookup f
    · subst hf
      rw [hown]
      exact (h.decodes _).concat hdecodes
    · rw [hother f hf]
      exact h.decodes f

/-- The whole loop. -/
theorem Kept.foldlM : ∀ {ts tokens : List DirectoryToken} {sigs sigs' : DetachedSignatures},
    Kept tokens sigs → ts.foldlM addDigest sigs = some sigs' → Kept (tokens ++ ts) sigs'
  | [], tokens, sigs, sigs', h, hrun => by
    cases hrun
    rw [List.append_nil]
    exact h
  | tok :: ts, tokens, sigs, sigs', h, hrun => by
    rw [List.foldlM_cons] at hrun
    obtain ⟨sigs₁, hstep, hrun⟩ := Option.bind_eq_some_iff.mp hrun
    have hrest := Kept.foldlM (h.step hstep) hrun
    rwa [List.append_assoc] at hrest

/-! ## What the checker sees -/

/-- The second loop looks at signatures only. -/
theorem addDetachedSignature_digests {sigs sigs' : DetachedSignatures} {tok : DirectoryToken}
    (h : addDetachedSignature sigs tok = some sigs') : sigs'.digests = sigs.digests := by
  unfold addDetachedSignature at h
  split at h
  · cases h
    rfl
  · cases h
    rfl
  · split at h
    · cases h
      rfl
    · cases h

/-- What is kept of a document that parses. -/
theorem parseDetachedSignatures_kept {D : KeyDecoder} {parseIsoTime : Bytes → Option ℤ}
    {s : Bytes} {sigs : DetachedSignatures} {tokens : List DirectoryToken}
    (htokens : tokenizeString D detachedTokenTable {} [] s = .ok tokens)
    (h : parseDetachedSignatures D parseIsoTime s = some sigs) : Kept tokens sigs := by
  unfold parseDetachedSignatures at h
  rw [htokens] at h
  obtain ⟨_, ht, h⟩ := Option.bind_eq_some_iff.mp h
  cases ht
  obtain ⟨sigs₁, hdigests, h⟩ := Option.bind_eq_some_iff.mp h
  obtain ⟨validAfter, -, h⟩ := Option.bind_eq_some_iff.mp h
  obtain ⟨freshUntil, -, h⟩ := Option.bind_eq_some_iff.mp h
  obtain ⟨validUntil, -, h⟩ := Option.bind_eq_some_iff.mp h
  have hstart : Kept [] ⟨0, 0, 0, ∅, ∅⟩ :=
    ⟨by simp [digestLines], by simp [digestLines], by simp [LinesDecode, digestLines]⟩
  have hkept : Kept tokens sigs₁ := hstart.foldlM hdigests
  have hsame : sigs.digests = sigs₁.digests :=
    foldlM_invariant (I := fun a => a.digests = sigs₁.digests)
      (fun ha hb => (addDetachedSignature_digests hb).trans ha) rfl h
  refine ⟨hkept.lengths, fun flavor => ?_, hkept.decodes⟩
  rw [hsame]
  exact hkept.lookup flavor

/-- The times of the document are the consensus's. -/
def SameTimes (target : NetworkStatus) (sigs : DetachedSignatures) : Prop :=
  target.validAfter = sigs.validAfter ∧ target.freshUntil = sigs.freshUntil
    ∧ target.validUntil = sigs.validUntil

/-- The document is about this consensus: the times are its times, there is a digest for its
flavor, and every one is its digest. -/
structure ForConsensus (target : NetworkStatus) (tokens : List DirectoryToken)
    (sigs : DetachedSignatures) : Prop where
  times : SameTimes target sigs
  given : digestLines tokens (cstring target.flavor.name) ≠ []
  agree : ∀ line ∈ digestLines tokens (cstring target.flavor.name), line.Agrees target

/-- A line is not looked at: it is all zeros, or a right one of its algorithm is before it. -/
def Overlooked (target : NetworkStatus) (before : List DigestLine) (line : DigestLine) : Prop :=
  line.IsZero ∨ ∃ earlier ∈ before, earlier.1 = line.1 ∧ earlier.Agrees target ∧ ¬ earlier.IsZero

/-- Every wrong line is overlooked. -/
def WrongOverlooked (target : NetworkStatus) (lines : List DigestLine) : Prop :=
  ∀ before line after, lines = before ++ line :: after → ¬ line.Agrees target →
    Overlooked target before line

theorem isZero_iff {line : DigestLine} {d : Bytes} (hd : base16Decode line.2 = some d) :
    line.IsZero ↔ memIsZero d = true := by
  rw [DigestLine.IsZero, hd, Option.any_some]

theorem agrees_iff {target : NetworkStatus} {line : DigestLine} {d : Bytes}
    (hd : base16Decode line.2 = some d) :
    line.Agrees target ↔ padDigest line.1 d = target.digests line.1 := by
  rw [DigestLine.Agrees, hd, Option.map_some, Option.some.injEq]

/-- A digest is kept once there is a line that is right and not zero. -/
theorem firstDigest_ne_none {target : NetworkStatus} {lines : List DigestLine} {line : DigestLine}
    (hmem : line ∈ lines) (hagrees : line.Agrees target) (hzero : ¬ line.IsZero) :
    firstDigest lines line.1 ≠ none := by
  intro hnone
  obtain ⟨d, hd, -⟩ := Option.map_eq_some_iff.mp hagrees
  have hline := List.findSome?_eq_none_iff.mp hnone line hmem
  rw [if_pos rfl, hd, Option.filter_eq_none_iff] at hline
  rw [isZero_iff hd] at hzero
  have hd' := hline d rfl
  simp [hzero] at hd'

/-- What the kept digests say about the lines. -/
theorem kept_agree_iff {target : NetworkStatus} {lines : List DigestLine} (h : LinesDecode lines) :
    (∀ alg d, firstDigest lines alg = some d → padDigest alg d = target.digests alg) ↔
      WrongOverlooked target lines := by
  constructor
  · intro hkept before line after hsplit hwrong
    cases hfirst : firstDigest before line.1 with
    | some d =>
      obtain ⟨before', earlier, after', rfl, halg, hd, hnonzero, -⟩ := firstDigest_nonzero hfirst
      refine Or.inr ⟨earlier, by simp, halg, ?_, ?_⟩
      · rw [agrees_iff hd, halg]
        refine hkept line.1 d ?_
        rw [hsplit, firstDigest_append, hfirst, Option.some_or]
      · rw [isZero_iff hd, hnonzero]
        exact Bool.false_ne_true
    | none =>
      obtain ⟨d, hd⟩ := h before line after hsplit hfirst
      refine Or.inl ((isZero_iff hd).mpr ?_)
      by_contra hnonzero
      rw [Bool.not_eq_true] at hnonzero
      refine hwrong ((agrees_iff hd).mpr (hkept line.1 d ?_))
      rw [hsplit, firstDigest_append, hfirst, Option.none_or, firstDigest, List.findSome?_cons,
        if_pos rfl, hd, Option.filter_some, hnonzero]
      rfl
  · intro hwrong alg d hfirst
    obtain ⟨before, line, after, hsplit, rfl, hd, hnonzero, hnone⟩ := firstDigest_nonzero hfirst
    rw [← agrees_iff hd]
    by_contra hline
    rcases hwrong before line after hsplit hline with hzero | ⟨earlier, hmem, halg, hagrees, hzero⟩
    · rw [isZero_iff hd, hnonzero] at hzero
      exact absurd hzero Bool.false_ne_true
    · refine firstDigest_ne_none hmem hagrees hzero ?_
      rw [halg]
      exact hnone

/-- The test of a digest. -/
def digestPasses (target : NetworkStatus) (digests : CommonDigests) (alg : DigestAlgorithm) : Prop :=
  memIsZero (digests alg) = true ∨ target.digests alg = digests alg

theorem keptDigest_passes_iff (target : NetworkStatus) (lines : List DigestLine)
    (alg : DigestAlgorithm) :
    digestPasses target (keptDigest lines) alg
      ↔ ∀ d, firstDigest lines alg = some d → padDigest alg d = target.digests alg := by
  unfold digestPasses keptDigest
  cases hfirst : firstDigest lines alg with
  | none => exact ⟨fun _ d hd => (by cases hd), fun _ => Or.inl (memIsZero_replicate 32)⟩
  | some d =>
    obtain ⟨_, _, _, -, -, -, hnonzero, -⟩ := firstDigest_nonzero hfirst
    rw [Option.map_some, Option.getD_some, memIsZero_padDigest, hnonzero]
    simp [eq_comm]

/-- The tests before the loop. -/
theorem signaturesFor_ok_iff {target : NetworkStatus} {sigs : DetachedSignatures}
    {siglist : List DocumentSignature} :
    signaturesFor target sigs = .ok siglist ↔
      SameTimes target sigs
        ∧ sigs.signatures.lookup (cstring target.flavor.name) = some siglist
        ∧ ∃ digests, sigs.digests.lookup (cstring target.flavor.name) = some digests
          ∧ ∀ alg, digestPasses target digests alg := by
  have htest : ∀ digests : CommonDigests, ([DigestAlgorithm.sha1, .sha256].any fun alg =>
      !memIsZero (digests alg) && target.digests alg ≠ digests alg) = false ↔
        ∀ alg, digestPasses target digests alg := by
    intro digests
    rw [List.any_eq_false]
    constructor
    · intro h alg
      have halg := h alg (by cases alg <;> simp)
      rw [Bool.and_eq_true, not_and_or, Bool.not_eq_true', Bool.not_eq_false, decide_eq_true_eq,
        not_not] at halg
      exact halg
    · intro h alg _
      rw [Bool.and_eq_true, not_and_or, Bool.not_eq_true', Bool.not_eq_false, decide_eq_true_eq,
        not_not]
      exact h alg
  unfold signaturesFor SameTimes
  split_ifs with hva hfu hvu
  · simp [hva]
  · simp [hfu]
  · simp [hvu]
  rw [not_not] at hva hfu hvu
  simp only [hva, hfu, hvu, true_and]
  cases sigs.signatures.lookup (cstring target.flavor.name) with
  | none => simp
  | some siglist' =>
    cases sigs.digests.lookup (cstring target.flavor.name) with
    | none => simp
    | some digests =>
      dsimp only
      split_ifs with hany
      · have hno : ¬ ∀ alg, digestPasses target digests alg := by
          rw [← htest, hany]
          decide
        simp [hno]
      · have hyes := (htest digests).mp (Bool.eq_false_iff.mpr hany)
        simp [hyes]

/-- **When signatures are added**: the last condition is all that is asked of the digests. -/
theorem addDetached_accepts_iff {Key : Type} (C : CertContext Key) (target : NetworkStatus)
    {tokens : List DirectoryToken} {sigs : DetachedSignatures} (h : Kept tokens sigs) :
    (∃ res, networkstatusAddDetachedSignatures C target sigs = .ok res) ↔
      SameTimes target sigs
        ∧ (∃ siglist, sigs.signatures.lookup (cstring target.flavor.name) = some siglist)
        ∧ digestLines tokens (cstring target.flavor.name) ≠ []
        ∧ WrongOverlooked target (digestLines tokens (cstring target.flavor.name)) := by
  have hok : (∃ res, networkstatusAddDetachedSignatures C target sigs = .ok res) ↔
      ∃ siglist, signaturesFor target sigs = .ok siglist := by
    unfold networkstatusAddDetachedSignatures
    cases signaturesFor target sigs with
    | error msg => exact ⟨fun ⟨_, h⟩ => (by cases h), fun ⟨_, h⟩ => (by cases h)⟩
    | ok siglist => exact ⟨fun _ => ⟨siglist, rfl⟩, fun _ => ⟨_, rfl⟩⟩
  rw [hok, ← kept_agree_iff (h.decodes _)]
  simp only [signaturesFor_ok_iff, h.lookup]
  constructor
  · intro hall
    obtain ⟨siglist, htimes, hsiglist, digests, hdigests, hpass⟩ := hall
    split_ifs at hdigests with hempty
    cases hdigests
    exact ⟨htimes, ⟨siglist, hsiglist⟩, hempty, fun alg => (keptDigest_passes_iff _ _ alg).mp
      (hpass alg)⟩
  · intro hall
    obtain ⟨htimes, ⟨siglist, hsiglist⟩, hempty, hagree⟩ := hall
    exact ⟨siglist, htimes, hsiglist, _, if_neg hempty, fun alg =>
      (keptDigest_passes_iff _ _ alg).mpr (hagree alg)⟩

/-- **A document about another consensus is refused, but for one kind**: one with the right times
and signatures for the flavor, with a wrong digest, all of whose wrong digests are overlooked. What
is refused changes nothing. -/
theorem other_document_refused_iff {Key : Type} {C : CertContext Key} {D : KeyDecoder}
    {parseIsoTime : Bytes → Option ℤ} {s : Bytes} {tokens : List DirectoryToken}
    {sigs : DetachedSignatures} (target : NetworkStatus)
    (htokens : tokenizeString D detachedTokenTable {} [] s = .ok tokens)
    (hparse : parseDetachedSignatures D parseIsoTime s = some sigs) :
    (ForConsensus target tokens sigs
        ∨ ∃ msg, networkstatusAddDetachedSignatures C target sigs = .error msg) ↔
      ¬ (SameTimes target sigs
        ∧ (∃ siglist, sigs.signatures.lookup (cstring target.flavor.name) = some siglist)
        ∧ (∃ line ∈ digestLines tokens (cstring target.flavor.name), ¬ line.Agrees target)
        ∧ WrongOverlooked target (digestLines tokens (cstring target.flavor.name))) := by
  have haccepts := addDetached_accepts_iff C target
    (parseDetachedSignatures_kept htokens hparse)
  constructor
  · intro hmeets hkind
    obtain ⟨htimes, hsiglist, ⟨line, hline, hwrong⟩, hoverlooked⟩ := hkind
    rcases hmeets with hfor | ⟨msg, hmsg⟩
    · exact hwrong (hfor.agree line hline)
    · obtain ⟨res, hres⟩ := haccepts.mpr
        ⟨htimes, hsiglist, List.ne_nil_of_mem hline, hoverlooked⟩
      rw [hmsg] at hres
      cases hres
  · intro hkind
    cases hres : networkstatusAddDetachedSignatures C target sigs with
    | error msg => exact Or.inr ⟨msg, rfl⟩
    | ok res =>
      obtain ⟨htimes, hsiglist, hempty, hoverlooked⟩ := haccepts.mp ⟨res, hres⟩
      refine Or.inl ⟨htimes, hempty, fun line hline => ?_⟩
      by_contra hwrong
      exact hkind ⟨htimes, hsiglist, ⟨line, hline, hwrong⟩, hoverlooked⟩

/-! ## A document with a digest of zeros -/

/-- The sample document with another digest. -/
def documentWithDigest (hexdigest : Bytes) : Bytes :=
  [cstring "consensus-digest ", hexdigest, cstring "\nvalid-after 2024-01-01 00:00:00\n",
    cstring "fresh-until 2024-01-01 01:00:00\n", cstring "valid-until 2024-01-01 03:00:00\n",
    formatSignature .ns true (sampleSignature 'B' .sha1)].flatten

/-- What matters of a document: its lines for the flavor ns, times and signatures. -/
def documentContent (s : Bytes) :
    Option (List DigestLine × (ℤ × ℤ × ℤ) × Option (List DocumentSignature)) :=
  match tokenizeString (fun _ => none) detachedTokenTable {} [] s,
    parseDetachedSignatures (fun _ => none) sampleIsoTime s with
  | .ok tokens, some sigs =>
    some (digestLines tokens (cstring "ns"), (sigs.validAfter, sigs.freshUntil, sigs.validUntil),
      sigs.signatures.lookup (cstring "ns"))
  | _, _ => none

theorem documentContent_eq_some {s : Bytes} {lines : List DigestLine} {times : ℤ × ℤ × ℤ}
    {siglist : Option (List DocumentSignature)} (h : documentContent s = some (lines, times, siglist)) :
    ∃ tokens sigs, tokenizeString (fun _ => none) detachedTokenTable {} [] s = .ok tokens
      ∧ parseDetachedSignatures (fun _ => none) sampleIsoTime s = some sigs
      ∧ digestLines tokens (cstring "ns") = lines
      ∧ (sigs.validAfter, sigs.freshUntil, sigs.validUntil) = times
      ∧ sigs.signatures.lookup (cstring "ns") = siglist := by
  unfold documentContent at h
  split at h
  next tokens sigs htokens hsigs =>
    cases h
    exact ⟨tokens, sigs, htokens, hsigs, rfl, rfl, rfl⟩
  next => cases h

theorem documentContent_right : documentContent (documentWithDigest (sampleHex .sha1)) =
    some ([(.sha1, sampleHex .sha1)], (1704067200, 1704070800, 1704078000),
      some [sampleSignature 'B' .sha1]) := by
  decide +kernel

theorem documentContent_zero :
    documentContent (documentWithDigest (List.replicate 40 (byte '0'))) =
      some ([(.sha1, List.replicate 40 (byte '0'))], (1704067200, 1704070800, 1704078000),
        some [sampleSignature 'B' .sha1]) := by
  decide +kernel

/-- The right document. -/
theorem own_document_not_refused :
    ∃ tokens sigs, tokenizeString (fun _ => none) detachedTokenTable {} []
          (documentWithDigest (sampleHex .sha1)) = .ok tokens
      ∧ parseDetachedSignatures (fun _ => none) sampleIsoTime
          (documentWithDigest (sampleHex .sha1)) = some sigs
      ∧ (ForConsensus sampleNs tokens sigs
        ∨ ∃ msg, networkstatusAddDetachedSignatures twoVotersCerts sampleNs sigs = .error msg) := by
  obtain ⟨tokens, sigs, htokens, hsigs, hlines, -, -⟩ :=
    documentContent_eq_some documentContent_right
  refine ⟨tokens, sigs, htokens, hsigs, ?_⟩
  refine (other_document_refused_iff (C := twoVotersCerts) sampleNs htokens hsigs).mpr ?_
  intro hkind
  obtain ⟨-, -, ⟨line, hline, hwrong⟩, -⟩ := hkind
  rw [show cstring sampleNs.flavor.name = cstring "ns" from rfl, hlines,
    List.mem_singleton] at hline
  refine hwrong ?_
  rw [hline, DigestLine.Agrees]
  decide

/-- **A document whose digest is all zeros adds its signatures**: no digest matched. -/
theorem zero_digest_adds_signature :
    ∃ tokens sigs res, tokenizeString (fun _ => none) detachedTokenTable {} []
          (documentWithDigest (List.replicate 40 (byte '0'))) = .ok tokens
      ∧ parseDetachedSignatures (fun _ => none) sampleIsoTime
          (documentWithDigest (List.replicate 40 (byte '0'))) = some sigs
      ∧ ¬ ForConsensus sampleNs tokens sigs
      ∧ networkstatusAddDetachedSignatures twoVotersCerts sampleNs sigs = .ok res
      ∧ res.1 ≠ sampleNs := by
  obtain ⟨tokens, sigs, htokens, hsigs, hlines, htimes, hsiglist⟩ :=
    documentContent_eq_some documentContent_zero
  have hadded : ((parseDetachedSignatures (fun _ => none) sampleIsoTime
      (documentWithDigest (List.replicate 40 (byte '0')))).bind fun sigs =>
        (networkstatusAddDetachedSignatures twoVotersCerts sampleNs sigs).toOption.map fun res =>
          res.1.voters.map fun voter => voter.sigs) =
      some [[], [{ sampleSignature 'B' .sha1 with goodSignature := true }]] := by
    decide +kernel
  rw [hsigs, Option.bind_some] at hadded
  obtain ⟨res, hres, hvoters⟩ := Option.map_eq_some_iff.mp hadded
  refine ⟨tokens, sigs, res, htokens, hsigs, fun hfor => ?_, ?_, fun hsame => ?_⟩
  · have hwrong := hfor.agree (.sha1, List.replicate 40 (byte '0')) (by
      rw [show cstring sampleNs.flavor.name = cstring "ns" from rfl, hlines]
      exact List.mem_singleton_self _)
    revert hwrong
    rw [DigestLine.Agrees]
    decide
  · cases hadd : networkstatusAddDetachedSignatures twoVotersCerts sampleNs sigs with
    | error msg =>
      rw [hadd] at hres
      cases hres
    | ok res' =>
      rw [hadd] at hres
      cases hres
      rfl
  · rw [hsame] at hvoters
    revert hvoters
    decide

end Dittor.Tor
