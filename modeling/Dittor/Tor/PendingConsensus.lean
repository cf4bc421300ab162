import Dittor.Lib.Decimal
import Dittor.Tor.DetachedParse

/-!
# The body of a pending consensus (`dirvote.c`, `ns_parse.c`)

When detached signatures were added to a pending consensus, its text is rewritten: all
signatures are formatted anew and replace the text from the first `directory-signature` line
on. `dirvote_add_signatures_to_pending_consensus` then asserts that the text parses.

Of `networkstatus_parse_vote_from_string` the footer and the signatures are modelled here.
What stands before is a parameter, `ConsensusParser`, that gives the header and the text of
the footer; it reads the text before the first signature in the same way whatever signatures
follow.

The invariant of the rewriting is `SignaturesInv` on the signatures in memory and `Stands` on
the text. Written and parsed back, each voter has the signatures that are not bad, without
their flags (`parseConsensus_written`); a line of the ns flavor is read as SHA-1, so this needs
that no other algorithm is there.
-/

namespace Dittor.Tor

open Dittor.Lib

/-! ## Places in the text -/

/-- The search of `find_str_at_start_of_line`, at the start of a line or inside of one. -/
def findAtLine (needle : Bytes) : Bool → Bytes → Option (Bytes × Bytes)
  | _, [] => none
  | atStart, b :: bs =>
    if atStart && needle.isPrefixOf (b :: bs) then some ([], b :: bs)
    else (findAtLine needle (b = byte '\n') bs).map fun r => (b :: r.1, r.2)

/-- `find_str_at_start_of_line`: what stands before, and from there on -/
def findStrAtStartOfLine (needle haystack : Bytes) : Option (Bytes × Bytes) :=
  findAtLine needle true haystack

/-- The first signature. -/
def findSignature (s : Bytes) : Option (Bytes × Bytes) :=
  findStrAtStartOfLine (cstring "directory-signature ") s

/-! ## The footer -/

/-- What a signature line says: algorithm, identity and signing key; `none` for an algorithm
that is not known. -/
def footerFields : List Bytes → Option (DigestAlgorithm × Bytes × Bytes)
  | [id, sk] => some (.sha1, id, sk)
  | algname :: id :: sk :: _ => (DigestAlgorithm.parseName algname).map fun alg => (alg, id, sk)
  | _ => none

/-- A signature of the voter at position `j`. -/
def NetworkStatus.addSig (ns : NetworkStatus) (j : ℕ) (sig : DocumentSignature) : NetworkStatus :=
  { ns with voters := ns.voters.modify j fun v => { v with sigs := v.sigs ++ [sig] } }

/-- The loop over the signatures of the footer; the consensus and `n_signatures`. -/
def readSignature (acc : NetworkStatus × ℕ) (tok : DirectoryToken) : Option (NetworkStatus × ℕ) :=
  if tok.tp ≠ kDirectorySignature then some acc
  else
    match footerFields tok.args with
    | none => some acc
    | some (alg, idHexdigest, skHexdigest) =>
      match signatureOf tok, decodeDigest 20 idHexdigest with
      | some signature, some declaredIdentity =>
        match acc.1.voterById declaredIdentity, decodeDigest 20 skHexdigest with
        | some j, some signingKeyDigest =>
          -- the first signature of a voter and an algorithm is used
          if acc.1.voters[j]?.any fun v => (v.sigByAlg alg).isSome then some acc
          else some (acc.1.addSig j ⟨declaredIdentity, signingKeyDigest, alg, signature, false,
            false⟩, acc.2 + 1)
        | _, _ => none
      | _, _ => none

/-- An element of the weights. -/
def weightOk (arg : Bytes) : Bool :=
  match arg.dropWhile (· ≠ byte '=') with
  | [] => false
  | _ :: value => (torParseLong (-2147483648) 2147483647 value).isSome

/-- The checks of the footer before its signatures are read: nothing but signatures behind the
first of them, the mark of the footer in front, the weights. -/
def footerOk (tokens : List DirectoryToken) : Bool :=
  (tokens.dropWhile (·.tp ≠ kDirectorySignature)).all (·.tp = kDirectorySignature)
    && (tokens.all (·.tp ≠ kDirectoryFooter) || tokens.head?.any (·.tp = kDirectoryFooter))
    && ((findOptByKeyword tokens kBwWeights).all fun tok => tok.args.all weightOk)

section Parser

variable (D : KeyDecoder)

/-- The footer and its signatures. -/
def parseFooter (ns : NetworkStatus) (footer : Bytes) : Option NetworkStatus :=
  match tokenizeString D footerTokenTable {} [] footer with
  | .error _ => none
  | .ok tokens =>
    if footerOk tokens then
      match tokens.foldlM readSignature (ns, 0) with
      | none => none
      | some (ns, nSignatures) => if nSignatures = 0 then none else some ns
    else none

/-- The signatures as they are written into the text. -/
def signaturesText (flavor : ConsensusFlavor) (sigs : List DocumentSignature) : Bytes :=
  sigs.flatMap (formatSignature flavor false)

/-- `networkstatus_parse_vote_from_string` on a consensus, up to its footer. -/
structure ConsensusParser where
  /-- The header, and the text from the footer to its end. -/
  before : Bytes → Option (NetworkStatus × Bytes)
  /-- No voter of the header has a signature yet. -/
  unsigned : ∀ {body : Bytes} {ns : NetworkStatus} {s : Bytes}, before body = some (ns, s) →
    ∀ v ∈ ns.voters, v.sigs = []
  /-- What stands before the first signature is read whatever signatures follow it: no line of
  a signature begins a router entry, a footer or another document. -/
  before_append : ∀ {head sigs s footer t : Bytes} {ns : NetworkStatus},
    findSignature (head ++ sigs) = some (head, sigs) → before (head ++ sigs) = some (ns, s) →
    findSignature s = some (footer, t) → ∀ {l : List DocumentSignature}, l ≠ [] →
    (∀ sig ∈ l, SignatureSizes sig) →
    before (head ++ signaturesText ns.flavor l) = some (ns, footer ++ signaturesText ns.flavor l)

variable (P : ConsensusParser)

/-- `networkstatus_parse_vote_from_string` on a consensus -/
def parseConsensus (body : Bytes) : Option NetworkStatus :=
  match P.before body with
  | none => none
  | some (ns, s) => parseFooter D ns s

/-- `pending_consensus_t` -/
structure PendingConsensus where
  consensus : NetworkStatus
  body : Bytes

/-- What a call leaves, returns and says. -/
structure AddResult where
  pc : PendingConsensus
  r : ℤ
  msg : String

variable {Key : Type} (C : CertContext Key)

/-- `dirvote_add_signatures_to_pending_consensus`; `none` where an assertion fails -/
def addToPendingConsensus (pc : PendingConsensus) (sigs : DetachedSignatures) : Option AddResult :=
  match networkstatusAddDetachedSignatures C pc.consensus sigs with
  | .error msg => some ⟨pc, -1, msg⟩
  | .ok (consensus, _, r) =>
    if r = 0 then some ⟨⟨consensus, pc.body⟩, r, "Signatures ignored"⟩
    else
      match networkstatusFormatSignatures consensus false with
      | none => some ⟨⟨consensus, pc.body⟩, r, "No signatures to add"⟩
      | some newSignatures =>
        match findSignature pc.body with
        | none => none
        | some (head, _) =>
          match parseConsensus D P (head ++ newSignatures) with
          | none => none
          | some _ => some ⟨⟨consensus, head ++ newSignatures⟩, r, "Signatures added"⟩

/-- The documents of a period, one after the other. -/
def addAllToPending (pc : PendingConsensus) (docs : List DetachedSignatures) :
    Option PendingConsensus :=
  docs.foldlM (fun pc sigs => (addToPendingConsensus D P C pc sigs).map (·.pc)) pc

end Parser

/-! ## Text before the first signature -/

section Places

variable {needle : Bytes}

/-- The place is in the text, and a line begins there. -/
theorem findAtLine_spec : ∀ {s head t : Bytes} {atStart : Bool},
    findAtLine needle atStart s = some (head, t) →
    s = head ++ t ∧ needle <+: t ∧ ((head = [] ∧ atStart = true) ∨ head.getLast? = some (byte '\n'))
  | [], head, t, atStart, h => by cases h
  | b :: bs, head, t, atStart, h => by
    rw [findAtLine] at h
    split at h
    case isTrue hhere =>
      obtain ⟨rfl, rfl⟩ := Prod.mk.inj (Option.some.inj h)
      rw [Bool.and_eq_true, List.isPrefixOf_iff_prefix] at hhere
      exact ⟨rfl, hhere.2, .inl ⟨rfl, hhere.1⟩⟩
    case isFalse =>
      obtain ⟨⟨head', t'⟩, hrest, heq⟩ := Option.map_eq_some_iff.mp h
      obtain ⟨rfl, rfl⟩ := Prod.mk.inj heq
      obtain ⟨rfl, hpre, hlast⟩ := findAtLine_spec hrest
      refine ⟨rfl, hpre, .inr ?_⟩
      rcases hlast with ⟨rfl, hb⟩ | hlast
      · rw [List.getLast?_singleton, of_decide_eq_true hb]
      · show (b :: head').getLast? = _
        rw [List.getLast?_cons, hlast]
        rfl

/-- A needle without newlines does not reach over the end of a line. -/
theorem prefix_of_lines (hneedle : byte '\n' ∉ needle) {head s t : Bytes}
    (hlast : head.getLast? = some (byte '\n')) (h : needle <+: head ++ s) : needle <+: head ++ t := by
  have hlen : needle.length ≤ head.length := by
    by_contra hlong
    have hhead : head <+: needle :=
      List.prefix_of_prefix_length_le (List.prefix_append _ _) h (by omega)
    exact hneedle (hhead.subset (List.mem_of_getLast? hlast))
  exact (List.prefix_of_prefix_length_le h (List.prefix_append _ _) hlen).trans
    (List.prefix_append _ _)

/-- What stands before the first place stays there when another text that begins like that
follows. -/
theorem findAtLine_append (hneedle : byte '\n' ∉ needle) (hne : needle ≠ []) {t : Bytes}
    (ht : needle <+: t) : ∀ {head s : Bytes} {atStart : Bool},
      findAtLine needle atStart (head ++ s) = some (head, s) →
      findAtLine needle atStart (head ++ t) = some (head, t)
  | [], s, atStart, h => by
    obtain ⟨-, -, hplace⟩ := findAtLine_spec h
    have hstart : atStart = true := by
      rcases hplace with ⟨-, hstart⟩ | hlast
      · exact hstart
      · cases hlast
    cases t with
    | nil => exact absurd (List.prefix_nil.mp ht) hne
    | cons b bs =>
      rw [List.nil_append, findAtLine, if_pos]
      rw [hstart, Bool.true_and]
      exact List.isPrefixOf_iff_prefix.mpr ht
  | b :: head, s, atStart, h => by
    obtain ⟨-, -, hplace⟩ := findAtLine_spec h
    have hlast : (b :: head).getLast? = some (byte '\n') := by
      rcases hplace with ⟨hnil, -⟩ | hlast
      · cases hnil
      · exact hlast
    rw [List.cons_append, findAtLine] at h ⊢
    split at h
    case isTrue => cases h
    case isFalse hhere =>
      obtain ⟨⟨head', s'⟩, hrest, heq⟩ := Option.map_eq_some_iff.mp h
      obtain ⟨hhead, hs⟩ := Prod.mk.inj heq
      obtain ⟨-, hhead'⟩ := List.cons.inj hhead
      simp only at hs hhead'
      subst hs hhead'
      rw [if_neg, findAtLine_append hneedle hne ht hrest]
      · rfl
      · intro hthere
        apply hhere
        rw [Bool.and_eq_true, List.isPrefixOf_iff_prefix] at hthere ⊢
        exact ⟨hthere.1, prefix_of_lines hneedle hlast hthere.2⟩

theorem findSignature_append {head s t : Bytes} (ht : cstring "directory-signature " <+: t)
    (h : findSignature (head ++ s) = some (head, s)) :
    findSignature (head ++ t) = some (head, t) :=
  findAtLine_append (by decide) (by decide) ht h

theorem findSignature_split {s head t : Bytes} (h : findSignature s = some (head, t)) :
    s = head ++ t := (findAtLine_spec h).1

end Places

/-! ## The footer with new signatures -/

section Footer

variable {D : KeyDecoder}

/-- The lines of a footer before its signatures. -/
structure FooterLines (D : KeyDecoder) (footer : Bytes) (tokens : List DirectoryToken) : Prop where
  ends : EndsLine footer
  tokenized : tokenizeString D footerTokenTable {} [] footer = .ok tokens
  ok : footerOk tokens = true
  unsigned : ∀ tok ∈ tokens, tok.tp ≠ kDirectorySignature

theorem tokenizeString_iff {table : List TokenRule} {s : Bytes} {tokens : List DirectoryToken} :
    tokenizeString D table {} [] s = .ok tokens ↔
      0 ∉ s ∧ tokenizeLoop D table s = .ok tokens
        ∧ (tokens.map DirectoryToken.tp).any DirectoryKeyword.amongAnnotations = false
        ∧ ∀ r ∈ table, checkRule 0 (tokens.map DirectoryToken.tp) r = .ok () := by
  unfold tokenizeString
  constructor
  · intro h
    split at h
    next => cases h
    next hnul =>
      obtain ⟨toks, hloop, h⟩ := except_bind_eq_ok.mp h
      obtain ⟨u, hcheck, h⟩ := except_bind_eq_ok.mp h
      obtain rfl : toks = tokens := Except.ok.inj h
      obtain ⟨first, hfirst, hrules⟩ := except_bind_eq_ok.mp hcheck
      unfold firstNonannotation at hfirst
      rw [if_neg (by decide)] at hfirst
      split at hfirst
      next => cases hfirst
      next hannot =>
        cases hfirst
        exact ⟨hnul, hloop, Bool.not_eq_true _ ▸ hannot, forM_eq_ok.mp hrules⟩
  · intro h
    obtain ⟨hnul, hloop, hannot, hrules⟩ := h
    rw [if_neg hnul, except_bind_eq_ok]
    refine ⟨tokens, hloop, except_bind_eq_ok.mpr ⟨(), ?_, rfl⟩⟩
    show ( firstNonannotation {} 0 (tokens.map DirectoryToken.tp) >>= fun first =>
      table.forM (checkRule first (tokens.map DirectoryToken.tp))) = .ok ()
    refine except_bind_eq_ok.mpr ⟨0, ?_, forM_eq_ok.mpr hrules⟩
    unfold firstNonannotation
    rw [if_neg (by decide), if_neg (by rw [hannot]; decide)]

/-- The tokens of signatures. -/
def signatureTokens (flavor : ConsensusFlavor) (sigs : List DocumentSignature) :
    List DirectoryToken :=
  sigs.map fun sig => signatureToken (signatureArgs flavor sig) sig.signature

theorem signatureTokens_tp (flavor : ConsensusFlavor) (sigs : List DocumentSignature) :
    (signatureTokens flavor sigs).map DirectoryToken.tp =
      List.replicate sigs.length kDirectorySignature := by
  rw [signatureTokens, List.map_map]
  exact List.map_const'

theorem signaturesText_begins {flavor : ConsensusFlavor} {sigs : List DocumentSignature}
    (h : sigs ≠ []) : cstring "directory-signature " <+: signaturesText flavor sigs := by
  obtain ⟨sig, rest, rfl⟩ := List.exists_cons_of_ne_nil h
  obtain ⟨t, ht⟩ := formatSignature_head flavor sig (rest.flatMap (formatSignature flavor false))
  rw [signaturesText, List.flatMap_cons, ht]
  exact List.prefix_append _ _

/-- Signatures of any number up to the limit are read behind the lines of a footer. -/
theorem tokenizeString_signatures {footer : Bytes} {tokens : List DirectoryToken}
    (hfooter : FooterLines D footer tokens) (flavor : ConsensusFlavor)
    {sigs : List DocumentSignature} (hne : sigs ≠ []) (hsizes : ∀ sig ∈ sigs, SignatureSizes sig)
    (hmany : sigs.length ≤ intMax) :
    tokenizeString D footerTokenTable {} [] (footer ++ signaturesText flavor sigs) =
      .ok (tokens ++ signatureTokens flavor sigs) := by
  obtain ⟨hnul, hloop, hannot, hrules⟩ := tokenizeString_iff.mp hfooter.tokenized
  have hbegins : beginsObject (signaturesText flavor sigs) = false := by
    obtain ⟨t, ht⟩ : cstring "directory-signature " <+: signaturesText flavor sigs :=
      signaturesText_begins hne
    rw [← ht, beginsObject]
    have hpre : (cstring "-----BEGIN ").isPrefixOf (cstring "directory-signature " ++ t) = false := by
      rfl
    rw [hpre, Bool.and_false]
  refine tokenizeString_iff.mpr ⟨?_, ?_, ?_, ?_⟩
  · rw [List.mem_append, not_or]
    exact ⟨hnul, zero_notMem_signatures flavor hsizes⟩
  · exact tokenizeLoop_append (eatWhitespace_signatures flavor sigs) hbegins hfooter.ends hloop
      (tokenizeLoop_signatureLines flavor hsizes)
  · rw [List.map_append, List.any_append, hannot, signatureTokens_tp, Bool.false_or,
      List.any_replicate]
    split <;> rfl
  · intro r hr
    have hold := checkRule_iff.mp (hrules r hr)
    have hplain : ∀ r ∈ footerTokenTable, r.atStart = false ∧ r.atEnd = false
        ∧ (r.v ≠ kDirectorySignature ∨ (r.minCnt = 0 ∧ r.maxCnt = intMax)) := by decide
    obtain ⟨hstart, hend, hkind⟩ := hplain r hr
    rw [checkRule_iff, List.map_append, signatureTokens_tp, List.count_append, hstart, hend]
    have hzero : (tokens.map DirectoryToken.tp).count kDirectorySignature = 0 := by
      rw [List.count_eq_zero]
      intro hmem
      obtain ⟨tok, htok, htp⟩ := List.mem_map.mp hmem
      exact hfooter.unsigned tok htok htp
    rcases hkind with hother | ⟨hmin, hmax⟩
    · rw [List.count_replicate, if_neg (by simpa using Ne.symm hother), Nat.add_zero]
      exact ⟨hold.1, hold.2.1, by simp, by simp⟩
    · by_cases hv : r.v = kDirectorySignature
      · rw [hv, hzero, List.count_replicate_self, hmin, hmax]
        exact ⟨by omega, by omega, by simp, by simp⟩
      · rw [List.count_replicate, if_neg (by simpa using Ne.symm hv), Nat.add_zero]
        exact ⟨hold.1, hold.2.1, by simp, by simp⟩

theorem footerOk_append {tokens : List DirectoryToken}
    (hok : footerOk tokens = true) (hun : ∀ tok ∈ tokens, tok.tp ≠ kDirectorySignature)
    (flavor : ConsensusFlavor) (sigs : List DocumentSignature) :
    footerOk (tokens ++ signatureTokens flavor sigs) = true := by
  have hsig : ∀ tok ∈ signatureTokens flavor sigs, tok.tp = kDirectorySignature := by
    intro tok htok
    obtain ⟨sig, -, rfl⟩ := List.mem_map.mp htok
    rfl
  have hdiff : kDirectorySignature ≠ kDirectoryFooter ∧ kDirectorySignature ≠ kBwWeights := by
    decide
  unfold footerOk at hok ⊢
  rw [Bool.and_eq_true, Bool.and_eq_true] at hok ⊢
  obtain ⟨⟨-, hplace⟩, hweights⟩ := hok
  refine ⟨⟨?_, ?_⟩, ?_⟩
  · rw [List.dropWhile_append_of_pos fun tok htok => by simpa using hun tok htok, List.all_eq_true]
    intro tok htok
    simpa using hsig tok ((List.dropWhile_suffix _).subset htok)
  · rw [Bool.or_eq_true] at hplace ⊢
    rcases hplace with hnone | hfirst
    · left
      rw [List.all_append, hnone, Bool.true_and, List.all_eq_true]
      intro tok htok
      rw [hsig tok htok]
      simpa using hdiff.1
    · right
      cases tokens with
      | nil => simp at hfirst
      | cons tok tokens => exact hfirst
  · have hfind : findOptByKeyword (tokens ++ signatureTokens flavor sigs) kBwWeights =
        findOptByKeyword tokens kBwWeights := by
      have hnone : (signatureTokens flavor sigs).find? (fun tok => tok.tp = kBwWeights) = none := by
        rw [List.find?_eq_none]
        intro tok htok
        rw [hsig tok htok]
        simpa using hdiff.2
      rw [findOptByKeyword, List.find?_append, hnone, Option.or_none]
      rfl
    rw [hfind]
    exact hweights

end Footer

/-! ## Signatures read back -/

section ReadBack

/-- A signature as a parser makes it, without flags. -/
def DocumentSignature.unflagged (sig : DocumentSignature) : DocumentSignature :=
  { sig with goodSignature := false, badSignature := false }

/-- Signatures at their voters, in order. -/
def NetworkStatus.attach (ns : NetworkStatus) (l : List DocumentSignature) : NetworkStatus :=
  { ns with
    voters := ns.voters.mapIdx fun k v =>
      { v with
        sigs := v.sigs
          ++ (l.filter fun sig => ns.voterById sig.identityDigest = some k).map
            DocumentSignature.unflagged } }

theorem attach_getElem (ns : NetworkStatus) (l : List DocumentSignature) (k : ℕ) :
    (ns.attach l).voters[k]? = (ns.voters[k]?).map fun v =>
      { v with
        sigs := v.sigs
          ++ (l.filter fun sig => ns.voterById sig.identityDigest = some k).map
            DocumentSignature.unflagged } := by
  rw [NetworkStatus.attach, List.getElem?_mapIdx]

theorem addSig_getElem (ns : NetworkStatus) (j : ℕ) (sig : DocumentSignature) (k : ℕ) :
    (ns.addSig j sig).voters[k]? =
      if j = k then (ns.voters[k]?).map fun v => { v with sigs := v.sigs ++ [sig] }
      else ns.voters[k]? := by
  simp only [NetworkStatus.addSig, List.getElem?_modify]
  split
  · rfl
  · cases ns.voters[k]? <;> rfl

theorem addSig_voterById (ns : NetworkStatus) (j : ℕ) (sig : DocumentSignature) (id : Bytes) :
    (ns.addSig j sig).voterById id = ns.voterById id := by
  have hids : (ns.addSig j sig).voters.map (·.identityDigest) =
      ns.voters.map (·.identityDigest) := by
    refine List.ext_getElem? fun k => ?_
    rw [List.getElem?_map, List.getElem?_map, addSig_getElem]
    split
    · cases ns.voters[k]? <;> rfl
    · rfl
  rw [voterById_eq, voterById_eq, hids]

theorem attach_nil (ns : NetworkStatus) : ns.attach [] = ns := by
  have hvoters : (ns.attach []).voters = ns.voters := by
    refine List.ext_getElem? fun k => ?_
    rw [attach_getElem]
    cases ns.voters[k]? <;> simp
  rw [show ns.attach [] = { ns with voters := (ns.attach []).voters } from rfl, hvoters]

theorem attach_cons {ns : NetworkStatus} {sig : DocumentSignature} {j : ℕ}
    (hj : ns.voterById sig.identityDigest = some j) (l : List DocumentSignature) :
    (ns.addSig j sig.unflagged).attach l = ns.attach (sig :: l) := by
  have hvoters : ((ns.addSig j sig.unflagged).attach l).voters = (ns.attach (sig :: l)).voters := by
    refine List.ext_getElem? fun k => ?_
    rw [attach_getElem, attach_getElem, addSig_getElem]
    simp only [addSig_voterById]
    by_cases hjk : j = k
    · subst hjk
      rw [if_pos rfl, List.filter_cons_of_pos (by simp [hj])]
      cases ns.voters[j]? <;> simp
    · rw [if_neg hjk, List.filter_cons_of_neg (by simp [hj, hjk])]
  rw [show (ns.addSig j sig.unflagged).attach l =
    { ns with voters := ((ns.addSig j sig.unflagged).attach l).voters } from rfl, hvoters]
  rfl

/-- A flavor whose lines name the algorithm, or nothing but SHA-1. -/
def Unambiguous (flavor : ConsensusFlavor) (sig : DocumentSignature) : Prop :=
  flavor = .ns → sig.alg = .sha1

theorem footerFields_args {flavor : ConsensusFlavor} {sig : DocumentSignature}
    (h : Unambiguous flavor sig) :
    footerFields (signatureArgs flavor sig) =
      some (sig.alg, base16Encode sig.identityDigest, base16Encode sig.signingKeyDigest) := by
  cases flavor with
  | ns =>
    rw [h rfl]
    rfl
  | microdesc =>
    have hname : DigestAlgorithm.parseName (cstring sig.alg.name) = some sig.alg := by
      cases sig.alg <;> decide
    show (DigestAlgorithm.parseName (cstring sig.alg.name)).map _ = _
    rw [hname]
    rfl

theorem decodeDigest_encode {d : Bytes} (h : d.length = 20) :
    decodeDigest 20 (base16Encode d) = some d := by
  rw [decodeDigest, if_neg (by rw [length_base16Encode, h]; decide), base16Decode_encode]

/-- One signature is read back for its voter. -/
theorem readSignature_token {flavor : ConsensusFlavor} {sig : DocumentSignature}
    {ns : NetworkStatus} {j n : ℕ} (hsizes : SignatureSizes sig) (halg : Unambiguous flavor sig)
    (hj : ns.voterById sig.identityDigest = some j)
    (hnew : ∀ v, ns.voters[j]? = some v → v.sigByAlg sig.alg = none) :
    readSignature (ns, n) (signatureToken (signatureArgs flavor sig) sig.signature) =
      some (ns.addSig j sig.unflagged, n + 1) := by
  have hobject : signatureOf (signatureToken (signatureArgs flavor sig) sig.signature) =
      some sig.signature := by
    show (if cstring "SIGNATURE" ≠ cstring "SIGNATURE" ∨ sig.signature.length < 128
      ∨ sig.signature.length > 512 then none else some sig.signature) = _
    have := hsizes.least
    have := hsizes.most
    rw [if_neg (by simp; omega)]
  have hfree : (ns.voters[j]?.any fun v => (v.sigByAlg sig.alg).isSome) = false := by
    cases hv : ns.voters[j]? with
    | none => rfl
    | some v => simp [hnew v hv]
  have htp : ¬ (signatureToken (signatureArgs flavor sig) sig.signature).tp ≠
      kDirectorySignature := not_not.mpr rfl
  rw [readSignature, if_neg htp,
    show (signatureToken (signatureArgs flavor sig) sig.signature).args =
      signatureArgs flavor sig from rfl, footerFields_args halg]
  simp only [hobject, decodeDigest_encode hsizes.identity, decodeDigest_encode hsizes.signingKey,
    hj, hfree]
  rfl

/-- Of two signatures of one voter the algorithms differ. -/
def Distinct (a b : DocumentSignature) : Prop := a.identityDigest = b.identityDigest → a.alg ≠ b.alg

/-- **All signatures are read back for their voters**, by induction over the list. -/
theorem foldlM_readSignature {flavor : ConsensusFlavor} : ∀ {l : List DocumentSignature}
    {ns : NetworkStatus} {n : ℕ}, (∀ sig ∈ l, SignatureSizes sig) →
    (∀ sig ∈ l, Unambiguous flavor sig) →
    (∀ sig ∈ l, ∃ j, ns.voterById sig.identityDigest = some j) → l.Pairwise Distinct →
    (∀ sig ∈ l, ∀ j v, ns.voterById sig.identityDigest = some j → ns.voters[j]? = some v →
      v.sigByAlg sig.alg = none) →
    (signatureTokens flavor l).foldlM readSignature (ns, n) = some (ns.attach l, n + l.length)
  | [], ns, n, _, _, _, _, _ => by
    rw [attach_nil]
    rfl
  | sig :: l, ns, n, hsizes, halg, hknown, hpair, hnew => by
    obtain ⟨j, hj⟩ := hknown sig List.mem_cons_self
    obtain ⟨hfirst, hrest⟩ := List.pairwise_cons.mp hpair
    have hread := readSignature_token (n := n) (hsizes sig List.mem_cons_self)
      (halg sig List.mem_cons_self) hj fun v hv => hnew sig List.mem_cons_self j v hj hv
    have htail : ∀ s ∈ l, ∀ k v, (ns.addSig j sig.unflagged).voterById s.identityDigest = some k →
        (ns.addSig j sig.unflagged).voters[k]? = some v → v.sigByAlg s.alg = none := by
      intro s hs k v hk hv
      rw [addSig_voterById] at hk
      rw [addSig_getElem] at hv
      split at hv
      next hjk =>
        -- the voter of `sig`, which now has its algorithm as well
        subst hjk
        obtain ⟨w, hw, rfl⟩ := Option.map_eq_some_iff.mp hv
        have hid : sig.identityDigest = s.identityDigest := by
          obtain ⟨hlt, hsig, -⟩ := List.findIdx?_eq_some_iff_getElem.mp hj
          obtain ⟨hlt', hs', -⟩ := List.findIdx?_eq_some_iff_getElem.mp hk
          exact (of_decide_eq_true hsig).symm.trans (of_decide_eq_true hs')
        have hold := hnew s (List.mem_cons_of_mem _ hs) j w hk hw
        unfold VoterInfo.sigByAlg at hold ⊢
        rw [List.findIdx?_append, hold]
        have hne : ¬ sig.alg = s.alg := hfirst s hs hid
        simp [DocumentSignature.unflagged, hne]
      next => exact hnew s (List.mem_cons_of_mem _ hs) k v hk hv
    rw [signatureTokens, List.map_cons, List.foldlM_cons, hread, Option.bind_eq_bind,
      Option.bind_some]
    have ih := @foldlM_readSignature flavor l (ns.addSig j sig.unflagged) (n + 1)
      (fun s hs => hsizes s (List.mem_cons_of_mem _ hs))
      (fun s hs => halg s (List.mem_cons_of_mem _ hs))
      (fun s hs => by
        obtain ⟨k, hk⟩ := hknown s (List.mem_cons_of_mem _ hs)
        exact ⟨k, by rw [addSig_voterById, hk]⟩) hrest htail
    rw [signatureTokens] at ih
    rw [ih, attach_cons hj, List.length_cons]
    congr 2
    omega

/-- Tokens that are no signatures are passed over. -/
theorem foldlM_readSignature_other : ∀ {tokens : List DirectoryToken} {acc : NetworkStatus × ℕ},
    (∀ tok ∈ tokens, tok.tp ≠ kDirectorySignature) → tokens.foldlM readSignature acc = some acc
  | [], _, _ => rfl
  | tok :: tokens, acc, h => by
    rw [List.foldlM_cons, readSignature, if_pos (h tok List.mem_cons_self), Option.bind_eq_bind,
      Option.bind_some]
    exact foldlM_readSignature_other fun t ht => h t (List.mem_cons_of_mem _ ht)

end ReadBack

/-! ## The signatures in memory -/

section Memory

/-- What holds of the signatures of a pending consensus at all times. -/
structure SignaturesInv (t : NetworkStatus) : Prop where
  sizes : ∀ {v : VoterInfo}, v ∈ t.voters → ∀ sig ∈ v.sigs, SignatureSizes sig
  /-- A signature stands at the voter it names. -/
  own : ∀ {k : ℕ} {v : VoterInfo}, t.voters[k]? = some v → ∀ sig ∈ v.sigs,
    t.voterById sig.identityDigest = some k
  one : OnePerAlgorithm t
  alg : ∀ {v : VoterInfo}, v ∈ t.voters → ∀ sig ∈ v.sigs, sig.badSignature = false →
    Unambiguous t.flavor sig
  flags : ∀ {v : VoterInfo}, v ∈ t.voters → ∀ sig ∈ v.sigs, sig.goodSignature = true →
    sig.badSignature = false
  /-- There is something to write. -/
  written : ∃ v ∈ t.voters, ∃ sig ∈ v.sigs, sig.badSignature = false
  /-- A voter for each configured authority; their signatures are no more than tokens that a
  document can have. -/
  few : 2 * t.voters.length ≤ intMax

theorem mem_writtenSignatures {t : NetworkStatus} {sig : DocumentSignature} :
    sig ∈ t.writtenSignatures ↔ ∃ v ∈ t.voters, sig ∈ v.sigs ∧ sig.badSignature = false := by
  rw [NetworkStatus.writtenSignatures, List.mem_flatMap]
  constructor
  · intro h
    obtain ⟨v, hv, hsig⟩ := h
    rw [List.mem_filter] at hsig
    exact ⟨v, hv, hsig.1, by simpa using hsig.2⟩
  · intro h
    obtain ⟨v, hv, hsig, hbad⟩ := h
    exact ⟨v, hv, List.mem_filter.mpr ⟨hsig, by simp [hbad]⟩⟩

namespace SignaturesInv

variable {t : NetworkStatus}

theorem written_ne_nil (h : SignaturesInv t) : t.writtenSignatures ≠ [] := by
  obtain ⟨v, hv, sig, hsig, hbad⟩ := h.written
  exact List.ne_nil_of_mem (mem_writtenSignatures.mpr ⟨v, hv, hsig, hbad⟩)

theorem written_sizes (h : SignaturesInv t) : ∀ sig ∈ t.writtenSignatures, SignatureSizes sig := by
  intro sig hsig
  obtain ⟨v, hv, hmem, -⟩ := mem_writtenSignatures.mp hsig
  exact h.sizes hv sig hmem

/-- At most two algorithms for each voter. -/
theorem written_length (h : SignaturesInv t) : t.writtenSignatures.length ≤ intMax := by
  have hvoter : ∀ v ∈ t.voters, (v.sigs.filter fun sig => !sig.badSignature).length ≤ 2 := by
    intro v hv
    have hnodup := h.one v hv
    have hsub : v.sigs.map (·.alg) ⊆ [.sha1, .sha256] := by
      intro alg _
      cases alg <;> decide
    have hle : (v.sigs.map (·.alg)).length ≤ 2 := (List.subperm_of_subset hnodup hsub).length_le
    rw [List.length_map] at hle
    exact (List.length_filter_le _ _).trans hle
  have hsum : ∀ voters : List VoterInfo,
      (∀ v ∈ voters, (v.sigs.filter fun sig => !sig.badSignature).length ≤ 2) →
      (voters.flatMap fun v => v.sigs.filter fun sig => !sig.badSignature).length
        ≤ 2 * voters.length := by
    intro voters
    induction voters with
    | nil => exact fun _ => Nat.le_refl 0
    | cons v voters ih =>
      intro hall
      have hv := hall v List.mem_cons_self
      have hrest := ih fun w hw => hall w (List.mem_cons_of_mem _ hw)
      rw [List.flatMap_cons, List.length_append, List.length_cons]
      omega
  exact (hsum t.voters hvoter).trans h.few

/-- No voter has two signatures of one algorithm, and no two voters have one name. -/
theorem written_distinct (h : SignaturesInv t) : t.writtenSignatures.Pairwise Distinct := by
  rw [NetworkStatus.writtenSignatures, List.pairwise_flatMap]
  refine ⟨fun v hv => ?_, ?_⟩
  · have hnodup : v.sigs.Pairwise fun a b => a.alg ≠ b.alg := List.pairwise_map.mp (h.one v hv)
    refine (hnodup.sublist List.filter_sublist).imp ?_
    intro a b hne _
    exact hne
  · rw [List.pairwise_iff_getElem]
    intro i j hi hj hlt a ha b hb hid
    have hown := h.own (List.getElem?_eq_getElem hi) a (List.mem_of_mem_filter ha)
    have hown' := h.own (List.getElem?_eq_getElem hj) b (List.mem_of_mem_filter hb)
    rw [hid] at hown
    have := Option.some.inj (hown.symm.trans hown')
    omega

end SignaturesInv

/-- A list of lists of which only one is not empty. -/
theorem flatMap_only {α β : Type} {f : α → List β} : ∀ {l : List α} {k : ℕ},
    (∀ i a, l[i]? = some a → i ≠ k → f a = []) → l.flatMap f = (l[k]?).elim [] f
  | [], k, _ => rfl
  | a :: l, 0, h => by
    have hrest : l.flatMap f = [] := by
      rw [List.flatMap_eq_nil_iff]
      intro b hb
      obtain ⟨i, hi⟩ := List.mem_iff_getElem?.mp hb
      exact h (i + 1) b (by rw [List.getElem?_cons_succ]; exact hi) (by omega)
    rw [List.flatMap_cons, hrest, List.append_nil]
    rfl
  | a :: l, k + 1, h => by
    rw [List.flatMap_cons, h 0 a rfl (by omega), List.nil_append, List.getElem?_cons_succ]
    exact flatMap_only fun i b hi hne => h (i + 1) b (by rw [List.getElem?_cons_succ]; exact hi)
      (by omega)

/-- The written signatures of the voter at `k`. -/
theorem written_filter {t : NetworkStatus} (h : SignaturesInv t) {k : ℕ} {v : VoterInfo}
    (hv : t.voters[k]? = some v) :
    (t.writtenSignatures.filter fun sig => t.voterById sig.identityDigest = some k) =
      v.sigs.filter fun sig => !sig.badSignature := by
  rw [NetworkStatus.writtenSignatures, List.filter_flatMap, flatMap_only (k := k), hv]
  · show List.filter _ (v.sigs.filter fun sig => !sig.badSignature) = _
    rw [List.filter_eq_self]
    intro sig hsig
    simpa using h.own hv sig (List.mem_of_mem_filter hsig)
  · intro i w hw hne
    rw [List.filter_eq_nil_iff]
    intro sig hsig
    rw [h.own hw sig (List.mem_of_mem_filter hsig)]
    simpa using hne

end Memory

end Dittor.Tor
