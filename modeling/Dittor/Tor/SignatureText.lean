import Dittor.Tor.Base64
import Dittor.Tor.Enforcement
import Dittor.Tor.Signatures

/-!
# Signatures as text (`dirvote.c`, `ns_parse.c`)

`networkstatus_format_signatures` writes the signatures of a consensus as items of its
footer; an item is a keyword line with hexadecimal digests and the signature as a base64
object. The tokenizer reads such an item back (`getNextToken_signature`), so a text of items
gives one token for each (`tokenizeLoop_signatureLines`).

The line of the ns flavor has no digest algorithm.
-/

namespace Dittor.Tor

open Dittor.Lib

/-! ## Writing -/

/-- The object of a signature. Its buffer of 4096 bytes holds the 512 bytes of a signature
that a parser accepts. -/
def signatureArmor (signature : Bytes) : Bytes :=
  cstring "-----BEGIN SIGNATURE-----\n" ++ base64Encode signature
    ++ cstring "-----END SIGNATURE-----\n"

/-- The words on the line of a signature. -/
def signatureWords (flavor : ConsensusFlavor) (forDetachedSignatures : Bool)
    (sig : DocumentSignature) : List Bytes :=
  let id := base16Encode sig.identityDigest
  let sk := base16Encode sig.signingKeyDigest
  match flavor with
  | .ns => [cstring "directory-signature", id, sk]
  | .microdesc =>
    if forDetachedSignatures then
      [cstring "additional-signature", cstring flavor.name, cstring sig.alg.name, id, sk]
    else [cstring "directory-signature", cstring sig.alg.name, id, sk]

/-- One signature. -/
def formatSignature (flavor : ConsensusFlavor) (forDetachedSignatures : Bool)
    (sig : DocumentSignature) : Bytes :=
  [byte ' '].intercalate (signatureWords flavor forDetachedSignatures sig) ++ cstring "\n"
    ++ signatureArmor sig.signature

/-- The signatures that are written: those not known to be bad. -/
def NetworkStatus.writtenSignatures (consensus : NetworkStatus) : List DocumentSignature :=
  consensus.voters.flatMap fun v => v.sigs.filter fun sig => !sig.badSignature

/-- `networkstatus_format_signatures` -/
def networkstatusFormatSignatures (consensus : NetworkStatus) (forDetachedSignatures : Bool) :
    Option Bytes :=
  if consensus.writtenSignatures = [] then none
  else some (consensus.writtenSignatures.flatMap
    (formatSignature consensus.flavor forDetachedSignatures))

/-! ## Reading -/

/-- `K_DIRECTORY_FOOTER`, `K_BW_WEIGHTS` and `K_DIRECTORY_SIGNATURE` -/
def kDirectoryFooter : DirectoryKeyword := .other 1

@[inherit_doc kDirectoryFooter]
def kBwWeights : DirectoryKeyword := .other 2

@[inherit_doc kDirectoryFooter]
def kDirectorySignature : DirectoryKeyword := .other 3

open ArgSpec TokenRule in
/-- `networkstatus_vote_footer_token_table` -/
def footerTokenTable : List TokenRule := [
  t01 "directory-footer" kDirectoryFooter noArgs .noObj,
  t01 "bandwidth-weights" kBwWeights args .noObj,
  t0N "directory-signature" kDirectorySignature (ge 2) .needObj]

/-- The token of a signature item. -/
def signatureToken (args : List Bytes) (signature : Bytes) : DirectoryToken where
  tp := kDirectorySignature
  args := args
  object := some ⟨cstring "SIGNATURE", signature, none⟩

section Item

variable {D : KeyDecoder}

/-- An argument that the tokenizer gives back. -/
def CleanWord (word : Bytes) : Prop := word ≠ [] ∧ ∀ b ∈ word, isWhitespace b = false

/-- The first place of a needle that begins with a dash, behind a text without dashes. -/
theorem memstr_dash {needle text rest : Bytes} (hneedle : ∃ t, needle = byte '-' :: t)
    (htext : byte '-' ∉ text) :
    memstr needle (text ++ (needle ++ rest)) = some (text, needle ++ rest) := by
  obtain ⟨t, rfl⟩ := hneedle
  induction text with
  | nil =>
    rw [List.nil_append, List.cons_append, memstr, if_pos]
    rw [← List.cons_append, List.isPrefixOf_iff_prefix]
    exact List.prefix_append _ _
  | cons b bs ih =>
    have hb : byte '-' ≠ b := fun h => htext (h ▸ List.mem_cons_self)
    rw [List.cons_append, memstr, if_neg, ih fun h => htext (List.mem_cons_of_mem b h)]
    · rfl
    · rw [List.isPrefixOf_cons_cons]
      simp [hb]

/-- The object behind a signature line. -/
theorem optObject_signature {signature : Bytes} (hlen : signature.length ≤ 512) (rest : Bytes) :
    optObject D .needObj (signatureArmor signature ++ rest) =
      .ok (some ⟨cstring "SIGNATURE", signature, none⟩, cstring "\n" ++ rest) := by
  have hbeginLine : byte '\n' ∉ cstring "-----BEGIN SIGNATURE-----" := by decide
  have hendLine : byte '\n' ∉ cstring "-----END SIGNATURE-----" := by decide
  have hbeginText : cstring "-----BEGIN SIGNATURE-----\n" =
      cstring "-----BEGIN SIGNATURE-----" ++ [byte '\n'] := by decide
  have hendText : cstring "-----END SIGNATURE-----\n" =
      cstring "-----END " ++ cstring "SIGNATURE-----\n" := by decide
  have htype : cstring "SIGNATURE" = objectTypeOf (cstring "-----BEGIN SIGNATURE-----") := by
    decide
  have hendTag : cstring "-----END SIGNATURE-----" =
      cstring "-----END " ++ cstring "SIGNATURE" ++ cstring "-----" := by decide
  have hendText' : cstring "-----END " ++ cstring "SIGNATURE-----\n" =
      cstring "-----END SIGNATURE-----" ++ [byte '\n'] := by decide
  -- the whole text as its begin line and what follows
  have htext : signatureArmor signature ++ rest = cstring "-----BEGIN SIGNATURE-----" ++
      byte '\n' :: (base64Encode signature ++
        (cstring "-----END " ++ (cstring "SIGNATURE-----\n" ++ rest))) := by
    rw [signatureArmor, hbeginText, hendText]
    simp only [List.append_assoc, List.cons_append, List.nil_append]
  have hcut := line_cut hbeginLine (base64Encode signature ++
    (cstring "-----END " ++ (cstring "SIGNATURE-----\n" ++ rest)))
  have hend := line_cut hendLine rest
  have hnext : cstring "-----END " ++ (cstring "SIGNATURE-----\n" ++ rest) =
      cstring "-----END SIGNATURE-----" ++ byte '\n' :: rest := by
    rw [← List.append_assoc, hendText', List.append_assoc, List.singleton_append]
  refine optObject_iff.mpr (.inr ⟨?_, _, rfl, readObject_iff.mpr ?_⟩)
  · have hlong : 11 ≤ (cstring "-----BEGIN SIGNATURE-----").length := by decide
    have hpre : cstring "-----BEGIN " <+: cstring "-----BEGIN SIGNATURE-----" := by decide
    rw [beginsObject, htext, hcut.1]
    simp only [Bool.and_eq_true, decide_eq_true_eq, List.isPrefixOf_iff_prefix]
    exact ⟨⟨by simp, hlong⟩, hpre.trans (List.prefix_append _ _)⟩
  · rw [htext, hcut.1, hcut.2]
    refine ⟨by decide, htype, base64Encode signature,
      cstring "-----END " ++ (cstring "SIGNATURE-----\n" ++ rest), ?_, ?_, ?_, ?_, rfl, ?_⟩
    · rw [List.drop_one, List.tail_cons]
      exact memstr_dash ⟨_, rfl⟩ fun h => (mem_base64Encode h).1 rfl
    · rw [hnext, hend.1]
      exact hendTag
    · have := length_base64Encode signature
      have hmax : maxLineLength = 131072 := rfl
      omega
    · exact base64Decode_encode signature
    · rw [hnext, hend.2]
      rfl

/-- The words of a line. -/
theorem signature_line {keyword : Bytes} {args : List Bytes} (hkeyword : CleanWord keyword)
    (hargs : ∀ a ∈ args, CleanWord a) (hne : args ≠ []) :
    firstWord ([byte ' '].intercalate (keyword :: args)) = keyword
      ∧ eatBlanks (afterWord ([byte ' '].intercalate (keyword :: args))) =
        [byte ' '].intercalate args := by
  obtain ⟨a, rest, rfl⟩ := List.exists_cons_of_ne_nil hne
  obtain ⟨hane, haclean⟩ := hargs a List.mem_cons_self
  obtain ⟨x, xs, rfl⟩ := List.exists_cons_of_ne_nil hane
  have hall : ∀ b ∈ keyword, (!isWhitespace b) = true := by simpa using hkeyword.2
  have hx := haclean x List.mem_cons_self
  rw [List.intercalate_cons_cons, List.append_assoc, List.singleton_append]
  refine ⟨?_, ?_⟩
  · rw [firstWord, List.takeWhile_append_of_pos hall, List.takeWhile_cons_of_neg (by decide),
      List.append_nil]
  · rw [afterWord, List.dropWhile_append_of_pos hall, List.dropWhile_cons_of_neg (by decide),
      eatBlanks, List.dropWhile_cons_of_pos (by decide), List.intercalate_cons_cons_left,
      List.dropWhile_cons_of_neg]
    unfold isWhitespace at hx
    simp only [Bool.or_eq_false_iff, decide_eq_false_iff_not] at hx
    simp [hx]

/-- **A signature item is read back**, whatever follows it. -/
theorem getNextToken_signature {args : List Bytes} {signature : Bytes}
    (hargs : ∀ a ∈ args, CleanWord a) (hmin : 2 ≤ args.length) (hmax : args.length ≤ 10)
    (hline : ([byte ' '].intercalate (cstring "directory-signature" :: args)).length ≤ 1000)
    (hlen : signature.length ≤ 512) (rest : Bytes) :
    getNextToken D footerTokenTable ([byte ' '].intercalate (cstring "directory-signature" :: args)
        ++ cstring "\n" ++ signatureArmor signature ++ rest) =
      .ok (signatureToken args signature, cstring "\n" ++ rest) := by
  have hkeyword : CleanWord (cstring "directory-signature") := by
    unfold CleanWord
    decide +kernel
  have hne : args ≠ [] := fun h => by rw [h] at hmin; exact absurd hmin (by decide)
  obtain ⟨hfirst, hblanks⟩ := signature_line hkeyword hargs hne
  have hnl : byte '\n' ∉ [byte ' '].intercalate (cstring "directory-signature" :: args) := by
    intro hmem
    have hwords : ∀ w ∈ cstring "directory-signature" :: args, CleanWord w :=
      List.forall_mem_cons.mpr ⟨hkeyword, hargs⟩
    rcases mem_intercalate hmem with hsep | ⟨w, hw, hb⟩
    · exact absurd hsep (by decide)
    · exact absurd ((hwords w hw).2 _ hb) (by decide)
  have htext : [byte ' '].intercalate (cstring "directory-signature" :: args) ++ cstring "\n"
      ++ signatureArmor signature ++ rest =
      [byte ' '].intercalate (cstring "directory-signature" :: args)
        ++ byte '\n' :: (signatureArmor signature ++ rest) := by
    have hnewline : cstring "\n" = [byte '\n'] := rfl
    rw [hnewline]
    simp only [List.append_assoc, List.cons_append, List.nil_append]
  obtain ⟨hlineOf, hafter⟩ := line_cut hnl (signatureArmor signature ++ rest)
  rw [htext]
  generalize hkl : [byte ' '].intercalate (cstring "directory-signature" :: args) = kline at *
  have hstart : eatWhitespace false (kline ++ byte '\n' :: (signatureArmor signature ++ rest)) =
      kline ++ byte '\n' :: (signatureArmor signature ++ rest) := by
    have hhead : ∃ t, kline = byte 'd' :: t := by
      rw [← hkl, List.intercalate_cons_of_ne_nil hne]
      exact ⟨_, rfl⟩
    obtain ⟨t, ht⟩ := hhead
    rw [ht]
    exact eatWhitespace_cons (by decide) _
  have hobject : eatWhitespace false (byte '\n' :: (signatureArmor signature ++ rest)) =
      signatureArmor signature ++ rest := by
    rw [eatWhitespace, if_pos (by decide)]
    have hhead : ∃ t, signatureArmor signature ++ rest = byte '-' :: t := ⟨_, rfl⟩
    obtain ⟨t, ht⟩ := hhead
    rw [ht]
    exact eatWhitespace_cons (by decide) _
  rw [getNextToken_iff, hstart, hlineOf, hafter, hobject]
  refine ⟨by have : maxLineLength = 131072 := rfl; omega, by simp, { tp := kDirectorySignature, args := args },
    cstring "directory-signature", .needObj, some ⟨cstring "SIGNATURE", signature, none⟩, ?_,
    optObject_signature hlen rest, rfl⟩
  have hopt : skipOpt kline = kline := by
    rw [skipOpt, if_neg]
    rw [hfirst]
    decide
  have hrule : footerTokenTable.find? (fun r => r.t = cstring "directory-signature") =
      some (TokenRule.t0N "directory-signature" kDirectorySignature (ArgSpec.ge 2) .needObj) := by
    decide
  rw [hopt, lineToken, hfirst, hrule]
  have htokens : tokenArguments ([byte ' '].intercalate args) = args :=
    tokenArguments_intercalate hargs
  have htoken : ruleToken (TokenRule.t0N "directory-signature" kDirectorySignature (ArgSpec.ge 2)
      .needObj) kline = .ok { tp := kDirectorySignature, args := args } := by
    refine ruleToken_iff.mpr ⟨args, (ruleArguments_iff rfl).mpr ?_, hmin, ?_, rfl⟩
    · rw [hblanks, getTokenArguments, htokens, if_pos]
      have : maxArgs = 512 := rfl
      omega
    · exact hmax.trans (by decide)
  simp only [htoken]
  rfl

end Item

/-! ## A list of signatures -/

section List

/-- What the parsers let through of a signature. -/
structure SignatureSizes (sig : DocumentSignature) : Prop where
  identity : sig.identityDigest.length = 20
  signingKey : sig.signingKeyDigest.length = 20
  least : 128 ≤ sig.signature.length
  most : sig.signature.length ≤ 512

/-- The arguments of a signature line. -/
def signatureArgs (flavor : ConsensusFlavor) (sig : DocumentSignature) : List Bytes :=
  (signatureWords flavor false sig).tail

theorem signatureWords_eq (flavor : ConsensusFlavor) (sig : DocumentSignature) :
    signatureWords flavor false sig =
      cstring "directory-signature" :: signatureArgs flavor sig := by
  cases flavor <;> rfl

theorem cleanWord_base16 {d : Bytes} (h : d.length = 20) : CleanWord (base16Encode d) := by
  refine ⟨fun hnil => ?_, fun b hb => ?_⟩
  · have hlen := length_base16Encode d
    rw [hnil, h] at hlen
    exact absurd hlen (by decide)
  · obtain ⟨hlo, hhi⟩ := (mem_base16Encode hb).1
    have hhash : b ≠ byte '#' := by
      obtain ⟨x, -, hx⟩ := List.mem_flatMap.mp hb
      have hlt : x.toNat < 256 := x.toNat_lt
      have hall : ∀ n < 16, base16Digit n ≠ byte '#' := by decide
      rcases List.mem_cons.mp hx with rfl | hx
      · exact hall _ (by omega)
      · rw [List.mem_singleton.mp hx]
        exact hall _ (by omega)
    have hne : ∀ c : UInt8, c.toNat ≤ 32 → b ≠ c := by
      intro c hc heq
      rw [heq] at hlo
      omega
    simp only [isWhitespace, Bool.or_eq_false_iff, decide_eq_false_iff_not]
    exact ⟨⟨⟨⟨⟨hne _ (by decide), hhash⟩, hne _ (by decide)⟩, hne _ (by decide)⟩,
      hne _ (by decide)⟩, hne _ (by decide)⟩

theorem cleanWord_alg (alg : DigestAlgorithm) : CleanWord (cstring alg.name) := by
  unfold CleanWord
  cases alg <;> decide +kernel

/-- The line of a signature, in numbers. -/
theorem signatureArgs_facts {sig : DocumentSignature} (h : SignatureSizes sig)
    (flavor : ConsensusFlavor) :
    (∀ a ∈ signatureArgs flavor sig, CleanWord a) ∧ 2 ≤ (signatureArgs flavor sig).length
      ∧ (signatureArgs flavor sig).length ≤ 10
      ∧ ([byte ' '].intercalate (cstring "directory-signature" :: signatureArgs flavor sig)).length
        ≤ 1000 := by
  have hid := length_base16Encode sig.identityDigest
  have hsk := length_base16Encode sig.signingKeyDigest
  rw [h.identity] at hid
  rw [h.signingKey] at hsk
  have hkeyword : (cstring "directory-signature").length = 19 := by decide
  have halg : (cstring sig.alg.name).length ≤ 6 := by
    cases sig.alg <;> decide
  cases flavor with
  | ns =>
    refine ⟨?_, by simp [signatureArgs, signatureWords], by simp [signatureArgs, signatureWords], ?_⟩
    · intro a ha
      simp only [signatureArgs, signatureWords, List.tail_cons, List.mem_cons, List.not_mem_nil,
        or_false] at ha
      rcases ha with rfl | rfl
      · exact cleanWord_base16 h.identity
      · exact cleanWord_base16 h.signingKey
    · simp only [signatureArgs, signatureWords, List.tail_cons, List.intercalate_cons_cons,
        List.intercalate_singleton, List.length_append, List.length_singleton]
      omega
  | microdesc =>
    refine ⟨?_, ?_, ?_, ?_⟩
    · intro a ha
      simp only [signatureArgs, signatureWords, Bool.false_eq_true, if_false, List.tail_cons,
        List.mem_cons, List.not_mem_nil, or_false] at ha
      rcases ha with rfl | rfl | rfl
      · exact cleanWord_alg sig.alg
      · exact cleanWord_base16 h.identity
      · exact cleanWord_base16 h.signingKey
    · simp [signatureArgs, signatureWords]
    · simp [signatureArgs, signatureWords]
    · simp only [signatureArgs, signatureWords, Bool.false_eq_true, if_false, List.tail_cons,
        List.intercalate_cons_cons, List.intercalate_singleton, List.length_append,
        List.length_singleton]
      omega

/-- The text of a list of signatures begins with the keyword, if there is one. -/
theorem formatSignature_head (flavor : ConsensusFlavor) (sig : DocumentSignature) (rest : Bytes) :
    ∃ t, formatSignature flavor false sig ++ rest = cstring "directory-signature " ++ t := by
  have htext : cstring "directory-signature " = cstring "directory-signature" ++ [byte ' '] := by
    decide
  rw [formatSignature, signatureWords_eq, htext]
  have hne : signatureArgs flavor sig ≠ [] := by
    cases flavor <;> simp [signatureArgs, signatureWords]
  rw [List.intercalate_cons_of_ne_nil hne]
  simp only [List.append_assoc]
  exact ⟨_, rfl⟩

theorem eatWhitespace_signatures (flavor : ConsensusFlavor) (sigs : List DocumentSignature) :
    eatWhitespace false (sigs.flatMap (formatSignature flavor false)) =
      sigs.flatMap (formatSignature flavor false) := by
  cases sigs with
  | nil => rfl
  | cons sig sigs =>
    rw [List.flatMap_cons]
    obtain ⟨t, ht⟩ := formatSignature_head flavor sig (sigs.flatMap (formatSignature flavor false))
    rw [ht]
    exact eatWhitespace_cons (by decide) _

variable {D : KeyDecoder}

/-- **A text of signatures gives a token for each.** -/
theorem tokenizeLoop_signatureLines (flavor : ConsensusFlavor) : ∀ {sigs : List DocumentSignature},
    (∀ sig ∈ sigs, SignatureSizes sig) →
    tokenizeLoop D footerTokenTable (sigs.flatMap (formatSignature flavor false)) =
      .ok (sigs.map fun sig => signatureToken (signatureArgs flavor sig) sig.signature)
  | [], _ => by rw [List.flatMap_nil, tokenizeLoop]; rfl
  | sig :: sigs, h => by
    have hsig := h sig List.mem_cons_self
    obtain ⟨hclean, hmin, hmax, hline⟩ := signatureArgs_facts hsig flavor
    have hnext := getNextToken_signature (D := D) hclean hmin hmax hline hsig.most
      (sigs.flatMap (formatSignature flavor false))
    have hnewline : cstring "\n" = [byte '\n'] := rfl
    rw [List.flatMap_cons, formatSignature, signatureWords_eq, tokenizeLoop_of_ok hnext, hnewline,
      List.singleton_append, eatWhitespace, if_pos (by decide), eatWhitespace_signatures,
      tokenizeLoop_signatureLines flavor fun s hs => h s (List.mem_cons_of_mem _ hs)]
    rfl

theorem mem_signatureArmor {signature : Bytes} : 0 ∉ signatureArmor signature := by
  have hbegin : 0 ∉ cstring "-----BEGIN SIGNATURE-----\n" := by decide
  have hend : 0 ∉ cstring "-----END SIGNATURE-----\n" := by decide
  intro h
  rw [signatureArmor, List.mem_append, List.mem_append] at h
  rcases h with (h | h) | h
  · exact hbegin h
  · exact (mem_base64Encode h).2.2 rfl
  · exact hend h

/-- The text has no NUL. -/
theorem zero_notMem_signatures (flavor : ConsensusFlavor) {sigs : List DocumentSignature}
    (h : ∀ sig ∈ sigs, SignatureSizes sig) : 0 ∉ sigs.flatMap (formatSignature flavor false) := by
  intro hmem
  obtain ⟨sig, hsig, hmem⟩ := List.mem_flatMap.mp hmem
  have hkeyword : 0 ∉ cstring "directory-signature" := by decide
  have hnewline : 0 ∉ cstring "\n" := by decide
  rw [formatSignature, signatureWords_eq, List.mem_append, List.mem_append] at hmem
  rcases hmem with (hmem | hmem) | hmem
  · rcases mem_intercalate hmem with hsep | ⟨w, hw, hb⟩
    · exact absurd hsep (by decide)
    · rcases List.mem_cons.mp hw with rfl | hw
      · exact hkeyword hb
      · exact absurd (((signatureArgs_facts (h sig hsig) flavor).1 w hw).2 0 hb) (by decide)
  · exact hnewline hmem
  · exact mem_signatureArmor hmem

end List

end Dittor.Tor
