import Dittor.Tor.Descriptor

/-!
# When Tor enforces the directory authority's answer

The chain from a descriptor to the registry and back: the arguments of the
`dittor-proof` line are free of whitespace (`tokenArguments_clean`), so the
`VALIDATE` line built from them has its only end of line at its end; if it fits
into the buffer, the bridge reads exactly that line (`serve_fits`) and answers,
and `VALID` means that the ten fields it split off were the descriptor's own
(`parse_payload`): an argument with a bar in it gives more than ten pieces.

If the line does not fit, `snprintf` cuts its end off. The bridge then waits for
a newline that never comes, closes the connection without an answer, and the
patch takes the missing answer for an unreachable bridge (`askBackend_long`).
Both halves together decide exactly which descriptors are enforced.
-/

namespace Dittor.Tor

open Dittor.Lib Dittor.Crypto Dittor.Dkg Dittor.Registration

/-! ## Bytes -/

section Bytes

/-- A printable byte: not a blank, and no end of line. -/
def IsGraphic (b : UInt8) : Prop := 32 < b.toNat ∧ b.toNat < 127

theorem base64_facts {b : UInt8} (h : isBase64 b = true) :
    IsGraphic b ∧ b ≠ byte ',' ∧ b ≠ byte '|' := by
  have hall : ∀ n < 256, isBase64 (UInt8.ofNat n) = true →
      (32 < (UInt8.ofNat n).toNat ∧ (UInt8.ofNat n).toNat < 127)
        ∧ UInt8.ofNat n ≠ byte ',' ∧ UInt8.ofNat n ≠ byte '|' := by decide +kernel
  obtain ⟨n, hn, rfl⟩ : ∃ n < 256, b = UInt8.ofNat n :=
    ⟨b.toNat, b.toNat_lt, UInt8.ofNat_toNat.symm⟩
  exact hall n hn h

theorem base16Digit_facts {n : ℕ} (h : n < 16) :
    IsGraphic (base16Digit n) ∧ base16Digit n ≠ byte '|' := by
  have hall : ∀ n < 16, (32 < (base16Digit n).toNat ∧ (base16Digit n).toNat < 127)
      ∧ base16Digit n ≠ byte '|' := by decide
  exact hall n h

theorem mem_base16Encode {src : Bytes} {b : UInt8} (h : b ∈ base16Encode src) :
    IsGraphic b ∧ b ≠ byte '|' := by
  obtain ⟨x, -, hb⟩ := List.mem_flatMap.mp h
  have hx : x.toNat < 256 := x.toNat_lt
  rcases List.mem_cons.mp hb with rfl | hb
  · exact base16Digit_facts (by omega)
  · rw [List.mem_singleton.mp hb]
    exact base16Digit_facts (by omega)

theorem FamilyId.mem_text {f : FamilyId} {b : UInt8} (h : b ∈ f.text) :
    IsGraphic b ∧ b ≠ byte ',' ∧ b ≠ byte '|' := by
  have hlit : ∀ b ∈ cstring "ed25519:",
      (32 < b.toNat ∧ b.toNat < 127) ∧ b ≠ byte ',' ∧ b ≠ byte '|' := by decide +kernel
  rcases List.mem_append.mp h with h | h
  · exact hlit b h
  · exact base64_facts (f.base64 b h)

theorem FamilyId.text_ne_nil (f : FamilyId) : f.text ≠ [] := by
  unfold FamilyId.text
  exact List.append_ne_nil_of_left_ne_nil (by decide) _

theorem mem_familyIdsStr {d : Descriptor} {b : UInt8} (h : b ∈ d.familyIdsStr) :
    IsGraphic b ∧ b ≠ byte '|' := by
  unfold Descriptor.familyIdsStr at h
  split at h
  · have hb : b = byte '-' := List.mem_singleton.mp h
    rw [hb]
    exact ⟨⟨by decide, by decide⟩, by decide⟩
  · rcases mem_intercalate h with rfl | ⟨t, ht, hb⟩
    · exact ⟨⟨by decide, by decide⟩, by decide⟩
    · obtain ⟨f, -, rfl⟩ := List.mem_map.mp ht
      exact ⟨(f.mem_text hb).1, (f.mem_text hb).2.2⟩

end Bytes

/-! ## The tokenizer -/

section Tokens

/-- No argument contains a byte at which `find_whitespace` stops. -/
theorem tokenArguments_clean (cp : Bytes) :
    ∀ arg ∈ tokenArguments cp, ∀ b ∈ arg, isWhitespace b = false := by
  have htake : ∀ {cp : Bytes} {b : UInt8}, b ∈ cp.takeWhile (fun b => !isWhitespace b) →
      isWhitespace b = false := by
    intro cp b hb
    simpa using List.mem_takeWhile_imp hb
  induction cp using tokenArguments.induct with
  | case1 => simp [tokenArguments]
  | case2 cp hne hdrop =>
    intro arg harg b hb
    rw [tokenArguments, if_neg hne] at harg
    split at harg
    next =>
      rw [List.mem_singleton.mp harg] at hb
      exact htake hb
    next h => simp [hdrop] at h
  | case3 cp hne x rest hdrop ih =>
    intro arg harg b hb
    rw [tokenArguments, if_neg hne] at harg
    split at harg
    next h => simp [hdrop] at h
    next x' rest' h =>
      obtain ⟨-, rfl⟩ := List.cons.inj (hdrop.symm.trans h)
      rcases List.mem_cons.mp harg with rfl | harg
      · exact htake hb
      · exact ih arg harg b hb

theorem eatWhitespace_cons {b : UInt8} (hb : isWhitespace b = false) (bs : Bytes) :
    eatWhitespace false (b :: bs) = b :: bs := by
  unfold isWhitespace at hb
  simp only [Bool.or_eq_false_iff, decide_eq_false_iff_not] at hb
  obtain ⟨⟨⟨⟨⟨-, hhash⟩, hblank⟩, hcr⟩, hlf⟩, htab⟩ := hb
  simp [eatWhitespace, hhash, hblank, hcr, hlf, htab]

/-- An argument alone on the line. -/
theorem tokenArguments_single {a : Bytes} (hne : a ≠ [])
    (hclean : ∀ b ∈ a, isWhitespace b = false) : tokenArguments a = [a] := by
  have hall : ∀ b ∈ a, (!isWhitespace b) = true := by simpa using hclean
  rw [tokenArguments, if_neg hne]
  split
  next => rw [List.takeWhile_eq_self_iff.mpr hall]
  next h =>
    rw [List.dropWhile_eq_nil_iff.mpr hall] at h
    exact absurd h (by simp)

/-- An argument, one blank, and the rest, which is not blank. -/
theorem tokenArguments_cons {a rest : Bytes} {x : UInt8} (hclean : ∀ b ∈ a, isWhitespace b = false)
    (hx : isWhitespace x = false) :
    tokenArguments (a ++ byte ' ' :: x :: rest) = a :: tokenArguments (x :: rest) := by
  have hall : ∀ b ∈ a, (!isWhitespace b) = true := by simpa using hclean
  have htake : (a ++ byte ' ' :: x :: rest).takeWhile (fun b => !isWhitespace b) = a := by
    rw [List.takeWhile_append_of_pos hall, List.takeWhile_cons_of_neg (by decide), List.append_nil]
  have hdrop : (a ++ byte ' ' :: x :: rest).dropWhile (fun b => !isWhitespace b)
      = byte ' ' :: x :: rest := by
    rw [List.dropWhile_append_of_pos hall, List.dropWhile_cons_of_neg (by decide)]
  rw [tokenArguments, if_neg (by simp), htake]
  split
  next h =>
    rw [hdrop] at h
    exact absurd h (by simp)
  next h =>
    obtain ⟨-, rfl⟩ := List.cons.inj (hdrop.symm.trans h)
    rw [eatWhitespace_cons hx]

/-- Arguments joined by blanks are cut apart again. -/
theorem tokenArguments_intercalate {args : List Bytes}
    (hargs : ∀ a ∈ args, a ≠ [] ∧ ∀ b ∈ a, isWhitespace b = false) :
    tokenArguments ([byte ' '].intercalate args) = args := by
  induction args with
  | nil =>
    rw [List.intercalate_nil, tokenArguments]
    rfl
  | cons a rest ih =>
    obtain ⟨hne, hclean⟩ := hargs a List.mem_cons_self
    have ih' := ih fun x hx => hargs x (List.mem_cons_of_mem a hx)
    cases rest with
    | nil =>
      rw [List.intercalate_singleton]
      exact tokenArguments_single hne hclean
    | cons a' rest =>
      -- the next argument starts right behind the blank
      obtain ⟨hne', hclean'⟩ := hargs a' (by simp)
      obtain ⟨x, xs, rfl⟩ := List.exists_cons_of_ne_nil hne'
      rw [List.intercalate_cons_cons_left] at ih'
      rw [List.intercalate_cons_cons, List.append_assoc, List.singleton_append,
        List.intercalate_cons_cons_left, tokenArguments_cons hclean (hclean' x List.mem_cons_self),
        ih']

end Tokens

/-! ## The line on the wire -/

section Wire

variable {args : List Bytes} {d : Descriptor}

/-- The fields of the `VALIDATE` line. -/
def wireFields (args : List Bytes) (d : Descriptor) : List Bytes :=
  args.take 8 ++ [d.nodeIdHex, d.familyIdsStr]

/-- The line without its newline. -/
def lineBody (args : List Bytes) (d : Descriptor) : Bytes :=
  cstring "VALIDATE " ++ [byte '|'].intercalate (wireFields args d)

theorem validationLine_eq (args : List Bytes) (d : Descriptor) :
    validationLine args d = lineBody args d ++ [10] := rfl

/-- The newline at the end of the line is the only one. -/
theorem lineBody_no_end (hargs : ∀ a ∈ args, ∀ b ∈ a, isWhitespace b = false) :
    ∀ b ∈ lineBody args d, b.toNat ≠ 10 ∧ b.toNat ≠ 13 := by
  have hlit : ∀ b ∈ cstring "VALIDATE ", b.toNat ≠ 10 ∧ b.toNat ≠ 13 := by decide +kernel
  have hgraph : ∀ {b : UInt8}, IsGraphic b → b.toNat ≠ 10 ∧ b.toNat ≠ 13 := by
    rintro b ⟨h, -⟩
    omega
  intro b hb
  rcases List.mem_append.mp hb with hb | hb
  · exact hlit b hb
  · rcases mem_intercalate hb with rfl | ⟨f, hf, hb⟩
    · exact ⟨by decide, by decide⟩
    · rcases List.mem_append.mp hf with hf | hf
      · have hws := hargs f (List.mem_of_mem_take hf) b hb
        constructor
        · intro h10
          rw [show b = byte '\n' from UInt8.toNat_inj.mp h10] at hws
          exact absurd hws (by decide)
        · intro h13
          rw [show b = byte '\r' from UInt8.toNat_inj.mp h13] at hws
          exact absurd hws (by decide)
      · rcases List.mem_cons.mp hf with rfl | hf
        · exact hgraph (mem_base16Encode hb).1
        · rw [List.mem_singleton.mp hf] at hb
          exact hgraph (mem_familyIdsStr hb).1

/-- A line that fits is sent whole, one that does not loses its newline. -/
theorem snprintf_line (args : List Bytes) (d : Descriptor) :
    ((validationLine args d).length < payloadSize
        ∧ snprintf payloadSize (validationLine args d) = lineBody args d ++ [10])
      ∨ (payloadSize ≤ (validationLine args d).length
        ∧ snprintf payloadSize (validationLine args d) = (lineBody args d).take (payloadSize - 1)) := by
  rw [validationLine_eq, List.length_append, List.length_singleton]
  unfold snprintf payloadSize
  by_cases h : (lineBody args d).length + 1 < 16384
  · left
    refine ⟨h, List.take_of_length_le ?_⟩
    rw [List.length_append, List.length_singleton]
    omega
  · right
    exact ⟨by omega, List.take_append_of_le_length (by omega)⟩

end Wire

/-! ## The line as the bridge reads it -/

section Text

variable {args : List Bytes} {d : Descriptor}

/-- Printable bytes are read one by one. -/
theorem decode_graphic {xs : Bytes} (h : ∀ b ∈ xs, IsGraphic b) :
    decodeUtf8 xs = xs.map fun b => Char.ofNat b.toNat := by
  have hascii := decodeUtf8_ascii_append (fun b hb => lt_trans (h b hb).2 (by omega)) []
  rwa [List.append_nil, show decodeUtf8 [] = [] from rfl, List.append_nil] at hascii

theorem mem_decode_graphic {xs : Bytes} (h : ∀ b ∈ xs, IsGraphic b) {c : Char}
    (hc : c ∈ decodeUtf8 xs) : ∃ b ∈ xs, c.toNat = b.toNat := by
  rw [decode_graphic h] at hc
  obtain ⟨b, hb, rfl⟩ := List.mem_map.mp hc
  have hlt := (h b hb).2
  exact ⟨b, hb, toNat_ofNat_valid (.inl (by omega))⟩

theorem decode_graphic_not_blank {xs : Bytes} (h : ∀ b ∈ xs, IsGraphic b) {c : Char}
    (hc : c ∈ decodeUtf8 xs) : isBlank c = false := by
  obtain ⟨b, hb, hval⟩ := mem_decode_graphic h hc
  have hgt := (h b hb).1
  unfold isBlank
  rw [decide_eq_false_iff_not]
  omega

theorem notMem_decode_graphic {xs : Bytes} (h : ∀ b ∈ xs, IsGraphic b) {c : Char}
    (hc : ∀ b ∈ xs, b ≠ byte c) (hval : (byte c).toNat = c.toNat) : c ∉ decodeUtf8 xs := by
  intro hmem
  obtain ⟨b, hb, hbc⟩ := mem_decode_graphic h hmem
  exact hc b hb (UInt8.toNat_inj.mp (hbc.symm.trans hval.symm))

theorem decode_ne_nil {xs : Bytes} (h : ∀ b ∈ xs, IsGraphic b) (hne : xs ≠ []) :
    decodeUtf8 xs ≠ [] := by
  rw [decode_graphic h]
  simpa using hne

theorem javaTrim_graphic {xs : Bytes} (h : ∀ b ∈ xs, IsGraphic b) :
    javaTrim (decodeUtf8 xs) = decodeUtf8 xs :=
  javaTrim_eq_self (fun _ hc => decode_graphic_not_blank h (List.mem_of_mem_head? hc))
    fun _ hc => decode_graphic_not_blank h (List.mem_of_getLast? hc)

/-- The last field as text. -/
theorem decode_familyIdsStr (d : Descriptor) :
    decodeUtf8 d.familyIdsStr = familyText (d.familyIds.map fun f => decodeUtf8 f.text) := by
  unfold Descriptor.familyIdsStr
  split
  next hnil =>
    rw [hnil]
    decide
  next hne =>
    rw [decodeUtf8_intercalate (by decide), List.map_map]
    exact (if_neg (by simpa using hne)).symm

/-- The last field of the line gives the family ids back. -/
theorem parseFamilyIds_own (d : Descriptor) :
    parseFamilyIds (javaTrim (decodeUtf8 d.familyIdsStr))
      = d.familyIds.map fun f => decodeUtf8 f.text := by
  have hgraph : ∀ f : FamilyId, ∀ b ∈ f.text, IsGraphic b := fun f b hb => (f.mem_text hb).1
  have hcomma : ∀ f : FamilyId, ',' ∉ decodeUtf8 f.text := fun f =>
    notMem_decode_graphic (hgraph f) (fun b hb => (f.mem_text hb).2.1) (by decide)
  rw [javaTrim_graphic fun b hb => (mem_familyIdsStr hb).1, decode_familyIdsStr,
    parseFamilyIds_familyText]
  · intro t ht
    obtain ⟨f, -, rfl⟩ := List.mem_map.mp ht
    exact ⟨decode_ne_nil (hgraph f) f.text_ne_nil, hcomma f⟩
  · -- an id starts with an `e`
    intro hdash
    obtain ⟨f, -, hf⟩ := List.mem_map.mp hdash
    rw [decode_graphic (hgraph f)] at hf
    exact absurd (List.cons.inj hf).1 (by decide)

/-- The fields as text, in two parts: the last one is always one piece. -/
def textInit (args : List Bytes) (d : Descriptor) : List Text :=
  (args.take 8 ++ [d.nodeIdHex]).map decodeUtf8

/-- The payload of the request. -/
def payloadText (args : List Bytes) (d : Descriptor) : Text :=
  ['|'].intercalate (textInit args d ++ [decodeUtf8 d.familyIdsStr])

theorem decode_lineBody (args : List Bytes) (d : Descriptor) :
    decodeUtf8 (lineBody args d) = "VALIDATE ".toList ++ payloadText args d := by
  unfold lineBody payloadText textInit
  have hlit : ∀ b ∈ cstring "VALIDATE ", b.toNat < 128 := by decide +kernel
  rw [decodeUtf8_ascii_append hlit, decodeUtf8_intercalate (by decide)]
  have hfields : (wireFields args d).map decodeUtf8
      = (args.take 8 ++ [d.nodeIdHex]).map decodeUtf8 ++ [decodeUtf8 d.familyIdsStr] := by
    unfold wireFields
    simp
  rw [hfields]
  rfl

theorem familyIdsStr_ne_nil (d : Descriptor) : d.familyIdsStr ≠ [] := by
  unfold Descriptor.familyIdsStr
  split
  · decide
  next hne =>
    obtain ⟨f, fs, hfs⟩ := List.exists_cons_of_ne_nil hne
    rw [hfs]
    cases fs with
    | nil => simpa using f.text_ne_nil
    | cons g gs => simp [List.intercalate_cons_cons]

/-- The payload starts with the context and ends with a family id: nothing to trim. -/
theorem javaTrim_payload (hhead : args.head? = some (cstring "TorRelayConsensus2026")) :
    javaTrim (payloadText args d) = payloadText args d := by
  have hgraph : ∀ b ∈ d.familyIdsStr, IsGraphic b := fun b hb => (mem_familyIdsStr hb).1
  apply javaTrim_eq_self
  · obtain ⟨a0, rest, rfl⟩ : ∃ a0 rest, args = a0 :: rest := by
      cases args with
      | nil => simp at hhead
      | cons a0 rest => exact ⟨a0, rest, rfl⟩
    obtain rfl : a0 = cstring "TorRelayConsensus2026" := Option.some.inj hhead
    obtain ⟨post, hpost⟩ := intercalate_cons_eq_append '|'
      (decodeUtf8 (cstring "TorRelayConsensus2026"))
      ((rest.take 7 ++ [d.nodeIdHex]).map decodeUtf8 ++ [decodeUtf8 d.familyIdsStr])
    have htext : payloadText (cstring "TorRelayConsensus2026" :: rest) d
        = decodeUtf8 (cstring "TorRelayConsensus2026") ++ post := hpost
    rw [htext]
    intro c hc
    rw [show decodeUtf8 (cstring "TorRelayConsensus2026") = torContext by decide] at hc
    obtain rfl : 'T' = c := Option.some.inj hc
    decide
  · intro c hc
    obtain ⟨pre, hpre⟩ := intercalate_concat_eq_append '|' (textInit args d)
      (decodeUtf8 d.familyIdsStr)
    unfold payloadText at hc
    rw [hpre, List.getLast?_append_of_ne_nil _
      (decode_ne_nil hgraph (familyIdsStr_ne_nil d))] at hc
    exact decode_graphic_not_blank hgraph (List.mem_of_getLast? hc)

/-- A bar in the bytes is a bar in the text, and the other way around. -/
theorem bar_mem_decode {a : Bytes} : '|' ∈ decodeUtf8 a ↔ byte '|' ∈ a := by
  constructor
  · intro h
    obtain ⟨b, hb, hval⟩ := byte_of_mem_decode (c := '|') (by decide) a none h
    rwa [show b = byte '|' from UInt8.toNat_inj.mp hval] at hb
  · intro h
    obtain ⟨xs, ys, rfl⟩ := List.append_of_mem h
    rw [decodeUtf8_append_ascii (by decide)]
    exact List.mem_append_right _ List.mem_cons_self

/-- No argument that goes into the line has a bar in it. -/
def BarFree (args : List Bytes) : Prop := ∀ a ∈ args.take 8, byte '|' ∉ a

instance (args : List Bytes) : Decidable (BarFree args) :=
  (inferInstance : Decidable (∀ a ∈ args.take 8, _))

theorem length_textInit (hlen : 8 ≤ args.length) : (textInit args d).length = 9 := by
  unfold textInit
  rw [List.length_map, List.length_append, List.length_take, List.length_singleton]
  omega

/-- The first nine fields have no bar when the arguments have none. -/
theorem bar_textInit : (∀ f ∈ textInit args d, '|' ∉ f) ↔ BarFree args := by
  unfold textInit BarFree
  constructor
  · intro h a ha hbar
    exact h (decodeUtf8 a) (List.mem_map_of_mem (List.mem_append_left _ ha)) (bar_mem_decode.mpr hbar)
  · intro h f hf
    obtain ⟨a, ha, rfl⟩ := List.mem_map.mp hf
    rw [bar_mem_decode]
    rcases List.mem_append.mp ha with ha | ha
    · exact h a ha
    · rw [List.mem_singleton.mp ha]
      exact fun hbar => (mem_base16Encode hbar).2 rfl

theorem split_payload (args : List Bytes) (d : Descriptor) :
    javaSplit '|' (payloadText args d)
      = ((textInit args d).flatMap fun f => f.splitOn '|') ++ [decodeUtf8 d.familyIdsStr] := by
  have hgraph : ∀ b ∈ d.familyIdsStr, IsGraphic b := fun b hb => (mem_familyIdsStr hb).1
  have hbar : '|' ∉ decodeUtf8 d.familyIdsStr :=
    notMem_decode_graphic hgraph (fun b hb => (mem_familyIdsStr hb).2) (by decide)
  exact javaSplit_intercalate hbar (decode_ne_nil hgraph (familyIdsStr_ne_nil d))

end Text

/-! ## What the bridge answers -/

section Answer

variable {p : ℕ} {G1 G2 GT : Type} (R : Restorer p G1 G2 GT)

/-- The registration a descriptor stands for: its own proof fields, its own identity
digest as the node id, its own family ids. -/
def ownMessage (args : List Bytes) (d : Descriptor) : Option (RegisterRelayMsg p G1 G2 GT) :=
  match args.map decodeUtf8 with
  | _ :: pk :: nym :: zkp :: g1x :: credential :: challenge :: response :: _ => do
    let pk ← R.restoreG2 (sanitizeJsonString pk)
    let nym ← R.restoreGT (sanitizeJsonString nym)
    let zkp ← R.restoreG1 (sanitizeJsonString zkp)
    let g1x ← R.restoreG1 (sanitizeJsonString g1x)
    let credential ← R.restoreG1 (sanitizeJsonString credential)
    let challenge ← R.restoreZn (sanitizeJsonString challenge)
    let response ← R.restoreZn (sanitizeJsonString response)
    return { userPublicKeyG2 := pk, vrfData := ⟨nym, zkp⟩, credentialCommitmentG1 := g1x
             credential := credential, dleqProof := ⟨challenge, response⟩
             context := torContext, nodeId := decodeUtf8 d.nodeIdHex
             familyIds := d.familyIds.map fun f => decodeUtf8 f.text }
  | _ => none

variable {R} {args : List Bytes} {d : Descriptor}

theorem exists_eight (h : 8 ≤ args.length) :
    ∃ a0 a1 a2 a3 a4 a5 a6 a7 rest,
      args = a0 :: a1 :: a2 :: a3 :: a4 :: a5 :: a6 :: a7 :: rest := by
  match args, h with
  | a0 :: a1 :: a2 :: a3 :: a4 :: a5 :: a6 :: a7 :: rest, _ =>
    exact ⟨a0, a1, a2, a3, a4, a5, a6, a7, rest, rfl⟩

/-- Arguments without a bar are split apart as they were. -/
theorem splitFields_args {a0 a1 a2 a3 a4 a5 a6 a7 : Bytes} {rest : List Bytes}
    (hfree : BarFree (a0 :: a1 :: a2 :: a3 :: a4 :: a5 :: a6 :: a7 :: rest)) :
    splitFields (payloadText (a0 :: a1 :: a2 :: a3 :: a4 :: a5 :: a6 :: a7 :: rest) d)
      = some ⟨decodeUtf8 a0, decodeUtf8 a1, decodeUtf8 a2, decodeUtf8 a3, decodeUtf8 a4,
          decodeUtf8 a5, decodeUtf8 a6, decodeUtf8 a7, decodeUtf8 d.nodeIdHex,
          decodeUtf8 d.familyIdsStr⟩ := by
  unfold splitFields
  rw [split_payload, flatMap_splitOn_of_notMem (bar_textInit.mpr hfree)]
  rfl

/-- **The bridge reads ten fields** exactly when no argument has a bar, and then
they are the descriptor's own. -/
theorem parse_payload (hlen : 8 ≤ args.length)
    (hhead : args.head? = some (cstring "TorRelayConsensus2026")) :
    parseRequest R (payloadText args d) = if BarFree args then ownMessage R args d else none := by
  split
  next hfree =>
    obtain ⟨a0, a1, a2, a3, a4, a5, a6, a7, rest, rfl⟩ := exists_eight hlen
    obtain rfl : a0 = cstring "TorRelayConsensus2026" := Option.some.inj hhead
    unfold parseRequest
    rw [splitFields_args hfree, Option.bind_some]
    have hctx : javaTrim (decodeUtf8 (cstring "TorRelayConsensus2026")) = torContext := by decide
    have hnode : javaTrim (decodeUtf8 d.nodeIdHex) = decodeUtf8 d.nodeIdHex :=
      javaTrim_graphic fun b hb => (mem_base16Encode hb).1
    simp only [ownMessage, restoreFields, List.map_cons, hctx, parseFamilyIds_own, hnode]
  next hbar =>
    cases hparse : parseRequest R (payloadText args d) with
    | none => rfl
    | some msg =>
      -- ten pieces would mean that no argument was cut
      unfold parseRequest splitFields at hparse
      obtain ⟨f, hf, -⟩ := Option.bind_eq_some_iff.mp hparse
      split at hf
      next heq =>
        have hten := congrArg List.length heq
        rw [split_payload, List.length_append, List.length_singleton] at hten
        have hnine : ((textInit args d).flatMap fun f => f.splitOn '|').length
            = (textInit args d).length := by
          rw [length_textInit hlen]
          exact Nat.succ.inj hten
        exact absurd (bar_textInit.mp (notMem_of_flatMap_length hnine)) hbar
      next => exact absurd hf (by simp)

/-- A request that is read at all is the descriptor's own. -/
theorem own_of_parse (hlen : 8 ≤ args.length)
    (hhead : args.head? = some (cstring "TorRelayConsensus2026"))
    {msg : RegisterRelayMsg p G1 G2 GT} (h : parseRequest R (payloadText args d) = some msg) :
    ownMessage R args d = some msg := by
  rw [parse_payload hlen hhead] at h
  split at h
  · exact h
  · exact absurd h (by simp)

variable [CommGroup G1] [CommGroup G2] [CommGroup GT] [DecidableEq GT]
  {S : CryptimeleonSetup p G1 G2 GT} {da : DA G2}

/-- **A line that fits is answered.** -/
theorem serve_fits (hclean : ∀ a ∈ args, ∀ b ∈ a, isWhitespace b = false)
    (hhead : args.head? = some (cstring "TorRelayConsensus2026"))
    (hfits : (validationLine args d).length < payloadSize) :
    serve R S da (snprintf payloadSize (validationLine args d)) false
      = ((validate R S da (payloadText args d)).1,
          some (if (validate R S da (payloadText args d)).2 then "VALID".toList
            else "INVALID".toList)) := by
  rcases snprintf_line args d with ⟨-, hline⟩ | ⟨hlong, -⟩
  · unfold serve
    rw [hline, readLine_complete (lineBody_no_end hclean), decode_lineBody]
    exact handleRequest_validate R S da (javaTrim_payload hhead)
  · omega

/-- The patch accepts exactly what the bridge validated. -/
theorem askBackend_fits (hclean : ∀ a ∈ args, ∀ b ∈ a, isWhitespace b = false)
    (hhead : args.head? = some (cstring "TorRelayConsensus2026"))
    (hfits : (validationLine args d).length < payloadSize) :
    askBackend R S da args d
      = ((validate R S da (payloadText args d)).1,
          if (validate R S da (payloadText args d)).2 then .verified else .rejected) := by
  unfold askBackend dittorProxy
  rw [serve_fits hclean hhead hfits]
  cases (validate R S da (payloadText args d)).2 with
  | true => rfl
  | false => rfl

/-- **A line that does not fit is never answered**, and the node is kept. -/
theorem askBackend_long (hclean : ∀ a ∈ args, ∀ b ∈ a, isWhitespace b = false)
    (hlong : payloadSize ≤ (validationLine args d).length) :
    askBackend R S da args d = (da, .keptAlive) := by
  rcases snprintf_line args d with ⟨hfits, -⟩ | ⟨-, hline⟩
  · omega
  · have hread : readLine (snprintf payloadSize (validationLine args d)) false = .timeout := by
      rw [hline]
      exact readLine_incomplete fun b hb => lineBody_no_end hclean b (List.mem_of_mem_take hb)
    unfold askBackend dittorProxy serve
    rw [hread]
    rfl

/-- A positive answer is a registration of the descriptor's own request. -/
theorem validate_own (hlen : 8 ≤ args.length)
    (hhead : args.head? = some (cstring "TorRelayConsensus2026"))
    (h : (validate R S da (payloadText args d)).2 = true) :
    ∃ msg, ownMessage R args d = some msg ∧ authorizes S da msg = true
      ∧ da.registerNode S msg.context msg.vrfData.nym msg.nodeId msg.familyIds.toFinset
        = ((validate R S da (payloadText args d)).1, true) := by
  obtain ⟨msg, hparse, haccept⟩ := validate_accepts R S h
  exact ⟨msg, own_of_parse hlen hhead hparse, haccept⟩

end Answer

/-! ## Which descriptors are enforced -/

section Enforced

variable {p : ℕ} {G1 G2 GT : Type} [CommGroup G1] [CommGroup G2] [CommGroup GT]
  [DecidableEq GT]

/-- **Enforcement**: a router is returned only after `registerNode` accepted the
descriptor's own request, and the branch for an unreachable bridge is not taken. -/
def Enforced (R : Restorer p G1 G2 GT) (S : CryptimeleonSetup p G1 G2 GT) (da : DA G2)
    (d : Descriptor) : Prop :=
  ((routerParseEntry R S da d).router = true → ∃ args msg, d.hasProof = some args
      ∧ ownMessage R args d = some msg ∧ authorizes S da msg = true
      ∧ da.registerNode S msg.context msg.vrfData.nym msg.nodeId msg.familyIds.toFinset
        = ((routerParseEntry R S da d).da, true))
    ∧ (routerParseEntry R S da d).verdict ≠ some .keptAlive

/-- How many bytes the family ids take in the line, with a comma between them. -/
def familyLength (familyIds : List FamilyId) : ℕ :=
  if familyIds = [] then 1 else (familyIds.map fun f => 9 + f.key.length).sum - 1

/-- A descriptor whose proof fields and family ids are too long for the buffer: all of the
line but `VALIDATE`, a blank, nine bars, 40 hexadecimal digits and the newline. -/
def Oversized (d : Descriptor) : Prop :=
  ∃ args, d.hasProof = some args
    ∧ 16325 ≤ ((args.take 8).map List.length).sum + familyLength d.familyIds

theorem length_intercalate (sep : UInt8) (fields : List Bytes) (hne : fields ≠ []) :
    ([sep].intercalate fields).length + 1 = (fields.map fun f => f.length + 1).sum := by
  induction fields with
  | nil => exact absurd rfl hne
  | cons f fs ih =>
    cases fs with
    | nil => simp
    | cons g gs =>
      have ih' := ih (by simp)
      rw [List.intercalate_cons_cons, List.map_cons, List.sum_cons, ← ih', List.length_append,
        List.length_append, List.length_singleton]
      omega

theorem length_familyIdsStr (d : Descriptor) : d.familyIdsStr.length = familyLength d.familyIds := by
  unfold Descriptor.familyIdsStr familyLength
  split
  · rfl
  next hne =>
    have hlen := length_intercalate (byte ',') (d.familyIds.map FamilyId.text)
      (by simpa using hne)
    rw [List.map_map] at hlen
    have hsum : d.familyIds.map ((fun f : Bytes => f.length + 1) ∘ FamilyId.text)
        = d.familyIds.map fun f => 9 + f.key.length := by
      apply List.map_congr_left
      intro f _
      show (cstring "ed25519:" ++ f.key).length + 1 = 9 + f.key.length
      rw [List.length_append, show (cstring "ed25519:").length = 8 from rfl]
      omega
    rw [hsum] at hlen
    omega

theorem length_validationLine {args : List Bytes} (hlen : 8 ≤ args.length) (d : Descriptor) :
    (validationLine args d).length
      = 59 + ((args.take 8).map List.length).sum + familyLength d.familyIds := by
  have hjoin := length_intercalate (byte '|') (wireFields args d) (by simp [wireFields])
  have hsum : ((wireFields args d).map fun f => f.length + 1).sum
      = ((args.take 8).map List.length).sum + 8 + (41 + (familyLength d.familyIds + 1)) := by
    have hhex : d.nodeIdHex.length = 40 := by
      unfold Descriptor.nodeIdHex
      rw [length_base16Encode, d.digest_len]
    unfold wireFields
    rw [List.map_append, List.sum_append]
    simp only [List.map_cons, List.map_nil, List.sum_cons, List.sum_nil, hhex, length_familyIdsStr]
    obtain ⟨a0, a1, a2, a3, a4, a5, a6, a7, rest, rfl⟩ := exists_eight hlen
    simp only [List.take_succ_cons, List.take_zero, List.map_cons, List.map_nil, List.sum_cons,
      List.sum_nil]
    omega
  rw [validationLine_eq, List.length_append, List.length_singleton]
  unfold lineBody
  rw [List.length_append, show (cstring "VALIDATE ").length = 9 from rfl]
  omega

/-- What an accepted token looks like. -/
theorem hasProof_facts {d : Descriptor} {args : List Bytes} (h : d.hasProof = some args) :
    d.proofArgs = some args ∧ 8 ≤ args.length
      ∧ args.head? = some (cstring "TorRelayConsensus2026")
      ∧ ∀ a ∈ args, ∀ b ∈ a, isWhitespace b = false := by
  unfold Descriptor.hasProof at h
  obtain ⟨hproof, hhead⟩ := Option.filter_eq_some_iff.mp h
  refine ⟨hproof, ?_⟩
  unfold Descriptor.proofArgs at hproof
  obtain ⟨line, -, hargs⟩ := Option.bind_eq_some_iff.mp hproof
  obtain ⟨htok, hlen⟩ := Option.filter_eq_some_iff.mp hargs
  refine ⟨of_decide_eq_true hlen, of_decide_eq_true hhead, ?_⟩
  unfold getTokenArguments at htok
  split at htok
  next =>
    rw [← Option.some.inj htok]
    exact tokenArguments_clean line.bytes
  next => exact absurd htok (by simp)

/-- Arguments joined by blanks make a line. -/
theorem intercalate_clean {args : List Bytes}
    (hclean : ∀ a ∈ args, a ≠ [] ∧ ∀ b ∈ a, isWhitespace b = false) :
    ∀ b ∈ [byte ' '].intercalate args, b ≠ 0 ∧ b ≠ byte '\n' := by
  intro b hb
  rcases mem_intercalate hb with rfl | ⟨a, ha, hb⟩
  · decide
  · have hws := (hclean a ha).2 b hb
    refine ⟨?_, ?_⟩
    · rintro rfl
      exact absurd hws (by decide)
    · rintro rfl
      exact absurd hws (by decide)

/-- A line of eight or more arguments, the first of them the context, is a proof. -/
theorem hasProof_intercalate {d : Descriptor} {line : ArgumentLine} {args : List Bytes}
    (hline : d.proofLine = some line) (hbytes : line.bytes = [byte ' '].intercalate args)
    (hclean : ∀ a ∈ args, a ≠ [] ∧ ∀ b ∈ a, isWhitespace b = false) (hlen : 8 ≤ args.length)
    (hmax : args.length ≤ maxArgs)
    (hhead : args.head? = some (cstring "TorRelayConsensus2026")) :
    d.hasProof = some args := by
  have htok : getTokenArguments line.bytes = some args := by
    unfold getTokenArguments
    rw [hbytes, tokenArguments_intercalate hclean, if_pos hmax]
  have hproof : d.proofArgs = some args := by
    unfold Descriptor.proofArgs
    rw [hline, Option.bind_some, htok]
    exact Option.filter_eq_some_iff.mpr ⟨rfl, decide_eq_true hlen⟩
  unfold Descriptor.hasProof
  rw [hproof]
  exact Option.filter_eq_some_iff.mpr ⟨rfl, decide_eq_true hhead⟩

variable {R : Restorer p G1 G2 GT} {S : CryptimeleonSetup p G1 G2 GT} {da : DA G2}
  {d : Descriptor}

/-- Where the block is reached with a token, its verdict decides. -/
theorem routerParseEntry_reached {args : List Bytes} (hbefore : d.before = true)
    (hproof : d.hasProof = some args) :
    routerParseEntry R S da d
      = ⟨(askBackend R S da args d).1, some (askBackend R S da args d).2,
          match (askBackend R S da args d).2 with
          | .verified | .keptAlive => d.after
          | .rejected | .noProof => false⟩ := by
  obtain ⟨hargs, -⟩ := hasProof_facts hproof
  have hreached : ¬ (d.before = false ∨ (d.proofLine.isSome ∧ d.proofArgs = none)) := by
    simp [hbefore, hargs]
  have hblock : dittorBlock R S da d = askBackend R S da args d := by
    unfold dittorBlock
    rw [hproof]
  unfold routerParseEntry
  rw [if_neg hreached, hblock]
  cases h : (askBackend R S da args d).2 <;> simp [h]

/-- Where the block is not reached, or finds no token, there is no router. -/
theorem enforced_of_refused (h : d.before = false ∨ d.hasProof = none) : Enforced R S da d := by
  have hrefused : (routerParseEntry R S da d).router = false
      ∧ (routerParseEntry R S da d).verdict ≠ some .keptAlive := by
    unfold routerParseEntry
    split
    next => exact ⟨rfl, by simp⟩
    next hreached =>
      have hnone : d.hasProof = none := h.resolve_left fun hb => hreached (.inl hb)
      unfold dittorBlock
      rw [hnone]
      exact ⟨rfl, by simp⟩
  refine ⟨fun hrouter => ?_, hrefused.2⟩
  rw [hrefused.1] at hrouter
  exact absurd hrouter (by simp)

/-- Where the line fits, a router means that the bridge answered `VALID`. -/
theorem enforced_of_fits {args : List Bytes} (hbefore : d.before = true)
    (hproof : d.hasProof = some args) (hfits : (validationLine args d).length < payloadSize) :
    Enforced R S da d := by
  obtain ⟨-, hlen, hhead, hclean⟩ := hasProof_facts hproof
  unfold Enforced
  rw [routerParseEntry_reached hbefore hproof, askBackend_fits hclean hhead hfits]
  cases hvalid : (validate R S da (payloadText args d)).2 with
  | true =>
    obtain ⟨msg, hown, hauth, hreg⟩ := validate_own hlen hhead hvalid
    exact ⟨fun _ => ⟨args, msg, hproof, hown, hauth, hreg⟩, by simp⟩
  | false => exact ⟨fun hrouter => absurd hrouter (by simp), by simp⟩

/-- Where the line does not fit, the patch keeps the node. -/
theorem keptAlive_of_long {args : List Bytes} (hbefore : d.before = true)
    (hproof : d.hasProof = some args) (hlong : payloadSize ≤ (validationLine args d).length) :
    routerParseEntry R S da d = ⟨da, some .keptAlive, d.after⟩ := by
  obtain ⟨-, -, -, hclean⟩ := hasProof_facts hproof
  rw [routerParseEntry_reached hbefore hproof, askBackend_long hclean hlong]

/-- Tor enforces the directory authority's answer for a descriptor, in every state of the
registry, if and only if the descriptor does not reach the block with an oversized proof. -/
theorem enforced_iff_fits (R : Restorer p G1 G2 GT) (S : CryptimeleonSetup p G1 G2 GT)
    (da : DA G2) (d : Descriptor) :
    Enforced R S da d ↔ ¬ (d.before = true ∧ Oversized d) := by
  constructor
  · rintro ⟨-, hkept⟩ ⟨hbefore, args, hproof, hsize⟩
    obtain ⟨-, hlen, -⟩ := hasProof_facts hproof
    have hlong : payloadSize ≤ (validationLine args d).length := by
      rw [length_validationLine hlen]
      unfold payloadSize
      omega
    rw [keptAlive_of_long hbefore hproof hlong] at hkept
    exact hkept rfl
  · intro hfit
    by_cases hbefore : d.before = true
    · cases hproof : d.hasProof with
      | none => exact enforced_of_refused (.inr hproof)
      | some args =>
        obtain ⟨-, hlen, -⟩ := hasProof_facts hproof
        apply enforced_of_fits hbefore hproof
        have hsmall := not_le.mp fun hsize => hfit ⟨hbefore, args, hproof, hsize⟩
        rw [length_validationLine hlen]
        unfold payloadSize
        omega
    · rw [Bool.not_eq_true] at hbefore
      exact enforced_of_refused (.inl hbefore)

end Enforced

/-! ## A descriptor that is not checked -/

section Oversize

/-- A field that fills the buffer on its own. -/
def longField : Bytes := List.replicate 17000 (byte 'a')

theorem longField_length : longField.length = 17000 := List.length_replicate

/-- Seven short arguments and the long one. -/
def longArgs : List Bytes :=
  [cstring "TorRelayConsensus2026", cstring "x", cstring "x", cstring "x", cstring "x",
    cstring "x", cstring "x"] ++ [longField]

theorem longArgs_lengths : longArgs.map List.length = [21, 1, 1, 1, 1, 1, 1, 17000] := by
  unfold longArgs
  rw [List.map_append, List.map_singleton, longField_length,
    show [cstring "TorRelayConsensus2026", cstring "x", cstring "x", cstring "x", cstring "x",
      cstring "x", cstring "x"].map List.length = [21, 1, 1, 1, 1, 1, 1] by decide]
  rfl

theorem longArgs_clean : ∀ a ∈ longArgs, a ≠ [] ∧ ∀ b ∈ a, isWhitespace b = false := by
  intro a ha
  rcases List.mem_append.mp ha with ha | ha
  · revert a
    decide +kernel
  · rw [List.mem_singleton.mp ha]
    refine ⟨List.ne_nil_of_length_pos (by rw [longField_length]; omega), fun b hb => ?_⟩
    rw [List.eq_of_mem_replicate hb]
    decide

/-- The line with these arguments. -/
def longLine : ArgumentLine where
  bytes := [byte ' '].intercalate longArgs
  clean := intercalate_clean longArgs_clean
  short := by
    have hlen := length_intercalate (byte ' ') longArgs (by simp [longArgs])
    have hsum : (longArgs.map fun f => f.length + 1).sum = 17035 := by
      rw [show (longArgs.map fun f => f.length + 1) = (longArgs.map List.length).map (· + 1) by
        rw [List.map_map]; rfl, longArgs_lengths]
      rfl
    omega

def longDescriptor : Descriptor where
  proofLine := some longLine
  identityDigest := List.replicate 20 7
  digest_len := rfl
  familyIds := []
  before := true
  after := true

theorem longDescriptor_hasProof : longDescriptor.hasProof = some longArgs :=
  hasProof_intercalate rfl rfl longArgs_clean (by decide) (by decide) rfl

/-- **Kept without a check.** Whatever the registry holds, the router is returned, the
backend is taken for unreachable, and nothing was registered. -/
theorem long_proof_kept_alive :
    ∃ d : Descriptor, ∀ (R : Restorer 5 (Multiplicative (ZMod 5)) (Multiplicative (ZMod 5))
        (Multiplicative (ZMod 5))) (da : DA (Multiplicative (ZMod 5))),
      ¬ Enforced R (productSetup 5 2) da d
        ∧ routerParseEntry R (productSetup 5 2) da d = ⟨da, some .keptAlive, true⟩ := by
  refine ⟨longDescriptor, fun R da => ?_⟩
  have hlong : payloadSize ≤ (validationLine longArgs longDescriptor).length := by
    rw [length_validationLine (by decide)]
    have hsum : ((longArgs.take 8).map List.length).sum = 17027 := by
      rw [List.map_take, longArgs_lengths]
      rfl
    unfold payloadSize
    omega
  have hkept : routerParseEntry R (productSetup 5 2) da longDescriptor
      = ⟨da, some .keptAlive, true⟩ :=
    keptAlive_of_long rfl longDescriptor_hasProof hlong
  refine ⟨fun h => h.2 ?_, hkept⟩
  rw [hkept]

end Oversize

end Dittor.Tor
