import Mathlib
import Dittor.Lib.Checks
import Dittor.Tor.RouterEntry

/-!
# What a token table guarantees (`parsecommon.c`, `routerparse.c`)

`tokenize_string` ends after at most as many rounds as the document has bytes
(`tokenizeRounds_eq`). What it accepts obeys its table: how often an item occurs and where it
stands is checked behind the loop (`RuleHolds`), its arguments and its object when its line is
read (`LineConforms`). The second half is about the rule that the keyword of the line selects. A
line without a rule becomes an `opt` or an unknown annotation, so that a keyword only stands for
one rule in a table that `Separates` them, as that of router descriptors does.

`router_parse_entry_from_string` rests on this: it asserts that items are there and how many
arguments they have (`entryDemands`), and no assertion fails on what was tokenized before.
-/

namespace Dittor.Tor

open Dittor.Lib

/-! ## Rounds -/

section Rounds

variable (D : KeyDecoder) (table : List TokenRule)

/-- The loop of `tokenize_string` on the tokens in `out`, stopped after `n` rounds. -/
def tokenizeRounds : ℕ → List DirectoryToken → Bytes →
    Option (Except Bytes (List DirectoryToken))
  | _, out, [] => some (.ok out)
  | 0, _, _ :: _ => none
  | n + 1, out, b :: bs =>
    match getNextToken D table (b :: bs) with
    | .error e => some (.error e)
    | .ok (tok, rest) => tokenizeRounds n (out ++ [tok]) (eatWhitespace false rest)

variable {D table}

theorem tokenizeLoop_of_error {s e : Bytes} (hne : s ≠ [])
    (h : getNextToken D table s = .error e) : tokenizeLoop D table s = .error e := by
  rw [tokenizeLoop, if_neg hne]
  split
  next e' he =>
    rw [h] at he
    rw [Except.error.inj he]
  next he =>
    rw [h] at he
    cases he

/-- **The loop ends**: each round takes a byte. -/
theorem tokenizeRounds_eq {n : ℕ} :
    ∀ {out : List DirectoryToken} {s : Bytes}, s.length ≤ n →
    tokenizeRounds D table n out s = some ((tokenizeLoop D table s).map fun toks => out ++ toks) := by
  induction n with
  | zero =>
    intro out s hn
    obtain rfl := List.length_eq_zero_iff.mp (Nat.le_zero.mp hn)
    rw [tokenizeRounds, tokenizeLoop, if_pos rfl]
    simp [Except.map]
  | succ n ih =>
    intro out s hn
    cases s with
    | nil =>
      rw [tokenizeRounds, tokenizeLoop, if_pos rfl]
      simp [Except.map]
    | cons b bs =>
      rw [tokenizeRounds]
      cases hnext : getNextToken D table (b :: bs) with
      | error e =>
        rw [tokenizeLoop_of_error (List.cons_ne_nil b bs) hnext]
        rfl
      | ok o =>
        obtain ⟨tok, rest⟩ := o
        have hlt := getNextToken_length hnext
        have heat := eatWhitespace_length false rest
        dsimp only
        rw [ih (by omega), tokenizeLoop_of_ok hnext]
        cases tokenizeLoop D table (eatWhitespace false rest) with
        | error e => rfl
        | ok toks =>
          show some (Except.ok ((out ++ [tok]) ++ toks)) = some (Except.ok (out ++ tok :: toks))
          rw [List.append_assoc, List.singleton_append]

end Rounds

/-! ## One item -/

/-- The object that a rule asks for. -/
def ObjectOk (tok : DirectoryToken) : ObjSyntax → Prop
  | .noObj => tok.object = none
  | .needObj => tok.object.isSome = true ∧ tok.key = none
  | .optKey1024 => tok.object = none
      ∨ ∃ key, tok.key = some key ∧ key.numBits = 1024 ∧ key.isPrivate = false
  | .needKey1024 => ∃ key, tok.key = some key ∧ key.numBits = 1024 ∧ key.isPrivate = false
  | .needKey => ∃ key, tok.key = some key ∧ key.isPrivate = false
  | .objOk => True

/-- An item as its rule has it. -/
structure Conforms (r : TokenRule) (tok : DirectoryToken) : Prop where
  tp : tok.tp = r.v
  minArgs : r.minArgs ≤ tok.args.length
  maxArgs : tok.args.length ≤ r.maxArgs
  object : ObjectOk tok r.os

/-- The item of a line: as the rule of its keyword has it, or the whole line. -/
def LineConforms (table : List TokenRule) (line : Bytes) (tok : DirectoryToken) : Prop :=
  match table.find? fun r => r.t = firstWord line with
  | some r => Conforms r tok
  | none => tok.tp = (unknownToken line).tp ∧ tok.args = (unknownToken line).args

/-- The line of the item that comes next, behind an `opt`. -/
def itemLine (s : Bytes) : Bytes := skipOpt (lineOf (eatWhitespace false s))

section Item

variable {D : KeyDecoder} {table : List TokenRule}

theorem checkKey_key {kwd : Bytes} {tok tok' : DirectoryToken} (h : checkKey kwd tok = .ok tok') :
    ∃ key, tok.key = some key ∧ key.isPrivate = false := by
  unfold checkKey at h
  split at h
  next => cases h
  next key hkey =>
    split at h
    next => cases h
    next hprivate => exact ⟨key, hkey, Bool.eq_false_iff.mpr hprivate⟩

theorem checkKey1024_key {kwd : Bytes} {tok tok' : DirectoryToken}
    (h : checkKey1024 kwd tok = .ok tok') :
    ∃ key, tok.key = some key ∧ key.numBits = 1024 ∧ key.isPrivate = false := by
  unfold checkKey1024 at h
  split at h
  next hnone =>
    obtain ⟨key, hkey, -⟩ := checkKey_key h
    rw [hnone] at hkey
    cases hkey
  next key hkey =>
    split at h
    next => cases h
    next hbits =>
      obtain ⟨key', hkey', hprivate⟩ := checkKey_key h
      obtain rfl := Option.some.inj (hkey.symm.trans hkey')
      exact ⟨key, hkey, not_not.mp hbits, hprivate⟩

/-- A key is only read where the rule allows one. -/
theorem optObject_no_key {s r : Bytes} {object : Option TokenObject} {os : ObjSyntax}
    (hos : os = .noObj ∨ os = .needObj) (h : optObject D os s = .ok (object, r)) :
    object.bind TokenObject.key = none := by
  rcases optObject_iff.mp h with ⟨-, rfl, -⟩ | ⟨-, o, rfl, hread⟩
  · rfl
  · obtain ⟨-, -, text, next, -, -, -, -, hkey, -⟩ := readObject_iff.mp hread
    unfold objectKey at hkey
    rw [if_pos hos] at hkey
    split at hkey
    next => cases hkey
    next => exact (Except.ok.inj hkey).symm

/-- `token_check_object` passes what the rule asks for. -/
theorem objectOk_of_check {s r kwd : Bytes} {os : ObjSyntax} {object : Option TokenObject}
    {item tok : DirectoryToken} (hobj : optObject D os s = .ok (object, r))
    (h : tokenCheckObject kwd { item with object := object } os = .ok tok) : ObjectOk tok os := by
  obtain rfl := tokenCheckObject_ok h
  cases os with
  | noObj =>
    rw [tokenCheckObject] at h
    split at h
    next => cases h
    next hsome => exact Option.not_isSome_iff_eq_none.mp hsome
  | needObj =>
    rw [tokenCheckObject] at h
    split at h
    next => cases h
    next hnone =>
      exact ⟨Option.isSome_iff_ne_none.mpr fun hnil => hnone (Option.isNone_iff_eq_none.mpr hnil),
        optObject_no_key (.inr rfl) hobj⟩
  | optKey1024 =>
    rw [tokenCheckObject] at h
    split at h
    next => cases h
    next hunexpected =>
      split at h
      next hkey => exact .inl (Option.not_isSome_iff_eq_none.mp fun hs => hunexpected ⟨hs, hkey⟩)
      next => exact .inr (checkKey1024_key h)
  | needKey1024 => exact checkKey1024_key h
  | needKey => exact checkKey_key h
  | objOk => trivial

/-- **An item obeys the rule of its line.** -/
theorem getNextToken_conforms {s r : Bytes} {tok : DirectoryToken}
    (h : getNextToken D table s = .ok (tok, r)) : LineConforms table (itemLine s) tok := by
  obtain ⟨-, -, item, kwd, os, object, hline, hobj, hcheck⟩ := getNextToken_iff.mp h
  have hobject := objectOk_of_check hobj hcheck
  obtain rfl := tokenCheckObject_ok hcheck
  unfold lineToken at hline
  split at hline
  next rule hrule =>
    obtain ⟨item', htoken, heq⟩ := except_map_eq_ok.mp hline
    obtain ⟨rfl, hrest⟩ := Prod.mk.inj heq
    obtain ⟨rfl, rfl⟩ := Prod.mk.inj hrest
    obtain ⟨args, -, hmin, hmax, rfl⟩ := ruleToken_iff.mp htoken
    unfold LineConforms itemLine
    rw [hrule]
    exact ⟨rfl, hmin, hmax, hobject⟩
  next hnone =>
    obtain ⟨rfl, -⟩ := Prod.mk.inj (Except.ok.inj hline)
    unfold LineConforms itemLine
    rw [hnone]
    exact ⟨rfl, rfl⟩

end Item

/-! ## A keyword and its rule -/

/-- No two rules make the same kind of item, and the rules of the kinds that a line without a
rule becomes are met by such a line. -/
structure Separates (table : List TokenRule) : Prop where
  distinct : (table.map TokenRule.v).Nodup
  fallback : ∀ r ∈ table, r.v = .opt ∨ r.v = .unknown →
    r.minArgs ≤ 1 ∧ 1 ≤ r.maxArgs ∧ r.os = .objOk

theorem unknownToken_tp (line : Bytes) :
    (unknownToken line).tp = .opt ∨ (unknownToken line).tp = .unknown := by
  unfold unknownToken
  dsimp only
  split
  · exact .inr rfl
  · exact .inl rfl

theorem Separates.conforms {table : List TokenRule} (hsep : Separates table) {line : Bytes}
    {tok : DirectoryToken} (h : LineConforms table line tok) {r : TokenRule} (hr : r ∈ table)
    (htp : tok.tp = r.v) : Conforms r tok := by
  unfold LineConforms at h
  split at h
  next r' hfind =>
    have hsame : r' = r :=
      List.inj_on_of_nodup_map hsep.distinct (List.mem_of_find?_eq_some hfind) hr
        (h.tp.symm.trans htp)
    exact hsame ▸ h
  next =>
    obtain ⟨hkind, hargs⟩ := h
    obtain ⟨hmin, hmax, hos⟩ := hsep.fallback r hr (by
      rw [← htp, hkind]
      exact unknownToken_tp line)
    refine ⟨htp, ?_, ?_, ?_⟩
    · rw [hargs]
      exact hmin
    · rw [hargs]
      exact hmax
    · rw [hos]
      trivial

/-! ## The document -/

/-- How often the items of a rule occur and where they stand. -/
structure RuleHolds (r : TokenRule) (out : List DirectoryKeyword) : Prop where
  minCnt : r.minCnt ≤ out.count r.v
  maxCnt : out.count r.v ≤ r.maxCnt
  start : r.atStart = true → (out.find? fun tp => !tp.amongAnnotations) = some r.v
  last : r.atEnd = true → out.getLast? = some r.v

section Document

variable {D : KeyDecoder} {table : List TokenRule} {flags : TokenizeFlags}
  {out tokens : List DirectoryToken} {s : Bytes}

/-- The parts of an accepted tokenization. -/
theorem tokenizeString_ok (h : tokenizeString D table flags out s = .ok tokens) :
    ∃ toks, tokenizeLoop D table s = .ok toks ∧ tokens = out ++ toks
      ∧ (flags.noCheck = false → ∃ first,
        firstNonannotation flags out.length (tokens.map DirectoryToken.tp) = .ok first
          ∧ ∀ r ∈ table, checkRule first (tokens.map DirectoryToken.tp) r = .ok ()) := by
  unfold tokenizeString at h
  split at h
  next => cases h
  next =>
    obtain ⟨toks, hloop, h⟩ := except_bind_eq_ok.mp h
    obtain ⟨u, hrules, h⟩ := except_bind_eq_ok.mp h
    obtain rfl := Except.ok.inj h
    refine ⟨toks, hloop, rfl, fun hcheck => ?_⟩
    unfold checkTokens at hrules
    rw [if_neg (by rw [hcheck]; decide)] at hrules
    obtain ⟨first, hfirst, hrules⟩ := except_bind_eq_ok.mp hrules
    exact ⟨first, hfirst, forM_eq_ok.mp hrules⟩

/-- The position is that of the first item that is no annotation. -/
theorem firstNonannotation_getElem {n first : ℕ} {kinds : List DirectoryKeyword}
    (h : firstNonannotation flags n kinds = .ok first) :
    kinds[first]? = kinds.find? fun tp => !tp.amongAnnotations := by
  unfold firstNonannotation at h
  split at h
  next =>
    split at h
    next => cases h
    next k hk =>
      have hfirst : k = first := by
        split at h
        next => cases h
        next =>
          split at h
          next => cases h
          next => exact Except.ok.inj h
      rw [← hfirst, List.find?_eq_bind_findIdx?_getElem?, hk]
      rfl
  next =>
    split at h
    next => cases h
    next hnone =>
      obtain rfl := Except.ok.inj h
      cases kinds with
      | nil => rfl
      | cons tp kinds =>
        have htp : tp.amongAnnotations = false := by
          rw [List.any_cons, Bool.not_eq_true, Bool.or_eq_false_iff] at hnone
          exact hnone.1
        rw [List.find?_cons, htp]
        rfl

theorem ruleHolds_of_ok (hcheck : flags.noCheck = false)
    (h : tokenizeString D table flags out s = .ok tokens) :
    ∀ r ∈ table, RuleHolds r (tokens.map DirectoryToken.tp) := by
  intro r hr
  obtain ⟨toks, -, -, hrules⟩ := tokenizeString_ok h
  obtain ⟨first, hfirst, hrules⟩ := hrules hcheck
  obtain ⟨hmin, hmax, hstart, hend⟩ := checkRule_iff.mp (hrules r hr)
  refine ⟨hmin, hmax, fun ha => ?_, hend⟩
  rw [← firstNonannotation_getElem hfirst]
  exact hstart ha

/-- Every item that is read off comes from a line of the document. -/
theorem lineConforms_of_ok (h : tokenizeString D table flags out s = .ok tokens) :
    ∃ toks, tokens = out ++ toks
      ∧ ∀ tok ∈ toks, ∃ s', s' <:+ s ∧ LineConforms table (itemLine s') tok := by
  obtain ⟨toks, hloop, rfl, -⟩ := tokenizeString_ok h
  refine ⟨toks, rfl, fun tok htok => ?_⟩
  obtain ⟨s', r, hsuffix, hnext⟩ := mem_tokenizeLoop hloop htok
  exact ⟨s', hsuffix, getNextToken_conforms hnext⟩

end Document

/-! ## Router descriptors -/

/-- What `router_parse_entry_from_string` asserts of an item: that it is there, for
`find_by_keyword`, and the number of its arguments. -/
structure Demand where
  keyword : DirectoryKeyword
  required : Bool
  minArgs : ℕ := 0
  maxArgs : Option ℕ := none

/-- The items in the order in which they are looked up. Where the source reads arguments without
an assertion, these are counted as well. -/
def entryDemands : List Demand := [
  { keyword := .router, required := true, minArgs := 5 },
  { keyword := .bandwidth, required := true, minArgs := 3 },
  { keyword := .purpose, required := false, minArgs := 1 },
  { keyword := .uptime, required := false, minArgs := 1 },
  { keyword := .hibernating, required := false, minArgs := 1 },
  { keyword := .published, required := true, minArgs := 1, maxArgs := some 1 },
  { keyword := .onionKeyNtor, required := false, minArgs := 1 },
  { keyword := .signingKey, required := true },
  { keyword := .routerSigEd25519, required := true, minArgs := 1 },
  { keyword := .identityEd25519, required := true },
  { keyword := .masterKeyEd25519, required := true, minArgs := 1 },
  { keyword := .ntorOnionKeyCrosscert, required := true, minArgs := 1 },
  { keyword := .fingerprint, required := false, minArgs := 1, maxArgs := some 1 },
  { keyword := .platform, required := false, minArgs := 1 },
  { keyword := .proto, required := false, minArgs := 1 },
  { keyword := .contact, required := false, minArgs := 1 },
  { keyword := .extraInfoDigest, required := false, minArgs := 1 },
  { keyword := .routerSignature, required := true }]

/-- The assertions on one item. -/
def Demand.check (tokens : List DirectoryToken) (d : Demand) : Except DirectoryKeyword Unit :=
  match findOptByKeyword tokens d.keyword with
  | none => torAssert (d.required = false) d.keyword
  | some tok =>
    torAssert (d.minArgs ≤ tok.args.length ∧ ∀ m ∈ d.maxArgs, tok.args.length ≤ m) d.keyword

/-- The assertions on items, and those of `find_single_ipv6_orport` on each `or-address`. -/
def entryAsserts (tokens : List DirectoryToken) : Except DirectoryKeyword Unit := do
  entryDemands.forM fun d => d.check tokens
  (findAllByKeyword tokens .orAddress).forM fun tok =>
    torAssert (1 ≤ tok.args.length) .orAddress

/-- The table promises what is asserted. -/
def Demand.Covered (table : List TokenRule) (d : Demand) : Prop :=
  ∃ r ∈ table, r.v = d.keyword ∧ d.minArgs ≤ r.minArgs ∧ (∀ m ∈ d.maxArgs, r.maxArgs ≤ m)
    ∧ (d.required = true → 1 ≤ r.minCnt)

instance (table : List TokenRule) : DecidablePred (Demand.Covered table) :=
  fun _ => inferInstanceAs (Decidable (∃ r ∈ table, _))

section Entry

variable {D : KeyDecoder} {table : List TokenRule} {tokens : List DirectoryToken}

theorem Demand.check_ok {d : Demand} (hd : d.Covered table)
    (hrules : ∀ r ∈ table, RuleHolds r (tokens.map DirectoryToken.tp))
    (hitems : ∀ tok ∈ tokens, ∀ r ∈ table, tok.tp = r.v → Conforms r tok) :
    d.check tokens = .ok () := by
  obtain ⟨r, hr, hkeyword, hmin, hmax, hrequired⟩ := hd
  unfold Demand.check
  cases hfind : findOptByKeyword tokens d.keyword with
  | none =>
    refine torAssert_eq_ok.mpr (Bool.eq_false_iff.mpr fun hreq => ?_)
    -- an item that has to occur is found
    have hpos : 0 < (tokens.map DirectoryToken.tp).count r.v :=
      lt_of_lt_of_le (hrequired hreq) (hrules r hr).minCnt
    obtain ⟨tok, htok, htp⟩ := List.mem_map.mp (List.count_pos_iff.mp hpos)
    have hnone := List.find?_eq_none.mp hfind tok htok
    rw [htp, hkeyword] at hnone
    exact hnone (decide_eq_true rfl)
  | some tok =>
    have htp : tok.tp = d.keyword := by
      have hkind := List.find?_some hfind
      exact of_decide_eq_true hkind
    have hok := hitems tok (List.mem_of_find?_eq_some hfind) r hr (htp.trans hkeyword.symm)
    refine torAssert_eq_ok.mpr ⟨le_trans hmin hok.minArgs, fun m hm => ?_⟩
    exact le_trans hok.maxArgs (hmax m hm)

theorem routerdesc_separates : Separates routerdescTokenTable := by
  constructor
  · decide
  · decide

theorem entryDemands_covered : ∀ d ∈ entryDemands, d.Covered routerdescTokenTable := by
  decide

/-- The annotations are read by the same rules. -/
theorem annotationTokens_conform {o : EntryOptions} {annotations : Bytes}
    (h : annotationTokens D o annotations = some tokens) :
    ∀ tok ∈ tokens, ∃ line, LineConforms routerdescTokenTable line tok := by
  have hmore : ∀ {out text toks}, (∀ tok ∈ out, ∃ line, LineConforms routerdescTokenTable line tok) →
      tokenizeString D routerdescTokenTable { noCheck := true } out text = .ok toks →
      ∀ tok ∈ toks, ∃ line, LineConforms routerdescTokenTable line tok := by
    intro out text toks hout hread tok htok
    obtain ⟨new, rfl, hnew⟩ := lineConforms_of_ok hread
    rcases List.mem_append.mp htok with hold | htok
    · exact hout tok hold
    · obtain ⟨s', -, hline⟩ := hnew tok htok
      exact ⟨_, hline⟩
  -- what is added in front of the descriptor, behind what was prepended
  have hlast : ∀ {out}, (∀ tok ∈ out, ∃ line, LineConforms routerdescTokenTable line tok) →
      (if annotations = [] then some out else do
        guard o.allowAnnotations
        (tokenizeString D routerdescTokenTable { noCheck := true } out annotations).toOption) =
        some tokens →
      ∀ tok ∈ tokens, ∃ line, LineConforms routerdescTokenTable line tok := by
    intro out hout h
    split at h
    next => exact Option.some.inj h ▸ hout
    next =>
      obtain ⟨-, h⟩ := guard_bind_eq_some.mp h
      exact hmore hout (toOption_eq_some.mp h)
  have hnil : ∀ tok ∈ ([] : List DirectoryToken),
      ∃ line, LineConforms routerdescTokenTable line tok :=
    fun tok htok => absurd htok List.not_mem_nil
  unfold annotationTokens at h
  dsimp only at h
  split at h
  next => exact hlast hnil h
  next text htext =>
    obtain ⟨out, hout, h⟩ := Option.bind_eq_some_iff.mp h
    exact hlast (hmore hnil (toOption_eq_some.mp hout)) h

/-- The items of a descriptor obey the table. -/
theorem entryTokens_obey {o : EntryOptions} {text : Bytes}
    (h : entryTokens D o text = some tokens) :
    (∀ r ∈ routerdescTokenTable, RuleHolds r (tokens.map DirectoryToken.tp))
      ∧ ∀ tok ∈ tokens, ∀ r ∈ routerdescTokenTable, tok.tp = r.v → Conforms r tok := by
  unfold entryTokens at h
  obtain ⟨⟨annotations, s⟩, -, h⟩ := Option.bind_eq_some_iff.mp h
  obtain ⟨out, hout, h⟩ := Option.bind_eq_some_iff.mp h
  have hread := toOption_eq_some.mp h
  refine ⟨ruleHolds_of_ok rfl hread, fun tok htok r hr htp => ?_⟩
  obtain ⟨new, rfl, hnew⟩ := lineConforms_of_ok hread
  rcases List.mem_append.mp htok with hold | htok
  · obtain ⟨line, hline⟩ := annotationTokens_conform hout tok hold
    exact routerdesc_separates.conforms hline hr htp
  · obtain ⟨s', -, hline⟩ := hnew tok htok
    exact routerdesc_separates.conforms hline hr htp

theorem length_findAllByKeyword (keyword : DirectoryKeyword) :
    (findAllByKeyword tokens keyword).length = (tokens.map DirectoryToken.tp).count keyword := by
  induction tokens with
  | nil => rfl
  | cons tok tokens ih =>
    unfold findAllByKeyword at ih ⊢
    rw [List.map_cons, List.count_cons, ← ih, List.filter_cons]
    by_cases htp : tok.tp = keyword
    · simp [htp]
    · simp [htp]

/-- No assertion fails on the items of a descriptor. -/
theorem entryAsserts_passes {o : EntryOptions} {text : Bytes}
    (h : entryTokens D o text = some tokens) : Passes (entryAsserts tokens) := by
  obtain ⟨hrules, hitems⟩ := entryTokens_obey h
  have hdemands : (entryDemands.forM fun d => d.check tokens) = .ok () :=
    forM_eq_ok.mpr fun d hd => Demand.check_ok (entryDemands_covered d hd) hrules hitems
  have haddresses : ((findAllByKeyword tokens .orAddress).forM fun tok =>
      torAssert (1 ≤ tok.args.length) DirectoryKeyword.orAddress) = .ok () := by
    refine forM_eq_ok.mpr fun tok htok => torAssert_eq_ok.mpr ?_
    obtain ⟨hmem, htp⟩ := List.mem_filter.mp htok
    exact (hitems tok hmem (TokenRule.t0N "or-address" .orAddress (.ge 1) .noObj)
      (by decide) (of_decide_eq_true htp)).minArgs
  exact ⟨(), bind_eq_ok.mpr ⟨(), hdemands, haddresses⟩⟩

end Entry

/-- **The tokenizer enforces its table.** It ends; what it accepts has the items of each rule as
often and where the rule says, and each item that was read obeys the rule of its line. On the
items of a router descriptor no assertion of the parser fails, and there is at most one proof,
with the eight arguments that are read from it. -/
theorem tokenizer_enforces_table (D : KeyDecoder) :
    (∀ (table : List TokenRule) (flags : TokenizeFlags) (out : List DirectoryToken) (s : Bytes),
      tokenizeRounds D table s.length out s =
          some ((tokenizeLoop D table s).map fun toks => out ++ toks)
        ∧ ∀ tokens, flags.noCheck = false → tokenizeString D table flags out s = .ok tokens →
          (∀ r ∈ table, RuleHolds r (tokens.map DirectoryToken.tp))
          ∧ ∃ toks, tokens = out ++ toks ∧ ∀ tok ∈ toks,
            (∃ s', s' <:+ s ∧ LineConforms table (itemLine s') tok)
              ∧ (Separates table → ∀ r ∈ table, tok.tp = r.v → Conforms r tok))
    ∧ ∀ (o : EntryOptions) (text : Bytes) (tokens : List DirectoryToken),
      entryTokens D o text = some tokens → Passes (entryAsserts tokens)
        ∧ (findAllByKeyword tokens .optDittorProof).length ≤ 1
        ∧ ∀ tok ∈ findAllByKeyword tokens .optDittorProof, 8 ≤ tok.args.length := by
  refine ⟨fun table flags out s => ⟨tokenizeRounds_eq le_rfl, fun tokens hcheck h => ?_⟩,
    fun o text tokens h => ?_⟩
  · obtain ⟨toks, htoks, hlines⟩ := lineConforms_of_ok h
    refine ⟨ruleHolds_of_ok hcheck h, toks, htoks, fun tok htok => ?_⟩
    obtain ⟨s', hsuffix, hline⟩ := hlines tok htok
    exact ⟨⟨s', hsuffix, hline⟩, fun hsep r hr htp => hsep.conforms hline hr htp⟩
  · obtain ⟨hrules, hitems⟩ := entryTokens_obey h
    have hproof : TokenRule.t01 "dittor-proof" .optDittorProof (.ge 8) .noObj
        ∈ routerdescTokenTable := by decide
    refine ⟨entryAsserts_passes h, ?_, fun tok htok => ?_⟩
    · rw [length_findAllByKeyword]
      exact (hrules _ hproof).maxCnt
    · obtain ⟨hmem, htp⟩ := List.mem_filter.mp htok
      exact (hitems tok hmem _ hproof (of_decide_eq_true htp)).minArgs

/-- One line, accepted. -/
theorem tokenizer_enforces_one_line :
    ∃ tokens, tokenizeString (fun _ => none) [.t1Start "router" .router (.ge 1) .noObj] {} []
        (cstring "router a b\n") = .ok tokens
      ∧ ∀ r ∈ [TokenRule.t1Start "router" .router (.ge 1) .noObj],
        RuleHolds r (tokens.map DirectoryToken.tp) := by
  have hread : tokenizeString (fun _ => none) [.t1Start "router" .router (.ge 1) .noObj] {} []
      (cstring "router a b\n") =
        .ok [{ tp := .router, args := [cstring "a", cstring "b"] }] := by decide +kernel
  exact ⟨_, hread, (((tokenizer_enforces_table fun _ => none).1 _ {} [] _).2 _ rfl hread).1⟩

end Dittor.Tor
