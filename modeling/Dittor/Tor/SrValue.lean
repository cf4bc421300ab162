import Dittor.Tor.SrBinding

/-!
# The value does not depend on the order of the commits, unless two are equal

`sr_compute_srv` sorts the commits by the hash of the reveal value, "ordered by authority fingerprint"
as the comment has it, and hashes fingerprints and reveal values in that order. Two authorities with
one commitment, one of which copied the other's, compare equal, and `qsort` may put either first:
exactly then the value depends on more than the set of commits (`srv_order_independent_iff`).
-/

namespace Dittor.Tor

open Dittor.Lib

variable {X Y : SrContext}

/-- What the value depends on: identity, commitment and reveal value. -/
def SrCommit.triple (c : SrCommit) : Bytes × (ℕ × Bytes) × Bytes :=
  (c.rsaIdentity, (c.commitTs, c.hashedReveal), c.encodedReveal)

/-- The commits of a state. -/
def SrState.commitList (s : SrState) : List SrCommit := s.commits.entries.map Sigma.snd

/-- The map is by identity, of 20 bytes. -/
structure WellKeyed (s : SrState) : Prop where
  keyed : ∀ id c, s.commits.lookup id = some c → c.rsaIdentity = id
  length : ∀ id c, s.commits.lookup id = some c → c.rsaIdentity.length = 20

/-- Two states hold the same set of identities, commitments and reveal values. -/
def SameTriples (s s' : SrState) : Prop :=
  ∀ t, t ∈ s.commitList.map SrCommit.triple ↔ t ∈ s'.commitList.map SrCommit.triple

/-- The commits the value is made of: of configured authorities, with reveal values. -/
def Counted (authorities : List Bytes) (c : SrCommit) : Bool :=
  c.rsaIdentity ∈ authorities && c.hasRevealValue

/-- No two authorities have revealed for one commitment. -/
def NoCopy (authorities : List Bytes) (s : SrState) : Prop :=
  ∀ a ∈ s.commitList, ∀ b ∈ s.commitList, Counted authorities a = true →
    Counted authorities b = true → a.hashedReveal = b.hashedReveal → a.rsaIdentity = b.rsaIdentity

/-! ## States -/

theorem lookup_of_mem {s : SrState} {c : SrCommit} (h : c ∈ s.commitList) :
    ∃ id, s.commits.lookup id = some c := by
  obtain ⟨⟨id, c'⟩, hmem, rfl⟩ := List.mem_map.mp h
  exact ⟨id, AList.mem_lookup_iff.mpr hmem⟩

/-- The identities of the commits are the keys of the map. -/
theorem commitList_identities {s : SrState} (h : WellKeyed s) :
    s.commitList.map SrCommit.rsaIdentity = s.commits.keys := by
  rw [SrState.commitList, List.map_map, AList.keys, List.keys]
  refine List.map_congr_left fun e he => ?_
  exact h.keyed e.1 e.2 (AList.mem_lookup_iff.mpr he)

theorem commitList_nodup {s : SrState} (h : WellKeyed s) : (s.commitList.map SrCommit.triple).Nodup := by
  have hids : (s.commitList.map SrCommit.rsaIdentity).Nodup := by
    rw [commitList_identities h]
    exact s.commits.keys_nodup
  refine List.Nodup.of_map (fun t => t.1) ?_
  rw [List.map_map]
  exact hids

theorem eq_of_identity {s : SrState} (h : WellKeyed s) {a b : SrCommit} (ha : a ∈ s.commitList)
    (hb : b ∈ s.commitList) (hid : a.rsaIdentity = b.rsaIdentity) : a = b := by
  obtain ⟨ida, hida⟩ := lookup_of_mem ha
  obtain ⟨idb, hidb⟩ := lookup_of_mem hb
  obtain rfl := h.keyed ida a hida
  obtain rfl := h.keyed idb b hidb
  rw [← hid, hida] at hidb
  exact Option.some.inj hidb

/-- A commit that is put under its identity. -/
theorem WellKeyed.insert {s : SrState} (h : WellKeyed s) {id : Bytes} {c : SrCommit}
    (hid : c.rsaIdentity = id) (hlen : c.rsaIdentity.length = 20) :
    WellKeyed { s with commits := s.commits.insert id c } := by
  have hcases : ∀ k c', (s.commits.insert id c).lookup k = some c' →
      c'.rsaIdentity = k ∧ c'.rsaIdentity.length = 20 := by
    intro k c' hc'
    by_cases hk : k = id
    · subst hk
      rw [AList.lookup_insert] at hc'
      obtain rfl := Option.some.inj hc'
      exact ⟨hid, hlen⟩
    · rw [AList.lookup_insert_ne hk] at hc'
      exact ⟨h.keyed k c' hc', h.length k c' hc'⟩
  exact ⟨fun k c' hc' => (hcases k c' hc').1, fun k c' hc' => (hcases k c' hc').2⟩

theorem srParseCommit_length {args : List Bytes} {c : SrCommit} (h : srParseCommit args = some c) :
    c.rsaIdentity.length = 20 := by
  unfold srParseCommit at h
  split at h
  next version algname fpr value rest =>
    split_ifs at h with hversion halg hfpr
    split at h
    next digest ts hashed hdigest _ =>
      have hlen := base16Decode_length hdigest
      rw [List.length_take] at hlen
      have hdigest : digest.length = 20 := by omega
      split at h
      · cases h
        exact hdigest
      · obtain ⟨r, -, rfl⟩ := Option.map_eq_some_iff.mp h
        exact hdigest
    next => cases h
  next => cases h

theorem WellKeyed.handleReceivedCommits {voterKey : Bytes} : ∀ {commits : List SrCommit}
    {s : SrState}, WellKeyed s → (∀ c ∈ commits, c.rsaIdentity.length = 20) →
    WellKeyed (s.handleReceivedCommits X commits voterKey)
  | [], s, h, _ => h
  | c :: commits, s, h, hlen => by
    have hfirst : WellKeyed (s.receive X voterKey c) := by
      rcases receive_cases (X := X) s voterKey c with hr | ⟨-, -, -, -, hr⟩ |
        ⟨saved, -, -, hsaved, -, -, -, -, hr⟩
      · rw [hr]
        exact h
      · rw [hr]
        exact h.insert rfl (hlen c List.mem_cons_self)
      · rw [hr]
        exact h.insert (h.keyed voterKey saved hsaved) (h.length voterKey saved hsaved)
    exact hfirst.handleReceivedCommits fun c' hc' => hlen c' (List.mem_cons_of_mem _ hc')

theorem WellKeyed.update {s : SrState} (h : WellKeyed s) (hours : X.ourIdentity.length = 20)
    (validAfter : ℕ) (rand : Option Bytes) : WellKeyed (s.update X validAfter rand) := by
  have hadd : ∀ {s : SrState}, WellKeyed s → WellKeyed (s.addOurCommit X validAfter rand) := by
    intro s hs
    cases rand with
    | none => exact hs
    | some rand => exact hs.insert rfl hours
  have henter : WellKeyed (s.enterPhase X validAfter rand) := by
    unfold SrState.enterPhase
    dsimp only
    split_ifs
    · have hempty : ∀ s : SrState, WellKeyed (s.resetForNewProtocolRun validAfter) :=
        fun _ => ⟨fun _ _ hc => (by cases hc), fun _ _ hc => (by cases hc)⟩
      exact ⟨(hadd (hempty _)).keyed, (hadd (hempty _)).length⟩
    · exact ⟨h.keyed, h.length⟩
    · exact hadd h
    · exact h
  have hcommits := update_commits (X := X) s validAfter rand
  constructor
  · intro id c hc
    rw [hcommits] at hc
    split_ifs at hc
    · exact henter.keyed id c hc
    · exact h.keyed id c hc
  · intro id c hc
    rw [hcommits] at hc
    split_ifs at hc
    · exact henter.length id c hc
    · exact h.length id c hc

/-- Every state that an authority comes to is so. -/
theorem wellKeyed_run (hours : X.ourIdentity.length = 20) (now : ℕ) (events : List SrEvent) :
    WellKeyed ((stateNew X now).run X events) := by
  induction events using List.reverseRecOn with
  | nil => exact ⟨fun _ _ hc => (by cases hc), fun _ _ hc => (by cases hc)⟩
  | append_singleton events e ih =>
    rw [run_append]
    cases e with
    | update validAfter rand => exact ih.update hours validAfter rand
    | vote voterKey lines =>
      refine ih.handleReceivedCommits fun c hc => ?_
      obtain ⟨args, -, hargs⟩ := List.mem_filterMap.mp hc
      exact srParseCommit_length hargs

/-! ## The chunks that are hashed -/

/-- The element of a triple. -/
def tripleElement (t : Bytes × (ℕ × Bytes) × Bytes) : Bytes := base16Encode t.1 ++ t.2.2

/-- The triples of the commits that count, in the order they are hashed in. -/
def countedTriples (X : SrContext) (l : List SrCommit) : List (Bytes × (ℕ × Bytes) × Bytes) :=
  ((X.qsort.sort compareReveal (l.filter fun c => c.rsaIdentity ∈ X.authorities)).filter
    SrCommit.hasRevealValue).map SrCommit.triple

theorem filterMap_srvElement (l : List SrCommit) :
    l.filterMap srvElement = ((l.filter SrCommit.hasRevealValue).map SrCommit.triple).map
      tripleElement := by
  induction l with
  | nil => rfl
  | cons c l ih =>
    cases hreveal : c.hasRevealValue with
    | true =>
      rw [List.filterMap_cons, srvElement, if_pos hreveal, List.filter_cons_of_pos hreveal, ih]
      rfl
    | false =>
      rw [List.filterMap_cons, srvElement, if_neg (by rw [hreveal]; decide),
        List.filter_cons_of_neg (by rw [hreveal]; decide), ih]

/-- The text that is hashed at last, of some triples in their order. -/
def srvMessage (sha3 : Bytes → Bytes) (l : List (Bytes × (ℕ × Bytes) × Bytes))
    (previousSrv : Option SrSrv) : Bytes :=
  cstring "shared-random" ++ bigEndian 8 l.length ++ bigEndian 4 1
    ++ sha3 (l.map tripleElement).flatten
    ++ (previousSrv.map (·.value)).getD (List.replicate 32 0)

/-- Their value. -/
def srvOfTriples (sha3 : Bytes → Bytes) (l : List (Bytes × (ℕ × Bytes) × Bytes))
    (previousSrv : Option SrSrv) : SrSrv where
  numReveals := l.length
  value := sha3 (srvMessage sha3 l previousSrv)

theorem srvOfCommits_eq (l : List SrCommit) (previousSrv : Option SrSrv) :
    srvOfCommits X l previousSrv = srvOfTriples X.sha3 (countedTriples X l) previousSrv := by
  unfold srvOfCommits generateSrv srvOfTriples srvMessage countedTriples
  dsimp only
  rw [filterMap_srvElement, List.length_map]

theorem compareReveal_consistent (l : List SrCommit) : ConsistentOn compareReveal l where
  total a _ b _ := strcmp_total a.hashedReveal b.hashedReveal
  trans a _ b _ c _ := strcmp_trans a.hashedReveal b.hashedReveal c.hashedReveal

/-- They are in order of the hash. -/
theorem countedTriples_sorted (l : List SrCommit) :
    (countedTriples X l).Pairwise fun t u => strcmp t.2.1.2 u.2.1.2 ≤ 0 := by
  rw [countedTriples, List.pairwise_map]
  exact (X.qsort.sorted (compareReveal_consistent _)).filter _

/-- They are those of the commits that count. -/
theorem countedTriples_perm {l l' : List SrCommit} (h : l.Perm l') :
    (countedTriples X l).Perm ((l'.filter (Counted X.authorities)).map SrCommit.triple) := by
  have hsort := (X.qsort.perm compareReveal (l.filter fun c => c.rsaIdentity ∈ X.authorities)).trans
    (h.filter fun c => c.rsaIdentity ∈ X.authorities)
  have hfilter := (hsort.filter SrCommit.hasRevealValue).map SrCommit.triple
  rw [List.filter_filter] at hfilter
  have hcounted : (fun a : SrCommit => a.hasRevealValue && decide (a.rsaIdentity ∈ X.authorities)) =
      Counted X.authorities := by
    funext c
    rw [Counted, Bool.and_comm]
  rw [hcounted] at hfilter
  exact hfilter

theorem computeSrv_currentSrv {s : SrState} (hphase : s.phase = .reveal) :
    (s.computeSrv X).currentSrv =
      some (srvOfTriples X.sha3 (countedTriples X (X.iterate s.commits)) s.previousSrv) := by
  rw [SrState.computeSrv, if_neg (not_not.mpr hphase), ← srvOfCommits_eq]

/-! ## Without copies -/

/-- The triples that count are the same, whatever the order. -/
theorem counted_perm {authorities : List Bytes} {s s' : SrState} (h : WellKeyed s)
    (h' : WellKeyed s') (hsame : SameTriples s s') :
    ((s.commitList.filter (Counted authorities)).map SrCommit.triple).Perm
      ((s'.commitList.filter (Counted authorities)).map SrCommit.triple) := by
  have hperm : (s.commitList.map SrCommit.triple).Perm (s'.commitList.map SrCommit.triple) :=
    (List.perm_ext_iff_of_nodup (commitList_nodup h) (commitList_nodup h')).mpr hsame
  -- whether a commit counts is a matter of its triple
  have hcounted : ∀ l : List SrCommit, (l.filter (Counted authorities)).map SrCommit.triple =
      (l.map SrCommit.triple).filter fun t => t.1 ∈ authorities && t.2.2 ≠ [] := by
    intro l
    rw [List.filter_map]
    rfl
  rw [hcounted, hcounted]
  exact hperm.filter _

/-- Equal lists of triples, if no two have one commitment. -/
theorem countedTriples_eq {s s' : SrState} (hauth : Y.authorities = X.authorities)
    (h : WellKeyed s) (h' : WellKeyed s') (hsame : SameTriples s s')
    (hno : NoCopy X.authorities s) :
    countedTriples X (X.iterate s.commits) = countedTriples Y (Y.iterate s'.commits) := by
  have hperm := countedTriples_perm (X := X) (X.iterate_perm s.commits)
  have hperm' := countedTriples_perm (X := Y) (Y.iterate_perm s'.commits)
  rw [hauth] at hperm'
  refine List.Perm.eq_of_pairwise ?_ (countedTriples_sorted _) (countedTriples_sorted _)
    ((hperm.trans (counted_perm h h' hsame)).trans hperm'.symm)
  intro t u ht hu htu hut
  have hmem : ∀ v, v ∈ countedTriples X (X.iterate s.commits) → ∃ c ∈ s.commitList,
      Counted X.authorities c = true ∧ c.triple = v := by
    intro v hv
    obtain ⟨c, hc, rfl⟩ := List.mem_map.mp (hperm.mem_iff.mp hv)
    exact ⟨c, (List.mem_filter.mp hc).1, (List.mem_filter.mp hc).2, rfl⟩
  have hu' : u ∈ countedTriples X (X.iterate s.commits) :=
    hperm.mem_iff.mpr ((counted_perm h h' hsame).mem_iff.mpr (hperm'.mem_iff.mp hu))
  obtain ⟨a, ha, hacounted, rfl⟩ := hmem t ht
  obtain ⟨b, hb, hbcounted, rfl⟩ := hmem u hu'
  rw [eq_of_identity h ha hb (hno a ha b hb hacounted hbcounted (strcmp_antisymm htu hut))]

/-! ## With a copy -/

/-- The texts that are hashed, for some order of the commits. -/
def srTexts (sha3 : Bytes → Bytes) (authorities : List Bytes) (s : SrState) : Set Bytes :=
  {text | ∃ l, l.Perm ((s.commitList.filter (Counted authorities)).map SrCommit.triple)
    ∧ (text = (l.map tripleElement).flatten ∨ text = srvMessage sha3 l s.previousSrv)}

/-- No two of the texts have one hash. -/
def CollisionFree (sha3 : Bytes → Bytes) (texts : Set Bytes) : Prop :=
  ∀ a ∈ texts, ∀ b ∈ texts, sha3 a = sha3 b → a = b

/-- The value does not depend on how the commits are stored, gone through and sorted. -/
def OrderIndependent (sha3 : Bytes → Bytes) (authorities : List Bytes) (s : SrState) : Prop :=
  ∀ X Y : SrContext, X.sha3 = sha3 → Y.sha3 = sha3 → X.authorities = authorities →
    Y.authorities = authorities → ∀ s' : SrState, WellKeyed s' → SameTriples s s' →
    s'.phase = .reveal → s'.previousSrv = s.previousSrv →
    (s.computeSrv X).currentSrv = (s'.computeSrv Y).currentSrv

/-- Two elements that compare equal are put in front of each other. -/
theorem insertionSort_swap {α : Type} {r : α → α → Prop} [DecidableRel r] {a b : α}
    (hab : r a b) (hba : r b a) (hsame : ∀ x, r a x ↔ r b x) (l : List α) :
    ∃ pre post, (a :: b :: l).insertionSort r = pre ++ a :: b :: post
      ∧ (b :: a :: l).insertionSort r = pre ++ b :: a :: post := by
  have hpred : (fun x => decide (¬ r a x)) = fun x => decide (¬ r b x) := by
    funext x
    simp only [hsame x]
  have hfirst : ∀ c d : α, r c d → ((fun x => decide (¬ r c x)) = fun x => decide (¬ r d x)) →
      (c :: d :: l).insertionSort r =
        (l.insertionSort r).takeWhile (fun x => decide (¬ r d x))
          ++ c :: d :: (l.insertionSort r).dropWhile fun x => decide (¬ r d x) := by
    intro c d hcd hcd'
    have hstop : ¬ decide (¬ r d d) = true := by
      rw [← congrFun hcd' d]
      simpa using hcd
    have hall : ∀ x ∈ (l.insertionSort r).takeWhile (fun x => decide (¬ r d x)),
        decide (¬ r d x) = true :=
      fun x hx => List.mem_takeWhile_imp (p := fun x => decide (¬ r d x)) hx
    rw [List.insertionSort_cons_eq_take_drop, List.insertionSort_cons_eq_take_drop, hcd',
      List.takeWhile_append_of_pos hall, List.dropWhile_append_of_pos hall,
      List.takeWhile_cons_of_neg (p := fun x => decide (¬ r d x)) hstop,
      List.dropWhile_cons_of_neg (p := fun x => decide (¬ r d x)) hstop, List.append_nil]
  refine ⟨_, _, hfirst a b hab hpred, ?_⟩
  rw [hfirst b a hba hpred.symm, hpred]

/-- A context that goes through the commits of a map in a given order, and keeps the order of what
compares equal. -/
def orderedContext (sha3 : Bytes → Bytes) (authorities : List Bytes) (m : CommitMap)
    (order : List SrCommit) (h : order.Perm (m.entries.map Sigma.snd)) : SrContext where
  sha3 := sha3
  authorities := authorities
  ourIdentity := []
  votingInterval := 3600
  qsort := Qsort.insertion
  iterate m' := if m'.entries = m.entries then order else m'.entries.map Sigma.snd
  iterate_perm m' := by
    split_ifs with hm
    · rw [hm]
      exact h
    · exact List.Perm.refl _

/-- Two commits with one commitment stand next to each other, in the order they came in. -/
theorem countedTriples_swap (sha3 : Bytes → Bytes) {authorities : List Bytes} {m m' : CommitMap}
    {a b : SrCommit} {rest : List SrCommit} (ha : Counted authorities a = true)
    (hb : Counted authorities b = true) (hsame : a.hashedReveal = b.hashedReveal)
    (h : (a :: b :: rest).Perm (m.entries.map Sigma.snd))
    (h' : (b :: a :: rest).Perm (m'.entries.map Sigma.snd)) :
    ∃ pre post, countedTriples (orderedContext sha3 authorities m (a :: b :: rest) h)
          (a :: b :: rest) = pre ++ a.triple :: b.triple :: post
      ∧ countedTriples (orderedContext sha3 authorities m' (b :: a :: rest) h') (b :: a :: rest) =
        pre ++ b.triple :: a.triple :: post := by
  rw [Counted, Bool.and_eq_true] at ha hb
  have hconfigured : ∀ {c : SrCommit} {l : List SrCommit},
      decide (c.rsaIdentity ∈ authorities) = true →
      ((c :: l).filter fun c => decide (c.rsaIdentity ∈ authorities)) =
        c :: l.filter fun c => decide (c.rsaIdentity ∈ authorities) :=
    fun hc => List.filter_cons_of_pos
      (p := fun c : SrCommit => decide (c.rsaIdentity ∈ authorities)) hc
  have hle : ∀ {c d : SrCommit}, c.hashedReveal = d.hashedReveal → compareReveal c d ≤ 0 := by
    intro c d hcd
    rw [compareReveal, hcd, strcmp_self]
  have hiff : ∀ x, compareReveal a x ≤ 0 ↔ compareReveal b x ≤ 0 := by
    intro x
    rw [compareReveal, compareReveal, hsame]
  obtain ⟨pre, post, hab, hba⟩ := insertionSort_swap (r := fun a b => compareReveal a b ≤ 0)
    (hle hsame) (hle hsame.symm) hiff (rest.filter fun c => c.rsaIdentity ∈ authorities)
  refine ⟨(pre.filter SrCommit.hasRevealValue).map SrCommit.triple,
    (post.filter SrCommit.hasRevealValue).map SrCommit.triple, ?_, ?_⟩
  · show (((List.insertionSort (fun a b => compareReveal a b ≤ 0)
      ((a :: b :: rest).filter fun c => c.rsaIdentity ∈ authorities)).filter _).map _) = _
    rw [hconfigured ha.1, hconfigured hb.1, hab, List.filter_append,
      List.filter_cons_of_pos ha.2, List.filter_cons_of_pos hb.2, List.map_append, List.map_cons,
      List.map_cons]
  · show (((List.insertionSort (fun a b => compareReveal a b ≤ 0)
      ((b :: a :: rest).filter fun c => c.rsaIdentity ∈ authorities)).filter _).map _) = _
    rw [hconfigured hb.1, hconfigured ha.1, hba, List.filter_append,
      List.filter_cons_of_pos hb.2, List.filter_cons_of_pos ha.2, List.map_append, List.map_cons,
      List.map_cons]

/-- Texts of the two orders that are equal have the fingerprints of one authority. -/
theorem fingerprint_eq_of_flatten {a b : Bytes × (ℕ × Bytes) × Bytes}
    (pre post : List (Bytes × (ℕ × Bytes) × Bytes)) (hlen : a.1.length = b.1.length)
    (h : ((pre ++ a :: b :: post).map tripleElement).flatten =
      ((pre ++ b :: a :: post).map tripleElement).flatten) : a.1 = b.1 := by
  simp only [List.map_append, List.map_cons, List.flatten_append, List.flatten_cons,
    List.append_cancel_left_eq, tripleElement, List.append_assoc] at h
  have hhex : (base16Encode a.1).length = (base16Encode b.1).length := by
    rw [length_base16Encode, length_base16Encode, hlen]
  have heq := (List.append_inj h hhex).1
  have hdecode := base16Decode_encode a.1
  rw [heq, base16Decode_encode] at hdecode
  exact (Option.some.inj hdecode).symm

/-- Two orders with one value have one text. -/
theorem flatten_eq_of_srv {sha3 : Bytes → Bytes} {authorities : List Bytes} {s : SrState}
    {l l' : List (Bytes × (ℕ × Bytes) × Bytes)} (hfree : CollisionFree sha3 (srTexts sha3 authorities s))
    (hl : l.Perm ((s.commitList.filter (Counted authorities)).map SrCommit.triple))
    (hl' : l'.Perm ((s.commitList.filter (Counted authorities)).map SrCommit.triple))
    (h : srvOfTriples sha3 l s.previousSrv = srvOfTriples sha3 l' s.previousSrv) :
    (l.map tripleElement).flatten = (l'.map tripleElement).flatten := by
  have hvalue : sha3 (srvMessage sha3 l s.previousSrv) = sha3 (srvMessage sha3 l' s.previousSrv) :=
    congrArg SrSrv.value h
  have hmessage := hfree _ ⟨l, hl, Or.inr rfl⟩ _ ⟨l', hl', Or.inr rfl⟩ hvalue
  rw [srvMessage, srvMessage, hl.length_eq, hl'.length_eq] at hmessage
  have hhash := List.append_cancel_left (List.append_cancel_right hmessage)
  exact hfree _ ⟨l, hl, Or.inl rfl⟩ _ ⟨l', hl', Or.inl rfl⟩ hhash

/-- **The value depends on the set of commits alone if and only if nobody copied**: no two configured
authorities have reveal values for one commitment. -/
theorem srv_order_independent_iff {sha3 : Bytes → Bytes} {authorities : List Bytes} {s : SrState}
    (h : WellKeyed s) (hphase : s.phase = .reveal)
    (hfree : CollisionFree sha3 (srTexts sha3 authorities s)) :
    OrderIndependent sha3 authorities s ↔ NoCopy authorities s := by
  constructor
  · intro hindep a ha b hb hacounted hbcounted hsame
    by_contra hid
    have hne : b ≠ a := fun hba => hid (by rw [hba])
    -- the two, in both orders, before all others
    obtain ⟨rest, hrest⟩ : ∃ rest, (a :: b :: rest).Perm s.commitList := by
      refine ⟨(s.commitList.erase a).erase b, ?_⟩
      have hb' : b ∈ s.commitList.erase a := (List.mem_erase_of_ne hne).mpr hb
      exact ((List.perm_cons_erase hb').symm.cons a).trans (List.perm_cons_erase ha).symm
    have hrest' : (b :: a :: rest).Perm s.commitList := (List.Perm.swap a b rest).trans hrest
    let X := orderedContext sha3 authorities s.commits (a :: b :: rest) hrest
    let Y := orderedContext sha3 authorities s.commits (b :: a :: rest) hrest'
    have hX : X.iterate s.commits = a :: b :: rest := if_pos rfl
    have hY : Y.iterate s.commits = b :: a :: rest := if_pos rfl
    have hvalue := hindep X Y rfl rfl rfl rfl s h (fun _ => Iff.rfl) hphase rfl
    rw [computeSrv_currentSrv hphase, computeSrv_currentSrv hphase, Option.some.injEq] at hvalue
    have hflatten := flatten_eq_of_srv hfree (countedTriples_perm (X.iterate_perm s.commits))
      (countedTriples_perm (Y.iterate_perm s.commits)) hvalue
    obtain ⟨pre, post, hab, hba⟩ :=
      countedTriples_swap sha3 hacounted hbcounted hsame hrest hrest'
    rw [hX, hY] at hflatten
    have hlen : a.triple.1.length = b.triple.1.length := by
      obtain ⟨ida, hida⟩ := lookup_of_mem ha
      obtain ⟨idb, hidb⟩ := lookup_of_mem hb
      exact (h.length ida a hida).trans (h.length idb b hidb).symm
    refine hid (fingerprint_eq_of_flatten pre post hlen ?_)
    rw [← hab, ← hba]
    exact hflatten
  · intro hno X Y hX hY hXauth hYauth s' h' hsame hphase' hprevious
    subst hX hXauth
    rw [computeSrv_currentSrv hphase, computeSrv_currentSrv hphase', hprevious, hY,
      countedTriples_eq hYauth h h' hsame hno]

/-! ## A commitment that was copied -/

section Sample

/-- The events of a day: `B` commits and reveals, and `C`, if it copies, does the same. -/
def copiedDay (copies : Bool) : List SrEvent :=
  [.update 3600 none] ++ (sampleVotes []) ++ [.update 46800 none] ++ sampleVotes [sampleReveal]
where
  /-- The votes of a round. -/
  sampleVotes (reveal : List Bytes) : List SrEvent :=
    (if copies then [66, 67] else [66]).map fun c =>
      .vote (List.replicate 20 c) [sampleCommitLine c reveal]

/-- Three authorities. -/
def threeAuthorities : SrContext :=
  { sampleSr with authorities := [65, 66, 67].map fun c => List.replicate 20 c }

/-- The state at the end of the day. -/
def endOfDay (copies : Bool) : SrState :=
  (stateNew threeAuthorities 0).run threeAuthorities (copiedDay copies)

/-- The library may go through the map from its other end. -/
def reversedContext : SrContext :=
  { threeAuthorities with
    iterate := fun m => (m.entries.map Sigma.snd).reverse
    iterate_perm := fun _ => List.reverse_perm _ }

/-- What counts when nobody copied. -/
def sampleTriple : Bytes × (ℕ × Bytes) × Bytes :=
  (List.replicate 20 66, (0, sampleReveal.take 32), sampleReveal)

/-- One commit that counts. -/
theorem srv_independent_one_commit :
    OrderIndependent threeAuthorities.sha3 threeAuthorities.authorities (endOfDay false) := by
  have hcounted : ((endOfDay false).commitList.filter (Counted threeAuthorities.authorities)).map
      SrCommit.triple = [sampleTriple] := by
    decide
  have hids : (endOfDay false).commitList.map SrCommit.rsaIdentity = [List.replicate 20 66] := by
    decide
  have hkeyed : WellKeyed (endOfDay false) := wellKeyed_run (by decide) 0 _
  refine (srv_order_independent_iff hkeyed (by decide) ?_).mpr ?_
  · intro a ha b hb hab
    obtain ⟨l, hl, ha⟩ := ha
    obtain ⟨l', hl', hb⟩ := hb
    rw [hcounted, List.perm_singleton] at hl hl'
    subst hl hl'
    rcases ha with rfl | rfl
    · rcases hb with rfl | rfl
      · rfl
      · exact absurd hab (by decide)
    · rcases hb with rfl | rfl
      · exact absurd hab (by decide)
      · rfl
  · intro a ha b hb _ _ _
    have ha' := List.mem_map_of_mem (f := SrCommit.rsaIdentity) ha
    have hb' := List.mem_map_of_mem (f := SrCommit.rsaIdentity) hb
    rw [hids, List.mem_singleton] at ha' hb'
    rw [ha', hb']

/-- **A copied commitment makes two values of one set of commits**: every reveal value is right, and
the value depends on the end from which the map is gone through. -/
theorem copied_commitment_changes_srv :
    WellKeyed (endOfDay true) ∧ (endOfDay true).phase = .reveal
      ∧ (∀ c ∈ (endOfDay true).commitList, verifyCommitAndReveal threeAuthorities c = true)
      ∧ ((endOfDay true).computeSrv threeAuthorities).currentSrv ≠
        ((endOfDay true).computeSrv reversedContext).currentSrv := by
  refine ⟨wellKeyed_run (by decide) 0 _, ?_, ?_, ?_⟩
  · decide
  · decide
  · decide

end Sample

end Dittor.Tor
