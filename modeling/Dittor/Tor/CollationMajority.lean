import Dittor.Tor.Collation

/-!
# Every relay once, by majority

`Collates` says what a collation is from the votes alone: which RSA identities there are, the array
of each, and the flags. Both loops of `dircollator_collate_by_ed25519` are followed over any order
of the tables (`PairsDone`, `RsasDone`), and whatever the order a collation comes out; there is
only one (`Collates.unique`).
-/

namespace Dittor.Tor

open Dittor.Lib

/-- The entry lists a pair of identities. -/
def listsPair (rsa ed : Bytes) (vrs : VoteRouterStatus) : Bool :=
  vrs.identityDigest = rsa && vrs.hasEd25519Listing && vrs.ed25519Id = ed

/-- The entry lists an RSA identity. -/
def listsRsa (rsa : Bytes) (vrs : VoteRouterStatus) : Bool := vrs.identityDigest = rsa

/-- The entry lists a pair, or its RSA identity alone. -/
def listsPairOrRsa (rsa ed : Bytes) (vrs : VoteRouterStatus) : Bool :=
  vrs.identityDigest = rsa && (!vrs.hasEd25519Listing || vrs.ed25519Id = ed)

/-- More than half of `n` authorities have a vote that lists such an entry. -/
def Majority (n : ℕ) (votes : List (List VoteRouterStatus)) (lists : VoteRouterStatus → Bool) :
    Prop :=
  n / 2 < votes.countP fun v => v.any lists

/-- The array of the entries of the votes that meet a condition. -/
abbrev EntriesOf (votes : List (List VoteRouterStatus)) (lists : VoteRouterStatus → Bool)
    (vrsLst : VrsList) : Prop :=
  ArrayOf votes.length (ptrsOf votes) (fun ptr => lists ptr.vrs = true) vrsLst

/-- What the collation of the votes is. -/
structure Collates (n : ℕ) (votes : List (List VoteRouterStatus)) (before : ℕ → ℕ → Bool)
    (r : Collated) : Prop where
  sorted : r.allRsaSha1.Pairwise fun a b => strcmp a b ≤ 0
  nodup : r.allRsaSha1.Nodup
  listed : ∀ rsa, rsa ∈ r.allRsaSha1 ↔
    (∃ ed, Majority n votes (listsPair rsa ed)) ∨ Majority n votes (listsRsa rsa)
  collated : ∀ rsa, (r.byCollated rsa).isSome ↔ rsa ∈ r.allRsaSha1
  pair_array : ∀ rsa ed vrsLst, Majority n votes (listsPair rsa ed) →
    r.byCollated rsa = some vrsLst → EntriesOf votes (listsPairOrRsa rsa ed) vrsLst
  rsa_array : ∀ rsa vrsLst, (¬∃ ed, Majority n votes (listsPair rsa ed)) →
    r.byCollated rsa = some vrsLst → EntriesOf votes (listsRsa rsa) vrsLst
  flags : ∀ ptr ∈ ptrsOf votes, r.reflects ptr.voteNum ptr.idx = true ↔
    ptr.vrs.hasEd25519Listing = true ∧
      Majority n votes (listsPair ptr.vrs.identityDigest ptr.vrs.ed25519Id)
  others : ∀ i idx, (∀ ptr ∈ ptrsOf votes, ¬(ptr.voteNum = i ∧ ptr.idx = idx)) →
    r.reflects i idx = before i idx

/-! ## Two majorities meet -/

theorem exists_of_countP_add {α : Type*} {p q : α → Bool} {l : List α}
    (h : l.length < l.countP p + l.countP q) : ∃ a ∈ l, p a = true ∧ q a = true := by
  by_contra hnone
  have hle : l.countP q ≤ l.countP fun a => decide ¬p a = true :=
    List.countP_mono_left fun a ha hq =>
      decide_eq_true fun hp => hnone ⟨a, ha, hp, hq⟩
  have := List.length_eq_countP_add_countP p (l := l)
  omega

section Votes

variable {n : ℕ} {votes : List (List VoteRouterStatus)}

theorem ptr_eq_of_rsa (hapart : (ptrsOf votes).Pairwise Apart) {p q : VrsPtr}
    (hp : p ∈ ptrsOf votes) (hq : q ∈ ptrsOf votes) (hnum : p.voteNum = q.voteNum)
    (hrsa : p.vrs.identityDigest = q.vrs.identityDigest) : p = q := by
  have hsymm : Std.Symm Apart := ⟨fun a b h hnum hid => h hnum.symm hid.symm⟩
  by_contra hne
  exact hapart.forall hp hq hne hnum hrsa

theorem ptr_eq_of_place {p q : VrsPtr} (hp : p ∈ ptrsOf votes) (hq : q ∈ ptrsOf votes)
    (hnum : p.voteNum = q.voteNum) (hidx : p.idx = q.idx) : p = q := by
  obtain ⟨v, hv, hvrs⟩ := mem_ptrsOf.mp hp
  obtain ⟨w, hw, hwrs⟩ := mem_ptrsOf.mp hq
  cases p
  cases q
  simp only at *
  subst hnum hidx
  rw [hv, Option.some_inj] at hw
  subst hw
  rw [hvrs, Option.some_inj] at hwrs
  rw [hwrs]

/-- There is one majority pair for an RSA identity. -/
theorem Majority.pair_unique (hn : votes.length ≤ n)
    (hapart : (ptrsOf votes).Pairwise Apart) {rsa ed ed' : Bytes}
    (h : Majority n votes (listsPair rsa ed)) (h' : Majority n votes (listsPair rsa ed')) :
    ed = ed' := by
  unfold Majority at h h'
  obtain ⟨v, hv, hp, hq⟩ := exists_of_countP_add (l := votes)
    (p := fun v => v.any (listsPair rsa ed)) (q := fun v => v.any (listsPair rsa ed')) (by omega)
  obtain ⟨i, hi⟩ := List.getElem?_of_mem hv
  obtain ⟨vrs, hvrs, hlists⟩ := List.any_eq_true.mp hp
  obtain ⟨vrs', hvrs', hlists'⟩ := List.any_eq_true.mp hq
  obtain ⟨idx, hidx⟩ := List.getElem?_of_mem hvrs
  obtain ⟨idx', hidx'⟩ := List.getElem?_of_mem hvrs'
  simp only [listsPair, Bool.and_eq_true, decide_eq_true_eq] at hlists hlists'
  have heq : (⟨i, idx, vrs⟩ : VrsPtr) = ⟨i, idx', vrs'⟩ :=
    ptr_eq_of_rsa hapart (mem_ptrsOf.mpr ⟨v, hi, hidx⟩) (mem_ptrsOf.mpr ⟨v, hi, hidx'⟩) rfl
      (hlists.1.1.trans hlists'.1.1.symm)
  injection heq with _ _ hvrseq
  rw [← hlists.2, ← hlists'.2, hvrseq]

/-- A majority has an entry. -/
theorem Majority.exists_ptr {lists : VoteRouterStatus → Bool} (h : Majority n votes lists) :
    ∃ ptr ∈ ptrsOf votes, lists ptr.vrs = true := by
  obtain ⟨v, hv, hany⟩ := List.countP_pos_iff.mp (Nat.lt_of_le_of_lt (Nat.zero_le _) h)
  obtain ⟨vrs, hvrs, hlists⟩ := List.any_eq_true.mp hany
  obtain ⟨i, hi⟩ := List.getElem?_of_mem hv
  obtain ⟨idx, hidx⟩ := List.getElem?_of_mem hvrs
  exact ⟨⟨i, idx, vrs⟩, mem_ptrsOf.mpr ⟨v, hi, hidx⟩, hlists⟩

/-! ## One collation -/

theorem Collates.unique {before : ℕ → ℕ → Bool} {r r' : Collated} (h : Collates n votes before r)
    (h' : Collates n votes before r') : r = r' := by
  have hmem : ∀ rsa, rsa ∈ r.allRsaSha1 ↔ rsa ∈ r'.allRsaSha1 :=
    fun rsa => (h.listed rsa).trans (h'.listed rsa).symm
  have hall : r.allRsaSha1 = r'.allRsaSha1 :=
    List.Perm.eq_of_pairwise (fun _ _ _ _ hab hba => strcmp_antisymm hab hba) h.sorted h'.sorted
      ((List.perm_ext_iff_of_nodup h.nodup h'.nodup).mpr hmem)
  have hcollated : r.byCollated = r'.byCollated := by
    funext rsa
    have hsome : (r.byCollated rsa).isSome = (r'.byCollated rsa).isSome := by
      rw [Bool.eq_iff_iff, h.collated, h'.collated, hmem]
    cases hr : r.byCollated rsa with
    | none =>
      rw [hr] at hsome
      exact (Option.isNone_iff_eq_none.mp (by simpa using hsome.symm)).symm
    | some vrsLst =>
      rw [hr] at hsome
      obtain ⟨vrsLst', hr'⟩ := Option.isSome_iff_exists.mp hsome.symm
      rw [hr', Option.some_inj]
      by_cases hpair : ∃ ed, Majority n votes (listsPair rsa ed)
      · obtain ⟨ed, hed⟩ := hpair
        exact (h.pair_array rsa ed vrsLst hed hr).ext (h'.pair_array rsa ed vrsLst' hed hr')
      · exact (h.rsa_array rsa vrsLst hpair hr).ext (h'.rsa_array rsa vrsLst' hpair hr')
  have hreflects : r.reflects = r'.reflects := by
    funext i idx
    by_cases hplace : ∃ ptr ∈ ptrsOf votes, ptr.voteNum = i ∧ ptr.idx = idx
    · obtain ⟨ptr, hptr, rfl, rfl⟩ := hplace
      rw [Bool.eq_iff_iff, h.flags ptr hptr, h'.flags ptr hptr]
    · have hnone : ∀ ptr ∈ ptrsOf votes, ¬(ptr.voteNum = i ∧ ptr.idx = idx) :=
        fun ptr hptr hat => hplace ⟨ptr, hptr, hat⟩
      rw [h.others i idx hnone, h'.others i idx hnone]
  cases r
  cases r'
  simp_all

end Votes

/-! ## The first loop -/

theorem exists_mem_concat {α : Type*} {l : List α} {a : α} {P : α → Prop} :
    (∃ x ∈ l ++ [a], P x) ↔ (∃ x ∈ l, P x) ∨ P a := by
  simp [or_and_right, exists_or]

namespace Dircollator

/-- More than half of the authorities are in the array. -/
def enough (dc : Dircollator) (vrsLst : VrsList) : Bool := dc.nAuthorities / 2 < listedBy vrsLst

end Dircollator

/-- The first loop has gone over these pairs. -/
structure PairsDone (dc : Dircollator) (done : List (Σ _ : Bytes × Bytes, VrsList)) (r : Collated) :
    Prop where
  all : r.allRsaSha1 = (done.filter fun e => dc.enough e.2).map fun e => e.1.1
  found : ∀ rsa vrsLst, r.byCollated rsa = some vrsLst ↔
    ∃ e ∈ done, dc.enough e.2 = true ∧ e.1.1 = rsa ∧
      ∃ vrsLst2, dc.byRsaSha1.lookup rsa = some vrsLst2 ∧ addUnlisted e.2 vrsLst2 = vrsLst
  reflects : ∀ i idx, r.reflects i idx = true ↔ dc.reflects i idx = true ∨
    ∃ e ∈ done, dc.enough e.2 = true ∧
      ∃ ptr, some ptr ∈ e.2 ∧ ptr.voteNum = i ∧ ptr.idx = idx

/-- Not both have a majority and the same RSA identity. -/
def RsaApart (dc : Dircollator) (e e' : Σ _ : Bytes × Bytes, VrsList) : Prop :=
  dc.enough e.2 = true → dc.enough e'.2 = true → e.1.1 ≠ e'.1.1

theorem RsaApart.symm {dc : Dircollator} {e e' : Σ _ : Bytes × Bytes, VrsList}
    (h : RsaApart dc e e') : RsaApart dc e' e :=
  fun henough' henough heq => h henough henough' heq.symm

namespace PairsDone

variable {dc : Dircollator} {done : List (Σ _ : Bytes × Bytes, VrsList)} {r : Collated}

theorem start : PairsDone dc [] ⟨[], fun _ => none, dc.reflects⟩ :=
  ⟨rfl, by simp, by simp⟩

/-- A pair without a majority changes nothing. -/
theorem skip (h : PairsDone dc done r) {e : Σ _ : Bytes × Bytes, VrsList}
    (he : dc.enough e.2 = false) : PairsDone dc (done ++ [e]) r where
  all := by rw [h.all, List.filter_append, List.filter_cons_of_neg (by simp [he]),
    List.filter_nil, List.append_nil]
  found rsa vrsLst := by
    rw [h.found, exists_mem_concat, or_iff_left]
    rintro ⟨henough, -⟩
    rw [he] at henough
    cases henough
  reflects i idx := by
    rw [h.reflects, exists_mem_concat]
    refine or_congr_right (or_iff_left ?_).symm
    rintro ⟨henough, -⟩
    rw [he] at henough
    cases henough

theorem mem_setReflects {reflects : ℕ → ℕ → Bool} {vrsLst : VrsList} {i idx : ℕ} :
    setReflects reflects vrsLst i idx = true ↔ reflects i idx = true ∨
      ∃ ptr, some ptr ∈ vrsLst ∧ ptr.voteNum = i ∧ ptr.idx = idx := by
  rw [setReflects, Bool.or_eq_true, List.any_eq_true]
  refine or_congr_right ⟨?_, ?_⟩
  · rintro ⟨slot, hmem, hslot⟩
    obtain ⟨ptr, rfl, hptr⟩ := (Option.any_eq_true _ _).mp hslot
    simp only [Bool.and_eq_true, decide_eq_true_eq] at hptr
    exact ⟨ptr, hmem, hptr⟩
  · rintro ⟨ptr, hmem, hptr⟩
    exact ⟨some ptr, hmem, by simpa using hptr⟩

/-- A pair with a majority is added. -/
theorem add (h : PairsDone dc done r) {e : Σ _ : Bytes × Bytes, VrsList} {vrsLst2 : VrsList}
    (he : dc.enough e.2 = true) (hlook : dc.byRsaSha1.lookup e.1.1 = some vrsLst2)
    (hapart : ∀ e' ∈ done, RsaApart dc e' e) :
    PairsDone dc (done ++ [e])
      { allRsaSha1 := r.allRsaSha1 ++ [e.1.1]
        byCollated := Function.update r.byCollated e.1.1 (some (addUnlisted e.2 vrsLst2))
        reflects := setReflects r.reflects e.2 } where
  all := by
    show r.allRsaSha1 ++ [e.1.1] = _
    rw [h.all, List.filter_append, List.filter_cons_of_pos (by simp [he]), List.filter_nil,
      List.map_append, List.map_singleton]
  found rsa vrsLst := by
    show Function.update r.byCollated e.1.1 (some (addUnlisted e.2 vrsLst2)) rsa = _ ↔ _
    rw [exists_mem_concat]
    by_cases hrsa : rsa = e.1.1
    · subst hrsa
      rw [Function.update_self, Option.some_inj, or_iff_right]
      · constructor
        · rintro rfl
          exact ⟨he, rfl, vrsLst2, hlook, rfl⟩
        · rintro ⟨-, -, lst, hlst, rfl⟩
          rw [hlook, Option.some_inj] at hlst
          rw [hlst]
      · rintro ⟨e', hmem, henough, hkey, -⟩
        exact hapart e' hmem henough he hkey
    · rw [Function.update_of_ne hrsa, h.found, or_iff_left]
      rintro ⟨-, hkey, -⟩
      exact hrsa hkey.symm
  reflects i idx := by
    show setReflects r.reflects e.2 i idx = true ↔ _
    rw [mem_setReflects, h.reflects, or_assoc, exists_mem_concat]
    exact or_congr_right (or_congr_right ⟨fun hptr => ⟨he, hptr⟩, fun hptr => hptr.2⟩)

theorem run : ∀ (rest : List (Σ _ : Bytes × Bytes, VrsList))
    {done : List (Σ _ : Bytes × Bytes, VrsList)} {r : Collated}, PairsDone dc done r →
    (done ++ rest).Pairwise (RsaApart dc) →
    (∀ e ∈ rest, dc.enough e.2 = true → (dc.byRsaSha1.lookup e.1.1).isSome) →
    ∃ r', rest.foldlM (Dircollator.collatePair dc) r = some r' ∧ PairsDone dc (done ++ rest) r' := by
  intro rest
  induction rest with
  | nil =>
    intro done r h hapart hlook
    exact ⟨r, rfl, by rwa [List.append_nil]⟩
  | cons e rest ih =>
    intro done r h hapart hlook
    have hstep : ∃ r', Dircollator.collatePair dc r e = some r' ∧ PairsDone dc (done ++ [e]) r' := by
      rw [Dircollator.collatePair]
      by_cases he : listedBy e.2 ≤ dc.nAuthorities / 2
      · rw [if_pos he]
        exact ⟨r, rfl, h.skip (by simpa [Dircollator.enough] using he)⟩
      · have henough : dc.enough e.2 = true := by simpa [Dircollator.enough] using he
        obtain ⟨vrsLst2, hlst⟩ := Option.isSome_iff_exists.mp (hlook e (by simp) henough)
        rw [if_neg he, hlst]
        exact ⟨_, rfl, h.add henough hlst fun e' he' =>
          (List.pairwise_append.mp hapart).2.2 e' he' e (by simp)⟩
    obtain ⟨r₁, heq, hdone⟩ := hstep
    rw [List.append_cons] at hapart ⊢
    obtain ⟨r₂, hrun, hdone₂⟩ :=
      ih hdone hapart fun e' he' => hlook e' (List.mem_cons_of_mem _ he')
    refine ⟨r₂, ?_, hdone₂⟩
    rw [List.foldlM_cons, heq]
    exact hrun

end PairsDone

/-! ## The second loop -/

/-- After the first loop has left `r₀`, the second has gone over these RSA identities. -/
structure RsasDone (dc : Dircollator) (r₀ : Collated) (done : List (Σ _ : Bytes, VrsList))
    (r : Collated) : Prop where
  all : r.allRsaSha1 = r₀.allRsaSha1 ++
    (done.filter fun e => (r₀.byCollated e.1).isNone && dc.enough e.2).map fun e => e.1
  found : ∀ rsa vrsLst, r.byCollated rsa = some vrsLst ↔ r₀.byCollated rsa = some vrsLst ∨
    r₀.byCollated rsa = none ∧ ∃ e ∈ done, dc.enough e.2 = true ∧ e.1 = rsa ∧ e.2 = vrsLst
  reflects : r.reflects = r₀.reflects

namespace RsasDone

variable {dc : Dircollator} {r₀ r : Collated} {done : List (Σ _ : Bytes, VrsList)}

theorem start : RsasDone dc r₀ [] r₀ := ⟨by simp, by simp, rfl⟩

theorem byCollated_eq (h : RsasDone dc r₀ done r) {rsa : Bytes} (hnew : ∀ e ∈ done, e.1 ≠ rsa) :
    r.byCollated rsa = r₀.byCollated rsa := by
  refine Option.ext fun vrsLst => ?_
  rw [h.found, or_iff_left]
  rintro ⟨-, e, hmem, -, hkey, -⟩
  exact hnew e hmem hkey

/-- An identity that is there already, or without a majority. -/
theorem skip (h : RsasDone dc r₀ done r) {e : Σ _ : Bytes, VrsList}
    (he : ((r₀.byCollated e.1).isNone && dc.enough e.2) = false) :
    RsasDone dc r₀ (done ++ [e]) r where
  all := by rw [h.all, List.filter_append, List.filter_cons_of_neg (by simp [he]),
    List.filter_nil, List.append_nil]
  found rsa vrsLst := by
    rw [h.found, exists_mem_concat]
    refine or_congr_right (and_congr_right fun hnone => (or_iff_left ?_).symm)
    rintro ⟨henough, rfl, -⟩
    rw [hnone, henough] at he
    cases he
  reflects := h.reflects

theorem add (h : RsasDone dc r₀ done r) {e : Σ _ : Bytes, VrsList}
    (hnone : r₀.byCollated e.1 = none) (he : dc.enough e.2 = true)
    (hnew : ∀ e' ∈ done, e'.1 ≠ e.1) :
    RsasDone dc r₀ (done ++ [e])
      { r with allRsaSha1 := r.allRsaSha1 ++ [e.1]
               byCollated := Function.update r.byCollated e.1 (some e.2) } where
  all := by
    show r.allRsaSha1 ++ [e.1] = _
    rw [h.all, List.filter_append, List.filter_cons_of_pos (by simp [he, hnone]),
      List.filter_nil, List.map_append, List.map_singleton, List.append_assoc]
  found rsa vrsLst := by
    show Function.update r.byCollated e.1 (some e.2) rsa = _ ↔ _
    rw [exists_mem_concat]
    by_cases hrsa : rsa = e.1
    · subst hrsa
      rw [Function.update_self, Option.some_inj, hnone]
      constructor
      · rintro rfl
        exact .inr ⟨rfl, .inr ⟨he, rfl, rfl⟩⟩
      · rintro (hsome | ⟨-, ⟨e', hmem, -, hkey, -⟩ | ⟨-, -, heq⟩⟩)
        · cases hsome
        · exact absurd hkey (hnew e' hmem)
        · exact heq
    · rw [Function.update_of_ne hrsa, h.found]
      refine or_congr_right (and_congr_right fun _ => (or_iff_left ?_).symm)
      rintro ⟨-, hkey, -⟩
      exact hrsa hkey.symm
  reflects := h.reflects

theorem step (h : RsasDone dc r₀ done r) (e : Σ _ : Bytes, VrsList)
    (hnew : ∀ e' ∈ done, e'.1 ≠ e.1) :
    RsasDone dc r₀ (done ++ [e]) (Dircollator.collateRsa dc r e) := by
  rw [Dircollator.collateRsa, h.byCollated_eq hnew]
  split_ifs with hsome he
  · exact h.skip (by simp [Option.isNone_eq_false_iff.mpr hsome])
  · exact h.skip (by simp [Dircollator.enough, Nat.not_lt.mpr he])
  · rw [Option.not_isSome_iff_eq_none] at hsome
    exact h.add hsome (by simpa [Dircollator.enough] using he) hnew

theorem run : ∀ (rest : List (Σ _ : Bytes, VrsList)) {done : List (Σ _ : Bytes, VrsList)}
    {r : Collated}, RsasDone dc r₀ done r →
    (done ++ rest).Pairwise (fun e e' => e.1 ≠ e'.1) →
    RsasDone dc r₀ (done ++ rest) (rest.foldl (Dircollator.collateRsa dc) r) := by
  intro rest
  induction rest with
  | nil =>
    intro done r h hkeys
    rwa [List.append_nil]
  | cons e rest ih =>
    intro done r h hkeys
    have hnew : ∀ e' ∈ done, e'.1 ≠ e.1 := fun e' he' =>
      (List.pairwise_append.mp hkeys).2.2 e' he' e (by simp)
    rw [List.append_cons] at hkeys ⊢
    exact ih (h.step e hnew) hkeys

end RsasDone

/-! ## The collation -/

theorem bothIds_eq_some {ptr : VrsPtr} {rsa ed : Bytes} :
    bothIds ptr = some (rsa, ed) ↔ listsPair rsa ed ptr.vrs = true := by
  unfold bothIds listsPair
  split
  · next h => simp [h]
  · next h => simp [h]

/-- The entries of a pair and those that list its RSA identity alone. -/
theorem entriesOf_addUnlisted {votes : List (List VoteRouterStatus)} {rsa ed : Bytes}
    {vrsLst vrsLst2 : VrsList} (hapart : (ptrsOf votes).Pairwise Apart)
    (h : EntriesOf votes (listsPair rsa ed) vrsLst) (h2 : EntriesOf votes (listsRsa rsa) vrsLst2) :
    EntriesOf votes (listsPairOrRsa rsa ed) (addUnlisted vrsLst vrsLst2) where
  length := by rw [addUnlisted, List.length_zipWith, h.length, h2.length, min_self]
  slot i ptr := by
    have hpair := h.slot i
    have hrsa := h2.slot i
    by_cases hi : i < votes.length
    · have hi₁ : i < vrsLst.length := by rw [h.length]; exact hi
      have hi₂ : i < vrsLst2.length := by rw [h2.length]; exact hi
      rw [List.getElem?_eq_getElem hi₁] at hpair
      rw [List.getElem?_eq_getElem hi₂] at hrsa
      simp only [Option.some_inj] at hpair hrsa
      rw [addUnlisted, List.getElem?_zipWith, List.getElem?_eq_getElem hi₁,
        List.getElem?_eq_getElem hi₂]
      show some (vrsLst[i] <|> _) = some (some ptr) ↔ _
      rw [Option.some_inj]
      constructor
      · intro hslot
        cases hfirst : vrsLst[i] with
        | some q =>
          rw [hfirst] at hslot
          obtain rfl : q = ptr := Option.some_inj.mp hslot
          obtain ⟨hnum, hmem, hlists⟩ := (hpair q).mp hfirst
          refine ⟨hnum, hmem, ?_⟩
          simp only [listsPair, listsPairOrRsa, Bool.and_eq_true, Bool.or_eq_true,
            decide_eq_true_eq] at hlists ⊢
          exact ⟨hlists.1.1, .inr hlists.2⟩
        | none =>
          rw [hfirst] at hslot
          obtain ⟨hsecond, hnot⟩ := Option.filter_eq_some_iff.mp hslot
          obtain ⟨hnum, hmem, hlists⟩ := (hrsa ptr).mp hsecond
          refine ⟨hnum, hmem, ?_⟩
          simp only [listsPairOrRsa, Bool.and_eq_true, Bool.or_eq_true]
          exact ⟨hlists, .inl hnot⟩
      · rintro ⟨hnum, hmem, hlists⟩
        simp only [listsPairOrRsa, Bool.and_eq_true, Bool.or_eq_true, decide_eq_true_eq] at hlists
        obtain ⟨hid, hed⟩ := hlists
        cases hlisting : ptr.vrs.hasEd25519Listing with
        | true =>
          rw [hlisting] at hed
          have hlists : listsPair rsa ed ptr.vrs = true := by
            simpa [listsPair, hid, hlisting] using hed
          rw [(hpair ptr).mpr ⟨hnum, hmem, hlists⟩]
          rfl
        | false =>
          have hfirst : vrsLst[i] = none := by
            refine Option.eq_none_iff_forall_ne_some.mpr fun q hq => ?_
            obtain ⟨hqnum, hqmem, hqlists⟩ := (hpair q).mp hq
            simp only [listsPair, Bool.and_eq_true, decide_eq_true_eq] at hqlists
            have := ptr_eq_of_rsa hapart hqmem hmem (hqnum.trans hnum.symm)
              (hqlists.1.1.trans hid.symm)
            rw [this, hlisting] at hqlists
            exact absurd hqlists.1.2 (by simp)
          have hsecond : vrsLst2[i] = some ptr :=
            (hrsa ptr).mpr ⟨hnum, hmem, by simpa [listsRsa] using hid⟩
          rw [hfirst, hsecond]
          simp [Option.filter, hlisting]
    · have hlength : (addUnlisted vrsLst vrsLst2).length ≤ i := by
        rw [addUnlisted, List.length_zipWith, h.length, h2.length, min_self]
        omega
      rw [List.getElem?_eq_none hlength]
      constructor
      · intro h
        cases h
      · rintro ⟨hnum, hmem, -⟩
        obtain ⟨v, hv, -⟩ := mem_ptrsOf.mp hmem
        rw [hnum] at hv
        exact absurd (List.getElem?_eq_some_iff.mp hv).1 hi

theorem keys_apart {κ : Type} (table : AList fun _ : κ => VrsList)
    {l : List (Σ _ : κ, VrsList)} (hperm : l.Perm table.entries) :
    l.Pairwise fun e e' => e.1 ≠ e'.1 := by
  have := (hperm.map Sigma.fst).nodup_iff.mpr table.nodupKeys
  rwa [List.Nodup, List.pairwise_map] at this

section Collation

variable {n : ℕ} {votes : List (List VoteRouterStatus)} {dc : Dircollator}

/-- The collator has all the votes. -/
structure HasVotes (n : ℕ) (votes : List (List VoteRouterStatus)) (dc : Dircollator) : Prop where
  collects : Collects dc (ptrsOf votes)
  nVotes : dc.nVotes = votes.length
  nAuthorities : dc.nAuthorities = n
  fits : votes.length ≤ n
  apart : (ptrsOf votes).Pairwise Apart

namespace HasVotes

theorem enough_iff (h : HasVotes n votes dc) {lists : VoteRouterStatus → Bool} {vrsLst : VrsList}
    (hentries : EntriesOf votes lists vrsLst) :
    dc.enough vrsLst = true ↔ Majority n votes lists := by
  rw [Dircollator.enough, decide_eq_true_eq, h.nAuthorities, hentries.listedBy_eq, Majority]

theorem pair_entries (h : HasVotes n votes dc) {e : Σ _ : Bytes × Bytes, VrsList}
    (he : e ∈ dc.byBothIds.entries) : EntriesOf votes (listsPair e.1.1 e.1.2) e.2 := by
  have harray := h.collects.both.array e.1 e.2 (AList.mem_lookup_iff.mpr he)
  rw [h.nVotes] at harray
  exact ⟨harray.length, fun i ptr => (harray.slot i ptr).trans
    (and_congr_right fun _ => and_congr_right fun _ => bothIds_eq_some)⟩

theorem rsa_entries (h : HasVotes n votes dc) {rsa : Bytes} {vrsLst : VrsList}
    (hlook : dc.byRsaSha1.lookup rsa = some vrsLst) : EntriesOf votes (listsRsa rsa) vrsLst := by
  have harray := h.collects.rsa.array rsa vrsLst hlook
  rw [h.nVotes] at harray
  refine ⟨harray.length, fun i ptr => (harray.slot i ptr).trans
    (and_congr_right fun _ => and_congr_right fun _ => ?_)⟩
  rw [Option.some_inj, listsRsa, decide_eq_true_eq]

theorem exists_rsa (h : HasVotes n votes dc) {ptr : VrsPtr} (hptr : ptr ∈ ptrsOf votes) :
    ∃ vrsLst, dc.byRsaSha1.lookup ptr.vrs.identityDigest = some vrsLst :=
  Option.isSome_iff_exists.mp (h.collects.rsa.has ptr hptr _ rfl)

/-- The pairs with a majority are the majority pairs of the votes. -/
theorem majority_pair_iff (h : HasVotes n votes dc) {rsa ed : Bytes} :
    Majority n votes (listsPair rsa ed) ↔
      ∃ vrsLst, ⟨(rsa, ed), vrsLst⟩ ∈ dc.byBothIds.entries ∧ dc.enough vrsLst = true := by
  constructor
  · intro hmajority
    obtain ⟨ptr, hptr, hlists⟩ := hmajority.exists_ptr
    obtain ⟨vrsLst, hlook⟩ := Option.isSome_iff_exists.mp
      (h.collects.both.has ptr hptr (rsa, ed) (bothIds_eq_some.mpr hlists))
    have hmem := AList.mem_lookup_iff.mp hlook
    exact ⟨vrsLst, hmem, (h.enough_iff (h.pair_entries hmem)).mpr hmajority⟩
  · rintro ⟨vrsLst, hmem, henough⟩
    exact (h.enough_iff (h.pair_entries hmem)).mp henough

theorem majority_rsa_iff (h : HasVotes n votes dc) {rsa : Bytes} :
    Majority n votes (listsRsa rsa) ↔
      ∃ vrsLst, dc.byRsaSha1.lookup rsa = some vrsLst ∧ dc.enough vrsLst = true := by
  constructor
  · intro hmajority
    obtain ⟨ptr, hptr, hlists⟩ := hmajority.exists_ptr
    obtain ⟨vrsLst, hlook⟩ := h.exists_rsa hptr
    rw [of_decide_eq_true hlists] at hlook
    exact ⟨vrsLst, hlook, (h.enough_iff (h.rsa_entries hlook)).mpr hmajority⟩
  · rintro ⟨vrsLst, hlook, henough⟩
    exact (h.enough_iff (h.rsa_entries hlook)).mp henough

/-- No two entries of the table of pairs have a majority and one RSA identity. -/
theorem rsaApart (h : HasVotes n votes dc) : dc.byBothIds.entries.Pairwise (RsaApart dc) := by
  refine (keys_apart dc.byBothIds (.refl _)).imp_of_mem ?_
  rintro e e' he he' hne henough henough' hrsa
  have hmajority := (h.enough_iff (h.pair_entries he)).mp henough
  have hmajority' := (h.enough_iff (h.pair_entries he')).mp henough'
  rw [← hrsa] at hmajority'
  exact hne (Prod.ext hrsa (hmajority.pair_unique h.fits h.apart hmajority'))

/-- What the first loop found, by the votes. -/
theorem found_pair_iff (h : HasVotes n votes dc) {pairs : List (Σ _ : Bytes × Bytes, VrsList)}
    (hperm : pairs.Perm dc.byBothIds.entries) {r : Collated} (hdone : PairsDone dc pairs r)
    {rsa : Bytes} :
    (r.byCollated rsa).isSome ↔ ∃ ed, Majority n votes (listsPair rsa ed) := by
  rw [Option.isSome_iff_exists]
  constructor
  · rintro ⟨vrsLst, hfound⟩
    obtain ⟨⟨⟨rsa', ed⟩, lst⟩, hmem, henough, rfl, -⟩ := (hdone.found rsa vrsLst).mp hfound
    exact ⟨ed, h.majority_pair_iff.mpr ⟨lst, hperm.mem_iff.mp hmem, henough⟩⟩
  · rintro ⟨ed, hmajority⟩
    obtain ⟨lst, hmem, henough⟩ := h.majority_pair_iff.mp hmajority
    obtain ⟨ptr, hptr, hlists⟩ := hmajority.exists_ptr
    obtain ⟨lst2, hlook⟩ := h.exists_rsa hptr
    simp only [listsPair, Bool.and_eq_true, decide_eq_true_eq] at hlists
    rw [hlists.1.1] at hlook
    exact ⟨_, (hdone.found rsa _).mpr
      ⟨_, hperm.mem_iff.mpr hmem, henough, rfl, lst2, hlook, rfl⟩⟩

theorem mem_all_iff (h : HasVotes n votes dc) {order : dc.HashOrder} {r₁ r₂ : Collated}
    (hpairs : PairsDone dc order.pairs r₁) (hrsas : RsasDone dc r₁ order.rsas r₂) {rsa : Bytes} :
    rsa ∈ r₂.allRsaSha1 ↔
      (∃ ed, Majority n votes (listsPair rsa ed)) ∨ Majority n votes (listsRsa rsa) := by
  have hfirst : rsa ∈ r₁.allRsaSha1 ↔ ∃ ed, Majority n votes (listsPair rsa ed) := by
    rw [hpairs.all, List.mem_map]
    constructor
    · rintro ⟨⟨⟨rsa', ed⟩, lst⟩, hmem, rfl⟩
      obtain ⟨hmem, henough⟩ := List.mem_filter.mp hmem
      exact ⟨ed, h.majority_pair_iff.mpr ⟨lst, order.pairs_perm.mem_iff.mp hmem, henough⟩⟩
    · rintro ⟨ed, hmajority⟩
      obtain ⟨lst, hmem, henough⟩ := h.majority_pair_iff.mp hmajority
      exact ⟨⟨(rsa, ed), lst⟩,
        List.mem_filter.mpr ⟨order.pairs_perm.mem_iff.mpr hmem, henough⟩, rfl⟩
  have hfound : (r₁.byCollated rsa).isSome ↔ ∃ ed, Majority n votes (listsPair rsa ed) :=
    h.found_pair_iff order.pairs_perm hpairs
  rw [hrsas.all, List.mem_append, hfirst]
  by_cases hpair : ∃ ed, Majority n votes (listsPair rsa ed)
  · simp only [hpair, true_or]
  · rw [or_iff_right hpair, or_iff_right hpair, List.mem_map, h.majority_rsa_iff]
    have hnone : r₁.byCollated rsa = none :=
      Option.not_isSome_iff_eq_none.mp (mt hfound.mp hpair)
    constructor
    · rintro ⟨⟨rsa', lst⟩, hmem, rfl⟩
      obtain ⟨hmem, henough⟩ := List.mem_filter.mp hmem
      rw [Bool.and_eq_true] at henough
      exact ⟨lst, AList.mem_lookup_iff.mpr (order.rsas_perm.mem_iff.mp hmem), henough.2⟩
    · rintro ⟨lst, hlook, henough⟩
      refine ⟨⟨rsa, lst⟩, List.mem_filter.mpr
        ⟨order.rsas_perm.mem_iff.mpr (AList.mem_lookup_iff.mp hlook), ?_⟩, rfl⟩
      rw [hnone, henough]
      rfl

theorem nodup_all (h : HasVotes n votes dc) {order : dc.HashOrder} {r₁ r₂ : Collated}
    (hpairs : PairsDone dc order.pairs r₁) (hrsas : RsasDone dc r₁ order.rsas r₂) :
    r₂.allRsaSha1.Nodup := by
  have hapart := (order.pairs_perm.pairwise_iff RsaApart.symm).mpr h.rsaApart
  rw [hrsas.all, List.nodup_append]
  refine ⟨?_, ?_, ?_⟩
  · rw [hpairs.all, List.Nodup, List.pairwise_map]
    refine (hapart.filter _).imp_of_mem ?_
    intro e e' he he' hne
    exact hne (List.mem_filter.mp he).2 (List.mem_filter.mp he').2
  · rw [List.Nodup, List.pairwise_map]
    exact (keys_apart dc.byRsaSha1 order.rsas_perm).filter _
  · intro a ha b hb heq
    obtain ⟨e, he, rfl⟩ := List.mem_map.mp hb
    have hnone := (List.mem_filter.mp he).2
    rw [Bool.and_eq_true] at hnone
    rw [hpairs.all, List.mem_map] at ha
    obtain ⟨⟨⟨rsa, ed⟩, lst⟩, hmem, rfl⟩ := ha
    obtain ⟨hmem, henough⟩ := List.mem_filter.mp hmem
    have hsome := (h.found_pair_iff order.pairs_perm hpairs).mpr
      ⟨ed, h.majority_pair_iff.mpr ⟨lst, order.pairs_perm.mem_iff.mp hmem, henough⟩⟩
    rw [show rsa = e.1 from heq, ← Option.not_isNone, hnone.1] at hsome
    cases hsome

theorem byCollated_isSome_iff (h : HasVotes n votes dc) {order : dc.HashOrder}
    {r₁ r₂ : Collated} (hpairs : PairsDone dc order.pairs r₁)
    (hrsas : RsasDone dc r₁ order.rsas r₂) {rsa : Bytes} :
    (r₂.byCollated rsa).isSome ↔ rsa ∈ r₂.allRsaSha1 := by
  rw [h.mem_all_iff hpairs hrsas, ← h.found_pair_iff order.pairs_perm hpairs, h.majority_rsa_iff]
  simp only [Option.isSome_iff_exists]
  constructor
  · rintro ⟨vrsLst, hfound⟩
    rcases (hrsas.found rsa vrsLst).mp hfound with hfound | ⟨-, ⟨k, lst⟩, hmem, henough, rfl, rfl⟩
    · exact .inl ⟨vrsLst, hfound⟩
    · exact .inr ⟨lst, AList.mem_lookup_iff.mpr (order.rsas_perm.mem_iff.mp hmem), henough⟩
  · rintro (⟨vrsLst, hfound⟩ | ⟨vrsLst, hlook, henough⟩)
    · exact ⟨vrsLst, (hrsas.found rsa vrsLst).mpr (.inl hfound)⟩
    · cases hfirst : r₁.byCollated rsa with
      | some lst => exact ⟨lst, (hrsas.found rsa lst).mpr (.inl hfirst)⟩
      | none =>
        have hmem := order.rsas_perm.mem_iff.mpr (AList.mem_lookup_iff.mp hlook)
        exact ⟨vrsLst, (hrsas.found rsa vrsLst).mpr
          (.inr ⟨hfirst, _, hmem, henough, rfl, rfl⟩)⟩

/-- The array of an RSA identity with a majority pair. -/
theorem pair_array (h : HasVotes n votes dc) {order : dc.HashOrder} {r₁ r₂ : Collated}
    (hpairs : PairsDone dc order.pairs r₁) (hrsas : RsasDone dc r₁ order.rsas r₂)
    {rsa ed : Bytes} {vrsLst : VrsList} (hmajority : Majority n votes (listsPair rsa ed))
    (hfound : r₂.byCollated rsa = some vrsLst) :
    EntriesOf votes (listsPairOrRsa rsa ed) vrsLst := by
  have hsome := (h.found_pair_iff order.pairs_perm hpairs).mpr ⟨ed, hmajority⟩
  rcases (hrsas.found rsa vrsLst).mp hfound with hfirst | ⟨hnone, -⟩
  · obtain ⟨⟨⟨rsa', ed'⟩, lst⟩, hmem, henough, rfl, lst2, hlook, rfl⟩ :=
      (hpairs.found rsa vrsLst).mp hfirst
    have hentries := h.pair_entries (order.pairs_perm.mem_iff.mp hmem)
    obtain rfl : ed = ed' :=
      hmajority.pair_unique h.fits h.apart ((h.enough_iff hentries).mp henough)
    exact entriesOf_addUnlisted h.apart hentries (h.rsa_entries hlook)
  · rw [hnone] at hsome
    cases hsome

/-- The array of an RSA identity without a majority pair. -/
theorem rsa_array (h : HasVotes n votes dc) {order : dc.HashOrder} {r₁ r₂ : Collated}
    (hpairs : PairsDone dc order.pairs r₁) (hrsas : RsasDone dc r₁ order.rsas r₂)
    {rsa : Bytes} {vrsLst : VrsList} (hno : ¬∃ ed, Majority n votes (listsPair rsa ed))
    (hfound : r₂.byCollated rsa = some vrsLst) : EntriesOf votes (listsRsa rsa) vrsLst := by
  rcases (hrsas.found rsa vrsLst).mp hfound with hfirst | ⟨-, ⟨k, lst⟩, hmem, -, rfl, rfl⟩
  · have hsome : (r₁.byCollated rsa).isSome := by rw [hfirst]; rfl
    exact absurd ((h.found_pair_iff order.pairs_perm hpairs).mp hsome) hno
  · exact h.rsa_entries (AList.mem_lookup_iff.mpr (order.rsas_perm.mem_iff.mp hmem))

/-- Where the flags are set. -/
theorem reflects_iff (h : HasVotes n votes dc) {order : dc.HashOrder} {r₁ : Collated}
    (hpairs : PairsDone dc order.pairs r₁) {i idx : ℕ} :
    r₁.reflects i idx = true ↔ dc.reflects i idx = true ∨
      ∃ ptr ∈ ptrsOf votes, ptr.voteNum = i ∧ ptr.idx = idx ∧
        ptr.vrs.hasEd25519Listing = true ∧
        Majority n votes (listsPair ptr.vrs.identityDigest ptr.vrs.ed25519Id) := by
  rw [hpairs.reflects]
  refine or_congr_right ⟨?_, ?_⟩
  · rintro ⟨⟨⟨rsa, ed⟩, lst⟩, hmem, henough, ptr, hptr, hnum, hidx⟩
    have hentries := h.pair_entries (order.pairs_perm.mem_iff.mp hmem)
    obtain ⟨j, hj⟩ := List.getElem?_of_mem hptr
    obtain ⟨-, hin, hlists⟩ := (hentries.slot j ptr).mp hj
    have hmajority := (h.enough_iff hentries).mp henough
    simp only [listsPair, Bool.and_eq_true, decide_eq_true_eq] at hlists
    obtain ⟨⟨rfl, hlisting⟩, rfl⟩ := hlists
    exact ⟨ptr, hin, hnum, hidx, hlisting, hmajority⟩
  · rintro ⟨ptr, hin, hnum, hidx, hlisting, hmajority⟩
    obtain ⟨lst, hmem, henough⟩ := h.majority_pair_iff.mp hmajority
    have hslot := ((h.pair_entries hmem).slot ptr.voteNum ptr).mpr
      ⟨rfl, hin, by simp [listsPair, hlisting]⟩
    exact ⟨_, order.pairs_perm.mem_iff.mpr hmem, henough, ptr, List.mem_of_getElem? hslot, hnum,
      hidx⟩

/-- Whatever the order of the tables, no assertion fails and the collation of the votes comes
out. -/
theorem collate (h : HasVotes n votes dc) (Q : Qsort) (order : dc.HashOrder) :
    ∃ r, dc.collate Q order = some r ∧ Collates n votes dc.reflects r := by
  have hapart := (order.pairs_perm.pairwise_iff RsaApart.symm).mpr h.rsaApart
  have hlook : ∀ e ∈ order.pairs, dc.enough e.2 = true →
      (dc.byRsaSha1.lookup e.1.1).isSome := by
    rintro ⟨⟨rsa, ed⟩, lst⟩ hmem henough
    have hmajority := h.majority_pair_iff.mpr ⟨lst, order.pairs_perm.mem_iff.mp hmem, henough⟩
    obtain ⟨ptr, hptr, hlists⟩ := hmajority.exists_ptr
    obtain ⟨lst2, hlst2⟩ := h.exists_rsa hptr
    simp only [listsPair, Bool.and_eq_true, decide_eq_true_eq] at hlists
    rw [hlists.1.1] at hlst2
    exact Option.isSome_iff_exists.mpr ⟨lst2, hlst2⟩
  obtain ⟨r₁, hloop, hpairs⟩ := PairsDone.run order.pairs PairsDone.start hapart hlook
  have hrsas : RsasDone dc r₁ order.rsas (order.rsas.foldl (Dircollator.collateRsa dc) r₁) :=
    RsasDone.run order.rsas RsasDone.start (keys_apart dc.byRsaSha1 order.rsas_perm)
  refine ⟨_, by rw [Dircollator.collate, hloop]; rfl, ?_, ?_, ?_, ?_, ?_, ?_, ?_, ?_⟩
  · exact Q.sorted (consistentOn_strcmp _)
  · exact (Q.perm _ _).nodup_iff.mpr (h.nodup_all hpairs hrsas)
  · exact fun rsa => (Q.mem_sort).trans (h.mem_all_iff hpairs hrsas)
  · exact fun rsa => (h.byCollated_isSome_iff hpairs hrsas).trans (Q.mem_sort).symm
  · exact fun rsa ed vrsLst hmajority hfound => h.pair_array hpairs hrsas hmajority hfound
  · exact fun rsa vrsLst hno hfound => h.rsa_array hpairs hrsas hno hfound
  · intro ptr hptr
    show (order.rsas.foldl (Dircollator.collateRsa dc) r₁).reflects _ _ = true ↔ _
    rw [hrsas.reflects, h.reflects_iff hpairs, h.collects.clear ptr hptr, or_iff_right (by simp)]
    constructor
    · rintro ⟨q, hq, hnum, hidx, hlisted⟩
      rw [← ptr_eq_of_place hq hptr hnum hidx]
      exact hlisted
    · exact fun hlisted => ⟨ptr, hptr, rfl, rfl, hlisted⟩
  · intro i idx hnone
    show (order.rsas.foldl (Dircollator.collateRsa dc) r₁).reflects _ _ = _
    rw [hrsas.reflects, Bool.eq_iff_iff, h.reflects_iff hpairs, or_iff_left]
    rintro ⟨ptr, hptr, hnum, hidx, -⟩
    exact hnone ptr hptr ⟨hnum, hidx⟩

end HasVotes

/-- All the votes can be added. -/
theorem ofVotes_hasVotes (hn : votes.length ≤ n)
    (hvotes : ∀ v ∈ votes, (v.map VoteRouterStatus.identityDigest).Nodup)
    (before : ℕ → ℕ → Bool) :
    ∃ dc, Dircollator.ofVotes n votes before = some dc ∧ HasVotes n votes dc := by
  have hstart : Collects ⟨votes.length, n, 0, ∅, ∅, before⟩ [] :=
    ⟨⟨by simp, by simp⟩, ⟨by simp, by simp⟩, by simp⟩
  obtain ⟨dc, hadd, hcollects, hnv, hna⟩ :=
    Collects.addVotes votes hstart (by simp) (apart_ptrsOf hvotes)
  refine ⟨dc, ?_, hcollects, hnv, hna, hn, apart_ptrsOf hvotes⟩
  rw [Dircollator.ofVotes, Dircollator.new, if_pos hn]
  exact hadd

/-- However many votes of at most `n` authorities are collated, if every vote lists an RSA identity
at most once: no assertion fails, and whatever the order of the hash tables one and the same
collation comes out. -/
theorem collation_by_majority (Q : Qsort) (n : ℕ) (votes : List (List VoteRouterStatus))
    (before : ℕ → ℕ → Bool) (hn : votes.length ≤ n)
    (hvotes : ∀ v ∈ votes, (v.map VoteRouterStatus.identityDigest).Nodup) :
    ∃ dc, Dircollator.ofVotes n votes before = some dc ∧
      ∃ r, Collates n votes dc.reflects r ∧ ∀ order : dc.HashOrder, dc.collate Q order = some r := by
  obtain ⟨dc, hadd, h⟩ := ofVotes_hasVotes hn hvotes before
  obtain ⟨r, -, hcollates⟩ := h.collate Q ⟨_, _, .refl _, .refl _⟩
  refine ⟨dc, hadd, r, hcollates, fun order => ?_⟩
  obtain ⟨r', hcollate, hcollates'⟩ := h.collate Q order
  rw [hcollate, hcollates.unique hcollates']

end Collation

/-- An entry with an RSA identity and, where there is a listing, an Ed25519 identity. -/
def listedRelay (id : UInt8) (ed : Option UInt8) : VoteRouterStatus where
  nickname := cstring "relay"
  identityDigest := List.replicate 20 id
  descriptorDigest := List.replicate 20 0
  publishedOn := 0
  ipv4Addr := 0
  ipv4Orport := 9001
  ipv4Dirport := 0
  ipv6 := none
  flags := 0
  version := none
  protocols := none
  bandwidthKb := none
  measuredBwKb := none
  guardfractionPercentage := none
  exitsummary := none
  microdesc := []
  hasEd25519Listing := ed.isSome
  ed25519Id := List.replicate 32 (ed.getD 0)

/-- Three authorities, two that list one pair and one that lists another Ed25519 identity for it. -/
theorem collation_three_votes :
    ∃ dc, Dircollator.ofVotes 3 [[listedRelay 1 (some 7)], [listedRelay 1 (some 7)],
        [listedRelay 1 (some 8), listedRelay 2 none]] (fun _ _ => true) = some dc ∧
      ∃ r, (∀ order : dc.HashOrder, dc.collate Qsort.insertion order = some r) ∧
        List.replicate 20 1 ∈ r.allRsaSha1 ∧ r.reflects 0 0 = true ∧ r.reflects 2 0 = false := by
  obtain ⟨dc, hadd, r, hcollates, hcollate⟩ :=
    collation_by_majority Qsort.insertion 3 [[listedRelay 1 (some 7)], [listedRelay 1 (some 7)],
      [listedRelay 1 (some 8), listedRelay 2 none]] (fun _ _ => true) (by decide) (by decide)
  have hpair : Majority 3 [[listedRelay 1 (some 7)], [listedRelay 1 (some 7)],
      [listedRelay 1 (some 8), listedRelay 2 none]]
      (listsPair (List.replicate 20 1) (List.replicate 32 7)) := by
    unfold Majority
    decide
  refine ⟨dc, hadd, r, hcollate, (hcollates.listed _).mpr (.inl ⟨_, hpair⟩), ?_, ?_⟩
  · exact (hcollates.flags ⟨0, 0, listedRelay 1 (some 7)⟩ (by decide)).mpr ⟨rfl, hpair⟩
  · rw [← Bool.not_eq_true, hcollates.flags ⟨2, 0, listedRelay 1 (some 8)⟩ (by decide)]
    rintro ⟨-, hmajority⟩
    exact absurd hmajority (by unfold Majority; decide)

end Dittor.Tor
