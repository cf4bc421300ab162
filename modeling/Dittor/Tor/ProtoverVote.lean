import Mathlib
import Dittor.Lib.Compare
import Dittor.Tor.Protover

/-!
# Voting on protocol versions (`protover.c`)

`protover_compute_vote` collects the names of all votes, sorts them, and counts for each name and
each version in how many votes the first entry of that name has it. What it encodes is characterised
without the loops: an entry is in the result exactly if its versions are those with enough votes and
there is one (`mem_computeVoteEntries`). As the entries are strictly sorted by name, no other list
has these members, in whatever order the votes come (`compute_vote_exact`).
-/

namespace Dittor.Tor

open Dittor.Lib

/-! ## Counting -/

/-- Whether the first entry of that name in the vote has the version. -/
def listsVersion (name : Bytes) (i : ℕ) (vote : List ProtoEntry) : Bool :=
  (findEntryByName vote name).any fun ent => ent.bitmask.getLsbD i

/-- The number of votes that have the version. -/
def versionVotes (parsed : List (List ProtoEntry)) (name : Bytes) (i : ℕ) : ℕ :=
  parsed.countP (listsVersion name i)

theorem countVote_apply (name : Bytes) (counts : ℕ → UInt8) (vote : List ProtoEntry) (i : ℕ) :
    countVote name counts vote i
      = if listsVersion name i vote then counts i + 1 else counts i := by
  unfold countVote listsVersion
  cases findEntryByName vote name with
  | none => rfl
  | some ent => rfl

/-- **The counters do not wrap**: a counter is the number of votes if there are less than 256. -/
theorem countVersions_toNat (name : Bytes) (i : ℕ) {parsed : List (List ProtoEntry)}
    (hlen : parsed.length < 256) :
    (countVersions parsed name i).toNat = versionVotes parsed name i := by
  unfold countVersions versionVotes
  induction parsed using List.reverseRecOn with
  | nil => rfl
  | append_singleton parsed vote ih =>
    rw [List.length_append, List.length_singleton] at hlen
    have hcount := ih (by omega)
    have hle : parsed.countP (listsVersion name i) ≤ parsed.length := List.countP_le_length
    rw [List.foldl_concat, countVote_apply, List.countP_append, List.countP_singleton]
    split
    · rw [UInt8.toNat_add, hcount, UInt8.toNat_one]
      omega
    · rw [hcount, Nat.add_zero]

theorem getLsbD_resultBitmask (counts : ℕ → UInt8) (threshold : ℤ) (i : ℕ) :
    (resultBitmask counts threshold).getLsbD i
      = decide (i < 64 ∧ threshold ≤ (counts i).toNat) := by
  have hloop : ∀ n ≤ 64, ((List.range n).foldl (fun mask i =>
      if threshold ≤ (counts i).toNat then mask ||| (1#64 <<< i) else mask) 0).getLsbD i
        = decide (i < n ∧ threshold ≤ (counts i).toNat) := by
    intro n hn
    induction n with
    | zero => simp
    | succ n ih =>
      have hbit : (1#64 <<< n).getLsbD i = decide (i = n) := by
        rw [BitVec.getLsbD_shiftLeft, BitVec.getLsbD_one, Bool.eq_iff_iff]
        simp only [Bool.and_eq_true, Bool.not_eq_true', decide_eq_true_eq, decide_eq_false_iff_not]
        omega
      rw [List.range_succ, List.foldl_concat]
      split
      · rename_i henough
        rw [BitVec.getLsbD_or, ih (by omega), hbit, Bool.eq_iff_iff]
        simp only [Bool.or_eq_true, decide_eq_true_eq]
        constructor
        · rintro (⟨hlt, h⟩ | rfl)
          · exact ⟨by omega, h⟩
          · exact ⟨by omega, henough⟩
        · rintro ⟨hlt, h⟩
          rcases Nat.lt_succ_iff_lt_or_eq.mp hlt with hlt | heq
          · exact .inl ⟨hlt, h⟩
          · exact .inr heq
      · rename_i hfew
        rw [ih (by omega), Bool.eq_iff_iff, decide_eq_true_eq, decide_eq_true_eq]
        constructor
        · rintro ⟨hlt, h⟩
          exact ⟨by omega, h⟩
        · rintro ⟨hlt, h⟩
          rcases Nat.lt_succ_iff_lt_or_eq.mp hlt with hlt | rfl
          · exact ⟨hlt, h⟩
          · exact absurd h hfew
  exact hloop 64 le_rfl

/-! ## The names -/

/-- Each name once. -/
theorem protoNames_spec (parsed : List (List ProtoEntry)) :
    (protoNames parsed).Nodup
      ∧ ∀ name, name ∈ protoNames parsed ↔ ∃ vote ∈ parsed, ∃ ent ∈ vote, ent.name = name := by
  have hloop : ∀ entries : List ProtoEntry,
      (entries.foldl (fun names ent =>
        if ent.name ∈ names then names else names ++ [ent.name]) []).Nodup
      ∧ ∀ name, name ∈ entries.foldl (fun names ent =>
          if ent.name ∈ names then names else names ++ [ent.name]) []
        ↔ ∃ ent ∈ entries, ent.name = name := by
    intro entries
    induction entries using List.reverseRecOn with
    | nil => simp
    | append_singleton entries ent ih =>
      obtain ⟨hnodup, hmem⟩ := ih
      rw [List.foldl_concat]
      split
      · rename_i hold
        refine ⟨hnodup, fun name => ?_⟩
        rw [hmem]
        constructor
        · rintro ⟨e, he, rfl⟩
          exact ⟨e, List.mem_append_left _ he, rfl⟩
        · rintro ⟨e, he, rfl⟩
          rcases List.mem_append.mp he with he | he
          · exact ⟨e, he, rfl⟩
          · rw [List.mem_singleton.mp he]
            exact (hmem _).mp hold
      · rename_i hnew
        refine ⟨List.nodup_append.mpr ⟨hnodup, List.nodup_singleton _, ?_⟩, fun name => ?_⟩
        · rintro name hname _ hsingle rfl
          exact hnew (List.mem_singleton.mp hsingle ▸ hname)
        · rw [List.mem_append, hmem, List.mem_singleton]
          constructor
          · rintro (⟨e, he, rfl⟩ | rfl)
            · exact ⟨e, List.mem_append_left _ he, rfl⟩
            · exact ⟨ent, by simp, rfl⟩
          · rintro ⟨e, he, rfl⟩
            rcases List.mem_append.mp he with he | he
            · exact .inl ⟨e, he, rfl⟩
            · exact .inr (by rw [List.mem_singleton.mp he])
  refine ⟨(hloop parsed.flatten).1, fun name => ?_⟩
  unfold protoNames
  rw [(hloop parsed.flatten).2]
  constructor
  · rintro ⟨ent, hent, hname⟩
    obtain ⟨vote, hvote, hent⟩ := List.mem_flatten.mp hent
    exact ⟨vote, hvote, ent, hent, hname⟩
  · rintro ⟨vote, hvote, ent, hent, hname⟩
    exact ⟨ent, List.mem_flatten.mpr ⟨vote, hvote, hent⟩, hname⟩

/-- A version with a vote belongs to a name that is collected, and to the 64 of a mask. -/
theorem versionVotes_pos {parsed : List (List ProtoEntry)} {name : Bytes} {i : ℕ}
    (h : 0 < versionVotes parsed name i) : name ∈ protoNames parsed ∧ i < 64 := by
  obtain ⟨vote, hvote, hlists⟩ := List.countP_pos_iff.mp h
  obtain ⟨ent, hent, hbit⟩ := (Option.any_eq_true _ _).mp hlists
  have hname := List.find?_some hent
  rw [decide_eq_true_eq] at hname
  refine ⟨(protoNames_spec parsed).2 name |>.mpr ⟨vote, hvote, ent, List.mem_of_find?_eq_some hent,
    hname⟩, ?_⟩
  by_contra hi
  rw [BitVec.getLsbD_of_ge _ _ (not_lt.mp hi)] at hbit
  cases hbit

/-! ## The result -/

/-- The name of the one entry is in front of that of the other. -/
def NameBefore (e e' : ProtoEntry) : Prop := strcmp e.name e'.name < 0

instance : Std.Irrefl NameBefore where
  irrefl e := by
    rw [NameBefore, strcmp_self]
    exact lt_irrefl 0

instance : Std.Antisymm NameBefore where
  antisymm e e' h h' := by
    rw [NameBefore] at h h'
    rw [strcmp_swap e.name e'.name] at h'
    omega

section Result

variable {Q : Qsort} {strings : List Bytes} {threshold : ℤ}

theorem computeVoteEntries_sorted :
    (computeVoteEntries Q strings threshold).Pairwise NameBefore := by
  unfold computeVoteEntries
  have hnodup := (protoNames_spec (strings.filterMap parseProtocolList)).1
  have hsorted := Q.sorted (consistentOn_strcmp (protoNames (strings.filterMap parseProtocolList)))
  have hstrict := hsorted.imp₂ (fun a b (hle : strcmp a b ≤ 0) (hne : a ≠ b) =>
    lt_of_le_of_ne hle (mt strcmp_eq_zero.mp hne)) ((Q.perm strcmp _).nodup_iff.mpr hnodup)
  refine List.Pairwise.filterMap _ (fun name name' hlt e he e' he' => ?_) hstrict
  simp only [Option.ite_none_left_eq_some, Option.some.injEq] at he he'
  rw [NameBefore, ← he.2, ← he'.2]
  exact hlt

/-- **Exactly the versions with enough votes**, in no entry if there is none. -/
theorem mem_computeVoteEntries (hlen : strings.length < 256) (hthreshold : 1 ≤ threshold)
    {ent : ProtoEntry} : ent ∈ computeVoteEntries Q strings threshold
      ↔ ent.bitmask ≠ 0 ∧ ∀ i, ent.bitmask.getLsbD i = true
        ↔ threshold ≤ versionVotes (strings.filterMap parseProtocolList) ent.name i := by
  have hparsed : (strings.filterMap parseProtocolList).length < 256 :=
    (List.length_filterMap_le _ _).trans_lt hlen
  unfold computeVoteEntries
  generalize strings.filterMap parseProtocolList = parsed at hparsed
  have hbits : ∀ name i,
      (resultBitmask (countVersions parsed name) threshold).getLsbD i = true
        ↔ threshold ≤ versionVotes parsed name i := fun name i => by
    rw [getLsbD_resultBitmask, decide_eq_true_eq, countVersions_toNat name i hparsed]
    refine ⟨And.right, fun h => ⟨?_, h⟩⟩
    have hpos : 0 < versionVotes parsed name i := by omega
    exact (versionVotes_pos hpos).2
  rw [List.mem_filterMap]
  simp only [Option.ite_none_left_eq_some, Option.some.injEq, Qsort.mem_sort]
  constructor
  · rintro ⟨name, -, hne, rfl⟩
    exact ⟨hne, hbits name⟩
  · rintro ⟨hne, hent⟩
    have hmask : resultBitmask (countVersions parsed ent.name) threshold = ent.bitmask :=
      BitVec.eq_of_getLsbD_eq fun i _ => Bool.eq_iff_iff.mpr ((hbits _ i).trans (hent i).symm)
    -- a version of the entry has a vote, so the name was collected
    obtain ⟨i, hi⟩ : ∃ i, ent.bitmask.getLsbD i = true := by
      by_contra hno
      refine hne (BitVec.eq_of_getLsbD_eq fun i _ => ?_)
      rw [BitVec.ofNat_eq_ofNat, BitVec.getLsbD_zero, Bool.eq_false_iff]
      exact fun hi => hno ⟨i, hi⟩
    have hvotes := (hent i).mp hi
    refine ⟨ent.name, (versionVotes_pos (i := i) (by omega)).1, ?_, ?_⟩
    · rw [hmask]
      exact hne
    · rw [hmask]

/-- **The vote is exact, and the order of the votes does not matter.** -/
theorem compute_vote_exact (hlen : strings.length < 256) (hthreshold : 1 ≤ threshold) :
    protoverComputeVote Q strings threshold
        = torAssertSome .zero (encodeProtocolList (computeVoteEntries Q strings threshold))
      ∧ (computeVoteEntries Q strings threshold).Pairwise
          (fun e e' => strcmp e.name e'.name < 0)
      ∧ (∀ ent, ent ∈ computeVoteEntries Q strings threshold
          ↔ ent.bitmask ≠ 0 ∧ ∀ i, ent.bitmask.getLsbD i = true
            ↔ threshold ≤ versionVotes (strings.filterMap parseProtocolList) ent.name i)
      ∧ (∀ (Q' : Qsort) (strings' : List Bytes), strings.Perm strings' →
          computeVoteEntries Q' strings' threshold = computeVoteEntries Q strings threshold)
      ∧ ∀ counted, counted <+: strings.filterMap parseProtocolList → ∀ name i,
          (countVersions counted name i).toNat = versionVotes counted name i := by
  refine ⟨?_, computeVoteEntries_sorted, fun ent => mem_computeVoteEntries hlen hthreshold,
    fun Q' strings' hperm => ?_, fun counted hstart name i => ?_⟩
  · unfold protoverComputeVote
    have hassert : torAssert (strings.length < 256) ComputeVoteFailure.tooManyVotes = .ok () :=
      torAssert_eq_ok.mpr hlen
    rw [hassert]
    by_cases hnil : strings = []
    · subst hnil
      have hentries : computeVoteEntries Q [] threshold = [] :=
        List.eq_nil_iff_forall_not_mem.mpr fun ent hent => by
          obtain ⟨hne, hbits⟩ := (mem_computeVoteEntries (by decide) hthreshold).mp hent
          refine hne (BitVec.eq_of_getLsbD_eq fun i _ => ?_)
          rw [BitVec.ofNat_eq_ofNat, BitVec.getLsbD_zero, Bool.eq_false_iff]
          intro hi
          have hvotes := (hbits i).mp hi
          have hnone : versionVotes (([] : List Bytes).filterMap parseProtocolList) ent.name i = 0 := rfl
          omega
      rw [hentries]
      rfl
    · simp only [if_neg hnil]
      rfl
  · refine computeVoteEntries_sorted.eq_of_mem_iff computeVoteEntries_sorted fun ent => ?_
    have hvotes : ∀ name i, versionVotes (strings'.filterMap parseProtocolList) name i
        = versionVotes (strings.filterMap parseProtocolList) name i :=
      fun name i => ((hperm.filterMap parseProtocolList).countP_eq _).symm
    rw [mem_computeVoteEntries hlen hthreshold,
      mem_computeVoteEntries (hperm.length_eq ▸ hlen) hthreshold]
    simp only [hvotes]
  · exact countVersions_toNat name i (hstart.length_le.trans_lt
      ((List.length_filterMap_le _ _).trans_lt hlen))

theorem compute_vote_two_of_three :
    computeVoteEntries Qsort.insertion
        [cstring "nonsense", cstring "Cons=1 Link=2 Link=5", cstring "Link=1-3"] 2
      = [⟨cstring "Link", 0b100#64⟩] := by
  obtain ⟨-, -, -, horder, -⟩ := @compute_vote_exact Qsort.insertion
    [cstring "Link=1-3", cstring "nonsense", cstring "Cons=1 Link=2 Link=5"] 2 (by decide)
    (by decide)
  rw [horder Qsort.insertion _ (List.perm_append_comm : ([_] ++ [_, _]).Perm _)]
  decide +kernel

end Result

end Dittor.Tor
