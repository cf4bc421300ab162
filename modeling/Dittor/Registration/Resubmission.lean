import Dittor.Registration.Registry

/-!
# Nodes that register again

Relays upload their descriptors over and over, so the same node reaches `registerNode` many
times, and a node that was refused is tried again.

The family set of a node is the one it was first accepted with (`storedFamily_runCalls`): a later
call for the node returns `true` before it looks at the family. So the ids that a node brings
later count only if some node had them on its first accepted call (`refreshed_family_iff`).

Where the family of each node stays the same, trying again makes the order of the requests
irrelevant: what is let in is always linked to the first node, and a node that is linked to it
is let in as soon as its turn comes after the node before it in the chain.
-/

namespace Dittor.Registration

open Dittor.Lib Dittor.Crypto Dittor.Dkg Relation

/-! ## What is stored for a node -/

/-- A call stores a family set only for a node that it lets in for the first time. -/
theorem storedFamily_registerAt (R : Registrations) (k n : Text) (ids : Finset Text)
    (k' n' : Text) :
    storedFamily (registerAt R k n ids).1 k' n' =
      if k' = k ∧ n' = n ∧ storedFamily R k n = none ∧ (registerAt R k n ids).2 = true then some ids
      else storedFamily R k' n' := by
  rcases registerAt_cases R k n ids with ⟨hnone, h⟩ | ⟨E, hE, ⟨hn, h⟩ | ⟨hn, -, h⟩ | ⟨hn, -, h⟩⟩
  · rw [h]
    unfold storedFamily
    by_cases hk : k' = k
    · subst hk
      rw [AList.lookup_insert, hnone]
      show List.dlookup n' [(⟨n, ids⟩ : Σ _ : Text, Finset Text)] = _
      by_cases hn : n' = n
      · subst hn
        rw [List.dlookup_cons_eq]
        simp
      · rw [List.dlookup_cons_ne _ _ hn, if_neg fun hc => hn hc.2.1]
        rfl
    · rw [AList.lookup_insert_ne hk, if_neg fun hc => hk hc.1]
  · obtain ⟨ids', hids⟩ := storedFamily_of_mem hE hn
    rw [h, if_neg]
    intro hc
    rw [hids] at hc
    exact absurd hc.2.2.1 (by simp)
  · rw [h, if_neg fun hc => absurd hc.2.2.2 (by simp)]
  · rw [h]
    have hstored : storedFamily R k n = none := by
      unfold storedFamily
      rw [hE]
      exact AList.lookup_eq_none.mpr hn
    unfold storedFamily at hstored ⊢
    by_cases hk : k' = k
    · subst hk
      rw [AList.lookup_insert, hE]
      by_cases hn' : n' = n
      · subst hn'
        rw [hE] at hstored
        rw [if_pos ⟨rfl, rfl, hstored, rfl⟩]
        exact AList.lookup_insert E
      · rw [if_neg fun hc => hn' hc.2.1]
        exact AList.lookup_insert_ne hn'
    · rw [AList.lookup_insert_ne hk, if_neg fun hc => hk hc.1]

section Calls

variable {p : ℕ} {G1 G2 GT : Type} [CommGroup G1] [CommGroup G2] [CommGroup GT]
  (S : CryptimeleonSetup p G1 G2 GT)

/-- The key of the entry a call is about. -/
def RegisterCall.key (c : RegisterCall GT) : Text := pseudonymKey S.codec c.context c.pseudonym

theorem runCalls_append (da : DA G2) (calls calls' : List (RegisterCall GT)) :
    runCalls S da (calls ++ calls') = runCalls S (runCalls S da calls) calls' := by
  unfold runCalls
  exact List.foldl_append

/-- The node was let in with this family set: the call with it was accepted, and no call for
the node was accepted before. -/
def FirstAccepted (da : DA G2) (calls : List (RegisterCall GT)) (key nodeId : Text)
    (familyIds : Finset Text) : Prop :=
  ∃ before c after, calls = before ++ c :: after
    ∧ c.key S = key ∧ c.nodeId = nodeId ∧ c.familyIds = familyIds
    ∧ (c.run S (runCalls S da before)).2 = true
    ∧ ∀ earlier c' rest, before = earlier ++ c' :: rest → c'.key S = key → c'.nodeId = nodeId →
      (c'.run S (runCalls S da earlier)).2 = false

/-- An accepted call leaves something stored for its node. -/
theorem stored_after {da : DA G2} {before : List (RegisterCall GT)} {c : RegisterCall GT}
    (after : List (RegisterCall GT)) (h : (c.run S (runCalls S da before)).2 = true) :
    ∃ ids, storedFamily (runCalls S da (before ++ c :: after)).registrations (c.key S) c.nodeId
      = some ids := by
  obtain ⟨ids, hids⟩ := (registerAt_keeps _ _ _ _).2.2 h
  refine ⟨ids, ?_⟩
  rw [runCalls_append]
  exact runCalls_keeps S after _ _ _ _ hids

theorem firstAccepted_of_stored (mpkG2 : G2) {k n : Text} {ids : Finset Text}
    (calls : List (RegisterCall GT)) :
    storedFamily (runCalls S { mpkG2 } calls).registrations k n = some ids →
      FirstAccepted S { mpkG2 } calls k n ids := by
  induction calls using List.reverseRecOn with
  | nil =>
    intro h
    simp [runCalls, storedFamily] at h
  | append_singleton calls c ih =>
    intro h
    rw [runCalls_append] at h
    have hstep := storedFamily_registerAt (runCalls S { mpkG2 } calls).registrations (c.key S)
      c.nodeId c.familyIds k n
    rw [show storedFamily (registerAt _ (c.key S) c.nodeId c.familyIds).1 k n = some ids from h]
      at hstep
    split_ifs at hstep with hnew
    · obtain ⟨rfl, rfl, hnone, hacc⟩ := hnew
      refine ⟨calls, c, [], rfl, rfl, rfl, (Option.some.inj hstep).symm, hacc, ?_⟩
      -- an earlier accepted call would have stored something
      intro earlier c' rest hcalls hkey hnode
      by_contra hacc'
      obtain ⟨ids', hids⟩ := stored_after S rest (Bool.eq_true_of_not_eq_false hacc')
      rw [← hcalls, hkey, hnode, hnone] at hids
      exact absurd hids (by simp)
    · obtain ⟨before, c', after, rfl, hrest⟩ := ih hstep.symm
      exact ⟨before, c', after ++ [c], by simp, hrest⟩

/-- **What is stored for a node is the family of its first accepted call.** -/
theorem storedFamily_runCalls (mpkG2 : G2) (calls : List (RegisterCall GT)) (k n : Text)
    (ids : Finset Text) :
    storedFamily (runCalls S { mpkG2 } calls).registrations k n = some ids ↔
      FirstAccepted S { mpkG2 } calls k n ids := by
  refine ⟨firstAccepted_of_stored S mpkG2 calls, ?_⟩
  intro ⟨before, c, after, hcalls, hkey, hnode, hids, hacc, hfirst⟩
  subst hcalls hkey hnode hids
  have hnone : storedFamily (runCalls S { mpkG2 } before).registrations (c.key S) c.nodeId
      = none := by
    cases hst : storedFamily (runCalls S { mpkG2 } before).registrations (c.key S) c.nodeId with
    | none => rfl
    | some ids' =>
      obtain ⟨earlier, c', rest, rfl, hkey, hnode, -, hacc', -⟩ :=
        firstAccepted_of_stored S mpkG2 before hst
      rw [hfirst earlier c' rest rfl hkey hnode] at hacc'
      exact absurd hacc' (by simp)
  have hstep := storedFamily_registerAt (runCalls S { mpkG2 } before).registrations (c.key S)
    c.nodeId c.familyIds (c.key S) c.nodeId
  rw [if_pos ⟨rfl, rfl, hnone, hacc⟩] at hstep
  rw [runCalls_append]
  exact runCalls_keeps S after _ _ _ _ hstep

/-! ## A family that changes -/

/-- The entry of a key and its stored family sets. -/
theorem mem_known_iff {R : Registrations} {k f : Text} {E : Entry} (hE : R.lookup k = some E) :
    f ∈ knownFamilyIds E ↔ ∃ n ids, storedFamily R k n = some ids ∧ f ∈ ids := by
  rw [mem_knownFamilyIds]
  unfold storedFamily
  rw [hE]
  rfl

/-- **Bringing new family ids.** An accepted call makes its family ids known, to every later
node, exactly if each of them was already among those with which some node was let in. -/
theorem refreshed_family_iff (mpkG2 : G2) (before between : List (RegisterCall GT))
    (c : RegisterCall GT) (haccepted : (c.run S (runCalls S { mpkG2 } before)).2 = true) :
    (∀ (nodeId : Text) (familyIds : Finset Text), ¬ Disjoint c.familyIds familyIds →
        ((runCalls S { mpkG2 } (before ++ c :: between)).registerNode S c.context c.pseudonym
          nodeId familyIds).2 = true)
      ↔ ∀ f ∈ c.familyIds, ∃ n ids,
        FirstAccepted S { mpkG2 } (before ++ c :: between) (c.key S) n ids ∧ f ∈ ids := by
  obtain ⟨ids, hids⟩ := stored_after S between haccepted
  obtain ⟨E, hE, -⟩ := Option.bind_eq_some_iff.mp hids
  have hanswer : ∀ (nodeId : Text) (familyIds : Finset Text),
      ((runCalls S { mpkG2 } (before ++ c :: between)).registerNode S c.context c.pseudonym
        nodeId familyIds).2 = true ↔ nodeId ∈ E ∨ ¬ Disjoint (knownFamilyIds E) familyIds := by
    intro nodeId familyIds
    refine (registerAt_accepts_iff _ (c.key S) nodeId familyIds).trans ?_
    unfold Admits
    rw [hE]
    simp
  simp only [hanswer, ← storedFamily_runCalls, ← mem_known_iff hE]
  constructor
  · intro h f hf
    -- a node that is not in the entry, and has no other family id
    obtain ⟨fresh, hfresh⟩ := Infinite.exists_notMem_finset E.keys.toFinset
    have hnode : fresh ∉ E := fun hmem => hfresh (List.mem_toFinset.mpr (AList.mem_keys.mp hmem))
    have hshared := (h fresh {f} (by simpa using hf)).resolve_left hnode
    simpa using hshared
  · intro h nodeId familyIds hshare
    obtain ⟨f, hf, hf'⟩ := Finset.not_disjoint_iff.mp hshare
    exact .inr (Finset.not_disjoint_iff.mpr ⟨f, h f hf, hf'⟩)

end Calls

/-- A call of the sample runs: one pseudonym in the context of the demo. -/
def sampleCall (nodeId : Text) (familyIds : Finset Text) :
    RegisterCall (Multiplicative (ZMod 5)) :=
  ⟨torContext, .ofAdd 3, nodeId, familyIds⟩

/-- A node that was first registered with the family id, and then again. -/
theorem refreshed_family_kept :
    ((sampleCall ['a'] {['f']}).run (productSetup 5 2)
        (runCalls (productSetup 5 2) { mpkG2 := .ofAdd 3 } [sampleCall ['a'] {['f']}])).2 = true
      ∧ ((runCalls (productSetup 5 2) { mpkG2 := .ofAdd 3 }
          [sampleCall ['a'] {['f']}, sampleCall ['a'] {['f']}]).registerNode (productSetup 5 2)
            torContext (.ofAdd 3) ['b'] {['f'], ['g']}).2 = true := by
  have hacc : ((sampleCall ['a'] {['f']}).run (productSetup 5 2)
      (runCalls (productSetup 5 2) { mpkG2 := .ofAdd 3 } [sampleCall ['a'] {['f']}])).2 = true := by
    decide
  have hiff := refreshed_family_iff (productSetup 5 2) (.ofAdd 3) [sampleCall ['a'] {['f']}] []
    (sampleCall ['a'] {['f']}) hacc
  refine ⟨hacc, hiff.mpr ?_ ['b'] {['f'], ['g']} (by decide)⟩
  intro f hf
  refine ⟨['a'], {['f']}, ⟨[], sampleCall ['a'] {['f']}, [sampleCall ['a'] {['f']}], rfl, rfl, rfl,
    rfl, by decide, ?_⟩, hf⟩
  intro earlier c' rest h
  simp at h

/-- A node that was first registered without a family: the id it brings later is accepted with
it and not remembered, so the next node with that id is refused. -/
theorem family_refresh_forgotten :
    ((sampleCall ['a'] {['f']}).run (productSetup 5 2)
        (runCalls (productSetup 5 2) { mpkG2 := .ofAdd 3 } [sampleCall ['a'] ∅])).2 = true
      ∧ ¬ Disjoint (sampleCall ['a'] {['f']}).familyIds {['f']}
      ∧ ((runCalls (productSetup 5 2) { mpkG2 := .ofAdd 3 }
          [sampleCall ['a'] ∅, sampleCall ['a'] {['f']}]).registerNode (productSetup 5 2)
            torContext (.ofAdd 3) ['b'] {['f']}).2 = false := by
  decide

/-! ## Families that stay the same -/

section Table

variable (requests : Finset Text) (familyIds : Text → Finset Text) (k first : Text)

/-- Two requests whose families intersect. -/
def FamiliesIntersect (n m : Text) : Prop :=
  n ∈ requests ∧ m ∈ requests ∧ ¬ Disjoint (familyIds n) (familyIds m)

/-- What is stored under the key: the first node, and only nodes that are linked to it. -/
structure LinkedEntry (R : Registrations) : Prop where
  opened : storedFamily R k first = some (familyIds first)
  sound : ∀ n ids, storedFamily R k n = some ids →
    ids = familyIds n ∧ ReflTransGen (FamiliesIntersect requests familyIds) first n

variable {requests familyIds k first} {R : Registrations} {n m : Text}

theorem LinkedEntry.mem (h : LinkedEntry requests familyIds k first R) (hfirst : first ∈ requests)
    {ids : Finset Text} (hn : storedFamily R k n = some ids) : n ∈ requests := by
  rcases (h.sound n ids hn).2.cases_tail with rfl | ⟨m, -, hedge⟩
  · exact hfirst
  · exact hedge.2.1

/-- A node is let in by a family id of a stored node. -/
theorem registerAt_linked (hm : storedFamily R k m = some (familyIds m))
    (hedge : FamiliesIntersect requests familyIds m n) :
    (registerAt R k n (familyIds n)).2 = true := by
  rw [registerAt_accepts_iff]
  intro E hE
  obtain ⟨f, hfm, hfn⟩ := Finset.not_disjoint_iff.mp hedge.2.2
  exact .inr (Finset.not_disjoint_iff.mpr ⟨f, (mem_known_iff hE).mpr ⟨m, _, hm, hfm⟩, hfn⟩)

/-- A submission keeps the entry linked. -/
theorem LinkedEntry.registerAt (h : LinkedEntry requests familyIds k first R)
    (hfirst : first ∈ requests) (hn : n ∈ requests) :
    LinkedEntry requests familyIds k first (registerAt R k n (familyIds n)).1 where
  opened := (registerAt_keeps R k n (familyIds n)).1 _ _ _ h.opened
  sound := by
    intro n' ids hids
    rw [storedFamily_registerAt] at hids
    split_ifs at hids with hnew
    · obtain ⟨-, rfl, hnone, hacc⟩ := hnew
      refine ⟨(Option.some.inj hids).symm, ?_⟩
      -- the entry is there, so the node shares an id with a stored one
      obtain ⟨E, hE, -⟩ := Option.bind_eq_some_iff.mp h.opened
      have hnew : n' ∉ E := by
        intro hmem
        obtain ⟨ids', hids'⟩ := storedFamily_of_mem hE hmem
        rw [hnone] at hids'
        exact absurd hids' (by simp)
      have hshare := ((registerAt_accepts_iff R k n' (familyIds n')).mp hacc E hE).resolve_left hnew
      obtain ⟨f, hknown, hf⟩ := Finset.not_disjoint_iff.mp hshare
      obtain ⟨m, idsm, hm, hfm⟩ := (mem_known_iff hE).mp hknown
      obtain ⟨rfl, hpath⟩ := h.sound m idsm hm
      have hedge : FamiliesIntersect requests familyIds m n' :=
        ⟨h.mem hfirst hm, hn, Finset.not_disjoint_iff.mpr ⟨f, hfm, hf⟩⟩
      exact hpath.tail hedge
    · exact h.sound n' ids hids

/-- Where no submission changes anything, every linked node is stored. -/
theorem LinkedEntry.complete (h : LinkedEntry requests familyIds k first R)
    (hstable : ∀ n ∈ requests, (Dittor.Crypto.registerAt R k n (familyIds n)).1 = R)
    (hpath : ReflTransGen (FamiliesIntersect requests familyIds) first n) :
    storedFamily R k n = some (familyIds n) := by
  induction hpath with
  | refl => exact h.opened
  | tail _ hedge ih =>
    obtain ⟨ids, hids⟩ := (registerAt_keeps R k _ _).2.2 (registerAt_linked ih hedge)
    rw [hstable _ hedge.2.1] at hids
    rw [hids, (h.sound _ _ hids).1]

end Table

section Submissions

variable {p : ℕ} {G1 G2 GT : Type} [CommGroup G1] [CommGroup G2] [CommGroup GT]
  (S : CryptimeleonSetup p G1 G2 GT) (context : Text) (pseudonym : GT)
  (familyIds : Text → Finset Text)

/-- The directory authority after the requests of these nodes. -/
def submit (da : DA G2) (nodes : List Text) : DA G2 :=
  runCalls S da (nodes.map fun n => ⟨context, pseudonym, n, familyIds n⟩)

/-- The node is in the entry of the pseudonym. -/
def Registered (da : DA G2) (n : Text) : Prop :=
  ∃ ids, storedFamily da.registrations (pseudonymKey S.codec context pseudonym) n = some ids

variable {requests : Finset Text} {first : Text} {da : DA G2}

theorem submit_concat (nodes : List Text) (n : Text) :
    (submit S context pseudonym familyIds da (nodes ++ [n])).registrations =
      (registerAt (submit S context pseudonym familyIds da nodes).registrations
        (pseudonymKey S.codec context pseudonym) n (familyIds n)).1 := by
  unfold submit
  rw [List.map_append, runCalls_append]
  rfl

theorem registerNode_unchanged {n : Text} {ids : Finset Text}
    (h : (registerAt da.registrations (pseudonymKey S.codec context pseudonym) n ids).1
      = da.registrations) : (da.registerNode S context pseudonym n ids).1 = da := by
  show { da with registrations := _ } = da
  rw [h]

/-- **Every order of submissions keeps the entry linked.** -/
theorem linkedEntry_submit
    (hfree : da.registrations.lookup (pseudonymKey S.codec context pseudonym) = none)
    (hfirst : first ∈ requests) (nodes : List Text) :
    (∀ n ∈ nodes, n ∈ requests) →
      LinkedEntry requests familyIds (pseudonymKey S.codec context pseudonym) first
        (submit S context pseudonym familyIds da (first :: nodes)).registrations := by
  induction nodes using List.reverseRecOn with
  | nil =>
    intro _
    have hstored : ∀ n, storedFamily (submit S context pseudonym familyIds da [first]).registrations
        (pseudonymKey S.codec context pseudonym) n
          = if n = first then some (familyIds first) else none := by
      intro n
      have hnone : ∀ m, storedFamily da.registrations (pseudonymKey S.codec context pseudonym) m
          = none := by
        intro m
        unfold storedFamily
        rw [hfree]
        rfl
      have hacc := (registerAt_accepts_iff da.registrations (pseudonymKey S.codec context pseudonym)
        first (familyIds first)).mpr (by intro E hE; rw [hfree] at hE; simp at hE)
      refine (storedFamily_registerAt da.registrations _ first (familyIds first) _ n).trans ?_
      simp [hnone, hacc]
    refine ⟨by rw [hstored, if_pos rfl], fun n ids hn => ?_⟩
    rw [hstored] at hn
    split_ifs at hn with heq
    subst heq
    exact ⟨(Option.some.inj hn).symm, .refl⟩
  | append_singleton nodes n ih =>
    intro hsub
    rw [← List.cons_append, submit_concat]
    exact (ih fun m hm => hsub m (by simp [hm])).registerAt hfirst (hsub n (by simp))

theorem linkedEntry_range
    (hfree : da.registrations.lookup (pseudonymKey S.codec context pseudonym) = none)
    (hfirst : first ∈ requests) {order : ℕ → Text} (horder : ∀ i, order i ∈ requests) (j : ℕ) :
    LinkedEntry requests familyIds (pseudonymKey S.codec context pseudonym) first
      (submit S context pseudonym familyIds da (first :: (List.range j).map order)).registrations := by
  refine linkedEntry_submit S context pseudonym familyIds hfree hfirst _ fun n hn => ?_
  obtain ⟨i, -, rfl⟩ := List.mem_map.mp hn
  exact horder i

/-- A linked node is registered from some time on, if every request comes up again and again. -/
theorem eventually_registered
    (hfree : da.registrations.lookup (pseudonymKey S.codec context pseudonym) = none)
    (hfirst : first ∈ requests) {order : ℕ → Text} (horder : ∀ i, order i ∈ requests)
    (hfair : ∀ n ∈ requests, ∀ i, ∃ j ≥ i, order j = n) {n : Text}
    (hpath : ReflTransGen (FamiliesIntersect requests familyIds) first n) :
    ∃ i, ∀ j ≥ i, storedFamily
      (submit S context pseudonym familyIds da (first :: (List.range j).map order)).registrations
        (pseudonymKey S.codec context pseudonym) n = some (familyIds n) := by
  have hlinked := linkedEntry_range S context pseudonym familyIds hfree hfirst horder
  have hstep : ∀ j, submit S context pseudonym familyIds da (first :: (List.range (j + 1)).map order)
      = submit S context pseudonym familyIds da
        ((first :: (List.range j).map order) ++ [order j]) := by
    intro j
    rw [List.range_succ, List.map_append]
    rfl
  induction hpath with
  | refl => exact ⟨0, fun j _ => (hlinked j).opened⟩
  | @tail m n _ hedge ih =>
    obtain ⟨i, hi⟩ := ih
    obtain ⟨t, ht, rfl⟩ := hfair n hedge.2.1 i
    refine ⟨t + 1, fun j hj => ?_⟩
    -- the node comes up at `t`, when its neighbour is there, and stays
    induction j, hj using Nat.le_induction with
    | base =>
      have hacc := registerAt_linked (hi t ht) hedge
      obtain ⟨ids, hids⟩ := (registerAt_keeps _ _ _ _).2.2 hacc
      rw [← submit_concat, ← hstep] at hids
      rw [hids, ((hlinked (t + 1)).sound _ _ hids).1]
    | succ j _ hj =>
      rw [hstep, submit_concat]
      exact (registerAt_keeps _ _ _ _).1 _ _ _ hj

/-- **Submitting again makes the order irrelevant.** Under a key that is free, the first node is
accepted. Whatever requests follow, once no submission changes the registry the nodes in it are
those linked to the first one by families that intersect. And if every request comes up again
and again, this is reached, and from then on exactly those are answered with `true`. -/
theorem resubmission_order_independent
    (hfree : da.registrations.lookup (pseudonymKey S.codec context pseudonym) = none)
    (hfirst : first ∈ requests) :
    (da.registerNode S context pseudonym first (familyIds first)).2 = true
      ∧ (∀ nodes : List Text, (∀ n ∈ nodes, n ∈ requests) →
        (∀ n ∈ requests,
          ((submit S context pseudonym familyIds da (first :: nodes)).registerNode S context
            pseudonym n (familyIds n)).1 = submit S context pseudonym familyIds da (first :: nodes)) →
        ∀ n, Registered S context pseudonym
            (submit S context pseudonym familyIds da (first :: nodes)) n ↔
          ReflTransGen (FamiliesIntersect requests familyIds) first n)
      ∧ ∀ order : ℕ → Text, (∀ i, order i ∈ requests) →
        (∀ n ∈ requests, ∀ i, ∃ j ≥ i, order j = n) →
        ∃ i, ∀ j ≥ i,
          let da' := submit S context pseudonym familyIds da (first :: (List.range j).map order)
          (∀ n, Registered S context pseudonym da' n ↔
              ReflTransGen (FamiliesIntersect requests familyIds) first n)
            ∧ ∀ n ∈ requests, (da'.registerNode S context pseudonym n (familyIds n)).1 = da'
              ∧ ((da'.registerNode S context pseudonym n (familyIds n)).2 = true ↔
                ReflTransGen (FamiliesIntersect requests familyIds) first n) := by
  refine ⟨?_, ?_, ?_⟩
  · refine (registerAt_accepts_iff da.registrations _ first (familyIds first)).mpr ?_
    intro E hE
    rw [hfree] at hE
    simp at hE
  · intro nodes hsub hstable n
    have hlinked := linkedEntry_submit S context pseudonym familyIds hfree hfirst nodes hsub
    constructor
    · intro ⟨ids, hids⟩
      exact (hlinked.sound n ids hids).2
    · intro hpath
      exact ⟨_, hlinked.complete (fun m hm => congrArg DA.registrations (hstable m hm)) hpath⟩
  · intro order horder hfair
    have hlinked := linkedEntry_range S context pseudonym familyIds hfree hfirst horder
    -- the requests are finitely many, so there is one time for all of them
    have hall : ∀ᶠ j in Filter.atTop, ∀ n ∈ requests,
        ReflTransGen (FamiliesIntersect requests familyIds) first n →
          storedFamily (submit S context pseudonym familyIds da
            (first :: (List.range j).map order)).registrations
              (pseudonymKey S.codec context pseudonym) n = some (familyIds n) := by
      rw [Filter.eventually_all_finset]
      intro n _
      by_cases hpath : ReflTransGen (FamiliesIntersect requests familyIds) first n
      · obtain ⟨i, hi⟩ := eventually_registered S context pseudonym familyIds hfree hfirst horder
          hfair hpath
        exact Filter.eventually_atTop.mpr ⟨i, fun j hj _ => hi j hj⟩
      · exact Filter.Eventually.of_forall fun j h => absurd h hpath
    obtain ⟨i, hi⟩ := Filter.eventually_atTop.mp hall
    refine ⟨i, fun j hj => ⟨fun n => ⟨?_, ?_⟩, fun n hn => ?_⟩⟩
    · intro ⟨ids, hids⟩
      exact ((hlinked j).sound n ids hids).2
    · intro hpath
      have hmem : n ∈ requests := by
        rcases hpath.cases_tail with rfl | ⟨m, -, hedge⟩
        · exact hfirst
        · exact hedge.2.1
      exact ⟨_, hi j hj n hmem hpath⟩
    · have hanswer : ((submit S context pseudonym familyIds da
          (first :: (List.range j).map order)).registerNode S context pseudonym n
            (familyIds n)).2 = true ↔ ReflTransGen (FamiliesIntersect requests familyIds) first n := by
        constructor
        · intro hacc
          obtain ⟨ids, hids⟩ := (registerAt_keeps _ _ _ _).2.2 hacc
          exact (((hlinked j).registerAt hfirst hn).sound n ids hids).2
        · intro hpath
          show (registerAt _ _ n (familyIds n)).2 = true
          rw [registerAt_stored (hi j hj n hn hpath)]
      refine ⟨registerNode_unchanged S context pseudonym ?_, hanswer⟩
      by_cases hpath : ReflTransGen (FamiliesIntersect requests familyIds) first n
      · rw [registerAt_stored (hi j hj n hn hpath)]
      · refine (registerAt_keeps _ _ _ _).2.1 ?_
        exact Bool.eq_false_of_not_eq_true fun hacc => hpath (hanswer.mp hacc)

end Submissions

/-- Two nodes with one family id that take turns. -/
theorem resubmission_two_nodes :
    ∃ i, ∀ j ≥ i, Registered (productSetup 5 2) torContext (.ofAdd 3)
      (submit (productSetup 5 2) torContext (.ofAdd 3) (fun _ => {['f']}) { mpkG2 := .ofAdd 3 }
        (['a'] :: (List.range j).map fun i => if i % 2 = 0 then ['a'] else ['b'])) ['b'] := by
  have hmem : ['a'] ∈ ({['a'], ['b']} : Finset Text) := by decide
  have hfree : ({ mpkG2 := .ofAdd 3 } : DA (Multiplicative (ZMod 5))).registrations.lookup
      (pseudonymKey (productSetup 5 2).codec torContext (.ofAdd 3)) = none := rfl
  obtain ⟨-, -, hfair⟩ := resubmission_order_independent (productSetup 5 2) torContext (.ofAdd 3)
    (fun _ => {['f']}) hfree hmem
  obtain ⟨i, hi⟩ := hfair (fun i => if i % 2 = 0 then ['a'] else ['b'])
    (by intro i; split <;> decide) (by
      intro n hn i
      rcases Finset.mem_insert.mp hn with rfl | hn
      · exact ⟨2 * i, by omega, if_pos (by omega)⟩
      · obtain rfl := Finset.mem_singleton.mp hn
        exact ⟨2 * i + 1, by omega, if_neg (by omega)⟩)
  refine ⟨i, fun j hj => ((hi j hj).1 ['b']).mpr (.single ⟨hmem, by decide, ?_⟩)⟩
  simp

end Dittor.Registration
