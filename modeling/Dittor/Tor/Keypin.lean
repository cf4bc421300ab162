import Dittor.Tor.Base64

/-!
# Key pinning (`keypin.c`)

An authority remembers which RSA identity came with which Ed25519 identity, in two hash tables that
hold the same entries, one by each key, and in a journal. A table is a list here: `HT_FIND` and
`HT_REMOVE` go by the key, and `HT_INSERT` does not look whether there is one already. Two entries
with the same keys stand for one object; that no table ever has two of them is part of the
invariant `Pinned`, under which no assertion fails (`addOrReplace_spec`, `checkAndAdd_spec`).
-/

namespace Dittor.Tor

open Dittor.Lib

/-- `keypin_ent_t` -/
structure KeypinEnt where
  rsaId : Bytes
  ed25519Key : Bytes
  rsaId_length : rsaId.length = 20
  ed25519Key_length : ed25519Key.length = 32
deriving DecidableEq

theorem KeypinEnt.ext {x y : KeypinEnt} (hrsa : x.rsaId = y.rsaId)
    (hed : x.ed25519Key = y.ed25519Key) : x = y := by
  cases x
  cases y
  simp_all

/-- `the_rsa_map` and `the_ed_map` -/
structure KeypinMaps where
  rsaMap : List KeypinEnt
  edMap : List KeypinEnt

/-- `KEYPIN_FOUND` and the like -/
inductive KeypinResult where
  | found
  | added
  | mismatch
  | notFound
deriving DecidableEq, Repr

/-- `HT_FIND` -/
def htFind (key : KeypinEnt → Bytes) (table : List KeypinEnt) (ent : KeypinEnt) :
    Option KeypinEnt :=
  table.find? fun e => key e = key ent

/-- What `HT_REMOVE` leaves. -/
def htRemove (key : KeypinEnt → Bytes) (table : List KeypinEnt) (ent : KeypinEnt) :
    List KeypinEnt :=
  table.eraseP fun e => key e = key ent

namespace KeypinMaps

/-- What `keypin_clear` leaves. -/
def empty : KeypinMaps := ⟨[], []⟩

/-- `keypin_add_entry_to_map` -/
def addEntry (m : KeypinMaps) (ent : KeypinEnt) : KeypinMaps :=
  ⟨ent :: m.rsaMap, ent :: m.edMap⟩

/-- The removal of an entry from both maps; `none` where an assertion fails. -/
def evict (m : KeypinMaps) (ent : KeypinEnt) : Option KeypinMaps :=
  if htFind KeypinEnt.rsaId m.rsaMap ent ≠ some ent then none
  else if htFind KeypinEnt.ed25519Key m.edMap ent ≠ some ent then none
  else some ⟨htRemove KeypinEnt.rsaId m.rsaMap ent, htRemove KeypinEnt.ed25519Key m.edMap ent⟩

/-- The removal of an entry that was found. -/
def evictFound (m : KeypinMaps) : Option KeypinEnt → Option KeypinMaps
  | none => some m
  | some ent => m.evict ent

/-- The removal of both entries found; `ent3` is not removed again where it is `ent2`. -/
def evictBoth (m : KeypinMaps) (ent2 ent3 : Option KeypinEnt) : Option KeypinMaps :=
  (m.evictFound ent2).bind fun m => m.evictFound (if ent2 = ent3 then none else ent3)

/-- `keypin_add_or_replace_entry_in_map` -/
def addOrReplace (m : KeypinMaps) (ent : KeypinEnt) : Option (KeypinMaps × ℤ) :=
  let ent2 := htFind KeypinEnt.rsaId m.rsaMap ent
  let ent3 := htFind KeypinEnt.ed25519Key m.edMap ent
  if ent2.any fun e => e.ed25519Key = ent.ed25519Key then some (m, 0)
  else if ent2.isSome || ent3.isSome then
    (m.evictBoth ent2 ent3).map fun m => (m.addEntry ent, -1)
  else some (m.addEntry ent, 1)

/-- The assertion on what `keypin_add_or_replace_entry_in_map` returned. -/
def addChecked (m : KeypinMaps) (ent : KeypinEnt) (replace : Bool) :
    Option (KeypinMaps × KeypinResult) :=
  match m.addOrReplace ent with
  | none => none
  | some (m, r) => if if replace then r = 0 else r ≠ 1 then none else some (m, .added)

/-- `keypin_check_and_add_impl`; the journal gets the entry where the result is `KEYPIN_ADDED`. -/
def checkAndAddImpl (m : KeypinMaps) (search : KeypinEnt) (doNotAdd replace : Bool) :
    Option (KeypinMaps × KeypinResult) :=
  match htFind KeypinEnt.rsaId m.rsaMap search with
  | some ent =>
    if ent.rsaId ≠ search.rsaId then none
    else if ent.ed25519Key = search.ed25519Key then some (m, .found)
    else if !replace then some (m, .mismatch)
    else if doNotAdd then some (m, .notFound)
    else m.addChecked search replace
  | none =>
    match if replace then none else htFind KeypinEnt.ed25519Key m.edMap search with
    | some ent =>
      if ent.ed25519Key ≠ search.ed25519Key ∨ ent.rsaId = search.rsaId then none
      else some (m, .mismatch)
    | none => if doNotAdd then some (m, .notFound) else m.addChecked search replace

/-- `keypin_check_and_add` -/
def checkAndAdd (m : KeypinMaps) (search : KeypinEnt) (replace : Bool) :
    Option (KeypinMaps × KeypinResult) :=
  m.checkAndAddImpl search false replace

end KeypinMaps

/-! ## One table -/

section Table

variable {key : KeypinEnt → Bytes} {table : List KeypinEnt} {ent e : KeypinEnt}

theorem htFind_some (h : htFind key table ent = some e) : e ∈ table ∧ key e = key ent :=
  ⟨List.mem_of_find?_eq_some h, by simpa using List.find?_some h⟩

theorem htFind_none (h : htFind key table ent = none) : ∀ x ∈ table, key x ≠ key ent := by
  intro x hx
  simpa using List.find?_eq_none.mp h x hx

/-- An entry is found, and what is left is all the others. -/
theorem htFind_of_mem (hnodup : (table.map key).Nodup) (hmem : e ∈ table) :
    htFind key table e = some e ∧ (e :: htRemove key table e).Perm table := by
  have hsome : (htFind key table e).isSome := by
    rw [htFind, List.find?_isSome]
    exact ⟨e, hmem, by simp⟩
  obtain ⟨x, hx⟩ := Option.isSome_iff_exists.mp hsome
  obtain ⟨hxmem, hxkey⟩ := htFind_some hx
  obtain rfl : x = e := List.inj_on_of_nodup_map hnodup hxmem hmem hxkey
  refine ⟨hx, ?_⟩
  obtain ⟨y, before, after, -, hykey, hsplit, hrest⟩ :=
    List.exists_of_eraseP (p := fun e => decide (key e = key x)) hxmem (by simp)
  have hymem : y ∈ table := by simp [hsplit]
  obtain rfl : y = x := List.inj_on_of_nodup_map hnodup hymem hxmem (by simpa using hykey)
  rw [htRemove, hrest, hsplit]
  exact List.perm_middle.symm

/-- Removing an entry keeps the key of the other entries. -/
theorem mem_htRemove_iff (hnodup : (table.map key).Nodup) (hmem : e ∈ table) {x : KeypinEnt} :
    x ∈ htRemove key table e ↔ x ∈ table ∧ key x ≠ key e := by
  have hperm := (htFind_of_mem hnodup hmem).2
  have hnodup' := (hperm.map key).nodup_iff.mpr hnodup
  rw [List.map_cons, List.nodup_cons] at hnodup'
  constructor
  · intro hx
    refine ⟨hperm.subset (List.mem_cons_of_mem _ hx), fun hkey => hnodup'.1 ?_⟩
    rw [← hkey]
    exact List.mem_map_of_mem hx
  · rintro ⟨hx, hkey⟩
    rcases List.mem_cons.mp (hperm.symm.subset hx) with rfl | hx
    · exact absurd rfl hkey
    · exact hx

end Table

/-! ## Both tables -/

/-- The maps hold the same entries, and no key occurs twice: they are a bijection. -/
structure Pinned (m : KeypinMaps) : Prop where
  same : m.rsaMap.Perm m.edMap
  rsa_nodup : (m.rsaMap.map KeypinEnt.rsaId).Nodup
  ed_nodup : (m.edMap.map KeypinEnt.ed25519Key).Nodup

namespace Pinned

variable {m : KeypinMaps} {ent : KeypinEnt}

theorem empty : Pinned .empty := ⟨.refl _, List.nodup_nil, List.nodup_nil⟩

theorem eq_of_rsaId (h : Pinned m) {x y : KeypinEnt} (hx : x ∈ m.rsaMap) (hy : y ∈ m.rsaMap)
    (hkey : x.rsaId = y.rsaId) : x = y :=
  List.inj_on_of_nodup_map h.rsa_nodup hx hy hkey

theorem eq_of_ed25519Key (h : Pinned m) {x y : KeypinEnt} (hx : x ∈ m.rsaMap)
    (hy : y ∈ m.rsaMap) (hkey : x.ed25519Key = y.ed25519Key) : x = y :=
  List.inj_on_of_nodup_map h.ed_nodup (h.same.subset hx) (h.same.subset hy) hkey

/-- A lookup by the RSA identity finds the entry that has it. -/
theorem find_rsa (h : Pinned m) {x : KeypinEnt} (hx : x ∈ m.rsaMap)
    (hkey : x.rsaId = ent.rsaId) : htFind KeypinEnt.rsaId m.rsaMap ent = some x := by
  cases hfind : htFind KeypinEnt.rsaId m.rsaMap ent with
  | none => exact absurd hkey (htFind_none hfind x hx)
  | some y =>
    obtain ⟨hy, hykey⟩ := htFind_some hfind
    rw [h.eq_of_rsaId hx hy (hkey.trans hykey.symm)]

/-- A lookup by the Ed25519 identity finds the entry that has it. -/
theorem find_ed (h : Pinned m) {x : KeypinEnt} (hx : x ∈ m.rsaMap)
    (hkey : x.ed25519Key = ent.ed25519Key) :
    htFind KeypinEnt.ed25519Key m.edMap ent = some x := by
  cases hfind : htFind KeypinEnt.ed25519Key m.edMap ent with
  | none => exact absurd hkey (htFind_none hfind x (h.same.subset hx))
  | some y =>
    obtain ⟨hy, hykey⟩ := htFind_some hfind
    rw [h.eq_of_ed25519Key hx (h.same.symm.subset hy) (hkey.trans hykey.symm)]

theorem addEntry (h : Pinned m) (hrsa : ∀ x ∈ m.rsaMap, x.rsaId ≠ ent.rsaId)
    (hed : ∀ x ∈ m.rsaMap, x.ed25519Key ≠ ent.ed25519Key) : Pinned (m.addEntry ent) where
  same := h.same.cons ent
  rsa_nodup := by
    show (ent.rsaId :: m.rsaMap.map KeypinEnt.rsaId).Nodup
    refine List.nodup_cons.mpr ⟨?_, h.rsa_nodup⟩
    rintro hmem
    obtain ⟨x, hx, hkey⟩ := List.mem_map.mp hmem
    exact hrsa x hx hkey
  ed_nodup := by
    show (ent.ed25519Key :: m.edMap.map KeypinEnt.ed25519Key).Nodup
    refine List.nodup_cons.mpr ⟨?_, h.ed_nodup⟩
    rintro hmem
    obtain ⟨x, hx, hkey⟩ := List.mem_map.mp hmem
    exact hed x (h.same.symm.subset hx) hkey

/-- The removal of an entry passes its assertions and removes nothing else. -/
theorem evict (h : Pinned m) (hent : ent ∈ m.rsaMap) :
    ∃ m', m.evict ent = some m' ∧ Pinned m' ∧
      ∀ x, x ∈ m'.rsaMap ↔ x ∈ m.rsaMap ∧ x ≠ ent := by
  obtain ⟨hrsa, hrsarest⟩ := htFind_of_mem h.rsa_nodup hent
  obtain ⟨hed, hedrest⟩ := htFind_of_mem h.ed_nodup (h.same.subset hent)
  refine ⟨⟨htRemove KeypinEnt.rsaId m.rsaMap ent, htRemove KeypinEnt.ed25519Key m.edMap ent⟩,
    by simp only [KeypinMaps.evict, hrsa, hed, ne_eq, not_true, if_false], ?_, ?_⟩
  · refine ⟨?_, ?_, ?_⟩
    · exact (hrsarest.trans (h.same.trans hedrest.symm)).cons_inv
    · exact h.rsa_nodup.sublist (List.eraseP_sublist.map _)
    · exact h.ed_nodup.sublist (List.eraseP_sublist.map _)
  · intro x
    show x ∈ htRemove KeypinEnt.rsaId m.rsaMap ent ↔ _
    rw [mem_htRemove_iff h.rsa_nodup hent]
    refine and_congr_right fun hx => not_congr ⟨fun hkey => h.eq_of_rsaId hx hent hkey, ?_⟩
    rintro rfl
    rfl

theorem evictFound (h : Pinned m) (found : Option KeypinEnt)
    (hfound : ∀ e, found = some e → e ∈ m.rsaMap) :
    ∃ m', m.evictFound found = some m' ∧ Pinned m' ∧
      ∀ x, x ∈ m'.rsaMap ↔ x ∈ m.rsaMap ∧ found ≠ some x := by
  cases found with
  | none => exact ⟨m, rfl, h, by simp⟩
  | some e =>
    obtain ⟨m', hevict, hpinned, hmem⟩ := h.evict (hfound e rfl)
    refine ⟨m', hevict, hpinned, fun x => ?_⟩
    rw [hmem x, ne_eq, ne_eq, Option.some_inj, eq_comm]

theorem find_rsa_ne_iff (h : Pinned m) {x : KeypinEnt} (hx : x ∈ m.rsaMap) :
    htFind KeypinEnt.rsaId m.rsaMap ent ≠ some x ↔ x.rsaId ≠ ent.rsaId :=
  not_congr ⟨fun hfind => (htFind_some hfind).2, h.find_rsa hx⟩

theorem find_ed_ne_iff (h : Pinned m) {x : KeypinEnt} (hx : x ∈ m.rsaMap) :
    htFind KeypinEnt.ed25519Key m.edMap ent ≠ some x ↔ x.ed25519Key ≠ ent.ed25519Key :=
  not_congr ⟨fun hfind => (htFind_some hfind).2, h.find_ed hx⟩

/-- The removal of the entries found by either key. -/
theorem evictBoth (h : Pinned m) (ent : KeypinEnt) :
    ∃ m', m.evictBoth (htFind KeypinEnt.rsaId m.rsaMap ent)
        (htFind KeypinEnt.ed25519Key m.edMap ent) = some m' ∧ Pinned m' ∧
      ∀ x, x ∈ m'.rsaMap ↔
        x ∈ m.rsaMap ∧ x.rsaId ≠ ent.rsaId ∧ x.ed25519Key ≠ ent.ed25519Key := by
  obtain ⟨m₁, hevict₁, hpinned₁, hmem₁⟩ := h.evictFound _ fun e he => (htFind_some he).1
  have hthird : ∀ e, (if htFind KeypinEnt.rsaId m.rsaMap ent =
      htFind KeypinEnt.ed25519Key m.edMap ent then none
      else htFind KeypinEnt.ed25519Key m.edMap ent) = some e → e ∈ m₁.rsaMap := by
    intro e he
    split at he
    · cases he
    · next hne =>
      have hmem := h.same.symm.subset (htFind_some he).1
      exact (hmem₁ e).mpr ⟨hmem, fun heq => hne (heq.trans he.symm)⟩
  obtain ⟨m₂, hevict₂, hpinned₂, hmem₂⟩ := hpinned₁.evictFound _ hthird
  refine ⟨m₂, ?_, hpinned₂, fun x => ?_⟩
  · rw [KeypinMaps.evictBoth, hevict₁, Option.bind_some, hevict₂]
  · rw [hmem₂ x, hmem₁ x, and_assoc]
    refine and_congr_right fun hx => ?_
    rw [← h.find_rsa_ne_iff hx, ← h.find_ed_ne_iff hx]
    refine and_congr_right fun hne => ?_
    split
    · next heq => simpa [← heq] using hne
    · rfl

/-- Adding an entry never fails an assertion; it replaces exactly the entries that share a key with
it, and reports whether there were any. -/
theorem addOrReplace (h : Pinned m) (ent : KeypinEnt) :
    ∃ m' r, m.addOrReplace ent = some (m', r) ∧ Pinned m' ∧
      (∀ x, x ∈ m'.rsaMap ↔ x = ent ∨
        x ∈ m.rsaMap ∧ x.rsaId ≠ ent.rsaId ∧ x.ed25519Key ≠ ent.ed25519Key) ∧
      (r = 0 → ent ∈ m.rsaMap) ∧
      ((∀ x ∈ m.rsaMap, x.rsaId ≠ ent.rsaId ∧ x.ed25519Key ≠ ent.ed25519Key) → r = 1) := by
  simp only [KeypinMaps.addOrReplace]
  split_ifs with hdup hfound
  · obtain ⟨e, hfind, hed⟩ : ∃ e, htFind KeypinEnt.rsaId m.rsaMap ent = some e ∧
        e.ed25519Key = ent.ed25519Key := by simpa [Option.any_eq_true] using hdup
    obtain ⟨hmem, hrsa⟩ := htFind_some hfind
    obtain rfl : e = ent := KeypinEnt.ext hrsa hed
    refine ⟨m, 0, rfl, h, fun x => ⟨fun hx => ?_, ?_⟩, fun _ => hmem, fun hnone => ?_⟩
    · by_cases hxe : x = e
      · exact .inl hxe
      · exact .inr ⟨hx, fun hkey => hxe (h.eq_of_rsaId hx hmem hkey),
          fun hkey => hxe (h.eq_of_ed25519Key hx hmem hkey)⟩
    · rintro (rfl | ⟨hx, -⟩)
      · exact hmem
      · exact hx
    · exact absurd rfl (hnone e hmem).1
  · obtain ⟨m', hevict, hpinned, hmem⟩ := h.evictBoth ent
    rw [hevict]
    refine ⟨m'.addEntry ent, -1, rfl, ?_, fun x => ?_, by simp, fun hnone => ?_⟩
    · exact hpinned.addEntry (fun x hx => ((hmem x).mp hx).2.1) (fun x hx => ((hmem x).mp hx).2.2)
    · show x ∈ ent :: m'.rsaMap ↔ _
      rw [List.mem_cons, hmem x]
    · rw [Bool.or_eq_true, Option.isSome_iff_exists, Option.isSome_iff_exists] at hfound
      rcases hfound with ⟨e, hfind⟩ | ⟨e, hfind⟩
      · exact absurd (htFind_some hfind).2 (hnone e (htFind_some hfind).1).1
      · have hmem := h.same.symm.subset (htFind_some hfind).1
        exact absurd (htFind_some hfind).2 (hnone e hmem).2
  · rw [Bool.or_eq_true, not_or, Option.not_isSome_iff_eq_none,
      Option.not_isSome_iff_eq_none] at hfound
    have hrsa := htFind_none hfound.1
    have hed : ∀ x ∈ m.rsaMap, x.ed25519Key ≠ ent.ed25519Key :=
      fun x hx => htFind_none hfound.2 x (h.same.subset hx)
    refine ⟨m.addEntry ent, 1, rfl, h.addEntry hrsa hed, fun x => ?_, by simp, fun _ => rfl⟩
    show x ∈ ent :: m.rsaMap ↔ _
    rw [List.mem_cons]
    exact or_congr_right ⟨fun hx => ⟨hx, hrsa x hx, hed x hx⟩, fun hx => hx.1⟩

theorem addChecked (h : Pinned m) (ent : KeypinEnt) (replace : Bool)
    (hnew : ent ∉ m.rsaMap) (hfresh : replace = false →
      ∀ x ∈ m.rsaMap, x.rsaId ≠ ent.rsaId ∧ x.ed25519Key ≠ ent.ed25519Key) :
    ∃ m' r, m.addOrReplace ent = some (m', r) ∧
      m.addChecked ent replace = some (m', .added) := by
  obtain ⟨m', r, hadd, -, -, hzero, hone⟩ := h.addOrReplace ent
  refine ⟨m', r, hadd, ?_⟩
  simp only [KeypinMaps.addChecked, hadd]
  rw [if_neg]
  cases replace with
  | false => simpa using hone (hfresh rfl)
  | true => simpa using fun hr => hnew (hzero hr)

/-- `keypin_check_and_add` fails no assertion: it leaves the maps as they are, or adds an entry that
was not there and then says so. Without replacement that entry shares no key with another. -/
theorem checkAndAdd (h : Pinned m) (search : KeypinEnt) (replace : Bool) :
    (∃ result, result ≠ .added ∧ m.checkAndAdd search replace = some (m, result)) ∨
      ∃ m' r, m.addOrReplace search = some (m', r) ∧
        m.checkAndAdd search replace = some (m', .added) ∧
        (replace = false →
          ∀ x ∈ m.rsaMap, x.rsaId ≠ search.rsaId ∧ x.ed25519Key ≠ search.ed25519Key) := by
  simp only [KeypinMaps.checkAndAdd, KeypinMaps.checkAndAddImpl]
  cases hrsa : htFind KeypinEnt.rsaId m.rsaMap search with
  | some ent =>
    obtain ⟨hmem, hkey⟩ := htFind_some hrsa
    simp only [hkey, ne_eq, not_true, if_false, Bool.false_eq_true]
    split_ifs with hed hreplace
    · exact .inl ⟨.found, by simp, rfl⟩
    · exact .inl ⟨.mismatch, by simp, rfl⟩
    · have hnew : search ∉ m.rsaMap := by
        intro hin
        obtain rfl := h.eq_of_rsaId hmem hin hkey
        exact hed rfl
      have hreplace : replace = true := by simpa using hreplace
      have hfresh : replace = false → ∀ x ∈ m.rsaMap,
          x.rsaId ≠ search.rsaId ∧ x.ed25519Key ≠ search.ed25519Key := by simp [hreplace]
      obtain ⟨m', r, hadd, hchecked⟩ := h.addChecked search replace hnew hfresh
      exact .inr ⟨m', r, hadd, hchecked, hfresh⟩
  | none =>
    have hnone := htFind_none hrsa
    cases hed : if replace then none else htFind KeypinEnt.ed25519Key m.edMap search with
    | some ent =>
      have hfind : htFind KeypinEnt.ed25519Key m.edMap search = some ent := by
        split at hed
        · cases hed
        · exact hed
      obtain ⟨hmem, hkey⟩ := htFind_some hfind
      have hne := hnone ent (h.same.symm.subset hmem)
      simp only [hkey, hne, ne_eq, not_true, or_self, if_false]
      exact .inl ⟨.mismatch, by simp, rfl⟩
    | none =>
      have hnew : search ∉ m.rsaMap := fun hin => hnone search hin rfl
      have hfresh : replace = false → ∀ x ∈ m.rsaMap,
          x.rsaId ≠ search.rsaId ∧ x.ed25519Key ≠ search.ed25519Key := by
        rintro rfl x hx
        exact ⟨hnone x hx, htFind_none (by simpa using hed) x (h.same.subset hx)⟩
      obtain ⟨m', r, hadd, hchecked⟩ := h.addChecked search replace hnew hfresh
      exact .inr ⟨m', r, hadd, hchecked, hfresh⟩

end Pinned

end Dittor.Tor
