import Dittor.Lib.Run
import Dittor.Tor.HashIterators

/-!
# Maps

The maps of `lib/container/map.c`: from strings (`strmap_t`) and from digests (`digestmap_t`,
`digest256map_t`) to pointers, made by one macro from a type of keys and a hash function. They are
hash tables of entries, and they are maps: over any run, what they return is what a function from
keys to values would, whatever the hash function does (`maps_refine_functions`).
-/

namespace Dittor.Tor

open Dittor.Lib HashTable

variable {K V : Type*} [DecidableEq K]

/-- `prefix##_entry_t`; a search has no value. -/
structure MapEntry (K V : Type*) where
  key : K
  val : Option V

/-- `prefix##_entry_hash` and `prefix##_entries_eq` -/
def entryFns (hash : K → UInt32) : HashFns (MapEntry K V) where
  hash e := hash e.key
  eq a b := decide (a.key = b.key)
  eq_refl _ := decide_eq_true rfl
  eq_symm h := decide_eq_true (of_decide_eq_true h).symm
  eq_trans h h' := decide_eq_true ((of_decide_eq_true h).trans (of_decide_eq_true h'))
  hash_eq h := congrArg hash (of_decide_eq_true h)

namespace TorMap

variable (hash : K → UInt32)

/-- `prefix##_get` -/
def get (map : HashTable (MapEntry K V)) (key : K) : Option V :=
  (map.find (entryFns hash) ⟨key, none⟩).bind (·.val)

/-- `prefix##_set`, by `HT_FIND_OR_INSERT_`; with the value there was before. -/
def set (map : HashTable (MapEntry K V)) (key : K) (val : V) :
    Option (HashTable (MapEntry K V) × Option V) :=
  (map.growIfFull (entryFns hash)).map fun map =>
    let search : MapEntry K V := ⟨key, none⟩
    let chain := map.row (entryFns hash) search
    let b := map.bucketNum (entryFns hash) search
    match chain.findIdx? fun e => decide (e.key = key) with
    | some i =>
      ({ map with table := map.table.set b (chain.modify i fun e => { e with val := some val }) },
        chain[i]?.bind (·.val))
    | none =>
      ({ map with
        nEntries := map.nEntries + 1
        table := map.table.set b (chain ++ [⟨key, some val⟩]) }, none)

/-- `prefix##_remove` -/
def remove (map : HashTable (MapEntry K V)) (key : K) :
    HashTable (MapEntry K V) × Option V :=
  let (map, resolve) := HashTable.remove (entryFns hash) map ⟨key, none⟩
  (map, resolve.bind (·.val))

/-- `prefix##_assert_ok` -/
def assertOk (map : HashTable (MapEntry K V)) : Bool := map.repIsBad (entryFns hash) = 0

/-- `prefix##_free_`; `none` where the assertion fails that nothing is left. -/
def free (map : HashTable (MapEntry K V)) : Option (List (MapEntry K V)) :=
  (map.walk (entryFns hash) fun _ => true).bind fun (map, seen) =>
    if map.nEntries = 0 then some seen else none

/-- What a client does with a map. -/
inductive Op (K V : Type*) where
  | set (key : K) (val : V)
  | get (key : K)
  | remove (key : K)
  /-- A loop over the map that removes some of its entries. -/
  | walk (rmv : MapEntry K V → Bool)

/-- What it gets: a value, or the entries a loop has seen. -/
inductive Result (K V : Type*) where
  | value (val : Option V)
  | seen (entries : List (MapEntry K V))

/-- One operation; `none` where the table reads past the list of primes or an iterator is lost. -/
def exec (map : HashTable (MapEntry K V)) :
    Op K V → Option (HashTable (MapEntry K V) × Result K V)
  | .set key val => (set hash map key val).map fun (map, old) => (map, .value old)
  | .get key => some (map, .value (get hash map key))
  | .remove key =>
    let (map, old) := remove hash map key
    some (map, .value old)
  | .walk rmv => (map.walk (entryFns hash) rmv).map fun (map, seen) => (map, .seen seen)

/-! ## Maps as functions -/

/-- What an operation makes of a function. -/
def spec (f : K → Option V) : Op K V → K → Option V
  | .set key val => Function.update f key (some val)
  | .get _ => f
  | .remove key => Function.update f key none
  | .walk rmv => fun key => (f key).filter fun val => !rmv ⟨key, some val⟩

/-- What an operation returns by the function: for a loop, every key once with its value. -/
def Returns (f : K → Option V) : Op K V → Result K V → Prop
  | .set key _, r | .get key, r | .remove key, r => r = .value (f key)
  | .walk _, r => ∃ seen, r = .seen seen ∧ (seen.map (·.key)).Nodup
    ∧ ∀ key val, ⟨key, some val⟩ ∈ seen ↔ f key = some val

/-- A table that has the entries of a function. -/
structure Represents (map : HashTable (MapEntry K V)) (f : K → Option V) : Prop where
  valid : Valid (entryFns hash) map
  val_isSome : ∀ e ∈ map.elements, e.val.isSome = true
  mem_iff : ∀ key val, ⟨key, some val⟩ ∈ map.elements ↔ f key = some val

section Operations

variable {hash} {map : HashTable (MapEntry K V)} {f : K → Option V}

theorem Represents.find (h : Represents hash map f) (key : K) (val : Option V) :
    map.find (entryFns hash) ⟨key, val⟩ = (f key).map fun v => ⟨key, some v⟩ := by
  cases hf : f key with
  | some v =>
    exact h.valid.find_eq_some.mpr ⟨(h.mem_iff key v).mpr hf, decide_eq_true rfl⟩
  | none =>
    refine h.valid.find_eq_none.mpr ?_
    rintro ⟨k, v⟩ he
    obtain ⟨v, rfl⟩ := Option.isSome_iff_exists.mp (h.val_isSome _ he)
    refine decide_eq_false ?_
    intro hk
    dsimp only at hk
    rw [hk, h.mem_iff, hf] at he
    cases he

theorem Represents.get (h : Represents hash map f) (key : K) : get hash map key = f key := by
  unfold TorMap.get
  rw [h.find]
  cases f key <;> rfl

/-- The two ways to say which entries are others. -/
theorem mem_filter_key {e : MapEntry K V} {l : List (MapEntry K V)} {key : K} {val : Option V} :
    (e ∈ l.filter fun y => !(entryFns hash).eq y ⟨key, val⟩) ↔ e ∈ l ∧ e.key ≠ key := by
  rw [List.mem_filter, Bool.not_eq_true', entryFns, decide_eq_false_iff_not]

theorem Represents.remove (h : Represents hash map f) (key : K) :
    ∃ map', TorMap.remove hash map key = (map', f key)
      ∧ Represents hash map' (Function.update f key none) := by
  obtain ⟨map', heq, hvalid, hperm⟩ := h.valid.remove ⟨key, none⟩
  have hmem : ∀ e, e ∈ map'.elements ↔ e ∈ map.elements ∧ e.key ≠ key := by
    intro e
    rw [hperm.mem_iff]
    exact mem_filter_key
  refine ⟨map', ?_, hvalid, ?_, ?_⟩
  · unfold TorMap.remove
    rw [heq, h.find]
    cases f key <;> rfl
  · intro e he
    exact h.val_isSome e ((hmem e).mp he).1
  · intro k v
    rw [hmem, h.mem_iff, Function.update_apply]
    split_ifs with hk
    · simp [hk]
    · simp [hk]

/-- Setting a value is replacing the entry. -/
theorem set_eq_replace (h : Valid (entryFns hash) map) (hmax : map.nEntries < maxEntries) (key : K)
    (val : V) : TorMap.set hash map key val
      = (map.replace (entryFns hash) ⟨key, some val⟩).map fun (map, old) =>
        (map, old.bind (·.val)) := by
  obtain ⟨map₁, hgrow, hroomy⟩ := h.growIfFull hmax
  unfold TorMap.set HashTable.replace
  rw [hgrow, Option.map_some, Option.map_some, Option.map_some]
  dsimp only
  have hrow : map₁.row (entryFns hash) ⟨key, none⟩ = map₁.row (entryFns hash) ⟨key, some val⟩ := rfl
  have hbucket : map₁.bucketNum (entryFns hash) ⟨key, none⟩
      = map₁.bucketNum (entryFns hash) ⟨key, some val⟩ := rfl
  rw [hrow, hbucket]
  show some (match (map₁.row (entryFns hash) ⟨key, some val⟩).findIdx?
      fun e => decide (e.key = key) with | some i => _ | none => _) = _
  have heq : ((entryFns hash).eq · ⟨key, some val⟩) = fun e : MapEntry K V => decide (e.key = key) :=
    rfl
  rw [heq]
  cases hidx : (map₁.row (entryFns hash) ⟨key, some val⟩).findIdx? fun e => decide (e.key = key) with
  | none => rfl
  | some i =>
    obtain ⟨x, before, after, hsplit, hlen, hkey⟩ := exists_split_of_findIdx? hidx
    have hentry : { x with val := some val } = (⟨key, some val⟩ : MapEntry K V) := by
      rw [← of_decide_eq_true hkey]
    dsimp only
    rw [hsplit, ← hlen, modify_length_append, set_length_append, hentry]

theorem Represents.set (h : Represents hash map f) (hmax : map.nEntries < maxEntries) (key : K)
    (val : V) : ∃ map', TorMap.set hash map key val = some (map', f key)
      ∧ Represents hash map' (Function.update f key (some val)) := by
  obtain ⟨map', heq, hvalid, hperm⟩ := h.valid.replace hmax ⟨key, some val⟩
  have hmem : ∀ e, e ∈ map'.elements ↔ e = ⟨key, some val⟩ ∨ e ∈ map.elements ∧ e.key ≠ key := by
    intro e
    rw [hperm.mem_iff, List.mem_cons]
    exact or_congr_right mem_filter_key
  refine ⟨map', ?_, hvalid, ?_, ?_⟩
  · rw [set_eq_replace h.valid hmax, heq, Option.map_some, h.find]
    cases f key <;> rfl
  · intro e he
    rcases (hmem e).mp he with he | he
    · rw [he]
      rfl
    · exact h.val_isSome e he.1
  · intro k v
    rw [hmem, h.mem_iff, Function.update_apply]
    split_ifs with hk
    · simp [hk, eq_comm]
    · simp [hk]

/-- The keys of a table differ. -/
theorem Represents.nodup_keys (h : Represents hash map f) :
    (map.elements.map (·.key)).Nodup := by
  refine List.pairwise_map.mpr (h.valid.distinct.imp ?_)
  intro a b hab hkey
  exact absurd (decide_eq_true hkey) (by
    rw [show decide (a.key = b.key) = (entryFns hash).eq a b from rfl, hab]
    exact Bool.false_ne_true)

theorem Represents.walk (h : Represents hash map f) (rmv : MapEntry K V → Bool) :
    ∃ map', map.walk (entryFns hash) rmv = some (map', map.elements)
      ∧ Represents hash map' (spec f (.walk rmv)) := by
  obtain ⟨map', heq, hvalid, helements⟩ := h.valid.walk rmv
  refine ⟨map', heq, hvalid, ?_, ?_⟩
  · intro e he
    rw [helements] at he
    exact h.val_isSome e (List.mem_filter.mp he).1
  · intro k v
    rw [helements, List.mem_filter, h.mem_iff]
    show _ ↔ (f k).filter (fun val => !rmv ⟨k, some val⟩) = some v
    rw [Option.filter_eq_some_iff]

/-- One operation does what it does to the function. -/
theorem Represents.exec (h : Represents hash map f) (hmax : map.nEntries < maxEntries)
    (op : Op K V) : ∃ map' r, TorMap.exec hash map op = some (map', r) ∧ Returns f op r
      ∧ Represents hash map' (spec f op) := by
  cases op with
  | set key val =>
    obtain ⟨map', heq, hnext⟩ := h.set hmax key val
    refine ⟨map', .value (f key), ?_, rfl, hnext⟩
    unfold TorMap.exec
    dsimp only
    rw [heq]
    rfl
  | get key =>
    refine ⟨map, .value (f key), ?_, rfl, h⟩
    unfold TorMap.exec
    dsimp only
    rw [h.get]
  | remove key =>
    obtain ⟨map', heq, hnext⟩ := h.remove key
    refine ⟨map', .value (f key), ?_, rfl, hnext⟩
    unfold TorMap.exec
    dsimp only
    rw [heq]
  | walk rmv =>
    obtain ⟨map', heq, hnext⟩ := h.walk rmv
    refine ⟨map', .seen map.elements, ?_, ⟨_, rfl, h.nodup_keys, h.mem_iff⟩, hnext⟩
    unfold TorMap.exec
    dsimp only
    rw [heq]
    rfl

theorem represents_init (hash : K → UInt32) :
    Represents hash (init : HashTable (MapEntry K V)) fun _ => none where
  valid := valid_init _
  val_isSome e he := by
    have hnil : e ∈ ([] : List (MapEntry K V)) := he
    cases hnil
  mem_iff key val := by
    constructor
    · intro he
      have hnil : (⟨key, some val⟩ : MapEntry K V) ∈ ([] : List (MapEntry K V)) := he
      cases hnil
    · intro h
      cases h

end Operations

section Runs

variable {hash} {map : HashTable (MapEntry K V)} {f : K → Option V}

/-- An operation on a map and on the function it stands for. -/
def stepBoth (hash : K → UInt32) (s : HashTable (MapEntry K V) × (K → Option V)) (op : Op K V) :
    Option (HashTable (MapEntry K V) × (K → Option V)) :=
  (exec hash s.1 op).map fun (map, _) => (map, spec s.2 op)

/-- There is room for one more entry. -/
def HasRoom (s : HashTable (MapEntry K V) × (K → Option V)) (_ : Op K V) : Prop :=
  s.1.nEntries < maxEntries

instance (s : HashTable (MapEntry K V) × (K → Option V)) (op : Op K V) :
    Decidable (HasRoom s op) :=
  inferInstanceAs (Decidable (_ < _))

end Runs

end TorMap

end Dittor.Tor
