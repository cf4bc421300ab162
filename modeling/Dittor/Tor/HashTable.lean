import Dittor.Lib.Buckets

/-!
# Hash tables

The chained hash table that every map of the source is made of (`ext/ht.h`). The functions of a table
are made by a macro from a hash function and a comparison; here these are a parameter, `HashFns`.

`Valid` is the representation invariant, which the source has a function for as well
(`HT_REP_IS_BAD_`). Each operation keeps it, and what it does to the table it does to the list of
all entries, up to their order. A table has room for `maxEntries`: from there on the source no longer
makes it longer.

An element is its value; that the caller does not insert one node twice is his to see to. Allocation
does not fail.
-/

namespace Dittor.Tor

open Dittor.Lib

/-- The hash function and the comparison of a table. -/
structure HashFns (α : Type*) where
  hash : α → UInt32
  eq : α → α → Bool
  eq_refl : ∀ x, eq x x = true
  eq_symm : ∀ {x y}, eq x y = true → eq y x = true
  eq_trans : ∀ {x y z}, eq x y = true → eq y z = true → eq x z = true
  hash_eq : ∀ {x y}, eq x y = true → hash x = hash y

/-- `name##_PRIMES` -/
def htPrimes : List ℕ :=
  [53, 97, 193, 389, 769, 1543, 3079, 6151, 12289, 24593, 49157, 98317, 196613, 393241, 786433,
    1572869, 3145739, 6291469, 12582917, 25165843, 50331653, 100663319, 201326611, 402653189]

/-- `(unsigned)(load*new_len)` for the load `0.6`. -/
def loadLimitOf (len : ℕ) : ℕ := 3 * len / 5

/-- The load limit of the longest table. -/
def maxEntries : ℕ := loadLimitOf 402653189

/-- A table, `HT_HEAD`. -/
structure HashTable (α : Type*) where
  /-- `hth_table`, with `hth_table_length` rows. -/
  table : List (List α)
  nEntries : ℕ
  loadLimit : ℕ
  /-- `hth_prime_idx`, plus 1. -/
  nextPrime : ℕ

/-- The loop of `HT_GROW`, from a place in the list of primes on; `none` where it reads past the end
of the list. -/
def chooseLength (size : ℕ) : List ℕ → ℕ → Option (ℕ × ℕ)
  | [], _ => none
  | len :: rest, k => if loadLimitOf len ≤ size then chooseLength size rest (k + 1) else some (len, k + 1)

namespace HashTable

variable {α : Type*}

/-- `HT_INITIALIZER`, `HT_INIT` and `HT_CLEAR` -/
def init : HashTable α := ⟨[], 0, 0, 0⟩

/-- Every element, in the order of `HT_START` and `HT_NEXT`. -/
def elements (t : HashTable α) : List α := t.table.flatten

variable (fns : HashFns α)

/-- The bucket of an element in a table with a number of rows. -/
def bucketIn (len : ℕ) (x : α) : ℕ := (fns.hash x).toNat % len

/-- `HT_BUCKET_NUM_` -/
def bucketNum (t : HashTable α) (x : α) : ℕ := bucketIn fns t.table.length x

/-- The row of an element. -/
def row (t : HashTable α) (x : α) : List α := t.table.getD (t.bucketNum fns x) []

/-- The elements of a table put into one with `newLen` rows, each in front of its row. -/
def rehash (newLen : ℕ) (old : List α) : List (List α) :=
  old.foldl (fun new x => new.set (bucketIn fns newLen x) (x :: new.getD (bucketIn fns newLen x) []))
    (List.replicate newLen [])

/-- `HT_GROW` -/
def grow (t : HashTable α) (size : ℕ) : Option (HashTable α) :=
  if t.nextPrime = htPrimes.length then some t
  else if t.loadLimit > size then some t
  else
    (chooseLength size (htPrimes.drop t.nextPrime) t.nextPrime).map fun (newLen, k) =>
      { t with
        table := rehash fns newLen t.table.flatten
        nextPrime := k
        loadLimit := loadLimitOf newLen }

/-- The table is made longer before an element is added, if it is full. -/
def growIfFull (t : HashTable α) : Option (HashTable α) :=
  if t.table = [] ∨ t.nEntries ≥ t.loadLimit then t.grow fns (t.nEntries + 1) else some t

/-- `HT_FIND` -/
def find (t : HashTable α) (elm : α) : Option α :=
  if t.table = [] then none else (t.row fns elm).find? (fns.eq · elm)

/-- `HT_INSERT` -/
def insert (t : HashTable α) (elm : α) : Option (HashTable α) :=
  (t.growIfFull fns).map fun t =>
    { t with
      nEntries := t.nEntries + 1
      table := t.table.set (t.bucketNum fns elm) (elm :: t.row fns elm) }

/-- `HT_REPLACE`, for an `elm` that is not in the table itself: the element that was replaced. -/
def replace (t : HashTable α) (elm : α) : Option (HashTable α × Option α) :=
  (t.growIfFull fns).map fun t =>
    let chain := t.row fns elm
    match chain.findIdx? (fns.eq · elm) with
    | some i => ({ t with table := t.table.set (t.bucketNum fns elm) (chain.set i elm) }, chain[i]?)
    | none =>
      ({ t with
        nEntries := t.nEntries + 1
        table := t.table.set (t.bucketNum fns elm) (chain ++ [elm]) }, none)

/-- `HT_REMOVE` -/
def remove (t : HashTable α) (elm : α) : HashTable α × Option α :=
  if t.table = [] then (t, none)
  else
    let chain := t.row fns elm
    match chain.findIdx? (fns.eq · elm) with
    | none => (t, none)
    | some i =>
      ({ t with
        nEntries := t.nEntries - 1
        table := t.table.set (t.bucketNum fns elm) (chain.eraseIdx i) }, chain[i]?)

/-! ## The representation invariant -/

/-- The loop of `HT_REP_IS_BAD_` over the rows, from row `i` on: what is wrong, or how many elements
there are. -/
def repRows (len : ℕ) : List (List α) → ℕ → ℕ → Except ℕ ℕ
  | [], _, n => .ok n
  | row :: rows, i, n =>
    if row.all fun x => bucketIn fns len x = i then repRows len rows (i + 1) (n + row.length)
    else .error (10000 + i)

/-- `HT_REP_IS_BAD_` -/
def repIsBad (t : HashTable α) : ℕ :=
  if t.table = [] then
    if t.nEntries = 0 ∧ t.loadLimit = 0 ∧ t.nextPrime = 0 then 0 else 1
  else if t.nextPrime = 0 ∨ t.loadLimit = 0 then 2
  else if t.nEntries > t.loadLimit then 3
  else if htPrimes[t.nextPrime - 1]? ≠ some t.table.length then 4
  else if t.loadLimit ≠ loadLimitOf t.table.length then 5
  else
    match repRows fns t.table.length t.table 0 0 with
    | .error code => code
    | .ok n => if n ≠ t.nEntries then 6 else 0

/-- The invariant of a table: the length is the prime of its number, every element is in its bucket
and no two match. -/
structure Valid (t : HashTable α) : Prop where
  sized : t.table = [] ∧ t.loadLimit = 0 ∧ t.nextPrime = 0
    ∨ ∃ i, htPrimes[i]? = some t.table.length ∧ t.nextPrime = i + 1
      ∧ t.loadLimit = loadLimitOf t.table.length
  placed : Placed (t.bucketNum fns) t.table
  count : t.nEntries = t.elements.length
  le_limit : t.nEntries ≤ t.loadLimit
  distinct : t.elements.Pairwise fun x y => fns.eq x y = false

section Rows

variable {fns : HashFns α} {t : HashTable α} {elm x : α}

theorem valid_init (fns : HashFns α) : Valid fns (init : HashTable α) where
  sized := .inl ⟨rfl, rfl, rfl⟩
  placed b row h := by
    have hnone : ([] : List (List α))[b]? = some row := h
    cases hnone
  count := rfl
  le_limit := le_refl 0
  distinct := List.Pairwise.nil

/-- An element's row is a row of the table. -/
theorem getElem?_bucketNum (fns : HashFns α) (hne : t.table ≠ []) (x : α) :
    t.table[t.bucketNum fns x]? = some (t.row fns x) := by
  have hlt : t.bucketNum fns x < t.table.length :=
    Nat.mod_lt _ (List.length_pos_iff.mpr hne)
  unfold row
  rw [List.getD_eq_getElem?_getD, List.getElem?_eq_getElem hlt]
  rfl

/-- An element that matches is in the row that is searched. -/
theorem Valid.mem_row_of_eq (h : Valid fns t) (hne : t.table ≠ []) (heq : fns.eq x elm = true) :
    x ∈ t.row fns elm ↔ x ∈ t.elements := by
  rw [h.placed.mem_row (getElem?_bucketNum fns hne elm)]
  refine and_iff_left ?_
  unfold bucketNum bucketIn
  rw [fns.hash_eq heq]

theorem Valid.mem_elements_of_mem_row (h : Valid fns t) (hne : t.table ≠ [])
    (hx : x ∈ t.row fns elm) : x ∈ t.elements :=
  ((h.placed.mem_row (getElem?_bucketNum fns hne elm)).mp hx).1

/-- No two elements of a table match. -/
theorem Valid.eq_of_eq (h : Valid fns t) {y : α} (hx : x ∈ t.elements) (hy : y ∈ t.elements)
    (heq : fns.eq x y = true) : x = y := by
  by_contra hne
  have hforall := List.Pairwise.forall_of_forall_of_flip
    (R := fun x y => x = y ∨ fns.eq x y = false) (l := t.elements)
    (fun _ _ => .inl rfl) (h.distinct.imp fun h => .inr h) ?_
  · rcases hforall hx hy with hsame | hfalse
    · exact hne hsame
    · rw [heq] at hfalse
      cases hfalse
  · refine h.distinct.imp ?_
    intro x y hfalse
    right
    cases hback : fns.eq y x with
    | false => rfl
    | true =>
      rw [fns.eq_symm hback] at hfalse
      cases hfalse

theorem Valid.eq_of_matches (h : Valid fns t) {y : α} (hx : x ∈ t.elements) (hy : y ∈ t.elements)
    (hxe : fns.eq x elm = true) (hye : fns.eq y elm = true) : x = y :=
  h.eq_of_eq hx hy (fns.eq_trans hxe (fns.eq_symm hye))

/-- **Search**: what is found is the element of the table that matches. -/
theorem Valid.find_eq_some (h : Valid fns t) :
    t.find fns elm = some x ↔ x ∈ t.elements ∧ fns.eq x elm = true := by
  unfold find
  split_ifs with hempty
  · have hnone : t.elements = [] := by
      unfold elements
      rw [hempty]
      rfl
    rw [hnone]
    simp
  · rw [find?_eq_some_iff_of_unique]
    · constructor
      · rintro ⟨hx, heq⟩
        exact ⟨h.mem_elements_of_mem_row hempty hx, heq⟩
      · rintro ⟨hx, heq⟩
        exact ⟨(h.mem_row_of_eq hempty heq).mpr hx, heq⟩
    · intro y hy z hz hye hze
      exact h.eq_of_matches (h.mem_elements_of_mem_row hempty hy)
        (h.mem_elements_of_mem_row hempty hz) hye hze

theorem Valid.find_eq_none (h : Valid fns t) :
    t.find fns elm = none ↔ ∀ x ∈ t.elements, fns.eq x elm = false := by
  constructor
  · intro hnone x hx
    cases heq : fns.eq x elm with
    | false => rfl
    | true =>
      have := h.find_eq_some.mpr ⟨hx, heq⟩
      rw [hnone] at this
      cases this
  · intro hall
    cases hfind : t.find fns elm with
    | none => rfl
    | some x =>
      obtain ⟨hx, heq⟩ := h.find_eq_some.mp hfind
      rw [hall x hx] at heq
      cases heq

end Rows

/-! ## Growing -/

section Grow

variable {fns : HashFns α} {t : HashTable α}

theorem rehash_spec (fns : HashFns α) {newLen : ℕ} (hpos : 0 < newLen) (old : List α) :
    (rehash fns newLen old).length = newLen ∧ Placed (bucketIn fns newLen) (rehash fns newLen old)
      ∧ (rehash fns newLen old).flatten.Perm old := by
  -- on the front of `old`: everything so far is in its row
  have hloop : ∀ (l : List α) (new : List (List α)), new.length = newLen →
      Placed (bucketIn fns newLen) new →
      (l.foldl (fun new x => new.set (bucketIn fns newLen x)
          (x :: new.getD (bucketIn fns newLen x) [])) new).length = newLen
        ∧ Placed (bucketIn fns newLen) (l.foldl (fun new x => new.set (bucketIn fns newLen x)
          (x :: new.getD (bucketIn fns newLen x) [])) new)
        ∧ (l.foldl (fun new x => new.set (bucketIn fns newLen x)
          (x :: new.getD (bucketIn fns newLen x) [])) new).flatten.Perm (l ++ new.flatten) := by
    intro l
    induction l with
    | nil => intro new hlen hplaced; exact ⟨hlen, hplaced, List.Perm.refl _⟩
    | cons x l ih =>
      intro new hlen hplaced
      have hlt : bucketIn fns newLen x < new.length := by
        rw [hlen]
        exact Nat.mod_lt _ hpos
      have hrow : new[bucketIn fns newLen x]? = some (new.getD (bucketIn fns newLen x) []) := by
        rw [List.getD_eq_getElem?_getD, List.getElem?_eq_getElem hlt]
        rfl
      have hset : Placed (bucketIn fns newLen)
          (new.set (bucketIn fns newLen x) (x :: new.getD (bucketIn fns newLen x) [])) := by
        refine hplaced.set ?_
        intro y hy
        rcases List.mem_cons.mp hy with hy | hy
        · rw [hy]
        · exact hplaced _ _ hrow y hy
      obtain ⟨hlen', hplaced', hperm⟩ := ih _ (List.length_set.trans hlen) hset
      refine ⟨hlen', hplaced', hperm.trans ?_⟩
      refine ((flatten_set_perm_cons hrow (List.Perm.refl _)).append_left l).trans ?_
      exact List.perm_middle
  obtain ⟨hlen, hplaced, hperm⟩ := hloop old (List.replicate newLen []) List.length_replicate
    (placed_replicate _ _)
  refine ⟨hlen, hplaced, ?_⟩
  have hempty : (List.replicate newLen ([] : List α)).flatten = [] := by
    rw [List.flatten_eq_nil_iff]
    intro row hrow
    exact List.eq_of_mem_replicate hrow
  rw [hempty, List.append_nil] at hperm
  exact hperm

/-- The next prime makes room for one more element. -/
theorem chooseLength_next {i len : ℕ} (hi : htPrimes[i]? = some len) (hlast : i + 1 ≠ htPrimes.length) :
    ∃ newLen, htPrimes[i + 1]? = some newLen ∧ loadLimitOf len + 1 < loadLimitOf newLen
      ∧ chooseLength (loadLimitOf len + 1) (htPrimes.drop (i + 1)) (i + 1) = some (newLen, i + 2) := by
  have hlt : i < 23 := by
    have hlen : htPrimes.length = 24 := rfl
    have := (List.getElem?_eq_some_iff.mp hi).1
    omega
  have hall : ∀ i < 23, loadLimitOf (htPrimes.getD i 0) + 1 < loadLimitOf (htPrimes.getD (i + 1) 0) := by
    decide
  have hnew : htPrimes[i + 1]? = some (htPrimes.getD (i + 1) 0) := by
    have hlen : i + 1 < htPrimes.length := by
      show i + 1 < 24
      omega
    rw [List.getD_eq_getElem?_getD, List.getElem?_eq_getElem hlen]
    rfl
  have hroom := hall i hlt
  rw [List.getD_eq_getElem?_getD, hi, Option.getD_some] at hroom
  refine ⟨htPrimes.getD (i + 1) 0, hnew, hroom, ?_⟩
  obtain ⟨hlt', hget⟩ := List.getElem?_eq_some_iff.mp hnew
  rw [List.drop_eq_getElem_cons hlt', hget, chooseLength, if_neg (by omega)]

/-- A table with room for one more element. -/
structure Roomy (fns : HashFns α) (t t' : HashTable α) : Prop where
  valid : Valid fns t'
  perm : t'.elements.Perm t.elements
  nEntries : t'.nEntries = t.nEntries
  nonempty : t'.table ≠ []
  room : t'.nEntries < t'.loadLimit

theorem Valid.roomy_of_rehash (h : Valid fns t) {i newLen : ℕ} (hi : htPrimes[i]? = some newLen)
    (hroom : t.nEntries < loadLimitOf newLen) :
    Roomy fns t { t with
      table := rehash fns newLen t.table.flatten
      nextPrime := i + 1
      loadLimit := loadLimitOf newLen } := by
  have hpos : 0 < newLen := by
    have hall : ∀ len ∈ htPrimes, 0 < len := by decide
    exact hall newLen (List.mem_of_getElem? hi)
  obtain ⟨hlen, hplaced, hperm⟩ := rehash_spec fns hpos t.table.flatten
  refine ⟨⟨.inr ⟨i, ?_, rfl, ?_⟩, ?_, ?_, hroom.le, ?_⟩, hperm, rfl, ?_, hroom⟩
  · dsimp only
    rw [hlen, hi]
  · dsimp only
    rw [hlen]
  · unfold bucketNum
    dsimp only
    rw [hlen]
    exact hplaced
  · exact h.count.trans hperm.length_eq.symm
  · exact hperm.symm.pairwise h.distinct (fun hxy => by
      cases hback : fns.eq _ _ with
      | false => rfl
      | true =>
        rw [fns.eq_symm hback] at hxy
        cases hxy)
  · intro hnil
    have : (rehash fns newLen t.table.flatten).length = 0 := congrArg List.length hnil
    omega

/-- Below `maxEntries`, there is room after `growIfFull`. -/
theorem Valid.growIfFull (h : Valid fns t) (hmax : t.nEntries < maxEntries) :
    ∃ t', t.growIfFull fns = some t' ∧ Roomy fns t t' := by
  unfold HashTable.growIfFull
  rcases h.sized with ⟨hempty, hlimit, hfirst⟩ | ⟨i, hi, hnext, hlimit⟩
  · have hzero : t.nEntries = 0 := by
      have := h.le_limit
      omega
    refine ⟨_, ?_, h.roomy_of_rehash (show htPrimes[0]? = some 53 from rfl) ?_⟩
    · have hsize : t.nEntries + 1 = 1 := by omega
      have hchoose : chooseLength 1 (htPrimes.drop 0) 0 = some (53, 1) := rfl
      rw [if_pos (.inl hempty), hsize]
      unfold grow
      rw [hfirst, if_neg (by decide), if_neg (by omega), hchoose]
      rfl
    · rw [hzero]
      decide
  · by_cases hfull : t.nEntries ≥ t.loadLimit
    · have hn : t.nEntries = loadLimitOf t.table.length := by
        have := h.le_limit
        omega
      have hlast : i + 1 ≠ htPrimes.length := by
        intro hlast
        have hi23 : i = 23 := by
          have hlen : htPrimes.length = 24 := rfl
          omega
        rw [hi23] at hi
        have hlen : t.table.length = 402653189 := (Option.some.inj hi).symm
        rw [hn, hlen] at hmax
        exact lt_irrefl _ hmax
      obtain ⟨newLen, hnew, hroom, hchoose⟩ := chooseLength_next hi hlast
      refine ⟨_, ?_, h.roomy_of_rehash hnew (by omega)⟩
      rw [if_pos (.inr hfull)]
      unfold grow
      rw [hnext, if_neg hlast, if_neg (by omega), hn, hchoose]
      rfl
    · have hne : t.table ≠ [] := by
        intro hnil
        rw [hnil] at hi
        have hall : ∀ len ∈ htPrimes, 0 < len := by decide
        exact absurd (hall 0 (List.mem_of_getElem? hi)) (lt_irrefl 0)
      refine ⟨t, ?_, h, List.Perm.refl _, rfl, hne, not_le.mp hfull⟩
      rw [if_neg (by simp only [hne, hfull, or_self, not_false_eq_true])]

end Grow

/-! ## The operations -/

section Operations

variable {fns : HashFns α} {t : HashTable α} {elm : α}

/-- One row of a table is changed. -/
theorem Valid.setRow (h : Valid fns t) (hne : t.table ≠ []) {chain : List α} {n : ℕ}
    (hrow : ∀ x ∈ chain, t.bucketNum fns x = t.bucketNum fns elm)
    (hcount : n = (t.table.set (t.bucketNum fns elm) chain).flatten.length) (hle : n ≤ t.loadLimit)
    (hdistinct : (t.table.set (t.bucketNum fns elm) chain).flatten.Pairwise
      fun x y => fns.eq x y = false) :
    Valid fns { t with nEntries := n, table := t.table.set (t.bucketNum fns elm) chain } := by
  have hlen : (t.table.set (t.bucketNum fns elm) chain).length = t.table.length := List.length_set
  refine ⟨?_, ?_, hcount, hle, hdistinct⟩
  · rcases h.sized with ⟨hempty, -⟩ | ⟨i, hi, hnext, hlimit⟩
    · exact absurd hempty hne
    · right
      refine ⟨i, ?_, hnext, ?_⟩
      · dsimp only
        rw [hlen]
        exact hi
      · dsimp only
        rw [hlen]
        exact hlimit
  · unfold bucketNum at hrow ⊢
    dsimp only
    rw [List.length_set]
    exact h.placed.set hrow

theorem Valid.bucketNum_of_mem_row (h : Valid fns t) (hne : t.table ≠ []) {x : α}
    (hx : x ∈ t.row fns elm) : t.bucketNum fns x = t.bucketNum fns elm :=
  h.placed _ _ (getElem?_bucketNum fns hne elm) x hx

theorem eq_false_symm (fns : HashFns α) {x y : α} (h : fns.eq x y = false) : fns.eq y x = false := by
  cases hback : fns.eq y x with
  | false => rfl
  | true =>
    rw [fns.eq_symm hback] at h
    cases h

/-- An element that matches none is added to its row. -/
theorem Valid.addRow (h : Valid fns t) (hne : t.table ≠ []) (hroom : t.nEntries < t.loadLimit)
    (hfresh : ∀ x ∈ t.elements, fns.eq x elm = false) {chain : List α}
    (hchain : chain.Perm (elm :: t.row fns elm)) :
    Valid fns { t with
        nEntries := t.nEntries + 1, table := t.table.set (t.bucketNum fns elm) chain }
      ∧ (t.table.set (t.bucketNum fns elm) chain).flatten.Perm (elm :: t.elements) := by
  have hperm : (t.table.set (t.bucketNum fns elm) chain).flatten.Perm (elm :: t.elements) :=
    flatten_set_perm_cons (getElem?_bucketNum fns hne elm) hchain
  refine ⟨h.setRow hne ?_ ?_ hroom ?_, hperm⟩
  · intro x hx
    rcases List.mem_cons.mp (hchain.mem_iff.mp hx) with hx | hx
    · rw [hx]
    · exact h.bucketNum_of_mem_row hne hx
  · rw [hperm.length_eq, List.length_cons, h.count]
  · refine hperm.symm.pairwise ?_ (eq_false_symm fns)
    refine List.pairwise_cons.mpr ⟨?_, h.distinct⟩
    intro x hx
    exact eq_false_symm fns (hfresh x hx)

/-- **Insertion** of an element that matches none. -/
theorem Valid.insert (h : Valid fns t) (hmax : t.nEntries < maxEntries)
    (hfresh : t.find fns elm = none) :
    ∃ t', t.insert fns elm = some t' ∧ Valid fns t' ∧ t'.elements.Perm (elm :: t.elements) := by
  obtain ⟨t₁, hgrow, hroomy⟩ := h.growIfFull hmax
  have hfresh₁ : ∀ x ∈ t₁.elements, fns.eq x elm = false := fun x hx =>
    h.find_eq_none.mp hfresh x (hroomy.perm.mem_iff.mp hx)
  obtain ⟨hvalid, hperm⟩ := hroomy.valid.addRow hroomy.nonempty hroomy.room hfresh₁
    (List.Perm.refl _)
  refine ⟨_, ?_, hvalid, hperm.trans (hroomy.perm.cons elm)⟩
  unfold HashTable.insert
  rw [hgrow]
  rfl

/-- The elements with the one that matches taken away. -/
theorem Valid.perm_cons_filter (h : Valid fns t) {x : α} (hx : x ∈ t.elements)
    (heq : fns.eq x elm = true) :
    t.elements.Perm (x :: t.elements.filter fun y => !fns.eq y elm) := by
  have hsplit := List.filter_append_perm (fun y => fns.eq y elm) t.elements
  have hnodup : t.elements.Nodup := h.distinct.imp fun {a b} hab heq => by
    rw [heq, fns.eq_refl] at hab
    cases hab
  have hone : (t.elements.filter fun y => fns.eq y elm) = [x] := by
    refine List.perm_singleton.mp ?_
    refine (List.perm_ext_iff_of_nodup (hnodup.filter _) (List.nodup_singleton x)).mpr ?_
    intro y
    rw [List.mem_filter, List.mem_singleton]
    constructor
    · rintro ⟨hy, hye⟩
      exact h.eq_of_matches hy hx hye heq
    · intro hy
      rw [hy]
      exact ⟨hx, heq⟩
  rw [hone] at hsplit
  exact hsplit.symm

/-- An element is taken out of its row. -/
theorem Valid.dropRow (h : Valid fns t) (hne : t.table ≠ []) {x : α} {before after : List α}
    (hrow : t.row fns elm = before ++ x :: after) (heq : fns.eq x elm = true) :
    Valid fns { t with
        nEntries := t.nEntries - 1
        table := t.table.set (t.bucketNum fns elm) (before ++ after) }
      ∧ (t.table.set (t.bucketNum fns elm) (before ++ after)).flatten.Perm
        (t.elements.filter fun y => !fns.eq y elm) := by
  have hmem : x ∈ t.row fns elm := by
    rw [hrow]
    exact List.mem_append_right _ List.mem_cons_self
  have hx := h.mem_elements_of_mem_row hne hmem
  have hcons : t.elements.Perm (x :: (t.table.set (t.bucketNum fns elm) (before ++ after)).flatten) := by
    refine flatten_perm_cons_set (getElem?_bucketNum fns hne elm) ?_
    rw [hrow]
    exact List.perm_middle
  have hperm := (hcons.symm.trans (h.perm_cons_filter hx heq)).cons_inv
  refine ⟨h.setRow hne ?_ ?_ ?_ ?_, hperm⟩
  · intro y hy
    refine h.bucketNum_of_mem_row hne ?_
    rw [hrow]
    rcases List.mem_append.mp hy with hy | hy
    · exact List.mem_append_left _ hy
    · exact List.mem_append_right _ (List.mem_cons_of_mem x hy)
  · rw [h.count, hcons.length_eq, List.length_cons]
    rfl
  · exact (Nat.sub_le _ _).trans h.le_limit
  · exact hperm.symm.pairwise (h.distinct.filter _) (eq_false_symm fns)

/-- The row of an element has a match if the table has one. -/
theorem Valid.findIdx?_row (h : Valid fns t) (hne : t.table ≠ []) (elm : α) :
    (t.find fns elm = none ∧ (t.row fns elm).findIdx? (fns.eq · elm) = none)
      ∨ ∃ x before after, t.find fns elm = some x ∧ fns.eq x elm = true
        ∧ t.row fns elm = before ++ x :: after
        ∧ (t.row fns elm).findIdx? (fns.eq · elm) = some before.length := by
  cases hidx : (t.row fns elm).findIdx? (fns.eq · elm) with
  | none =>
    left
    refine ⟨?_, rfl⟩
    unfold find
    rw [if_neg hne, List.find?_eq_none]
    intro x hx
    rw [List.findIdx?_eq_none_iff.mp hidx x hx]
    exact Bool.false_ne_true
  | some i =>
    right
    obtain ⟨x, before, after, hrow, hlen, heq⟩ := exists_split_of_findIdx? hidx
    have hmem : x ∈ t.row fns elm := by
      rw [hrow]
      exact List.mem_append_right _ List.mem_cons_self
    exact ⟨x, before, after, h.find_eq_some.mpr ⟨h.mem_elements_of_mem_row hne hmem, heq⟩, heq,
      hrow, by rw [hlen]⟩

/-- **Removal** of the element that matches. -/
theorem Valid.remove (h : Valid fns t) (elm : α) :
    ∃ t', t.remove fns elm = (t', t.find fns elm) ∧ Valid fns t'
      ∧ t'.elements.Perm (t.elements.filter fun y => !fns.eq y elm) := by
  have hkeep : t.find fns elm = none → t.elements.filter (fun y => !fns.eq y elm) = t.elements := by
    intro hnone
    refine List.filter_eq_self.mpr ?_
    intro x hx
    rw [h.find_eq_none.mp hnone x hx]
    rfl
  unfold HashTable.remove
  by_cases hempty : t.table = []
  · rw [if_pos hempty]
    have hnone : t.find fns elm = none := if_pos hempty
    refine ⟨t, by rw [hnone], h, ?_⟩
    rw [hkeep hnone]
  · rw [if_neg hempty]
    dsimp only
    rcases h.findIdx?_row hempty elm with
      ⟨hnone, hidx⟩ | ⟨x, before, after, hsome, heq, hrow, hidx⟩
    · rw [hidx, hnone]
      refine ⟨t, rfl, h, ?_⟩
      rw [hkeep hnone]
    · obtain ⟨hvalid, hperm⟩ := h.dropRow hempty hrow heq
      rw [hidx]
      dsimp only
      rw [hsome, hrow]
      have herase : (before ++ x :: after).eraseIdx before.length = before ++ after := by
        rw [List.eraseIdx_append_of_length_le (le_refl _), Nat.sub_self]
        rfl
      have hget : (before ++ x :: after)[before.length]? = some x := by
        rw [List.getElem?_append_right (le_refl _), Nat.sub_self]
        rfl
      rw [herase, hget]
      exact ⟨_, rfl, hvalid, hperm⟩

/-- **Replacement**: the element is added, and the one that matched is gone. -/
theorem Valid.replace (h : Valid fns t) (hmax : t.nEntries < maxEntries) (elm : α) :
    ∃ t', t.replace fns elm = some (t', t.find fns elm) ∧ Valid fns t'
      ∧ t'.elements.Perm (elm :: t.elements.filter fun y => !fns.eq y elm) := by
  obtain ⟨t₁, hgrow, hroomy⟩ := h.growIfFull hmax
  have h₁ := hroomy.valid
  have hfilter : (t₁.elements.filter fun y => !fns.eq y elm).Perm
      (t.elements.filter fun y => !fns.eq y elm) := hroomy.perm.filter _
  have hfind : t₁.find fns elm = t.find fns elm := by
    cases hfind : t.find fns elm with
    | none =>
      refine h₁.find_eq_none.mpr ?_
      intro x hx
      exact h.find_eq_none.mp hfind x (hroomy.perm.mem_iff.mp hx)
    | some x =>
      obtain ⟨hx, heq⟩ := h.find_eq_some.mp hfind
      exact h₁.find_eq_some.mpr ⟨hroomy.perm.mem_iff.mpr hx, heq⟩
  unfold HashTable.replace
  rw [hgrow, Option.map_some, ← hfind]
  dsimp only
  rcases h₁.findIdx?_row hroomy.nonempty elm with
    ⟨hnone, hidx⟩ | ⟨x, before, after, hsome, heq, hrow, hidx⟩
  · have hfresh := h₁.find_eq_none.mp hnone
    obtain ⟨hvalid, hperm⟩ := h₁.addRow hroomy.nonempty hroomy.room hfresh
      (List.perm_append_singleton elm (t₁.row fns elm))
    rw [hidx, hnone]
    refine ⟨_, rfl, hvalid, hperm.trans ?_⟩
    have hkeep : t₁.elements.filter (fun y => !fns.eq y elm) = t₁.elements := by
      refine List.filter_eq_self.mpr ?_
      intro x hx
      rw [hfresh x hx]
      rfl
    rw [hkeep] at hfilter
    exact hfilter.cons elm
  · obtain ⟨-, hperm⟩ := h₁.dropRow hroomy.nonempty hrow heq
    have hrowGet := getElem?_bucketNum fns hroomy.nonempty elm
    have hset := set_length_append x elm before after
    have hget : (before ++ x :: after)[before.length]? = some x := by
      rw [List.getElem?_append_right (le_refl _), Nat.sub_self]
      rfl
    -- the new row is the old one without `x`, and `elm` added
    have hadded : (t₁.table.set (t₁.bucketNum fns elm) (before ++ elm :: after)).flatten.Perm
        (elm :: t₁.elements.filter fun y => !fns.eq y elm) := by
      have hdropped : (t₁.table.set (t₁.bucketNum fns elm) (before ++ after))[t₁.bucketNum fns elm]?
          = some (before ++ after) :=
        List.getElem?_set_self (List.getElem?_eq_some_iff.mp hrowGet).1
      have hmiddle : (before ++ elm :: after).Perm (elm :: (before ++ after)) := List.perm_middle
      have hcons := flatten_set_perm_cons hdropped hmiddle
      rw [List.set_set] at hcons
      exact hcons.trans (hperm.cons elm)
    rw [hidx]
    dsimp only
    rw [hsome, hrow, hset, hget]
    refine ⟨_, rfl, ?_, hadded.trans (hfilter.cons elm)⟩
    refine h₁.setRow (n := t₁.nEntries) hroomy.nonempty ?_ ?_ h₁.le_limit ?_
    · intro y hy
      by_cases hye : y = elm
      · rw [hye]
      · refine h₁.bucketNum_of_mem_row hroomy.nonempty ?_
        rw [hrow]
        simp only [List.mem_append, List.mem_cons] at hy ⊢
        tauto
    · rw [hadded.length_eq, List.length_cons, h₁.count,
        (h₁.perm_cons_filter (h₁.find_eq_some.mp hsome).1 heq).length_eq, List.length_cons]
    · refine hadded.symm.pairwise ?_ (eq_false_symm fns)
      refine List.pairwise_cons.mpr ⟨?_, h₁.distinct.filter _⟩
      intro y hy
      have hne := (List.mem_filter.mp hy).2
      rw [Bool.not_eq_true'] at hne
      exact eq_false_symm fns hne

end Operations

/-! ## The source's own check -/

theorem repRows_eq (fns : HashFns α) (len : ℕ) :
    ∀ (rows : List (List α)) (i n : ℕ),
      (∀ b row, rows[b]? = some row → ∀ x ∈ row, bucketIn fns len x = i + b) →
      repRows fns len rows i n = .ok (n + rows.flatten.length) := by
  intro rows
  induction rows with
  | nil => intro i n _; rfl
  | cons row rows ih =>
    intro i n hplaced
    have hhead : (row.all fun x => decide (bucketIn fns len x = i)) = true := by
      rw [List.all_eq_true]
      intro x hx
      exact decide_eq_true (hplaced 0 row rfl x hx)
    unfold repRows
    rw [if_pos hhead, ih]
    · rw [List.flatten_cons, List.length_append, Nat.add_assoc]
    · intro b other hb x hx
      have := hplaced (b + 1) other hb x hx
      omega

/-- **A table that satisfies the invariant passes `HT_REP_IS_BAD_`.** -/
theorem Valid.repIsBad {fns : HashFns α} {t : HashTable α} (h : Valid fns t) :
    t.repIsBad fns = 0 := by
  unfold HashTable.repIsBad
  rcases h.sized with ⟨hempty, hlimit, hfirst⟩ | ⟨i, hi, hnext, hlimit⟩
  · have hzero : t.nEntries = 0 := by
      have := h.le_limit
      omega
    rw [if_pos hempty, if_pos ⟨hzero, hlimit, hfirst⟩]
  · have hall : ∀ len ∈ htPrimes, 0 < len ∧ 0 < loadLimitOf len := by decide
    obtain ⟨hpos, hlimitPos⟩ := hall _ (List.mem_of_getElem? hi)
    have hne : t.table ≠ [] := List.length_pos_iff.mp hpos
    have hprime : htPrimes[t.nextPrime - 1]? = some t.table.length := by
      rw [hnext]
      exact hi
    have hrows := repRows_eq fns t.table.length t.table 0 0 (by
      intro b row hb x hx
      rw [Nat.zero_add]
      exact h.placed b row hb x hx)
    have hcount : 0 + t.table.flatten.length = t.nEntries := by
      rw [Nat.zero_add, h.count]
      rfl
    rw [if_neg hne, if_neg (by omega), if_neg (not_lt.mpr h.le_limit), if_neg (not_not_intro hprime),
      if_neg (not_not_intro hlimit), hrows, hcount]
    exact if_neg (not_not_intro rfl)

end HashTable

end Dittor.Tor
