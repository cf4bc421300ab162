import Dittor.Tor.HashTable

/-!
# Iterators of hash tables

`HT_START`, `HT_NEXT` and `HT_NEXT_RMV`. A loop that starts an iterator and moves it until it is at
the end, taking out some of the elements on its way, sees every element once and leaves the others
(`Valid.walk`).
-/

namespace Dittor.Tor

open Dittor.Lib

namespace HashTable

variable {α : Type*} (fns : HashFns α)

/-! An iterator is a link: the number of a row, and how many elements of it are in front. -/

/-- The loop of `HT_START`, from row `b` on. -/
def firstRow : List (List α) → ℕ → Option (ℕ × ℕ)
  | [], _ => none
  | [] :: rows, b => firstRow rows (b + 1)
  | (_ :: _) :: _, b => some (b, 0)

/-- `HT_START` -/
def start (t : HashTable α) : Option (ℕ × ℕ) := firstRow t.table 0

/-- What an iterator points to. -/
def elementAt (t : HashTable α) (elm : ℕ × ℕ) : Option α := (t.table.getD elm.1 [])[elm.2]?

/-- `HT_NEXT`; `none` where the iterator points to nothing. -/
def next (t : HashTable α) (elm : ℕ × ℕ) : Option (Option (ℕ × ℕ)) :=
  (t.elementAt elm).map fun x =>
    if elm.2 + 1 < (t.table.getD elm.1 []).length then some (elm.1, elm.2 + 1)
    else firstRow (t.table.drop (t.bucketNum fns x + 1)) (t.bucketNum fns x + 1)

/-- `HT_NEXT_RMV` -/
def nextRmv (t : HashTable α) (elm : ℕ × ℕ) : Option (HashTable α × Option (ℕ × ℕ)) :=
  (t.elementAt elm).map fun x =>
    let chain := (t.table.getD elm.1 []).eraseIdx elm.2
    let t' := { t with nEntries := t.nEntries - 1, table := t.table.set elm.1 chain }
    (t', if elm.2 < chain.length then some elm
      else firstRow (t'.table.drop (t'.bucketNum fns x + 1)) (t'.bucketNum fns x + 1))

/-- The loop that is the example of the source: over every element, some of which are removed. The
elements are listed as they come. -/
def walkLoop (rmv : α → Bool) :
    ℕ → HashTable α → Option (ℕ × ℕ) → Option (HashTable α × List α)
  | _, t, none => some (t, [])
  | 0, _, some _ => none
  | fuel + 1, t, some p =>
    (t.elementAt p).bind fun x =>
      if rmv x then
        (t.nextRmv fns p).bind fun (t, p) =>
          (walkLoop rmv fuel t p).map fun (t, seen) => (t, x :: seen)
      else
        (t.next fns p).bind fun p =>
          (walkLoop rmv fuel t p).map fun (t, seen) => (t, x :: seen)

theorem walkLoop_succ (rmv : α → Bool) (fuel : ℕ) (t : HashTable α) (p : ℕ × ℕ) :
    walkLoop fns rmv (fuel + 1) t (some p) = (t.elementAt p).bind fun x =>
      if rmv x then
        (t.nextRmv fns p).bind fun (t, p) =>
          (walkLoop fns rmv fuel t p).map fun (t, seen) => (t, x :: seen)
      else
        (t.next fns p).bind fun p =>
          (walkLoop fns rmv fuel t p).map fun (t, seen) => (t, x :: seen) :=
  rfl

/-- The loop from the start. -/
def walk (t : HashTable α) (rmv : α → Bool) : Option (HashTable α × List α) :=
  walkLoop fns rmv t.nEntries t t.start

section Walks

variable {fns : HashFns α} {t : HashTable α}

/-- The elements from an iterator on. -/
def remaining (t : HashTable α) : Option (ℕ × ℕ) → List α
  | none => []
  | some (b, i) => (t.table.getD b []).drop i ++ (t.table.drop (b + 1)).flatten

theorem remaining_some (t : HashTable α) (b i : ℕ) :
    t.remaining (some (b, i)) = (t.table.getD b []).drop i ++ (t.table.drop (b + 1)).flatten :=
  rfl

/-- An iterator points to an element unless it is at the end. -/
def Points (t : HashTable α) (elm : Option (ℕ × ℕ)) : Prop :=
  ∀ p ∈ elm, ∃ x, t.elementAt p = some x

theorem firstRow_spec (t : HashTable α) :
    ∀ (rows : List (List α)) (b : ℕ), t.table.drop b = rows →
      t.remaining (firstRow rows b) = rows.flatten ∧ t.Points (firstRow rows b) := by
  intro rows
  induction rows with
  | nil =>
    intro b _
    refine ⟨rfl, ?_⟩
    intro p hp
    cases hp
  | cons row rows ih =>
    intro b hdrop
    have hget : t.table[b]? = some row := by
      have := congrArg (·[0]?) hdrop
      simpa using this
    have hrest : t.table.drop (b + 1) = rows := by
      rw [← List.drop_drop, hdrop]
      rfl
    cases row with
    | nil =>
      unfold firstRow
      rw [List.flatten_cons, List.nil_append]
      exact ih (b + 1) hrest
    | cons x row =>
      have hrow : t.table.getD b [] = x :: row := by
        rw [List.getD_eq_getElem?_getD, hget]
        rfl
      unfold firstRow
      refine ⟨?_, ?_⟩
      · rw [remaining_some, hrow, hrest]
        rfl
      · intro p hp
        cases hp
        refine ⟨x, ?_⟩
        unfold elementAt
        rw [hrow]
        rfl

theorem start_spec (t : HashTable α) :
    t.remaining t.start = t.elements ∧ t.Points t.start :=
  firstRow_spec t t.table 0 rfl

/-- The row an iterator is in. -/
theorem elementAt_eq_some {b i : ℕ} {x : α} (h : t.elementAt (b, i) = some x) :
    ∃ row, t.table[b]? = some row ∧ t.table.getD b [] = row ∧ row[i]? = some x
      ∧ t.remaining (some (b, i)) = x :: (row.drop (i + 1) ++ (t.table.drop (b + 1)).flatten) := by
  unfold elementAt at h
  dsimp only at h
  cases hget : t.table[b]? with
  | none =>
    rw [List.getD_eq_getElem?_getD, hget] at h
    cases h
  | some row =>
    have hrow : t.table.getD b [] = row := by
      rw [List.getD_eq_getElem?_getD, hget]
      rfl
    rw [hrow] at h
    obtain ⟨hlt, hx⟩ := List.getElem?_eq_some_iff.mp h
    refine ⟨row, rfl, hrow, h, ?_⟩
    rw [remaining_some, hrow, List.drop_eq_getElem_cons hlt, hx, List.cons_append]

theorem Valid.bucketNum_of_elementAt (h : Valid fns t) {b i : ℕ} {x : α}
    (hx : t.elementAt (b, i) = some x) : t.bucketNum fns x = b := by
  obtain ⟨row, hget, -, hmem, -⟩ := elementAt_eq_some hx
  exact h.placed b row hget x (List.mem_of_getElem? hmem)

/-- `HT_NEXT` moves to the rest. -/
theorem Valid.next (h : Valid fns t) {p : ℕ × ℕ} {x : α} (hx : t.elementAt p = some x) :
    ∃ p', t.next fns p = some p' ∧ t.remaining (some p) = x :: t.remaining p' ∧ t.Points p' := by
  obtain ⟨b, i⟩ := p
  obtain ⟨row, hget, hrow, hi, hremaining⟩ := elementAt_eq_some hx
  unfold HashTable.next
  rw [hx, Option.map_some, h.bucketNum_of_elementAt hx, hrow, hremaining]
  refine ⟨_, rfl, ?_⟩
  dsimp only
  split_ifs with hmore
  · refine ⟨?_, ?_⟩
    · rw [remaining_some, hrow]
    · intro p hp
      cases hp
      refine ⟨row[i + 1], ?_⟩
      unfold elementAt
      dsimp only
      rw [hrow, List.getElem?_eq_getElem hmore]
  · obtain ⟨heq, hpoints⟩ := firstRow_spec t _ (b + 1) rfl
    rw [heq, List.drop_eq_nil_of_le (not_lt.mp hmore)]
    exact ⟨rfl, hpoints⟩

/-- With an element of a row gone, the iterator is where the rest begins. -/
theorem remaining_eraseIdx {t' : HashTable α} {b i : ℕ} {row : List α} (hb : b < t.table.length)
    (htable : t'.table = t.table.set b (row.eraseIdx i)) (hlt : i < row.length)
    {p : Option (ℕ × ℕ)} (hp : p = if i < (row.eraseIdx i).length then some (b, i)
      else firstRow (t'.table.drop (b + 1)) (b + 1)) :
    t'.remaining p = row.drop (i + 1) ++ (t.table.drop (b + 1)).flatten ∧ t'.Points p := by
  have hdrop : t'.table.drop (b + 1) = t.table.drop (b + 1) := by
    rw [htable]
    exact List.drop_set_of_lt (Nat.lt_succ_self b)
  have hrow : t'.table.getD b [] = row.eraseIdx i := by
    rw [htable, List.getD_eq_getElem?_getD, List.getElem?_set_self hb]
    rfl
  have htake : (row.take i).length = i := by
    rw [List.length_take]
    omega
  have hafter : (row.eraseIdx i).drop i = row.drop (i + 1) := by
    rw [List.eraseIdx_eq_take_drop_succ, List.drop_append_of_le_length htake.ge,
      List.drop_eq_nil_of_le htake.le, List.nil_append]
  split_ifs at hp with hmore
  · rw [hp]
    refine ⟨?_, ?_⟩
    · rw [remaining_some, hrow, hdrop, hafter]
    · intro q hq
      cases hq
      refine ⟨(row.eraseIdx i)[i], ?_⟩
      unfold elementAt
      dsimp only
      rw [hrow, List.getElem?_eq_getElem hmore]
  · obtain ⟨heq, hpoints⟩ := firstRow_spec t' _ (b + 1) rfl
    rw [hp]
    refine ⟨?_, hpoints⟩
    rw [heq, hdrop, ← hafter, List.drop_eq_nil_of_le (not_lt.mp hmore), List.nil_append]

/-- `HT_NEXT_RMV` takes the element out and moves to the rest. -/
theorem Valid.nextRmv (h : Valid fns t) {p : ℕ × ℕ} {x : α} (hx : t.elementAt p = some x)
    {kept rest : List α} (hsplit : t.elements = kept ++ t.remaining (some p))
    (hrest : t.remaining (some p) = x :: rest) :
    ∃ t' p', t.nextRmv fns p = some (t', p') ∧ Valid fns t' ∧ t'.elements = kept ++ rest
      ∧ t'.remaining p' = rest ∧ t'.Points p' := by
  obtain ⟨b, i⟩ := p
  obtain ⟨row, hget, hrow, hi, hremaining⟩ := elementAt_eq_some hx
  obtain ⟨hlt, hxi⟩ := List.getElem?_eq_some_iff.mp hi
  have hb : b < t.table.length := (List.getElem?_eq_some_iff.mp hget).1
  have hbucket := h.bucketNum_of_elementAt hx
  have hne : t.table ≠ [] := by
    intro hnil
    rw [hnil] at hb
    exact Nat.not_lt_zero _ hb
  have htail : rest = row.drop (i + 1) ++ (t.table.drop (b + 1)).flatten := by
    rw [hremaining] at hrest
    exact (List.cons.inj hrest).2.symm
  have herase : row.eraseIdx i = row.take i ++ row.drop (i + 1) :=
    List.eraseIdx_eq_take_drop_succ row i
  have hrowSplit : row = row.take i ++ x :: row.drop (i + 1) := by
    rw [← hxi, ← List.drop_eq_getElem_cons hlt, List.take_append_drop]
  have hkept : kept = (t.table.take b).flatten ++ row.take i := by
    have hall : t.elements = ((t.table.take b).flatten ++ row.take i) ++ (x :: rest) := by
      unfold elements
      rw [flatten_split hget, htail]
      conv_lhs => rw [hrowSplit]
      simp only [List.append_assoc, List.cons_append]
    rw [hrest, hall] at hsplit
    exact (List.append_cancel_right hsplit).symm
  have helements : (t.table.set b (row.eraseIdx i)).flatten = kept ++ rest := by
    rw [flatten_set hget, herase, hkept, htail]
    simp only [List.append_assoc]
  have hrowOf : t.row fns x = row.take i ++ x :: row.drop (i + 1) := by
    unfold HashTable.row
    rw [hbucket, hrow]
    exact hrowSplit
  have hvalid := (h.dropRow hne hrowOf (fns.eq_refl x)).1
  rw [hbucket, ← herase] at hvalid
  obtain ⟨t', ht'⟩ : ∃ t' : HashTable α, t' = { t with
      nEntries := t.nEntries - 1, table := t.table.set b (row.eraseIdx i) } := ⟨_, rfl⟩
  have htable : t'.table = t.table.set b (row.eraseIdx i) := by rw [ht']
  have hbucket' : t'.bucketNum fns x = b := by
    unfold bucketNum at hbucket ⊢
    rw [htable, List.length_set]
    exact hbucket
  unfold HashTable.nextRmv
  rw [hx, Option.map_some]
  dsimp only
  have helements' : t'.elements = kept ++ rest := by
    unfold elements
    rw [htable]
    exact helements
  rw [hrow, ← ht', hbucket']
  refine ⟨t', _, rfl, ht' ▸ hvalid, helements', ?_⟩
  rw [htail]
  exact remaining_eraseIdx hb htable hlt (by rw [htable])

theorem Valid.walkLoop {rmv : α → Bool} :
    ∀ (rest : List α) (t : HashTable α) (p : Option (ℕ × ℕ)) (kept : List α), Valid fns t →
      t.elements = kept ++ t.remaining p → t.remaining p = rest → t.Points p →
      ∃ t', walkLoop fns rmv rest.length t p = some (t', rest) ∧ Valid fns t'
        ∧ t'.elements = kept ++ rest.filter fun x => !rmv x := by
  intro rest
  induction rest with
  | nil =>
    intro t p kept h hsplit hrest hpoints
    cases p with
    | none =>
      refine ⟨t, rfl, h, ?_⟩
      rw [hsplit, hrest]
      rfl
    | some p =>
      obtain ⟨x, hx⟩ := hpoints p rfl
      obtain ⟨row, -, -, -, hremaining⟩ := elementAt_eq_some hx
      rw [hremaining] at hrest
      cases hrest
  | cons x rest ih =>
    intro t p kept h hsplit hrest hpoints
    cases p with
    | none => cases hrest
    | some p =>
      obtain ⟨y, hy⟩ := hpoints p rfl
      have hxy : y = x := by
        obtain ⟨row, -, -, -, hremaining⟩ := elementAt_eq_some hy
        rw [hremaining] at hrest
        exact (List.cons.inj hrest).1
      rw [hxy] at hy
      rw [List.length_cons, walkLoop_succ, hy, Option.bind_some]
      by_cases hrmv : rmv x = true
      · obtain ⟨t₁, p₁, heq, h₁, hsplit₁, hrest₁, hpoints₁⟩ := h.nextRmv hy hsplit hrest
        rw [← hrest₁] at hsplit₁
        obtain ⟨t', hloop, hvalid, helements⟩ := ih t₁ p₁ kept h₁ hsplit₁ hrest₁ hpoints₁
        rw [if_pos hrmv, heq, Option.bind_some]
        dsimp only
        rw [hloop]
        refine ⟨t', rfl, hvalid, ?_⟩
        rw [List.filter_cons_of_neg (by simp [hrmv]), helements]
      · obtain ⟨p₁, heq, hcons, hpoints₁⟩ := h.next hy
        have hrest₁ : t.remaining p₁ = rest := by
          rw [hcons] at hrest
          exact (List.cons.inj hrest).2
        have hsplit₁ : t.elements = (kept ++ [x]) ++ t.remaining p₁ := by
          rw [hsplit, hcons, List.append_assoc]
          rfl
        obtain ⟨t', hloop, hvalid, helements⟩ := ih t p₁ _ h hsplit₁ hrest₁ hpoints₁
        rw [if_neg hrmv, heq, Option.bind_some, hloop]
        refine ⟨t', rfl, hvalid, ?_⟩
        rw [List.filter_cons_of_pos (by simp [hrmv]), helements, List.append_assoc]
        rfl

/-- **A walk sees every element once** and leaves those that are not to be removed. -/
theorem Valid.walk (h : Valid fns t) (rmv : α → Bool) :
    ∃ t', t.walk fns rmv = some (t', t.elements) ∧ Valid fns t'
      ∧ t'.elements = t.elements.filter fun x => !rmv x := by
  obtain ⟨hstart, hpoints⟩ := start_spec t
  unfold HashTable.walk
  rw [h.count]
  exact Valid.walkLoop t.elements t t.start [] h (by rw [hstart, List.nil_append]) hstart hpoints

end Walks

end HashTable

end Dittor.Tor
