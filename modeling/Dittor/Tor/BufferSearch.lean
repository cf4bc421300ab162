import Dittor.Tor.BufferRuns
import Dittor.Lib.Occurrence

/-!
# Searching a buffer (`lib/buf/buffers.c`)

`buf_find_string_offset` goes through the chunks with a position: the current
chunk, a place in it, and the length of the chunks before. It looks for the
first character, compares from there on, and moves by one character where the
comparison fails. Both the comparison and the next search may pass from one
chunk to the next.

`BufPos.view` is what is left of the queue from a position on. In a buffer
without empty chunks every function on positions is a function of the view, and
the search finds the first occurrence (`Buf.findStringOffset_spec`).

An empty chunk is not passed: `buf_pos_inc` stops at its first byte, which was
never written, and the comparison reads it (`findStringOffset_reads_unwritten`).
A read from a socket that would block leaves such a chunk at the end.
-/

namespace Dittor.Tor

open Dittor.Lib

/-- `buf_pos_t`: the chunks from the current one on, `pos` and `chunk_pos`. -/
structure BufPos where
  chunks : List Chunk
  pos : ℕ
  chunkPos : ℕ

/-- The loop of `buf_find_pos_of_char`. -/
def findPosLoop (ch : UInt8) : List Chunk → ℕ → ℕ → Option BufPos
  | [], _, _ => none
  | chunk :: rest, pos, chunkPos =>
    match (chunk.bytes.drop pos).findIdx? (· = ch) with
    | some k => some ⟨chunk :: rest, pos + k, chunkPos⟩
    | none => findPosLoop ch rest 0 (chunkPos + chunk.datalen)

namespace BufPos

/-- The assertions of `buf_find_pos_of_char` on the position it starts from. -/
def assertOk (out : BufPos) : Bool :=
  match out.chunks with
  | [] => true
  | chunk :: _ => if chunk.datalen ≠ 0 then out.pos < chunk.datalen else out.pos = 0

/-- `buf_find_pos_of_char`: `none` when an assertion fails, `some none` for -1. -/
def findPosOfChar (ch : UInt8) (out : BufPos) : Option (Option BufPos) :=
  if out.assertOk then some (findPosLoop ch out.chunks out.pos out.chunkPos) else none

/-- `buf_pos_inc`: `some none` for -1, at the end of the buffer. -/
def inc (p : BufPos) : Option (Option BufPos) :=
  match p.chunks with
  | [] => none
  | chunk :: rest =>
    if bufMaxLen ≤ p.pos then none
    else if p.pos + 1 = chunk.datalen then
      if rest = [] then some none else some (some ⟨rest, 0, p.chunkPos + chunk.datalen⟩)
    else some (some { p with pos := p.pos + 1 })

/-- `p.chunk->data[p.pos]`; behind the memory there are the sentinel's zeros. -/
def read (p : BufPos) : UInt8 :=
  match p.chunks with
  | [] => 0
  | chunk :: _ => (chunk.mem[chunk.data + p.pos]?).getD 0

end BufPos

/-- `buf_matches_at_pos` -/
def matchesAtPos : List UInt8 → BufPos → Option Bool
  | [], _ => some true
  | ch :: s, p =>
    if p.read ≠ ch then some false
    else if s = [] then some true
    else p.inc.bind fun next =>
      match next with
      | none => some false
      | some p => matchesAtPos s p

/-- The loop of `buf_find_string_offset`. It moves on by at least one character in each round. -/
def findStringLoop (s : List UInt8) : ℕ → BufPos → Option (Option ℕ)
  | 0, _ => none
  | fuel + 1, pos =>
    (pos.findPosOfChar (s.headD 0)).bind fun found =>
      match found with
      | none => some none
      | some pos =>
        (matchesAtPos s pos).bind fun isMatch =>
          if isMatch then
            if pos.chunkPos + pos.pos ≤ bufMaxLen then some (some (pos.chunkPos + pos.pos))
            else none
          else pos.inc.bind fun next =>
            match next with
            | none => some none
            | some pos => findStringLoop s fuel pos

/-- `buf_find_string_offset`: `some none` for -1. -/
def Buf.findStringOffset (b : Buf) (s : List UInt8) : Option (Option ℕ) :=
  findStringLoop s (b.datalen + 1) ⟨b.chunks, 0, 0⟩

/-! ## Positions in a buffer without empty chunks -/

namespace BufPos

/-- What is left of the queue. -/
def view (p : BufPos) : List UInt8 :=
  match p.chunks with
  | [] => []
  | chunk :: rest => chunk.bytes.drop p.pos ++ rest.flatMap Chunk.bytes

/-- The place in the queue. -/
def index (p : BufPos) : ℕ := p.chunkPos + p.pos

/-- At the start of a chunk. -/
theorem view_start (chunks : List Chunk) (n : ℕ) :
    view ⟨chunks, 0, n⟩ = chunks.flatMap Chunk.bytes := by
  cases chunks with
  | nil => rfl
  | cons chunk rest => rfl

/-- The chunks are sound and hold bytes, and the position is at one of them. -/
structure Valid (p : BufPos) : Prop where
  ok : ∀ c ∈ p.chunks, c.Ok ∧ 0 < c.datalen
  pos : ∀ c ∈ p.chunks.head?, p.pos < c.datalen
  bound : p.index + p.view.length ≤ bufMaxLen

variable {p : BufPos} {s : List UInt8}

theorem Valid.assertOk (h : p.Valid) : p.assertOk = true := by
  unfold BufPos.assertOk
  split
  · rfl
  next chunk rest hchunks =>
    have hpos := h.pos chunk (by rw [hchunks]; rfl)
    rw [if_pos (by omega)]
    exact decide_eq_true hpos

/-- A position at a byte. -/
theorem Valid.view_eq (h : p.Valid) {chunk : Chunk} {rest : List Chunk}
    (hchunks : p.chunks = chunk :: rest) :
    p.view = p.read :: (chunk.bytes.drop (p.pos + 1) ++ rest.flatMap Chunk.bytes) := by
  have hok := (h.ok chunk (by rw [hchunks]; exact List.mem_cons_self)).1
  have hpos := h.pos chunk (by rw [hchunks]; rfl)
  have hlt : p.pos < chunk.bytes.length := by
    rw [hok.length_bytes]
    exact hpos
  have hread : chunk.bytes[p.pos]? = chunk.mem[chunk.data + p.pos]? := by
    unfold Chunk.bytes
    rw [List.getElem?_take_of_lt hpos, List.getElem?_drop]
  unfold view read
  rw [hchunks]
  dsimp only
  rw [← hread, List.getElem?_eq_getElem hlt, Option.getD_some, List.drop_eq_getElem_cons hlt,
    List.cons_append]

/-- On to the next chunk. -/
theorem Valid.next {chunk : Chunk} {rest : List Chunk} {pos n : ℕ}
    (h : Valid ⟨chunk :: rest, pos, n⟩) : Valid ⟨rest, 0, n + chunk.datalen⟩ := by
  have hok := h.ok chunk List.mem_cons_self
  have hpos : pos < chunk.datalen := h.pos chunk rfl
  have hbound : n + pos + (chunk.bytes.drop pos ++ rest.flatMap Chunk.bytes).length ≤ bufMaxLen :=
    h.bound
  rw [List.length_append, List.length_drop, hok.1.length_bytes] at hbound
  refine ⟨fun c hc => h.ok c (List.mem_cons_of_mem _ hc), ?_, ?_⟩
  · intro c hc
    exact (h.ok c (List.mem_cons_of_mem _ (List.mem_of_mem_head? hc))).2
  · show n + chunk.datalen + 0 + _ ≤ bufMaxLen
    rw [view_start]
    omega

/-- On in the same chunk. -/
theorem Valid.forward {chunk : Chunk} {rest : List Chunk} {pos n k : ℕ}
    (h : Valid ⟨chunk :: rest, pos, n⟩) (hk : pos + k < chunk.datalen) :
    Valid ⟨chunk :: rest, pos + k, n⟩
      ∧ view ⟨chunk :: rest, pos + k, n⟩ = (view ⟨chunk :: rest, pos, n⟩).drop k := by
  have hok := h.ok chunk List.mem_cons_self
  have hbound : n + pos + (chunk.bytes.drop pos ++ rest.flatMap Chunk.bytes).length ≤ bufMaxLen :=
    h.bound
  rw [List.length_append, List.length_drop, hok.1.length_bytes] at hbound
  refine ⟨⟨h.ok, ?_, ?_⟩, ?_⟩
  · intro c hc
    rw [← Option.some.inj hc]
    exact hk
  · show n + (pos + k) + (chunk.bytes.drop (pos + k) ++ rest.flatMap Chunk.bytes).length ≤ bufMaxLen
    rw [List.length_append, List.length_drop, hok.1.length_bytes]
    omega
  · show chunk.bytes.drop (pos + k) ++ _ = (chunk.bytes.drop pos ++ _).drop k
    rw [List.drop_append_of_le_length, List.drop_drop]
    rw [List.length_drop, hok.1.length_bytes]
    omega

/-- `buf_pos_inc` drops a byte. -/
theorem Valid.inc (h : p.Valid) {x : UInt8} {l : List UInt8} (hview : p.view = x :: l) :
    (l = [] ∧ p.inc = some none)
      ∨ ∃ p', p.inc = some (some p') ∧ p'.Valid ∧ p'.view = l ∧ l ≠ []
          ∧ p'.index = p.index + 1 := by
  obtain ⟨chunks, pos, chunkPos⟩ := p
  cases chunks with
  | nil => exact absurd hview (by simp [view])
  | cons chunk rest =>
    have hok := h.ok chunk List.mem_cons_self
    have hpos : pos < chunk.datalen := h.pos chunk rfl
    have hmax : ¬ bufMaxLen ≤ pos := by
      have hbound := h.bound
      rw [hview, List.length_cons] at hbound
      have : pos ≤ (⟨chunk :: rest, pos, chunkPos⟩ : BufPos).index := Nat.le_add_left ..
      omega
    rw [h.view_eq rfl] at hview
    obtain ⟨-, rfl⟩ := List.cons.inj hview
    unfold BufPos.inc
    dsimp only
    rw [if_neg hmax]
    split
    next hend =>
      have hnil : chunk.bytes.drop (pos + 1) = [] := by
        apply List.drop_of_length_le
        rw [hok.1.length_bytes, hend]
      cases rest with
      | nil => exact .inl ⟨by rw [hnil]; rfl, if_pos rfl⟩
      | cons chunk' rest =>
        rw [hnil, List.nil_append]
        refine .inr ⟨_, if_neg (List.cons_ne_nil _ _), h.next, view_start .., ?_, ?_⟩
        · rw [← view_start, h.next.view_eq rfl]
          exact List.cons_ne_nil _ _
        · show chunkPos + chunk.datalen + 0 = chunkPos + pos + 1
          omega
    next hmore =>
      obtain ⟨hvalid, -⟩ := h.forward (k := 1) (by omega)
      refine .inr ⟨_, rfl, hvalid, rfl, ?_, rfl⟩
      have hview' := hvalid.view_eq rfl
      intro hnil
      rw [show view _ = chunk.bytes.drop (pos + 1) ++ rest.flatMap Chunk.bytes from rfl,
        hnil] at hview'
      exact List.cons_ne_nil _ _ hview'.symm

/-- The loop finds the first place with the character, or the end. -/
theorem findPosLoop_spec (ch : UInt8) {chunks : List Chunk} {pos n : ℕ}
    (h : Valid ⟨chunks, pos, n⟩) :
    match (view ⟨chunks, pos, n⟩).findIdx? (· = ch) with
    | none => findPosLoop ch chunks pos n = none
    | some k => ∃ p', findPosLoop ch chunks pos n = some p' ∧ p'.Valid
        ∧ p'.view = (view ⟨chunks, pos, n⟩).drop k ∧ p'.index = n + pos + k := by
  induction chunks generalizing pos n with
  | nil => rfl
  | cons chunk rest ih =>
    have hok := h.ok chunk List.mem_cons_self
    have hpos : pos < chunk.datalen := h.pos chunk rfl
    have hview : view ⟨chunk :: rest, pos, n⟩
        = chunk.bytes.drop pos ++ view ⟨rest, 0, n + chunk.datalen⟩ := by
      rw [view_start]
      rfl
    have hlen : (chunk.bytes.drop pos).length = chunk.datalen - pos := by
      rw [List.length_drop, hok.1.length_bytes]
    have hrest := ih h.next
    rw [hview, List.findIdx?_append]
    unfold findPosLoop
    cases hk : (chunk.bytes.drop pos).findIdx? (· = ch) with
    | some k =>
      obtain ⟨hlt, -⟩ := List.findIdx?_eq_some_iff_getElem.mp hk
      obtain ⟨hvalid, hview'⟩ := h.forward (k := k) (by omega)
      exact ⟨_, rfl, hvalid, by rw [hview', hview], (Nat.add_assoc ..).symm⟩
    | none =>
      -- the whole rest of the chunk is passed
      rw [Option.none_or]
      cases hj : (view ⟨rest, 0, n + chunk.datalen⟩).findIdx? (· = ch) with
      | none =>
        rw [hj] at hrest
        exact hrest
      | some j =>
        rw [hj] at hrest
        obtain ⟨p', hp', hvalid, hview', hindex⟩ := hrest
        refine ⟨p', hp', hvalid, ?_, ?_⟩
        · show _ = List.drop (j + (chunk.bytes.drop pos).length) _
          rw [hview', Nat.add_comm j, List.drop_length_add_append]
        · show p'.index = n + pos + (j + (chunk.bytes.drop pos).length)
          rw [hindex, hlen]
          omega

/-- The comparison is one with what is left. -/
theorem matchesAtPos_spec (h : p.Valid) (hne : p.view ≠ []) :
    matchesAtPos s p = some (decide (s <+: p.view)) := by
  induction s generalizing p with
  | nil =>
    rw [decide_eq_true List.nil_prefix]
    rfl
  | cons ch s ih =>
    obtain ⟨x, l, hview⟩ := List.exists_cons_of_ne_nil hne
    have hread : p.read = x := by
      cases hchunks : p.chunks with
      | nil =>
        unfold view at hne
        rw [hchunks] at hne
        exact absurd rfl hne
      | cons chunk rest =>
        rw [h.view_eq hchunks] at hview
        exact (List.cons.inj hview).1
    unfold matchesAtPos
    rw [hread, hview]
    split
    next hx => rw [decide_eq_false fun hpre => hx (List.cons_prefix_cons.mp hpre).1.symm]
    next hx =>
      rw [not_not] at hx
      subst hx
      split
      next hs =>
        subst hs
        rw [decide_eq_true (List.cons_prefix_cons.mpr ⟨rfl, List.nil_prefix⟩)]
      next hs =>
        obtain ⟨rfl, hinc⟩ | ⟨p', hinc, hvalid, rfl, hl, -⟩ := h.inc hview
        · rw [hinc, Option.bind_some, decide_eq_false]
          intro hpre
          exact hs (List.prefix_nil.mp (List.cons_prefix_cons.mp hpre).2)
        · rw [hinc, Option.bind_some]
          dsimp only
          rw [ih hvalid hl]
          congr 1
          rw [decide_eq_decide, List.cons_prefix_cons]
          exact ⟨fun hpre => ⟨rfl, hpre⟩, fun hpre => hpre.2⟩

/-- The search from a position on. -/
theorem findStringLoop_spec (hs : s ≠ []) {fuel : ℕ} (h : p.Valid) (hfuel : p.view.length < fuel) :
    ∃ r, findStringLoop s fuel p = some (r.map (· + p.index)) ∧ FirstOccurrence s p.view r := by
  induction fuel generalizing p with
  | zero => exact absurd hfuel (Nat.not_lt_zero _)
  | succ fuel ih =>
    have hhead : ∀ y ∈ s.head?, decide (y = s.headD 0) = true := by
      intro y hy
      rw [List.headD_eq_head?_getD, hy]
      exact decide_eq_true rfl
    have hfind := findPosLoop_spec (s.headD 0) h
    unfold findStringLoop findPosOfChar
    rw [if_pos h.assertOk, Option.bind_some]
    cases hk : p.view.findIdx? (· = s.headD 0) with
    | none =>
      rw [show view ⟨p.chunks, p.pos, p.chunkPos⟩ = p.view from rfl, hk] at hfind
      rw [hfind]
      exact ⟨none, rfl, .absent hs hhead hk⟩
    | some k =>
      rw [show view ⟨p.chunks, p.pos, p.chunkPos⟩ = p.view from rfl, hk] at hfind
      obtain ⟨p', hp', hvalid, hview, hindex⟩ := hfind
      have hlt := (List.findIdx?_eq_some_iff_getElem.mp hk).1
      have hlen : p'.view.length = p.view.length - k := by rw [hview, List.length_drop]
      have hne : p'.view ≠ [] := by
        intro hnil
        rw [hnil] at hlen
        exact absurd hlen (by simp only [List.length_nil]; omega)
      have hpindex : p.index = p.chunkPos + p.pos := rfl
      have hbound := hvalid.bound
      have hindex' : p'.chunkPos + p'.pos = p'.index := rfl
      rw [hp']
      dsimp only
      rw [matchesAtPos_spec hvalid hne, Option.bind_some, hindex']
      by_cases hpre : s <+: p'.view
      · rw [if_pos (decide_eq_true hpre), if_pos (by omega)]
        refine ⟨some k, ?_, ?_⟩
        · rw [hindex, ← hpindex, Option.map_some, Nat.add_comm]
        · have hocc := FirstOccurrence.of_findIdx hs hhead hk (.here (hview ▸ hpre))
          rw [Option.map_some, Nat.zero_add] at hocc
          exact hocc
      · rw [if_neg (by rw [decide_eq_true_iff]; exact hpre)]
        obtain ⟨x, l, hcons⟩ := List.exists_cons_of_ne_nil hne
        rw [hcons] at hpre
        obtain ⟨hl, hinc⟩ | ⟨p'', hinc, hvalid', hl, -, hindex''⟩ := hvalid.inc hcons
        · rw [hinc, Option.bind_some]
          refine ⟨none, rfl, .of_findIdx hs hhead hk (r := none) ?_⟩
          rw [← hview, hcons]
          refine .cons hpre (r := none) ?_
          intro j hj
          rw [hl, List.drop_nil] at hj
          exact hs (List.prefix_nil.mp hj)
        · have hshort : p''.view.length < fuel := by
            rw [hcons, ← hl, List.length_cons] at hlen
            omega
          obtain ⟨r, hr, hocc⟩ := ih hvalid' hshort
          rw [hinc, Option.bind_some]
          dsimp only
          rw [hr]
          refine ⟨(r.map (· + 1)).map (· + k), ?_, ?_⟩
          · rw [Option.map_map, Option.map_map]
            congr 2
            funext j
            show j + p''.index = j + 1 + k + p.index
            omega
          · refine .of_findIdx hs hhead hk ?_
            rw [← hview, hcons, ← hl]
            exact .cons (hl ▸ hpre) hocc

end BufPos

/-- In a buffer without empty chunks the search gives the first occurrence. -/
theorem Buf.findStringOffset_spec {b : Buf} {s : List UInt8} (hb : b.Sound) (hd : b.Dense)
    (hmax : b.datalen ≤ bufMaxLen) (hs : s ≠ []) :
    ∃ r, b.findStringOffset s = some r ∧ FirstOccurrence s b.contents r := by
  have hview : BufPos.view ⟨b.chunks, 0, 0⟩ = b.contents := BufPos.view_start ..
  have hlen := hb.length_contents
  have hvalid : BufPos.Valid ⟨b.chunks, 0, 0⟩ := by
    refine ⟨fun c hc => ⟨hb.chunks c hc, hd c hc⟩, ?_, ?_⟩
    · intro c hc
      exact hd c (List.mem_of_mem_head? hc)
    · rw [hview, hlen]
      show 0 + 0 + b.datalen ≤ bufMaxLen
      omega
  have hfuel : (BufPos.view ⟨b.chunks, 0, 0⟩).length < b.datalen + 1 := by
    rw [hview, hlen]
    exact Nat.lt_succ_self _
  obtain ⟨r, hr, hocc⟩ := BufPos.findStringLoop_spec hs hvalid hfuel
  refine ⟨r, ?_, hview ▸ hocc⟩
  unfold Buf.findStringOffset
  rw [hr]
  show some (r.map (· + 0)) = some r
  rw [show (fun x : ℕ => x + 0) = id from rfl, Option.map_id, id]

/-- In every run the search gives the first occurrence in the queue, in a buffer
without empty chunks; and there are none where nothing was read from a socket. -/
theorem search_finds_first {w : Bufs} (hrun : Run Bufs.step (fun _ e => e.Real) {} w) {i : ℕ}
    {b : Buf} (hb : w.get i = some b) {s : List UInt8} (hs : s ≠ [])
    (hdense : b.Dense ∨ ∀ x ∈ w.log, x.1.isRead = false) :
    ∃ r, b.findStringOffset s = some r ∧ FirstOccurrence s b.contents r := by
  obtain ⟨qs, -, hholds⟩ := run_holds hrun
  obtain ⟨hget, -, hsound, hmax, -⟩ := hholds.get_eq hb
  have hd : b.Dense := by
    rcases hdense with hd | hlog
    · exact hd
    · exact hholds.dense hlog b (List.mem_of_getElem? hget)
  exact Buf.findStringOffset_spec hsound hd hmax hs

/-- "bb" across the border of two chunks. -/
theorem search_finds_first_two :
    ∃ w b, Run Bufs.step (fun _ e => e.Real) {} w ∧ w.get 0 = some b ∧ b.chunks.length = 2
      ∧ b.findStringOffset [98, 98] = some (some 1)
      ∧ FirstOccurrence [98, 98] b.contents (some 1) := by
  have hrun : ∃ w, Run Bufs.step (fun _ e => e.Real) {} w ∧ (w.log.all fun x => !x.1.isRead) = true
      ∧ (w.get 0).map (fun b => (b.chunks.length, b.findStringOffset [98, 98]))
        = some (2, some (some 1)) :=
    exists_run [.new none, .new none, .add 0 [97, 98] fun _ => 0, .add 1 [98, 99] fun _ => 0,
      .moveAll 0 1] (by decide +kernel)
  obtain ⟨w, hrun, hlog, hfind⟩ := hrun
  obtain ⟨b, hb, hfind⟩ := Option.map_eq_some_iff.mp hfind
  obtain ⟨hchunks, hfind⟩ := Prod.mk.inj hfind
  have hread : ∀ x ∈ w.log, x.1.isRead = false := by
    intro x hx
    have := List.all_eq_true.mp hlog x hx
    rw [Bool.not_eq_true'] at this
    exact this
  obtain ⟨r, hr, hocc⟩ := search_finds_first hrun hb (List.cons_ne_nil 98 [98]) (.inr hread)
  rw [hfind] at hr
  exact ⟨w, b, hrun, hb, hchunks, hfind, Option.some.inj hr ▸ hocc⟩

/-- A read that would block, behind a full chunk: the search finds a string whose
second character was never written. -/
theorem findStringOffset_reads_unwritten :
    ∃ w b, Run Bufs.step (fun _ e => e.Real) {} w ∧ w.get 0 = some b
      ∧ b.findStringOffset [97, 98] = some (some 207) ∧ 98 ∉ b.contents := by
  have hrun : ∃ w, Run Bufs.step (fun _ e => e.Real) {} w
      ∧ (w.get 0).map (fun b => (b.findStringOffset [97, 98], decide (98 ∈ b.contents)))
        = some (some (some 207), false) :=
    exists_run [.new (some 200), .add 0 (List.replicate 208 97) fun _ => 0,
      .read 0 100 [] fun _ => 98] (by decide +kernel)
  obtain ⟨w, hrun, hfind⟩ := hrun
  obtain ⟨b, hb, hfind⟩ := Option.map_eq_some_iff.mp hfind
  obtain ⟨hfind, hmem⟩ := Prod.mk.inj hfind
  exact ⟨w, b, hrun, hb, hfind, of_decide_eq_false hmem⟩

end Dittor.Tor
