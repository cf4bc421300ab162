import Dittor.Tor.Buffers
import Mathlib.Data.List.ReduceOption

/-!
# What each buffer operation does (`lib/buf/buffers.c`)

One lemma for each operation of `Tor.Buffers`: on a sound buffer, and when no
more bytes are asked for than there are, no assertion fails and the queue of
bytes changes as the comment in the source says. The loops are over the chunks;
what they have in common is `Chunks`, the same statement about a list of chunks.
-/

namespace Dittor.Tor

namespace Buf

variable {b b' : Buf} {total total' : ℕ} {junk : ℕ → UInt8} {n : ℕ}

/-! ## Adding -/

theorem Sound.length_contents (h : b.Sound) : b.contents.length = b.datalen := h.datalen.symm

/-- `buf_add` where the result fits. -/
theorem Sound.add (h : b.Sound) (junk : ℕ → UInt8) (total : ℕ) {string : List UInt8}
    (hfit : b.datalen + string.length ≤ bufMaxLen) :
    ∃ b' total', b.add junk string total = some (((b.datalen + string.length : ℕ) : ℤ), b', total')
      ∧ BecomesDense b total b' total' (b.contents ++ string) := by
  unfold Buf.add
  split
  next hnil =>
    subst hnil
    refine ⟨b, total, rfl, ?_⟩
    rw [List.append_nil]
    exact h.refl total
  next =>
    have hsub : sizeSub bufMaxLen string.length = bufMaxLen - string.length :=
      sizeSub_of_le (by omega) (by decide)
    obtain ⟨b', total', hloop, hbecomes⟩ := addLoop_spec junk string.length total string h
      le_rfl
    have hlen : b'.datalen = b.datalen + string.length := by
      rw [hbecomes.sound.datalen, hbecomes.contents, List.length_append, h.length_contents]
    rw [if_neg (by rw [hsub]; omega), hloop, Option.bind_some]
    dsimp only
    rw [if_pos (by omega), hlen]
    exact ⟨b', total', rfl, hbecomes⟩

/-- `buf_add` where it does not. -/
theorem add_full {string : List UInt8} (hmax : b.datalen ≤ bufMaxLen)
    (hlen : string.length ≤ bufMaxLen) (hfull : bufMaxLen < b.datalen + string.length) :
    b.add junk string total = some (-1, b, total) := by
  have hsub : sizeSub bufMaxLen string.length = bufMaxLen - string.length :=
    sizeSub_of_le hlen (by decide)
  have hne : string ≠ [] := by
    intro hnil
    rw [hnil, List.length_nil] at hfull
    omega
  unfold Buf.add
  rw [if_neg hne, if_pos (by rw [hsub]; omega)]

/-- A string longer than `BUF_MAX_LEN` gets past the check and fails the assertion. -/
theorem Sound.add_aborts (h : b.Sound) {string : List UInt8} (hmax : b.datalen ≤ bufMaxLen)
    (hlong : bufMaxLen < string.length) (hmem : string.length < 2 ^ 63) :
    b.add junk string total = none := by
  have hne : string ≠ [] := by
    intro hnil
    rw [hnil, List.length_nil] at hlong
    omega
  have hsub : b.datalen ≤ sizeSub bufMaxLen string.length := by
    unfold sizeSub
    unfold bufMaxLen at hmax hlong ⊢
    omega
  obtain ⟨b', total', hloop, hbecomes⟩ := addLoop_spec junk string.length total string h
    le_rfl
  have hlen : b'.datalen = b.datalen + string.length := by
    rw [hbecomes.sound.datalen, hbecomes.contents, List.length_append, h.length_contents]
  unfold Buf.add
  rw [if_neg hne, if_neg (by omega), hloop, Option.bind_some, if_neg (by dsimp only; omega)]

/-! ## Removing -/

/-- The chunks `l` become `l'` with the bytes `q`, and what is freed is counted. -/
structure Chunks (l : List Chunk) (total : ℕ) (l' : List Chunk) (total' : ℕ) (q : List UInt8) :
    Prop where
  ok : ∀ c ∈ l', c.Ok
  bytes : l'.flatMap Chunk.bytes = q
  balance : total' + (l.map Chunk.alloc).sum = total + (l'.map Chunk.alloc).sum
  dense : (∀ c ∈ l, 0 < c.datalen) → ∀ c ∈ l', 0 < c.datalen

theorem chunkFree_of_le {c : Chunk} (h : c.alloc ≤ total) :
    chunkFree total c = some (total - c.alloc) := if_pos h

theorem drainLoop_spec :
    ∀ (l : List Chunk) (datalen : ℕ) {total n : ℕ}, (∀ c ∈ l, c.Ok) →
      n ≤ (l.flatMap Chunk.bytes).length → (l.map Chunk.alloc).sum ≤ total →
      ∃ l' total', drainLoop l datalen total n = some (l', datalen - n, total')
        ∧ Chunks l total l' total' ((l.flatMap Chunk.bytes).drop n) := by
  intro l
  induction l with
  | nil =>
    intro datalen total n _ hn _
    obtain rfl : n = 0 := Nat.le_zero.mp hn
    exact ⟨[], total, rfl, fun c hc => absurd hc List.not_mem_nil, rfl, rfl, id⟩
  | cons head rest ih =>
    intro datalen total n hok hn htotal
    have hhead : head.Ok := hok head List.mem_cons_self
    cases n with
    | zero => exact ⟨head :: rest, total, rfl, hok, rfl, rfl, id⟩
    | succ n =>
      rw [List.flatMap_cons, List.length_append, hhead.length_bytes] at hn
      rw [List.map_cons, List.sum_cons] at htotal
      rw [drainLoop]
      split
      next hlt =>
        -- the last bytes to go are in this chunk
        refine ⟨_, total, rfl, ?_, ?_, ?_, ?_⟩
        · intro c hc
          rcases List.mem_cons.mp hc with rfl | hc
          · exact hhead.skip hlt.le
          · exact hok c (List.mem_cons_of_mem head hc)
        · rw [List.flatMap_cons, List.flatMap_cons, Chunk.bytes_skip,
            List.drop_append_of_le_length (by rw [hhead.length_bytes]; omega)]
        · rfl
        · intro hd c hc
          rcases List.mem_cons.mp hc with rfl | hc
          · show 0 < head.datalen - (n + 1)
            omega
          · exact hd c (List.mem_cons_of_mem head hc)
      next hge =>
        rw [chunkFree_of_le (by omega), Option.bind_some]
        have hn' : n + 1 - head.datalen ≤ (rest.flatMap Chunk.bytes).length := by omega
        have htotal' : (rest.map Chunk.alloc).sum ≤ total - head.alloc := by omega
        obtain ⟨l', total', hloop, hl'⟩ := ih (datalen - head.datalen)
          (fun c hc => hok c (List.mem_cons_of_mem head hc)) hn' htotal'
        refine ⟨l', total', ?_, hl'.ok, ?_, ?_, ?_⟩
        · rw [hloop, show datalen - head.datalen - (n + 1 - head.datalen) = datalen - (n + 1) by
            omega]
        · have hnil : head.bytes.drop (n + 1) = [] := by
            apply List.drop_of_length_le
            rw [hhead.length_bytes]
            omega
          rw [hl'.bytes, List.flatMap_cons, List.drop_append, hhead.length_bytes, hnil,
            List.nil_append]
        · have := hl'.balance
          rw [List.map_cons, List.sum_cons]
          omega
        · intro hd
          exact hl'.dense fun c hc => hd c (List.mem_cons_of_mem head hc)

/-- `buf_drain` -/
theorem Sound.drain (h : b.Sound) (hn : n ≤ b.datalen) (htotal : b.allocation ≤ total) :
    ∃ b' total', b.drain n total = some (b', total')
      ∧ BecomesDense b total b' total' (b.contents.drop n) := by
  have hlen : n ≤ (b.chunks.flatMap Chunk.bytes).length := by
    rw [← h.length_contents] at hn
    exact hn
  obtain ⟨l', total', hloop, hl'⟩ := drainLoop_spec b.chunks b.datalen h.chunks hlen
    htotal
  unfold Buf.drain
  rw [if_neg (by omega), hloop, Option.map_some]
  refine ⟨_, total', rfl, ⟨⟨hl'.ok, ?_, h.size⟩, hl'.bytes, hl'.balance⟩, hl'.dense⟩
  show b.datalen - n = (l'.flatMap Chunk.bytes).length
  rw [hl'.bytes, List.length_drop, h.datalen]
  rfl

theorem peekLoop_spec :
    ∀ (l : List Chunk) {n : ℕ}, (∀ c ∈ l, c.Ok) → n ≤ (l.flatMap Chunk.bytes).length →
      peekLoop l n = some ((l.flatMap Chunk.bytes).take n) := by
  intro l
  induction l with
  | nil =>
    intro n _ hn
    obtain rfl : n = 0 := Nat.le_zero.mp hn
    rfl
  | cons head rest ih =>
    intro n hok hn
    have hhead : head.Ok := hok head List.mem_cons_self
    cases n with
    | zero => rfl
    | succ n =>
      rw [List.flatMap_cons, List.length_append, hhead.length_bytes] at hn
      rw [peekLoop, ih (fun c hc => hok c (List.mem_cons_of_mem head hc)) (by omega), Option.map_some,
        List.flatMap_cons, List.take_append, hhead.length_bytes]
      congr 2
      · rw [← hhead.length_bytes, List.take_eq_take_iff]
        omega
      · congr 1
        omega

/-- `buf_peek` -/
theorem Sound.peek (h : b.Sound) (hn : n ≤ b.datalen) : b.peek n = some (b.contents.take n) := by
  unfold Buf.peek
  rw [if_neg (by omega)]
  apply peekLoop_spec b.chunks h.chunks
  rw [← h.length_contents] at hn
  exact hn

/-- `buf_get_bytes` -/
theorem Sound.getBytes (h : b.Sound) (hmax : b.datalen ≤ bufMaxLen) (hn : n ≤ b.datalen)
    (htotal : b.allocation ≤ total) :
    ∃ b' total', b.getBytes n total
        = some (((b.datalen - n : ℕ) : ℤ), b.contents.take n, b', total')
      ∧ BecomesDense b total b' total' (b.contents.drop n) := by
  obtain ⟨b', total', hdrain, hbecomes⟩ := h.drain hn htotal
  have hlen : b'.datalen = b.datalen - n := by
    rw [hbecomes.sound.datalen, hbecomes.contents, List.length_drop, h.length_contents]
  unfold Buf.getBytes
  rw [h.peek hn, Option.bind_some, hdrain, Option.bind_some]
  dsimp only
  rw [if_pos (by omega), hlen]
  exact ⟨b', total', rfl, hbecomes⟩

/-- Freeing every chunk. -/
theorem foldlM_chunkFree :
    ∀ (l : List Chunk) {total : ℕ}, (l.map Chunk.alloc).sum ≤ total →
      l.foldlM chunkFree total = some (total - (l.map Chunk.alloc).sum) := by
  intro l
  induction l with
  | nil => intro total _; rfl
  | cons c l ih =>
    intro total h
    rw [List.map_cons, List.sum_cons] at h ⊢
    rw [List.foldlM_cons, chunkFree_of_le (by omega)]
    show l.foldlM chunkFree (total - c.alloc) = _
    rw [ih (by omega), Nat.sub_sub]

/-- `buf_clear` -/
theorem Sound.clear (h : b.Sound) (htotal : b.allocation ≤ total) :
    ∃ b' total', b.clear total = some (b', total') ∧ BecomesDense b total b' total' []
      ∧ b'.allocation = 0 := by
  unfold Buf.clear
  rw [foldlM_chunkFree b.chunks htotal]
  refine ⟨_, _, rfl, ⟨⟨⟨fun c hc => absurd hc List.not_mem_nil, rfl, h.size⟩, rfl, ?_⟩,
    fun _ c hc => absurd hc List.not_mem_nil⟩, rfl⟩
  show total - b.allocation + b.allocation = total + 0
  omega

/-! ## From one buffer to another -/

/-- The first `len` bytes of `inp` have gone to the end of `out`. -/
structure Moves (out inp : Buf) (total : ℕ) (out' inp' : Buf) (total' len : ℕ) : Prop where
  out_sound : out'.Sound
  inp_sound : inp'.Sound
  out_contents : out'.contents = out.contents ++ inp.contents.take len
  inp_contents : inp'.contents = inp.contents.drop len
  balance : total' + out.allocation + inp.allocation = total + out'.allocation + inp'.allocation
  dense : out.Dense → inp.Dense → out'.Dense ∧ inp'.Dense

/-- Nothing has moved. -/
theorem Moves.refl {out inp : Buf} (ho : out.Sound) (hi : inp.Sound) (total : ℕ) :
    Moves out inp total out inp total 0 :=
  ⟨ho, hi, by rw [List.take_zero, List.append_nil], rfl, rfl, fun hd hd' => ⟨hd, hd'⟩⟩

theorem moveLoop_spec (junk : ℕ → UInt8) :
    ∀ (fuel : ℕ) {out inp : Buf} {total len : ℕ}, out.Sound → inp.Sound →
      inp.datalen ≤ bufMaxLen → len ≤ inp.datalen → out.datalen + len ≤ bufMaxLen →
      out.allocation + inp.allocation ≤ total → len ≤ fuel →
      ∃ out' inp' total', moveLoop junk fuel out inp total len = some (out', inp', total')
        ∧ Moves out inp total out' inp' total' len := by
  intro fuel
  induction fuel with
  | zero =>
    intro out inp total len ho hi _ _ _ _ hfuel
    obtain rfl : len = 0 := Nat.le_zero.mp hfuel
    exact ⟨out, inp, total, rfl, .refl ho hi total⟩
  | succ fuel ih =>
    intro out inp total len ho hi hmax hlen hfit htotal hfuel
    cases len with
    | zero => exact ⟨out, inp, total, rfl, .refl ho hi total⟩
    | succ len =>
      generalize hn : min (len + 1) 4096 = n
      obtain ⟨inp₁, total₁, hget, hinp₁⟩ := hi.getBytes (n := n) hmax (by omega)
        (Nat.le_of_add_left_le htotal)
      have hgot : (inp.contents.take n).length = n := by
        rw [List.length_take, hi.length_contents]
        omega
      have hfit' : out.datalen + (inp.contents.take n).length ≤ bufMaxLen := by omega
      obtain ⟨out₁, total₂, hadd, hout₁⟩ := ho.add junk total₁ hfit'
      have hinpLen : inp₁.datalen = inp.datalen - n := by
        rw [hinp₁.sound.datalen, hinp₁.contents, List.length_drop, hi.length_contents]
      have houtLen : out₁.datalen = out.datalen + n := by
        rw [hout₁.sound.datalen, hout₁.contents, List.length_append, hgot, ho.length_contents]
      have hbal₁ := hinp₁.balance
      have hbal₂ := hout₁.balance
      have hlen' : len + 1 - n ≤ inp₁.datalen := by omega
      have htotal' : out₁.allocation + inp₁.allocation ≤ total₂ := by omega
      obtain ⟨out₂, inp₂, total₃, hloop, hmoves⟩ := ih hout₁.sound hinp₁.sound (by omega) hlen'
        (by omega) htotal' (by omega)
      refine ⟨out₂, inp₂, total₃, ?_, hmoves.out_sound, hmoves.inp_sound, ?_, ?_, ?_,
        fun hd hd' => hmoves.dense (hout₁.dense hd) (hinp₁.dense hd')⟩
      · rw [moveLoop, hn, hget, Option.bind_some]
        dsimp only
        rw [hadd, Option.bind_some]
        exact hloop
      · rw [hmoves.out_contents, hout₁.contents, hinp₁.contents, List.append_assoc, ← List.take_add,
          show n + (len + 1 - n) = len + 1 by omega]
      · rw [hmoves.inp_contents, hinp₁.contents, List.drop_drop,
          show n + (len + 1 - n) = len + 1 by omega]
      · have := hmoves.balance
        omega

/-- `buf_move_to_buf` where the bytes asked for would fit. -/
theorem Sound.moveToBuf {out inp : Buf} (ho : out.Sound) (hi : inp.Sound) (junk : ℕ → UInt8)
    (hmax : inp.datalen ≤ bufMaxLen) {flushlen : ℕ} (hfit : out.datalen + flushlen ≤ bufMaxLen)
    (htotal : out.allocation + inp.allocation ≤ total) :
    ∃ out' inp' total', moveToBuf out inp junk flushlen total
        = some (((min flushlen inp.datalen : ℕ) : ℤ), flushlen - min flushlen inp.datalen, out', inp', total')
      ∧ Moves out inp total out' inp' total' (min flushlen inp.datalen) := by
  have hsub : sizeSub bufMaxLen flushlen = bufMaxLen - flushlen :=
    sizeSub_of_le (by omega) (by decide)
  obtain ⟨out', inp', total', hloop, hmoves⟩ := moveLoop_spec junk
    (min flushlen inp.datalen) ho hi hmax (by omega) (by omega) htotal le_rfl
  unfold Buf.moveToBuf
  rw [if_neg (by rw [hsub]; omega)]
  dsimp only
  rw [if_neg (by omega), hloop, Option.map_some]
  exact ⟨out', inp', total', rfl, hmoves⟩

/-- `buf_move_to_buf` where they would not. -/
theorem moveToBuf_full {out inp : Buf} {flushlen : ℕ}
    (hfull : bufMaxLen < out.datalen + flushlen) :
    moveToBuf out inp junk flushlen total = some (-1, flushlen, out, inp, total) := by
  unfold Buf.moveToBuf
  rw [if_pos]
  by_cases hbig : bufMaxLen < flushlen
  · exact .inr (.inl hbig)
  · refine .inr (.inr ?_)
    rw [sizeSub_of_le (by omega) (by decide)]
    omega

/-- `buf_move_all` -/
theorem Sound.moveAll {out inp : Buf} (ho : out.Sound) (hi : inp.Sound) (total : ℕ)
    (hfit : out.datalen + inp.datalen ≤ bufMaxLen) :
    ∃ out' inp', moveAll out inp = (inp.datalen, out', inp')
      ∧ Moves out inp total out' inp' total inp.datalen := by
  have hall : inp.contents.take inp.datalen = inp.contents :=
    List.take_of_length_le (le_of_eq hi.length_contents)
  have hnone : inp.contents.drop inp.datalen = [] :=
    List.drop_of_length_le (le_of_eq hi.length_contents)
  unfold Buf.moveAll
  split
  next hzero =>
    have hnil : inp.contents = [] := List.length_eq_zero_iff.mp (hi.length_contents.trans hzero)
    refine ⟨out, inp, by rw [hzero], ho, hi, ?_, ?_, rfl, fun hd hd' => ⟨hd, hd'⟩⟩
    · rw [hnil, List.take_nil, List.append_nil]
    · rw [hnone, hnil]
  next =>
    have hsub : sizeSub bufMaxLen inp.datalen = bufMaxLen - inp.datalen :=
      sizeSub_of_le (by omega) (by decide)
    rw [if_neg (by rw [hsub]; omega)]
    have hcontents : (⟨out.datalen + inp.datalen, out.defaultChunkSize, out.chunks ++ inp.chunks⟩ :
        Buf).contents = out.contents ++ inp.contents := contents_append ..
    refine ⟨_, _, rfl, ⟨?_, ?_, ho.size⟩, ⟨fun c hc => absurd hc List.not_mem_nil, rfl, hi.size⟩,
      ?_, ?_, ?_, ?_⟩
    · intro c hc
      rcases List.mem_append.mp hc with hc | hc
      · exact ho.chunks c hc
      · exact hi.chunks c hc
    · rw [hcontents, List.length_append, ho.length_contents, hi.length_contents]
    · rw [hall]
      exact hcontents
    · rw [hnone]
      rfl
    · rw [allocation_append]
      unfold allocation
      simp only [List.map_nil, List.sum_nil]
      omega
    · intro hd hd'
      refine ⟨fun c hc => ?_, fun c hc => absurd hc List.not_mem_nil⟩
      rcases List.mem_append.mp hc with hc | hc
      · exact hd c hc
      · exact hd' c hc

/-- `buf_move_all` where they would not fit. -/
theorem moveAll_full {out inp : Buf} (hmax : inp.datalen ≤ bufMaxLen)
    (hfull : bufMaxLen < out.datalen + inp.datalen) : moveAll out inp = (0, out, inp) := by
  unfold Buf.moveAll
  split
  · rfl
  · rw [if_pos]
    refine .inr (.inr ?_)
    rw [sizeSub_of_le hmax (by decide)]
    omega

/-! ## Making the first bytes contiguous -/

/-- The first chunk has room for the bytes to come, and still has its own. -/
theorem makeRoom_spec {head : Chunk} {capacity : ℕ} (hok : head.Ok) (junk : ℕ → UInt8)
    (total : ℕ) (hcap : capacity ≤ bufMaxLen) :
    ∃ head' total', makeRoom junk head capacity total = some (head', total')
      ∧ head'.Ok ∧ head'.bytes = head.bytes ∧ head'.datalen = head.datalen
      ∧ capacity - head.datalen ≤ head'.remainingCapacity
      ∧ total' + head.alloc = total + head'.alloc := by
  have hrep : head.repack.remainingCapacity = head.memlen - head.datalen := by
    show head.repack.memlen - (0 + head.datalen) = _
    rw [Chunk.memlen_repack hok, Nat.zero_add]
  have halloc : head.repack.alloc = head.alloc := by
    unfold Chunk.alloc
    rw [Chunk.memlen_repack hok]
  unfold makeRoom
  split
  next hfits =>
    dsimp only
    by_cases hrem : head.remainingCapacity < capacity - head.datalen
    · rw [if_pos hrem, if_pos (by rw [hrep]; omega)]
      exact ⟨_, total, rfl, hok.repack, Chunk.bytes_repack hok, rfl, by rw [hrep]; omega,
        by rw [halloc]⟩
    · rw [if_neg hrem, if_pos (by omega)]
      exact ⟨head, total, rfl, hok, rfl, rfl, by omega, rfl⟩
  next hlarge =>
    have hsmall : capacity ≤ sizeTCeiling - chunkOverhead := by
      unfold bufMaxLen at hcap
      unfold sizeTCeiling chunkOverhead
      omega
    obtain ⟨alloc, hsome⟩ := bufPreferredChunkSize_isSome hsmall
    obtain ⟨-, htarget, -⟩ := bufPreferredChunkSize_spec hsome
    have hmore : head.repack.memlen < chunkSizeWithAlloc alloc := by
      rw [Chunk.memlen_repack hok]
      omega
    obtain ⟨head', hgrow, hok', hbytes, hlen, hdata, hdatalen⟩ := Chunk.grow_eq hok.repack junk hmore
    have hbigger : head.repack.alloc ≤ head'.alloc := by
      unfold Chunk.alloc chunkAllocSize
      rw [hlen, Chunk.memlen_repack hok]
      omega
    rw [hsome, Option.bind_some, hgrow, Option.bind_some, if_pos (by omega)]
    refine ⟨head', _, rfl, hok', hbytes.trans (Chunk.bytes_repack hok), hdatalen, ?_, ?_⟩
    · show capacity - head.datalen ≤ head'.memlen - (head'.data + head'.datalen)
      rw [hlen, hdata, hdatalen]
      show capacity - head.datalen ≤ chunkSizeWithAlloc alloc - (0 + head.datalen)
      omega
    · rw [halloc] at hbigger ⊢
      omega

/-- Bytes move from the chunks behind into the first one. -/
theorem pullupLoop_spec (bytes : ℕ) :
    ∀ (rest : List Chunk) {dest : Chunk} {total : ℕ}, dest.Ok → (∀ c ∈ rest, c.Ok) →
      bytes ≤ dest.datalen + (rest.flatMap Chunk.bytes).length →
      bytes - dest.datalen ≤ dest.remainingCapacity →
      dest.alloc + (rest.map Chunk.alloc).sum ≤ total →
      ∃ dest' rest' total', pullupLoop bytes dest rest total = some (dest' :: rest', total')
        ∧ Chunks (dest :: rest) total (dest' :: rest') total'
          (dest.bytes ++ rest.flatMap Chunk.bytes) ∧ bytes ≤ dest'.datalen := by
  intro rest
  induction rest with
  | nil =>
    intro dest total hdest _ hbytes _ _
    rw [List.flatMap_nil, List.length_nil] at hbytes
    rw [pullupLoop, if_neg (by omega)]
    refine ⟨dest, [], total, rfl, ⟨?_, by simp, rfl, id⟩, by omega⟩
    intro c hc
    rw [List.mem_singleton.mp hc]
    exact hdest
  | cons src rest ih =>
    intro dest total hdest hrest hbytes hroom htotal
    have hsrc : src.Ok := hrest src List.mem_cons_self
    have hrest' : ∀ c ∈ rest, c.Ok := fun c hc => hrest c (List.mem_cons_of_mem src hc)
    rw [List.flatMap_cons, List.length_append, hsrc.length_bytes] at hbytes
    rw [List.map_cons, List.sum_cons] at htotal
    rw [pullupLoop]
    split
    next hless =>
      dsimp only
      split
      next hwhole =>
        -- all of the next chunk
        have hfit : src.bytes.length ≤ dest.remainingCapacity := by
          rw [hsrc.length_bytes]
          omega
        have hlen : (dest.write src.bytes).datalen = dest.datalen + src.datalen := by
          show dest.datalen + src.bytes.length = _
          rw [hsrc.length_bytes]
        have hrem : (dest.write src.bytes).remainingCapacity
            = dest.remainingCapacity - src.datalen := by
          show (dest.write src.bytes).memlen - (dest.data + (dest.datalen + src.bytes.length)) = _
          rw [Chunk.memlen_write hdest hfit, hsrc.length_bytes]
          unfold Chunk.remainingCapacity
          omega
        have halloc : (dest.write src.bytes).alloc = dest.alloc := by
          unfold Chunk.alloc
          rw [Chunk.memlen_write hdest hfit]
        rw [chunkFree_of_le (by omega), Option.bind_some]
        have htotal' : (dest.write src.bytes).alloc + (rest.map Chunk.alloc).sum
            ≤ total - src.alloc := by
          rw [halloc]
          omega
        obtain ⟨dest', rest', total', hloop, hout, hdone⟩ := ih (hdest.write hfit) hrest'
          (by rw [hlen]; omega) (by rw [hlen, hrem]; omega) htotal'
        refine ⟨dest', rest', total', hloop, ⟨hout.ok, ?_, ?_, ?_⟩, hdone⟩
        · rw [hout.bytes, Chunk.bytes_write hdest, List.flatMap_cons, List.append_assoc]
        · have := hout.balance
          rw [List.map_cons, List.sum_cons, halloc] at this
          rw [List.map_cons, List.map_cons, List.sum_cons, List.sum_cons]
          omega
        · intro hd
          apply hout.dense
          intro c hc
          rcases List.mem_cons.mp hc with rfl | hc
          · have := hd dest List.mem_cons_self
            rw [hlen]
            omega
          · exact hd c (List.mem_cons_of_mem dest (List.mem_cons_of_mem src hc))
      next hpart =>
        -- its first bytes only
        have hfit : (src.bytes.take (bytes - dest.datalen)).length ≤ dest.remainingCapacity := by
          rw [List.length_take]
          omega
        have hn : (src.bytes.take (bytes - dest.datalen)).length = bytes - dest.datalen := by
          rw [List.length_take, hsrc.length_bytes]
          omega
        refine ⟨_, _, total, rfl, ⟨?_, ?_, ?_, ?_⟩, ?_⟩
        · intro c hc
          rcases List.mem_cons.mp hc with rfl | hc
          · exact hdest.write hfit
          · rcases List.mem_cons.mp hc with rfl | hc
            · exact hsrc.skip (by omega)
            · exact hrest' c hc
        · rw [List.flatMap_cons, List.flatMap_cons, List.flatMap_cons, Chunk.bytes_write hdest,
            Chunk.bytes_skip, List.append_assoc, ← List.append_assoc (src.bytes.take _),
            List.take_append_drop]
        · simp only [List.map_cons, Chunk.alloc, Chunk.memlen_write hdest hfit, Chunk.memlen_skip]
        · intro hd c hc
          rcases List.mem_cons.mp hc with rfl | hc
          · have := hd dest List.mem_cons_self
            show 0 < dest.datalen + _
            omega
          · rcases List.mem_cons.mp hc with rfl | hc
            · show 0 < src.datalen - (bytes - dest.datalen)
              omega
            · exact hd c (List.mem_cons_of_mem dest (List.mem_cons_of_mem src hc))
        · show bytes ≤ dest.datalen + (src.bytes.take (bytes - dest.datalen)).length
          rw [hn]
          omega
    next hmore =>
      refine ⟨dest, src :: rest, total, rfl, ⟨?_, rfl, rfl, id⟩, by omega⟩
      intro c hc
      rcases List.mem_cons.mp hc with rfl | hc
      · exact hdest
      · exact hrest c hc

/-- `buf_pullup` gives the first bytes in one piece and leaves the queue as it is. -/
theorem Sound.pullup (h : b.Sound) (junk : ℕ → UInt8) (hmax : b.datalen ≤ bufMaxLen) (bytes : ℕ)
    (htotal : b.allocation ≤ total) :
    ∃ head b' total', b.pullup junk bytes total = some (head, b', total')
      ∧ BecomesDense b total b' total' b.contents ∧ head <+: b.contents
      ∧ min b.datalen bytes ≤ head.length := by
  obtain ⟨datalen, size, chunks⟩ := b
  cases chunks with
  | nil =>
    refine ⟨[], _, total, rfl, h.refl total, List.nil_prefix, ?_⟩
    have hzero : datalen = 0 := h.datalen
    show min datalen bytes ≤ 0
    omega
  | cons head rest =>
    have hhead : head.Ok := h.chunks head List.mem_cons_self
    have hrest : ∀ c ∈ rest, c.Ok := fun c hc => h.chunks c (List.mem_cons_of_mem head hc)
    have hcontents : contents ⟨datalen, size, head :: rest⟩
        = head.bytes ++ rest.flatMap Chunk.bytes := List.flatMap_cons
    unfold Buf.pullup
    dsimp only
    split
    next hle =>
      refine ⟨head.bytes, _, total, rfl, h.refl total, ?_, ?_⟩
      · rw [hcontents]
        exact List.prefix_append _ _
      · rw [hhead.length_bytes]
        exact hle
    next hgt =>
      have halloc : head.alloc + (rest.map Chunk.alloc).sum ≤ total := by
        have hsum : allocation ⟨datalen, size, head :: rest⟩
            = head.alloc + (rest.map Chunk.alloc).sum := by
          unfold allocation
          rw [List.map_cons, List.sum_cons]
        omega
      have hdatalen : datalen = head.datalen + (rest.flatMap Chunk.bytes).length := by
        have := h.datalen
        rw [hcontents, List.length_append, hhead.length_bytes] at this
        exact this
      obtain ⟨dest, total₁, hroom, hok, hbytes, hlen, hrem, hbal⟩ := makeRoom_spec hhead junk
        total (le_trans (Nat.min_le_left datalen bytes) hmax)
      obtain ⟨dest', rest', total₂, hloop, hout, hdone⟩ := pullupLoop_spec
        (min datalen bytes) rest hok hrest (by omega) (by omega)
        (show dest.alloc + (rest.map Chunk.alloc).sum ≤ total₁ by omega)
      rw [hroom, Option.bind_some]
      dsimp only
      rw [hloop, Option.map_some]
      have hq : contents ⟨datalen, size, dest' :: rest'⟩ = contents ⟨datalen, size, head :: rest⟩ := by
        rw [hcontents, ← hbytes]
        exact hout.bytes
      refine ⟨_, _, _, rfl, ⟨⟨⟨hout.ok, ?_, h.size⟩, hq, ?_⟩, ?_⟩, ?_, ?_⟩
      · show datalen = (contents ⟨datalen, size, dest' :: rest'⟩).length
        rw [hq]
        exact h.datalen
      · have := hout.balance
        rw [List.map_cons, List.sum_cons] at this
        show total₂ + ((head :: rest).map Chunk.alloc).sum
          = total + ((dest' :: rest').map Chunk.alloc).sum
        rw [List.map_cons, List.sum_cons]
        omega
      · intro hd
        apply hout.dense
        intro c hc
        rcases List.mem_cons.mp hc with rfl | hc
        · rw [hlen]
          exact hd head List.mem_cons_self
        · exact hd c (List.mem_cons_of_mem head hc)
      · rw [← hq]
        exact List.prefix_append dest'.bytes (rest'.flatMap Chunk.bytes)
      · show min datalen bytes ≤ dest'.bytes.length
        rw [(hout.ok dest' List.mem_cons_self).length_bytes]
        exact hdone

/-! ## Reading a line -/

theorem findOffsetOfChar_spec {ch : UInt8} :
    ∀ (l : List Chunk) {offset : ℕ}, (∀ c ∈ l, c.Ok) →
      findOffsetOfChar ch l offset
        = ((l.flatMap Chunk.bytes).findIdx? (· = ch)).map fun k => offset + k := by
  intro l
  induction l with
  | nil => intro offset _; rfl
  | cons head rest ih =>
    intro offset hok
    rw [findOffsetOfChar, List.flatMap_cons, List.findIdx?_append]
    cases hfind : head.bytes.findIdx? (· = ch) with
    | some k => rfl
    | none =>
      dsimp only
      rw [ih fun c hc => hok c (List.mem_cons_of_mem head hc), Option.none_or, Option.map_map]
      congr 1
      funext k
      show offset + head.datalen + k = offset + (k + head.bytes.length)
      rw [(hok head List.mem_cons_self).length_bytes]
      omega

/-- `buf_get_line` where no line has arrived. -/
theorem Sound.getLine_none (h : b.Sound) (hmax : b.datalen ≤ bufMaxLen)
    (hline : b.contents.findIdx? (· = 10) = none) (dataLen : ℕ) :
    b.getLine dataLen total = some (0, [], dataLen, b, total) := by
  have hfind : findOffsetOfChar 10 b.chunks 0 = none := by
    rw [findOffsetOfChar_spec b.chunks h.chunks, show b.chunks.flatMap Chunk.bytes = b.contents
      from rfl, hline]
    rfl
  unfold Buf.getLine
  rw [hfind, if_neg (not_lt.mpr hmax)]
  split
  · rfl
  · rfl

/-- `buf_get_line` where one has. -/
theorem Sound.getLine_some (h : b.Sound) (hmax : b.datalen ≤ bufMaxLen) {sz : ℕ}
    (hline : b.contents.findIdx? (· = 10) = some sz) (htotal : b.allocation ≤ total)
    (dataLen : ℕ) :
    (dataLen < sz + 2 → b.getLine dataLen total = some (-1, [], sz + 2, b, total))
      ∧ (sz + 2 ≤ dataLen → ∃ b' total', b.getLine dataLen total
          = some (1, b.contents.take (sz + 1), sz + 1, b', total')
        ∧ BecomesDense b total b' total' (b.contents.drop (sz + 1))) := by
  have hfind : findOffsetOfChar 10 b.chunks 0 = some sz := by
    rw [findOffsetOfChar_spec b.chunks h.chunks, show b.chunks.flatMap Chunk.bytes = b.contents
      from rfl, hline, Option.map_some, Nat.zero_add]
  have hlt : sz < b.contents.length := (List.findIdx?_eq_some_iff_getElem.mp hline).1
  have hne : b.chunks ≠ [] := by
    intro hnil
    rw [Buf.contents, hnil] at hlt
    exact absurd hlt (Nat.not_lt_zero _)
  unfold Buf.getLine
  rw [if_neg hne, if_neg (not_lt.mpr hmax), hfind]
  dsimp only
  constructor
  · intro hshort
    rw [if_pos hshort]
  · intro hlong
    obtain ⟨b', total', hget, hbecomes⟩ := h.getBytes (n := sz + 1) hmax
      (by rw [h.datalen]; omega) htotal
    rw [if_neg (not_lt.mpr hlong), hget]
    exact ⟨b', total', rfl, hbecomes⟩

/-! ## Reading from a socket -/

theorem readRoom_spec (h : b.Sound) (junk : ℕ → UInt8) (total : ℕ) (hn : 0 < n) :
    ∃ b' total' init tail, b.readRoom junk n total = some (b', total')
      ∧ HasRoom b total b' total' init tail := by
  unfold readRoom
  split
  · obtain ⟨c, hc, hok, hbytes, -⟩ := addChunk_spec h.size junk total hn
    exact ⟨_, _, _, c, hc, hasRoom_new h hok hbytes⟩
  next hslack =>
    unfold slack at hslack
    cases htail : b.chunks.getLast? with
    | none =>
      rw [htail] at hslack
      exact absurd (Nat.zero_lt_succ 7) hslack
    | some tail => exact ⟨b, total, _, tail, rfl, hasRoom_old h htail⟩

/-- A buffer that has been given room, with nothing written. -/
theorem HasRoom.becomes (h : b.Sound) {init : List Chunk} {tail : Chunk}
    (hr : HasRoom b total b' total' init tail) : Becomes b total b' total' b.contents := by
  obtain ⟨rfl, hok, hcont, hbal, -⟩ := hr
  have hcontents : Buf.contents { b with chunks := init ++ [tail] } = b.contents := by
    rw [Buf.contents, List.flatMap_append, List.flatMap_singleton, hcont]
  refine ⟨⟨hok, ?_, h.size⟩, hcontents, hbal⟩
  rw [hcontents]
  exact h.datalen

/-- What a socket read leaves: some of what was received, in order, at the end of
the queue. -/
structure Reads (b : Buf) (total : ℕ) (b' : Buf) (total' : ℕ) (atMost : ℕ)
    (recvs : List (Option (List UInt8))) (before : ℕ) (r : ℤ) (got : List UInt8) : Prop where
  becomes : Becomes b total b' total' (b.contents ++ got)
  received : ∃ k, got = (recvs.take k).reduceOption.flatten
  atMost : got.length ≤ atMost - before
  value : r = (before + got.length : ℕ) ∨ r = -1

theorem readLoop_spec {atMost : ℕ} :
    ∀ (recvs : List (Option (List UInt8))) {totalRead : ℕ} {b : Buf} {total : ℕ} {r : ℤ}
      {b' : Buf} {total' : ℕ}, b.Sound →
      readLoop junk atMost recvs totalRead b total = some (r, b', total') →
      ∃ got, Reads b total b' total' atMost recvs totalRead r got := by
  intro recvs
  induction recvs with
  | nil =>
    intro totalRead b total r b' total' h hloop
    rw [readLoop] at hloop
    split at hloop
    · obtain ⟨rfl, rfl, rfl⟩ : (totalRead : ℤ) = r ∧ b = b' ∧ total = total' := by
        simpa using hloop
      refine ⟨[], ?_, ⟨0, rfl⟩, Nat.zero_le _, .inl rfl⟩
      rw [List.append_nil]
      exact (h.refl total).toBecomes
    next hmore =>
      obtain ⟨b₁, total₁, init, tail, hroom, hr⟩ := readRoom_spec (n := atMost) h
        junk total (by omega)
      rw [hroom, Option.bind_some] at hloop
      dsimp only at hloop
      rw [hr.getLast?, Option.bind_some] at hloop
      obtain ⟨rfl, rfl, rfl⟩ : (totalRead : ℤ) = r ∧ b₁ = b' ∧ total₁ = total' := by
        simpa using hloop
      refine ⟨[], ?_, ⟨0, rfl⟩, Nat.zero_le _, .inl rfl⟩
      rw [List.append_nil]
      exact hr.becomes h
  | cons recv recvs ih =>
    intro totalRead b total r b' total' h hloop
    rw [readLoop] at hloop
    split at hloop
    · obtain ⟨rfl, rfl, rfl⟩ : (totalRead : ℤ) = r ∧ b = b' ∧ total = total' := by
        simpa using hloop
      refine ⟨[], ?_, ⟨0, rfl⟩, Nat.zero_le _, .inl rfl⟩
      rw [List.append_nil]
      exact (h.refl total).toBecomes
    next hmore =>
      obtain ⟨b₁, total₁, init, tail, hroom, hr⟩ := readRoom_spec (n := atMost) h
        junk total (by omega)
      rw [hroom, Option.bind_some] at hloop
      dsimp only at hloop
      rw [hr.getLast?, Option.bind_some] at hloop
      cases recv with
      | none =>
        obtain ⟨rfl, rfl, rfl⟩ : -1 = r ∧ b₁ = b' ∧ total₁ = total' := by
          simpa using hloop
        refine ⟨[], ?_, ⟨0, rfl⟩, Nat.zero_le _, .inr rfl⟩
        rw [List.append_nil]
        exact hr.becomes h
      | some received =>
        dsimp only at hloop
        split at hloop
        · exact absurd hloop (by simp)
        next hlen =>
          obtain ⟨hs, hc, hbal, -⟩ := hr.writeTail h
            (show received.length ≤ tail.remainingCapacity by omega)
          have hwrite : Becomes b total (b₁.writeTail tail received) total₁
              (b.contents ++ received) := ⟨hs, hc, hbal⟩
          split at hloop
          · exact absurd hloop (by simp)
          · split at hloop
            · -- the last read was short
              obtain ⟨rfl, rfl, rfl⟩ : ((totalRead : ℤ) + received.length) = r
                  ∧ b₁.writeTail tail received = b' ∧ total₁ = total' := by
                simpa using hloop
              refine ⟨received, hwrite, ⟨1, ?_⟩, by omega, .inl (by push_cast; rfl)⟩
              rw [List.take_succ_cons, List.take_zero]
              simp
            · obtain ⟨got, hbecomes, ⟨k, hk⟩, hgot, hvalue⟩ := ih hs hloop
              refine ⟨received ++ got, ?_, ⟨k + 1, ?_⟩, ?_, ?_⟩
              · have htrans := hwrite.trans hbecomes
                rw [hc, List.append_assoc] at htrans
                exact htrans
              · rw [List.take_succ_cons, List.reduceOption_cons_of_some, List.flatten_cons, ← hk]
              · rw [List.length_append]
                omega
              · rw [List.length_append, ← Nat.add_assoc]
                exact hvalue

/-- `buf_read_from_fd` where the bytes asked for would fit. -/
theorem Sound.readFromFd (h : b.Sound) {atMost : ℕ} (hfit : b.datalen + atMost ≤ bufMaxLen)
    {recvs : List (Option (List UInt8))} {r : ℤ}
    (hread : b.readFromFd junk atMost recvs total = some (r, b', total')) :
    ∃ got, Reads b total b' total' atMost recvs 0 r got := by
  have hsub : sizeSub bufMaxLen atMost = bufMaxLen - atMost :=
    sizeSub_of_le (by omega) (by decide)
  unfold Buf.readFromFd at hread
  rw [if_neg (by rw [hsub]; omega)] at hread
  exact readLoop_spec recvs h hread

/-- `buf_read_from_fd` where they would not. -/
theorem readFromFd_full {atMost : ℕ} (hlen : atMost ≤ bufMaxLen)
    (hfull : bufMaxLen < b.datalen + atMost) (recvs : List (Option (List UInt8))) :
    b.readFromFd junk atMost recvs total = some (-1, b, total) := by
  have hsub : sizeSub bufMaxLen atMost = bufMaxLen - atMost := sizeSub_of_le hlen (by decide)
  unfold Buf.readFromFd
  rw [if_pos (by rw [hsub]; omega)]

end Buf

end Dittor.Tor
