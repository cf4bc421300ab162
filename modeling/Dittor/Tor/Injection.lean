import Dittor.Tor.Pipeline

/-!
# When the injected proof is a whole line (`router.c`)

`router_dump_router_to_string` reads the first line of the proof file into a
buffer of `proofBufSize` bytes and appends the missing newline into the same
buffer. What comes out depends on where the line ends: within the buffer it is
appended whole (`injectProof_whole`); a NUL in it cuts it there
(`injectProof_nul`); and a line that fills the buffer is appended without its rest
and without a newline, because `strncat` has no room left (`injectProof_full`).
The three cover every file, and `injects_whole_line_iff` reads off when the text
is a whole line.
-/

namespace Dittor.Tor

section Lists

variable {α : Type*} {p : α → Bool} {x : α} {l : List α}

/-- Behind an element that stops it `takeWhile` reads nothing. -/
theorem takeWhile_append_of_stop (hx : x ∈ l) (hp : p x = false) (l' : List α) :
    (l ++ l').takeWhile p = l.takeWhile p := by
  have hall : ¬ ∀ y ∈ l, p y = true := fun h => by simpa [hp] using h x hx
  rw [List.takeWhile_append, if_neg]
  intro hlen
  exact hall (List.takeWhile_eq_self_iff.mp ((List.takeWhile_prefix p).eq_of_length hlen))

theorem length_takeWhile_lt (hx : x ∈ l) (hp : p x = false) : (l.takeWhile p).length < l.length := by
  have hne : (l.takeWhile p).length ≠ l.length := by
    intro hlen
    have hall := List.takeWhile_eq_self_iff.mp ((List.takeWhile_prefix p).eq_of_length hlen)
    simpa [hp] using hall x hx
  exact lt_of_le_of_ne (List.takeWhile_prefix p).length_le hne

end Lists

section Injection

variable {content : Bytes}

/-- A line holds no newline. -/
theorem newline_notMem_lineOf (content : Bytes) : byte '\n' ∉ lineOf content := by
  intro h
  have := List.mem_takeWhile_imp h
  simp at this

/-- What `fgets` leaves in the buffer, as a C string: the line up to a NUL or the
end of the buffer, with its newline where that still fits. -/
theorem injectProof_eq (hne : content ≠ []) :
    injectProof (some content) =
      let proofBuf := (((lineOf content ++ (afterLine content).take 1).take (proofBufSize - 1)).takeWhile
        fun b => b ≠ 0)
      if 0 < proofBuf.length ∧ proofBuf.getLast? ≠ some (byte '\n') then
        proofBuf ++ (cstring "\n").take (proofBufSize - proofBuf.length - 1)
      else proofBuf := by
  unfold injectProof fgets
  rw [Option.bind_some, if_neg hne]

/-- The C string in the buffer when it ends inside the line. -/
theorem injectProof_of_start {read : Bytes} (hne : content ≠ []) (hread : read ≠ [])
    (hstart : read <+: lineOf content)
    (hbuf : ((lineOf content ++ (afterLine content).take 1).take (proofBufSize - 1)).takeWhile
      (fun b => b ≠ 0) = read) :
    injectProof (some content) = read ++ (cstring "\n").take (proofBufSize - read.length - 1) := by
  have hlast : read.getLast? ≠ some (byte '\n') := by
    intro h
    exact newline_notMem_lineOf content (hstart.subset (List.mem_of_getLast? h))
  rw [injectProof_eq hne]
  dsimp only
  rw [hbuf, if_pos ⟨List.length_pos_iff.mpr hread, hlast⟩]

/-- A line without NULs that leaves room for its newline is appended with it. -/
theorem injectProof_whole (hne : content ≠ []) (h0 : 0 ∉ lineOf content)
    (hlen : (lineOf content).length + 1 < proofBufSize) :
    injectProof (some content) = lineOf content ++ [byte '\n'] := by
  have hclean : ∀ b ∈ lineOf content, decide (b ≠ 0) = true := by
    intro b hb
    exact decide_eq_true fun h => h0 (h ▸ hb)
  cases hafter : afterLine content with
  | nil =>
    -- the file ends without a newline: `strncat` adds it
    have hline : lineOf content ≠ [] := by
      intro h
      apply hne
      rw [← List.takeWhile_append_dropWhile (p := fun b => decide (b ≠ byte '\n')) (l := content)]
      show lineOf content ++ afterLine content = []
      rw [h, hafter, List.append_nil]
    rw [injectProof_of_start hne hline (List.prefix_refl _)]
    · rw [List.take_of_length_le]
      · rfl
      · show 1 ≤ proofBufSize - (lineOf content).length - 1
        omega
    · rw [hafter, List.take_nil, List.append_nil, List.take_of_length_le (by omega)]
      exact List.takeWhile_eq_self_iff.mpr hclean
  | cons b rest =>
    have hb : b = byte '\n' := by
      have h := List.head?_dropWhile_not (fun b => decide (b ≠ byte '\n')) content
      rw [show content.dropWhile (fun b => decide (b ≠ byte '\n')) = b :: rest from hafter] at h
      simpa using h
    have hread : ((lineOf content ++ (afterLine content).take 1).take (proofBufSize - 1)).takeWhile
        (fun b => b ≠ 0) = lineOf content ++ [byte '\n'] := by
      rw [hafter, hb, List.take_of_length_le]
      · apply List.takeWhile_eq_self_iff.mpr
        intro c hc
        obtain hc | hc := List.mem_append.mp hc
        · exact hclean c hc
        · rw [List.mem_singleton.mp hc]
          decide
      · rw [List.length_append]
        show (lineOf content).length + 1 ≤ proofBufSize - 1
        omega
    rw [injectProof_eq hne]
    dsimp only
    rw [hread, if_neg]
    rintro ⟨-, hlast⟩
    exact hlast (by rw [List.getLast?_append_of_ne_nil _ (by simp)]; rfl)

/-- A NUL within the buffer ends the text: only what stands in front of it is
appended, with a newline, and nothing when it is the first byte. -/
theorem injectProof_nul (hne : content ≠ []) (h0 : 0 ∈ (lineOf content).take (proofBufSize - 1)) :
    injectProof (some content) =
      let front := (lineOf content).takeWhile fun b => b ≠ 0
      if front = [] then [] else front ++ [byte '\n'] := by
  have hread : ((lineOf content ++ (afterLine content).take 1).take (proofBufSize - 1)).takeWhile
      (fun b => b ≠ 0) = (lineOf content).takeWhile fun b => b ≠ 0 := by
    rw [List.take_append, takeWhile_append_of_stop (x := 0) h0 (by decide)]
    conv_rhs => rw [← List.take_append_drop (proofBufSize - 1) (lineOf content)]
    rw [takeWhile_append_of_stop (x := 0) h0 (by decide)]
  by_cases hfront : (lineOf content).takeWhile (fun b => b ≠ 0) = []
  · rw [injectProof_eq hne]
    dsimp only
    rw [hread, hfront]
    rfl
  · have hlt : ((lineOf content).takeWhile fun b => b ≠ 0).length < proofBufSize - 1 := by
      rw [← List.take_append_drop (proofBufSize - 1) (lineOf content),
        takeWhile_append_of_stop (x := 0) h0 (by decide)]
      exact lt_of_lt_of_le (length_takeWhile_lt (x := 0) h0 (by decide)) (List.length_take_le _ _)
    rw [injectProof_of_start hne hfront (List.takeWhile_prefix _) hread]
    dsimp only
    rw [if_neg hfront, List.take_of_length_le]
    · rfl
    · show 1 ≤ proofBufSize - _ - 1
      omega

/-- A line that fills the buffer is appended as far as it was read, without a newline. -/
theorem injectProof_full (h0 : 0 ∉ (lineOf content).take (proofBufSize - 1))
    (hlen : proofBufSize ≤ (lineOf content).length + 1) :
    injectProof (some content) = (lineOf content).take (proofBufSize - 1) := by
  have hlength : ((lineOf content).take (proofBufSize - 1)).length = proofBufSize - 1 := by
    rw [List.length_take]
    omega
  have hpos : 0 < proofBufSize - 1 := by decide
  have hread : (lineOf content).take (proofBufSize - 1) ≠ [] := by
    rw [← List.length_pos_iff, hlength]
    exact hpos
  have hne : content ≠ [] := by
    intro h
    rw [h] at hread
    exact hread rfl
  rw [injectProof_of_start hne hread (List.take_prefix _ _), hlength,
    show proofBufSize - (proofBufSize - 1) - 1 = 0 by decide, List.take_zero, List.append_nil]
  rw [List.take_append_of_le_length (by omega)]
  apply List.takeWhile_eq_self_iff.mpr
  intro b hb
  exact decide_eq_true fun h => h0 (h ▸ hb)

end Injection

/-! ## The exact condition -/

/-- The text appended for the file is nothing or the file's first line with one
newline, so that the next item starts on a new line. -/
def InjectsWholeLine (file : Option Bytes) : Prop :=
  (injectProof file = []
      ∨ ∃ content, file = some content ∧ injectProof file = lineOf content ++ [byte '\n'])
    ∧ ∀ chunks, EndsLine chunks → EndsLine (chunks ++ injectProof file)

/-- The file's first line and its newline leave room for the final NUL of the
buffer, and there is no other NUL in it; or there is nothing to read. -/
def FitsBuffer (content : Bytes) : Prop :=
  content.head? = none ∨ content.head? = some 0
    ∨ (0 ∉ lineOf content ∧ (lineOf content).length + 1 < proofBufSize)

theorem injectsWholeLine_of_nil {file : Option Bytes} (h : injectProof file = []) :
    InjectsWholeLine file := by
  refine ⟨.inl h, ?_⟩
  intro chunks hchunks
  rw [h, List.append_nil]
  exact hchunks

theorem endsLine_append_newline (s t : Bytes) : EndsLine (s ++ (t ++ [byte '\n'])) := by
  rw [← List.append_assoc]
  exact endsLine_newline (s ++ t)

/-- A first byte NUL: nothing is appended. -/
theorem injectProof_head_nul {content : Bytes} (h : content.head? = some 0) :
    injectProof (some content) = [] := by
  obtain ⟨rest, rfl⟩ := List.head?_eq_some_iff.mp h
  have hline : lineOf (0 :: rest) = 0 :: lineOf rest := List.takeWhile_cons_of_pos (by decide)
  rw [injectProof_nul (by simp) (by rw [hline]; exact List.mem_cons_self), hline]
  rfl

/-- **The injected proof is a whole line exactly when the file's first line fits.**
It does for a missing or empty file, for one that starts with a NUL, and when the
first line holds no NUL and has at most `proofBufSize - 2` bytes. -/
theorem injects_whole_line_iff (file : Option Bytes) :
    InjectsWholeLine file ↔ ∀ content, file = some content → FitsBuffer content := by
  constructor
  · rintro ⟨hwhole, -⟩ content rfl
    by_contra hfits
    unfold FitsBuffer at hfits
    push Not at hfits
    obtain ⟨hne, hhead, hlong⟩ := hfits
    have hne' : content ≠ [] := fun h => hne (by rw [h]; rfl)
    by_cases h0 : 0 ∈ (lineOf content).take (proofBufSize - 1)
    · -- the text in front of the NUL is not empty and not the line
      have hfront : (lineOf content).takeWhile (fun b => b ≠ 0) ≠ [] := by
        intro hnil
        obtain ⟨b, rest, rfl⟩ := List.exists_cons_of_ne_nil hne'
        have hb : b ≠ 0 := fun h => hhead (by rw [h]; rfl)
        by_cases hnl : b = byte '\n'
        · have hline : lineOf (b :: rest) = [] :=
            List.takeWhile_cons_of_neg (by simpa using hnl)
          rw [hline, List.take_nil] at h0
          exact absurd h0 (by simp)
        · have hline : lineOf (b :: rest) = b :: lineOf rest :=
            List.takeWhile_cons_of_pos (by simpa using hnl)
          rw [hline, List.takeWhile_cons_of_pos (by simpa using hb)] at hnil
          exact absurd hnil (by simp)
      rw [injectProof_nul hne' h0] at hwhole
      dsimp only at hwhole
      rw [if_neg hfront] at hwhole
      obtain hnil | ⟨content', hcontent, heq⟩ := hwhole
      · exact absurd hnil (by simp)
      · rw [← Option.some.inj hcontent] at heq
        have hsame := List.append_cancel_right heq
        have hmem : (0 : UInt8) ∈ (lineOf content).takeWhile fun b => b ≠ 0 := by
          rw [hsame]
          exact List.mem_of_mem_take h0
        exact absurd (List.mem_takeWhile_imp hmem) (by simp)
    · have hfull : proofBufSize ≤ (lineOf content).length + 1 := by
        by_contra hshort
        rw [List.take_of_length_le (by omega)] at h0
        exact hshort (hlong h0)
      rw [injectProof_full h0 hfull] at hwhole
      have hlength : ((lineOf content).take (proofBufSize - 1)).length = proofBufSize - 1 := by
        rw [List.length_take]
        omega
      obtain hnil | ⟨content', hcontent, heq⟩ := hwhole
      · rw [hnil] at hlength
        exact absurd hlength (by decide)
      · rw [← Option.some.inj hcontent] at heq
        have hl := congrArg List.length heq
        rw [hlength, List.length_append, List.length_singleton] at hl
        omega
  · intro hfits
    cases file with
    | none => exact injectsWholeLine_of_nil rfl
    | some content =>
      obtain hnone | hnul | ⟨h0, hlen⟩ := hfits content rfl
      · rw [List.head?_eq_none_iff.mp hnone]
        exact injectsWholeLine_of_nil rfl
      · exact injectsWholeLine_of_nil (injectProof_head_nul hnul)
      · by_cases hne : content = []
        · rw [hne]
          exact injectsWholeLine_of_nil rfl
        · have hwhole := injectProof_whole hne h0 hlen
          refine ⟨.inr ⟨content, rfl, hwhole⟩, fun chunks _ => ?_⟩
          rw [hwhole]
          exact endsLine_append_newline chunks _

/-- A first line of `proofBufSize - 1` bytes: all of it is appended and no newline,
so that the keyword of the next item continues the line. -/
theorem full_buffer_has_no_newline :
    injectProof (some (List.replicate (proofBufSize - 1) (byte 'a') ++ [byte '\n']))
        = List.replicate (proofBufSize - 1) (byte 'a')
      ∧ ¬ InjectsWholeLine (some (List.replicate (proofBufSize - 1) (byte 'a') ++ [byte '\n'])) := by
  have hline : lineOf (List.replicate (proofBufSize - 1) (byte 'a') ++ [byte '\n'])
      = List.replicate (proofBufSize - 1) (byte 'a') := by
    unfold lineOf
    rw [List.takeWhile_append_of_pos]
    · rw [List.takeWhile_cons_of_neg (by decide), List.append_nil]
    · intro b hb
      rw [List.eq_of_mem_replicate hb]
      decide
  have hnul : (0 : UInt8) ∉ List.replicate (proofBufSize - 1) (byte 'a') := by
    intro h
    exact absurd (List.eq_of_mem_replicate h) (by decide)
  have htake : (List.replicate (proofBufSize - 1) (byte 'a')).take (proofBufSize - 1)
      = List.replicate (proofBufSize - 1) (byte 'a') :=
    List.take_of_length_le (by rw [List.length_replicate])
  have hfull : injectProof (some (List.replicate (proofBufSize - 1) (byte 'a') ++ [byte '\n']))
      = List.replicate (proofBufSize - 1) (byte 'a') := by
    rw [injectProof_full, hline, htake]
    · rw [hline, htake]
      exact hnul
    · rw [hline, List.length_replicate]
      decide
  refine ⟨hfull, ?_⟩
  rintro ⟨-, hnext⟩
  -- an empty descriptor ends a line, the one with the proof does not
  have hends := hnext [] (by simp [EndsLine])
  rw [List.nil_append, hfull] at hends
  have hlast : (List.replicate (proofBufSize - 1) (byte 'a')).getLast? = some (byte 'a') := by
    rw [List.getLast?_replicate]
    decide
  exact absurd (hends _ hlast) (by decide)

end Dittor.Tor
