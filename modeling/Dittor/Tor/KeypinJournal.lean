import Dittor.Lib.Run
import Dittor.Tor.Keypin

/-!
# The key-pinning journal (`keypin.c`)

Every entry added to the maps is appended to a journal, a line of 71 characters and a newline, and
a restart loads the journal into empty maps and reopens it: a newline, for a last line that was
only partly written, and a line that starts with `@`. A crash leaves a prefix of the file, at any
byte.

`Replays` is what holds through all of that: whatever prefix of the journal is loaded, the maps are
those built by the records whose 71 characters are in the prefix.
-/

namespace Dittor.Tor

open Dittor.Lib

/-! ## Lines -/

/-- What `keypin_journal_append_entry` writes, up to the newline. -/
def journalLine (ent : KeypinEnt) : Bytes :=
  base64EncodeNopad ent.rsaId ++ byte ' ' :: base64EncodeNopad ent.ed25519Key

/-- `keypin_parse_journal_line` -/
def parseJournalLine (cp : Bytes) : Option KeypinEnt :=
  match base64Decode (cp.take 27) with
  | none => none
  | some rsaId =>
    if hrsa : rsaId.length = 20 then
      if cp[27]? ≠ some (byte ' ') then none
      else
        match base64Decode ((cp.drop 28).take 43) with
        | none => none
        | some ed25519Key =>
          if hed : ed25519Key.length = 32 then some ⟨rsaId, ed25519Key, hrsa, hed⟩ else none
    else none

namespace KeypinMaps

/-- One line in `keypin_load_journal_impl`; the counts of lines are only logged. -/
def loadLine (m : KeypinMaps) (line : Bytes) : Option KeypinMaps :=
  match line with
  | [] => some m
  | c :: _ =>
    if c = byte '@' then some m
    else if c = byte '#' then some m
    else if line.length ≠ 71 then some m
    else
      match parseJournalLine line with
      | none => some m
      | some ent => (m.addOrReplace ent).map Prod.fst

/-- `keypin_load_journal_impl`. The source has no line behind a last newline; an empty line does
nothing. -/
def loadJournal (m : KeypinMaps) (data : Bytes) : Option KeypinMaps :=
  (data.splitOn (byte '\n')).foldlM loadLine m

end KeypinMaps

theorem length_journalLine (ent : KeypinEnt) : (journalLine ent).length = 71 := by
  rw [journalLine, List.length_append, List.length_cons, length_base64EncodeNopad,
    length_base64EncodeNopad, ent.rsaId_length, ent.ed25519Key_length]

/-- No character of a line ends it or makes it a comment. -/
theorem mem_journalLine {ent : KeypinEnt} {b : UInt8} (h : b ∈ journalLine ent) :
    b ≠ byte '\n' ∧ b ≠ byte '@' ∧ b ≠ byte '#' := by
  rw [journalLine, List.mem_append, List.mem_cons] at h
  rcases h with h | rfl | h
  · exact mem_base64EncodeNopad h
  · decide
  · exact mem_base64EncodeNopad h

theorem parseJournalLine_journalLine (ent : KeypinEnt) :
    parseJournalLine (journalLine ent) = some ent := by
  have hrsa : (base64EncodeNopad ent.rsaId).length = 27 := by
    rw [length_base64EncodeNopad, ent.rsaId_length]
  have hed : (base64EncodeNopad ent.ed25519Key).length = 43 := by
    rw [length_base64EncodeNopad, ent.ed25519Key_length]
  have htake : (journalLine ent).take 27 = base64EncodeNopad ent.rsaId := by
    rw [journalLine, List.take_left' hrsa]
  have hblank : (journalLine ent)[27]? = some (byte ' ') := by
    rw [journalLine, List.getElem?_append_right (by omega), hrsa]
    rfl
  have hdrop : ((journalLine ent).drop 28).take 43 = base64EncodeNopad ent.ed25519Key := by
    rw [journalLine, List.drop_append, List.drop_of_length_le (by omega), hrsa]
    show (base64EncodeNopad ent.ed25519Key).take 43 = _
    exact List.take_of_length_le (by omega)
  unfold parseJournalLine
  simp only [htake, hblank, hdrop, base64Decode_nopad, ent.rsaId_length, ent.ed25519Key_length,
    ne_eq, not_true, if_false, dite_true]

/-! ## Loading -/

section Loading

variable {m : KeypinMaps}

/-- Text behind a newline is loaded into what the text before it gave. -/
theorem loadJournal_append (m : KeypinMaps) (a b : Bytes) :
    m.loadJournal (a ++ byte '\n' :: b) =
      (m.loadJournal a).bind fun m' => m'.loadJournal b := by
  rw [KeypinMaps.loadJournal, List.splitOn_append_cons_self, List.foldlM_append]
  rfl

theorem loadJournal_line {line : Bytes} (h : byte '\n' ∉ line) :
    m.loadJournal line = m.loadLine line := by
  rw [KeypinMaps.loadJournal, List.splitOn_eq_singleton h]
  exact bind_pure _

/-- A newline at the end adds nothing. -/
theorem loadJournal_newline (a : Bytes) : m.loadJournal (a ++ [byte '\n']) = m.loadJournal a := by
  rw [loadJournal_append]
  exact Option.bind_fun_some _

/-- A text that ends a line before it is loaded alone. -/
theorem loadJournal_ended {a : Bytes} (hend : ∃ a', a = a' ++ [byte '\n']) (b : Bytes) :
    m.loadJournal (a ++ b) = (m.loadJournal a).bind fun m' => m'.loadJournal b := by
  obtain ⟨a', rfl⟩ := hend
  rw [loadJournal_newline, List.append_assoc, List.singleton_append, loadJournal_append]

/-- A record that is not complete is skipped. -/
theorem loadJournal_torn (ent : KeypinEnt) {k : ℕ} (hk : k < 71) :
    m.loadJournal ((journalLine ent).take k) = some m := by
  have hlength : ((journalLine ent).take k).length = k := by
    rw [List.length_take, length_journalLine]
    omega
  have hline : ∀ b ∈ (journalLine ent).take k, b ≠ byte '\n' ∧ b ≠ byte '@' ∧ b ≠ byte '#' :=
    fun b hb => mem_journalLine (List.mem_of_mem_take hb)
  rw [loadJournal_line fun hmem => (hline _ hmem).1 rfl]
  unfold KeypinMaps.loadLine
  split
  · rfl
  · rename_i c rest heq
    obtain ⟨-, hat, hash⟩ := hline c (by rw [heq]; exact List.mem_cons_self)
    rw [if_neg hat, if_neg hash, if_pos (by rw [hlength]; omega)]

/-- A complete record is added. -/
theorem loadJournal_record (ent : KeypinEnt) :
    m.loadJournal (journalLine ent) = (m.addOrReplace ent).map Prod.fst := by
  rw [loadJournal_line fun hmem => (mem_journalLine hmem).1 rfl]
  unfold KeypinMaps.loadLine
  split
  · rename_i heq
    have := length_journalLine ent
    rw [heq] at this
    cases this
  · rename_i c rest heq
    obtain ⟨-, hat, hash⟩ := mem_journalLine (b := c) (by rw [heq]; exact List.mem_cons_self)
    rw [if_neg hat, if_neg hash, if_neg (by rw [length_journalLine]; omega),
      parseJournalLine_journalLine]

/-- A line that starts with `@` is skipped, whether it is complete or not. -/
theorem loadJournal_reserved {text : Bytes} (h : byte '\n' ∉ text) (k : ℕ) :
    m.loadJournal ((byte '@' :: text ++ [byte '\n']).take k) = some m := by
  have hline : ∀ j, m.loadJournal ((byte '@' :: text).take j) = some m := by
    intro j
    rw [loadJournal_line]
    · cases j with
      | zero => rfl
      | succ j => rw [List.take_succ_cons, KeypinMaps.loadLine, if_pos rfl]
    · intro hmem
      rcases List.mem_cons.mp (List.mem_of_mem_take hmem) with heq | hmem
      · exact absurd heq (by decide)
      · exact h hmem
  by_cases hk : k ≤ (byte '@' :: text).length
  · rw [List.take_append_of_le_length hk]
    exact hline k
  · rw [List.take_of_length_le (by rw [List.length_append, List.length_singleton]; omega),
      loadJournal_newline]
    simpa using hline (text.length + 1)

end Loading

/-! ## Calls -/

/-- What can happen to the maps. -/
inductive KeypinCall where
  | checkAndAdd (search : KeypinEnt) (replace : Bool)
  | loadJournal (data : Bytes)

namespace KeypinMaps

/-- `none` where an assertion fails. -/
def call (m : KeypinMaps) : KeypinCall → Option KeypinMaps
  | .checkAndAdd search replace => (m.checkAndAdd search replace).map Prod.fst
  | .loadJournal data => m.loadJournal data

/-- The entries added one after the other, as loading a journal adds them. -/
def replay (m : KeypinMaps) (ents : List KeypinEnt) : Option KeypinMaps :=
  ents.foldlM (fun m ent => (m.addOrReplace ent).map Prod.fst) m

end KeypinMaps

namespace Pinned

variable {m : KeypinMaps}

theorem loadLine (h : Pinned m) (line : Bytes) :
    ∃ m', m.loadLine line = some m' ∧ Pinned m' := by
  unfold KeypinMaps.loadLine
  split
  · exact ⟨m, rfl, h⟩
  · split_ifs
    · exact ⟨m, rfl, h⟩
    · exact ⟨m, rfl, h⟩
    · exact ⟨m, rfl, h⟩
    · split
      · exact ⟨m, rfl, h⟩
      · obtain ⟨m', r, hadd, hpinned, -⟩ := h.addOrReplace _
        exact ⟨m', by rw [hadd]; rfl, hpinned⟩

theorem loadJournal (h : Pinned m) (data : Bytes) :
    ∃ m', m.loadJournal data = some m' ∧ Pinned m' :=
  foldlM_of_keeps (fun _ line hm => hm.loadLine line) _ m h

theorem call (h : Pinned m) (c : KeypinCall) : ∃ m', m.call c = some m' ∧ Pinned m' := by
  cases c with
  | loadJournal data => exact h.loadJournal data
  | checkAndAdd search replace =>
    rcases h.checkAndAdd search replace with ⟨result, -, hcheck⟩ | ⟨m', r, hadd, hcheck, -⟩
    · exact ⟨m, by rw [KeypinMaps.call, hcheck]; rfl, h⟩
    · obtain ⟨m'', r', hadd', hpinned, -⟩ := h.addOrReplace search
      rw [hadd, Option.some_inj, Prod.mk.injEq] at hadd'
      obtain ⟨rfl, rfl⟩ := hadd'
      exact ⟨m', by rw [KeypinMaps.call, hcheck]; rfl, hpinned⟩

/-- Without replacement every entry stays. -/
theorem checkAndAdd_keeps (h : Pinned m) (search : KeypinEnt) :
    ∃ m' result, m.checkAndAdd search false = some (m', result) ∧
      ∀ ent ∈ m.rsaMap, ent ∈ m'.rsaMap := by
  rcases h.checkAndAdd search false with ⟨result, -, hcheck⟩ | ⟨m', r, hadd, hcheck, hfresh⟩
  · exact ⟨m, result, hcheck, fun _ hent => hent⟩
  · refine ⟨m', .added, hcheck, fun ent hent => ?_⟩
    obtain ⟨m'', r', hadd', -, hmem, -⟩ := h.addOrReplace search
    rw [hadd, Option.some_inj, Prod.mk.injEq] at hadd'
    obtain ⟨rfl, rfl⟩ := hadd'
    exact (hmem ent).mpr (.inr ⟨hent, hfresh rfl ent hent⟩)

end Pinned

/-! ## Histories -/

/-- A time as `format_iso_time` writes it; only that it stays on its line matters. -/
structure TimeText where
  text : Bytes
  oneLine : byte '\n' ∉ text

/-- What `keypin_open_journal` leaves in the file. -/
def openJournal (journal : Bytes) (time : TimeText) : Bytes :=
  journal ++ [byte '\n'] ++ (cstring "@opened-at " ++ time.text ++ [byte '\n'])

/-- The maps and the file, and with every record written the offset at which it is complete. -/
structure KeypinHistory where
  maps : KeypinMaps
  journal : Bytes
  written : List (KeypinEnt × ℕ)

/-- What happens over time: calls, and restarts that find the first `n` bytes of the file. -/
inductive KeypinEvent where
  | checkAndAdd (search : KeypinEnt) (replace : Bool)
  | restart (n : ℕ) (time : TimeText)

namespace KeypinHistory

/-- Empty maps, and a journal opened for the first time. -/
def start (time : TimeText) : KeypinHistory := ⟨.empty, openJournal [] time, []⟩

/-- The records that the first `n` bytes of the file complete. -/
def complete (s : KeypinHistory) (n : ℕ) : List (KeypinEnt × ℕ) :=
  s.written.filter fun record => record.2 ≤ n

def step (s : KeypinHistory) : KeypinEvent → Option KeypinHistory
  | .checkAndAdd search replace =>
    match s.maps.checkAndAdd search replace with
    | none => none
    | some (maps, .added) =>
      some ⟨maps, s.journal ++ (journalLine search ++ [byte '\n']),
        s.written ++ [(search, s.journal.length + (journalLine search).length)]⟩
    | some (maps, _) => some { s with maps := maps }
  | .restart n time =>
    match KeypinMaps.empty.loadJournal (s.journal.take n) with
    | none => none
    | some maps => some ⟨maps, openJournal (s.journal.take n) time, s.complete n⟩

end KeypinHistory

/-! ## Replaying -/

theorem replay_append (m : KeypinMaps) (ents : List KeypinEnt) (ent : KeypinEnt) :
    m.replay (ents ++ [ent]) =
      (m.replay ents).bind fun m' => (m'.addOrReplace ent).map Prod.fst := by
  rw [KeypinMaps.replay, List.foldlM_append]
  refine bind_congr fun m' => ?_
  exact bind_pure _

/-- A prefix of a record with its newline is loaded as the record if its characters are there, and
as nothing otherwise. -/
theorem loadJournal_take_record (m : KeypinMaps) (ent : KeypinEnt) (k : ℕ) :
    m.loadJournal ((journalLine ent ++ [byte '\n']).take k) =
      if 71 ≤ k then (m.addOrReplace ent).map Prod.fst else some m := by
  have hlength := length_journalLine ent
  split
  · by_cases hk : k = 71
    · rw [List.take_left' (hlength.trans hk.symm), loadJournal_record]
    · rw [List.take_of_length_le, loadJournal_newline, loadJournal_record]
      rw [List.length_append, List.length_singleton]
      omega
  · rw [List.take_append_of_le_length (by omega), loadJournal_torn ent (by omega)]

/-- What opening the journal adds is skipped, whether it is complete or not. -/
theorem loadJournal_take_openJournal (m : KeypinMaps) (journal : Bytes) (time : TimeText) (k : ℕ) :
    m.loadJournal ((openJournal journal time).take (journal.length + 1 + k)) =
      m.loadJournal journal := by
  have hline : byte '\n' ∉ cstring "opened-at " ++ time.text := by
    rw [List.mem_append]
    rintro (hmem | hmem)
    · exact absurd hmem (by decide)
    · exact time.oneLine hmem
  have hlength : (journal ++ [byte '\n']).length = journal.length + 1 := by
    rw [List.length_append, List.length_singleton]
  have hopened : cstring "@opened-at " ++ time.text ++ [byte '\n'] =
      byte '@' :: (cstring "opened-at " ++ time.text) ++ [byte '\n'] := rfl
  rw [openJournal, ← hlength, List.take_length_add_append, loadJournal_ended ⟨journal, rfl⟩,
    loadJournal_newline, hopened]
  simp only [loadJournal_reserved hline]
  exact Option.bind_fun_some _

theorem complete_append (s : KeypinHistory) (maps : KeypinMaps) (journal : Bytes) (ent : KeypinEnt)
    (offset n : ℕ) :
    (KeypinHistory.mk maps journal (s.written ++ [(ent, offset)])).complete n =
      s.complete n ++ if offset ≤ n then [(ent, offset)] else [] := by
  rw [KeypinHistory.complete, List.filter_append]
  congr 1
  by_cases h : offset ≤ n <;> simp [h]

/-- The maps are what the journal gives, and a prefix of the journal gives what the records that are
complete in it built up. -/
structure Replays (s : KeypinHistory) : Prop where
  pinned : Pinned s.maps
  ended : ∃ a, s.journal = a ++ [byte '\n']
  inside : ∀ record ∈ s.written, record.2 ≤ s.journal.length
  current : KeypinMaps.empty.loadJournal s.journal = some s.maps
  loads : ∀ n, KeypinMaps.empty.loadJournal (s.journal.take n) =
    KeypinMaps.empty.replay ((s.complete n).map Prod.fst)

namespace Replays

variable {s : KeypinHistory}

theorem complete_all (h : Replays s) {n : ℕ} (hn : s.journal.length ≤ n) :
    s.complete n = s.written :=
  List.filter_eq_self.mpr fun record hrecord =>
    decide_eq_true ((h.inside record hrecord).trans hn)

theorem replay_written (h : Replays s) :
    KeypinMaps.empty.replay (s.written.map Prod.fst) = some s.maps := by
  rw [← h.complete_all (le_refl _), ← h.loads, List.take_length, h.current]

/-- An entry that is added is appended. -/
theorem append (h : Replays s) {ent : KeypinEnt} {maps : KeypinMaps} {r : ℤ}
    (hadd : s.maps.addOrReplace ent = some (maps, r)) :
    Replays ⟨maps, s.journal ++ (journalLine ent ++ [byte '\n']),
      s.written ++ [(ent, s.journal.length + (journalLine ent).length)]⟩ := by
  have hlength := length_journalLine ent
  have hmaps : (s.maps.addOrReplace ent).map Prod.fst = some maps := by rw [hadd]; rfl
  refine ⟨?_, ⟨s.journal ++ journalLine ent, by simp⟩, ?_, ?_, fun n => ?_⟩
  · obtain ⟨maps', r', hadd', hpinned, -⟩ := h.pinned.addOrReplace ent
    rw [hadd, Option.some_inj, Prod.mk.injEq] at hadd'
    exact hadd'.1 ▸ hpinned
  · intro record hrecord
    simp only [List.length_append, List.length_singleton]
    rcases List.mem_append.mp hrecord with hrecord | hrecord
    · have := h.inside record hrecord
      omega
    · rw [List.mem_singleton.mp hrecord]
      omega
  · rw [loadJournal_ended h.ended, h.current, Option.bind_some, loadJournal_newline,
      loadJournal_record, hmaps]
  · by_cases hn : n ≤ s.journal.length
    · rw [List.take_append_of_le_length hn, h.loads n, complete_append, if_neg (by omega),
        List.append_nil]
    · obtain ⟨k, rfl⟩ : ∃ k, n = s.journal.length + k := ⟨n - s.journal.length, by omega⟩
      rw [List.take_length_add_append, loadJournal_ended h.ended, h.current, Option.bind_some,
        loadJournal_take_record, complete_append, h.complete_all (by omega), hlength]
      by_cases hk : 71 ≤ k
      · rw [if_pos hk, if_pos (by omega), List.map_append, List.map_singleton, replay_append,
          h.replay_written]
        rfl
      · rw [if_neg hk, if_neg (by omega), List.append_nil, h.replay_written]

/-- A restart finds a prefix of the file and goes on behind it. -/
theorem restart (h : Replays s) (n : ℕ) (time : TimeText) {maps : KeypinMaps}
    (hmaps : KeypinMaps.empty.loadJournal (s.journal.take n) = some maps) :
    Replays ⟨maps, openJournal (s.journal.take n) time, s.complete n⟩ := by
  have hinside : ∀ record ∈ s.complete n, record.2 ≤ (s.journal.take n).length := by
    intro record hrecord
    obtain ⟨hmem, hn⟩ := List.mem_filter.mp hrecord
    rw [List.length_take]
    exact le_min (of_decide_eq_true hn) (h.inside record hmem)
  have hbehind : ∀ k, KeypinMaps.empty.loadJournal
      ((openJournal (s.journal.take n) time).take ((s.journal.take n).length + 1 + k)) =
        some maps := fun k => (loadJournal_take_openJournal _ _ time k).trans hmaps
  have hlength : (openJournal (s.journal.take n) time).length =
      (s.journal.take n).length + 1 + (cstring "@opened-at " ++ time.text ++ [byte '\n']).length := by
    rw [openJournal, List.length_append, List.length_append, List.length_singleton]
  refine ⟨?_, ⟨_, (List.append_assoc _ _ _).symm⟩, ?_, ?_, fun k => ?_⟩
  · obtain ⟨maps', hmaps', hpinned⟩ := Pinned.empty.loadJournal (s.journal.take n)
    rw [hmaps, Option.some_inj] at hmaps'
    exact hmaps' ▸ hpinned
  · intro record hrecord
    have := hinside record hrecord
    show record.2 ≤ (openJournal (s.journal.take n) time).length
    omega
  · have := hbehind (cstring "@opened-at " ++ time.text ++ [byte '\n']).length
    rwa [← hlength, List.take_length] at this
  · show _ = KeypinMaps.empty.replay
      (((s.complete n).filter fun record => record.2 ≤ k).map Prod.fst)
    by_cases hk : k ≤ (s.journal.take n).length
    · rw [openJournal, List.append_assoc, List.take_append_of_le_length hk, List.take_take,
        h.loads, KeypinHistory.complete, KeypinHistory.complete, List.filter_filter]
      simp only [le_min_iff, Bool.decide_and]
    · obtain ⟨j, rfl⟩ : ∃ j, k = (s.journal.take n).length + 1 + j :=
        ⟨k - ((s.journal.take n).length + 1), by omega⟩
      rw [hbehind j, List.filter_eq_self.mpr, ← h.loads n, hmaps]
      intro record hrecord
      have := hinside record hrecord
      exact decide_eq_true (by omega)

/-- One event. -/
theorem step (h : Replays s) (event : KeypinEvent) : ∃ s', s.step event = some s' ∧ Replays s' := by
  cases event with
  | checkAndAdd search replace =>
    rcases h.pinned.checkAndAdd search replace with
      ⟨result, hresult, hcheck⟩ | ⟨maps, r, hadd, hcheck, -⟩
    · refine ⟨s, ?_, h⟩
      simp only [KeypinHistory.step, hcheck]
    · exact ⟨_, by rw [KeypinHistory.step, hcheck], h.append hadd⟩
  | restart n time =>
    obtain ⟨maps, hmaps, -⟩ := Pinned.empty.loadJournal (s.journal.take n)
    exact ⟨_, by rw [KeypinHistory.step, hmaps], h.restart n time hmaps⟩

theorem start (time : TimeText) : Replays (KeypinHistory.start time) := by
  have hopened : ∀ k, KeypinMaps.empty.loadJournal ((openJournal [] time).take (1 + k)) =
      some .empty := by
    intro k
    have := loadJournal_take_openJournal .empty [] time k
    rwa [List.length_nil, Nat.zero_add] at this
  refine ⟨Pinned.empty, ⟨_, (List.append_assoc _ _ _).symm⟩, by simp [KeypinHistory.start], ?_,
    fun n => ?_⟩
  · have := hopened (openJournal [] time).length
    rwa [List.take_of_length_le (by omega)] at this
  · cases n with
    | zero => rfl
    | succ n =>
      rw [Nat.add_comm n 1]
      exact hopened n

end Replays

/-- Whatever is called and loaded, no assertion fails, the maps hold the same entries and are a
bijection, and a call without replacement keeps every entry. Whatever the history with its crashes
and restarts, loading the journal gives the maps, and loading any prefix of it gives the maps that
the records complete in it built up. -/
theorem key_pinning_survives_restarts :
    (∀ calls : List KeypinCall, ∃ m, calls.foldlM KeypinMaps.call .empty = some m ∧ Pinned m ∧
      ∀ search, ∃ m' result, m.checkAndAdd search false = some (m', result) ∧
        ∀ ent ∈ m.rsaMap, ent ∈ m'.rsaMap) ∧
    ∀ (time : TimeText) (events : List KeypinEvent),
      ∃ s, events.foldlM KeypinHistory.step (.start time) = some s ∧
        KeypinMaps.empty.loadJournal s.journal = some s.maps ∧
        ∀ n, ∃ m, KeypinMaps.empty.loadJournal (s.journal.take n) = some m ∧
          KeypinMaps.empty.replay ((s.complete n).map Prod.fst) = some m := by
  refine ⟨fun calls => ?_, fun time events => ?_⟩
  · obtain ⟨m, hrun, hpinned⟩ :=
      foldlM_of_keeps (fun _ c hm => Pinned.call hm c) calls .empty Pinned.empty
    exact ⟨m, hrun, hpinned, hpinned.checkAndAdd_keeps⟩
  · obtain ⟨s, hrun, hs⟩ :=
      foldlM_of_keeps (fun _ event hs => Replays.step hs event) events _ (Replays.start time)
    refine ⟨s, hrun, hs.current, fun n => ?_⟩
    obtain ⟨m, hload, -⟩ := Pinned.empty.loadJournal (s.journal.take n)
    exact ⟨m, hload, (hs.loads n).symm.trans hload⟩

end Dittor.Tor
