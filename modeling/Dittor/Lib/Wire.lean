import Mathlib

/-!
# Readers and writers of byte strings

A reader takes what it needs off the front of its input and may fail; a writer is
the bytes of a value. `Reads r bytes a` says that `r`, given `bytes` and anything
behind them, returns `a` and leaves exactly what is behind. Its rules follow the
way readers are built: nothing, one after the other, a counted loop. A message
decodes to what was encoded by one application of them for each field.
-/

namespace Dittor.Lib

/-- A reader of bytes; `none` is an exception. -/
abbrev Reader := StateT (List UInt8) Option

namespace Reader

variable {α : Type}

/-- The next `n` bytes. -/
def take (n : ℕ) : Reader (List UInt8) := fun input =>
  if n ≤ input.length then some (input.take n, input.drop n) else none

/-- A value that may be missing, without reading. -/
def ofOption (x : Option α) : Reader α := fun input => x.map fun a => (a, input)

/-- The same reader `n` times, as a loop that collects the results. -/
def times (r : Reader α) : ℕ → Reader (List α)
  | 0 => pure []
  | n + 1 => do
    let a ← r
    let l ← times r n
    return a :: l

end Reader

/-- The reader takes exactly `bytes` off its input, and returns `a`. -/
def Reads {α : Type} (r : Reader α) (bytes : List UInt8) (a : α) : Prop :=
  ∀ rest, r (bytes ++ rest) = some (a, rest)

section Rules

variable {α β : Type}

theorem Reads.pure (a : α) : Reads (Pure.pure a) [] a := fun _ => rfl

theorem Reads.bind {r : Reader α} {f : α → Reader β} {bytes bytes' : List UInt8} {a : α} {b : β}
    (hr : Reads r bytes a) (hf : Reads (f a) bytes' b) : Reads (r >>= f) (bytes ++ bytes') b := by
  intro rest
  show (r (bytes ++ bytes' ++ rest)).bind (fun x => f x.1 x.2) = some (b, rest)
  rw [List.append_assoc, hr, Option.bind_some]
  exact hf rest

/-- The last field of a record: nothing more is read behind it. -/
theorem Reads.last {r : Reader α} {f : α → Reader β} {bytes : List UInt8} {a : α} {b : β}
    (hr : Reads r bytes a) (hf : Reads (f a) [] b) : Reads (r >>= f) bytes b := by
  have h := Reads.bind hr hf
  rwa [List.append_nil] at h

theorem Reads.map {r : Reader α} {f : α → β} {bytes : List UInt8} {a : α} (hr : Reads r bytes a) :
    Reads (f <$> r) bytes (f a) := by
  intro rest
  show (r (bytes ++ rest)).bind (fun x => some (f x.1, x.2)) = some (f a, rest)
  rw [hr, Option.bind_some]

theorem reads_ofOption {x : Option α} {a : α} (h : x = some a) :
    Reads (Reader.ofOption x) [] a := by
  intro rest
  rw [Reader.ofOption, h, Option.map_some, List.nil_append]

theorem reads_take (bytes : List UInt8) : Reads (Reader.take bytes.length) bytes bytes := by
  intro rest
  rw [Reader.take, if_pos (by rw [List.length_append]; omega), List.take_left, List.drop_left]

/-- A loop over a list reads the elements that were written one after the other. -/
theorem Reads.times {r : Reader α} {write : α → List UInt8} :
    ∀ {l : List α}, (∀ a ∈ l, Reads r (write a) a) →
      Reads (r.times l.length) (l.flatMap write) l := by
  intro l
  induction l with
  | nil => intro _; exact Reads.pure []
  | cons a l ih =>
    intro h
    have hrest := ih fun b hb => h b (List.mem_cons_of_mem a hb)
    rw [List.flatMap_cons]
    exact Reads.bind (h a List.mem_cons_self) (Reads.last hrest (Reads.pure (a :: l)))

end Rules

/-! ## Integers -/

/-- Four bytes of a number, the highest first. -/
def be32 (n : ℕ) : List UInt8 :=
  [UInt8.ofNat (n / 16777216), UInt8.ofNat (n / 65536), UInt8.ofNat (n / 256), UInt8.ofNat n]

/-- The number of four bytes. -/
def readBe32 : Reader ℕ := do
  let bytes ← Reader.take 4
  return bytes.foldl (fun acc b => acc * 256 + b.toNat) 0

theorem reads_be32 {n : ℕ} (h : n < 2 ^ 32) : Reads readBe32 (be32 n) n := by
  have hvalue : (be32 n).foldl (fun acc b => acc * 256 + b.toNat) 0 = n := by
    simp only [be32, List.foldl_cons, List.foldl_nil, UInt8.toNat_ofNat']
    omega
  refine Reads.last (reads_take (be32 n)) ?_
  rw [hvalue]
  exact Reads.pure n

/-- A signed integer of 32 bits as its two's complement. -/
def int32Bits (i : ℤ) : ℕ := (i % 2 ^ 32).toNat

/-- The signed integer of a two's complement. -/
def ofInt32Bits (n : ℕ) : ℤ := if n < 2 ^ 31 then n else (n : ℤ) - 2 ^ 32

/-- The range of a signed integer of 32 bits. -/
def IsInt32 (i : ℤ) : Prop := -2 ^ 31 ≤ i ∧ i < 2 ^ 31

theorem int32Bits_lt (i : ℤ) : int32Bits i < 2 ^ 32 := by
  unfold int32Bits
  omega

theorem ofInt32Bits_int32Bits {i : ℤ} (h : IsInt32 i) : ofInt32Bits (int32Bits i) = i := by
  obtain ⟨hlow, hhigh⟩ := h
  unfold ofInt32Bits int32Bits
  split <;> omega

end Dittor.Lib
