import Mathlib.Tactic

/-! Fixed-size byte areas with range-checked reads and writes. A write that would
leave the area has no result, so an out-of-range access is visible to the caller. -/
namespace Memory

/-- A byte array of `n` cells. -/
structure Buffer (n : ℕ) where
  bytes : List UInt8
  size_eq : bytes.length = n
  deriving DecidableEq

/-- At most `n` bytes, as an external routine writes them into an area of that size. -/
abbrev Block (n : ℕ) := { bytes : List UInt8 // bytes.length ≤ n }

namespace Buffer
variable {n : ℕ}

attribute [simp] size_eq

theorem ext_bytes {b c : Buffer n} (h : b.bytes = c.bytes) : b = c := by
  cases b
  cases c
  simpa using h

def zero (n : ℕ) : Buffer n := ⟨List.replicate n 0, List.length_replicate⟩

@[simp] theorem zero_bytes (n : ℕ) : (zero n).bytes = List.replicate n 0 := rfl

def get? (b : Buffer n) (i : ℕ) : Option UInt8 := b.bytes[i]?

/-- The `len` cells from `off` on. -/
def read? (b : Buffer n) (off len : ℕ) : Option (List UInt8) :=
  if off + len ≤ n then some ((b.bytes.drop off).take len) else none

/-- The area with `data` laid over the cells from `off` on; unchanged when it does not fit. -/
def splice (b : Buffer n) (off : ℕ) (data : List UInt8) : Buffer n :=
  if h : off + data.length ≤ n then
    ⟨b.bytes.take off ++ data ++ b.bytes.drop (off + data.length), by
      simp only [List.length_append, List.length_take, List.length_drop, size_eq]
      omega⟩
  else b

def write? (b : Buffer n) (off : ℕ) (data : List UInt8) : Option (Buffer n) :=
  if off + data.length ≤ n then some (b.splice off data) else none

def set? (b : Buffer n) (i : ℕ) (v : UInt8) : Option (Buffer n) := b.write? i [v]

theorem get?_eq_some {b : Buffer n} {i : ℕ} (h : i < n) :
    ∃ v, b.get? i = some v ∧ b.bytes[i]? = some v :=
  ⟨b.bytes.get ⟨i, by simpa using h⟩, by simp [get?], by simp⟩

theorem read?_of_le {b : Buffer n} {off len : ℕ} (h : off + len ≤ n) :
    b.read? off len = some ((b.bytes.drop off).take len) := if_pos h

theorem write?_of_le {b : Buffer n} {off : ℕ} {data : List UInt8}
    (h : off + data.length ≤ n) : b.write? off data = some (b.splice off data) := if_pos h

theorem write?_eq_some {b c : Buffer n} {off : ℕ} {data : List UInt8}
    (h : b.write? off data = some c) : off + data.length ≤ n ∧ c = b.splice off data := by
  unfold write? at h
  split at h
  next hle => exact ⟨hle, (Option.some.inj h).symm⟩
  next => simp at h

theorem set?_of_lt {b : Buffer n} {i : ℕ} {v : UInt8} (h : i < n) :
    b.set? i v = some (b.splice i [v]) := write?_of_le (by simpa using h)

theorem splice_bytes {b : Buffer n} {off : ℕ} {data : List UInt8}
    (h : off + data.length ≤ n) :
    (b.splice off data).bytes =
      b.bytes.take off ++ data ++ b.bytes.drop (off + data.length) := by
  simp [splice, h]

theorem set?_of_le {b : Buffer n} {i : ℕ} {v : UInt8} (h : n ≤ i) : b.set? i v = none :=
  if_neg (by simp; omega)

/-- Cells before the written range keep their contents. -/
theorem take_splice {b : Buffer n} {k off : ℕ} {data : List UInt8} (hk : k ≤ off) :
    (b.splice off data).bytes.take k = b.bytes.take k := by
  by_cases h : off + data.length ≤ n
  · rw [splice_bytes h, List.append_assoc, List.take_append_of_le_length (by simp; omega),
      List.take_take, Nat.min_eq_left hk]
  · simp [splice, h]

/-- Reading through the end of a write gives the old prefix followed by the data. -/
theorem take_splice_end {b : Buffer n} {k off : ℕ} {data : List UInt8}
    (h : off + data.length ≤ n) (hk : k = off + data.length) :
    (b.splice off data).bytes.take k = b.bytes.take off ++ data := by
  rw [splice_bytes h, hk]
  apply List.take_left'
  simp only [List.length_append, List.length_take, size_eq]
  omega

theorem take_splice_start {b : Buffer n} {k : ℕ} {data : List UInt8} (h : data.length ≤ n)
    (hk : k = data.length) : (b.splice 0 data).bytes.take k = data := by
  rw [take_splice_end (by omega) (by omega), List.take_zero, List.nil_append]

theorem drop_splice {b : Buffer n} {off : ℕ} {data : List UInt8}
    (h : off + data.length ≤ n) :
    (b.splice off data).bytes.drop off = data ++ b.bytes.drop (off + data.length) := by
  rw [splice_bytes h, List.append_assoc]
  apply List.drop_left'
  rw [List.length_take, size_eq]
  omega

/-- Two adjacent writes are one. -/
theorem splice_splice {b : Buffer n} {off : ℕ} {first second : List UInt8}
    (h : off + (first.length + second.length) ≤ n) :
    (b.splice off first).splice (off + first.length) second = b.splice off (first ++ second) := by
  have hfirst : off + first.length ≤ n := by omega
  have hboth : off + (first ++ second).length ≤ n := by rw [List.length_append]; exact h
  have hlen : (b.bytes.take off ++ first).length = off + first.length := by
    simp only [List.length_append, List.length_take, size_eq]
    omega
  apply ext_bytes
  rw [splice_bytes (by omega), take_splice_end hfirst rfl, splice_bytes hboth,
    splice_bytes hfirst, List.length_append, ← Nat.add_assoc, ← List.append_assoc]
  congr 1
  rw [List.drop_append, List.drop_of_length_le (by omega), List.nil_append, hlen,
    Nat.add_sub_cancel_left, List.drop_drop]

/-- Writing one cell between two parts of an area. -/
theorem splice_cell {b : Buffer n} {pre post : List UInt8} {d v : UInt8}
    (h : b.bytes = pre ++ d :: post) : (b.splice pre.length [v]).bytes = pre ++ v :: post := by
  have hlen : pre.length + 1 ≤ n := by
    have hn := b.size_eq
    rw [h] at hn
    simp only [List.length_append, List.length_cons] at hn
    omega
  rw [splice_bytes (by simpa using hlen), h]
  simp

theorem set?_cell {b : Buffer n} {pre post : List UInt8} {d : UInt8} (v : UInt8)
    (h : b.bytes = pre ++ d :: post) :
    ∃ c, b.set? pre.length v = some c ∧ c.bytes = pre ++ v :: post := by
  have hlen : pre.length < n := by
    have hn := b.size_eq
    rw [h] at hn
    simp only [List.length_append, List.length_cons] at hn
    omega
  exact ⟨b.splice pre.length [v], set?_of_lt hlen, splice_cell h⟩

theorem get?_cell {b : Buffer n} {pre post : List UInt8} {d : UInt8}
    (h : b.bytes = pre ++ d :: post) : b.get? pre.length = some d := by simp [get?, h]

end Buffer
end Memory
