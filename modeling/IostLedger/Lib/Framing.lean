import Mathlib.Tactic

/-! Messages cut into numbered pieces. The first piece has its own size, as a protocol that
announces the length of a message in its first frame leaves less room there. -/
namespace Framing

/-- How many items a piece can hold. -/
structure Layout where
  first : ℕ
  next : ℕ
  first_pos : 0 < first
  next_pos : 0 < next

namespace Layout
variable (L : Layout) {α β : Type}

def room : ℕ → ℕ
  | 0 => L.first
  | _ + 1 => L.next

/-- Where a piece starts. -/
def offset : ℕ → ℕ
  | 0 => 0
  | k + 1 => offset k + L.room k

/-- Piece `k` of a message. -/
def piece (m : List α) (k : ℕ) : List α := (m.drop (L.offset k)).take (L.room k)

/-- The number of pieces of a message of `len` items; an empty one has a piece as well. -/
def count (len : ℕ) : ℕ := (len - L.first + (L.next - 1)) / L.next + 1

/-- The frames of a message from number `k` on, given the frame of each number. -/
def framesFrom (frame : ℕ → β) (len k : ℕ) : List β :=
  (List.range' k (L.count len - k)).map frame

theorem room_pos (k : ℕ) : 0 < L.room k := by
  cases k with
  | zero => exact L.first_pos
  | succ k => exact L.next_pos

theorem offset_succ (k : ℕ) : L.offset (k + 1) = L.offset k + L.room k := rfl

theorem offset_eq (k : ℕ) : L.offset (k + 1) = L.first + k * L.next := by
  induction k with
  | zero => simp [offset, room]
  | succ k ih =>
    rw [offset_succ, ih, room]
    ring

theorem le_offset_self (k : ℕ) : k ≤ L.offset k := by
  induction k with
  | zero => exact le_rfl
  | succ k ih =>
    have hroom := L.room_pos k
    rw [offset_succ]
    omega

/-- Every piece but the first starts inside the message. -/
theorem lt_count_iff (len k : ℕ) : k < L.count len ↔ k = 0 ∨ L.offset k < len := by
  cases k with
  | zero => simp [count]
  | succ k =>
    have hpos := L.next_pos
    have hdiv : k < (len - L.first + (L.next - 1)) / L.next ↔
        k * L.next < len - L.first + (L.next - 1) - (L.next - 1) := Nat.lt_div_iff_mul_lt hpos
    rw [offset_eq, count, Nat.succ_lt_succ_iff, hdiv]
    omega

theorem count_pos (len : ℕ) : 0 < L.count len := Nat.succ_pos _

variable {L} {m : List α} {len k : ℕ}

/-- What has been sent before a piece that is not the last does not fill the message. -/
theorem offset_lt (h : k + 1 < L.count len) : L.offset (k + 1) < len := by
  rcases (L.lt_count_iff len (k + 1)).mp h with h | h
  · cases h
  · exact h

theorem le_offset (h : L.count len ≤ k) : len ≤ L.offset k := by
  by_contra hlt
  have hk := (L.lt_count_iff len k).mpr (Or.inr (by omega))
  omega

/-- The message up to the end of a piece. -/
theorem take_offset_succ (m : List α) (k : ℕ) :
    m.take (L.offset (k + 1)) = m.take (L.offset k) ++ L.piece m k := by
  rw [offset_succ, piece, List.take_add]

theorem piece_length (m : List α) (k : ℕ) :
    (L.piece m k).length = min (L.room k) (m.length - L.offset k) := by
  rw [piece, List.length_take, List.length_drop]

theorem piece_length_le (m : List α) (k : ℕ) : (L.piece m k).length ≤ L.room k := by
  rw [piece_length]
  exact Nat.min_le_left _ _

/-- Only the last piece has room left. -/
theorem piece_full (h : k + 1 < L.count m.length) : (L.piece m k).length = L.room k := by
  have hlt := offset_lt h
  rw [offset_succ] at hlt
  rw [piece_length]
  omega

section Frames
variable {frame : ℕ → β}

theorem framesFrom_nil (h : L.count len ≤ k) : L.framesFrom frame len k = [] := by
  rw [framesFrom, Nat.sub_eq_zero_of_le h, List.range'_zero, List.map_nil]

theorem framesFrom_cons (h : k < L.count len) :
    L.framesFrom frame len k = frame k :: L.framesFrom frame len (k + 1) := by
  have hcount : L.count len - k = L.count len - (k + 1) + 1 := by omega
  rw [framesFrom, hcount, List.range'_succ, List.map_cons, framesFrom]

theorem framesFrom_length : (L.framesFrom frame len k).length = L.count len - k := by
  rw [framesFrom, List.length_map, List.length_range']

/-- A statement about the frames from every number on is proved from the last frame back. -/
theorem framesFrom_induction {motive : ℕ → Prop} (hend : ∀ k, L.count len ≤ k → motive k)
    (hframe : ∀ k, k < L.count len → motive (k + 1) → motive k) (k : ℕ) : motive k := by
  by_cases h : L.count len ≤ k
  · exact hend k h
  · exact hframe k (by omega) (framesFrom_induction hend hframe (k + 1))
termination_by L.count len - k

end Frames

end Layout

end Framing
