import IostLedger.Lib.Halves
import IostLedger.Lib.While

/-! Division by shift and subtract: a shifted divisor and its bit move down together, and the
loop stops as soon as the remainder is below the divisor. -/
namespace ShiftDivision

structure State where
  divisor : ℕ
  bit : ℕ
  quotient : ℕ
  remainder : ℕ

/-- One pass of the loop. -/
def step (s : State) : State :=
  if s.divisor ≤ s.remainder then
    ⟨s.divisor / 2, s.bit / 2, s.quotient ||| s.bit, s.remainder - s.divisor⟩
  else ⟨s.divisor / 2, s.bit / 2, s.quotient, s.remainder⟩

/-- The divisor at shift `k`: what is left to divide is below its double, and the quotient has
no bit at `k` or below. -/
structure Shifted (r : ℕ) (s : State) (k : ℕ) : Prop where
  divisor_eq : s.divisor = r * 2 ^ k
  bit_eq : s.bit = 2 ^ k
  remainder_lt : s.remainder < r * 2 ^ (k + 1)
  quotient_dvd : 2 ^ (k + 1) ∣ s.quotient

/-- `l` is split into quotient and remainder, and the division is over or at some shift. -/
structure Inv (l r : ℕ) (s : State) : Prop where
  split_eq : s.quotient * r + s.remainder = l
  shifted : s.remainder < r ∨ ∃ k, Shifted r s k

/-- Setting a bit below all bits of a number adds it. -/
theorem or_bit {q k : ℕ} (h : 2 ^ (k + 1) ∣ q) : q ||| 2 ^ k = q + 2 ^ k := by
  obtain ⟨c, rfl⟩ := h
  exact (Nat.two_pow_add_eq_or_of_lt (Nat.pow_lt_pow_right one_lt_two (Nat.lt_succ_self k)) c).symm

theorem half_shifted (r k : ℕ) : r * 2 ^ (k + 1) / 2 = r * 2 ^ k := by
  rw [pow_succ, ← Nat.mul_assoc, Nat.mul_div_cancel _ two_pos]

/-- A pass at shift `k` leaves a state that is over, or at the next lower shift. -/
theorem Shifted.step {r k : ℕ} {s : State} (h : Shifted r s k) :
    (step s).remainder < r ∨ ∃ j, Shifted r (step s) j := by
  have hbit := or_bit h.quotient_dvd
  have hhalf : 2 ^ k ∣ s.quotient := (pow_dvd_pow 2 (Nat.le_succ k)).trans h.quotient_dvd
  have hlt : (ShiftDivision.step s).remainder < r * 2 ^ k := by
    have hrem := h.remainder_lt
    rw [pow_succ, ← Nat.mul_assoc] at hrem
    unfold ShiftDivision.step
    split <;> simp only [h.divisor_eq] at * <;> omega
  have hdvd : 2 ^ k ∣ (ShiftDivision.step s).quotient := by
    unfold ShiftDivision.step
    split
    · rw [h.bit_eq, hbit]
      exact hhalf.add (dvd_refl _)
    · exact hhalf
  cases k with
  | zero => exact Or.inl (by simpa using hlt)
  | succ j =>
    refine Or.inr ⟨j, ?_, ?_, hlt, hdvd⟩
    · unfold ShiftDivision.step
      split <;> simp only [h.divisor_eq, half_shifted]
    · unfold ShiftDivision.step
      split <;> simp only [h.bit_eq, pow_succ, Nat.mul_div_cancel _ two_pos]

theorem Inv.step {l r : ℕ} {s : State} (h : Inv l r s) (hmore : r ≤ s.remainder) :
    Inv l r (step s) ∧ Nat.size (step s).bit < Nat.size s.bit := by
  obtain ⟨k, hk⟩ := h.shifted.resolve_left (Nat.not_lt.mpr hmore)
  constructor
  · refine ⟨?_, hk.step⟩
    have hsplit := h.split_eq
    unfold ShiftDivision.step
    split
    next hle =>
      simp only [hk.bit_eq, or_bit hk.quotient_dvd, hk.divisor_eq] at *
      rw [Nat.add_mul, Nat.mul_comm (2 ^ k)]
      omega
    next => exact hsplit
  · have hbit : s.bit ≠ 0 := by
      rw [hk.bit_eq]
      exact (Nat.two_pow_pos k).ne'
    have hhalf : (ShiftDivision.step s).bit = s.bit / 2 := by
      unfold ShiftDivision.step
      split <;> rfl
    have hsize := Numbers.size_half hbit
    rw [hhalf]
    omega

/-- The state the loop starts in: the divisor is aligned with `l`, or one below. -/
def start (l r : ℕ) : State :=
  let diff := Nat.size l - Nat.size r
  if l < r * 2 ^ diff then ⟨r * 2 ^ diff / 2, 2 ^ diff / 2, 0, l⟩
  else ⟨r * 2 ^ diff, 2 ^ diff, 0, l⟩

theorem aligned_lt {l r : ℕ} (h : r ≤ l) : r * 2 ^ (Nat.size l - Nat.size r) < 2 ^ Nat.size l := by
  have hsize := Nat.size_le_size h
  calc r * 2 ^ (Nat.size l - Nat.size r)
      < 2 ^ Nat.size r * 2 ^ (Nat.size l - Nat.size r) :=
        Nat.mul_lt_mul_of_pos_right (Nat.lt_size_self r) (Nat.two_pow_pos _)
    _ = 2 ^ Nat.size l := by rw [← pow_add, Nat.add_sub_cancel' hsize]

theorem lt_twice_aligned {l r : ℕ} (hr : 0 < r) (h : r ≤ l) :
    l < r * 2 ^ (Nat.size l - Nat.size r + 1) := by
  have hsize := Nat.size_le_size h
  have hpos : 0 < Nat.size r := Nat.size_pos.mpr hr
  have hlow : 2 ^ (Nat.size r - 1) ≤ r := Nat.lt_size.mp (by omega)
  calc l < 2 ^ Nat.size l := Nat.lt_size_self l
    _ = 2 ^ (Nat.size r - 1) * 2 ^ (Nat.size l - Nat.size r + 1) := by
      rw [← pow_add]
      congr 1
      omega
    _ ≤ r * 2 ^ (Nat.size l - Nat.size r + 1) := Nat.mul_le_mul_right _ hlow

theorem start_inv {l r : ℕ} (hr : 0 < r) (h : r ≤ l) : Inv l r (start l r) := by
  have htwice := lt_twice_aligned hr h
  unfold start
  constructor
  · dsimp only
    split <;> simp
  · right
    dsimp only
    split
    next hover =>
      cases hdiff : Nat.size l - Nat.size r with
      | zero =>
        rw [hdiff] at hover
        omega
      | succ k =>
        rw [hdiff] at hover
        exact ⟨k, half_shifted r k, by simpa using half_shifted 1 k, hover, dvd_zero _⟩
    next => exact ⟨_, rfl, rfl, htwice, dvd_zero _⟩

theorem start_bit {l r : ℕ} (hr : 0 < r) (h : r ≤ l) :
    Nat.size (start l r).bit ≤ Nat.size l := by
  have hsize := Nat.size_le_size h
  have hpos : 0 < Nat.size r := Nat.size_pos.mpr hr
  have hbit : (start l r).bit ≤ 2 ^ (Nat.size l - Nat.size r) := by
    unfold start
    dsimp only
    split
    · exact Nat.div_le_self _ _
    · exact le_rfl
  apply Nat.size_le.mpr
  exact hbit.trans_lt (Nat.pow_lt_pow_right one_lt_two (by omega))

/-- The loop ends with the quotient and the remainder. -/
theorem loop_divides {l r : ℕ} (hr : 0 < r) (h : r ≤ l) {fuel : ℕ} (hfuel : Nat.size l < fuel) :
    ∃ t, While.loop (fun s => decide (r ≤ s.remainder)) step fuel (start l r) = some t ∧
      l = t.quotient * r + t.remainder ∧ t.remainder < r := by
  obtain ⟨t, hrun, hinv, hend⟩ := @While.loop_spec State (fun s => decide (r ≤ s.remainder)) step
    (Inv l r) (fun s => Nat.size s.bit)
    (fun s hs hmore => hs.step (of_decide_eq_true hmore)) _ (start_inv hr h) fuel
    ((start_bit hr h).trans_lt hfuel)
  exact ⟨t, hrun, hinv.split_eq.symm, Nat.lt_of_not_le (of_decide_eq_false hend)⟩

end ShiftDivision
