import IostLedger.Lib.Ref
import Mathlib.Data.Nat.Size

/-! Numbers of a fixed width, and numbers of twice that width held in two halves. -/

/-- The upper and the lower half of a number. -/
structure Halves (α : Type) where
  upper : α
  lower : α
  deriving DecidableEq, Repr, Inhabited

namespace Ref
variable {σ α : Type}

/-- The upper half of the number at `r`. -/
def upper (r : Ref σ (Halves α)) : Ref σ α := r.comp {
  get n := n.upper
  set v n := ⟨v, n.lower⟩
  get_set _ _ := rfl
  set_get _ := rfl
  set_set _ _ _ := rfl }

/-- The lower half of the number at `r`. -/
def lower (r : Ref σ (Halves α)) : Ref σ α := r.comp {
  get n := n.lower
  set v n := ⟨n.upper, v⟩
  get_set _ _ := rfl
  set_get _ := rfl
  set_set _ _ _ := rfl }

@[simp] theorem upper_get (r : Ref σ (Halves α)) (s : σ) : r.upper.get s = (r.get s).upper := rfl
@[simp] theorem lower_get (r : Ref σ (Halves α)) (s : σ) : r.lower.get s = (r.get s).lower := rfl
theorem upper_set (r : Ref σ (Halves α)) (v : α) (s : σ) :
    r.upper.set v s = r.set ⟨v, (r.get s).lower⟩ s := rfl
theorem lower_set (r : Ref σ (Halves α)) (v : α) (s : σ) :
    r.lower.set v s = r.set ⟨(r.get s).upper, v⟩ s := rfl

/-- Writing both halves writes the number. -/
@[simp] theorem lower_set_upper_set (r : Ref σ (Halves α)) (x y : α) (s : σ) :
    r.lower.set y (r.upper.set x s) = r.set ⟨x, y⟩ s := by simp [upper_set, lower_set]

@[simp] theorem upper_set_lower_set (r : Ref σ (Halves α)) (x y : α) (s : σ) :
    r.upper.set x (r.lower.set y s) = r.set ⟨x, y⟩ s := by simp [upper_set, lower_set]

@[simp] theorem upper_set_upper_set (r : Ref σ (Halves α)) (x y : α) (s : σ) :
    r.upper.set x (r.upper.set y s) = r.upper.set x s := r.upper.set_set x y s

namespace SameOrApart
variable {r q : Ref σ (Halves α)}

theorem upper (h : SameOrApart r q) : SameOrApart r.upper q.upper := h.comp _

theorem lower (h : SameOrApart r q) : SameOrApart r.lower q.lower := h.comp _

theorem upper_apart_lower (h : SameOrApart r q) : Apart r.upper q.lower :=
  h.members fun _ _ _ => rfl

theorem lower_apart_upper (h : SameOrApart r q) : Apart r.lower q.upper :=
  h.members fun _ _ _ => rfl

/-- The target's upper half may be written before an operand's lower half is read. -/
theorem lower_get_upper_set (h : SameOrApart r q) (v : α) (s : σ) :
    (r.get (q.upper.set v s)).lower = (r.get s).lower := h.lower_apart_upper.get_set v s

end SameOrApart
end Ref

/-- A type that holds the numbers below a power of two. -/
structure Numbers (α : Type) where
  bits : ℕ
  value : α → ℕ
  ofNat : ℕ → α
  value_lt : ∀ a, value a < 2 ^ bits
  value_ofNat : ∀ n, value (ofNat n) = n % 2 ^ bits
  ofNat_value : ∀ a, ofNat (value a) = a

namespace Numbers
variable {α : Type} (N : Numbers α)

theorem value_inj {a b : α} (h : N.value a = N.value b) : a = b := by
  rw [← N.ofNat_value a, h, N.ofNat_value]

theorem eq_ofNat {a : α} {n : ℕ} (h : N.value a = n % 2 ^ N.bits) : a = N.ofNat n := by
  apply N.value_inj
  rw [h, N.value_ofNat]

theorem ofNat_congr {m n : ℕ} (h : m % 2 ^ N.bits = n % 2 ^ N.bits) : N.ofNat m = N.ofNat n := by
  apply N.value_inj
  rw [N.value_ofNat, N.value_ofNat, h]

theorem value_ofNat_of_lt {n : ℕ} (h : n < 2 ^ N.bits) : N.value (N.ofNat n) = n := by
  rw [N.value_ofNat, Nat.mod_eq_of_lt h]

/-- Numbers of twice the width. -/
def halves : Numbers (Halves α) where
  bits := N.bits + N.bits
  value n := N.value n.upper * 2 ^ N.bits + N.value n.lower
  ofNat n := ⟨N.ofNat (n / 2 ^ N.bits), N.ofNat n⟩
  value_lt n := by
    have hu : N.value n.upper + 1 ≤ 2 ^ N.bits := N.value_lt _
    have hl := N.value_lt n.lower
    calc N.value n.upper * 2 ^ N.bits + N.value n.lower
        < (N.value n.upper + 1) * 2 ^ N.bits := by rw [Nat.add_mul, Nat.one_mul]; omega
      _ ≤ 2 ^ N.bits * 2 ^ N.bits := Nat.mul_le_mul_right _ hu
      _ = 2 ^ (N.bits + N.bits) := (pow_add _ _ _).symm
  value_ofNat n := by
    rw [N.value_ofNat, N.value_ofNat, pow_add, Nat.mod_mul]
    ring
  ofNat_value n := by
    have hl := N.value_lt n.lower
    have hdiv : (N.value n.upper * 2 ^ N.bits + N.value n.lower) / 2 ^ N.bits =
        N.value n.upper := by
      rw [Nat.add_comm, Nat.add_mul_div_right _ _ (Nat.two_pow_pos _), Nat.div_eq_of_lt hl,
        Nat.zero_add]
    have hmod : N.ofNat (N.value n.upper * 2 ^ N.bits + N.value n.lower) = n.lower := by
      rw [← N.eq_ofNat]
      rw [Nat.mul_add_mod', Nat.mod_eq_of_lt hl]
    rw [hdiv, hmod, N.ofNat_value]

/-! Shifts of a number in two halves of `h` bits, for a count below `h`. -/

theorem shiftLeft_halves {U L h v : ℕ} (hv : v ≤ h) :
    (U * 2 ^ v + L / 2 ^ (h - v)) % 2 ^ h * 2 ^ h + L * 2 ^ v % 2 ^ h =
      (U * 2 ^ h + L) * 2 ^ v % 2 ^ (h + h) := by
  have hsplit : 2 ^ h = 2 ^ (h - v) * 2 ^ v := by rw [← pow_add, Nat.sub_add_cancel hv]
  have hcarry : L * 2 ^ v / 2 ^ h = L / 2 ^ (h - v) := by
    rw [hsplit, Nat.mul_div_mul_right _ _ (Nat.two_pow_pos v)]
  have hmul : (U * 2 ^ h + L) * 2 ^ v = L * 2 ^ v + U * 2 ^ v * 2 ^ h := by ring
  rw [hmul, pow_add, Nat.mod_mul, Nat.add_mul_mod_self_right,
    Nat.add_mul_div_right _ _ (Nat.two_pow_pos h), hcarry, Nat.add_comm (U * 2 ^ v)]
  ring

theorem shiftRight_halves {U L h v : ℕ} (hv : v ≤ h) :
    U / 2 ^ v * 2 ^ h + (U * 2 ^ (h - v) % 2 ^ h + L / 2 ^ v) =
      (U * 2 ^ h + L) / 2 ^ v := by
  have hsplit : 2 ^ h = 2 ^ v * 2 ^ (h - v) := by rw [← pow_add, Nat.add_sub_cancel' hv]
  have hlow : U * 2 ^ (h - v) % 2 ^ h = U % 2 ^ v * 2 ^ (h - v) := by
    rw [hsplit, Nat.mul_mod_mul_right]
  have hmul : U * 2 ^ h + L = L + U * 2 ^ (h - v) * 2 ^ v := by rw [hsplit]; ring
  have hup := Nat.div_add_mod U (2 ^ v)
  rw [hmul, Nat.add_mul_div_right _ _ (Nat.two_pow_pos v), hlow, hsplit]
  calc U / 2 ^ v * (2 ^ v * 2 ^ (h - v)) + (U % 2 ^ v * 2 ^ (h - v) + L / 2 ^ v)
      = (2 ^ v * (U / 2 ^ v) + U % 2 ^ v) * 2 ^ (h - v) + L / 2 ^ v := by ring
    _ = L / 2 ^ v + U * 2 ^ (h - v) := by rw [hup]; ring

/-- The two parts of the lower half of a right shift do not overlap. -/
theorem shiftRight_halves_lt {U L h v : ℕ} (hv : v ≤ h) (hL : L < 2 ^ h) :
    U * 2 ^ (h - v) % 2 ^ h + L / 2 ^ v < 2 ^ h := by
  have hsplit : 2 ^ h = 2 ^ v * 2 ^ (h - v) := by rw [← pow_add, Nat.add_sub_cancel' hv]
  have hmod : U % 2 ^ v + 1 ≤ 2 ^ v := Nat.mod_lt U (Nat.two_pow_pos v)
  have hdiv : L / 2 ^ v < 2 ^ (h - v) := Nat.div_lt_of_lt_mul (by rwa [← hsplit])
  rw [hsplit, Nat.mul_mod_mul_right]
  calc U % 2 ^ v * 2 ^ (h - v) + L / 2 ^ v
      < U % 2 ^ v * 2 ^ (h - v) + 2 ^ (h - v) := Nat.add_lt_add_left hdiv _
    _ = (U % 2 ^ v + 1) * 2 ^ (h - v) := by ring
    _ ≤ 2 ^ v * 2 ^ (h - v) := Nat.mul_le_mul_right _ hmod

/-! Shifts by at least `h`. -/

theorem shiftLeft_whole_half {U L h v : ℕ} (hv : h ≤ v) :
    L * 2 ^ (v - h) % 2 ^ h * 2 ^ h = (U * 2 ^ h + L) * 2 ^ v % 2 ^ (h + h) := by
  have hsplit : 2 ^ v = 2 ^ (v - h) * 2 ^ h := by rw [← pow_add, Nat.sub_add_cancel hv]
  have hmul : (U * 2 ^ h + L) * 2 ^ v =
      (L * 2 ^ (v - h) + U * 2 ^ (v - h) * 2 ^ h) * 2 ^ h := by rw [hsplit]; ring
  rw [hmul, pow_add, Nat.mul_mod_mul_right, Nat.add_mul_mod_self_right]

theorem shiftRight_whole_half {U L h v : ℕ} (hv : h ≤ v) (hL : L < 2 ^ h) :
    U / 2 ^ (v - h) = (U * 2 ^ h + L) / 2 ^ v := by
  have hsplit : 2 ^ v = 2 ^ h * 2 ^ (v - h) := by rw [← pow_add, Nat.add_sub_cancel' hv]
  rw [hsplit, ← Nat.div_div_eq_div_mul, Nat.add_comm, Nat.add_mul_div_right _ _ (Nat.two_pow_pos h),
    Nat.div_eq_of_lt hL, Nat.zero_add]

/-- A bitwise or works on the halves. -/
theorem or_halves {U₁ L₁ U₂ L₂ h : ℕ} (h₁ : L₁ < 2 ^ h) (h₂ : L₂ < 2 ^ h) :
    (U₁ ||| U₂) * 2 ^ h + (L₁ ||| L₂) = (U₁ * 2 ^ h + L₁) ||| (U₂ * 2 ^ h + L₂) := by
  have hdiv {U L : ℕ} (hL : L < 2 ^ h) : (U * 2 ^ h + L) / 2 ^ h = U := by
    rw [Nat.add_comm, Nat.add_mul_div_right _ _ (Nat.two_pow_pos h), Nat.div_eq_of_lt hL,
      Nat.zero_add]
  have hmod {U L : ℕ} (hL : L < 2 ^ h) : (U * 2 ^ h + L) % 2 ^ h = L := by
    rw [Nat.mul_add_mod', Nat.mod_eq_of_lt hL]
  rw [← Nat.div_add_mod' ((U₁ * 2 ^ h + L₁) ||| (U₂ * 2 ^ h + L₂)) (2 ^ h), Nat.or_div_two_pow,
    Nat.or_mod_two_pow, hdiv h₁, hdiv h₂, hmod h₁, hmod h₂]

/-! The number of bits. -/

theorem size_half {n : ℕ} (h : n ≠ 0) : Nat.size (n / 2) + 1 = Nat.size n := by
  have hpos : 0 < Nat.size n := Nat.size_pos.mpr (Nat.pos_of_ne_zero h)
  have hlt : n < 2 ^ (Nat.size n - 1) * 2 := by
    rw [← pow_succ, Nat.sub_add_cancel hpos]
    exact Nat.lt_size_self n
  have hle : Nat.size (n / 2) ≤ Nat.size n - 1 := Nat.size_le.mpr (Nat.div_lt_of_lt_mul (by omega))
  have hge : Nat.size n ≤ Nat.size (n / 2) + 1 := by
    have hhalf := Nat.lt_size_self (n / 2)
    apply Nat.size_le.mpr
    rw [pow_succ]
    omega
  omega

theorem size_halves {U L h : ℕ} (hU : U ≠ 0) (hL : L < 2 ^ h) :
    Nat.size (U * 2 ^ h + L) = h + Nat.size U := by
  have hdiv : (U * 2 ^ h + L) / 2 ^ h = U := by
    rw [Nat.add_comm, Nat.add_mul_div_right _ _ (Nat.two_pow_pos h), Nat.div_eq_of_lt hL,
      Nat.zero_add]
  have hlt {k : ℕ} : U * 2 ^ h + L < 2 ^ (h + k) ↔ U < 2 ^ k := by
    rw [pow_add, Nat.mul_comm (2 ^ h), ← Nat.div_lt_iff_lt_mul (Nat.two_pow_pos h), hdiv]
  have hpos : 0 < Nat.size U := Nat.size_pos.mpr (Nat.pos_of_ne_zero hU)
  apply le_antisymm
  · exact Nat.size_le.mpr (hlt.mpr (Nat.lt_size_self U))
  · have hlow : 2 ^ (Nat.size U - 1) ≤ U := Nat.lt_size.mp (by omega)
    have hhigh : h + (Nat.size U - 1) < Nat.size (U * 2 ^ h + L) :=
      Nat.lt_size.mpr (Nat.le_of_not_lt fun hcon => absurd (hlt.mp hcon) (by omega))
    omega

end Numbers
