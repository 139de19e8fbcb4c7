import Mathlib.Tactic

/-! The schoolbook product of two numbers of four limbs, kept to four limbs. -/
namespace Schoolbook

/-- One sum for each limb of a product; `fourth` is the least significant. -/
structure Columns (α : Type) where
  fourth : α
  third : α
  second : α
  first : α

def Columns.map {α β : Type} (f : α → β) (c : Columns α) : Columns β :=
  ⟨f c.fourth, f c.third, f c.second, f c.first⟩

/-- The number of the column sums in radix `B`, where a sum may exceed the radix. -/
def Columns.value (B : ℕ) (c : Columns ℕ) : ℕ :=
  c.first * B ^ 3 + c.second * B ^ 2 + c.third * B + c.fourth

/-- The number of the limbs `0` to `3` in radix `B`, the most significant first. -/
def value (B : ℕ) (a : ℕ → ℕ) : ℕ := a 0 * B ^ 3 + a 1 * B ^ 2 + a 2 * B + a 3

/-- Each partial product gives its low part to its column and its high part to the next. -/
def columns (B : ℕ) (a b : ℕ → ℕ) : Columns ℕ where
  fourth := a 3 * b 3 % B
  third := a 3 * b 2 % B + a 3 * b 3 / B + a 2 * b 3 % B
  second := a 3 * b 1 % B + a 3 * b 2 / B + a 2 * b 2 % B + a 2 * b 3 / B + a 1 * b 3 % B
  first := a 3 * b 0 % B + a 3 * b 1 / B + a 2 * b 1 % B + a 2 * b 2 / B + a 1 * b 2 % B +
    a 1 * b 3 / B + a 0 * b 3 % B

/-- The columns give the product, but for what lies beyond the fourth limb. -/
theorem columns_value (B : ℕ) (a b : ℕ → ℕ) :
    (columns B a b).value B % B ^ 4 = value B a * value B b % B ^ 4 := by
  have hsplit (x y : ℕ) : x * y = x * y % B + B * (x * y / B) := (Nat.mod_add_div _ _).symm
  have hproduct : value B a * value B b = (columns B a b).value B + B ^ 4 *
      (a 3 * b 0 / B + a 2 * b 1 / B + a 1 * b 2 / B + a 0 * b 3 / B +
        (a 2 * b 0 + a 1 * b 1 + a 0 * b 2) + (a 1 * b 0 + a 0 * b 1) * B +
        a 0 * b 0 * B ^ 2) := by
    calc value B a * value B b
        = a 3 * b 3 + (a 3 * b 2 + a 2 * b 3) * B +
            (a 3 * b 1 + a 2 * b 2 + a 1 * b 3) * B ^ 2 +
            (a 3 * b 0 + a 2 * b 1 + a 1 * b 2 + a 0 * b 3) * B ^ 3 +
            B ^ 4 * ((a 2 * b 0 + a 1 * b 1 + a 0 * b 2) + (a 1 * b 0 + a 0 * b 1) * B +
              a 0 * b 0 * B ^ 2) := by simp only [value]; ring
      _ = _ := by
        conv_lhs =>
          rw [hsplit (a 3) (b 3), hsplit (a 3) (b 2), hsplit (a 2) (b 3), hsplit (a 3) (b 1),
            hsplit (a 2) (b 2), hsplit (a 1) (b 3), hsplit (a 3) (b 0), hsplit (a 2) (b 1),
            hsplit (a 1) (b 2), hsplit (a 0) (b 3)]
        simp only [columns, Columns.value]
        ring
  rw [hproduct, Nat.add_mul_mod_self_left]

theorem columns_lt {B : ℕ} {a b : ℕ → ℕ} (ha : ∀ i, a i < B) (hb : ∀ i, b i < B) :
    (columns B a b).fourth < B ∧ (columns B a b).third < 3 * B ∧
      (columns B a b).second < 5 * B ∧ (columns B a b).first < 7 * B := by
  have hpos : 0 < B := Nat.zero_lt_of_lt (ha 0)
  have hmod (x y : ℕ) : a x * b y % B < B := Nat.mod_lt _ hpos
  have hdiv (x y : ℕ) : a x * b y / B < B :=
    Nat.div_lt_of_lt_mul (Nat.mul_lt_mul'' (ha x) (hb y))
  simp only [columns]
  have := hmod 3 3
  have := hmod 3 2
  have := hmod 2 3
  have := hmod 3 1
  have := hmod 2 2
  have := hmod 1 3
  have := hmod 3 0
  have := hmod 2 1
  have := hmod 1 2
  have := hmod 0 3
  have := hdiv 3 3
  have := hdiv 3 2
  have := hdiv 2 3
  have := hdiv 3 1
  have := hdiv 2 2
  have := hdiv 1 3
  omega

end Schoolbook
