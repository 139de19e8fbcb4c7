import Mathlib.Data.Nat.Digits.Lemmas
import Mathlib.Tactic

/-! Positional numerals with the most significant digit first, long division of a
numeral by a small number, and the change of radix it gives. -/
namespace Radix

/-- The number a digit list stands for. -/
def value (a : ℕ) : List ℕ → ℕ
  | [] => 0
  | d :: ds => d * a ^ ds.length + value a ds

theorem value_eq_ofDigits (a : ℕ) (l : List ℕ) : value a l = Nat.ofDigits a l.reverse := by
  induction l with
  | nil => rfl
  | cons d ds ih =>
    rw [value, ih, List.reverse_cons, Nat.ofDigits_append, Nat.ofDigits_singleton,
      List.length_reverse]
    ring

/-- The numeral of `v`, without leading zeros. -/
def numeral (a v : ℕ) : List ℕ := (Nat.digits a v).reverse

@[simp] theorem numeral_zero (a : ℕ) : numeral a 0 = [] := by simp [numeral]

/-- The digits of `v`, least significant first; one zero for zero. -/
def lowDigits (a v : ℕ) : List ℕ := if v = 0 then [0] else Nat.digits a v

theorem lowDigits_step {a v : ℕ} (ha : 1 < a) :
    lowDigits a v = v % a :: if v / a = 0 then [] else lowDigits a (v / a) := by
  unfold lowDigits
  by_cases hv : v = 0
  · simp [hv]
  · rw [if_neg hv, Nat.digits_def' ha (Nat.pos_of_ne_zero hv)]
    split
    next hdiv => rw [hdiv, Nat.digits_zero]
    next => rfl

theorem lowDigits_ne_nil {a v : ℕ} : lowDigits a v ≠ [] := by
  unfold lowDigits
  split
  · exact List.cons_ne_nil 0 []
  next hv => exact Nat.digits_ne_nil_iff_ne_zero.mpr hv

theorem lowDigits_lt {a v d : ℕ} (ha : 1 < a) (hd : d ∈ lowDigits a v) : d < a := by
  unfold lowDigits at hd
  split at hd
  · rw [List.mem_singleton.mp hd]
    omega
  · exact Nat.digits_lt_base ha hd

theorem ofDigits_lowDigits (a v : ℕ) : Nat.ofDigits a (lowDigits a v) = v := by
  unfold lowDigits
  split
  next hv => simp [hv]
  next => exact Nat.ofDigits_digits a v

theorem lowDigits_length_le {a v k : ℕ} (ha : 1 < a) (hk : 1 ≤ k) (hv : v < a ^ k) :
    (lowDigits a v).length ≤ k := by
  unfold lowDigits
  split
  · exact hk
  · exact (Nat.digits_length_le_iff ha v).mpr hv

/-- The canonical numeral: no leading zero, and one zero for zero. -/
def canonical (a v : ℕ) : List ℕ := (lowDigits a v).reverse

theorem canonical_eq (a v : ℕ) : canonical a v = if v = 0 then [0] else numeral a v := by
  unfold canonical lowDigits
  split <;> rfl

@[simp] theorem value_canonical (a v : ℕ) : value a (canonical a v) = v := by
  rw [value_eq_ofDigits, canonical, List.reverse_reverse, ofDigits_lowDigits]

theorem canonical_lt {a v d : ℕ} (ha : 1 < a) (hd : d ∈ canonical a v) : d < a :=
  lowDigits_lt ha (List.mem_reverse.mp hd)

theorem numeral_step {a v : ℕ} (ha : 1 < a) (hv : 0 < v) :
    numeral a v = numeral a (v / a) ++ [v % a] := by
  rw [numeral, Nat.digits_def' ha hv, List.reverse_cons, ← numeral]

@[simp] theorem value_numeral {a v : ℕ} : value a (numeral a v) = v := by
  rw [value_eq_ofDigits, numeral, List.reverse_reverse, Nat.ofDigits_digits]

theorem numeral_lt {a v d : ℕ} (ha : 1 < a) (hd : d ∈ numeral a v) : d < a :=
  Nat.digits_lt_base ha (List.mem_reverse.mp hd)

theorem numeral_length_le {a v k : ℕ} (ha : 1 < a) (hv : v < a ^ k) :
    (numeral a v).length ≤ k := by
  rw [numeral, List.length_reverse]
  exact (Nat.digits_length_le_iff ha v).mpr hv

theorem numeral_head_ne_zero {a v : ℕ} : ∀ d ∈ (numeral a v).head?, d ≠ 0 := by
  intro d hd
  have hne : Nat.digits a v ≠ [] := by
    rintro h
    simp [numeral, h] at hd
  rw [numeral, List.head?_reverse, List.getLast?_eq_some_getLast hne, Option.mem_some_iff] at hd
  rw [← hd]
  exact Nat.getLast_digit_ne_zero a (by rintro rfl; simp at hne)

/-- A digit list without a leading zero is the numeral of its value. -/
theorem numeral_value {a : ℕ} {l : List ℕ} (ha : 1 < a) (hlt : ∀ d ∈ l, d < a)
    (hhead : ∀ d ∈ l.head?, d ≠ 0) : numeral a (value a l) = l := by
  rw [numeral, value_eq_ofDigits, Nat.digits_ofDigits a ha l.reverse, List.reverse_reverse]
  · simpa using hlt
  · intro h
    apply hhead
    rw [List.getLast_reverse]
    exact List.head?_eq_some_head (by simpa using h)

theorem value_lt {a : ℕ} {l : List ℕ} (hlt : ∀ d ∈ l, d < a) : value a l < a ^ l.length := by
  induction l with
  | nil => simp [value]
  | cons d ds ih =>
    have hd : d + 1 ≤ a := hlt d List.mem_cons_self
    have hds := ih fun e he => hlt e (List.mem_cons_of_mem d he)
    calc value a (d :: ds) = d * a ^ ds.length + value a ds := rfl
      _ < d * a ^ ds.length + a ^ ds.length := by omega
      _ = (d + 1) * a ^ ds.length := by ring
      _ ≤ a * a ^ ds.length := Nat.mul_le_mul_right _ hd
      _ = a ^ (d :: ds).length := by rw [List.length_cons, pow_succ]; ring

theorem value_pos {a d : ℕ} {ds : List ℕ} (ha : 0 < a) (hd : d ≠ 0) : 0 < value a (d :: ds) := by
  have hp := Nat.mul_pos (Nat.pos_of_ne_zero hd) (pow_pos ha ds.length)
  rw [value]
  omega

theorem value_zero_cons (a : ℕ) (ds : List ℕ) : value a (0 :: ds) = value a ds := by
  simp [value]

/-- One row of long division: the quotient digits of `l` by `b`, and the remainder,
when the remainder `r` is carried in from the left. -/
def divRow (a b : ℕ) : ℕ → List ℕ → List ℕ × ℕ
  | r, [] => ([], r)
  | r, d :: ds =>
      let t := r * a + d
      let rest := divRow a b (t % b) ds
      (t / b :: rest.1, rest.2)

@[simp] theorem divRow_length (a b r : ℕ) (l : List ℕ) :
    (divRow a b r l).1.length = l.length := by
  induction l generalizing r with
  | nil => rfl
  | cons d ds ih => simp [divRow, ih]

theorem divRow_value (a b r : ℕ) (l : List ℕ) :
    b * value a (divRow a b r l).1 + (divRow a b r l).2 = r * a ^ l.length + value a l := by
  induction l generalizing r with
  | nil => simp [divRow, value]
  | cons d ds ih =>
    have hrow := ih ((r * a + d) % b)
    have hsplit := Nat.div_add_mod (r * a + d) b
    simp only [divRow, value, divRow_length, List.length_cons, pow_succ]
    calc b * ((r * a + d) / b * a ^ ds.length +
            value a (divRow a b ((r * a + d) % b) ds).1) +
          (divRow a b ((r * a + d) % b) ds).2
        = b * ((r * a + d) / b) * a ^ ds.length +
            (b * value a (divRow a b ((r * a + d) % b) ds).1 +
              (divRow a b ((r * a + d) % b) ds).2) := by ring
      _ = (b * ((r * a + d) / b) + (r * a + d) % b) * a ^ ds.length + value a ds := by
          rw [hrow]; ring
      _ = r * (a ^ ds.length * a) + (d * a ^ ds.length + value a ds) := by
          rw [hsplit]; ring

theorem divRow_rem_lt {a b r : ℕ} (hr : r < b) (l : List ℕ) : (divRow a b r l).2 < b := by
  induction l generalizing r with
  | nil => exact hr
  | cons d ds ih => exact ih (Nat.mod_lt _ (Nat.zero_lt_of_lt hr))

/-- A carried remainder below `b` keeps every quotient digit below the radix. -/
theorem divRow_digit_lt {a b r : ℕ} (hr : r < b) {l : List ℕ} (hlt : ∀ d ∈ l, d < a) :
    ∀ q ∈ (divRow a b r l).1, q < a := by
  induction l generalizing r with
  | nil => simp [divRow]
  | cons d ds ih =>
    intro q hq
    have hd := hlt d List.mem_cons_self
    rcases List.mem_cons.mp hq with rfl | hq
    · apply Nat.div_lt_of_lt_mul
      calc r * a + d < r * a + a := by omega
        _ = (r + 1) * a := by ring
        _ ≤ b * a := Nat.mul_le_mul_right _ hr
    · exact ih (Nat.mod_lt _ (Nat.zero_lt_of_lt hr))
        (fun e he => hlt e (List.mem_cons_of_mem d he)) q hq

theorem divRow_div {a b : ℕ} (hb : 0 < b) (l : List ℕ) :
    value a (divRow a b 0 l).1 = value a l / b ∧ (divRow a b 0 l).2 = value a l % b := by
  have h := divRow_value a b 0 l
  have hlt := divRow_rem_lt (a := a) hb l
  rw [Nat.zero_mul, Nat.zero_add] at h
  rw [← h]
  constructor
  · rw [Nat.mul_add_div hb, Nat.div_eq_of_lt hlt, Nat.add_zero]
  · rw [Nat.mul_add_mod, Nat.mod_eq_of_lt hlt]

/-- A digit list less one leading zero, if it has one. -/
def dropZero : List ℕ → List ℕ
  | 0 :: ds => ds
  | l => l

theorem value_dropZero (a : ℕ) (l : List ℕ) : value a (dropZero l) = value a l := by
  rcases l with - | ⟨- | d, ds⟩
  · rfl
  · exact (value_zero_cons a ds).symm
  · rfl

theorem dropZero_subset (l : List ℕ) : dropZero l ⊆ l := by
  rcases l with - | ⟨- | d, ds⟩
  · exact List.Subset.refl _
  · exact List.subset_cons_self _ _
  · exact List.Subset.refl _

/-- Long division by at most the radix shortens the quotient by at most one digit. -/
theorem divRow_dropZero_head {a b d : ℕ} {ds : List ℕ} (hb : 0 < b) (hab : b ≤ a) (hd : d ≠ 0) :
    ∀ q ∈ (dropZero (divRow a b 0 (d :: ds)).1).head?, q ≠ 0 := by
  simp only [divRow, Nat.zero_mul, Nat.zero_add]
  rcases hq : d / b with - | q
  · have hdb : d < b := (Nat.div_eq_zero_iff.mp hq).resolve_left hb.ne'
    cases ds with
    | nil => simp [dropZero, divRow]
    | cons e es =>
      intro q hqe
      simp only [dropZero, divRow, List.head?_cons, Option.mem_some_iff,
        Nat.mod_eq_of_lt hdb] at hqe
      have hle : b ≤ d * a + e :=
        hab.trans ((Nat.le_mul_of_pos_left a (Nat.pos_of_ne_zero hd)).trans
          (Nat.le_add_right _ e))
      exact hqe ▸ (Nat.div_pos hle hb).ne'
  · simp [dropZero]

/-! Byte strings carry leading zeros, which the numeral of their value loses. -/

/-- The leading zeros of a digit list. -/
def zeros (l : List ℕ) : ℕ := (l.takeWhile (· = 0)).length

/-- Digits in radix `a` rewritten in radix `b`, one leading zero for each leading zero. -/
def recode (a b : ℕ) (l : List ℕ) : List ℕ :=
  List.replicate (zeros l) 0 ++ numeral b (value a l)

theorem value_replicate_zero (a k : ℕ) (l : List ℕ) :
    value a (List.replicate k 0 ++ l) = value a l := by
  induction k with
  | zero => rfl
  | succ k ih => rw [List.replicate_succ, List.cons_append, value_zero_cons, ih]

theorem zeros_replicate_append {k : ℕ} {l : List ℕ} (h : ∀ d ∈ l.head?, d ≠ 0) :
    zeros (List.replicate k 0 ++ l) = k := by
  induction k with
  | zero =>
    cases l with
    | nil => rfl
    | cons d ds => simp [zeros, h d (by simp)]
  | succ k ih => simpa [zeros, List.replicate_succ] using ih

theorem replicate_zeros_append (l : List ℕ) :
    List.replicate (zeros l) 0 ++ l.dropWhile (· = 0) = l := by
  induction l with
  | nil => rfl
  | cons d ds ih =>
    by_cases hd : d = 0
    · subst hd
      simpa [zeros, List.replicate_succ] using ih
    · simp [zeros, hd]

theorem value_dropWhile_zero (a : ℕ) (l : List ℕ) : value a (l.dropWhile (· = 0)) = value a l := by
  conv_rhs => rw [← replicate_zeros_append l]
  rw [value_replicate_zero]

theorem dropWhile_zero_head (l : List ℕ) : ∀ d ∈ (l.dropWhile (· = 0)).head?, d ≠ 0 := by
  induction l with
  | nil => simp
  | cons d ds ih => by_cases hd : d = 0 <;> simp_all

/-- Rewriting a digit list in another radix loses nothing. -/
theorem recode_recode {a b : ℕ} (ha : 1 < a) {l : List ℕ} (hlt : ∀ d ∈ l, d < a) :
    recode b a (recode a b l) = l := by
  have hz : zeros (recode a b l) = zeros l := zeros_replicate_append numeral_head_ne_zero
  have hn : numeral a (value a l) = l.dropWhile (· = 0) := by
    rw [← value_dropWhile_zero]
    exact numeral_value ha (fun d hd => hlt d (List.dropWhile_sublist _ |>.subset hd))
      (dropWhile_zero_head l)
  rw [recode, hz, recode, value_replicate_zero, value_numeral, hn, replicate_zeros_append]

theorem recode_lt {a b : ℕ} (hb : 1 < b) {l : List ℕ} : ∀ d ∈ recode a b l, d < b := by
  intro d hd
  rcases List.mem_append.mp hd with h | h
  · rw [List.eq_of_mem_replicate h]
    omega
  · exact numeral_lt hb h

/-- A numeral grows by at most the factor `k` when `k` new digits cover one old digit. -/
theorem recode_length_le {a b k : ℕ} (hb : 1 < b) (hk : a ≤ b ^ k) (hk1 : 1 ≤ k) {l : List ℕ}
    (hlt : ∀ d ∈ l, d < a) : (recode a b l).length ≤ k * l.length := by
  have hlen := congrArg List.length (replicate_zeros_append l)
  rw [List.length_append, List.length_replicate] at hlen
  have hval : value a l < b ^ (k * (l.dropWhile (· = 0)).length) := by
    rw [← value_dropWhile_zero, pow_mul]
    exact (value_lt fun d hd => hlt d (List.dropWhile_sublist _ |>.subset hd)).trans_le
      (Nat.pow_le_pow_left hk _)
  have hnum := numeral_length_le hb hval
  rw [recode, List.length_append, List.length_replicate]
  nlinarith

end Radix
