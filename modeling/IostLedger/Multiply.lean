import IostLedger.WideArith

/-! `mul128` is multiplication modulo `2 ^ 128`. `mul256` is multiplication modulo `2 ^ 256`
exactly when one of its column sums fits in a word. -/
namespace IostLedger
open Call Schoolbook

theorem getD_lt {b : ℕ} (hb : 0 < b) {l : List ℕ} (h : ∀ x ∈ l, x < b) (i : ℕ) :
    l.getD i 0 < b := by
  rw [List.getD_eq_getElem?_getD]
  cases hi : l[i]? with
  | none => exact hb
  | some x => exact h x (List.mem_of_getElem? hi)

/-! The products of 32-bit limbs. -/

/-- The 32-bit limbs of a `uint128_t`, the most significant first. -/
def limbs32 (n : Uint128) (i : ℕ) : ℕ := [n.upper.toNat / 2 ^ 32, n.upper.toNat % 2 ^ 32,
  n.lower.toNat / 2 ^ 32, n.lower.toNat % 2 ^ 32].getD i 0

theorem limbs32_lt (n : Uint128) (i : ℕ) : limbs32 n i < 2 ^ 32 := by
  have hu := n.upper.toNat_lt
  have hl := n.lower.toNat_lt
  unfold limbs32
  apply getD_lt (by norm_num)
  simp only [List.forall_mem_cons, List.not_mem_nil, false_implies, forall_const, and_true]
  omega

theorem value_limbs32 (n : Uint128) : value (2 ^ 32) (limbs32 n) = value128 n := by
  simp only [value, limbs32, value128, List.getD_cons_zero, List.getD_cons_succ]
  omega

theorem toNat_low32 (v : UInt64) : (low32 v).toNat = v.toNat % 2 ^ 32 := by
  rw [low32, UInt64.toNat_and]
  exact Nat.and_two_pow_sub_one_eq_mod v.toNat 32

theorem toNat_high32 (v : UInt64) : (v >>> 32).toNat = v.toNat / 2 ^ 32 := by
  rw [UInt64.toNat_shiftRight, Nat.shiftRight_eq_div_pow]
  rfl

theorem toNat_shift32 (v : UInt64) : (v <<< 32).toNat = v.toNat * 2 ^ 32 % 2 ^ 64 := by
  rw [UInt64.toNat_shiftLeft, Nat.shiftLeft_eq]
  rfl

theorem toNat_mul32 {a b : UInt64} {x y : ℕ} (ha : a.toNat = x) (hb : b.toNat = y)
    (hx : x < 2 ^ 32) (hy : y < 2 ^ 32) : (a * b).toNat = x * y := by
  have hlt : x * y < 2 ^ 32 * 2 ^ 32 := Nat.mul_lt_mul'' hx hy
  rw [UInt64.toNat_mul, ha, hb, Nat.mod_eq_of_lt (by omega)]

theorem words32_toNat (n : Uint128) (i : Fin 4) : (words32 n i).toNat = limbs32 n i.val := by
  fin_cases i
  · exact toNat_high32 n.upper
  · exact toNat_low32 n.upper
  · exact toNat_high32 n.lower
  · exact toNat_low32 n.lower

/-- No sum of a column wraps. -/
theorem mul128Columns_eq (a b : Uint128) :
    (mul128Columns a b).map UInt64.toNat = columns (2 ^ 32) (limbs32 a) (limbs32 b) := by
  have hproduct (i y : Fin 4) : (words32 a i * words32 b y).toNat =
      limbs32 a i.val * limbs32 b y.val :=
    toNat_mul32 (words32_toNat a i) (words32_toNat b y) (limbs32_lt a _) (limbs32_lt b _)
  obtain ⟨-, hthird, hsecond, hfirst⟩ := columns_lt (limbs32_lt a) (limbs32_lt b)
  simp only [columns] at hthird hsecond hfirst
  simp only [mul128Columns, Columns.map, columns, UInt64.toNat_add, toNat_low32, toNat_high32,
    hproduct, Fin.reduceRev, Fin.coe_ofNat_eq_mod, Nat.reduceMod, Nat.mod_add_mod, Nat.add_mod_mod]
  simp only [← Nat.add_assoc, Columns.mk.injEq, true_and]
  have hfits {x k : ℕ} (hx : x < k * 2 ^ 32) (hk : k ≤ 2 ^ 32) : x % 2 ^ 64 = x :=
    Nat.mod_eq_of_lt (hx.trans_le (Nat.mul_le_mul_right (2 ^ 32) hk))
  exact ⟨hfits hthird (by norm_num), hfits hsecond (by norm_num), hfits hfirst (by norm_num)⟩

variable {σ : Type}

/-- `mul128` is multiplication modulo `2 ^ 128`, wherever its operands and target are. -/
theorem mul128_eq (n₁ n₂ t : Ref σ Uint128) (s : σ) :
    mul128 n₁ n₂ t s = t.set (ofNat128 (value128 (n₁.get s) * value128 (n₂.get s))) s := by
  have hcolumns := mul128Columns_eq (n₁.get s) (n₂.get s)
  have hvalue := columns_value (2 ^ 32) (limbs32 (n₁.get s)) (limbs32 (n₂.get s))
  rw [value_limbs32, value_limbs32, ← hcolumns, ← pow_mul] at hvalue
  simp only [mul128, from₂_eq add128_computes, into₂_eq add128_computes, Ref.get_set, Ref.set_set]
  apply congrArg (fun v => t.set v s)
  apply ofNat128_congr
  rw [← hvalue, value128_ofNat128, value128_ofNat128, Nat.add_mod_mod]
  simp only [value128, Columns.value, Columns.map, toNat_high32, toNat_shift32, UInt64.toNat_zero,
    ← pow_mul, Nat.reduceMul]
  have hthird := (mul128Columns (n₁.get s) (n₂.get s)).third.toNat_lt
  omega

theorem mul128_computes : Computes₂ mul128 fun a b => ofNat128 (value128 a * value128 b) :=
  fun _ n₁ n₂ t s _ _ => mul128_eq n₁ n₂ t s

/-! The products of 64-bit limbs. -/

/-- The 64-bit limbs of a `uint256_t`, the most significant first. -/
def limbs64 (n : Uint256) (i : ℕ) : ℕ := [n.upper.upper.toNat, n.upper.lower.toNat,
  n.lower.upper.toNat, n.lower.lower.toNat].getD i 0

theorem limbs64_lt (n : Uint256) (i : ℕ) : limbs64 n i < 2 ^ 64 := by
  unfold limbs64
  apply getD_lt (by norm_num)
  simp only [List.forall_mem_cons, List.not_mem_nil, false_implies, forall_const, and_true]
  exact ⟨n.upper.upper.toNat_lt, n.upper.lower.toNat_lt, n.lower.upper.toNat_lt,
    n.lower.lower.toNat_lt⟩

theorem value_limbs64 (n : Uint256) : value (2 ^ 64) (limbs64 n) = value256 n := by
  simp only [value, limbs64, value256, value128, List.getD_cons_zero, List.getD_cons_succ]
  omega

theorem words64_value (n : Uint256) (i : Fin 4) : value128 (words64 n i) = limbs64 n i.val := by
  fin_cases i <;> exact value128_word _

theorem lower_ofNat128 (n : ℕ) : (ofNat128 n).lower.toNat = n % 2 ^ 64 := UInt64.toNat_ofNat

theorem upper_ofNat128 {n : ℕ} (h : n < 2 ^ 128) : (ofNat128 n).upper.toNat = n / 2 ^ 64 := by
  have hdiv : n / 2 ^ 64 < 2 ^ 64 := Nat.div_lt_of_lt_mul (by omega)
  exact UInt64.toNat_ofNat.trans (Nat.mod_eq_of_lt hdiv)

/-- No sum of a column wraps. -/
theorem mul256Columns_eq (a b : Uint256) :
    (mul256Columns a b).map value128 = columns (2 ^ 64) (limbs64 a) (limbs64 b) := by
  have hlt (i y : ℕ) : limbs64 a i * limbs64 b y < 2 ^ 128 :=
    calc limbs64 a i * limbs64 b y
        < 2 ^ 64 * 2 ^ 64 := Nat.mul_lt_mul'' (limbs64_lt a i) (limbs64_lt b y)
      _ = 2 ^ 128 := by norm_num
  obtain ⟨-, hthird, hsecond, hfirst⟩ := columns_lt (limbs64_lt a) (limbs64_lt b)
  simp only [columns] at hthird hsecond hfirst
  simp only [mul256Columns, Columns.map, columns, into₂_eq add128_computes,
    into₂_eq mul128_computes, words64_value, value128_ofNat128, value128_word, lower_ofNat128,
    upper_ofNat128 (hlt _ _), Fin.reduceRev, Fin.coe_ofNat_eq_mod, Nat.reduceMod, Nat.add_mod_mod,
    Columns.mk.injEq, true_and]
  have hfits {x y k : ℕ} (hy : y < k * 2 ^ 64) (hk : k ≤ 2 ^ 64) (hxy : x = y) :
      x % 2 ^ 128 = y := by
    rw [hxy]
    exact Nat.mod_eq_of_lt (hy.trans_le (by omega))
  refine ⟨hfits hthird (by norm_num) ?_, hfits hsecond (by norm_num) ?_,
    hfits hfirst (by norm_num) ?_⟩ <;> ring

/-- The sum of the second lowest column of a product, which `mul256` forms in `third64`. -/
def third64 (a b : Uint256) : ℕ :=
  a.lower.lower.toNat * b.lower.upper.toNat % 2 ^ 64 +
    a.lower.lower.toNat * b.lower.lower.toNat / 2 ^ 64 +
    a.lower.upper.toNat * b.lower.lower.toNat % 2 ^ 64

theorem third64_lt (a b : Uint256) : third64 a b < 3 * 2 ^ 64 :=
  (columns_lt (limbs64_lt a) (limbs64_lt b)).2.1

theorem value128_upper_only (n : Uint128) {w : UInt64} (hw : w = 0) :
    value128 ⟨n.upper, w⟩ = value128 n / 2 ^ 64 * 2 ^ 64 := by
  have hlower := n.lower.toNat_lt
  simp only [value128, hw, UInt64.toNat_zero]
  omega

/-- What the carry out of that column loses, and what it adds two limbs too high. -/
theorem mul256_eq (n₁ n₂ t : Ref σ Uint256) (s : σ) :
    mul256 n₁ n₂ t s = t.set (ofNat256 (value256 (n₁.get s) * value256 (n₂.get s) +
      third64 (n₁.get s) (n₂.get s) / 2 ^ 64 * (2 ^ 192 - 2 ^ 128))) s := by
  have hcolumns := mul256Columns_eq (n₁.get s) (n₂.get s)
  have hvalue := columns_value (2 ^ 64) (limbs64 (n₁.get s)) (limbs64 (n₂.get s))
  rw [value_limbs64, value_limbs64, ← hcolumns, ← pow_mul] at hvalue
  have hthird : third64 (n₁.get s) (n₂.get s) =
      value128 (mul256Columns (n₁.get s) (n₂.get s)).third :=
    congrArg Columns.third hcolumns.symm
  simp only [mul256, from₂_eq add256_computes, into₂_eq add256_computes, into₀_eq clear128_computes,
    into₁_eq (shiftl128_computes 64).apart, Ref.get_set, Ref.set_set]
  apply congrArg (fun v => t.set v s)
  apply ofNat256_congr
  rw [value256_ofNat256, value256_ofNat256, Nat.add_mod_mod,
    ← Nat.mod_add_mod (value256 (n₁.get s) * value256 (n₂.get s)), ← hvalue, Nat.mod_add_mod,
    hthird]
  have hcount : (64 : UInt32).toNat = 64 := rfl
  have hzero : (ofNat128 0).lower = 0 := rfl
  generalize mul256Columns (n₁.get s) (n₂.get s) = c
  simp only [value256, Columns.value, Columns.map, ← pow_mul]
  rw [value128_upper_only c.third hzero, hcount]
  simp only [value128_ofNat128]
  have hlt := value128_lt c.third
  omega

theorem add_mul_mod_iff {x k d m : ℕ} (hd : 0 < d) (hsmall : k * d < m) :
    (x + k * d) % m = x % m ↔ k = 0 := by
  constructor
  · intro h
    have hcancel : k * d ≡ 0 [MOD m] := Nat.ModEq.add_left_cancel' x h
    have hzero : k * d = 0 := by simpa [Nat.ModEq, Nat.mod_eq_of_lt hsmall] using hcancel
    exact (Nat.mul_eq_zero.mp hzero).resolve_right hd.ne'
  · rintro rfl
    simp

/-- `mul256` is multiplication modulo `2 ^ 256` exactly on the operands whose second lowest
column does not carry. -/
theorem mul256_iff {σ : Type} (number1 number2 target : Ref σ Uint256) (s : σ) :
    value256 (target.get (mul256 number1 number2 target s)) =
        value256 (number1.get s) * value256 (number2.get s) % 2 ^ 256 ↔
      third64 (number1.get s) (number2.get s) < 2 ^ 64 := by
  have hlt := third64_lt (number1.get s) (number2.get s)
  have hcarry : third64 (number1.get s) (number2.get s) / 2 ^ 64 < 3 :=
    Nat.div_lt_of_lt_mul (by omega)
  have hsmall : third64 (number1.get s) (number2.get s) / 2 ^ 64 * (2 ^ 192 - 2 ^ 128) < 2 ^ 256 :=
    calc third64 (number1.get s) (number2.get s) / 2 ^ 64 * (2 ^ 192 - 2 ^ 128)
        < 3 * (2 ^ 192 - 2 ^ 128) := Nat.mul_lt_mul_of_pos_right hcarry (by norm_num)
      _ < 2 ^ 256 := by norm_num
  rw [mul256_eq, Ref.get_set, value256_ofNat256, add_mul_mod_iff (by norm_num) hsmall,
    Nat.div_eq_zero_iff]
  norm_num

/-- The failing operands are `2 ^ 64 + 1` and `2 ^ 128 - 1`. -/
theorem mul256_fails : ¬ ∀ (number1 number2 target : Ref (Uint256 × Uint256 × Uint256) Uint256)
    (s : Uint256 × Uint256 × Uint256), number1.Apart target → number2.Apart target →
      value256 (target.get (mul256 number1 number2 target s)) =
        value256 (number1.get s) * value256 (number2.get s) % 2 ^ 256 := by
  intro h
  have hwrong := h Ref.fst (Ref.snd.comp Ref.fst) (Ref.snd.comp Ref.snd)
    (⟨⟨0, 0⟩, ⟨1, 1⟩⟩, ⟨⟨0, 0⟩, ⟨0xffffffffffffffff, 0xffffffffffffffff⟩⟩, ⟨⟨0, 0⟩, ⟨0, 0⟩⟩)
    (Ref.apart_fst_snd.comp_right _) (Ref.apart_fst_snd.inside _)
  exact absurd hwrong (by decide +kernel)

end IostLedger
