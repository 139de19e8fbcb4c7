import IostLedger.Wide

/-! What the routines of `uint256.c` compute, as arithmetic on the numbers their halves stand
for. -/
namespace IostLedger
open Call

/-- The numbers of a machine word. -/
def numbers64 : Numbers UInt64 where
  bits := 64
  value := UInt64.toNat
  ofNat := UInt64.ofNat
  value_lt := UInt64.toNat_lt
  value_ofNat _ := UInt64.toNat_ofNat
  ofNat_value _ := UInt64.ofNat_toNat

def numbers128 : Numbers Uint128 := numbers64.halves

def numbers256 : Numbers Uint256 := numbers128.halves

/-- The number a `uint128_t` stands for. -/
def value128 (n : Uint128) : ℕ := n.upper.toNat * 2 ^ 64 + n.lower.toNat

/-- The number a `uint256_t` stands for. -/
def value256 (n : Uint256) : ℕ := value128 n.upper * 2 ^ 128 + value128 n.lower

/-- The `uint128_t` of a number, modulo `2 ^ 128`. -/
def ofNat128 (n : ℕ) : Uint128 := ⟨UInt64.ofNat (n / 2 ^ 64), UInt64.ofNat n⟩

/-- The `uint256_t` of a number, modulo `2 ^ 256`. -/
def ofNat256 (n : ℕ) : Uint256 := ⟨ofNat128 (n / 2 ^ 128), ofNat128 n⟩

theorem value128_lt (n : Uint128) : value128 n < 2 ^ 128 := numbers128.value_lt n

theorem value256_lt (n : Uint256) : value256 n < 2 ^ 256 := numbers256.value_lt n

@[simp] theorem value128_ofNat128 (n : ℕ) : value128 (ofNat128 n) = n % 2 ^ 128 :=
  numbers128.value_ofNat n

@[simp] theorem value256_ofNat256 (n : ℕ) : value256 (ofNat256 n) = n % 2 ^ 256 :=
  numbers256.value_ofNat n

@[simp] theorem ofNat128_value128 (n : Uint128) : ofNat128 (value128 n) = n :=
  numbers128.ofNat_value n

@[simp] theorem ofNat256_value256 (n : Uint256) : ofNat256 (value256 n) = n :=
  numbers256.ofNat_value n

theorem eq_ofNat128 {a : Uint128} {n : ℕ} (h : value128 a = n % 2 ^ 128) : a = ofNat128 n :=
  numbers128.eq_ofNat h

theorem eq_ofNat256 {a : Uint256} {n : ℕ} (h : value256 a = n % 2 ^ 256) : a = ofNat256 n :=
  numbers256.eq_ofNat h

theorem ofNat128_congr {m n : ℕ} (h : m % 2 ^ 128 = n % 2 ^ 128) : ofNat128 m = ofNat128 n :=
  numbers128.ofNat_congr h

theorem ofNat256_congr {m n : ℕ} (h : m % 2 ^ 256 = n % 2 ^ 256) : ofNat256 m = ofNat256 n :=
  numbers256.ofNat_congr h

theorem eq_ofNat128_of_eq {a : Uint128} {n : ℕ} (h : value128 a = n) : a = ofNat128 n := by
  rw [← h, ofNat128_value128]

theorem eq_ofNat256_of_eq {a : Uint256} {n : ℕ} (h : value256 a = n) : a = ofNat256 n := by
  rw [← h, ofNat256_value256]

theorem value128_word (w : UInt64) : value128 ⟨0, w⟩ = w.toNat := by simp [value128]

/-! Tests. -/

theorem zero128_iff (n : Uint128) : zero128 n = true ↔ value128 n = 0 := by
  simp only [zero128, value128, Bool.and_eq_true, beq_iff_eq, ← UInt64.toNat_inj, UInt64.toNat_zero]
  omega

theorem zero256_iff (n : Uint256) : zero256 n = true ↔ value256 n = 0 := by
  simp only [zero256, value256, Bool.and_eq_true, zero128_iff]
  omega

theorem equal128_iff (a b : Uint128) : equal128 a b = true ↔ value128 a = value128 b := by
  have ha := a.lower.toNat_lt
  have hb := b.lower.toNat_lt
  simp only [equal128, value128, Bool.and_eq_true, beq_iff_eq, ← UInt64.toNat_inj]
  omega

theorem equal256_iff (a b : Uint256) : equal256 a b = true ↔ value256 a = value256 b := by
  have ha := value128_lt a.lower
  have hb := value128_lt b.lower
  simp only [equal256, value256, Bool.and_eq_true, equal128_iff]
  omega

theorem gt128_iff (a b : Uint128) : gt128 a b = true ↔ value128 b < value128 a := by
  have ha := a.lower.toNat_lt
  have hb := b.lower.toNat_lt
  simp only [gt128, value128, beq_iff_eq, ← UInt64.toNat_inj, gt_iff_lt]
  split <;> simp only [decide_eq_true_eq, UInt64.lt_iff_toNat_lt] <;> omega

theorem gt256_iff (a b : Uint256) : gt256 a b = true ↔ value256 b < value256 a := by
  have ha := value128_lt a.lower
  have hb := value128_lt b.lower
  simp only [gt256, value256, equal128_iff]
  split <;> simp only [gt128_iff] <;> omega

theorem gte128_iff (a b : Uint128) : gte128 a b = true ↔ value128 b ≤ value128 a := by
  simp only [gte128, Bool.or_eq_true, gt128_iff, equal128_iff]
  omega

theorem gte256_iff (a b : Uint256) : gte256 a b = true ↔ value256 b ≤ value256 a := by
  simp only [gte256, Bool.or_eq_true, gt256_iff, equal256_iff]
  omega

/-! Copies. -/

section
variable {σ : Type}

theorem copy128_eq {n t : Ref σ Uint128} {s : σ} (h : n.SameOrApart t) :
    copy128 t n s = t.set (n.get s) s := by
  simp [copy128, h.lower_get_upper_set]

theorem copy256_eq {n t : Ref σ Uint256} {s : σ} (h : n.SameOrApart t) :
    copy256 t n s = t.set (n.get s) s := by
  simp only [copy256, copy128_eq h.upper, copy128_eq h.lower, Ref.lower_get,
    h.lower_get_upper_set, Ref.lower_set_upper_set, Ref.upper_get]

theorem clear128_eq (t : Ref σ Uint128) (s : σ) : clear128 t s = t.set (ofNat128 0) s :=
  t.lower_set_upper_set 0 0 s

theorem clear256_eq (t : Ref σ Uint256) (s : σ) : clear256 t s = t.set (ofNat256 0) s := by
  simp only [clear256, clear128_eq, Ref.lower_set_upper_set]
  congr

theorem clear128_computes : Computes₀ clear128 (ofNat128 0) := fun _ => clear128_eq

theorem clear256_computes : Computes₀ clear256 (ofNat256 0) := fun _ => clear256_eq

theorem copy128_computes : Computes₁ (fun number target => copy128 target number) id :=
  fun _ _ _ _ h => copy128_eq h

theorem copy256_computes : Computes₁ (fun number target => copy256 target number) id :=
  fun _ _ _ _ h => copy256_eq h

/-! Sums and differences. -/

variable {n₁ n₂ t : Ref σ Uint128} {m₁ m₂ u : Ref σ Uint256} {s : σ}

theorem add128_eq (h₁ : n₁.SameOrApart t) (h₂ : n₂.SameOrApart t) :
    add128 n₁ n₂ t s = t.set (ofNat128 (value128 (n₁.get s) + value128 (n₂.get s))) s := by
  simp only [add128, Ref.lower_set_upper_set, Ref.lower_get, h₁.lower_get_upper_set,
    h₂.lower_get_upper_set]
  congr 1
  apply eq_ofNat128
  have ha := (n₁.get s).lower.toNat_lt
  have hb := (n₂.get s).lower.toNat_lt
  simp only [value128, Ref.upper_get, UInt64.toNat_add, UInt64.lt_iff_toNat_lt]
  split <;> simp only [UInt64.toNat_one, UInt64.toNat_zero] <;> omega

theorem add128_computes : Computes₂ add128 fun a b => ofNat128 (value128 a + value128 b) :=
  fun _ _ _ _ _ => add128_eq

theorem minus128_eq (h₁ : n₁.SameOrApart t) (h₂ : n₂.SameOrApart t) :
    minus128 n₁ n₂ t s =
      t.set (ofNat128 (2 ^ 128 - value128 (n₂.get s) + value128 (n₁.get s))) s := by
  simp only [minus128, Ref.lower_set_upper_set, Ref.lower_get, h₁.lower_get_upper_set,
    h₂.lower_get_upper_set]
  congr 1
  apply eq_ofNat128
  have ha := (n₁.get s).lower.toNat_lt
  have hb := (n₂.get s).lower.toNat_lt
  have hb' := (n₂.get s).upper.toNat_lt
  simp only [value128, Ref.upper_get, UInt64.toNat_sub, UInt64.lt_iff_toNat_lt, gt_iff_lt]
  split <;> simp only [UInt64.toNat_one, UInt64.toNat_zero] <;> omega

theorem minus128_computes :
    Computes₂ minus128 fun a b => ofNat128 (2 ^ 128 - value128 b + value128 a) :=
  fun _ _ _ _ _ => minus128_eq

/-- A carry that goes to the upper half of the target after that is first written. -/
theorem carry_upper (u : Ref σ Uint256) (c : Bool) (x y : Uint128) (s : σ) :
    (if c = true then u.upper.set y (u.upper.set x s) else u.upper.set x s) =
      u.upper.set (if c = true then y else x) s := by
  cases c <;> simp

theorem value128_one : value128 ⟨0, 1⟩ = 1 := value128_word 1

theorem add256_eq (h₁ : m₁.SameOrApart u) (h₂ : m₂.SameOrApart u) :
    add256 m₁ m₂ u s = u.set (ofNat256 (value256 (m₁.get s) + value256 (m₂.get s))) s := by
  simp only [add256, add128_eq h₁.upper h₂.upper, into₂_eq add128_computes,
    update₂_eq add128_computes, Ref.get_set, carry_upper, add128_eq h₁.lower h₂.lower,
    Ref.lower_get, h₁.lower_get_upper_set, h₂.lower_get_upper_set, Ref.lower_set_upper_set]
  congr 1
  apply eq_ofNat256
  have ha := value128_lt (m₁.get s).lower
  have hb := value128_lt (m₂.get s).lower
  simp only [value256, Ref.upper_get, gt128_iff, value128_ofNat128]
  split <;> simp only [value128_ofNat128, value128_one] <;> omega

theorem add256_computes : Computes₂ add256 fun a b => ofNat256 (value256 a + value256 b) :=
  fun _ _ _ _ _ => add256_eq

theorem minus256_eq (h₁ : m₁.SameOrApart u) (h₂ : m₂.SameOrApart u) :
    minus256 m₁ m₂ u s =
      u.set (ofNat256 (2 ^ 256 - value256 (m₂.get s) + value256 (m₁.get s))) s := by
  simp only [minus256, minus128_eq h₁.upper h₂.upper, into₂_eq minus128_computes,
    update₂_eq minus128_computes, Ref.get_set, carry_upper, minus128_eq h₁.lower h₂.lower,
    Ref.lower_get, h₁.lower_get_upper_set, h₂.lower_get_upper_set, Ref.lower_set_upper_set]
  congr 1
  apply eq_ofNat256
  have ha := value128_lt (m₁.get s).lower
  have hb := value128_lt (m₂.get s).lower
  have hb' := value128_lt (m₂.get s).upper
  simp only [value256, Ref.upper_get, gt128_iff, value128_ofNat128]
  split <;> simp only [value128_ofNat128, value128_one] <;> omega

theorem minus256_computes :
    Computes₂ minus256 fun a b => ofNat256 (2 ^ 256 - value256 b + value256 a) :=
  fun _ _ _ _ _ => minus256_eq

theorem or128_eq (h₁ : n₁.SameOrApart t) (h₂ : n₂.SameOrApart t) :
    or128 n₁ n₂ t s = t.set (ofNat128 (value128 (n₁.get s) ||| value128 (n₂.get s))) s := by
  simp only [or128, Ref.lower_set_upper_set, Ref.lower_get, h₁.lower_get_upper_set,
    h₂.lower_get_upper_set]
  congr 1
  apply eq_ofNat128
  simp only [value128, Ref.upper_get, UInt64.toNat_or]
  rw [Numbers.or_halves (n₁.get s).lower.toNat_lt (n₂.get s).lower.toNat_lt]
  exact (Nat.mod_eq_of_lt (Nat.or_lt_two_pow (value128_lt _) (value128_lt _))).symm

theorem or128_computes : Computes₂ or128 fun a b => ofNat128 (value128 a ||| value128 b) :=
  fun _ _ _ _ _ => or128_eq

theorem or256_eq (h₁ : m₁.SameOrApart u) (h₂ : m₂.SameOrApart u) :
    or256 m₁ m₂ u s = u.set (ofNat256 (value256 (m₁.get s) ||| value256 (m₂.get s))) s := by
  simp only [or256, or128_eq h₁.upper h₂.upper, or128_eq h₁.lower h₂.lower, Ref.lower_get,
    h₁.lower_get_upper_set, h₂.lower_get_upper_set, Ref.lower_set_upper_set]
  congr 1
  apply eq_ofNat256
  have hu := Nat.or_lt_two_pow (value128_lt (m₁.get s).upper) (value128_lt (m₂.get s).upper)
  have hl := Nat.or_lt_two_pow (value128_lt (m₁.get s).lower) (value128_lt (m₂.get s).lower)
  simp only [value256, Ref.upper_get, value128_ofNat128]
  rw [Nat.mod_eq_of_lt hu, Nat.mod_eq_of_lt hl, Numbers.or_halves (value128_lt _) (value128_lt _)]
  exact (Nat.mod_eq_of_lt (Nat.or_lt_two_pow (value256_lt _) (value256_lt _))).symm

theorem or256_computes : Computes₂ or256 fun a b => ofNat256 (value256 a ||| value256 b) :=
  fun _ _ _ _ _ => or256_eq

/-! Shifts. -/

theorem shiftLeft_word (a : UInt64) {v : UInt32} (hv : v.toNat < 64) :
    (a <<< v.toUInt64).toNat = a.toNat * 2 ^ v.toNat % 2 ^ 64 := by
  rw [UInt64.toNat_shiftLeft, UInt32.toNat_toUInt64, Nat.mod_eq_of_lt hv, Nat.shiftLeft_eq]

theorem shiftRight_word (a : UInt64) {v : UInt32} (hv : v.toNat < 64) :
    (a >>> v.toUInt64).toNat = a.toNat / 2 ^ v.toNat := by
  rw [UInt64.toNat_shiftRight, UInt32.toNat_toUInt64, Nat.mod_eq_of_lt hv,
    Nat.shiftRight_eq_div_pow]

theorem shift_out {x v w : ℕ} (h : w ≤ v) : 0 % 2 ^ w = x * 2 ^ v % 2 ^ w := by
  rw [Nat.zero_mod, ← Nat.sub_add_cancel h, pow_add, ← Nat.mul_assoc, Nat.mul_mod_left]

theorem toNat_sub_count {v w : UInt32} (h : v.toNat ≤ w.toNat) :
    (w - v).toNat = w.toNat - v.toNat :=
  UInt32.toNat_sub_of_le _ _ (UInt32.le_iff_toNat_le.mpr h)

theorem shiftl128_eq (v : UInt32) (h : n₁.SameOrApart t) :
    shiftl128 n₁ v t s = t.set (ofNat128 (value128 (n₁.get s) * 2 ^ v.toNat)) s := by
  unfold shiftl128
  simp only [ge_iff_le, UInt32.le_iff_toNat_le, ← UInt32.toNat_inj, UInt32.lt_iff_toNat_lt,
    UInt32.reduceToNat, clear128_eq, copy128_eq h, Ref.lower_get, Ref.upper_get,
    h.lower_get_upper_set, Ref.lower_set_upper_set]
  have hlower := (n₁.get s).lower.toNat_lt
  split_ifs with hclear hword hzero hlow hhigh <;> congr 1 <;> apply eq_ofNat128
  · rw [value128_ofNat128]
    exact shift_out hclear
  · have hshift := @Numbers.shiftLeft_whole_half (n₁.get s).upper.toNat
      (n₁.get s).lower.toNat 64 64 le_rfl
    simp only [hword, value128, UInt64.toNat_zero, Nat.add_zero]
    rw [← hshift, Nat.sub_self, pow_zero, Nat.mul_one, Nat.mod_eq_of_lt hlower]
  · rw [hzero, pow_zero, Nat.mul_one, Nat.mod_eq_of_lt (value128_lt _)]
  · simp only [value128, UInt64.toNat_add, shiftLeft_word _ hlow]
    have hcount : (64 - v).toNat = 64 - v.toNat := toNat_sub_count hlow.le
    rw [shiftRight_word _ (by omega), hcount, Nat.mod_add_mod]
    exact Numbers.shiftLeft_halves hlow.le
  · simp only [value128, UInt64.toNat_zero, Nat.add_zero]
    have hcount : (v - 64).toNat = v.toNat - 64 := toNat_sub_count hhigh.2.le
    rw [shiftLeft_word _ (by omega), hcount]
    exact Numbers.shiftLeft_whole_half hhigh.2.le
  · omega

theorem shiftl128_computes (v : UInt32) :
    Computes₁ (fun number target => shiftl128 number v target)
      fun a => ofNat128 (value128 a * 2 ^ v.toNat) :=
  fun _ _ _ _ => shiftl128_eq v

theorem shiftr128_eq (v : UInt32) (h : n₁.SameOrApart t) (hapart : v.toNat = 64 → n₁.Apart t) :
    shiftr128 n₁ v t s = t.set (ofNat128 (value128 (n₁.get s) / 2 ^ v.toNat)) s := by
  have hfrom (a : Uint128) : from₁ (fun number target => copy128 target number) a t s = t.set a s :=
    from₁_eq copy128_computes.apart a t s
  unfold shiftr128
  simp only [ge_iff_le, UInt32.le_iff_toNat_le, ← UInt32.toNat_inj, UInt32.lt_iff_toNat_lt,
    UInt32.reduceToNat, clear128_eq, copy128_eq h, Ref.lower_get, Ref.upper_get, hfrom,
    Ref.upper_set_lower_set]
  have hlower := (n₁.get s).lower.toNat_lt
  split_ifs with hclear hword hzero hlow hhigh
  · congr 1
    apply eq_ofNat128_of_eq
    have hsmall := (value128_lt (n₁.get s)).trans_le (Nat.pow_le_pow_right two_pos hclear)
    rw [value128_ofNat128, Nat.div_eq_of_lt hsmall]
    rfl
  · have hread : (n₁.get (t.upper.set 0 s)).upper = (n₁.get s).upper :=
      congrArg Halves.upper (((hapart hword).comp_right _).get_set 0 s)
    simp only [hread, Ref.lower_set_upper_set]
    congr 1
    apply eq_ofNat128_of_eq
    simp only [hword, value128, UInt64.toNat_zero]
    omega
  · congr 1
    apply eq_ofNat128_of_eq
    rw [hzero, pow_zero, Nat.div_one]
  · congr 1
    apply eq_ofNat128_of_eq
    simp only [value128, UInt64.toNat_add, shiftRight_word _ hlow]
    have hcount : (64 - v).toNat = 64 - v.toNat := toNat_sub_count hlow.le
    rw [shiftLeft_word _ (by omega), hcount,
      Nat.mod_eq_of_lt (Numbers.shiftRight_halves_lt hlow.le hlower)]
    exact Numbers.shiftRight_halves hlow.le
  · congr 1
    apply eq_ofNat128_of_eq
    simp only [value128, UInt64.toNat_zero, Nat.zero_mul, Nat.zero_add]
    have hcount : (v - 64).toNat = v.toNat - 64 := toNat_sub_count hhigh.2.le
    rw [shiftRight_word _ (by omega), hcount]
    exact Numbers.shiftRight_whole_half hhigh.2.le hlower
  · omega

theorem shiftr128_computes_apart (v : UInt32) :
    ComputesApart₁ (fun number target => shiftr128 number v target)
      fun a => ofNat128 (value128 a / 2 ^ v.toNat) :=
  fun _ _ _ _ h => shiftr128_eq v (Or.inr h) fun _ => h

theorem shiftr128_one_computes :
    Computes₁ (fun number target => shiftr128 number 1 target)
      fun a => ofNat128 (value128 a / 2) :=
  fun _ _ _ _ h => shiftr128_eq 1 h fun hword => absurd hword (by decide)

/-- A shift of a number into itself by exactly one word loses it. -/
theorem shiftr128_same_64 (t : Ref σ Uint128) (s : σ) :
    shiftr128 t 64 t s = t.set (ofNat128 0) s := by
  simp [shiftr128, Ref.upper_set, Ref.lower_set, ofNat128]

/-! The shifts of a `uint256_t` by less than 128 go through the shifts of its halves. -/

theorem shiftl256_eq (v : UInt32) (h : m₁.SameOrApart u) :
    shiftl256 m₁ v u s = u.set (ofNat256 (value256 (m₁.get s) * 2 ^ v.toNat)) s := by
  have hfrom (a : Uint256) : from₁ (fun number target => copy256 target number) a u s = u.set a s :=
    from₁_eq copy256_computes.apart a u s
  have hcopy : copy128 u.upper m₁.lower s = u.upper.set (m₁.get s).lower s :=
    copy128_eq (Or.inr h.lower_apart_upper)
  unfold shiftl256
  simp only [ge_iff_le, UInt32.le_iff_toNat_le, ← UInt32.toNat_inj, UInt32.lt_iff_toNat_lt,
    UInt32.reduceToNat, clear256_eq, clear128_eq, copy256_eq h, hcopy, hfrom, Ref.lower_get,
    Ref.upper_get, Ref.lower_set_upper_set, shiftl128_eq _ (Or.inr h.lower_apart_upper),
    into₁_eq (shiftl128_computes _).apart, into₁_eq (shiftr128_computes_apart _),
    into₂_eq add128_computes]
  have hlower := value128_lt (m₁.get s).lower
  split_ifs with hclear hhalf hzero hlow hhigh <;> congr 1 <;> apply eq_ofNat256
  · rw [value256_ofNat256]
    exact shift_out hclear
  · have hshift := @Numbers.shiftLeft_whole_half (value128 (m₁.get s).upper)
      (value128 (m₁.get s).lower) 128 128 le_rfl
    simp only [hhalf, value256, value128_ofNat128, Nat.zero_mod]
    rw [Nat.add_zero, ← hshift, Nat.sub_self, pow_zero, Nat.mul_one, Nat.mod_eq_of_lt hlower]
  · rw [hzero, pow_zero, Nat.mul_one, Nat.mod_eq_of_lt (value256_lt _)]
  · have hcount : (128 - v).toNat = 128 - v.toNat := toNat_sub_count hlow.le
    simp only [value256, value128_ofNat128, hcount, Nat.mod_add_mod, Nat.add_mod_mod]
    exact Numbers.shiftLeft_halves hlow.le
  · have hcount : (v - 128).toNat = v.toNat - 128 := toNat_sub_count hhigh.2.le
    simp only [value256, value128_ofNat128, hcount, Nat.zero_mod]
    rw [Nat.add_zero]
    exact Numbers.shiftLeft_whole_half hhigh.2.le
  · omega

theorem shiftl256_computes (v : UInt32) :
    Computes₁ (fun number target => shiftl256 number v target)
      fun a => ofNat256 (value256 a * 2 ^ v.toNat) :=
  fun _ _ _ _ => shiftl256_eq v

theorem shiftr256_eq (v : UInt32) (h : m₁.SameOrApart u) :
    shiftr256 m₁ v u s = u.set (ofNat256 (value256 (m₁.get s) / 2 ^ v.toNat)) s := by
  have hfrom (a : Uint256) : from₁ (fun number target => copy256 target number) a u s = u.set a s :=
    from₁_eq copy256_computes.apart a u s
  have hcopy : copy128 u.lower m₁.upper s = u.lower.set (m₁.get s).upper s :=
    copy128_eq (Or.inr h.upper_apart_lower)
  unfold shiftr256
  simp only [ge_iff_le, UInt32.le_iff_toNat_le, ← UInt32.toNat_inj, UInt32.lt_iff_toNat_lt,
    UInt32.reduceToNat, clear256_eq, clear128_eq, copy256_eq h, hcopy, hfrom, Ref.lower_get,
    Ref.upper_get, Ref.upper_set_lower_set,
    shiftr128_eq _ (Or.inr h.upper_apart_lower) (fun _ => h.upper_apart_lower),
    into₁_eq (shiftl128_computes _).apart, into₁_eq (shiftr128_computes_apart _),
    into₂_eq add128_computes]
  have hlower := value128_lt (m₁.get s).lower
  have hupper := value128_lt (m₁.get s).upper
  split_ifs with hclear hhalf hzero hlow hhigh <;> congr 1 <;> apply eq_ofNat256_of_eq
  · have hsmall := (value256_lt (m₁.get s)).trans_le (Nat.pow_le_pow_right two_pos hclear)
    rw [value256_ofNat256, Nat.div_eq_of_lt hsmall, Nat.zero_mod]
  · simp only [hhalf, value256, value128_ofNat128]
    omega
  · rw [hzero, pow_zero, Nat.div_one]
  · have hcount : (128 - v).toNat = 128 - v.toNat := toNat_sub_count hlow.le
    have hparts := @Numbers.shiftRight_halves_lt (value128 (m₁.get s).upper) _ 128 v.toNat
      hlow.le hlower
    simp only [value256, value128_ofNat128, hcount, Nat.mod_add_mod, Nat.add_mod_mod]
    rw [Nat.mod_eq_of_lt ((Nat.div_le_self _ _).trans_lt hupper), Nat.add_comm (_ / _),
      ← Nat.mod_add_mod, Nat.mod_eq_of_lt hparts]
    exact Numbers.shiftRight_halves hlow.le
  · have hcount : (v - 128).toNat = v.toNat - 128 := toNat_sub_count hhigh.2.le
    simp only [value256, value128_ofNat128, hcount, Nat.zero_mod, Nat.zero_mul, Nat.zero_add]
    rw [Nat.mod_eq_of_lt ((Nat.div_le_self _ _).trans_lt hupper)]
    exact Numbers.shiftRight_whole_half hhigh.2.le hlower
  · omega

theorem shiftr256_computes (v : UInt32) :
    Computes₁ (fun number target => shiftr256 number v target)
      fun a => ofNat256 (value256 a / 2 ^ v.toNat) :=
  fun _ _ _ _ => shiftr256_eq v

end

/-! Bit counts. -/

/-- A count of the halvings that bring a number to zero. -/
theorem count_spec {τ : Type} {value : τ → ℕ} {nonzero : τ → Bool} {halve : τ → τ}
    (hzero : ∀ a, nonzero a = true ↔ value a ≠ 0) (hhalve : ∀ a, value (halve a) = value a / 2)
    {a : τ} {start : UInt32} {fuel : ℕ} (hfuel : Nat.size (value a) < fuel)
    (hsmall : start.toNat + Nat.size (value a) < 2 ^ 32) :
    ∃ t, While.loop (fun n : τ × UInt32 => nonzero n.1) (fun n => (halve n.1, n.2 + 1)) fuel
      (a, start) = some t ∧ t.2.toNat = start.toNat + Nat.size (value a) := by
  obtain ⟨t, hrun, htotal, hend⟩ := @While.loop_spec (τ × UInt32) (fun n => nonzero n.1)
    (fun n => (halve n.1, n.2 + 1))
    (fun n => n.2.toNat + Nat.size (value n.1) = start.toNat + Nat.size (value a))
    (fun n => Nat.size (value n.1)) (by
      intro n hinv hcond
      have hstep := Numbers.size_half ((hzero n.1).mp hcond)
      constructor
      · simp only [hhalve, UInt32.toNat_add, UInt32.toNat_one]
        omega
      · simp only [hhalve]
        omega) (a, start) rfl fuel hfuel
  refine ⟨t, hrun, ?_⟩
  have hvalue : value t.1 = 0 := by
    by_contra hne
    rw [(hzero t.1).mpr hne] at hend
    cases hend
  simpa only [hvalue, Nat.size_zero, Nat.add_zero] using htotal

/-- The count of `bits128` and `bits256`: of the upper half, unless that is zero. -/
theorem size_of_halves {U L h : ℕ} (hL : L < 2 ^ h) :
    Nat.size (U * 2 ^ h + L) = if U = 0 then Nat.size L else h + Nat.size U := by
  split
  next hU => rw [hU, Nat.zero_mul, Nat.zero_add]
  next hU => exact Numbers.size_halves hU hL

theorem bits128_spec (n : Uint128) {fuel : ℕ} (hfuel : 64 < fuel) :
    ∃ b, bits128 fuel n = some b ∧ b.toNat = Nat.size (value128 n) := by
  have hcount (a : UInt64) (start : UInt32) (hstart : start.toNat ≤ 64) :=
    have hsize : Nat.size a.toNat ≤ 64 := Nat.size_le.mpr a.toNat_lt
    @count_spec UInt64 UInt64.toNat (fun a => a != 0) (fun a => a >>> 1)
      (fun a => by simp [← UInt64.toNat_inj])
      (fun a => by simp [Nat.shiftRight_eq_div_pow]) a start fuel (by omega) (by omega)
  rw [value128, size_of_halves n.lower.toNat_lt]
  by_cases hupper : n.upper = 0
  · obtain ⟨t, hrun, hbits⟩ := hcount n.lower 0 (by decide)
    exact ⟨t.2, by simp [bits128, hupper, hrun], by simpa [hupper] using hbits⟩
  · obtain ⟨t, hrun, hbits⟩ := hcount n.upper 64 (by decide)
    have hne : n.upper.toNat ≠ 0 := fun h => hupper (UInt64.toNat_inj.mp h)
    exact ⟨t.2, by simp [bits128, hupper, hrun], by simpa [hne] using hbits⟩

theorem bits256_spec (n : Uint256) {fuel : ℕ} (hfuel : 128 < fuel) :
    ∃ b, bits256 fuel n = some b ∧ b.toNat = Nat.size (value256 n) := by
  have hcount (a : Uint128) (start : UInt32) (hstart : start.toNat ≤ 128) :=
    have hsize : Nat.size (value128 a) ≤ 128 := Nat.size_le.mpr (value128_lt a)
    @count_spec Uint128 value128 (fun a => !zero128 a)
      (fun a => inPlace₁ (fun number target => shiftr128 number 1 target) a)
      (fun a => by simp [← zero128_iff])
      (fun a => by
        rw [inPlace₁_eq shiftr128_one_computes, value128_ofNat128]
        exact Nat.mod_eq_of_lt ((Nat.div_le_self _ _).trans_lt (value128_lt a)))
      a start fuel (by omega) (by omega)
  rw [value256, size_of_halves (value128_lt n.lower)]
  by_cases hupper : value128 n.upper = 0
  · obtain ⟨t, hrun, hbits⟩ := hcount n.lower 0 (by decide)
    exact ⟨t.2, by simp [bits256, (zero128_iff _).mpr hupper, hrun], by simpa [hupper] using hbits⟩
  · obtain ⟨t, hrun, hbits⟩ := hcount n.upper 128 (by decide)
    have hne : zero128 n.upper = false := by
      simpa [← zero128_iff] using hupper
    exact ⟨t.2, by simp [bits256, hne, hrun], by simpa [hupper] using hbits⟩

end IostLedger
