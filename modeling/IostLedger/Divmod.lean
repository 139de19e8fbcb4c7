import IostLedger.WideArith
import IostLedger.Lib.ShiftDivision

/-! `divmod128` and `divmod256`: the same shift-and-subtract loop over the routines of its
width. It ends, with the quotient and the remainder, also where the caller's objects coincide. -/
namespace IostLedger
open Call

/-- The routines of one width that `divmod` and `tostring` call. -/
structure WideOps (τ : Type) where
  zero : τ → Bool
  gt : τ → τ → Bool
  gte : τ → τ → Bool
  bits : (fuel : ℕ) → τ → Option UInt32
  /-- A number cleared, then given a lowest word. -/
  ofWord : UInt64 → τ
  /-- The lowest word. -/
  low : τ → UInt64
  clear : Op₀ τ
  /-- The number, then the target. -/
  copy : Op₁ τ
  shiftl : UInt32 → Op₁ τ
  shiftr : UInt32 → Op₁ τ
  minus : Op₂ τ
  or : Op₂ τ

def ops128 : WideOps Uint128 where
  zero := zero128
  gt := gt128
  gte := gte128
  bits := bits128
  ofWord w := { into₀ clear128 with lower := w }
  low n := n.lower
  clear := clear128
  copy := fun number target => copy128 target number
  shiftl v := fun number target => shiftl128 number v target
  shiftr v := fun number target => shiftr128 number v target
  minus := minus128
  or := or128

def ops256 : WideOps Uint256 where
  zero := zero256
  gt := gt256
  gte := gte256
  bits := bits256
  ofWord w := { into₀ clear256 with lower := ⟨0, w⟩ }
  low n := n.lower.lower
  clear := clear256
  copy := fun number target => copy256 target number
  shiftl v := fun number target => shiftl256 number v target
  shiftr v := fun number target => shiftr256 number v target
  minus := minus256
  or := or256

/-- The locals that the loop of `divmod` changes. -/
structure DivLocals (τ : Type) where
  copyd : τ
  adder : τ
  resDiv : τ
  resMod : τ

variable {τ σ : Type}

/-- The two shifts to the right at the end of a pass. -/
def shiftDown (ops : WideOps τ) (v : DivLocals τ) : DivLocals τ :=
  ⟨inPlace₁ (ops.shiftr 1) v.copyd, inPlace₁ (ops.shiftr 1) v.adder, v.resDiv, v.resMod⟩

/-- The body of the loop. -/
def divStep (ops : WideOps τ) (v : DivLocals τ) : DivLocals τ :=
  if ops.gte v.resMod v.copyd then
    shiftDown ops ⟨v.copyd, v.adder, inPlace₂ ops.or v.resDiv v.adder,
      inPlace₂ ops.minus v.resMod v.copyd⟩
  else shiftDown ops v

/-- The locals before the loop; `diffBits` is the difference of the bit counts. -/
def divStart [Inhabited τ] (ops : WideOps τ) (diffBits : UInt32) (l r : τ) : DivLocals τ :=
  let v : DivLocals τ := ⟨into₁ (ops.shiftl diffBits) r,
    into₁ (ops.shiftl diffBits) (ops.ofWord 1), into₀ ops.clear, into₁ ops.copy l⟩
  if ops.gt v.copyd v.resMod then shiftDown ops v else v

/-- `divmod128` and `divmod256`. The results are copied out when both are known. -/
def divmod [Inhabited τ] (ops : WideOps τ) (fuel : ℕ) (l r retDiv retMod : Ref σ τ) (s : σ) :
    Option σ := do
  let bitsL ← ops.bits fuel (l.get s)
  let bitsR ← ops.bits fuel (r.get s)
  if ops.gt (r.get s) (l.get s) then
    let s := ops.copy l retMod s
    return ops.clear retDiv s
  else
    let v ← While.loop (fun v => ops.gte v.resMod (r.get s)) (divStep ops) fuel
      (divStart ops (bitsL - bitsR) (l.get s) (r.get s))
    let s := from₁ ops.copy v.resDiv retDiv s
    return from₁ ops.copy v.resMod retMod s

/-- `divmod128`. -/
def divmod128 : (fuel : ℕ) → (l r retDiv retMod : Ref σ Uint128) → σ → Option σ := divmod ops128

/-- `divmod256`. -/
def divmod256 : (fuel : ℕ) → (l r retDiv retMod : Ref σ Uint256) → σ → Option σ := divmod ops256

/-- The routines of a width do the arithmetic of its numbers. -/
structure WideOps.Lawful (ops : WideOps τ) (N : Numbers τ) : Prop where
  bits_lt : N.bits < 2 ^ 32
  zero_iff : ∀ a, ops.zero a = true ↔ N.value a = 0
  gt_iff : ∀ a b, ops.gt a b = true ↔ N.value b < N.value a
  gte_iff : ∀ a b, ops.gte a b = true ↔ N.value b ≤ N.value a
  bits_eq : ∀ fuel a, N.bits < fuel →
    ∃ b, ops.bits fuel a = some b ∧ b.toNat = Nat.size (N.value a)
  ofWord_value : ∀ w, N.value (ops.ofWord w) = w.toNat
  low_value : ∀ a, (ops.low a).toNat = N.value a % 2 ^ 64
  clear : Computes₀ ops.clear (N.ofNat 0)
  copy : Computes₁ ops.copy id
  shiftl : ∀ v, Computes₁ (ops.shiftl v) fun a => N.ofNat (N.value a * 2 ^ v.toNat)
  shiftr_one : Computes₁ (ops.shiftr 1) fun a => N.ofNat (N.value a / 2)
  minus : Computes₂ ops.minus fun a b => N.ofNat (2 ^ N.bits - N.value b + N.value a)
  or : Computes₂ ops.or fun a b => N.ofNat (N.value a ||| N.value b)

theorem ops128_lawful : ops128.Lawful numbers128 where
  bits_lt := by decide
  zero_iff := zero128_iff
  gt_iff := gt128_iff
  gte_iff := gte128_iff
  bits_eq _ n hfuel := bits128_spec n (lt_of_le_of_lt (by decide) hfuel)
  ofWord_value w := by
    rw [ops128, into₀_eq clear128_computes]
    exact value128_word w
  low_value a := by
    have hlower := a.lower.toNat_lt
    change a.lower.toNat = value128 a % 2 ^ 64
    rw [value128]
    omega
  clear := clear128_computes
  copy := copy128_computes
  shiftl := shiftl128_computes
  shiftr_one := shiftr128_one_computes
  minus := minus128_computes
  or := or128_computes

theorem ops256_lawful : ops256.Lawful numbers256 where
  bits_lt := by decide
  zero_iff := zero256_iff
  gt_iff := gt256_iff
  gte_iff := gte256_iff
  bits_eq _ n hfuel := bits256_spec n (lt_of_le_of_lt (by decide) hfuel)
  ofWord_value w := by
    have hclear : into₀ clear256 = ofNat256 0 := into₀_eq clear256_computes
    change value256 ⟨(into₀ clear256).upper, ⟨0, w⟩⟩ = w.toNat
    simp only [hclear, ofNat256, value256, value128_ofNat128, value128_word, Nat.zero_div,
      Nat.zero_mod]
    rw [Nat.zero_mul, Nat.zero_add]
  low_value a := by
    have hlower := a.lower.lower.toNat_lt
    change a.lower.lower.toNat = value256 a % 2 ^ 64
    rw [value256, value128, value128]
    omega
  clear := clear256_computes
  copy := copy256_computes
  shiftl := shiftl256_computes
  shiftr_one := shiftr256_computes 1
  minus := minus256_computes
  or := or256_computes

/-! The loop is the shift-and-subtract loop on the numbers. -/

section
variable {ops : WideOps τ} {N : Numbers τ}

/-- The numbers the locals stand for. -/
def DivLocals.numbers (N : Numbers τ) (v : DivLocals τ) : ShiftDivision.State :=
  ⟨N.value v.copyd, N.value v.adder, N.value v.resDiv, N.value v.resMod⟩

theorem shiftDown_numbers (h : ops.Lawful N) (v : DivLocals τ) :
    (shiftDown ops v).numbers N =
      ⟨N.value v.copyd / 2, N.value v.adder / 2, N.value v.resDiv, N.value v.resMod⟩ := by
  have hhalf (a : τ) : N.value (inPlace₁ (ops.shiftr 1) a) = N.value a / 2 := by
    rw [inPlace₁_eq h.shiftr_one]
    exact N.value_ofNat_of_lt ((Nat.div_le_self _ _).trans_lt (N.value_lt a))
  simp only [DivLocals.numbers, shiftDown, hhalf]

theorem divStep_numbers (h : ops.Lawful N) (v : DivLocals τ) :
    (divStep ops v).numbers N = ShiftDivision.step (v.numbers N) := by
  have hor : N.value (inPlace₂ ops.or v.resDiv v.adder) = N.value v.resDiv ||| N.value v.adder := by
    rw [inPlace₂_eq h.or]
    exact N.value_ofNat_of_lt (Nat.or_lt_two_pow (N.value_lt _) (N.value_lt _))
  unfold divStep ShiftDivision.step
  simp only [h.gte_iff]
  split
  next hle =>
    have hminus : N.value (inPlace₂ ops.minus v.resMod v.copyd) =
        N.value v.resMod - N.value v.copyd := by
      have hlt := N.value_lt v.resMod
      have hsum : 2 ^ N.bits - N.value v.copyd + N.value v.resMod =
          N.value v.resMod - N.value v.copyd + 2 ^ N.bits := by omega
      rw [inPlace₂_eq h.minus, N.value_ofNat, hsum, Nat.add_mod_right, Nat.mod_eq_of_lt (by omega)]
    rw [shiftDown_numbers h]
    simp only [DivLocals.numbers, hor, hminus]
    exact (if_pos hle).symm
  next hlt =>
    rw [shiftDown_numbers h]
    simp only [DivLocals.numbers]
    exact (if_neg hlt).symm

theorem divStart_numbers [Inhabited τ] (h : ops.Lawful N) {l r : τ} {diffBits : UInt32}
    (hr : 0 < N.value r) (hle : N.value r ≤ N.value l)
    (hdiff : diffBits.toNat = Nat.size (N.value l) - Nat.size (N.value r)) :
    (divStart ops diffBits l r).numbers N = ShiftDivision.start (N.value l) (N.value r) := by
  have hsize : Nat.size (N.value l) ≤ N.bits := Nat.size_le.mpr (N.value_lt l)
  have hcopyd : N.value (into₁ (ops.shiftl diffBits) r) = N.value r * 2 ^ diffBits.toNat := by
    have haligned := ShiftDivision.aligned_lt hle
    rw [into₁_eq (h.shiftl diffBits).apart, hdiff]
    exact N.value_ofNat_of_lt (haligned.trans_le (Nat.pow_le_pow_right two_pos hsize))
  have hadder : N.value (into₁ (ops.shiftl diffBits) (ops.ofWord 1)) = 2 ^ diffBits.toNat := by
    rw [into₁_eq (h.shiftl diffBits).apart, h.ofWord_value, UInt64.toNat_one, Nat.one_mul]
    have hsizeR : 0 < Nat.size (N.value r) := Nat.size_pos.mpr hr
    have hsizeLe := Nat.size_le_size hle
    exact N.value_ofNat_of_lt (Nat.pow_lt_pow_right one_lt_two (by omega))
  have hresDiv : N.value (into₀ ops.clear) = 0 := by
    rw [into₀_eq h.clear]
    exact N.value_ofNat_of_lt (Nat.two_pow_pos _)
  have hresMod : N.value (into₁ ops.copy l) = N.value l := by
    rw [into₁_eq h.copy.apart, id]
  unfold divStart ShiftDivision.start
  simp only [h.gt_iff, hcopyd, hresMod, hdiff]
  split
  · rw [shiftDown_numbers h]
    simp only [hcopyd, hadder, hresDiv, hresMod, hdiff]
  · simp only [DivLocals.numbers, hcopyd, hadder, hresDiv, hresMod, hdiff]

/-- Division of one width. The operand `l` may be either of the targets, and `r` any object. -/
theorem divmod_divides [Inhabited τ] (h : ops.Lawful N) {l r retDiv retMod : Ref σ τ} {s : σ}
    {fuel : ℕ} (hfuel : N.bits < fuel) (hr : 0 < N.value (r.get s)) (hl : l.SameOrApart retMod)
    (hret : retDiv.Apart retMod) :
    ∃ q m, divmod ops fuel l r retDiv retMod s = some (retMod.set m (retDiv.set q s)) ∧
      N.value (l.get s) = N.value q * N.value (r.get s) + N.value m ∧
      N.value m < N.value (r.get s) := by
  obtain ⟨bitsL, hbitsL, hsizeL⟩ := h.bits_eq fuel (l.get s) hfuel
  obtain ⟨bitsR, hbitsR, hsizeR⟩ := h.bits_eq fuel (r.get s) hfuel
  by_cases hgt : N.value (l.get s) < N.value (r.get s)
  · refine ⟨N.ofNat 0, l.get s, ?_, ?_, hgt⟩
    · have hcopy := h.copy σ l retMod s hl
      have hclear := h.clear σ retDiv (retMod.set (l.get s) s)
      simp only [divmod, hbitsL, hbitsR, Option.bind_eq_bind, Option.bind_some,
        if_pos ((h.gt_iff _ _).mpr hgt), hcopy, id, hclear, hret _ _ s]
      rfl
    · rw [N.value_ofNat_of_lt (Nat.two_pow_pos _), Nat.zero_mul, Nat.zero_add]
  · have hle : N.value (r.get s) ≤ N.value (l.get s) := Nat.le_of_not_lt hgt
    have hdiff : (bitsL - bitsR).toNat =
        Nat.size (N.value (l.get s)) - Nat.size (N.value (r.get s)) := by
      rw [← hsizeL, ← hsizeR]
      exact toNat_sub_count (by rw [hsizeL, hsizeR]; exact Nat.size_le_size hle)
    have hsize : Nat.size (N.value (l.get s)) < fuel :=
      (Nat.size_le.mpr (N.value_lt _)).trans_lt hfuel
    obtain ⟨t, hrun, hsplit, hlt⟩ := ShiftDivision.loop_divides hr hle hsize
    have hcond (v : DivLocals τ) :
        decide (N.value (r.get s) ≤ (v.numbers N).remainder) = ops.gte v.resMod (r.get s) := by
      rw [Bool.eq_iff_iff, decide_eq_true_eq, h.gte_iff]
      rfl
    have hmap := @While.loop_map _ _ (fun v => ops.gte v.resMod (r.get s)) (divStep ops)
      (fun t => decide (N.value (r.get s) ≤ t.remainder)) ShiftDivision.step (DivLocals.numbers N)
      hcond (divStep_numbers h) fuel
    rw [← divStart_numbers h hr hle hdiff, hmap] at hrun
    obtain ⟨v, hloop, rfl⟩ := Option.map_eq_some_iff.mp hrun
    refine ⟨v.resDiv, v.resMod, ?_, hsplit, hlt⟩
    simp only [divmod, hbitsL, hbitsR, Option.bind_eq_bind, Option.bind_some,
      if_neg (fun hg => hgt ((h.gt_iff _ _).mp hg)), hloop, from₁_eq h.copy.apart, id]
    rfl

theorem divmod_eq [Inhabited τ] (h : ops.Lawful N) {l r retDiv retMod : Ref σ τ} {s : σ}
    {fuel : ℕ} (hfuel : N.bits < fuel) (hr : 0 < N.value (r.get s)) (hl : l.SameOrApart retMod)
    (hret : retDiv.Apart retMod) :
    divmod ops fuel l r retDiv retMod s =
      some (retMod.set (N.ofNat (N.value (l.get s) % N.value (r.get s)))
        (retDiv.set (N.ofNat (N.value (l.get s) / N.value (r.get s))) s)) := by
  obtain ⟨q, m, hrun, hsplit, hlt⟩ := divmod_divides h hfuel hr hl hret
  have hunique : N.value (l.get s) / N.value (r.get s) = N.value q ∧
      N.value (l.get s) % N.value (r.get s) = N.value m :=
    (Nat.div_mod_unique hr).mpr ⟨by rw [hsplit]; ring, hlt⟩
  rw [hrun, hunique.1, hunique.2, N.ofNat_value, N.ofNat_value]

/-- With fuel for every bit the results do not depend on the fuel. -/
theorem divmod_ends [Inhabited τ] (h : ops.Lawful N) {l r retDiv retMod : Ref σ τ} {s : σ}
    (hr : 0 < N.value (r.get s)) (hl : l.SameOrApart retMod) (hret : retDiv.Apart retMod) :
    ∃ s' q m, (∀ fuel, N.bits < fuel → divmod ops fuel l r retDiv retMod s = some s') ∧
      s' = retMod.set m (retDiv.set q s) ∧ retDiv.get s' = q ∧ retMod.get s' = m ∧
      N.value (l.get s) = N.value q * N.value (r.get s) + N.value m ∧
      N.value m < N.value (r.get s) := by
  obtain ⟨q, m, hrun, hsplit, hlt⟩ := divmod_divides h (Nat.lt_succ_self N.bits) hr hl hret
  refine ⟨_, q, m, ?_, rfl, ?_, ?_, hsplit, hlt⟩
  · intro fuel hfuel
    rw [← hrun]
    exact (divmod_eq h hfuel hr hl hret).trans (divmod_eq h (Nat.lt_succ_self _) hr hl hret).symm
  · rw [hret.get_set, Ref.get_set]
  · rw [Ref.get_set]

end

/-- `divmod128` divides in the same way. -/
theorem divmod128_divides (l r retDiv retMod : Ref σ Uint128) (s : σ)
    (hr : value128 (r.get s) ≠ 0) (hl : l.SameOrApart retMod) (hret : retDiv.Apart retMod) :
    ∃ s' q m, (∀ fuel, 128 < fuel → divmod128 fuel l r retDiv retMod s = some s') ∧
      s' = retMod.set m (retDiv.set q s) ∧ retDiv.get s' = q ∧ retMod.get s' = m ∧
      value128 (l.get s) = value128 q * value128 (r.get s) + value128 m ∧
      value128 m < value128 (r.get s) :=
  divmod_ends ops128_lawful (Nat.pos_of_ne_zero hr) hl hret

/-- `divmod256` ends with the quotient in `retDiv` and the remainder in `retMod`, and changes
nothing else. The dividend may be at `retDiv`, which is apart from `retMod`, or at `retMod`. -/
theorem divmod256_divides (l r retDiv retMod : Ref σ Uint256) (s : σ)
    (hr : value256 (r.get s) ≠ 0) (hl : l.SameOrApart retMod) (hret : retDiv.Apart retMod) :
    ∃ s' q m, (∀ fuel, 256 < fuel → divmod256 fuel l r retDiv retMod s = some s') ∧
      s' = retMod.set m (retDiv.set q s) ∧ retDiv.get s' = q ∧ retMod.get s' = m ∧
      value256 (l.get s) = value256 q * value256 (r.get s) + value256 m ∧
      value256 m < value256 (r.get s) :=
  divmod_ends ops256_lawful (Nat.pos_of_ne_zero hr) hl hret

/-- As `tostring256` calls it: the quotient replaces the dividend. -/
theorem divmod256_divides_in_place :
    ∃ s' q m, (∀ fuel, 256 < fuel → divmod256 fuel Ref.fst (Ref.snd.comp Ref.fst) Ref.fst
        (Ref.snd.comp Ref.snd) (ofNat256 1000, ofNat256 16, ofNat256 0) = some s') ∧
      s' = (Ref.snd.comp Ref.snd).set m (Ref.fst.set q (ofNat256 1000, ofNat256 16, ofNat256 0)) ∧
      Ref.fst.get s' = q ∧ (Ref.snd.comp Ref.snd).get s' = m ∧
      value256 (ofNat256 1000) = value256 q * value256 (ofNat256 16) + value256 m ∧
      value256 m < value256 (ofNat256 16) :=
  divmod256_divides Ref.fst (Ref.snd.comp Ref.fst) Ref.fst (Ref.snd.comp Ref.snd)
    (ofNat256 1000, ofNat256 16, ofNat256 0) (by decide +kernel)
    (Or.inr (Ref.apart_fst_snd.comp_right _)) (Ref.apart_fst_snd.comp_right _)

end IostLedger
