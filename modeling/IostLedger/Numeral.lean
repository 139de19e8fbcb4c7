import IostLedger.Printf

/-! What can be read off the number in a prompt: the digits the formatter keeps, and those the
display limit leaves. -/
namespace IostLedger
open Memory

/-- The digits that fit the digit buffer, least significant first. -/
def shownDigits (v : ℕ) : List ℕ := (decimalDigits v).take printfNtoaBufferSize

theorem ofDigits_decimalDigits (v : ℕ) : Nat.ofDigits 10 (decimalDigits v) = v :=
  Radix.ofDigits_lowDigits 10 v

theorem decimalDigits_length_le_iff {v k : ℕ} (hk : 1 ≤ k) :
    (decimalDigits v).length ≤ k ↔ v < 10 ^ k := by
  unfold decimalDigits
  split_ifs with h
  · rw [h, List.length_singleton]
    exact iff_of_true hk (by positivity)
  · exact Nat.digits_length_le_iff (by norm_num) v

theorem shownDigits_lt {v d : ℕ} (hd : d ∈ shownDigits v) : d < 10 :=
  decimalDigits_lt (List.mem_of_mem_take hd)

theorem ofDigits_shownDigits (v : ℕ) : Nat.ofDigits 10 (shownDigits v) = v % 10 ^ 9 := by
  have h := Nat.ofDigits_mod_pow_eq_ofDigits_take 9 (by norm_num) (decimalDigits v)
    fun d hd => decimalDigits_lt hd
  rw [ofDigits_decimalDigits] at h
  exact h.symm

theorem shownDigits_length_le_iff {v k : ℕ} (hpos : 1 ≤ k) (hk : k < 9) :
    (shownDigits v).length ≤ k ↔ v < 10 ^ k := by
  rw [← decimalDigits_length_le_iff hpos, shownDigits, List.length_take, printfNtoaBufferSize]
  omega

theorem shownDigits_length_le (v : ℕ) : (shownDigits v).length ≤ 9 := List.length_take_le _ _

theorem decimal_eq_map (v : ℕ) : decimal v = (shownDigits v).reverse.map (ntoaDigit false) :=
  decimal_eq v

theorem decimal_length (v : ℕ) : (decimal v).length = (shownDigits v).length := by
  rw [decimal_eq_map, List.length_map, List.length_reverse]

/-- Digit characters tell their digits. -/
theorem map_ntoaDigit_inj {k l : List ℕ} (hk : ∀ d ∈ k, d < 10) (hl : ∀ d ∈ l, d < 10)
    (h : k.map (ntoaDigit false) = l.map (ntoaDigit false)) : k = l := by
  induction k generalizing l with
  | nil => exact (List.map_eq_nil_iff.mp h.symm).symm
  | cons d ds ih =>
    cases l with
    | nil => cases h
    | cons e es =>
      rw [List.map_cons, List.map_cons, List.cons.injEq] at h
      have hd := ntoaDigit_toNat (hk d List.mem_cons_self)
      have he := ntoaDigit_toNat (hl e List.mem_cons_self)
      have hrest := ih (fun x hx => hk x (List.mem_cons_of_mem d hx))
        (fun x hx => hl x (List.mem_cons_of_mem e hx)) h.2
      rw [h.1, he] at hd
      rw [hrest, show d = e by omega]

/-- As many of the digits with the same value are the same. -/
theorem shownDigits_drop_inj {v w i j : ℕ}
    (hlen : ((shownDigits v).drop i).length = ((shownDigits w).drop j).length)
    (h : v % 10 ^ 9 / 10 ^ i = w % 10 ^ 9 / 10 ^ j) :
    (shownDigits v).drop i = (shownDigits w).drop j := by
  apply Nat.ofDigits_inj_of_len_eq (by norm_num) hlen
    (fun d hd => shownDigits_lt (List.mem_of_mem_drop hd))
    (fun d hd => shownDigits_lt (List.mem_of_mem_drop hd))
  rw [← Nat.ofDigits_div_pow_eq_ofDigits_drop i (by norm_num) _ fun d hd => shownDigits_lt hd,
    ← Nat.ofDigits_div_pow_eq_ofDigits_drop j (by norm_num) _ fun d hd => shownDigits_lt hd,
    ofDigits_shownDigits, ofDigits_shownDigits, h]

/-- Two numerals coincide when the numbers do, or when the digit buffer cuts the difference. -/
theorem decimal_eq_iff {v w : ℕ} :
    decimal v = decimal w ↔ v = w ∨ (10 ^ 8 ≤ v ∧ 10 ^ 8 ≤ w ∧ v % 10 ^ 9 = w % 10 ^ 9) := by
  have hv := shownDigits_length_le_iff (v := v) (k := 8) (by decide) (by decide)
  have hw := shownDigits_length_le_iff (v := w) (k := 8) (by decide) (by decide)
  have hv9 := shownDigits_length_le v
  have hw9 := shownDigits_length_le w
  constructor
  · intro h
    have hlen := congrArg List.length h
    rw [decimal_length, decimal_length] at hlen
    rw [decimal_eq_map, decimal_eq_map] at h
    have hdigits := map_ntoaDigit_inj (fun d hd => shownDigits_lt (List.mem_reverse.mp hd))
      (fun d hd => shownDigits_lt (List.mem_reverse.mp hd)) h
    have hvalue := congrArg (Nat.ofDigits 10) (List.reverse_injective hdigits)
    rw [ofDigits_shownDigits, ofDigits_shownDigits] at hvalue
    omega
  · rintro (rfl | ⟨hv8, hw8, hmod⟩)
    · rfl
    · have hsame := @shownDigits_drop_inj v w 0 0 (by rw [List.drop_zero, List.drop_zero]; omega)
        (by rw [hmod])
      rw [List.drop_zero, List.drop_zero] at hsame
      rw [decimal_eq_map, decimal_eq_map, hsame]

/-- The first seven digits of a numeral that has at least seven. -/
def leadingDigits (v : ℕ) : ℕ :=
  if v < 10 ^ 7 then v else if v < 10 ^ 8 then v / 10 else v % 10 ^ 9 / 100

theorem leadingDigits_eq {v : ℕ} (hv : 10 ^ 6 ≤ v) :
    leadingDigits v = v % 10 ^ 9 / 10 ^ ((shownDigits v).length - 7) := by
  have h6 := shownDigits_length_le_iff (v := v) (k := 6) (by decide) (by decide)
  have h7 := shownDigits_length_le_iff (v := v) (k := 7) (by decide) (by decide)
  have h8 := shownDigits_length_le_iff (v := v) (k := 8) (by decide) (by decide)
  have h9 := shownDigits_length_le v
  unfold leadingDigits
  split_ifs with hlt7 hlt8
  · rw [show (shownDigits v).length - 7 = 0 by omega, pow_zero, Nat.div_one]
    omega
  · rw [show (shownDigits v).length - 7 = 1 by omega, pow_one]
    omega
  · rw [show (shownDigits v).length - 7 = 2 by omega, show 10 ^ 2 = 100 by norm_num]

theorem decimal_take (v : ℕ) : (decimal v).take 7 =
    ((shownDigits v).drop ((shownDigits v).length - 7)).reverse.map (ntoaDigit false) := by
  rw [decimal_eq_map, ← List.map_take, List.take_reverse]

theorem decimal_take_eq_iff {v w : ℕ} (hv : 10 ^ 6 ≤ v) (hw : 10 ^ 6 ≤ w) :
    (decimal v).take 7 = (decimal w).take 7 ↔ leadingDigits v = leadingDigits w := by
  have hv6 := shownDigits_length_le_iff (v := v) (k := 6) (by decide) (by decide)
  have hw6 := shownDigits_length_le_iff (v := w) (k := 6) (by decide) (by decide)
  rw [decimal_take, decimal_take, leadingDigits_eq hv, leadingDigits_eq hw]
  constructor
  · intro h
    have hdigits := map_ntoaDigit_inj
      (fun d hd => shownDigits_lt (List.mem_of_mem_drop (List.mem_reverse.mp hd)))
      (fun d hd => shownDigits_lt (List.mem_of_mem_drop (List.mem_reverse.mp hd))) h
    have hvalue := congrArg (Nat.ofDigits 10) (List.reverse_injective hdigits)
    rwa [← Nat.ofDigits_div_pow_eq_ofDigits_drop _ (by norm_num) _ fun d hd => shownDigits_lt hd,
      ← Nat.ofDigits_div_pow_eq_ofDigits_drop _ (by norm_num) _ fun d hd => shownDigits_lt hd,
      ofDigits_shownDigits, ofDigits_shownDigits] at hvalue
  · intro h
    rw [shownDigits_drop_inj (by rw [List.length_drop, List.length_drop]; omega) h]

/-! The texts of the two prompts. -/

/-- `?` -/
def questionMark : UInt8 := 63

/-- The complete decimal numeral. -/
def numeral (i : ℕ) : Bytes := (decimalDigits i).reverse.map fun d => UInt8.ofNat (48 + d)

theorem questionMark_not_digit {c : UInt8} (h : 48 ≤ c.toNat ∧ c.toNat < 58) :
    c ≠ questionMark := by
  rintro rfl
  exact absurd h.2 (by decide)

theorem questionMark_notMem_decimal (v : ℕ) : questionMark ∉ decimal v :=
  fun h => questionMark_not_digit (decimal_char h) rfl

theorem numeral_char {i : ℕ} {c : UInt8} (hc : c ∈ numeral i) : 48 ≤ c.toNat ∧ c.toNat < 58 := by
  obtain ⟨d, hd, rfl⟩ := List.mem_map.mp hc
  have hlt := decimalDigits_lt (List.mem_reverse.mp hd)
  rw [UInt8.toNat_ofNat_of_lt' (by simp only [UInt8.size]; omega)]
  omega

theorem numeral_length_le_iff {i k : ℕ} (hk : 1 ≤ k) : (numeral i).length ≤ k ↔ i < 10 ^ k := by
  rw [numeral, List.length_map, List.length_reverse, decimalDigits_length_le_iff hk]

/-- A numeral of at most nine digits is put out whole. -/
theorem decimal_eq_numeral {i : ℕ} (hi : i < 10 ^ 9) : decimal i = numeral i := by
  have hlen := (decimalDigits_length_le_iff (by decide)).mpr hi
  rw [decimal_eq, printfNtoaBufferSize, List.take_of_length_le hlen, numeral]
  apply List.map_congr_left
  intro d hd
  rw [ntoaDigit, if_pos (decimalDigits_lt (List.mem_reverse.mp hd))]

/-- What the display limit leaves of a prompt for a signature. -/
theorem signText_eq (v : UInt32) : (promptText (ascii "With Key #") v).take (displaySize - 1) =
    ascii "With Key #" ++ (decimal v.toNat ++ [questionMark]).take 7 := by
  have hlimit : displaySize - 1 = (ascii "With Key #").length + 7 := rfl
  rw [promptText, List.append_assoc, hlimit, List.take_length_add_append]
  rfl

/-- The display limit leaves a prompt for a public key as it is. -/
theorem publicKeyText_eq (v : UInt32) : (promptText (ascii "Key #") v).take (displaySize - 1) =
    ascii "Key #" ++ (decimal v.toNat ++ [questionMark]) := by
  have hlen := decimal_length v.toNat
  have hle := shownDigits_length_le v.toNat
  have hlabel : (ascii "Key #").length = 5 := rfl
  rw [promptText, List.append_assoc]
  apply List.take_of_length_le
  rw [List.length_append, List.length_append, hlabel, show (ascii "?").length = 1 from rfl]
  simp only [displaySize]
  omega

theorem decimal_length_le_iff {v k : ℕ} (hpos : 1 ≤ k) (hk : k < 9) :
    (decimal v).length ≤ k ↔ v < 10 ^ k := by
  rw [decimal_length, shownDigits_length_le_iff hpos hk]

theorem signNumber_short {v : ℕ} (h : v < 10 ^ 6) :
    (decimal v ++ [questionMark]).take 7 = decimal v ++ [questionMark] := by
  have hlen := (decimal_length_le_iff (by decide) (by decide)).mpr h
  apply List.take_of_length_le
  rw [List.length_append, List.length_singleton]
  omega

theorem signNumber_long {v : ℕ} (h : 10 ^ 6 ≤ v) :
    (decimal v ++ [questionMark]).take 7 = (decimal v).take 7 := by
  have hlen := @decimal_length_le_iff v 6 (by decide) (by decide)
  exact List.take_append_of_le_length (by omega)

/-- Two numbers give the same text when they agree, or when both fill the seven characters
that are left for them and agree there. -/
theorem signNumber_eq_iff {v w : ℕ} :
    (decimal v ++ [questionMark]).take 7 = (decimal w ++ [questionMark]).take 7 ↔
      v = w ∨ (10 ^ 6 ≤ v ∧ 10 ^ 6 ≤ w ∧ leadingDigits v = leadingDigits w) := by
  -- only a short number is followed by its question mark
  have hmark {i j : ℕ} (hi : i < 10 ^ 6) (hj : 10 ^ 6 ≤ j) :
      (decimal i ++ [questionMark]).take 7 ≠ (decimal j ++ [questionMark]).take 7 := by
    rw [signNumber_short hi, signNumber_long hj]
    intro h
    have hmem : questionMark ∈ (decimal j).take 7 := by
      rw [← h]
      simp
    exact questionMark_notMem_decimal j (List.mem_of_mem_take hmem)
  rcases lt_or_ge v (10 ^ 6) with hv | hv <;> rcases lt_or_ge w (10 ^ 6) with hw | hw
  · rw [signNumber_short hv, signNumber_short hw, List.append_left_inj, decimal_eq_iff]
    omega
  · refine iff_of_false (hmark hv hw) ?_
    omega
  · refine iff_of_false (hmark hw hv).symm ?_
    omega
  · rw [signNumber_long hv, signNumber_long hw, decimal_take_eq_iff hv hw]
    constructor
    · intro h
      exact Or.inr ⟨hv, hw, h⟩
    · rintro (rfl | ⟨-, -, h⟩)
      · rfl
      · exact h

/-- Before a mark that stands at the end alone, a part of the text is an end of it. -/
theorem suffix_of_infix_mark {c : UInt8} {x y : Bytes} (hy : c ∉ y)
    (h : x ++ [c] <:+: y ++ [c]) : x <:+ y := by
  obtain ⟨before, behind, heq⟩ := h
  rcases List.eq_nil_or_concat behind with rfl | ⟨rest, last, rfl⟩
  · rw [List.append_nil, ← List.append_assoc] at heq
    exact ⟨before, List.append_cancel_right heq⟩
  · rw [List.concat_eq_append, ← List.append_assoc, ← List.append_assoc] at heq
    have hinit := (List.append_inj' heq rfl).1
    exact absurd (hinit ▸ by simp) hy

theorem signText_contains_iff {i : ℕ} :
    numeral i ++ [questionMark] <:+:
        ascii "With Key #" ++ (decimal i ++ [questionMark]).take 7 ↔ i < 10 ^ 6 := by
  constructor
  · intro h
    by_contra hlong
    rw [signNumber_long (Nat.le_of_not_lt hlong)] at h
    have hmem := h.subset (show questionMark ∈ numeral i ++ [questionMark] by simp)
    rcases List.mem_append.mp hmem with hlabel | hdigits
    · exact absurd hlabel (by decide)
    · exact questionMark_notMem_decimal i (List.mem_of_mem_take hdigits)
  · intro h
    rw [signNumber_short h, decimal_eq_numeral (by omega)]
    exact (List.suffix_append _ _).isInfix

theorem publicKeyText_contains_iff {i : ℕ} :
    numeral i ++ [questionMark] <:+: ascii "Key #" ++ (decimal i ++ [questionMark]) ↔
      i < 10 ^ 9 := by
  constructor
  · intro h
    by_contra hlong
    have hmark : questionMark ∉ ascii "Key #" ++ decimal i := by
      intro hmem
      rcases List.mem_append.mp hmem with hlabel | hdigits
      · exact absurd hlabel (by decide)
      · exact questionMark_notMem_decimal i hdigits
    rw [← List.append_assoc] at h
    obtain ⟨before, heq⟩ := suffix_of_infix_mark hmark h
    -- the numeral would begin before the last character of the label, which is no digit
    have hten := @numeral_length_le_iff i 9 (by decide)
    have hnine := (decimal_length i).trans_le (shownDigits_length_le i)
    have hlen := congrArg List.length heq
    rw [List.length_append, List.length_append, show (ascii "Key #").length = 5 from rfl] at hlen
    have hsharp := congrArg (fun text : Bytes => text[4]?) heq
    have hbefore : before.length ≤ 4 := by omega
    rw [List.getElem?_append_right hbefore, List.getElem?_append_left (by decide)] at hsharp
    have hdigit := numeral_char (List.mem_of_getElem? hsharp)
    exact absurd hdigit (by decide)
  · intro h
    rw [decimal_eq_numeral h]
    exact (List.suffix_append _ _).isInfix

end IostLedger
