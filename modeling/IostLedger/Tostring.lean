import IostLedger.Divmod
import IostLedger.Device
import IostLedger.Lib.Radix

/-! `tostring128` and `tostring256`: the digits by repeated division, least significant first,
then the terminating NUL, then the reversal in place. -/
namespace IostLedger
open Call Memory Exec

/-- `HEXDIGITS`, with the terminator of the literal. -/
def hexdigits : Bytes := ascii "0123456789abcdef" ++ [0]

variable {α β : Type} {n : ℕ}

/-- The rest of the code after a range-checked access. -/
def andThen (x : Checked α) (rest : α → Option (Checked β)) : Option (Checked β) :=
  match x with
  | .ok a => rest a
  | .error e => some (.error e)

@[simp] theorem andThen_ok (a : α) (rest : α → Option (Checked β)) :
    andThen (.ok a) rest = rest a := rfl

@[simp] theorem andThen_error (e : Fault) (rest : α → Option (Checked β)) :
    andThen (.error e) rest = some (.error e) := rfl

/-- The body of the loop of `reverseString`. -/
def swapBytes (i j : UInt32) (str : Buffer n) : Checked (Buffer n) := do
  let c ← inRange (str.get? i.toNat)
  let str ← inRange (str.set? i.toNat (← inRange (str.get? j.toNat)))
  inRange (str.set? j.toNat c)

/-- The loop of `reverseString`. -/
def reverseLoop : (fuel : ℕ) → (i j : UInt32) → Buffer n → Option (Checked (Buffer n))
  | 0, _, _, _ => none
  | fuel + 1, i, j, str =>
      if i < j then andThen (swapBytes i j str) fun str => reverseLoop fuel (i + 1) (j - 1) str
      else some (.ok str)

/-- `reverseString`. -/
def reverseString (fuel : ℕ) (str : Buffer n) (length : UInt32) : Option (Checked (Buffer n)) :=
  reverseLoop fuel 0 (length - 1) str

variable {τ : Type}

/-- `out[offset] = HEXDIGITS[(uint8_t)LOWER(rMod)]`. -/
def putDigit (ops : WideOps τ) (rMod : τ) (offset : UInt32) (out : Buffer n) :
    Checked (Buffer n) := do
  let c ← inRange hexdigits[(ops.low rMod).toUInt8.toNat]?
  inRange (out.set? offset.toNat c)

/-- The digit loop. It is left with the number of digits, or, where that would pass
`outLength - 1`, without. -/
def digitLoop [Inhabited τ] (ops : WideOps τ) (divFuel : ℕ) (base : τ) (outLength : UInt32) :
    (fuel : ℕ) → (rDiv rMod : τ) → (offset : UInt32) → Buffer n →
      Option (Checked (Option UInt32 × Buffer n))
  | 0, _, _, _, _ => none
  | fuel + 1, rDiv, rMod, offset, out =>
      if offset > outLength - 1 then some (.ok (none, out))
      else do
        -- `divmod(&rDiv, &base, &rDiv, &rMod)`
        let (rDiv, rMod, _) ← divmod ops divFuel Ref.fst (Ref.snd.comp Ref.snd) Ref.fst
          (Ref.snd.comp Ref.fst) (rDiv, rMod, base)
        andThen (putDigit ops rMod offset out) fun out =>
          if !ops.zero rDiv then
            digitLoop ops divFuel base outLength fuel rDiv rMod (offset + 1) out
          else some (.ok (some (offset + 1), out))

/-- The end of `tostring`, after the digit loop. -/
def finishText (fuel : ℕ) : Option UInt32 × Buffer n → Option (Checked (Bool × Buffer n))
  | (none, out) => some (.ok (false, out))
  | (some offset, out) =>
      andThen (inRange (out.set? offset.toNat 0)) fun out => do
        let out ← reverseString fuel out offset
        return out.map fun out => (true, out)

/-- `tostring128` and `tostring256`: the result, and the caller's area. -/
def tostring [Inhabited τ] (ops : WideOps τ) (fuel : ℕ) (number : τ)
    (baseParam outLength : UInt32) (out : Buffer n) : Option (Checked (Bool × Buffer n)) :=
  let rDiv := into₁ ops.copy number
  let rMod := into₀ ops.clear
  let base := ops.ofWord baseParam.toUInt64
  if baseParam < 2 || baseParam > 16 then some (.ok (false, out))
  else do
    let digits ← digitLoop ops fuel base outLength fuel rDiv rMod 0 out
    andThen digits (finishText fuel)

/-- `tostring128`. -/
def tostring128 : (fuel : ℕ) → Uint128 → (baseParam outLength : UInt32) → Buffer n →
    Option (Checked (Bool × Buffer n)) := tostring ops128

/-- `tostring256`. -/
def tostring256 : (fuel : ℕ) → Uint256 → (baseParam outLength : UInt32) → Buffer n →
    Option (Checked (Bool × Buffer n)) := tostring ops256

/-! What the text is to be. -/

/-- The characters of digits. -/
def digitChars (digits : List ℕ) : Bytes := digits.map fun d => hexdigits.getD d 0

/-- The canonical numeral of `v`, in lowercase digits. -/
def numeralText (base v : ℕ) : Bytes := digitChars (Radix.canonical base v)

/-- The number a text of digits stands for. -/
def readNumeral (base : ℕ) (text : Bytes) : ℕ :=
  Radix.value base (text.map fun c => hexdigits.idxOf c)

theorem hexdigits_idxOf : ∀ d : Fin 16, hexdigits.idxOf (hexdigits.getD d 0) = d := by decide

theorem hexdigits_ne_zero : ∀ d : Fin 16, hexdigits.getD d 0 ≠ 0 := by decide

theorem hexdigits_getElem : ∀ d : Fin 16, hexdigits[d.val]? = some (hexdigits.getD d 0) := by decide

theorem readNumeral_numeralText {base v : ℕ} (hbase : 1 < base) (hle : base ≤ 16) :
    readNumeral base (numeralText base v) = v := by
  have hindex : (numeralText base v).map (fun c => hexdigits.idxOf c) = Radix.canonical base v := by
    rw [numeralText, digitChars, List.map_map]
    refine (List.map_congr_left fun d hd => ?_).trans (List.map_id _)
    exact hexdigits_idxOf ⟨d, (Radix.canonical_lt hbase hd).trans_le hle⟩
  rw [readNumeral, hindex, Radix.value_canonical]

theorem numeralText_zero (base : ℕ) : numeralText base 0 = ascii "0" := rfl

theorem hexdigits_ne_digitZero : ∀ d : Fin 16, d.val ≠ 0 → hexdigits.getD d 0 ≠ 48 := by decide

/-- The numeral of a number that is not zero does not begin with `0`. -/
theorem numeralText_head {base v : ℕ} (hbase : 1 < base) (hle : base ≤ 16) (hv : v ≠ 0) :
    ∀ c ∈ (numeralText base v).head?, c ≠ 48 := by
  intro c hc
  rw [numeralText, Radix.canonical_eq, if_neg hv, digitChars, List.head?_map] at hc
  obtain ⟨d, hd, rfl⟩ := Option.map_eq_some_iff.mp hc
  have hlt := Radix.numeral_lt hbase (List.mem_of_mem_head? hd)
  exact hexdigits_ne_digitZero ⟨d, hlt.trans_le hle⟩ (Radix.numeral_head_ne_zero d hd)

theorem numeralText_ne_zero {base v : ℕ} (hbase : 1 < base) (hle : base ≤ 16) :
    ∀ c ∈ numeralText base v, c ≠ 0 := by
  intro c hc
  obtain ⟨d, hd, rfl⟩ := List.mem_map.mp hc
  exact hexdigits_ne_zero ⟨d, (Radix.canonical_lt hbase hd).trans_le hle⟩

/-! The reversal in place. -/

theorem swapBytes_eq {i j : UInt32} {str : Buffer n} {pre mid post : Bytes} {x y : UInt8}
    (h : str.bytes = pre ++ x :: (mid ++ y :: post)) (hi : i.toNat = pre.length)
    (hj : j.toNat = pre.length + mid.length + 1) :
    ∃ str', swapBytes i j str = .ok str' ∧ str'.bytes = pre ++ y :: (mid ++ x :: post) := by
  have hsecond : str.bytes = (pre ++ x :: mid) ++ y :: post := by simp [h]
  have hj' : j.toNat = (pre ++ x :: mid).length := by simp [hj]; omega
  obtain ⟨first, hfirst, hbytes⟩ := Buffer.set?_cell y h
  have hbytes' : first.bytes = (pre ++ y :: mid) ++ y :: post := by simp [hbytes]
  obtain ⟨both, hboth, hresult⟩ := Buffer.set?_cell x hbytes'
  refine ⟨both, ?_, by simp [hresult]⟩
  have hgetx := Buffer.get?_cell h
  have hgety := Buffer.get?_cell hsecond
  have hlen : (pre ++ y :: mid).length = (pre ++ x :: mid).length := by simp
  rw [hlen] at hboth
  rw [← hi] at hgetx hfirst
  rw [← hj'] at hgety hboth
  simp only [swapBytes, hgetx, hgety, hfirst, hboth, inRange_some, bind, Except.bind]

theorem reverseLoop_spec {fuel : ℕ} {i j : UInt32} {str : Buffer n} {pre mid post : Bytes}
    (h : str.bytes = pre ++ mid ++ post) (hn : n < 2 ^ 32) (hfuel : mid.length / 2 < fuel)
    (hi : i.toNat = pre.length) (hj : j.toNat + 1 = pre.length + mid.length) :
    ∃ str', reverseLoop fuel i j str = some (.ok str') ∧
      str'.bytes = pre ++ mid.reverse ++ post := by
  -- `i` and `j` are the ends of the part that is still to be reversed
  induction mid using List.bidirectionalRec generalizing fuel i j str pre post with
  | nil =>
    obtain ⟨fuel, rfl⟩ : ∃ k, fuel = k + 1 := Nat.exists_eq_add_one.mpr (by omega)
    have hstop : ¬ i < j := by
      rw [UInt32.lt_iff_toNat_lt]
      simp only [List.length_nil] at hj
      omega
    exact ⟨str, by simp [reverseLoop, hstop], h⟩
  | singleton x =>
    obtain ⟨fuel, rfl⟩ : ∃ k, fuel = k + 1 := Nat.exists_eq_add_one.mpr (by omega)
    have hstop : ¬ i < j := by
      rw [UInt32.lt_iff_toNat_lt]
      simp only [List.length_singleton] at hj
      omega
    exact ⟨str, by simp [reverseLoop, hstop], h⟩
  | cons_append x mid y ih =>
    obtain ⟨fuel, rfl⟩ : ∃ k, fuel = k + 1 := Nat.exists_eq_add_one.mpr (by omega)
    have hsize := str.size_eq
    simp only [h, List.length_append, List.length_cons, List.length_nil] at hsize hj hfuel
    have hlt : i < j := by
      rw [UInt32.lt_iff_toNat_lt]
      omega
    obtain ⟨swapped, hswap, hbytes⟩ := @swapBytes_eq n i j str pre mid post x y (by simp [h]) hi
      (by omega)
    have hi' : (i + 1).toNat = (pre ++ [y]).length := by
      rw [UInt32.toNat_add, UInt32.toNat_one, List.length_append, List.length_singleton]
      omega
    have hj' : (j - 1).toNat + 1 = (pre ++ [y]).length + mid.length := by
      have hsub : (j - 1).toNat = j.toNat - 1 := UInt32.toNat_sub_of_le _ _
        (UInt32.le_iff_toNat_le.mpr (by simp only [UInt32.toNat_one]; omega))
      rw [hsub, List.length_append, List.length_singleton]
      omega
    obtain ⟨str', hrun, hresult⟩ := @ih fuel (i + 1) (j - 1) swapped (pre ++ [y]) (x :: post)
      (by simp [hbytes]) (by omega) hi' hj'
    exact ⟨str', by simp [reverseLoop, hlt, hswap, hrun], by simp [hresult]⟩

theorem reverseString_spec {fuel : ℕ} {str : Buffer n} {length : UInt32} {text post : Bytes}
    (h : str.bytes = text ++ post) (hlen : length.toNat = text.length) (hpos : text ≠ [])
    (hn : n < 2 ^ 32) (hfuel : text.length ≤ fuel) :
    ∃ str', reverseString fuel str length = some (.ok str') ∧
      str'.bytes = text.reverse ++ post := by
  have htext : 0 < text.length := List.length_pos_iff.mpr hpos
  have hlast : (length - 1).toNat + 1 = ([] : Bytes).length + text.length := by
    have hsub : (length - 1).toNat = length.toNat - 1 := UInt32.toNat_sub_of_le _ _
      (UInt32.le_iff_toNat_le.mpr (by simp only [UInt32.toNat_one]; omega))
    rw [hsub, List.length_nil]
    omega
  exact reverseLoop_spec h hn (by omega) rfl hlast

/-! The digits. -/

section
variable {ops : WideOps τ} {N : Numbers τ}

theorem digit_at (h : ops.Lawful N) {rMod : τ} (hlt : N.value rMod < 16) :
    hexdigits[(ops.low rMod).toUInt8.toNat]? = some (hexdigits.getD (N.value rMod) 0) := by
  have hindex : (ops.low rMod).toUInt8.toNat = N.value rMod := by
    rw [UInt64.toNat_toUInt8, h.low_value]
    omega
  rw [hindex]
  exact hexdigits_getElem ⟨N.value rMod, hlt⟩

theorem putDigit_eq (h : ops.Lawful N) {rMod : τ} {offset : UInt32} {out : Buffer n}
    {pre post : Bytes} {c : UInt8} (hlt : N.value rMod < 16) (hout : out.bytes = pre ++ c :: post)
    (hoffset : offset.toNat = pre.length) :
    ∃ out', putDigit ops rMod offset out = .ok out' ∧
      out'.bytes = pre ++ hexdigits.getD (N.value rMod) 0 :: post := by
  obtain ⟨out', hset, hbytes⟩ := Buffer.set?_cell (hexdigits.getD (N.value rMod) 0) hout
  rw [← hoffset] at hset
  exact ⟨out', by simp only [putDigit, digit_at h hlt, hset, inRange_some, bind, Except.bind],
    hbytes⟩

theorem putDigit_outside (h : ops.Lawful N) {rMod : τ} {offset : UInt32} {out : Buffer n}
    (hlt : N.value rMod < 16) (hoffset : n ≤ offset.toNat) :
    putDigit ops rMod offset out = .error .outOfRange := by
  simp only [putDigit, digit_at h hlt, Buffer.set?_of_le hoffset, inRange_some, inRange_none, bind,
    Except.bind]

variable [Inhabited τ]

/-- One pass of the loop, while there is room. -/
theorem digitLoop_step (h : ops.Lawful N) {divFuel fuel : ℕ} {base rDiv rMod : τ}
    {outLength offset : UInt32} {out : Buffer n} (hfuel : N.bits < divFuel)
    (hbase : 0 < N.value base) (hroom : ¬ offset > outLength - 1) :
    digitLoop ops divFuel base outLength (fuel + 1) rDiv rMod offset out =
      andThen (putDigit ops (N.ofNat (N.value rDiv % N.value base)) offset out) fun out =>
        if N.value rDiv / N.value base = 0 then some (.ok (some (offset + 1), out))
        else digitLoop ops divFuel base outLength fuel (N.ofNat (N.value rDiv / N.value base))
          (N.ofNat (N.value rDiv % N.value base)) (offset + 1) out := by
  have hdiv : divmod ops divFuel Ref.fst (Ref.snd.comp Ref.snd) Ref.fst (Ref.snd.comp Ref.fst)
      (rDiv, rMod, base) = some (N.ofNat (N.value rDiv / N.value base),
        N.ofNat (N.value rDiv % N.value base), base) :=
    divmod_eq h hfuel hbase (Or.inr (Ref.apart_fst_snd.comp_right _))
      (Ref.apart_fst_snd.comp_right _)
  have hzero : ops.zero (N.ofNat (N.value rDiv / N.value base)) = true ↔
      N.value rDiv / N.value base = 0 := by
    rw [h.zero_iff, N.value_ofNat_of_lt ((Nat.div_le_self _ _).trans_lt (N.value_lt _))]
  simp only [digitLoop, if_neg hroom, hdiv, Option.bind_eq_bind, Option.bind_some, ← hzero]
  congr 1
  funext out
  cases ops.zero (N.ofNat (N.value rDiv / N.value base)) <;> rfl

/-- One pass on an area with a cell left puts the lowest digit of `v` there. -/
theorem digitLoop_pass (h : ops.Lawful N) {divFuel fuel b v : ℕ} {base rDiv : τ} (rMod : τ)
    {outLength offset : UInt32} {out : Buffer n} {pre post : Bytes} {c : UInt8}
    (hbits : N.bits < divFuel) (hbase : N.value base = b) (hb : 1 < b) (hle : b ≤ 16)
    (hv : N.value rDiv = v) (hout : out.bytes = pre ++ c :: post)
    (hoffset : offset.toNat = pre.length) (hroom : ¬ offset > outLength - 1) :
    ∃ out', out'.bytes = pre ++ hexdigits.getD (v % b) 0 :: post ∧
      digitLoop ops divFuel base outLength (fuel + 1) rDiv rMod offset out =
        if v / b = 0 then some (.ok (some (offset + 1), out'))
        else digitLoop ops divFuel base outLength fuel (N.ofNat (v / b)) (N.ofNat (v % b))
          (offset + 1) out' := by
  have hmod : N.value (N.ofNat (v % b)) = v % b :=
    N.value_ofNat_of_lt ((Nat.mod_le _ _).trans_lt (hv ▸ N.value_lt rDiv))
  have hdigit : v % b < 16 := (Nat.mod_lt _ (by omega)).trans_le hle
  obtain ⟨out', hput, hbytes⟩ := putDigit_eq h (by rw [hmod]; exact hdigit) hout hoffset
  rw [hmod] at hbytes
  refine ⟨out', hbytes, ?_⟩
  rw [digitLoop_step h hbits (by omega) hroom, hv, hbase, hput, andThen_ok]

/-- The loop writes the digits of `v`, or stops at the end of the area. -/
theorem digitLoop_spec (h : ops.Lawful N) {divFuel fuel b v : ℕ} {base rDiv : τ} (rMod : τ)
    {outLength offset : UInt32} {out : Buffer n} {pre post : Bytes}
    (hbits : N.bits < divFuel) (hbase : N.value base = b) (hb : 1 < b) (hle : b ≤ 16)
    (hn : outLength.toNat = n) (hpos : 1 ≤ n) (hv : N.value rDiv = v)
    (hout : out.bytes = pre ++ post) (hoffset : offset.toNat = pre.length)
    (hfuel : (Radix.lowDigits b v).length ≤ fuel) :
    (∃ offset' out' rest,
      digitLoop ops divFuel base outLength fuel rDiv rMod offset out =
        some (.ok (some offset', out')) ∧
      out'.bytes = pre ++ digitChars (Radix.lowDigits b v) ++ rest ∧
      offset'.toNat = pre.length + (Radix.lowDigits b v).length) ∨
    (n < pre.length + (Radix.lowDigits b v).length ∧
      ∃ out', digitLoop ops divFuel base outLength fuel rDiv rMod offset out =
        some (.ok (none, out'))) := by
  have hlimit : (outLength - 1).toNat = n - 1 := by
    rw [UInt32.toNat_sub_of_le _ _ (UInt32.le_iff_toNat_le.mpr (by rw [hn]; exact hpos)), hn]
    rfl
  -- `pre` holds the digits written so far, `v` is what is left to divide
  induction fuel generalizing v rDiv rMod offset out pre post with
  | zero => exact absurd (List.length_eq_zero_iff.mp (Nat.le_zero.mp hfuel)) Radix.lowDigits_ne_nil
  | succ fuel ih =>
    have hsize := out.size_eq
    rw [hout, List.length_append] at hsize
    by_cases hroom : offset > outLength - 1
    · have hdigits := List.length_pos_iff.mpr (@Radix.lowDigits_ne_nil b v)
      have hfull := UInt32.lt_iff_toNat_lt.mp hroom
      exact Or.inr ⟨by omega, out, by simp [digitLoop, hroom]⟩
    · have hspace : 0 < post.length := by
        rw [gt_iff_lt, UInt32.lt_iff_toNat_lt] at hroom
        omega
      obtain ⟨c, post, rfl⟩ := List.exists_cons_of_length_pos hspace
      obtain ⟨out₁, hbytes, hpass⟩ :=
        @digitLoop_pass n τ ops N _ h divFuel fuel b v base rDiv rMod outLength offset out pre post
          c hbits hbase hb hle hv hout hoffset hroom
      have hdiv : N.value (N.ofNat (v / b)) = v / b :=
        N.value_ofNat_of_lt ((Nat.div_le_self _ _).trans_lt (hv ▸ N.value_lt rDiv))
      have hnext : (offset + 1).toNat = (pre ++ [hexdigits.getD (v % b) 0]).length := by
        have hlt := outLength.toNat_lt
        rw [UInt32.toNat_add, UInt32.toNat_one, List.length_append, List.length_singleton]
        omega
      rw [hpass]
      rw [Radix.lowDigits_step hb] at hfuel ⊢
      by_cases hlast : v / b = 0
      · left
        refine ⟨offset + 1, out₁, post, by rw [if_pos hlast], ?_, ?_⟩
        · rw [hbytes, if_pos hlast]
          simp [digitChars]
        · rw [hnext, if_pos hlast]
          simp
      · rw [if_neg hlast, if_neg hlast]
        rw [if_neg hlast, List.length_cons, Nat.succ_le_succ_iff] at hfuel
        have hout₁ : out₁.bytes = (pre ++ [hexdigits.getD (v % b) 0]) ++ post := by simp [hbytes]
        rcases @ih (v / b) (N.ofNat (v / b)) (N.ofNat (v % b)) (offset + 1) out₁ _ post hdiv hout₁
          hnext hfuel with ⟨offset', out', rest, hrun, hresult, hend⟩ | ⟨hlong, hshort⟩
        · refine Or.inl ⟨offset', out', rest, hrun, ?_, ?_⟩
          · rw [hresult]
            simp [digitChars]
          · rw [hend, List.length_append, List.length_singleton, List.length_cons]
            omega
        · refine Or.inr ⟨?_, hshort⟩
          rw [List.length_append, List.length_singleton] at hlong
          rw [List.length_cons]
          omega

/-- The end of the text: the terminator needs a cell of its own. -/
theorem finishText_spec {fuel : ℕ} {offset : UInt32} {out : Buffer n} {text rest : Bytes}
    (hout : out.bytes = text ++ rest) (hoffset : offset.toNat = text.length) (htext : text ≠ [])
    (hn : n < 2 ^ 32) (hfuel : text.length ≤ fuel) :
    (text.length < n ∧ ∃ out' rest', finishText fuel (some offset, out) = some (.ok (true, out')) ∧
      out'.bytes = text.reverse ++ 0 :: rest') ∨
    (text.length = n ∧ finishText fuel (some offset, out) = some (.error .outOfRange)) := by
  have hsize := out.size_eq
  rw [hout, List.length_append] at hsize
  cases rest with
  | nil =>
    right
    rw [List.length_nil, Nat.add_zero] at hsize
    refine ⟨hsize, ?_⟩
    rw [finishText, Buffer.set?_of_le (by omega), inRange_none, andThen_error]
  | cons c rest =>
    left
    obtain ⟨ended, hset, hbytes⟩ := Buffer.set?_cell 0 hout
    obtain ⟨out', hrun, hresult⟩ := reverseString_spec hbytes hoffset htext hn hfuel
    rw [← hoffset] at hset
    refine ⟨by rw [List.length_cons] at hsize; omega, out', rest, ?_, hresult⟩
    simp only [finishText, hset, inRange_some, andThen_ok, hrun, Option.bind_eq_bind,
      Option.bind_some]
    rfl

theorem digitChars_length (digits : List ℕ) : (digitChars digits).length = digits.length :=
  List.length_map _

theorem numeralText_eq (base v : ℕ) :
    numeralText base v = (digitChars (Radix.lowDigits base v)).reverse := by
  rw [numeralText, digitChars, digitChars, Radix.canonical, List.map_reverse]

theorem numeralText_length (base v : ℕ) :
    (numeralText base v).length = (Radix.lowDigits base v).length := by
  rw [numeralText_eq, List.length_reverse, digitChars_length]

theorem tostring_digits (h : ops.Lawful N) (fuel : ℕ) (number : τ) {baseParam : UInt32}
    (outLength : UInt32) (out : Buffer n) (hb : 2 ≤ baseParam.toNat) (hle : baseParam.toNat ≤ 16) :
    tostring ops fuel number baseParam outLength out =
      (digitLoop ops fuel (ops.ofWord baseParam.toUInt64) outLength fuel number (N.ofNat 0) 0
        out).bind fun digits => andThen digits (finishText fuel) := by
  have hrange : (baseParam < 2 || baseParam > 16) = false := by
    simp only [Bool.or_eq_false_iff, decide_eq_false_iff_not, gt_iff_lt, UInt32.lt_iff_toNat_lt,
      UInt32.reduceToNat]
    omega
  simp only [tostring, hrange, into₁_eq h.copy.apart, into₀_eq h.clear, id]
  rfl

/-- An area with at least one cell. -/
theorem tostring_spec (h : ops.Lawful N) {fuel : ℕ} {number : τ} {baseParam outLength : UInt32}
    {out : Buffer n} (hfuel : N.bits < fuel) (hb : 2 ≤ baseParam.toNat)
    (hle : baseParam.toNat ≤ 16) (hn : outLength.toNat = n) (hpos : 1 ≤ n) :
    ((numeralText baseParam.toNat (N.value number)).length < n ∧ ∃ out' rest,
      tostring ops fuel number baseParam outLength out = some (.ok (true, out')) ∧
      out'.bytes = numeralText baseParam.toNat (N.value number) ++ 0 :: rest) ∨
    ((numeralText baseParam.toNat (N.value number)).length = n ∧
      tostring ops fuel number baseParam outLength out = some (.error .outOfRange)) ∨
    (n < (numeralText baseParam.toNat (N.value number)).length ∧ ∃ out',
      tostring ops fuel number baseParam outLength out = some (.ok (false, out'))) := by
  have hbase : N.value (ops.ofWord baseParam.toUInt64) = baseParam.toNat := by
    rw [h.ofWord_value, UInt32.toNat_toUInt64]
  have hpow : N.value number < baseParam.toNat ^ (N.bits + 1) :=
    calc N.value number < 2 ^ N.bits := N.value_lt number
      _ ≤ 2 ^ (N.bits + 1) := Nat.pow_le_pow_right two_pos (Nat.le_succ _)
      _ ≤ baseParam.toNat ^ (N.bits + 1) := Nat.pow_le_pow_left hb _
  have hdigits : (Radix.lowDigits baseParam.toNat (N.value number)).length ≤ fuel :=
    (Radix.lowDigits_length_le hb (Nat.le_add_left 1 _) hpow).trans hfuel
  rw [tostring_digits h fuel number outLength out hb hle, numeralText_length]
  rcases digitLoop_spec h (N.ofNat 0) hfuel hbase hb hle hn hpos rfl
    (List.nil_append out.bytes).symm UInt32.toNat_zero hdigits with
    ⟨offset, written, rest, hrun, hbytes, hoffset⟩ | ⟨hlong, written, hrun⟩
  · rw [List.length_nil, Nat.zero_add, ← digitChars_length] at hoffset
    rw [hrun, Option.bind_some, andThen_ok, numeralText_eq, ← digitChars_length]
    have hne : digitChars (Radix.lowDigits baseParam.toNat (N.value number)) ≠ [] := fun hnil =>
      Radix.lowDigits_ne_nil (List.map_eq_nil_iff.mp hnil)
    have hfuel' :
        (digitChars (Radix.lowDigits baseParam.toNat (N.value number))).length ≤ fuel := by
      rw [digitChars_length]
      exact hdigits
    rcases finishText_spec (by simpa using hbytes) hoffset hne (hn ▸ outLength.toNat_lt)
      hfuel' with hfits | hexact
    · exact Or.inl hfits
    · exact Or.inr (Or.inl hexact)
  · rw [List.length_nil, Nat.zero_add] at hlong
    refine Or.inr (Or.inr ⟨hlong, written, ?_⟩)
    rw [hrun, Option.bind_some, andThen_ok]
    rfl

/-- An area without a cell: the bound `outLength - 1` wraps, and the first digit is written. -/
theorem tostring_empty (h : ops.Lawful N) {fuel : ℕ} {number : τ} {baseParam : UInt32}
    {out : Buffer n} (hfuel : N.bits < fuel) (hb : 2 ≤ baseParam.toNat)
    (hle : baseParam.toNat ≤ 16) (hn : n = 0) :
    tostring ops fuel number baseParam 0 out = some (.error .outOfRange) := by
  obtain ⟨passes, rfl⟩ : ∃ k, fuel = k + 1 := Nat.exists_eq_add_one.mpr (by omega)
  have hbase : N.value (ops.ofWord baseParam.toUInt64) = baseParam.toNat := by
    rw [h.ofWord_value, UInt32.toNat_toUInt64]
  have hmod : N.value (N.ofNat (N.value number % baseParam.toNat)) =
      N.value number % baseParam.toNat :=
    N.value_ofNat_of_lt ((Nat.mod_le _ _).trans_lt (N.value_lt number))
  have hlt : N.value number % baseParam.toNat < baseParam.toNat := Nat.mod_lt _ (by omega)
  have hput := @putDigit_outside n τ ops N h (N.ofNat (N.value number % baseParam.toNat)) 0 out
    (by rw [hmod]; exact hlt.trans_le hle) (by rw [hn]; exact Nat.zero_le _)
  rw [tostring_digits h _ number 0 out hb hle, digitLoop_step h hfuel (by omega) (by decide),
    hbase, hput]
  rfl

end

/-! `tostring256`. -/

/-- The text is the numeral of the number, terminated within the area, where it fits there with
its terminator. No cell outside the area is written. -/
def WritesNumeral (number : Uint256) (baseParam outLength : UInt32)
    (out : Buffer outLength.toNat) : Prop :=
  ∀ fuel, 256 < fuel → ∃ done out',
    tostring256 fuel number baseParam outLength out = some (.ok (done, out')) ∧
    (done = true ↔
      (numeralText baseParam.toNat (value256 number)).length + 1 ≤ outLength.toNat) ∧
    (done = true →
      (∃ rest, out'.bytes = numeralText baseParam.toNat (value256 number) ++ 0 :: rest) ∧
      readNumeral baseParam.toNat (out'.bytes.takeWhile (· ≠ 0)) = value256 number)

theorem takeWhile_text {text rest : Bytes} (h : ∀ c ∈ text, c ≠ 0) :
    (text ++ 0 :: rest).takeWhile (· ≠ 0) = text := by
  rw [List.takeWhile_append_of_pos (by simpa using h)]
  simp

/-- `tostring256` does that exactly on an area that is not empty and that the numeral does not
fill to the last cell. -/
theorem tostring256_iff (number : Uint256) (baseParam outLength : UInt32)
    (out : Buffer outLength.toNat) (hbase : 2 ≤ baseParam.toNat) (hle : baseParam.toNat ≤ 16) :
    WritesNumeral number baseParam outLength out ↔
      1 ≤ outLength.toNat ∧
        (numeralText baseParam.toNat (value256 number)).length ≠ outLength.toNat := by
  have hspec {fuel : ℕ} (hfuel : 256 < fuel) (hpos : 1 ≤ outLength.toNat) :=
    @tostring_spec outLength.toNat Uint256 ops256 numbers256 _ ops256_lawful fuel number baseParam
      outLength out hfuel hbase hle rfl hpos
  constructor
  · intro h
    obtain ⟨done, out', hrun, -⟩ := h 257 (Nat.lt_succ_self 256)
    have hpos : 1 ≤ outLength.toNat := by
      by_contra hempty
      have hlen : outLength.toNat = 0 := by omega
      obtain rfl : outLength = 0 := UInt32.toNat_inj.mp hlen
      have herror := @tostring_empty _ Uint256 ops256 numbers256 _ ops256_lawful 257 number
        baseParam out (Nat.lt_succ_self 256) hbase hle hlen
      cases hrun.symm.trans herror
    refine ⟨hpos, fun hexact => ?_⟩
    rcases hspec (Nat.lt_succ_self 256) hpos with ⟨hfits, -⟩ | ⟨-, herror⟩ | ⟨hlong, -⟩
    · exact hfits.ne hexact
    · cases hrun.symm.trans herror
    · exact hlong.ne' hexact
  · rintro ⟨hpos, hne⟩ fuel hfuel
    rcases hspec hfuel hpos with ⟨hfits, out', rest, hrun, hbytes⟩ | ⟨hexact, -⟩ |
      ⟨hlong, out', hrun⟩
    · refine ⟨true, out', hrun, iff_of_true rfl hfits, fun _ => ⟨⟨rest, hbytes⟩, ?_⟩⟩
      rw [hbytes]
      calc readNumeral baseParam.toNat ((numeralText baseParam.toNat (value256 number) ++
            0 :: rest).takeWhile (· ≠ 0))
          = readNumeral baseParam.toNat (numeralText baseParam.toNat (value256 number)) := by
            rw [takeWhile_text (numeralText_ne_zero hbase hle)]
        _ = value256 number := readNumeral_numeralText hbase hle
    · exact absurd hexact hne
    · exact ⟨false, out', hrun, iff_of_false Bool.false_ne_true (Nat.not_le.mpr (hlong.trans
        (Nat.lt_succ_self _))), fun h => by cases h⟩

/-- With room to spare: `255` in base ten, in four cells. -/
theorem tostring256_iff_room : (2 ≤ (10 : UInt32).toNat ∧ (10 : UInt32).toNat ≤ 16) ∧
    (WritesNumeral (ofNat256 255) 10 4 (Buffer.zero 4) ↔ 1 ≤ (4 : UInt32).toNat ∧
      (numeralText (10 : UInt32).toNat (value256 (ofNat256 255))).length ≠ (4 : UInt32).toNat) :=
  ⟨by decide, tostring256_iff (ofNat256 255) 10 4 (Buffer.zero 4) (by decide) (by decide)⟩

/-- The digit of `5` fills an area of one cell, and the terminator goes beyond it. -/
theorem tostring256_fails : ¬ ∀ (number : Uint256) (baseParam outLength : UInt32)
    (out : Buffer outLength.toNat), 2 ≤ baseParam.toNat → baseParam.toNat ≤ 16 →
      WritesNumeral number baseParam outLength out := by
  intro h
  obtain ⟨done, out', hrun, -⟩ :=
    h ⟨⟨0, 0⟩, ⟨0, 5⟩⟩ 10 1 (Buffer.zero 1) (by decide) (by decide) 257 (by decide)
  have herror : tostring256 257 ⟨⟨0, 0⟩, ⟨0, 5⟩⟩ 10 1 (Buffer.zero 1) =
      some (.error .outOfRange) := by decide +kernel
  cases hrun.symm.trans herror

end IostLedger
