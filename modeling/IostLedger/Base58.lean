import IostLedger.Device
import IostLedger.Lib.Radix

/-! `base58.c`: the in-place radix conversion, and its agreement with the canonical
base-58 text. -/
namespace IostLedger
open Memory Exec

/-- `BASE_58_ALPHABET`. -/
def base58Alphabet : Bytes :=
  ascii "123456789ABCDEFGHJKLMNPQRSTUVWXYZabcdefghijkmnopqrstuvwxyz"

/-- The scan that counts leading zero bytes; `remaining` is `in_length - zeroCount`. -/
def countZeros (tmp : Buffer 64) : (remaining zeroCount : ℕ) → Checked ℕ
  | 0, zeroCount => .ok zeroCount
  | remaining + 1, zeroCount => do
      let v ← inRange (tmp.get? zeroCount)
      if v = 0 then countZeros tmp remaining (zeroCount + 1) else .ok zeroCount

/-- One pass of the division loop; `remaining` is `in_length - divLoop`. -/
def divideRow (alphabetLen : ℕ) :
    (remaining divLoop : ℕ) → Buffer 64 → (remainder : ℕ) → Checked (Buffer 64 × ℕ)
  | 0, _, tmp, remainder => .ok (tmp, remainder)
  | remaining + 1, divLoop, tmp, remainder => do
      let digit256 ← inRange (tmp.get? divLoop)
      let tmpDiv := (remainder * 256 + digit256.toNat) % 2 ^ 16
      let tmp ← inRange (tmp.set? divLoop (UInt8.ofNat (tmpDiv / alphabetLen)))
      divideRow alphabetLen remaining (divLoop + 1) tmp (tmpDiv % alphabetLen)

/-- The conversion loop. At `buffer_ix = 0` the decrement wraps to 255, and the
store that follows it is outside `buffer[128]`. -/
def convertLoop (alphabet : Bytes) (inLength : ℕ) :
    (bufferIx startAt : ℕ) → Buffer 64 → Buffer 128 → Checked (Buffer 128 × ℕ)
  | 0, startAt, _, buffer =>
      if startAt < inLength then .error .outOfRange else .ok (buffer, 0)
  | bufferIx + 1, startAt, tmp, buffer =>
      if startAt < inLength then do
        let (tmp, remainder) ← divideRow alphabet.length (inLength - startAt) startAt tmp 0
        let v ← inRange (tmp.get? startAt)
        let startAt := if v = 0 then startAt + 1 else startAt
        let c ← inRange alphabet[remainder]?
        let buffer ← inRange (buffer.set? bufferIx c)
        convertLoop alphabet inLength bufferIx startAt tmp buffer
      else .ok (buffer, bufferIx + 1)

/-- The loop that skips leading zero digits; `remaining` is `2 * in_length - buffer_ix`. -/
def stripLoop (buffer : Buffer 128) (zero : UInt8) : (remaining bufferIx : ℕ) → Checked ℕ
  | 0, bufferIx => .ok bufferIx
  | remaining + 1, bufferIx => do
      let v ← inRange (buffer.get? bufferIx)
      if v = zero then stripLoop buffer zero remaining (bufferIx + 1) else .ok bufferIx

/-- The loop that writes one zero digit for each leading zero byte. -/
def padLoop (zero : UInt8) :
    (zeroCount bufferIx : ℕ) → Buffer 128 → Checked (Buffer 128 × ℕ)
  | 0, bufferIx, buffer => .ok (buffer, bufferIx)
  | _ + 1, 0, _ => .error .outOfRange
  | zeroCount + 1, bufferIx + 1, buffer => do
      let buffer ← inRange (buffer.set? bufferIx zero)
      padLoop zero zeroCount bufferIx buffer

/-- `encode_base_x`: the bytes written to `out`, whose number it returns. -/
def encodeBaseX (alphabet input : Bytes) : Checked Bytes := do
  let inLength := input.length
  if inLength ≤ 64 then do
    let tmp ← inRange ((Buffer.zero 64).write? 0 input)
    let zeroCount ← countZeros tmp inLength 0
    let bufferIx := (2 * inLength) % 2 ^ 8
    if bufferIx ≤ 128 then do
      let zero ← inRange alphabet[0]?
      let (buffer, bufferIx) ←
        convertLoop alphabet inLength bufferIx zeroCount tmp (Buffer.zero 128)
      let bufferIx ← stripLoop buffer zero (2 * inLength - bufferIx) bufferIx
      let (buffer, bufferIx) ← padLoop zero zeroCount bufferIx buffer
      inRange (buffer.read? bufferIx (2 * inLength - bufferIx))
    else .ok []
  else .ok []

/-- `encode_base_58`. -/
def encodeBase58 (input : Bytes) : Checked Bytes := encodeBaseX base58Alphabet input

/-! The canonical text, and the standard decoder. -/

/-- One `1` for each leading zero byte, then the base-58 numeral of the value. -/
def base58Text (input : Bytes) : Bytes :=
  (Radix.recode 256 58 (input.map UInt8.toNat)).map fun d => base58Alphabet.getD d 0

/-- The standard decoder: leading `1`s are zero bytes, the rest is a base-58 numeral. -/
def base58Decode (text : Bytes) : Bytes :=
  (Radix.recode 58 256 (text.map fun c => base58Alphabet.idxOf c)).map UInt8.ofNat

theorem base58Alphabet_length : base58Alphabet.length = 58 := by decide

theorem base58Alphabet_idxOf :
    ∀ d : Fin 58, base58Alphabet.idxOf (base58Alphabet.getD d 0) = d := by decide

theorem base58Decode_text (input : Bytes) : base58Decode (base58Text input) = input := by
  have hlt : ∀ d ∈ input.map UInt8.toNat, d < 256 := by
    intro d hd
    obtain ⟨b, _, rfl⟩ := List.mem_map.mp hd
    exact b.toNat_lt
  have hindex : (base58Text input).map (fun c => base58Alphabet.idxOf c) =
      Radix.recode 256 58 (input.map UInt8.toNat) := by
    rw [base58Text, List.map_map]
    refine (List.map_congr_left fun d hd => ?_).trans (List.map_id _)
    exact base58Alphabet_idxOf ⟨d, Radix.recode_lt (by norm_num) d hd⟩
  rw [base58Decode, hindex, Radix.recode_recode (by norm_num) hlt, List.map_map]
  exact (List.map_congr_left fun b _ => UInt8.ofNat_toNat).trans (List.map_id _)

theorem base58Text_injective : Function.Injective base58Text := fun a b h => by
  rw [← base58Decode_text a, h, base58Decode_text]

theorem base58Text_length_le (input : Bytes) : (base58Text input).length ≤ 2 * input.length := by
  rw [base58Text, List.length_map,
    show input.length = (input.map UInt8.toNat).length from List.length_map _ |>.symm]
  refine Radix.recode_length_le (by norm_num) (by norm_num) (by norm_num) fun d hd => ?_
  obtain ⟨b, _, rfl⟩ := List.mem_map.mp hd
  exact b.toNat_lt

/-! The loops compute the canonical text. -/

theorem countZeros_eq {tmp : Buffer 64} {pre l post : Bytes}
    (h : tmp.bytes = pre ++ l ++ post) :
    countZeros tmp l.length pre.length =
      .ok (pre.length + Radix.zeros (l.map UInt8.toNat)) := by
  induction l generalizing pre with
  | nil => simp [countZeros, Radix.zeros]
  | cons d ds ih =>
    have hget : tmp.get? pre.length = some d := by simp [Buffer.get?, h]
    have hnext := @ih (pre ++ [d]) (by simp [h])
    rw [List.length_append, List.length_singleton] at hnext
    by_cases hd : d = 0
    · subst hd
      simp only [List.length_cons, countZeros, hget, inRange_some, bind, Except.bind, if_pos, hnext]
      simp only [Radix.zeros, List.map_cons, UInt8.toNat_zero, List.takeWhile_cons,
        decide_true, if_true, List.length_cons]
      congr 1
      omega
    · have hd' : ¬ d.toNat = 0 := fun h0 => hd (UInt8.toNat_inj.mp h0)
      simp [countZeros, hget, bind, Except.bind, hd, Radix.zeros, hd']

theorem divideRow_eq {a : ℕ} (ha : a ≤ 256) {tmp : Buffer 64} {pre l post : Bytes} {r : ℕ}
    (hr : r < a) (h : tmp.bytes = pre ++ l ++ post) :
    ∃ tmp' : Buffer 64, divideRow a l.length pre.length tmp r =
        .ok (tmp', (Radix.divRow 256 a r (l.map UInt8.toNat)).2) ∧
      tmp'.bytes =
        pre ++ (Radix.divRow 256 a r (l.map UInt8.toNat)).1.map UInt8.ofNat ++ post := by
  induction l generalizing pre tmp r with
  | nil => exact ⟨tmp, rfl, h⟩
  | cons d ds ih =>
    have hget : tmp.get? pre.length = some d := by simp [Buffer.get?, h]
    have hlen : pre.length < 64 := by
      have hn := tmp.size_eq
      simp only [h, List.length_append, List.length_cons] at hn
      omega
    have hdiv : (r * 256 + d.toNat) % 2 ^ 16 = r * 256 + d.toNat := by
      have hd := d.toNat_lt
      exact Nat.mod_eq_of_lt (by omega)
    let q := UInt8.ofNat ((r * 256 + d.toNat) / a)
    have hcell : (tmp.splice pre.length [q]).bytes = (pre ++ [q]) ++ ds ++ post := by
      have hrow : tmp.bytes = pre ++ d :: (ds ++ post) := by simp [h]
      rw [Buffer.splice_cell hrow]
      simp
    obtain ⟨tmp', hrun, hbytes⟩ :=
      ih (r := (r * 256 + d.toNat) % a) (Nat.mod_lt _ (Nat.zero_lt_of_lt hr)) hcell
    rw [List.length_append, List.length_singleton] at hrun
    refine ⟨tmp', ?_, ?_⟩
    · simp only [List.length_cons, divideRow, hget, inRange_some, bind, Except.bind, hdiv,
        Buffer.set?_of_lt hlen]
      exact hrun
    · rw [hbytes]
      simp [Radix.divRow, q]

theorem toNat_ofNat_digits {q : List ℕ} (hq : ∀ d ∈ q, d < 256) :
    (q.map UInt8.ofNat).map UInt8.toNat = q := by
  rw [List.map_map]
  refine (List.map_congr_left fun d hd => ?_).trans (List.map_id q)
  exact UInt8.toNat_ofNat_of_lt' (hq d hd)

/-- The text of a numeral of digits below the alphabet length. -/
def digitText (alphabet : Bytes) (l : List ℕ) : Bytes := l.map fun d => alphabet.getD d 0

theorem ofNat_eq_zero_iff {d : ℕ} (hd : d < 256) : UInt8.ofNat d = 0 ↔ d = 0 := by
  constructor
  · intro h
    rw [← UInt8.toNat_ofNat_of_lt' hd, h]
    rfl
  · rintro rfl
    rfl

/-- The start index moves past a leading zero of the quotient. -/
theorem startAt_advance {tmp : Buffer 64} {pre post : Bytes} {e : ℕ} {es : List ℕ}
    (he : e < 256) (htmp : tmp.bytes = pre ++ (e :: es).map UInt8.ofNat ++ post) :
    ∃ pre' : Bytes,
      pre'.length = (if UInt8.ofNat e = 0 then pre.length + 1 else pre.length) ∧
      tmp.bytes = pre' ++ (Radix.dropZero (e :: es)).map UInt8.ofNat ++ post ∧
      pre'.length + (Radix.dropZero (e :: es)).length = pre.length + (es.length + 1) := by
  have hiff := ofNat_eq_zero_iff he
  rcases e with - | e
  · refine ⟨pre ++ [0], by simp, by simp [htmp, Radix.dropZero], ?_⟩
    simp only [Radix.dropZero, List.length_append, List.length_singleton]
    omega
  · have hne : ¬ UInt8.ofNat (e + 1) = 0 := fun h => by simpa using hiff.mp h
    exact ⟨pre, by rw [if_neg hne], htmp, rfl⟩

section Convert
variable {alphabet : Bytes}

/-- The conversion loop writes the numeral of the active bytes in front of `bufferIx`.
The induction follows `buffer_ix`; the leading active byte stays non-zero. -/
theorem convertLoop_eq (ha : 1 < alphabet.length) (ha' : alphabet.length ≤ 256) {inLength : ℕ}
    {bufferIx : ℕ} {tmp : Buffer 64} {buffer : Buffer 128} {pre post : Bytes} {l : List ℕ}
    {num : List ℕ} (hnum : Radix.numeral alphabet.length (Radix.value 256 l) = num)
    (hix : bufferIx ≤ 128) (htmp : tmp.bytes = pre ++ l.map UInt8.ofNat ++ post)
    (hlen : pre.length + l.length = inLength) (hlt : ∀ d ∈ l, d < 256)
    (hhead : ∀ d ∈ l.head?, d ≠ 0) (hfit : num.length ≤ bufferIx) :
    ∃ buffer' : Buffer 128,
      convertLoop alphabet inLength bufferIx pre.length tmp buffer =
        .ok (buffer', bufferIx - num.length) ∧
      buffer'.bytes.drop (bufferIx - num.length) =
        digitText alphabet num ++ buffer.bytes.drop bufferIx := by
  induction bufferIx generalizing tmp buffer pre l num with
  | zero =>
    rcases l with - | ⟨d, ds⟩
    · subst hnum
      exact ⟨buffer, by simp [convertLoop, ← hlen, Radix.value], by simp [Radix.value, digitText]⟩
    · have hpos : 0 < Radix.value 256 (d :: ds) := Radix.value_pos (by norm_num) (hhead d rfl)
      rw [← hnum, Radix.numeral_step ha hpos] at hfit
      simp at hfit
  | succ bufferIx ih =>
    rcases l with - | ⟨d, ds⟩
    · subst hnum
      exact ⟨buffer, by simp [convertLoop, ← hlen, Radix.value], by simp [Radix.value, digitText]⟩
    have hpos : 0 < Radix.value 256 (d :: ds) := Radix.value_pos (by norm_num) (hhead d rfl)
    have hdiv := Radix.divRow_div (a := 256) (by omega : 0 < alphabet.length) (d :: ds)
    have hqlt := Radix.divRow_digit_lt (by omega : 0 < alphabet.length) hlt
    have hqlen := Radix.divRow_length 256 alphabet.length 0 (d :: ds)
    have hqhead : ∀ q ∈ (Radix.dropZero (Radix.divRow 256 alphabet.length 0 (d :: ds)).1).head?,
        q ≠ 0 := Radix.divRow_dropZero_head (by omega) ha' (hhead d rfl)
    obtain ⟨tmp', hrun, hbytes⟩ := divideRow_eq ha' (by omega : 0 < alphabet.length) htmp
    rw [toNat_ofNat_digits hlt] at hrun hbytes
    obtain ⟨e, es, hq⟩ : ∃ e es, (Radix.divRow 256 alphabet.length 0 (d :: ds)).1 = e :: es :=
      ⟨_, _, rfl⟩
    rw [hq] at hbytes hqlt hqlen hqhead hdiv
    rw [hdiv.2] at hrun
    obtain ⟨pre', hpre', htmp', hlen'⟩ := startAt_advance (hqlt e (by simp)) hbytes
    have hlens : pre'.length + (Radix.dropZero (e :: es)).length = inLength := by
      simp only [List.length_cons] at hlen hqlen
      omega
    -- the remainder of the pass is the last digit of the numeral
    let r := Radix.value 256 (d :: ds) % alphabet.length
    have hr : r < alphabet.length := Nat.mod_lt _ (by omega)
    have hchar : alphabet[r]? = some (alphabet.getD r 0) := by simp [List.getD, hr]
    have hcell : (buffer.splice bufferIx [alphabet.getD r 0]).bytes.drop bufferIx = _ :=
      Buffer.drop_splice (by simpa using hix)
    have hstep := Radix.numeral_step ha hpos
    rw [hnum] at hstep
    obtain ⟨buffer', hloop, hdrop⟩ := @ih _ (buffer.splice bufferIx [alphabet.getD r 0]) _ _ _
      (by rw [Radix.value_dropZero, hdiv.1]) (by omega) htmp' hlens
      (fun x hx => hqlt x (Radix.dropZero_subset _ hx)) hqhead (by
        rw [hstep, List.length_append, List.length_singleton] at hfit
        omega)
    have hix' : bufferIx + 1 - num.length = bufferIx -
        (Radix.numeral alphabet.length
          (Radix.value 256 (d :: ds) / alphabet.length)).length := by
      rw [hstep, List.length_append, List.length_singleton, Nat.add_sub_add_right]
    refine ⟨buffer', ?_, ?_⟩
    · have hlt' : pre.length < inLength := by
        simp only [List.length_cons] at hlen
        omega
      have hrem : inLength - pre.length = ((d :: ds).map UInt8.ofNat).length := by
        simp only [List.length_map]
        omega
      have hget : tmp'.get? pre.length = some (UInt8.ofNat e) := by
        simp [Buffer.get?, hbytes]
      rw [hix', ← hloop, hpre']
      simp only [convertLoop, if_pos hlt', hrem, hrun, bind, Except.bind, hget, inRange_some]
      change (inRange alphabet[r]?).bind _ = _
      simp only [hchar, inRange_some, Except.bind,
        Buffer.set?_of_lt (show bufferIx < 128 by omega)]
    · rw [hix', hdrop, hcell, hstep]
      simp [digitText, r]

theorem stripLoop_eq {buffer : Buffer 128} {zero : UInt8} {text rest : Bytes} {ix : ℕ}
    (h : buffer.bytes.drop ix = text ++ rest) (hhead : ∀ c ∈ text.head?, c ≠ zero) :
    stripLoop buffer zero text.length ix = .ok ix := by
  cases text with
  | nil => rfl
  | cons c cs =>
    have hget : buffer.get? ix = some c := by
      rw [Buffer.get?, ← Nat.add_zero ix, ← List.getElem?_drop, h]
      rfl
    simp [stripLoop, hget, bind, Except.bind, hhead c rfl]

theorem padLoop_eq {zero : UInt8} {zeroCount ix : ℕ} {buffer : Buffer 128} (hix : ix ≤ 128)
    (hz : zeroCount ≤ ix) :
    ∃ buffer' : Buffer 128, padLoop zero zeroCount ix buffer = .ok (buffer', ix - zeroCount) ∧
      buffer'.bytes.drop (ix - zeroCount) =
        List.replicate zeroCount zero ++ buffer.bytes.drop ix := by
  induction zeroCount generalizing ix buffer with
  | zero => exact ⟨buffer, by simp [padLoop], by simp⟩
  | succ z ih =>
    obtain ⟨ix, rfl⟩ : ∃ k, ix = k + 1 := ⟨ix - 1, by omega⟩
    have hcell : (buffer.splice ix [zero]).bytes.drop ix = _ :=
      Buffer.drop_splice (by simpa using hix)
    obtain ⟨buffer', hrun, hdrop⟩ := @ih ix (buffer.splice ix [zero]) (by omega) (by omega)
    refine ⟨buffer', ?_, ?_⟩
    · simp only [padLoop, Buffer.set?_of_lt (show ix < 128 by omega), inRange_some, bind,
        Except.bind, hrun, Nat.add_sub_add_right]
    · rw [Nat.add_sub_add_right, hdrop, hcell, List.replicate_succ']
      simp

/-- The text of a byte string in an alphabet whose first letter is its zero digit. -/
def radixText (alphabet input : Bytes) : Bytes :=
  digitText alphabet (Radix.recode 256 alphabet.length (input.map UInt8.toNat))

/-- Every store is in range, and the bytes written are the canonical text. -/
theorem encodeBaseX_eq (ha : 58 ≤ alphabet.length) (ha' : alphabet.length ≤ 256)
    (hzero : ∀ d, d ≠ 0 → d < alphabet.length → alphabet.getD d 0 ≠ alphabet.getD 0 0)
    {input : Bytes} (hin : input.length ≤ 64) :
    encodeBaseX alphabet input = .ok (radixText alphabet input) := by
  let digits := input.map UInt8.toNat
  let z := Radix.zeros digits
  let num := Radix.numeral alphabet.length (Radix.value 256 digits)
  have hdigits : ∀ d ∈ digits, d < 256 := by
    intro d hd
    obtain ⟨b, _, rfl⟩ := List.mem_map.mp hd
    exact b.toNat_lt
  have hbytes : digits.map UInt8.ofNat = input := by
    rw [List.map_map]
    exact (List.map_congr_left fun b _ => UInt8.ofNat_toNat).trans (List.map_id _)
  have hparts := Radix.replicate_zeros_append digits
  have hsizes : z + (digits.dropWhile (· = 0)).length = input.length := by
    have := congrArg List.length hparts
    simpa [digits, z] using this
  have hlen : z + num.length ≤ 2 * input.length := by
    have := Radix.recode_length_le (k := 2) (by omega : 1 < alphabet.length)
      ((by norm_num : 256 ≤ 58 ^ 2).trans (Nat.pow_le_pow_left ha 2)) (by norm_num) hdigits
    simpa [Radix.recode, digits, z, num] using this
  let tmp := (Buffer.zero 64).splice 0 input
  have htmp : tmp.bytes = [] ++ input ++ List.replicate (64 - input.length) 0 := by
    rw [Buffer.splice_bytes (by simpa using hin), Buffer.zero_bytes, List.drop_replicate,
      Nat.zero_add, List.take_zero]
  have hcount : countZeros tmp input.length 0 = .ok z := by
    simpa [digits, z] using countZeros_eq htmp
  -- the conversion starts behind the leading zeros
  have htmp' : tmp.bytes = List.replicate z 0 ++
      (digits.dropWhile (· = 0)).map UInt8.ofNat ++ List.replicate (64 - input.length) 0 := by
    rw [htmp, List.nil_append]
    congr 1
    conv_lhs => rw [← hbytes, ← hparts]
    simp [z]
  have hloop : ∃ buffer, convertLoop alphabet input.length (2 * input.length)
      (List.replicate z (0 : UInt8)).length tmp (.zero 128) =
        .ok (buffer, 2 * input.length - num.length) ∧
      buffer.bytes.drop (2 * input.length - num.length) = digitText alphabet num ++ _ :=
    convertLoop_eq (by omega) ha' (by rw [Radix.value_dropWhile_zero]) (by omega) htmp'
      (by simpa using hsizes) (fun d hd => hdigits d (List.dropWhile_sublist _ |>.subset hd))
      (Radix.dropWhile_zero_head digits) (by omega)
  obtain ⟨buffer, hconv, hdrop⟩ := hloop
  rw [List.length_replicate] at hconv
  have hhead : ∀ c ∈ (digitText alphabet num).head?, c ≠ alphabet.getD 0 0 := by
    intro c hc
    rw [digitText, List.head?_map, Option.mem_map] at hc
    obtain ⟨d, hd, rfl⟩ := hc
    exact hzero d (Radix.numeral_head_ne_zero d hd)
      (Radix.numeral_lt (by omega) (List.mem_of_mem_head? hd))
  have hstrip := stripLoop_eq hdrop hhead
  have htextlen : (digitText alphabet num).length = num.length := by simp [digitText]
  have hpadding : ∃ buffer', padLoop (alphabet.getD 0 0) z (2 * input.length - num.length) buffer =
      .ok (buffer', _) ∧ _ := padLoop_eq (by omega) (by omega)
  obtain ⟨buffer', hpad, hdrop'⟩ := hpadding
  have hrem : 2 * input.length - (2 * input.length - num.length) =
      (digitText alphabet num).length := by omega
  have hout : 2 * input.length - (2 * input.length - num.length - z) =
      (List.replicate z (alphabet.getD 0 0) ++ digitText alphabet num).length := by
    rw [List.length_append, List.length_replicate]
    omega
  have hfirst : alphabet[0]? = some (alphabet.getD 0 0) := by
    simp [List.getD, show 0 < alphabet.length by omega]
  have hwrite : (Buffer.zero 64).write? 0 input = some tmp :=
    Buffer.write?_of_le (by simpa using hin)
  have hread : buffer'.read? (2 * input.length - num.length - z)
      (2 * input.length - (2 * input.length - num.length - z)) =
      some (List.replicate z (alphabet.getD 0 0) ++ digitText alphabet num) := by
    rw [Buffer.read?_of_le (by omega), hdrop', hdrop, ← List.append_assoc, hout,
      List.take_left]
  have htext : radixText alphabet input =
      List.replicate z (alphabet.getD 0 0) ++ digitText alphabet num := by
    simp [radixText, Radix.recode, digitText, digits, z, num]
  have hix : 2 * input.length % 2 ^ 8 = 2 * input.length := Nat.mod_eq_of_lt (by omega)
  simp only [encodeBaseX, if_pos hin, bind, Except.bind, hwrite, inRange_some, hcount, hix,
    if_pos (show 2 * input.length ≤ 128 by omega), hfirst, hconv, hrem, hstrip, hpad, hread, htext]

end Convert

theorem base58Text_eq (input : Bytes) : base58Text input = radixText base58Alphabet input := by
  rw [base58Text, radixText, base58Alphabet_length]
  rfl

/-- `encode_base_58` writes the canonical base-58 text of up to 64 bytes. -/
theorem encodeBase58_eq {input : Bytes} (hin : input.length ≤ 64) :
    encodeBase58 input = .ok (base58Text input) := by
  rw [base58Text_eq]
  refine encodeBaseX_eq (by decide) (by decide) ?_ hin
  intro d hd hlt
  rw [base58Alphabet_length] at hlt
  have hindex (k : Fin 58) := base58Alphabet_idxOf k
  intro heq
  exact hd ((hindex ⟨d, hlt⟩).symm.trans ((congrArg base58Alphabet.idxOf heq).trans (hindex 0)))

/-- Beyond 64 bytes nothing is written. -/
theorem encodeBase58_of_gt {input : Bytes} (hin : 64 < input.length) :
    encodeBase58 input = .ok [] := by
  simp [encodeBase58, encodeBaseX, Nat.not_le.mpr hin]

/-- The canonical base-58 text of a byte string: one `1` for each leading zero byte, then the
numeral of its big-endian value, most significant digit first and without leading zeros. -/
structure CanonicalText (input text : Bytes) : Prop where
  length_le : text.length ≤ 2 * input.length
  shape : ∃ num : List ℕ,
    text = List.replicate (Radix.zeros (input.map UInt8.toNat)) 49 ++
      num.map (fun d => base58Alphabet.getD d 0) ∧
    (∀ d ∈ num, d < 58) ∧ (∀ d ∈ num.head?, d ≠ 0) ∧
    Radix.value 58 num = Radix.value 256 (input.map UInt8.toNat)
  decodes : base58Decode text = input

theorem base58Text_canonical (input : Bytes) : CanonicalText input (base58Text input) where
  length_le := base58Text_length_le input
  shape := by
    let digits := input.map UInt8.toNat
    refine ⟨Radix.numeral 58 (Radix.value 256 digits), ?_, ?_, ?_, ?_⟩
    · simp only [base58Text, Radix.recode, List.map_append, List.map_replicate]
      rfl
    · intro d hd
      exact Radix.numeral_lt (by norm_num) hd
    · exact Radix.numeral_head_ne_zero
    · exact Radix.value_numeral
  decodes := base58Decode_text input

/-- `encode_base_58` ends without leaving its arrays, its output is the canonical text,
and no other input of up to 64 bytes has the same output. -/
theorem encodeBase58_canonical {input : Bytes} (hin : input.length ≤ 64) :
    ∃ text, encodeBase58 input = .ok text ∧ CanonicalText input text ∧
      ∀ other : Bytes, other.length ≤ 64 → encodeBase58 other = .ok text → other = input := by
  refine ⟨base58Text input, encodeBase58_eq hin, base58Text_canonical input, ?_⟩
  intro other hother hsame
  apply base58Text_injective
  have htext := (encodeBase58_eq hother).symm.trans hsame
  simpa using htext

theorem encodeBase58_canonical_zero_max :
    ([0, 255] : Bytes).length ≤ 64 ∧
    ∃ text, encodeBase58 [0, 255] = .ok text ∧ CanonicalText [0, 255] text ∧
      ∀ other : Bytes, other.length ≤ 64 → encodeBase58 other = .ok text → other = [0, 255] :=
  ⟨by decide, encodeBase58_canonical (by decide)⟩

end IostLedger
