import IostLedger.Device
import IostLedger.Lib.Radix

/-! `printf.c` in the configuration of the build: no floating point, and digit buffers
of nine characters. The characters passed to the output function are collected in
order; `iostSnprintf` lays them over the caller's buffer. -/
namespace IostLedger
open Memory Exec

/-- `PRINTF_NTOA_BUFFER_SIZE` of the Makefile. -/
def printfNtoaBufferSize : ℕ := 9

/-- The `FLAGS_*` bits. -/
structure PrintfFlags where
  zeropad : Bool := false
  left : Bool := false
  plus : Bool := false
  space : Bool := false
  hash : Bool := false
  uppercase : Bool := false
  char : Bool := false
  short : Bool := false
  precision : Bool := false

/-- A digit as `_ntoa_long` writes it. -/
def ntoaDigit (uppercase : Bool) (digit : ℕ) : UInt8 :=
  if digit < 10 then UInt8.ofNat (48 + digit)
  else UInt8.ofNat ((if uppercase then 65 else 97) + digit - 10)

/-- The digit loop of `_ntoa_long`, least significant digit first; `room` is what is
left of the digit buffer. -/
def ntoaDigits (uppercase : Bool) (base : ℕ) : (room value : ℕ) → Bytes
  | 0, _ => []
  | room + 1, value =>
      ntoaDigit uppercase (value % base) ::
        if value / base = 0 then [] else ntoaDigits uppercase base room (value / base)

/-- Append `'0'` up to a length, as far as the digit buffer goes. -/
def padZeros (buf : Bytes) (len : ℕ) : Bytes :=
  buf ++ List.replicate (min len printfNtoaBufferSize - buf.length) 48

/-- Append one character if the digit buffer has room. -/
def pushChar (buf : Bytes) (c : UInt8) : Bytes :=
  if buf.length < printfNtoaBufferSize then buf ++ [c] else buf

/-- `_out_rev`. -/
def outRev (buf : Bytes) (width : ℕ) (flags : PrintfFlags) : Bytes :=
  let pad := if !flags.left && !flags.zeropad then List.replicate (width - buf.length) 32 else []
  let out := pad ++ buf.reverse
  if flags.left then out ++ List.replicate (width - out.length) 32 else out

/-- The `FLAGS_HASH` part of `_ntoa_format`. -/
def ntoaHash (buf : Bytes) (base prec width : ℕ) (flags : PrintfFlags) : Bytes :=
  let buf :=
    if !flags.precision && decide (buf.length ≠ 0) &&
        (decide (buf.length = prec) || decide (buf.length = width)) then
      let buf := buf.dropLast
      if decide (buf.length ≠ 0) && decide (base = 16) then buf.dropLast else buf
    else buf
  let buf :=
    if base = 16 then pushChar buf (if flags.uppercase then 88 else 120)
    else if base = 2 then pushChar buf 98
    else buf
  pushChar buf 48

/-- `_ntoa_format`. -/
def ntoaFormat (buf : Bytes) (negative : Bool) (base prec width : ℕ) (flags : PrintfFlags) :
    Bytes :=
  let width :=
    if !flags.left && decide (width ≠ 0) && flags.zeropad &&
      (negative || flags.plus || flags.space) then width - 1 else width
  let buf :=
    if flags.left then buf
    else
      let buf := padZeros buf prec
      if flags.zeropad then padZeros buf width else buf
  let buf := if flags.hash then ntoaHash buf base prec width flags else buf
  let buf :=
    if negative then pushChar buf 45
    else if flags.plus then pushChar buf 43
    else if flags.space then pushChar buf 32
    else buf
  outRev buf width flags

/-- `_ntoa_long`. -/
def ntoaLong (value : UInt32) (negative : Bool) (base prec width : ℕ) (flags : PrintfFlags) :
    Bytes :=
  let flags := if value = 0 then { flags with hash := false } else flags
  let buf :=
    if !flags.precision || decide (value ≠ 0) then
      ntoaDigits flags.uppercase base printfNtoaBufferSize value.toNat
    else []
  ntoaFormat buf negative base prec width flags

/-- The flag characters of a directive. -/
def parseFlags : Bytes → PrintfFlags → PrintfFlags × Bytes
  | [], flags => (flags, [])
  | c :: rest, flags =>
      if c = 48 then parseFlags rest { flags with zeropad := true }
      else if c = 45 then parseFlags rest { flags with left := true }
      else if c = 43 then parseFlags rest { flags with plus := true }
      else if c = 32 then parseFlags rest { flags with space := true }
      else if c = 35 then parseFlags rest { flags with hash := true }
      else (flags, c :: rest)

/-- `_atoi`. -/
def atoi : Bytes → UInt32 → UInt32 × Bytes
  | [], i => (i, [])
  | c :: rest, i =>
      if 48 ≤ c ∧ c ≤ 57 then atoi rest (i * 10 + (c - 48).toUInt32) else (i, c :: rest)

/-- The width field of a directive, its digits or the absolute value of an argument. -/
def parseWidth (flags : PrintfFlags) : Bytes → List UInt32 →
    Option (PrintfFlags × ℕ × Bytes × List UInt32)
  | 42 :: rest, w :: args =>
      if bip32PathMask ≤ w then some ({ flags with left := true }, (-w).toNat, rest, args)
      else some (flags, w.toNat, rest, args)
  | 42 :: _, [] => none
  | format, args => some (flags, (atoi format 0).1.toNat, (atoi format 0).2, args)

/-- The precision field of a directive. -/
def parsePrecision (flags : PrintfFlags) : Bytes → List UInt32 →
    Option (PrintfFlags × ℕ × Bytes × List UInt32)
  | 46 :: 42 :: rest, p :: args =>
      some ({ flags with precision := true },
        if bip32PathMask ≤ p then 0 else p.toNat, rest, args)
  | 46 :: 42 :: _, [] => none
  | 46 :: rest, args =>
      some ({ flags with precision := true }, (atoi rest 0).1.toNat, (atoi rest 0).2, args)
  | format, args => some (flags, 0, format, args)

/-- The length field of a directive; a 64-bit argument has no result. -/
def parseLength (flags : PrintfFlags) : Bytes → Option (PrintfFlags × Bytes)
  | 108 :: 108 :: _ => none
  | 106 :: _ => none
  | 108 :: rest => some (flags, rest)
  | 122 :: rest => some (flags, rest)
  | 104 :: 104 :: rest => some ({ flags with short := true, char := true }, rest)
  | 104 :: rest => some ({ flags with short := true }, rest)
  | rest => some (flags, rest)

/-- The unsigned directives `u`, `x`, `X`, `o` and `b`. -/
def formatUnsigned (spec : UInt8) (value : UInt32) (prec width : ℕ) (flags : PrintfFlags) :
    Bytes :=
  let base := if spec = 120 ∨ spec = 88 then 16 else if spec = 111 then 8
    else if spec = 98 then 2 else 10
  let flags := if base = 10 then { flags with hash := false } else flags
  let flags := if spec = 88 then { flags with uppercase := true } else flags
  let flags := { flags with plus := false, space := false }
  let flags := if flags.precision then { flags with zeropad := false } else flags
  let value :=
    if flags.char then value &&& 0xFF else if flags.short then value &&& 0xFFFF else value
  ntoaLong value false base prec width flags

/-- One directive after its `%`: the characters it puts out, the rest of the format and
the arguments left. A missing argument, or a directive that takes another kind of argument
than a 32-bit word (`d`, `i`, `c`, `s` and `p`), has no result. -/
def formatDirective (format : Bytes) (args : List UInt32) :
    Option (Bytes × Bytes × List UInt32) := do
  let (flags, format) := parseFlags format {}
  let (flags, width, format, args) ← parseWidth flags format args
  let (flags, prec, format, args) ← parsePrecision flags format args
  let (flags, format) ← parseLength flags format
  match format, args with
  | [], _ => none
  | spec :: rest, args =>
      if spec ∈ ascii "uxXob" then
        match args with
        | v :: args => some (formatUnsigned spec v prec width flags, rest, args)
        | [] => none
      else if spec ∈ ascii "dicsp" then none
      else some ([spec], rest, args)

/-- The loop of `_iost_vsnprintf`, which reads at least one character of the format in
each of its rounds. -/
def formatLoop : (rounds : ℕ) → Bytes → List UInt32 → Option Bytes
  | _, [], _ => some []
  | 0, _ :: _, _ => none
  | rounds + 1, c :: format, args =>
      if c = 37 then do
        let (out, format, args) ← formatDirective format args
        let rest ← formatLoop rounds format args
        some (out ++ rest)
      else (formatLoop rounds format args).map (c :: ·)

/-- `iost_snprintf`: `_out_buffer` drops the characters from `count` on, and the last of
`count` bytes is taken by the terminator. -/
def iostSnprintf {n : ℕ} (buffer : Buffer n) (count : ℕ) (format : Bytes) (args : List UInt32) :
    Option (Buffer n) := do
  let out ← formatLoop format.length format args
  let buffer ← buffer.write? 0 (out.take count)
  if count = 0 then some buffer
  else buffer.set? (if out.length < count then out.length else count - 1) 0

/-! The two prompts: a text, and the numeral `%u` puts out. -/

/-- The numeral `%u` puts out. -/
def decimal (v : ℕ) : Bytes := (ntoaDigits false 10 printfNtoaBufferSize v).reverse

/-- All characters of a prompt, before its display limit. -/
def promptText (label : Bytes) (v : UInt32) : Bytes := label ++ decimal v.toNat ++ ascii "?"

/-- The C string at the start of an area. -/
def cString {n : ℕ} (buffer : Buffer n) : Bytes := buffer.bytes.takeWhile (· ≠ 0)

theorem formatUnsigned_u (v : UInt32) : formatUnsigned 117 v 0 0 {} = decimal v.toNat := by
  simp [formatUnsigned, ntoaLong, ntoaFormat, padZeros, outRev, decimal]

theorem formatDirective_u (v : UInt32) :
    formatDirective (ascii "u?") [v] = some (decimal v.toNat, ascii "?", []) := by
  have h : formatDirective (ascii "u?") [v] = some (formatUnsigned 117 v 0 0 {}, ascii "?", []) :=
    rfl
  rw [h, formatUnsigned_u]

/-- Characters other than `%` are put out as they are. -/
theorem formatLoop_literal {text : Bytes} (h : ∀ c ∈ text, c ≠ 37) (rounds : ℕ) (format : Bytes)
    (args : List UInt32) :
    formatLoop (text.length + rounds) (text ++ format) args =
      (formatLoop rounds format args).map (text ++ ·) := by
  induction text with
  | nil => simp
  | cons c cs ih =>
    have hc : c ≠ 37 := h c List.mem_cons_self
    rw [List.length_cons, Nat.add_right_comm, List.cons_append, formatLoop, if_neg hc,
      ih fun d hd => h d (List.mem_cons_of_mem c hd), Option.map_map]
    rfl

theorem formatLoop_prompt {label : Bytes} (h : ∀ c ∈ label, c ≠ 37) (v : UInt32) :
    formatLoop (label ++ ascii "%u?").length (label ++ ascii "%u?") [v] =
      some (promptText label v) := by
  have hnumber : formatLoop 3 (ascii "%u?") [v] = some (decimal v.toNat ++ ascii "?") := by
    rw [show ascii "%u?" = 37 :: ascii "u?" from rfl, formatLoop, if_pos rfl, formatDirective_u]
    rfl
  rw [List.length_append, show (ascii "%u?").length = 3 from rfl, formatLoop_literal h, hnumber,
    Option.map_some, promptText, List.append_assoc]

/-- The digits of a numeral, least significant first. -/
def decimalDigits (v : ℕ) : List ℕ := if v = 0 then [0] else Nat.digits 10 v

theorem decimalDigits_step (v : ℕ) :
    decimalDigits v = v % 10 :: if v / 10 = 0 then [] else decimalDigits (v / 10) :=
  Radix.lowDigits_step (by norm_num)

theorem decimalDigits_lt {v d : ℕ} (hd : d ∈ decimalDigits v) : d < 10 :=
  Radix.lowDigits_lt (by norm_num) hd

/-- The digit loop stops at the end of the numeral or of its buffer. -/
theorem ntoaDigits_eq (room v : ℕ) :
    ntoaDigits false 10 room v = ((decimalDigits v).take room).map (ntoaDigit false) := by
  induction room generalizing v with
  | zero => rfl
  | succ room ih =>
    rw [ntoaDigits, decimalDigits_step, List.take_succ_cons, List.map_cons]
    by_cases hq : v / 10 = 0
    · rw [if_pos hq, if_pos hq, List.take_nil, List.map_nil]
    · rw [if_neg hq, if_neg hq, ih]

theorem decimal_eq (v : ℕ) :
    decimal v = ((decimalDigits v).take printfNtoaBufferSize).reverse.map (ntoaDigit false) := by
  rw [decimal, ntoaDigits_eq, List.map_reverse]

theorem ntoaDigit_toNat {d : ℕ} (hd : d < 10) : (ntoaDigit false d).toNat = 48 + d := by
  rw [ntoaDigit, if_pos hd, UInt8.toNat_ofNat_of_lt' (by simp only [UInt8.size]; omega)]

theorem decimal_char {v : ℕ} {c : UInt8} (hc : c ∈ decimal v) :
    48 ≤ c.toNat ∧ c.toNat < 58 := by
  rw [decimal_eq] at hc
  obtain ⟨d, hd, rfl⟩ := List.mem_map.mp hc
  have hlt := decimalDigits_lt (List.mem_of_mem_take (List.mem_reverse.mp hd))
  rw [ntoaDigit_toNat hlt]
  omega

theorem cString_eq {n : ℕ} {buffer : Buffer n} {text rest : Bytes}
    (h : buffer.bytes = text ++ [0] ++ rest) (htext : ∀ c ∈ text, c ≠ 0) :
    cString buffer = text := by
  rw [cString, h, List.append_assoc, List.takeWhile_append_of_pos (by simpa using htext),
    List.singleton_append, List.takeWhile_cons_of_neg (by simp), List.append_nil]

/-- The buffer holds the output up to the limit as a C string. -/
theorem iostSnprintf_cString {n : ℕ} (buffer : Buffer n) {count : ℕ} {format out : Bytes}
    {args : List UInt32} (hloop : formatLoop format.length format args = some out)
    (hpos : 0 < count) (hn : count ≤ n) (hout : ∀ c ∈ out, c ≠ 0) :
    ∃ b, iostSnprintf buffer count format args = some b ∧ cString b = out.take (count - 1) := by
  have hlen := List.length_take_le count out
  have hne : ∀ c ∈ out.take (count - 1), c ≠ 0 := fun c hc => hout c (List.mem_of_mem_take hc)
  have hwrite : buffer.write? 0 (out.take count) = some (buffer.splice 0 (out.take count)) :=
    Buffer.write?_of_le (by omega)
  have hbytes : (buffer.splice 0 (out.take count)).bytes = _ := Buffer.splice_bytes (by omega)
  rw [List.take_zero, List.nil_append, Nat.zero_add] at hbytes
  simp only [iostSnprintf, hloop, hwrite, Option.bind_eq_bind, Option.bind_some, if_neg hpos.ne']
  by_cases hfits : out.length < count
  · have hend : ((buffer.splice 0 (out.take count)).splice out.length [0]).bytes = _ :=
      Buffer.splice_bytes (by rw [List.length_singleton]; omega)
    rw [hbytes, List.take_of_length_le hfits.le, List.take_left] at hend
    rw [List.take_of_length_le (by omega)] at hne
    rw [if_pos hfits, List.take_of_length_le hfits.le, List.take_of_length_le (by omega),
      Buffer.set?_of_lt (by omega)]
    exact ⟨_, rfl, cString_eq hend hne⟩
  · have hcut : (out.take count).length = count := by
      rw [List.length_take]
      omega
    have hend : ((buffer.splice 0 (out.take count)).splice (count - 1) [0]).bytes = _ :=
      Buffer.splice_bytes (by rw [List.length_singleton]; omega)
    rw [hbytes, List.take_append_of_le_length (by omega), List.take_take,
      Nat.min_eq_left (Nat.sub_le count 1)] at hend
    rw [if_neg hfits, Buffer.set?_of_lt (by omega)]
    exact ⟨_, rfl, cString_eq hend hne⟩

theorem iostSnprintf_prompt {n : ℕ} (buffer : Buffer n) {label : Bytes}
    (hlabel : ∀ c ∈ label, c ≠ 37 ∧ c ≠ 0) (v : UInt32) (hn : displaySize ≤ n) :
    ∃ b, iostSnprintf buffer displaySize (label ++ ascii "%u?") [v] = some b ∧
      cString b = (promptText label v).take (displaySize - 1) := by
  refine iostSnprintf_cString buffer (formatLoop_prompt (fun c hc => (hlabel c hc).1) v)
    (by decide) hn fun c hc => ?_
  rw [promptText, List.mem_append, List.mem_append] at hc
  rcases hc with (hc | hc) | hc
  · exact (hlabel c hc).2
  · rintro rfl
    have h := (decimal_char hc).1
    simp at h
  · rw [show ascii "?" = [63] from rfl, List.mem_singleton] at hc
    simp [hc]

end IostLedger
