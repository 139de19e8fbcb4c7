import IostLedger.Device

/-! `io_read_bip32` and the host encoding of a path that it reads. -/
namespace IostLedger
open Memory Exec

/-- The word assembled from four bytes, most significant first. -/
def beWord (a b c d : UInt8) : UInt32 :=
  a.toUInt32 <<< 24 ||| b.toUInt32 <<< 16 ||| c.toUInt32 <<< 8 ||| d.toUInt32

/-- The word loop of `io_read_bip32`; `count` words are left to read at `buffer`. -/
def readWords {n : ℕ} (mem : Buffer n) : (count buffer : ℕ) → Checked (List UInt32)
  | 0, _ => .ok []
  | count + 1, buffer => do
      let a ← inRange (mem.get? buffer)
      let b ← inRange (mem.get? (buffer + 1))
      let c ← inRange (mem.get? (buffer + 2))
      let d ← inRange (mem.get? (buffer + 3))
      let rest ← readWords mem count (buffer + 4)
      .ok (beWord a b c d :: rest)

/-- `io_read_bip32` on the memory from `buffer` on. The bound on the words compares a
`size_t` with the `int` difference `buffer_length - 1`, which wraps at zero. -/
def ioReadBip32 {n : ℕ} (mem : Buffer n) (buffer bufferLength : ℕ) : Checked (List UInt32) := do
  let count ← inRange (mem.get? buffer)
  let bip32Length := count.toNat
  if (bip32Length < 1 ∨ bip32Length > apduMaxSize) ∨
      4 * bip32Length > (bufferLength + 2 ^ 32 - 1) % 2 ^ 32 then
    .error (.thrown swWrongLength)
  else readWords mem bip32Length (buffer + 1)

/-- `writeUInt32BE` of the host. -/
def be32 (w : UInt32) : Bytes :=
  [(w >>> 24).toUInt8, (w >>> 16).toUInt8, (w >>> 8).toUInt8, w.toUInt8]

/-- `bufferFromBip32` of the host: a count byte and the words. -/
def bufferFromBip32 (path : List UInt32) : Bytes := UInt8.ofNat path.length :: path.flatMap be32

/-- The paths the application accepts. -/
structure ValidPath (path : List UInt32) : Prop where
  pos : 1 ≤ path.length
  le : path.length ≤ 5

theorem beWord_toNat (a b c d : UInt8) : (beWord a b c d).toNat =
    2 ^ 24 * a.toNat + 2 ^ 16 * b.toNat + 2 ^ 8 * c.toNat + d.toNat := by
  have ha := a.toNat_lt
  have hb := b.toNat_lt
  have hc := c.toNat_lt
  have hd := d.toNat_lt
  have h1 : (a.toUInt32 <<< 24).toNat = 2 ^ 24 * a.toNat := by
    simp only [UInt32.toNat_shiftLeft, UInt8.toNat_toUInt32, Nat.shiftLeft_eq, UInt32.reduceToNat,
      Nat.reduceMod]
    omega
  have h2 : (b.toUInt32 <<< 16).toNat = 2 ^ 16 * b.toNat := by
    simp only [UInt32.toNat_shiftLeft, UInt8.toNat_toUInt32, Nat.shiftLeft_eq, UInt32.reduceToNat,
      Nat.reduceMod]
    omega
  have h3 : (c.toUInt32 <<< 8).toNat = 2 ^ 8 * c.toNat := by
    simp only [UInt32.toNat_shiftLeft, UInt8.toNat_toUInt32, Nat.shiftLeft_eq, UInt32.reduceToNat,
      Nat.reduceMod]
    omega
  rw [beWord, UInt32.toNat_or, UInt32.toNat_or, UInt32.toNat_or, h1, h2, h3,
    UInt8.toNat_toUInt32, ← Nat.two_pow_add_eq_or_of_lt (show 2 ^ 16 * b.toNat < 2 ^ 24 by omega),
    show 2 ^ 24 * a.toNat + 2 ^ 16 * b.toNat = 2 ^ 16 * (2 ^ 8 * a.toNat + b.toNat) by ring,
    ← Nat.two_pow_add_eq_or_of_lt (show 2 ^ 8 * c.toNat < 2 ^ 16 by omega),
    show 2 ^ 16 * (2 ^ 8 * a.toNat + b.toNat) + 2 ^ 8 * c.toNat =
      2 ^ 8 * (2 ^ 16 * a.toNat + 2 ^ 8 * b.toNat + c.toNat) by ring,
    ← Nat.two_pow_add_eq_or_of_lt (show d.toNat < 2 ^ 8 by omega)]

theorem beWord_be32 (w : UInt32) :
    beWord (w >>> 24).toUInt8 (w >>> 16).toUInt8 (w >>> 8).toUInt8 w.toUInt8 = w := by
  apply UInt32.toNat_inj.mp
  have hw := w.toNat_lt
  rw [beWord_toNat]
  simp only [UInt32.toNat_toUInt8, UInt32.toNat_shiftRight, UInt32.reduceToNat,
    Nat.shiftRight_eq_div_pow, Nat.reduceMod]
  omega

theorem be32_beWord (a b c d : UInt8) : be32 (beWord a b c d) = [a, b, c, d] := by
  have ha := a.toNat_lt
  have hb := b.toNat_lt
  have hc := c.toNat_lt
  have hd := d.toNat_lt
  have hbyte {x : UInt32} {y : UInt8} (h : x.toNat % 256 = y.toNat) : x.toUInt8 = y :=
    UInt8.toNat_inj.mp (by rw [UInt32.toNat_toUInt8]; exact h)
  rw [be32, hbyte (y := a), hbyte (y := b), hbyte (y := c), hbyte (y := d)] <;>
    simp only [UInt32.toNat_shiftRight, UInt32.reduceToNat, Nat.shiftRight_eq_div_pow,
      Nat.reduceMod, beWord_toNat] <;>
    omega

@[simp] theorem be32_length (w : UInt32) : (be32 w).length = 4 := rfl

theorem flatMap_be32_length (path : List UInt32) :
    (path.flatMap be32).length = 4 * path.length := by
  induction path with
  | nil => rfl
  | cons w ws ih =>
    rw [List.flatMap_cons, List.length_append, ih, be32_length, List.length_cons]
    omega

theorem bufferFromBip32_length (path : List UInt32) :
    (bufferFromBip32 path).length = 1 + 4 * path.length := by
  rw [bufferFromBip32, List.length_cons, flatMap_be32_length]
  omega

theorem flatMap_be32_inj {p q : List UInt32} {m m' : Bytes} (hlen : p.length = q.length)
    (h : p.flatMap be32 ++ m = q.flatMap be32 ++ m') : p = q ∧ m = m' := by
  induction p generalizing q with
  | nil =>
    obtain rfl := List.length_eq_zero_iff.mp hlen.symm
    exact ⟨rfl, h⟩
  | cons w ws ih =>
    obtain ⟨v, vs, rfl⟩ := List.exists_cons_of_length_eq_add_one hlen.symm
    simp only [List.flatMap_cons, be32, List.cons_append, List.nil_append, List.cons.injEq] at h
    obtain ⟨h0, h1, h2, h3, hrest⟩ := h
    obtain ⟨rfl, rfl⟩ := ih (Nat.succ.inj hlen) hrest
    refine ⟨?_, rfl⟩
    rw [← beWord_be32 w, h0, h1, h2, h3, beWord_be32]

/-- A byte string splits into a path and a message in at most one way. -/
theorem bufferFromBip32_append_inj {p q : List UInt32} (hp : ValidPath p) (hq : ValidPath q)
    {m m' : Bytes} (h : bufferFromBip32 p ++ m = bufferFromBip32 q ++ m') : p = q ∧ m = m' := by
  simp only [bufferFromBip32, List.cons_append, List.cons.injEq] at h
  have hlen := congrArg UInt8.toNat h.1
  rw [UInt8.toNat_ofNat_of_lt' (by have := hp.le; simp [UInt8.size]; omega),
    UInt8.toNat_ofNat_of_lt' (by have := hq.le; simp [UInt8.size]; omega)] at hlen
  exact flatMap_be32_inj hlen h.2

theorem readWords_eq {n : ℕ} {mem : Buffer n} {path : List UInt32} {buffer : ℕ} {rest : Bytes}
    (h : mem.bytes.drop buffer = path.flatMap be32 ++ rest) :
    readWords mem path.length buffer = .ok path := by
  induction path generalizing buffer with
  | nil => rfl
  | cons w ws ih =>
    rw [List.flatMap_cons, List.append_assoc] at h
    have hget (k : ℕ) : mem.get? (buffer + k) = (be32 w ++ (ws.flatMap be32 ++ rest))[k]? := by
      rw [Buffer.get?, ← h, List.getElem?_drop]
    have hnext : mem.bytes.drop (buffer + 4) = ws.flatMap be32 ++ rest := by
      rw [← List.drop_drop, h]
      rfl
    have h0 : mem.get? buffer = _ := hget 0
    simp only [List.length_cons, readWords, h0, hget 1, hget 2, hget 3, be32, List.cons_append,
      List.nil_append, List.getElem?_cons_zero, List.getElem?_cons_succ, inRange_some, bind,
      Except.bind, ih hnext, beWord_be32]

/-- On an encoded path the outcome depends on the given length alone: zero passes for
any path, and otherwise the words must lie inside the length. -/
theorem ioReadBip32_eq {n : ℕ} {mem : Buffer n} {path : List UInt32} (hp : ValidPath path)
    {buffer bufferLength : ℕ} (hlen : bufferLength < 2 ^ 16) {rest : Bytes}
    (h : mem.bytes.drop buffer = bufferFromBip32 path ++ rest) :
    ioReadBip32 mem buffer bufferLength =
      if bufferLength = 0 ∨ 1 + 4 * path.length ≤ bufferLength then .ok path
      else .error (.thrown swWrongLength) := by
  have hle := hp.le
  have hpos := hp.pos
  have hget : mem.get? buffer = some (UInt8.ofNat path.length) := by
    rw [Buffer.get?, ← Nat.add_zero buffer, ← List.getElem?_drop, h]
    rfl
  have hcount : (UInt8.ofNat path.length).toNat = path.length :=
    UInt8.toNat_ofNat_of_lt' (by simp [UInt8.size]; omega)
  have hwords : mem.bytes.drop (buffer + 1) = path.flatMap be32 ++ rest := by
    rw [← List.drop_drop, h]
    rfl
  have hiff : ((path.length < 1 ∨ path.length > apduMaxSize) ∨
      4 * path.length > (bufferLength + 2 ^ 32 - 1) % 2 ^ 32) ↔
      ¬ (bufferLength = 0 ∨ 1 + 4 * path.length ≤ bufferLength) := by
    simp only [apduMaxSize]
    omega
  simp only [ioReadBip32, hget, inRange_some, bind, Except.bind, hcount, hiff,
    readWords_eq hwords, ite_not]

theorem exists_words {l : Bytes} {k : ℕ} (h : 4 * k ≤ l.length) :
    ∃ path : List UInt32, path.length = k ∧ l = path.flatMap be32 ++ l.drop (4 * k) := by
  induction k generalizing l with
  | zero => exact ⟨[], rfl, rfl⟩
  | succ k ih =>
    obtain ⟨a, b, c, d, l, rfl⟩ : ∃ a b c d l', l = a :: b :: c :: d :: l' := by
      rcases l with - | ⟨a, - | ⟨b, - | ⟨c, - | ⟨d, l⟩⟩⟩⟩ <;>
        simp only [List.length_nil, List.length_cons] at h
      all_goals first | omega | exact ⟨a, b, c, d, l, rfl⟩
    obtain ⟨path, hlen, heq⟩ := ih (l := l) (by simp only [List.length_cons] at h; omega)
    refine ⟨beWord a b c d :: path, by simp [hlen], ?_⟩
    have hdrop : (a :: b :: c :: d :: l).drop (4 * (k + 1)) = l.drop (4 * k) := by
      rw [show 4 * (k + 1) = 4 * k + 4 by ring]
      rfl
    rw [List.flatMap_cons, be32_beWord, hdrop, List.append_assoc, ← heq]
    rfl

/-- A non-empty piece of memory either starts with a valid path, which is read, or is
refused with the status for a wrong length. -/
theorem ioReadBip32_cases {n : ℕ} {mem : Buffer n} {buffer bufferLength : ℕ}
    (hpos : 1 ≤ bufferLength) (hlen : bufferLength < 2 ^ 16)
    (hfit : buffer + bufferLength ≤ n) :
    (∃ path m, ValidPath path ∧
      (mem.bytes.drop buffer).take bufferLength = bufferFromBip32 path ++ m ∧
      ioReadBip32 mem buffer bufferLength = .ok path) ∨
    ((∀ path m, ValidPath path →
      (mem.bytes.drop buffer).take bufferLength ≠ bufferFromBip32 path ++ m) ∧
      ioReadBip32 mem buffer bufferLength = .error (.thrown swWrongLength)) := by
  let data := (mem.bytes.drop buffer).take bufferLength
  have hdata : data.length = bufferLength := by
    simp only [data, List.length_take, List.length_drop, Buffer.size_eq]
    omega
  have hmem : mem.bytes.drop buffer = data ++ mem.bytes.drop (buffer + bufferLength) := by
    rw [← List.drop_drop, List.take_append_drop]
  obtain ⟨count, words, hcons⟩ := List.exists_cons_of_length_pos (by omega : 0 < data.length)
  by_cases hok : (1 ≤ count.toNat ∧ count.toNat ≤ 5) ∧ 4 * count.toNat ≤ words.length
  · obtain ⟨path, hplen, hwords⟩ := exists_words hok.2
    have hp : ValidPath path := ⟨by omega, by omega⟩
    have hsplit : data = bufferFromBip32 path ++ words.drop (4 * count.toNat) := by
      rw [hcons, bufferFromBip32, List.cons_append, hplen, UInt8.ofNat_toNat, ← hwords]
    have hcap : 1 + 4 * path.length ≤ bufferLength := by
      rw [hcons, List.length_cons] at hdata
      omega
    refine Or.inl ⟨path, _, hp, hsplit, ?_⟩
    rw [hsplit, List.append_assoc] at hmem
    rw [ioReadBip32_eq hp hlen hmem, if_pos (Or.inr hcap)]
  · refine Or.inr ⟨?_, ?_⟩
    · intro path m hp hsplit
      apply hok
      change data = _ at hsplit
      rw [hcons, bufferFromBip32, List.cons_append, List.cons.injEq] at hsplit
      have hcount : count.toNat = path.length := by
        rw [hsplit.1]
        exact UInt8.toNat_ofNat_of_lt' (by have := hp.le; simp [UInt8.size]; omega)
      have hwlen := congrArg List.length hsplit.2
      rw [List.length_append, flatMap_be32_length] at hwlen
      exact ⟨⟨hcount ▸ hp.pos, hcount ▸ hp.le⟩, by omega⟩
    · have hget : mem.get? buffer = some count := by
        rw [Buffer.get?, ← Nat.add_zero buffer, ← List.getElem?_drop, hmem, hcons]
        rfl
      have hbad : (count.toNat < 1 ∨ count.toNat > apduMaxSize) ∨
          4 * count.toNat > (bufferLength + 2 ^ 32 - 1) % 2 ^ 32 := by
        rw [hcons, List.length_cons] at hdata
        simp only [apduMaxSize]
        omega
      simp only [ioReadBip32, hget, inRange_some, bind, Except.bind, if_pos hbad]

theorem readWords_congr {n : ℕ} {mem mem' : Buffer n} {count buffer : ℕ}
    (h : ∀ i < 4 * count, mem.get? (buffer + i) = mem'.get? (buffer + i)) :
    readWords mem count buffer = readWords mem' count buffer := by
  induction count generalizing buffer with
  | zero => rfl
  | succ count ih =>
    have hnext : readWords mem count (buffer + 4) = readWords mem' count (buffer + 4) := by
      apply ih
      intro i hi
      rw [Nat.add_assoc]
      exact h (4 + i) (by omega)
    have h0 : mem.get? buffer = mem'.get? buffer := h 0 (by omega)
    have h1 := h 1 (by omega)
    have h2 := h 2 (by omega)
    have h3 := h 3 (by omega)
    simp only [readWords, h0, h1, h2, h3, hnext]

/-- Of the memory only the given bytes are read, or up to 21 bytes when none are given. -/
theorem ioReadBip32_congr {n : ℕ} {mem mem' : Buffer n} {buffer bufferLength k : ℕ}
    (hlen : bufferLength < 2 ^ 16) (hk : bufferLength ≤ k) (hpos : 1 ≤ k)
    (hzero : bufferLength = 0 → 21 ≤ k)
    (h : ∀ i < k, mem.get? (buffer + i) = mem'.get? (buffer + i)) :
    ioReadBip32 mem buffer bufferLength = ioReadBip32 mem' buffer bufferLength := by
  have hcount : mem.get? buffer = mem'.get? buffer := h 0 hpos
  simp only [ioReadBip32, hcount]
  cases mem'.get? buffer with
  | none => rfl
  | some count =>
    simp only [inRange_some, bind, Except.bind]
    split_ifs with hbad
    · rfl
    · simp only [apduMaxSize] at hbad
      apply readWords_congr
      intro i hi
      rw [Nat.add_assoc]
      exact h (1 + i) (by omega)

theorem readWords_ok {n : ℕ} (mem : Buffer n) {count buffer : ℕ} (h : buffer + 4 * count ≤ n) :
    ∃ words, words.length = count ∧ readWords mem count buffer = .ok words := by
  induction count generalizing buffer with
  | zero => exact ⟨[], rfl, rfl⟩
  | succ count ih =>
    obtain ⟨words, hlen, hwords⟩ := @ih (buffer + 4) (by omega)
    obtain ⟨a, ha, -⟩ := Buffer.get?_eq_some (b := mem) (show buffer < n by omega)
    obtain ⟨b, hb, -⟩ := Buffer.get?_eq_some (b := mem) (show buffer + 1 < n by omega)
    obtain ⟨c, hc, -⟩ := Buffer.get?_eq_some (b := mem) (show buffer + 2 < n by omega)
    obtain ⟨d, hd, -⟩ := Buffer.get?_eq_some (b := mem) (show buffer + 3 < n by omega)
    refine ⟨beWord a b c d :: words, by rw [List.length_cons, hlen], ?_⟩
    simp only [readWords, ha, hb, hc, hd, inRange_some, bind, Except.bind, hwords]

theorem readWords_succ {n : ℕ} {mem : Buffer n} {count buffer : ℕ} {path : List UInt32}
    (h : readWords mem (count + 1) buffer = .ok path) :
    ∃ a b c d rest, mem.get? buffer = some a ∧ mem.get? (buffer + 1) = some b ∧
      mem.get? (buffer + 2) = some c ∧ mem.get? (buffer + 3) = some d ∧
      readWords mem count (buffer + 4) = .ok rest ∧ path = beWord a b c d :: rest := by
  cases ha : mem.get? buffer with
  | none => simp [readWords, ha, bind, Except.bind] at h
  | some a =>
  cases hb : mem.get? (buffer + 1) with
  | none => simp [readWords, ha, hb, bind, Except.bind] at h
  | some b =>
  cases hc : mem.get? (buffer + 2) with
  | none => simp [readWords, ha, hb, hc, bind, Except.bind] at h
  | some c =>
  cases hd : mem.get? (buffer + 3) with
  | none => simp [readWords, ha, hb, hc, hd, bind, Except.bind] at h
  | some d =>
  cases hrest : readWords mem count (buffer + 4) with
  | error e => simp [readWords, ha, hb, hc, hd, hrest, bind, Except.bind] at h
  | ok rest =>
    refine ⟨a, b, c, d, rest, rfl, rfl, rfl, rfl, rfl, ?_⟩
    simpa [readWords, ha, hb, hc, hd, hrest, bind, Except.bind] using h.symm

theorem readWords_length {n : ℕ} {mem : Buffer n} {count buffer : ℕ} {path : List UInt32}
    (h : readWords mem count buffer = .ok path) : path.length = count := by
  induction count generalizing buffer path with
  | zero =>
    obtain rfl : [] = path := by simpa [readWords] using h
    rfl
  | succ count ih =>
    obtain ⟨a, b, c, d, rest, -, -, -, -, hrest, rfl⟩ := readWords_succ h
    rw [List.length_cons, ih hrest]

/-- Where the longest path is in range, a path is read or the length is refused. -/
theorem ioReadBip32_ok_or {n : ℕ} (mem : Buffer n) {buffer : ℕ} (bufferLength : ℕ)
    (hfit : buffer + 21 ≤ n) :
    (∃ path, ValidPath path ∧
      (1 ≤ bufferLength → bufferLength < 2 ^ 16 → 1 + 4 * path.length ≤ bufferLength) ∧
      ioReadBip32 mem buffer bufferLength = .ok path) ∨
    ioReadBip32 mem buffer bufferLength = .error (.thrown swWrongLength) := by
  obtain ⟨count, hcount, -⟩ := Buffer.get?_eq_some (b := mem) (show buffer < n by omega)
  by_cases hbad : (count.toNat < 1 ∨ count.toNat > apduMaxSize) ∨
      4 * count.toNat > (bufferLength + 2 ^ 32 - 1) % 2 ^ 32
  · right
    simp only [ioReadBip32, hcount, inRange_some, bind, Except.bind, if_pos hbad]
  · left
    have hgood := hbad
    simp only [apduMaxSize] at hgood
    have hwords : ∃ words, words.length = count.toNat ∧
        readWords mem count.toNat (buffer + 1) = .ok words := readWords_ok mem (by omega)
    obtain ⟨path, hlen, hpath⟩ := hwords
    refine ⟨path, ⟨by omega, by omega⟩, fun h1 h2 => by omega, ?_⟩
    simp only [ioReadBip32, hcount, inRange_some, bind, Except.bind, if_neg hbad, hpath]

end IostLedger
