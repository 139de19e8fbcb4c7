import IostLedger.Bip32

/-! `io_read_bip32` on the caller's array, store by store: what it accepts, what it
leaves in the array, and which bytes it reads. -/
namespace IostLedger
open Memory Exec

/-- `uint32_t bip_32_path[BIP32_PATH_LENGTH]`. -/
abbrev PathArray := Vector UInt32 apduMaxSize

def PathArray.store (i : ℕ) (w : UInt32) : EStateM Fault PathArray Unit := do
  let words ← get
  if h : i < apduMaxSize then set (words.set i w) else throw .outOfRange

/-- `bip_32_path[i] |= (uint32_t) (*buffer << shift)`. -/
def PathArray.orByte {n : ℕ} (mem : Buffer n) (i buffer : ℕ) (shift : UInt32) :
    EStateM Fault PathArray Unit := do
  let v ← ofChecked (inRange (mem.get? buffer))
  let words ← get
  let w ← ofChecked (inRange words.toList[i]?)
  store i (w ||| v.toUInt32 <<< shift)

/-- The body of the word loop. -/
def storeWord {n : ℕ} (mem : Buffer n) (i buffer : ℕ) : EStateM Fault PathArray Unit := do
  PathArray.store i 0
  PathArray.orByte mem i buffer 0x18
  PathArray.orByte mem i (buffer + 1) 0x10
  PathArray.orByte mem i (buffer + 2) 0x08
  PathArray.orByte mem i (buffer + 3) 0x00

/-- The word loop; `remaining` is `bip_32_length - i`. -/
def storeWords {n : ℕ} (mem : Buffer n) :
    (remaining i buffer : ℕ) → EStateM Fault PathArray Unit
  | 0, _, _ => pure ()
  | remaining + 1, i, buffer => do
      storeWord mem i buffer
      storeWords mem remaining (i + 1) (buffer + 4)

/-- `io_read_bip32` with its third argument; `ioReadBip32` is the path it leaves there. -/
def ioReadBip32Into {n : ℕ} (mem : Buffer n) (buffer bufferLength : ℕ) :
    EStateM Fault PathArray ℕ := do
  let count ← ofChecked (inRange (mem.get? buffer))
  let bip32Length := count.toNat
  if (bip32Length < 1 ∨ bip32Length > apduMaxSize) ∨
      4 * bip32Length > (bufferLength + 2 ^ 32 - 1) % 2 ^ 32 then
    throwCode swWrongLength
  else do
    storeWords mem bip32Length 0 (buffer + 1)
    pure bip32Length

/-- The array with `words` laid over it from index `i` on. -/
def PathArray.Holds (words : List UInt32) (i : ℕ) (before after : PathArray) : Prop :=
  after.toList = before.toList.take i ++ words ++ before.toList.drop (i + words.length)

namespace PathArray
variable {n : ℕ} {mem : Buffer n} {words : PathArray}

theorem run_store {i : ℕ} {w : UInt32} (h : i < apduMaxSize) :
    (store i w).run words = .ok () (words.set i w) := by
  simp [store, h, EStateM.run_bind]

theorem run_orByte {i buffer : ℕ} {v : UInt8} {w shift : UInt32} (h : i < apduMaxSize)
    (hv : mem.get? buffer = some v) :
    (orByte mem i buffer shift).run (words.set i w) =
      .ok () (words.set i (w ||| v.toUInt32 <<< shift)) := by
  simp [orByte, EStateM.run_bind, hv, run_store h]

/-- The five stores of one round leave the word of the four bytes. -/
theorem run_storeWord {i buffer : ℕ} {a b c d : UInt8} (h : i < apduMaxSize)
    (ha : mem.get? buffer = some a) (hb : mem.get? (buffer + 1) = some b)
    (hc : mem.get? (buffer + 2) = some c) (hd : mem.get? (buffer + 3) = some d) :
    (storeWord mem i buffer).run words = .ok () (words.set i (beWord a b c d)) := by
  simp only [storeWord, EStateM.run_bind, run_store h, run_orByte h ha, run_orByte h hb,
    run_orByte h hc, run_orByte h hd]
  simp [beWord]

theorem Holds.nil {i : ℕ} : Holds [] i words words := by
  simp [Holds]

/-- A word at index `i` followed by the rest from `i + 1` on. -/
theorem Holds.cons {i : ℕ} {w : UInt32} {ws : List UInt32} {after : PathArray}
    (h : i < apduMaxSize) (hrest : Holds ws (i + 1) (words.set i w) after) :
    Holds (w :: ws) i words after := by
  have hi : i < words.toList.length := by simpa using h
  have htake : (words.set i w).toList.take (i + 1) = words.toList.take i ++ [w] := by
    rw [List.take_add_one, Vector.toList_set, List.take_set_of_le le_rfl,
      List.getElem?_set_self hi]
    rfl
  have hdrop : (words.set i w).toList.drop (i + 1 + ws.length) =
      words.toList.drop (i + (w :: ws).length) := by
    rw [Vector.toList_set, List.drop_set_of_lt (by omega), List.length_cons]
    congr 1
    omega
  unfold Holds at hrest ⊢
  rw [hrest, htake, hdrop]
  simp

theorem Holds.unique {path : List UInt32} {i : ℕ} {after after' : PathArray}
    (h : Holds path i words after) (h' : Holds path i words after') : after = after' := by
  apply Vector.toList_inj.mp
  exact h.trans h'.symm

end PathArray

section Reader
variable {n : ℕ} {mem : Buffer n} {buffer bufferLength : ℕ} {before : PathArray}

/-- The loop stores the words that are read, one after the other. -/
theorem run_storeWords {count i : ℕ} {path : List UInt32} (hfit : i + count ≤ apduMaxSize)
    (hread : readWords mem count buffer = .ok path) :
    ∃ after, (storeWords mem count i buffer).run before = .ok () after ∧
      PathArray.Holds path i before after := by
  induction count generalizing i buffer path before with
  | zero =>
    obtain rfl : [] = path := by simpa [readWords] using hread
    exact ⟨before, rfl, PathArray.Holds.nil⟩
  | succ count ih =>
    have hi : i < apduMaxSize := by omega
    obtain ⟨a, b, c, d, rest, ha, hb, hc, hd, hrest, rfl⟩ := readWords_succ hread
    obtain ⟨after, hrun, hholds⟩ :=
      @ih (buffer + 4) (before.set i (beWord a b c d)) (i + 1) rest (by omega) hrest
    refine ⟨after, ?_, hholds.cons hi⟩
    simp only [storeWords, EStateM.run_bind, PathArray.run_storeWord hi ha hb hc hd, hrun]

/-- The reader leaves in the array the path that is read. -/
theorem run_ioReadBip32Into {path : List UInt32}
    (hread : ioReadBip32 mem buffer bufferLength = .ok path) :
    ∃ after, (ioReadBip32Into mem buffer bufferLength).run before = .ok path.length after ∧
      PathArray.Holds path 0 before after := by
  cases hget : mem.get? buffer with
  | none => simp [ioReadBip32, hget, bind, Except.bind] at hread
  | some count =>
    by_cases hbad : (count.toNat < 1 ∨ count.toNat > apduMaxSize) ∨
        4 * count.toNat > (bufferLength + 2 ^ 32 - 1) % 2 ^ 32
    · simp only [ioReadBip32, hget, inRange_some, bind, Except.bind, if_pos hbad] at hread
      cases hread
    · simp only [ioReadBip32, hget, inRange_some, bind, Except.bind, if_neg hbad] at hread
      have hle : 0 + count.toNat ≤ apduMaxSize := by
        simp only [apduMaxSize] at hbad ⊢
        omega
      obtain ⟨after, hrun, hholds⟩ := @run_storeWords _ _ _ before _ _ _ hle hread
      refine ⟨after, ?_, hholds⟩
      simp only [ioReadBip32Into, EStateM.run_bind, hget, inRange_some, run_ofChecked_ok,
        if_neg hbad, hrun, EStateM.run_pure, readWords_length hread]

/-- Whatever the array and the bytes, the stores can only fail by leaving an object. -/
theorem store_wp (i : ℕ) (w : UInt32) (words : PathArray) :
    Wp (PathArray.store i w) (fun _ _ => True) (fun e _ => e = .outOfRange) words := by
  unfold PathArray.store
  simp only [wp_bind, wp_get]
  split <;> simp

theorem orByte_wp (i buffer : ℕ) (shift : UInt32) (words : PathArray) :
    Wp (PathArray.orByte mem i buffer shift) (fun _ _ => True) (fun e _ => e = .outOfRange)
      words := by
  unfold PathArray.orByte
  simp only [wp_bind, wp_get, wp_ofChecked]
  constructor
  · intro v hv
    constructor
    · intro w hw
      exact store_wp i _ words
    · intro e he
      exact inRange_eq_error he
  · intro e he
    exact inRange_eq_error he

theorem storeWord_wp (i buffer : ℕ) (words : PathArray) :
    Wp (storeWord mem i buffer) (fun _ _ => True) (fun e _ => e = .outOfRange) words := by
  unfold storeWord
  simp only [wp_bind]
  apply (store_wp i 0 words).mono _ fun _ _ he => he
  intro _ words _
  apply (orByte_wp i buffer 0x18 words).mono _ fun _ _ he => he
  intro _ words _
  apply (orByte_wp i (buffer + 1) 0x10 words).mono _ fun _ _ he => he
  intro _ words _
  apply (orByte_wp i (buffer + 2) 0x08 words).mono _ fun _ _ he => he
  intro _ words _
  exact orByte_wp i (buffer + 3) 0x00 words

theorem storeWords_wp (count i : ℕ) (words : PathArray) :
    Wp (storeWords mem count i buffer) (fun _ _ => True) (fun e _ => e = .outOfRange) words := by
  induction count generalizing i buffer words with
  | zero => simp [storeWords]
  | succ count ih =>
    simp only [storeWords, wp_bind]
    apply (storeWord_wp i buffer words).mono _ fun _ _ he => he
    intro _ words _
    exact ih (i + 1) words

/-- A count in range never makes the reader throw when the given length is zero: the bound
has wrapped. -/
theorem ioReadBip32Into_zero {count : UInt8} (hget : mem.get? buffer = some count)
    (hpos : 1 ≤ count.toNat) (hle : count.toNat ≤ apduMaxSize) (code : UInt16)
    (after : PathArray) :
    (ioReadBip32Into mem buffer 0).run before ≠ .error (.thrown code) after := by
  have hgood : ¬ ((count.toNat < 1 ∨ count.toNat > apduMaxSize) ∨
      4 * count.toNat > (0 + 2 ^ 32 - 1) % 2 ^ 32) := by
    simp only [apduMaxSize] at hle ⊢
    omega
  have hrun : Wp (ioReadBip32Into mem buffer 0) (fun _ _ => True)
      (fun e _ => e = .outOfRange) before := by
    unfold ioReadBip32Into
    simp only [hget, inRange_some, wp_bind, wp_ofChecked_ok, if_neg hgood, wp_pure]
    exact (storeWords_wp count.toNat 0 before).mono (fun _ _ _ => trivial) fun _ _ he => he
  intro herror
  have habsurd := (wp_of_run_error herror).mp hrun
  cases habsurd

/-- A bad count or a path that leaves the given length is refused, the array untouched. -/
theorem ioReadBip32Into_refused {count : UInt8} (hget : mem.get? buffer = some count)
    (hlen : bufferLength < 2 ^ 16)
    (hbad : count.toNat < 1 ∨ apduMaxSize < count.toNat ∨
      (1 ≤ bufferLength ∧ bufferLength < 1 + 4 * count.toNat)) :
    (ioReadBip32Into mem buffer bufferLength).run before =
      .error (.thrown swWrongLength) before := by
  have htest : (count.toNat < 1 ∨ count.toNat > apduMaxSize) ∨
      4 * count.toNat > (bufferLength + 2 ^ 32 - 1) % 2 ^ 32 := by
    simp only [apduMaxSize] at hbad ⊢
    omega
  simp only [ioReadBip32Into, EStateM.run_bind, hget, inRange_some, run_ofChecked_ok,
    if_pos htest, run_throwCode]

/-- Where the longest path is in range every access is, and at most five words are stored. -/
theorem ioReadBip32Into_inRange (hfit : buffer + 21 ≤ n) :
    Wp (ioReadBip32Into mem buffer bufferLength) (fun count _ => count ≤ apduMaxSize)
      (fun fault _ => fault = .thrown swWrongLength) before := by
  obtain ⟨count, hget, -⟩ := Buffer.get?_eq_some (b := mem) (show buffer < n by omega)
  by_cases hbad : (count.toNat < 1 ∨ count.toNat > apduMaxSize) ∨
      4 * count.toNat > (bufferLength + 2 ^ 32 - 1) % 2 ^ 32
  · have hrefused : (ioReadBip32Into mem buffer bufferLength).run before =
        .error (.thrown swWrongLength) before := by
      simp only [ioReadBip32Into, EStateM.run_bind, hget, inRange_some, run_ofChecked_ok,
        if_pos hbad, run_throwCode]
    exact (wp_of_run_error hrefused).mpr rfl
  · have hle : count.toNat ≤ apduMaxSize := by omega
    obtain ⟨path, hlen, hwords⟩ := @readWords_ok _ mem count.toNat (buffer + 1)
      (by simp only [apduMaxSize] at hle; omega)
    have hread : ioReadBip32 mem buffer bufferLength = .ok path := by
      simp only [ioReadBip32, hget, inRange_some, bind, Except.bind, if_neg hbad, hwords]
    obtain ⟨after, hrun, -⟩ := @run_ioReadBip32Into _ _ _ _ before _ hread
    exact (wp_of_run_ok hrun).mpr (by omega)

end Reader

/-- The count byte and its words lie inside the given length. -/
def PathFits (count len : ℕ) : Prop :=
  1 ≤ len ∧ 1 ≤ count ∧ count ≤ 5 ∧ 1 + 4 * count ≤ len

/-- The count byte of the bytes from `buffer` on. -/
def countAt {n : ℕ} (mem : Buffer n) (buffer : ℕ) : ℕ := (mem.bytes.getD buffer 0).toNat

/-- What the reader of a path is for: exactly the encoded paths inside the given length are
accepted, everything else is refused with the array untouched. -/
structure ReadsExactly {n : ℕ} (mem : Buffer n) (buffer : ℕ) (len : UInt16)
    (before : PathArray) : Prop where
  accepts : PathFits (countAt mem buffer) len.toNat ↔
    ∃ count after, (ioReadBip32Into mem buffer len.toNat).run before = .ok count after
  refuses : ¬ PathFits (countAt mem buffer) len.toNat →
    (ioReadBip32Into mem buffer len.toNat).run before = .error (.thrown swWrongLength) before
  words : ∀ count after, (ioReadBip32Into mem buffer len.toNat).run before = .ok count after →
    count = countAt mem buffer ∧ ∃ path : List UInt32, path.length = count ∧
      PathArray.Holds path 0 before after ∧
      (mem.bytes.drop buffer).take (1 + 4 * count) = bufferFromBip32 path
  /-- The same run on the given bytes alone: no byte behind them is read. -/
  inside : ∀ count after, (ioReadBip32Into mem buffer len.toNat).run before = .ok count after →
    ∀ given : Buffer len.toNat, given.bytes = (mem.bytes.drop buffer).take len.toNat →
      (ioReadBip32Into given 0 len.toNat).run before = .ok count after
  inverts : ∀ path suffix, ValidPath path →
    (mem.bytes.drop buffer).take len.toNat = bufferFromBip32 path ++ suffix →
    ∃ after, (ioReadBip32Into mem buffer len.toNat).run before = .ok path.length after ∧
      PathArray.Holds path 0 before after

section Exact
variable {n : ℕ} {mem : Buffer n} {buffer : ℕ} {len : UInt16} {before : PathArray}

theorem get?_countAt (h : buffer < n) :
    mem.get? buffer = some (mem.bytes.getD buffer 0) := by
  obtain ⟨v, hv, hbytes⟩ := Buffer.get?_eq_some (b := mem) h
  rw [hv, List.getD, hbytes]
  rfl

/-- A path inside the given length is the start of the memory, and it is read. -/
theorem PathFits.exists_path (hfit : buffer + len.toNat ≤ n)
    (h : PathFits (countAt mem buffer) len.toNat) :
    ∃ path rest, path.length = countAt mem buffer ∧ ValidPath path ∧
      mem.bytes.drop buffer = bufferFromBip32 path ++ rest ∧
      ioReadBip32 mem buffer len.toNat = .ok path := by
  obtain ⟨hlen, hpos, hle, hinside⟩ := h
  have hbuffer : buffer < n := by omega
  have hroom : 4 * countAt mem buffer ≤ (mem.bytes.drop (buffer + 1)).length := by
    rw [List.length_drop, Buffer.size_eq]
    omega
  obtain ⟨path, hplen, hwords⟩ := exists_words hroom
  have hvalid : ValidPath path := ⟨by omega, by omega⟩
  have hfirst : mem.bytes.drop buffer =
      mem.bytes.getD buffer 0 :: mem.bytes.drop (buffer + 1) := by
    have hlt : buffer < mem.bytes.length := by simpa using hbuffer
    rw [List.drop_eq_getElem_cons hlt, List.getD, List.getElem?_eq_getElem hlt]
    rfl
  have hsplit : mem.bytes.drop buffer = bufferFromBip32 path ++
      (mem.bytes.drop (buffer + 1)).drop (4 * countAt mem buffer) := by
    rw [bufferFromBip32, List.cons_append, ← hwords, hfirst, hplen, countAt, UInt8.ofNat_toNat]
  refine ⟨path, _, hplen, hvalid, hsplit, ?_⟩
  rw [ioReadBip32_eq hvalid len.toNat_lt hsplit, if_pos (Or.inr (by omega))]

/-- The given bytes start with an encoded path exactly when one fits there. -/
theorem PathFits.of_encoded {path : List UInt32} {suffix : Bytes} (hp : ValidPath path)
    (h : (mem.bytes.drop buffer).take len.toNat = bufferFromBip32 path ++ suffix) :
    countAt mem buffer = path.length ∧ PathFits (countAt mem buffer) len.toNat := by
  have hlength := congrArg List.length h
  rw [List.length_take, List.length_append, bufferFromBip32_length] at hlength
  have hget := congrArg List.head? h
  have hpos := hp.pos
  have hle := hp.le
  have hlen : len.toNat ≠ 0 := by omega
  rw [List.head?_take, if_neg hlen, List.head?_drop] at hget
  have hcount : countAt mem buffer = path.length := by
    rw [countAt, List.getD, hget]
    exact UInt8.toNat_ofNat_of_lt' (by simp [UInt8.size]; omega)
  refine ⟨hcount, ?_⟩
  rw [hcount]
  exact ⟨by omega, hpos, hle, by omega⟩

theorem ReadsExactly.of_fits (hfit : buffer + len.toNat ≤ n)
    (h : PathFits (countAt mem buffer) len.toNat) : ReadsExactly mem buffer len before := by
  obtain ⟨path, rest, hplen, hvalid, hsplit, hread⟩ := h.exists_path hfit
  obtain ⟨after, hrun, hholds⟩ := @run_ioReadBip32Into _ _ _ _ before _ hread
  have hsame {count : ℕ} {after' : PathArray}
      (hrun' : (ioReadBip32Into mem buffer len.toNat).run before = .ok count after') :
      path.length = count ∧ after = after' := by
    have hboth := hrun.symm.trans hrun'
    simpa using hboth
  have htake : (mem.bytes.drop buffer).take (1 + 4 * path.length) = bufferFromBip32 path := by
    rw [hsplit, ← bufferFromBip32_length, List.take_left]
  constructor
  · constructor
    · intro _
      exact ⟨path.length, after, hrun⟩
    · intro _
      exact h
  · intro hnot
    exact absurd h hnot
  · intro count after' hrun'
    obtain ⟨rfl, rfl⟩ := hsame hrun'
    exact ⟨hplen, path, rfl, hholds, htake⟩
  · intro count after' hrun' given hgiven
    obtain ⟨rfl, rfl⟩ := hsame hrun'
    have hgivenread : ioReadBip32 given 0 len.toNat = .ok path := by
      have hbytes : given.bytes.drop 0 = bufferFromBip32 path ++
          rest.take (len.toNat - (bufferFromBip32 path).length) := by
        rw [List.drop_zero, hgiven, hsplit, List.take_append, List.take_of_length_le]
        rw [bufferFromBip32_length, hplen]
        exact h.2.2.2
      rw [ioReadBip32_eq hvalid len.toNat_lt hbytes, if_pos]
      right
      rw [hplen]
      exact h.2.2.2
    obtain ⟨after', hrun'', hholds'⟩ := @run_ioReadBip32Into _ _ _ _ before _ hgivenread
    rw [hrun'', hholds'.unique hholds]
  · intro path' suffix hvalid' hbytes
    obtain ⟨hcount, -⟩ := PathFits.of_encoded hvalid' hbytes
    have hpath : path = path' := by
      have hpre := congrArg (List.take (1 + 4 * path.length)) hbytes
      rw [List.take_take, Nat.min_eq_left (by rw [hplen]; exact h.2.2.2), htake,
        hplen, hcount, ← bufferFromBip32_length, List.take_left] at hpre
      exact (@bufferFromBip32_append_inj _ _ hvalid hvalid' [] [] (by simpa using hpre)).1
    subst hpath
    exact ⟨after, hrun, hholds⟩

/-- A refused reading meets every promise, as no path fits. -/
theorem ReadsExactly.of_refused (hnot : ¬ PathFits (countAt mem buffer) len.toNat)
    (hrun : (ioReadBip32Into mem buffer len.toNat).run before =
      .error (.thrown swWrongLength) before) : ReadsExactly mem buffer len before := by
  have hnone {count : ℕ} {after : PathArray} :
      (ioReadBip32Into mem buffer len.toNat).run before ≠ .ok count after := by
    rw [hrun]
    intro h
    cases h
  constructor
  · constructor
    · intro h
      exact absurd h hnot
    · rintro ⟨count, after, h⟩
      exact absurd h hnone
  · intro _
    exact hrun
  · intro count after h
    exact absurd h hnone
  · intro count after h
    exact absurd h hnone
  · intro path suffix hp h
    exact absurd (PathFits.of_encoded hp h).2 hnot

/-- With nothing given and a count in range the bound has wrapped: no length error comes. -/
theorem ReadsExactly.not_wrapped (hbuffer : buffer < n) (hpos : 1 ≤ countAt mem buffer)
    (hle : countAt mem buffer ≤ 5) : ¬ ReadsExactly mem buffer 0 before := by
  intro h
  have hrefused := h.refuses fun hf => absurd hf.1 (by simp)
  exact ioReadBip32Into_zero (get?_countAt hbuffer) hpos hle _ _ hrefused

/-- The reader is exact unless nothing is given and the byte found there is a count in
range: then the bound `buffer_length - 1` has wrapped, and the words behind are read. -/
theorem readsExactly_iff (hbuffer : buffer < n) (hfit : buffer + len.toNat ≤ n) :
    ReadsExactly mem buffer len before ↔
      ¬ (len = 0 ∧ 1 ≤ countAt mem buffer ∧ countAt mem buffer ≤ 5) := by
  constructor
  · rintro h ⟨rfl, hpos, hle⟩
    exact ReadsExactly.not_wrapped hbuffer hpos hle h
  · intro hcond
    by_cases hf : PathFits (countAt mem buffer) len.toNat
    · exact .of_fits hfit hf
    · apply ReadsExactly.of_refused hf
      apply ioReadBip32Into_refused (get?_countAt hbuffer) len.toNat_lt
      by_cases hzero : len = 0
      · simp only [hzero, true_and, countAt, apduMaxSize] at hcond ⊢
        omega
      · have hpos : len.toNat ≠ 0 := fun h => hzero (UInt16.toNat_inj.mp h)
        simp only [PathFits, countAt, apduMaxSize] at hf ⊢
        omega

/-- `G_io_apdu_buffer` with the bytes `01 80 00 00 2C` of a path where the data starts. -/
def leftoverPath : Buffer ioApduBufferSize :=
  (Buffer.zero ioApduBufferSize).splice offsetCdata [1, 0x80, 0, 0, 0x2C]

theorem readsExactly_iff_leftover :
    offsetCdata < ioApduBufferSize ∧ offsetCdata + (5 : UInt16).toNat ≤ ioApduBufferSize ∧
      (ReadsExactly leftoverPath offsetCdata 5 (Vector.replicate _ 0) ↔
        ¬ ((5 : UInt16) = 0 ∧ 1 ≤ countAt leftoverPath offsetCdata ∧
          countAt leftoverPath offsetCdata ≤ 5)) :=
  ⟨by decide, by decide, readsExactly_iff (by decide) (by decide)⟩

/-- Over a leftover path the reader accepts the empty input. -/
theorem readsExactly_fails :
    ¬ ∀ (mem : Buffer ioApduBufferSize) (len : UInt16) (before : PathArray),
      offsetCdata + len.toNat ≤ ioApduBufferSize → ReadsExactly mem offsetCdata len before := by
  intro hall
  have hcount : countAt leftoverPath offsetCdata = 1 := by decide +kernel
  have hread := hall leftoverPath 0 (Vector.replicate _ 0) (by decide)
  exact ReadsExactly.not_wrapped (by decide) hcount.ge (hcount.le.trans (by decide)) hread

end Exact

end IostLedger
