import IostLedger.Wrapper

/-! What the host takes for a response: `unwrapResponseAPDU` gives a message for exactly the data
that carries it in its reports, and `exchange` reads no report beyond them. -/
namespace IostLedger
open Framing

section Unwrapping
variable {channel k offset start : ℕ} {data m result : Bytes}

theorem append_prefix_iff {a b l : Bytes} : a ++ b <+: l ↔ a <+: l ∧ b <+: l.drop a.length := by
  constructor
  · rintro ⟨rest, rfl⟩
    rw [List.append_assoc, List.drop_left]
    exact ⟨List.prefix_append _ _, List.prefix_append _ _⟩
  · rintro ⟨⟨rest, rfl⟩, h⟩
    rw [List.drop_left] at h
    exact (List.prefix_append_right_inj a).mpr h

theorem unpackH_eq_ok {v : ℕ} (h : v < 2 ^ 16) :
    unpackH data offset = .ok v ↔ be16 v <+: data.drop offset := by
  unfold unpackH
  split
  next a b rest hdrop =>
    have ha := a.toNat_lt
    have hb := b.toNat_lt
    rw [hdrop, be16, List.cons_prefix_cons, List.cons_prefix_cons, Except.ok.injEq,
      ← UInt8.toNat_inj, ← UInt8.toNat_inj, UInt8.toNat_ofNat', UInt8.toNat_ofNat']
    simp only [List.nil_prefix, and_true]
    omega
  next hshort =>
    constructor
    · exact fun h => by cases h
    · rintro ⟨rest, hrest⟩
      exact absurd hrest.symm (hshort _ _ rest)

theorem byteAt_eq_ok {b : UInt8} : byteAt data offset = .ok b ↔ [b] <+: data.drop offset := by
  unfold byteAt
  split
  next a rest hdrop => simp [hdrop, List.cons_prefix_cons, eq_comm]
  next hdrop => simp [hdrop]

/-- The header of a report is read where it stands. -/
theorem readHeader_iff (hchannel : channel < 2 ^ 16) (hk : k < 2 ^ 16) :
    readHeader channel data k offset = .ok start ↔
      be16 channel ++ [tagApdu] ++ be16 k <+: data.drop offset ∧ start = offset + 5 := by
  rw [readHeader_eq_ok, unpackH_eq_ok hchannel, byteAt_eq_ok, unpackH_eq_ok hk, append_prefix_iff,
    append_prefix_iff, List.drop_drop, List.drop_drop]
  simp only [List.length_append, be16_length, List.length_singleton, and_assoc]

/-- The first `j` reports of a message, whatever they are filled up with. -/
def Received (channel : ℕ) (m data : Bytes) (j : ℕ) : Prop :=
  ∀ i < j, body channel m i <+: data.drop (ioHidEpLength * i)

theorem Received.header {j i : ℕ} (h : Received channel m data j) (hi : i < j) :
    be16 channel ++ [tagApdu] ++ be16 i <+: data.drop (ioHidEpLength * i) := by
  have hbody := h i hi
  rw [body, reportHeader, List.append_assoc, List.append_assoc] at hbody
  exact (List.prefix_append _ _).trans hbody

/-- A round of the loop that finds a header. -/
theorem unwrapLoop_round {len : ℕ} (hmore : result.length ≠ len) (hend : offset ≠ data.length)
    (hread : readHeader channel data (k + 1) offset = .ok start) :
    unwrapLoop channel data len k offset result =
      let blockSize := if ioHidEpLength - 5 < len - result.length then ioHidEpLength - 5
        else len - result.length
      unwrapLoop channel data len (k + 1) (start + blockSize)
        (result ++ (data.drop start).take blockSize) := by
  rw [unwrapLoop, if_neg hmore, if_neg hend]
  split
  next e he =>
    rw [hread] at he
    cases he
  next start' hstart =>
    rw [hread] at hstart
    cases hstart
    rfl

/-- One round of the loop takes the next report. -/
theorem unwrapLoop_step (hchannel : channel < 2 ^ 16) (hlen : m.length < 2 ^ 16)
    (h : k + 1 < hidLayout.count m.length)
    (hbody : body channel m (k + 1) <+: data.drop (ioHidEpLength * (k + 1))) :
    unwrapLoop channel data m.length k (ioHidEpLength * (k + 1))
        (m.take (hidLayout.offset (k + 1))) =
      unwrapLoop channel data m.length (k + 1)
        (ioHidEpLength * (k + 1) + (body channel m (k + 1)).length)
        (m.take (hidLayout.offset (k + 2))) := by
  have hoffset := Layout.offset_lt h
  have hself := hidLayout.le_offset_self (k + 1)
  obtain ⟨hpos, -⟩ := body_length_le channel m (k + 1)
  have hbody' : be16 channel ++ [tagApdu] ++ be16 (k + 1) ++ hidLayout.piece m (k + 1) <+:
      data.drop (ioHidEpLength * (k + 1)) := hbody
  rw [append_prefix_iff, List.drop_drop] at hbody'
  obtain ⟨hheader, hpiece⟩ := hbody'
  have hread : readHeader channel data (k + 1) (ioHidEpLength * (k + 1)) = .ok _ :=
    (readHeader_iff hchannel (by omega)).mpr ⟨hheader, rfl⟩
  have htaken : (m.take (hidLayout.offset (k + 1))).length = hidLayout.offset (k + 1) := by
    rw [List.length_take, Nat.min_eq_left hoffset.le]
  have hnotend : ioHidEpLength * (k + 1) ≠ data.length := by
    have hle := hbody.length_le
    rw [List.length_drop] at hle
    omega
  rw [unwrapLoop_round (by omega) hnotend hread]
  dsimp only
  rw [htaken, blockSize_eq, hidLayout.take_offset_succ m (k + 1)]
  congr 1
  · rw [body_length]
    change _ = _ + (5 + _)
    omega
  · exact congrArg (m.take _ ++ ·) (List.prefix_iff_eq_take.mp hpiece).symm

/-- Where a report that is not the last ends. -/
theorem body_end (channel : ℕ) (h : k + 1 < hidLayout.count m.length) :
    ioHidEpLength * k + (body channel m k).length = ioHidEpLength * (k + 1) := by
  rw [← report_of_full h, report_length]
  rfl

/-- The loop over all reports. -/
theorem unwrapLoop_complete (hchannel : channel < 2 ^ 16) (hlen : m.length < 2 ^ 16)
    (hreceived : Received channel m data (hidLayout.count m.length)) (k : ℕ) :
    k < hidLayout.count m.length → ∀ offset : ℕ,
      (k + 1 < hidLayout.count m.length → offset = ioHidEpLength * (k + 1)) →
        unwrapLoop channel data m.length k offset (m.take (hidLayout.offset (k + 1))) =
          .ok (some m) := by
  induction k using @Layout.framesFrom_induction hidLayout m.length with
  | hend k h => exact fun hk => absurd hk (by omega)
  | hframe k h ih =>
    intro _ offset hoffset
    by_cases hmore : k + 1 < hidLayout.count m.length
    · obtain rfl := hoffset hmore
      rw [unwrapLoop_step hchannel hlen hmore (hreceived (k + 1) hmore)]
      exact ih hmore _ fun hnext => body_end channel hnext
    · have hle := Layout.le_offset (Nat.le_of_not_lt hmore)
      rw [List.take_of_length_le hle, unwrapLoop, if_pos rfl]

/-- The loop over the first reports only. -/
theorem unwrapLoop_waits (hchannel : channel < 2 ^ 16) (hlen : m.length < 2 ^ 16) {j : ℕ}
    (hreceived : Received channel m data j) (hj : j < hidLayout.count m.length)
    (hdata : data.length = ioHidEpLength * j) (k : ℕ) :
    k < j → unwrapLoop channel data m.length k (ioHidEpLength * (k + 1))
      (m.take (hidLayout.offset (k + 1))) = .ok none := by
  induction k using @Layout.framesFrom_induction hidLayout m.length with
  | hend k h => exact fun hk => absurd hk (by omega)
  | hframe k h ih =>
    intro hk
    by_cases hmore : k + 1 < j
    · rw [unwrapLoop_step hchannel hlen (by omega) (hreceived (k + 1) hmore), body_end channel
        (by omega)]
      exact ih hmore
    · have hlt := hidLayout.offset_lt (show k + 1 < hidLayout.count m.length by omega)
      have hshort : (m.take (hidLayout.offset (k + 1))).length ≠ m.length := by
        rw [List.length_take]
        omega
      have hend : ioHidEpLength * (k + 1) = data.length := by
        rw [hdata, show k + 1 = j by omega]
      rw [unwrapLoop, if_neg hshort, if_pos hend]

/-- A response that the loop gives has been complete, or is that of its next round. -/
theorem unwrapLoop_some {len : ℕ} (h : unwrapLoop channel data len k offset result = .ok (some m)) :
    (result.length = len ∧ m = result) ∨
      (result.length ≠ len ∧ offset ≠ data.length ∧
        ∃ start, readHeader channel data (k + 1) offset = .ok start) := by
  rw [unwrapLoop] at h
  by_cases hlen : result.length = len
  · rw [if_pos hlen] at h
    cases h
    exact Or.inl ⟨hlen, rfl⟩
  by_cases hend : offset = data.length
  · rw [if_neg hlen, if_pos hend] at h
    cases h
  rw [if_neg hlen, if_neg hend] at h
  split at h
  next => cases h
  next start hstart => exact Or.inr ⟨hlen, hend, start, hstart⟩

/-- A block that is the message's behind a header that is the report's is its piece. -/
theorem body_of_block {block : Bytes} {p : ℕ}
    (hheader : reportHeader channel m.length k <+: data.drop p)
    (hblock : block <+: data.drop (p + (reportHeader channel m.length k).length))
    (hheads : block <+: m.drop (hidLayout.offset k))
    (hlength : block.length = (hidLayout.piece m k).length) :
    body channel m k <+: data.drop p := by
  have hpiece : block = hidLayout.piece m k := by
    rw [List.prefix_iff_eq_take.mp hheads, hlength, take_piece]
  rw [body, append_prefix_iff, List.drop_drop, ← hpiece]
  exact ⟨hheader, hblock⟩

/-- A response that the loop gives has come in its reports. -/
theorem unwrapLoop_sound (hchannel : channel < 2 ^ 16) {len : ℕ} (hlen : len < 2 ^ 16) (k : ℕ) :
    k < hidLayout.count len → ∀ (offset : ℕ) (result : Bytes),
      (k + 1 < hidLayout.count len → offset = ioHidEpLength * (k + 1)) →
      result.length = min (hidLayout.offset (k + 1)) len →
      unwrapLoop channel data len k offset result = .ok (some m) →
        m.length = len ∧ result <+: m ∧ ∀ i, k < i → i < hidLayout.count len →
          body channel m i <+: data.drop (ioHidEpLength * i) := by
  induction k using @Layout.framesFrom_induction hidLayout len with
  | hend k h => exact fun hk => absurd hk (by omega)
  | hframe k h ih =>
    intro _ offset result hoffset hresult hsome
    by_cases hmore : k + 1 < hidLayout.count len
    · obtain rfl := hoffset hmore
      have hlt := hidLayout.offset_lt hmore
      rcases unwrapLoop_some hsome with ⟨hwhole, -⟩ | ⟨hpart, hend, start, hread⟩
      · omega
      rw [unwrapLoop_round hpart hend hread] at hsome
      have hself := hidLayout.le_offset_self (k + 1)
      obtain ⟨hheader, rfl⟩ := (readHeader_iff hchannel (by omega)).mp hread
      dsimp only at hsome
      have hsize : (if ioHidEpLength - 5 < len - result.length then ioHidEpLength - 5
          else len - result.length) = min (hidLayout.room (k + 1)) (len - result.length) := by
        change (if hidLayout.room (k + 1) < _ then hidLayout.room (k + 1) else _) = _
        split_ifs <;> omega
      rw [hsize] at hsome
      have hroom : hidLayout.room (k + 1) = 59 := rfl
      have hnext := hidLayout.offset_succ (k + 1)
      rw [hroom] at hsome hnext
      generalize hblock : (data.drop (ioHidEpLength * (k + 1) + 5)).take
        (min 59 (len - result.length)) = block at hsome
      have hblockLength := congrArg List.length hblock
      rw [List.length_take, List.length_drop] at hblockLength
      by_cases hfits : ioHidEpLength * (k + 1) + 5 + min 59 (len - result.length) ≤ data.length
      · have hwhole : (result ++ block).length = min (hidLayout.offset (k + 1 + 1)) len := by
          rw [List.length_append]
          omega
        have hplace : k + 1 + 1 < hidLayout.count len →
            ioHidEpLength * (k + 1) + 5 + min 59 (len - result.length) =
              ioHidEpLength * (k + 1 + 1) := by
          intro hnextMore
          have hlt' := hidLayout.offset_lt hnextMore
          rw [ioHidEpLength]
          omega
        obtain ⟨hm, hheads, hbodies⟩ := ih hmore _ _ hplace hwhole hsome
        refine ⟨hm, (List.prefix_append _ _).trans hheads, fun i hi hcount => ?_⟩
        by_cases hik : i = k + 1
        · -- the block is the piece of the response that belongs here
          subst hik
          rw [append_prefix_iff, hresult, Nat.min_eq_left hlt.le] at hheads
          have hheader' : reportHeader channel m.length (k + 1) <+:
              data.drop (ioHidEpLength * (k + 1)) := hheader
          refine body_of_block hheader' (hblock ▸ List.take_prefix _ _) hheads.2 ?_
          rw [Layout.piece_length, hm]
          omega
        · exact hbodies i (by omega) hcount
      · -- the reports end inside the block
        rcases unwrapLoop_some hsome with ⟨hwhole, -⟩ | ⟨-, -, start, hread'⟩
        · rw [List.length_append] at hwhole
          omega
        · have hle := unpackH_le (readHeader_eq_ok.mp hread').1
          omega
    · have hle := Layout.le_offset (Nat.le_of_not_lt hmore)
      rcases unwrapLoop_some hsome with ⟨hwhole, rfl⟩ | ⟨hpart, -⟩
      · exact ⟨hwhole, List.prefix_rfl, fun i hi hcount => by omega⟩
      · omega

/-- The header of a first report is read as any other, and the length behind it. -/
theorem readHeader_first {len : ℕ} (hchannel : channel < 2 ^ 16) (hlen : len < 2 ^ 16) :
    (∃ start, readHeader channel data 0 0 = .ok start ∧ start = 5 ∧ unpackH data start = .ok len) ↔
      reportHeader channel len 0 <+: data := by
  have hheader : reportHeader channel len 0 =
      (be16 channel ++ [tagApdu] ++ be16 0) ++ be16 len := rfl
  rw [hheader, append_prefix_iff, ← unpackH_eq_ok hlen]
  constructor
  · rintro ⟨_, hread, rfl, hlen⟩
    exact ⟨((readHeader_iff hchannel (by decide)).mp hread).1, hlen⟩
  · rintro ⟨hread, hlen⟩
    exact ⟨5, (readHeader_iff hchannel (by decide)).mpr ⟨hread, rfl⟩, rfl, hlen⟩

/-- Behind the header of a first report, and with enough bytes, the loop decides. -/
theorem unwrapResponseAPDU_first {len : ℕ} (hchannel : channel < 2 ^ 16) (hlen : len < 2 ^ 16)
    (hlong : 5 + 2 + 5 ≤ data.length) (hheader : reportHeader channel len 0 <+: data) :
    unwrapResponseAPDU channel data =
      if data.length < 5 + 2 + len then .ok none
      else unwrapLoop channel data len 0 (7 + min (hidLayout.offset 1) len)
        ((data.drop 7).take (min (hidLayout.offset 1) len)) := by
  obtain ⟨start, hread, rfl, htotal⟩ := (readHeader_first hchannel hlen).mpr hheader
  have hsize : (if ioHidEpLength - 7 < len then ioHidEpLength - 7 else len) =
      min (hidLayout.offset 1) len := by
    change (if hidLayout.first < _ then hidLayout.first else _) = min (0 + hidLayout.first) _
    split_ifs <;> omega
  rw [unwrapResponseAPDU, if_neg (Nat.not_lt.mpr hlong), hread]
  change (unpackH data 5).bind _ = _
  rw [htotal]
  change ite _ _ _ = _
  rw [hsize]
  rfl

/-- A response has a first report. -/
theorem unwrapResponseAPDU_some (hchannel : channel < 2 ^ 16)
    (h : unwrapResponseAPDU channel data = .ok (some m)) :
    5 + 2 + 5 ≤ data.length ∧ ∃ len < 2 ^ 16, reportHeader channel len 0 <+: data := by
  rw [unwrapResponseAPDU] at h
  split_ifs at h with hshort
  · cases h
  obtain ⟨start, hread, h⟩ := except_bind_ok.mp h
  obtain ⟨len, htotal, -⟩ := except_bind_ok.mp h
  have hlen : len < 2 ^ 16 := unpackH_lt htotal
  obtain ⟨-, -, -, hstart⟩ := readHeader_eq_ok.mp hread
  exact ⟨Nat.not_lt.mp hshort, len, hlen, (readHeader_first hchannel hlen).mp
    ⟨start, hread, by omega, htotal⟩⟩

/-- Behind the first report of a message. -/
theorem unwrapResponseAPDU_begun (hchannel : channel < 2 ^ 16) (hlen : m.length < 2 ^ 16)
    (hlong : 5 + 2 + 5 ≤ data.length) (hbody : body channel m 0 <+: data) :
    unwrapResponseAPDU channel data =
      if data.length < 5 + 2 + m.length then .ok none
      else unwrapLoop channel data m.length 0 (body channel m 0).length
        (m.take (hidLayout.offset 1)) := by
  rw [body, append_prefix_iff] at hbody
  obtain ⟨hheader, hpiece⟩ := hbody
  have hsize : min (hidLayout.offset 1) m.length = (hidLayout.piece m 0).length := by
    rw [Layout.piece_length]
    rfl
  have hresult : (data.drop 7).take (hidLayout.piece m 0).length = m.take (hidLayout.offset 1) :=
    (List.prefix_iff_eq_take.mp hpiece).symm
  rw [unwrapResponseAPDU_first hchannel hlen hlong hheader, hsize, hresult, body_length]
  rfl

/-- The reports of a message are long enough for it. -/
theorem Received.length_le (h : Received channel m data (hidLayout.count m.length)) :
    5 + 2 + m.length ≤ data.length := by
  obtain ⟨k, hk⟩ := Nat.exists_eq_succ_of_ne_zero (hidLayout.count_pos m.length).ne'
  have hlast := (h k (by omega)).length_le
  have hpiece := offset_add_piece m k (by
    rcases (hidLayout.lt_count_iff m.length k).mp (by omega) with rfl | hlt
    · exact Nat.zero_le _
    · exact hlt.le)
  have hend := hidLayout.le_offset (show hidLayout.count m.length ≤ k + 1 by omega)
  have hsome := (body_length_le channel m k).1
  rw [List.length_drop] at hlast
  rw [body_length] at hlast hsome
  cases k with
  | zero =>
    change 7 + _ ≤ _ at hlast
    change 0 + _ = _ at hpiece
    omega
  | succ k =>
    have hoffset := hidLayout.offset_eq k
    change 5 + _ ≤ _ at hlast
    change _ = 57 + k * 59 at hoffset
    simp only [ioHidEpLength] at hlast
    omega

/-- What the host takes for a response is well formed, and everything well formed is taken: behind
a first report that announces it, every other report in its turn, whatever they are filled up
with. -/
theorem unwrapResponseAPDU_iff (hchannel : channel < 2 ^ 16) :
    unwrapResponseAPDU channel data = .ok (some m) ↔
      5 + 2 + 5 ≤ data.length ∧ m.length < 2 ^ 16 ∧
        Received channel m data (hidLayout.count m.length) := by
  constructor
  · intro h
    obtain ⟨hlong, len, hlen, hheader⟩ := unwrapResponseAPDU_some hchannel h
    rw [unwrapResponseAPDU_first hchannel hlen hlong hheader] at h
    split_ifs at h with hshort
    · cases h
    have hfirst : hidLayout.offset 1 = 57 := rfl
    have hresult : ((data.drop 7).take (min (hidLayout.offset 1) len)).length =
        min (hidLayout.offset 1) len := by
      rw [List.length_take, List.length_drop]
      omega
    have hplace : 0 + 1 < hidLayout.count len →
        7 + min (hidLayout.offset 1) len = ioHidEpLength * (0 + 1) := by
      intro hmore
      have hlt : hidLayout.offset 1 < len := hidLayout.offset_lt hmore
      rw [ioHidEpLength]
      omega
    obtain ⟨rfl, hheads, hbodies⟩ :=
      unwrapLoop_sound hchannel hlen 0 (hidLayout.count_pos len) _ _ hplace hresult h
    refine ⟨hlong, hlen, fun i hi => ?_⟩
    by_cases hzero : i = 0
    · subst hzero
      refine body_of_block hheader (List.take_prefix _ _) hheads (hresult.trans ?_)
      rw [Layout.piece_length]
      rfl
    · exact hbodies i (by omega) hi
  · rintro ⟨hlong, hlen, hreceived⟩
    have hle := hreceived.length_le
    rw [unwrapResponseAPDU_begun hchannel hlen hlong (hreceived 0 (hidLayout.count_pos _)),
      if_neg (by omega)]
    refine unwrapLoop_complete hchannel hlen hreceived 0 (hidLayout.count_pos _) _ fun hmore => ?_
    rw [← body_end channel hmore, Nat.mul_zero, Nat.zero_add]

/-- A status word in one report. -/
theorem unwrapResponseAPDU_iff_sample :
    unwrapResponseAPDU 0x0101 (reports 0x0101 [0x90, 0x00]).flatten = .ok (some [0x90, 0x00]) ↔
      5 + 2 + 5 ≤ (reports 0x0101 [0x90, 0x00]).flatten.length ∧
        ([0x90, 0x00] : Bytes).length < 2 ^ 16 ∧
        Received 0x0101 [0x90, 0x00] (reports 0x0101 [0x90, 0x00]).flatten
          (hidLayout.count ([0x90, 0x00] : Bytes).length) :=
  unwrapResponseAPDU_iff (by decide)

/-- While reports are missing the host waits. -/
theorem unwrapResponseAPDU_waits (hchannel : channel < 2 ^ 16) (hlen : m.length < 2 ^ 16) {j : ℕ}
    (hpos : 0 < j) (hreceived : Received channel m data j) (hj : j < hidLayout.count m.length)
    (hdata : data.length = ioHidEpLength * j) : unwrapResponseAPDU channel data = .ok none := by
  have hlong : 5 + 2 + 5 ≤ data.length := by
    rw [hdata, ioHidEpLength]
    omega
  have hbegun : ioHidEpLength * 0 + (body channel m 0).length = ioHidEpLength * (0 + 1) :=
    body_end channel (by omega)
  rw [Nat.mul_zero, Nat.zero_add] at hbegun
  rw [unwrapResponseAPDU_begun hchannel hlen hlong (hreceived 0 hpos), hbegun]
  split_ifs
  · rfl
  · exact unwrapLoop_waits hchannel hlen hreceived hj hdata 0 hpos

end Unwrapping

section Reading
variable {channel : ℕ} {m : Bytes}

/-- The reports below a number, one after the other. -/
def gathered (channel : ℕ) (m : Bytes) (j : ℕ) : Bytes :=
  ((List.range j).map (report channel m)).flatten

theorem gathered_succ (channel : ℕ) (m : Bytes) (j : ℕ) :
    gathered channel m (j + 1) = gathered channel m j ++ report channel m j := by
  rw [gathered, List.range_succ, List.map_append, List.flatten_append]
  simp only [List.map_cons, List.map_nil, List.flatten_cons, List.flatten_nil, List.append_nil,
    gathered]

theorem gathered_length (channel : ℕ) (m : Bytes) (j : ℕ) :
    (gathered channel m j).length = ioHidEpLength * j := by
  induction j with
  | zero => rfl
  | succ j ih => rw [gathered_succ, List.length_append, ih, report_length, Nat.mul_succ]

theorem gathered_received (channel : ℕ) (m : Bytes) (j : ℕ) :
    Received channel m (gathered channel m j) j := by
  induction j with
  | zero => exact fun i hi => absurd hi (Nat.not_lt_zero i)
  | succ j ih =>
    intro i hi
    have hle : ioHidEpLength * i ≤ (gathered channel m j).length := by
      rw [gathered_length]
      exact Nat.mul_le_mul_left _ (by omega)
    rw [gathered_succ, List.drop_append_of_le_length hle]
    by_cases hij : i < j
    · exact (ih i hij).trans (List.prefix_append _ _)
    · obtain rfl : i = j := by omega
      rw [← gathered_length channel m i, List.drop_length, List.nil_append]
      exact List.prefix_append _ _

/-- The host reads on until the last report of a response. -/
theorem readResponse_gathered (hchannel : channel < 2 ^ 16) (hlen : m.length < 2 ^ 16)
    (rest : List Bytes) (j : ℕ) :
    0 < j → j ≤ hidLayout.count m.length →
      readResponse channel (gathered channel m j) (reportsFrom channel m j ++ rest) =
        .ok (some (m, rest)) := by
  induction j using @Layout.framesFrom_induction hidLayout m.length with
  | hend j h =>
    intro hpos hj
    obtain rfl : j = hidLayout.count m.length := by omega
    have hwhole : unwrapResponseAPDU channel (gathered channel m (hidLayout.count m.length)) =
        .ok (some m) := by
      refine (unwrapResponseAPDU_iff hchannel).mpr ⟨?_, hlen, gathered_received channel m _⟩
      rw [gathered_length, ioHidEpLength]
      omega
    rw [reportsFrom, Layout.framesFrom_nil h, List.nil_append]
    cases rest with
    | nil => rw [readResponse, hwhole]; rfl
    | cons read reads => rw [readResponse, hwhole]; rfl
  | hframe j h ih =>
    intro hpos _
    have hwaits := unwrapResponseAPDU_waits hchannel hlen hpos (gathered_received channel m j) h
      (gathered_length channel m j)
    rw [reportsFrom, Layout.framesFrom_cons h, List.cons_append, readResponse, hwaits]
    change readResponse channel (gathered channel m j ++ report channel m j) _ = _
    rw [← gathered_succ]
    exact ih (Nat.succ_pos j) h

/-- The host reads the reports of a response and no more. -/
theorem readResponse_eq (hchannel : channel < 2 ^ 16) (hlen : m.length < 2 ^ 16)
    (rest : List Bytes) :
    readResponse channel (report channel m 0) (reportsFrom channel m 1 ++ rest) =
      .ok (some (m, rest)) := by
  have hfirst : gathered channel m 1 = report channel m 0 := List.append_nil _
  rw [← hfirst]
  exact readResponse_gathered hchannel hlen rest 1 Nat.one_pos (hidLayout.count_pos _)

end Reading

end IostLedger
