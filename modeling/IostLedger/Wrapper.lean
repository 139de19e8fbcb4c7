import IostLedger.Frames

/-! The host's side of the transport: `ledgerWrapper.py` with the packet size of a USB report, and
the reads and writes of `HIDDongleHIDAPI.exchange`. -/
namespace IostLedger
open Framing

/-- What the host raises: `CommException` for the first four, and two errors of Python. -/
inductive HostError where
  | invalidChannel | invalidTag | invalidSequence
  | invalidStatus (sw : ℕ) (possibleCause : String) (response : Bytes)
  | structError | indexError
  deriving DecidableEq, Repr

/-- `struct.pack(">H", v)`. -/
def packH (v : ℕ) : Option Bytes := if v < 2 ^ 16 then some (be16 v) else none

/-- Zeros up to a multiple of a report. -/
def filled (result : Bytes) : Bytes :=
  result ++ List.replicate ((ioHidEpLength - result.length % ioHidEpLength) % ioHidEpLength) 0

/-- The loop of `wrapCommandAPDU`. The offset never passes the end of the command. -/
def wrapLoop (channel : ℕ) (command : Bytes) (sequenceIdx offset : ℕ) (result : Bytes) :
    Option Bytes :=
  if offset < command.length then do
    let header ← packH channel
    let number ← packH sequenceIdx
    let blockSize := if ioHidEpLength - 5 < command.length - offset then ioHidEpLength - 5
      else command.length - offset
    wrapLoop channel command (sequenceIdx + 1) (offset + blockSize)
      (result ++ (header ++ [tagApdu] ++ number ++ (command.drop offset).take blockSize))
  else some result
termination_by command.length - offset
decreasing_by
  rw [ioHidEpLength]
  split_ifs <;> omega

/-- `wrapCommandAPDU`. -/
def wrapCommandAPDU (channel : ℕ) (command : Bytes) : Option Bytes := do
  let header ← packH channel
  let number ← packH 0
  let total ← packH command.length
  let blockSize := if ioHidEpLength - 7 < command.length then ioHidEpLength - 7
    else command.length
  let result ← wrapLoop channel command 1 blockSize
    (header ++ [tagApdu] ++ number ++ total ++ command.take blockSize)
  pure (filled result)

/-- The writes of `exchange`, one for each 64 bytes. -/
def hidWrites (tmp : Bytes) : List Bytes :=
  if tmp = [] then [] else tmp.take ioHidEpLength :: hidWrites (tmp.drop ioHidEpLength)
termination_by tmp.length
decreasing_by
  rename_i h
  have hpos := List.length_pos_iff.mpr h
  rw [List.length_drop, ioHidEpLength]
  omega

/-- What `exchange` writes for a command. -/
def commandWrites (channel : ℕ) (command : Bytes) : Option (List Bytes) :=
  (wrapCommandAPDU channel command).map fun apdu => hidWrites (filled apdu)

/-- `struct.unpack(">H", data[offset : offset + 2])[0]`. -/
def unpackH (data : Bytes) (offset : ℕ) : Except HostError ℕ :=
  match data.drop offset with
  | a :: b :: _ => .ok (a.toNat * 256 + b.toNat)
  | _ => .error .structError

/-- `data[offset]`. -/
def byteAt (data : Bytes) (offset : ℕ) : Except HostError UInt8 :=
  match data.drop offset with
  | a :: _ => .ok a
  | [] => .error .indexError

def require (c : Prop) [Decidable c] (e : HostError) : Except HostError Unit :=
  if c then .ok () else .error e

/-- The checks of a report's header at `offset`, and where it ends. -/
def readHeader (channel : ℕ) (data : Bytes) (sequenceIdx offset : ℕ) : Except HostError ℕ := do
  let c ← unpackH data offset
  require (c = channel) .invalidChannel
  let tag ← byteAt data (offset + 2)
  require (tag = tagApdu) .invalidTag
  let number ← unpackH data (offset + 3)
  require (number = sequenceIdx) .invalidSequence
  pure (offset + 5)

theorem unpackH_le {data : Bytes} {offset v : ℕ} (h : unpackH data offset = .ok v) :
    offset + 2 ≤ data.length := by
  unfold unpackH at h
  split at h
  next a b rest hdrop =>
    have hlen := congrArg List.length hdrop
    rw [List.length_drop] at hlen
    simp only [List.length_cons] at hlen
    omega
  next => cases h

theorem unpackH_lt {data : Bytes} {offset v : ℕ} (h : unpackH data offset = .ok v) :
    v < 2 ^ 16 := by
  unfold unpackH at h
  split at h
  next a b rest hdrop =>
    have ha := a.toNat_lt
    have hb := b.toNat_lt
    cases h
    omega
  next => cases h

theorem require_eq_ok {c : Prop} [Decidable c] {e : HostError} {u : Unit} :
    require c e = .ok u ↔ c := by
  unfold require
  split <;> simp_all

/-- A reading that succeeds has read its parts. -/
theorem except_bind_ok {α β : Type} {x : Except HostError α} {f : α → Except HostError β} {b : β} :
    x.bind f = .ok b ↔ ∃ a, x = .ok a ∧ f a = .ok b := by
  cases x <;> simp [Except.bind]

theorem readHeader_eq_ok {channel k offset start : ℕ} {data : Bytes} :
    readHeader channel data k offset = .ok start ↔
      unpackH data offset = .ok channel ∧ byteAt data (offset + 2) = .ok tagApdu ∧
        unpackH data (offset + 3) = .ok k ∧ start = offset + 5 := by
  simp only [readHeader, bind, except_bind_ok, require_eq_ok, pure, Except.pure, Except.ok.injEq]
  grind

/-- The loop of `unwrapResponseAPDU`. -/
def unwrapLoop (channel : ℕ) (data : Bytes) (responseLength sequenceIdx offset : ℕ)
    (result : Bytes) : Except HostError (Option Bytes) :=
  if result.length = responseLength then .ok (some result)
  else if offset = data.length then .ok none
  else
    match _hstart : readHeader channel data (sequenceIdx + 1) offset with
    | .error e => .error e
    | .ok start =>
        let blockSize := if ioHidEpLength - 5 < responseLength - result.length
          then ioHidEpLength - 5 else responseLength - result.length
        unwrapLoop channel data responseLength (sequenceIdx + 1) (start + blockSize)
          (result ++ (data.drop start).take blockSize)
termination_by data.length - offset
decreasing_by
  obtain ⟨hchannel, -, -, rfl⟩ := readHeader_eq_ok.mp _hstart
  have hle := unpackH_le hchannel
  omega

/-- `unwrapResponseAPDU`; it gives no response where reports are missing. -/
def unwrapResponseAPDU (channel : ℕ) (data : Bytes) : Except HostError (Option Bytes) :=
  if data.length < 5 + 2 + 5 then .ok none
  else do
    let offset ← readHeader channel data 0 0
    let responseLength ← unpackH data offset
    if data.length < 5 + 2 + responseLength then pure none
    else
      let blockSize := if ioHidEpLength - 7 < responseLength then ioHidEpLength - 7
        else responseLength
      unwrapLoop channel data responseLength 0 (offset + 2 + blockSize)
        ((data.drop (offset + 2)).take blockSize)

/-- The reads of `exchange`: the reports that `result` is extended by until it is a response. When
they run out, the host waits. -/
def readResponse (channel : ℕ) (result : Bytes) :
    List Bytes → Except HostError (Option (Bytes × List Bytes))
  | [] => do
      let response ← unwrapResponseAPDU channel result
      pure (response.map fun r => (r, []))
  | read :: reads => do
      match ← unwrapResponseAPDU channel result with
      | some response => pure (some (response, read :: reads))
      | none => readResponse channel (result ++ read) reads

section Wrapping
variable {channel : ℕ} {m : Bytes}

/-- Report `k` before it is filled up. -/
def body (channel : ℕ) (m : Bytes) (k : ℕ) : Bytes :=
  reportHeader channel m.length k ++ hidLayout.piece m k

theorem packH_of_lt {v : ℕ} (h : v < 2 ^ 16) : packH v = some (be16 v) := if_pos h

theorem body_length (channel : ℕ) (m : Bytes) (k : ℕ) :
    (body channel m k).length =
      ioHidEpLength - hidLayout.room k + (hidLayout.piece m k).length := by
  rw [body, List.length_append, reportHeader_length]

theorem body_length_le (channel : ℕ) (m : Bytes) (k : ℕ) :
    0 < (body channel m k).length ∧ (body channel m k).length ≤ ioHidEpLength := by
  have hpiece := hidLayout.piece_length_le m k
  have hroom : hidLayout.room k < ioHidEpLength := by
    cases k with
    | zero => decide
    | succ k => exact Nat.sub_lt (by decide) (by decide)
  rw [body_length]
  omega

/-- Only the last report is filled up. -/
theorem report_of_full {k : ℕ} (h : k + 1 < hidLayout.count m.length) :
    report channel m k = body channel m k := by
  have hroom := room_le k
  have hlen : (body channel m k).length = ioHidEpLength := by
    rw [body_length, Layout.piece_full h]
    omega
  rw [report, padded, ← body, hlen, Nat.sub_self, List.replicate_zero, List.append_nil]

/-- Behind whole reports, one more is filled up. -/
theorem filled_append {prior bytes : Bytes} (hprior : prior.length % ioHidEpLength = 0)
    (hpos : 0 < bytes.length) (hle : bytes.length ≤ ioHidEpLength) :
    filled (prior ++ bytes) = prior ++ padded bytes := by
  have hzeros : (ioHidEpLength - (prior.length + bytes.length) % ioHidEpLength) % ioHidEpLength =
      ioHidEpLength - bytes.length := by
    simp only [ioHidEpLength] at *
    omega
  rw [filled, List.length_append, hzeros, padded, List.append_assoc]

/-- The size of a block is what is left of the message, as far as there is room. -/
theorem blockSize_eq (m : Bytes) (k : ℕ) :
    (if ioHidEpLength - 5 < m.length - hidLayout.offset (k + 1) then ioHidEpLength - 5
      else m.length - hidLayout.offset (k + 1)) = (hidLayout.piece m (k + 1)).length := by
  rw [Layout.piece_length]
  change (if hidLayout.room (k + 1) < _ then hidLayout.room (k + 1) else _) = _
  split_ifs <;> omega

theorem firstSize_eq (m : Bytes) :
    (if ioHidEpLength - 7 < m.length then ioHidEpLength - 7 else m.length) =
      (hidLayout.piece m 0).length := by
  rw [Layout.piece_length]
  change (if hidLayout.room 0 < _ then hidLayout.room 0 else _) = min (hidLayout.room 0) (_ - 0)
  split_ifs <;> omega

/-- What has been taken of a message is as long as the offset says, up to its end. -/
theorem offset_add_piece (m : Bytes) (k : ℕ) (h : hidLayout.offset k ≤ m.length) :
    hidLayout.offset k + (hidLayout.piece m k).length =
      min (hidLayout.offset (k + 1)) m.length := by
  rw [hidLayout.offset_succ, Layout.piece_length]
  omega

/-- A piece is what its length takes from its offset on. -/
theorem take_piece (m : Bytes) (k : ℕ) :
    (m.drop (hidLayout.offset k)).take (hidLayout.piece m k).length = hidLayout.piece m k := by
  rw [Layout.piece, List.length_take, ← List.take_take, List.take_length]

/-- One round of the loop appends the next report. -/
theorem wrapLoop_step (hchannel : channel < 2 ^ 16) (hlen : m.length < 2 ^ 16) {k : ℕ}
    (h : k + 1 < hidLayout.count m.length) (result : Bytes) :
    wrapLoop channel m (k + 1) (min (hidLayout.offset (k + 1)) m.length) result =
      wrapLoop channel m (k + 2) (min (hidLayout.offset (k + 2)) m.length)
        (result ++ body channel m (k + 1)) := by
  have hoffset := Layout.offset_lt h
  have hself := hidLayout.le_offset_self (k + 1)
  conv_lhs => rw [wrapLoop]
  rw [Nat.min_eq_left hoffset.le, if_pos hoffset, packH_of_lt hchannel,
    packH_of_lt (show k + 1 < 2 ^ 16 by omega)]
  dsimp only [Option.bind_eq_bind, Option.bind_some]
  rw [blockSize_eq, offset_add_piece m (k + 1) hoffset.le, take_piece]
  rfl

/-- The loop from report `k` on, which has been begun. -/
theorem wrapLoop_eq (hchannel : channel < 2 ^ 16) (hlen : m.length < 2 ^ 16) (k : ℕ) :
    k < hidLayout.count m.length → ∀ prior : Bytes, prior.length % ioHidEpLength = 0 →
      (wrapLoop channel m (k + 1) (min (hidLayout.offset (k + 1)) m.length)
          (prior ++ body channel m k)).map filled =
        some (prior ++ (reportsFrom channel m k).flatten) := by
  induction k using @Layout.framesFrom_induction hidLayout m.length with
  | hend k h => exact fun hk => absurd hk (by omega)
  | hframe k h ih =>
    intro _ prior hprior
    rw [reportsFrom, Layout.framesFrom_cons h, List.flatten_cons]
    by_cases hmore : k + 1 < hidLayout.count m.length
    · have hfull : report channel m k = body channel m k := report_of_full hmore
      have hwhole : (prior ++ body channel m k).length % ioHidEpLength = 0 := by
        rw [← hfull, List.length_append, report_length, Nat.add_mod_right, hprior]
      rw [wrapLoop_step hchannel hlen hmore, ih hmore _ hwhole, hfull, List.append_assoc]
      rfl
    · have hle := Layout.le_offset (Nat.le_of_not_lt hmore)
      have hend : ¬ min (hidLayout.offset (k + 1)) m.length < m.length := by omega
      obtain ⟨hpos, hle⟩ := body_length_le channel m k
      rw [wrapLoop, if_neg hend, Layout.framesFrom_nil (Nat.le_of_not_lt hmore), List.flatten_nil,
        List.append_nil, Option.map_some, filled_append hprior hpos hle]
      rfl

/-- The host wraps a command into its reports. -/
theorem wrapCommandAPDU_eq (hchannel : channel < 2 ^ 16) (hlen : m.length < 2 ^ 16) :
    wrapCommandAPDU channel m = some (reports channel m).flatten := by
  have hnext := offset_add_piece m 0 (Nat.zero_le _)
  rw [Layout.offset, Nat.zero_add] at hnext
  have hpiece : m.take (hidLayout.piece m 0).length = hidLayout.piece m 0 := take_piece m 0
  have hloop := wrapLoop_eq hchannel hlen 0 (hidLayout.count_pos _) [] rfl
  have hbody : be16 channel ++ [tagApdu] ++ be16 0 ++ be16 m.length ++ hidLayout.piece m 0 =
      body channel m 0 := rfl
  rw [List.nil_append, List.nil_append] at hloop
  rw [wrapCommandAPDU, packH_of_lt hchannel, packH_of_lt hlen,
    packH_of_lt (show 0 < 2 ^ 16 by decide)]
  dsimp only [Option.bind_eq_bind, Option.bind_some]
  rw [firstSize_eq, hpiece, hbody, hnext]
  rw [Option.map_eq_bind] at hloop
  exact hloop

theorem filled_of_whole {bytes : Bytes} (h : bytes.length % ioHidEpLength = 0) :
    filled bytes = bytes := by
  rw [filled, h, Nat.sub_zero, Nat.mod_self, List.replicate_zero, List.append_nil]

theorem flatten_length {blocks : List Bytes} (h : ∀ b ∈ blocks, b.length = ioHidEpLength) :
    blocks.flatten.length = blocks.length * ioHidEpLength := by
  have hlengths : blocks.map List.length = List.replicate blocks.length ioHidEpLength :=
    List.eq_replicate_iff.mpr ⟨List.length_map _, by simpa using h⟩
  rw [List.length_flatten, hlengths, List.sum_replicate, smul_eq_mul]

/-- The writes of whole reports are the reports. -/
theorem hidWrites_flatten {blocks : List Bytes} (h : ∀ b ∈ blocks, b.length = ioHidEpLength) :
    hidWrites blocks.flatten = blocks := by
  induction blocks with
  | nil => rw [hidWrites, List.flatten_nil, if_pos rfl]
  | cons b blocks ih =>
    have hb := h b List.mem_cons_self
    have hsome : b ++ blocks.flatten ≠ [] := by
      rw [← List.length_pos_iff, List.length_append, hb]
      exact Nat.lt_add_right _ (by decide)
    rw [hidWrites, List.flatten_cons, if_neg hsome, ← hb, List.take_left, List.drop_left,
      ih fun c hc => h c (List.mem_cons_of_mem b hc)]

theorem mem_reports_length {k : ℕ} : ∀ b ∈ reportsFrom channel m k, b.length = ioHidEpLength := by
  intro b hb
  obtain ⟨j, -, rfl⟩ := List.mem_map.mp hb
  exact report_length channel m j

/-- What the host writes are the reports of its command. -/
theorem commandWrites_eq (hchannel : channel < 2 ^ 16) (hlen : m.length < 2 ^ 16) :
    commandWrites channel m = some (reports channel m) := by
  have hlength : ∀ b ∈ reports channel m, b.length = ioHidEpLength := mem_reports_length
  have hwhole : (reports channel m).flatten.length % ioHidEpLength = 0 := by
    rw [flatten_length hlength, Nat.mul_mod_left]
  rw [commandWrites, wrapCommandAPDU_eq hchannel hlen, Option.map_some, filled_of_whole hwhole,
    hidWrites_flatten hlength]

end Wrapping

end IostLedger
