import IostLedger.Port

/-! Reception: a report of the host moves the transport as it moves the inbox of the port, and
touches nothing but its own globals and the APDU buffer. -/
namespace IostLedger
open Memory Exec Framing

/-- No message is under way. -/
structure Link.Quiet (l : Link) : Prop where
  number : l.sequenceNumber = 0
  remaining : l.remainingLength = 0
  current : l.currentBuffer = none

/-- The APDU buffer has the bytes of a message so far. -/
structure Link.Collects (l : Link) (a : Assembly) : Prop where
  number : l.sequenceNumber = a.count
  total : l.totalLength = a.length
  channel : l.channel = a.channel
  remaining : l.remainingLength = a.length - a.bytes.length
  current : l.currentBuffer = some a.bytes.length
  bytes : l.device.apdu.bytes.take a.bytes.length = a.bytes
  fits : a.length ≤ ioApduBufferSize
  within : a.bytes.length ≤ a.length
  /-- Every report has brought a byte. -/
  counted : a.count ≤ a.bytes.length

/-- The transport is where an inbox is. -/
def Link.Assembles (l : Link) : Option Assembly → Prop
  | none => l.Quiet
  | some a => l.Collects a ∧ a.bytes.length < a.length ∧ 0 < a.count

/-- Only the globals of the transport and the APDU buffer may differ. -/
structure Link.Kept (l l' : Link) : Prop where
  device : l'.device = { l.device with apdu := l'.device.apdu }
  apduState : l'.apduState = l.apduState
  media : l'.media = l.media
  apduLength : l'.apduLength = l.apduLength
  transmitting : l'.transmitting = l.transmitting
  prepared : l'.prepared = l.prepared
  inFlight : l'.inFlight = l.inFlight

/-- What the transport has made of a report. -/
def Link.Took (l l' : Link) (status : HidStatus) : Intake → Prop
  | .reset => status = .reset ∧ l'.Quiet ∧ l.Kept l'
  | .answer buffer => status = .reset ∧ l'.Quiet ∧
      Link.Kept { l with prepared := l.prepared ++ [buffer], inFlight := l.inFlight + 1 } l'
  | .more inbox => status = .moreData ∧ l'.Assembles (some inbox) ∧ l.Kept l'
  | .complete channel bytes => status = .received ∧ l'.Quiet ∧ l.Kept l' ∧
      l'.channel = channel ∧ l'.totalLength = bytes.length ∧
      l'.device.apdu.bytes.take bytes.length = bytes ∧ bytes.length ≤ ioApduBufferSize

theorem quiet_init (l : Link) : (ioUsbHidInit l).Quiet := ⟨rfl, rfl, rfl⟩

theorem Link.Kept.refl (l : Link) : l.Kept l := ⟨rfl, rfl, rfl, rfl, rfl, rfl, rfl⟩

theorem Link.Kept.trans {l l' l'' : Link} (h : l.Kept l') (h' : l'.Kept l'') : l.Kept l'' := by
  refine ⟨?_, h'.apduState.trans h.apduState, h'.media.trans h.media,
    h'.apduLength.trans h.apduLength, h'.transmitting.trans h.transmitting,
    h'.prepared.trans h.prepared, h'.inFlight.trans h.inFlight⟩
  rw [h'.device, h.device]

theorem Link.Took.of_kept {l₀ l l' : Link} {status : HidStatus} {i : Intake} (hkept : l₀.Kept l)
    (h : l.Took l' status i) : l₀.Took l' status i := by
  cases i with
  | reset => exact ⟨h.1, h.2.1, hkept.trans h.2.2⟩
  | answer buffer =>
    have hanswered : Link.Kept
        { l₀ with prepared := l₀.prepared ++ [buffer], inFlight := l₀.inFlight + 1 }
        { l with prepared := l.prepared ++ [buffer], inFlight := l.inFlight + 1 } :=
      ⟨hkept.device, hkept.apduState, hkept.media, hkept.apduLength, hkept.transmitting,
        by simp only [hkept.prepared], by simp only [hkept.inFlight]⟩
    exact ⟨h.1, h.2.1, hanswered.trans h.2.2⟩
  | more inbox => exact ⟨h.1, h.2.1, hkept.trans h.2.2⟩
  | complete channel bytes => exact ⟨h.1, h.2.1, hkept.trans h.2.2.1, h.2.2.2⟩

section Chunks
variable {l : Link} {a : Assembly} {off len : ℕ}

theorem appendChunk_run {i : ℕ} (hcurrent : l.currentBuffer = some i)
    (hread : off + len ≤ ioHidEpLength) (hfit : i + len ≤ ioApduBufferSize) :
    (appendChunk off len).run l = .ok () (Link.advance len { l with device := { l.device with
      apdu := l.device.apdu.splice i ((l.epBuffer.bytes.drop off).take len) } }) := by
  have hdata : ((l.epBuffer.bytes.drop off).take len).length = len := by
    rw [List.length_take, List.length_drop, Buffer.size_eq]
    omega
  have hstore : l.store ((l.epBuffer.bytes.drop off).take len) = some { l.device with
      apdu := l.device.apdu.splice i ((l.epBuffer.bytes.drop off).take len) } := by
    rw [Link.store, hcurrent]
    simp only []
    rw [Buffer.write?_of_le (by rw [hdata]; exact hfit), Option.map_some]
  simp only [appendChunk, EStateM.run_bind, EStateM.run_get, Buffer.read?_of_le hread,
    inRange_some, run_ofChecked_ok, hstore, EStateM.run_set]

theorem receiveStatus_run (l : Link) : receiveStatus.run l =
    if l.remainingLength ≠ 0 then .ok .moreData l else .ok .received (ioUsbHidInit l) := by
  simp only [receiveStatus, EStateM.run_bind, EStateM.run_get]
  split_ifs <;> rfl

/-- A chunk is what the report has behind its header, as far as it belongs to the message. -/
theorem Link.Collects.chunk (h : l.Collects a) (hoff : off < ioHidEpLength)
    (hlen : len = if a.length - a.bytes.length < ioHidEpLength - off then
      a.length - a.bytes.length else ioHidEpLength - off) :
    ∃ status l', (appendChunk off len >>= fun _ => receiveStatus).run l = .ok status l' ∧
      l.Took l' status (a.add (l.epBuffer.bytes.drop off)) := by
  have hfits := h.fits
  have hwithin := h.within
  have hcounted := h.counted
  have hmin : len = min (a.length - a.bytes.length) (ioHidEpLength - off) := by
    rw [hlen]
    split_ifs <;> omega
  have hdrop : (l.epBuffer.bytes.drop off).length = ioHidEpLength - off := by
    rw [List.length_drop, Buffer.size_eq]
  have htake : (l.epBuffer.bytes.drop off).take len =
      (l.epBuffer.bytes.drop off).take (a.length - a.bytes.length) := by
    rw [hmin, ← hdrop]
    exact List.take_eq_take_min.symm
  have hdata : ((l.epBuffer.bytes.drop off).take len).length = len := by
    rw [List.length_take, hdrop]
    omega
  have hbytes : (a.bytes ++ (l.epBuffer.bytes.drop off).take len).length =
      a.bytes.length + len := by rw [List.length_append, hdata]
  have hsplice : (l.device.apdu.splice a.bytes.length
      ((l.epBuffer.bytes.drop off).take len)).bytes.take (a.bytes.length + len) =
      a.bytes ++ (l.epBuffer.bytes.drop off).take len := by
    rw [Buffer.take_splice_end (by rw [hdata]; omega) (by rw [hdata]), h.bytes]
  rw [EStateM.run_bind, appendChunk_run h.current (by omega) (by omega)]
  simp only [receiveStatus_run]
  rw [Assembly.add, ← htake, hbytes]
  have hremaining : l.remainingLength = a.length - a.bytes.length := h.remaining
  by_cases hdone : a.bytes.length + len = a.length
  · have hzero : ¬ (l.remainingLength - len ≠ 0) := by omega
    refine ⟨.received, _, if_neg hzero, ?_⟩
    rw [if_pos hdone]
    refine ⟨rfl, quiet_init _, ⟨rfl, rfl, rfl, rfl, rfl, rfl, rfl⟩, h.channel, ?_, ?_, ?_⟩
    · rw [hbytes, hdone]
      exact h.total
    · rw [hbytes]
      exact hsplice
    · rw [hbytes, hdone]
      exact hfits
  · have hsome : l.remainingLength - len ≠ 0 := by omega
    refine ⟨.moreData, _, if_pos hsome, ?_⟩
    rw [if_neg hdone]
    have hcount : (l.sequenceNumber + 1) % 2 ^ 32 = a.count + 1 := by
      simp only [ioApduBufferSize] at hfits
      rw [h.number]
      omega
    refine ⟨rfl, ⟨⟨hcount, h.total, h.channel, ?_, ?_, ?_, hfits, ?_, ?_⟩, ?_, Nat.succ_pos _⟩,
      ⟨rfl, rfl, rfl, rfl, rfl, rfl, rfl⟩⟩
    · change l.remainingLength - len = _
      simp only [hbytes]
      omega
    · change l.currentBuffer.map _ = _
      rw [h.current, hbytes]
      rfl
    · simp only [hbytes]
      exact hsplice
    all_goals simp only [hbytes]; omega

end Chunks

section Receive
variable {l : Link} {inbox : Option Assembly} {buffer : Bytes} {random : Buffer 4}

theorem epBuffer_bytes (h : buffer.length = ioHidEpLength) :
    ((Buffer.zero ioHidEpLength).splice 0 (buffer.take ioHidEpLength)).bytes = buffer := by
  rw [← h, List.take_length, h, Buffer.splice_bytes (by omega), List.take_zero, List.nil_append,
    List.drop_eq_nil_of_le (by rw [Buffer.size_eq]; omega), List.append_nil]

/-- A packet that is not taken stops the reception. -/
theorem apduReset_run (l : Link) : apduReset.run l = .ok .reset (ioUsbHidInit l) := rfl

theorem receiveApduChunk_spec (hbuffer : l.epBuffer.bytes = buffer)
    (h : l.Assembles inbox) : ∃ status l',
      (receiveApduChunk ioHidEpLength).run l = .ok status l' ∧
        l.Took l' status (packetIntake inbox buffer) := by
  have hreset : ∃ status l', apduReset.run l = .ok status l' ∧ l.Took l' status .reset :=
    ⟨_, _, apduReset_run l, rfl, quiet_init l, ⟨rfl, rfl, rfl, rfl, rfl, rfl, rfl⟩⟩
  simp only [receiveApduChunk, EStateM.run_bind, EStateM.run_get, hbuffer]
  cases inbox with
  | none =>
    rw [packetIntake, h.number]
    by_cases hnumber : u2be buffer 3 = 0
    · by_cases hlong : ioApduBufferSize < u2be buffer 5
      · simp only [hnumber, hlong, ne_eq, not_true_eq_false, if_false, if_true, or_true,
          EStateM.run_bind, EStateM.run_set]
        exact ⟨_, _, rfl, rfl, quiet_init _, ⟨rfl, rfl, rfl, rfl, rfl, rfl, rfl⟩⟩
      · simp only [hnumber, hlong, ne_eq, not_true_eq_false, if_false, if_true, or_self,
          EStateM.run_bind, EStateM.run_set]
        -- the first report announces the message
        have hcollects : Link.Collects { l with
            totalLength := u2be buffer 5
            remainingLength := u2be buffer 5
            sequenceNumber := 0
            currentBuffer := some 0
            channel := u2be buffer 0 } ⟨u2be buffer 0, u2be buffer 5, 0, []⟩ :=
          ⟨rfl, rfl, rfl, rfl, rfl, rfl, by simp only []; omega, Nat.zero_le _, le_rfl⟩
        have hkept : l.Kept { l with
            totalLength := u2be buffer 5
            remainingLength := u2be buffer 5
            sequenceNumber := 0
            currentBuffer := some 0
            channel := u2be buffer 0 } := ⟨rfl, rfl, rfl, rfl, rfl, rfl, rfl⟩
        obtain ⟨status, l', hrun, htook⟩ := hcollects.chunk (show 7 < ioHidEpLength by decide) rfl
        rw [EStateM.run_bind] at hrun
        simp only [hbuffer] at htook
        exact ⟨status, l', hrun, htook.of_kept hkept⟩
    · simp only [hnumber, ne_eq, not_false_eq_true, if_true, true_or]
      exact hreset
  | some a =>
    obtain ⟨hcollects, -, hcount⟩ := h
    rw [packetIntake, hcollects.number]
    by_cases hnumber : u2be buffer 3 = a.count
    · have hlater : ¬ a.count = 0 := hcount.ne'
      simp only [hnumber, hlater, ne_eq, not_true_eq_false, if_false]
      rw [hcollects.remaining]
      have hchunk := hcollects.chunk (show 5 < ioHidEpLength by decide) rfl
      rw [hbuffer, EStateM.run_bind] at hchunk
      exact hchunk
    · simp only [hnumber, ne_eq, not_false_eq_true, if_true]
      exact hreset

/-- The endpoint buffer goes back with other bytes at its fourth. -/
theorem answerPacket_run (l : Link) (data : Bytes) :
    (answerPacket data).run l = .ok .reset (ioUsbHidInit { l with
      epBuffer := l.epBuffer.splice 3 data
      prepared := l.prepared ++ [(l.epBuffer.splice 3 data).bytes]
      inFlight := l.inFlight + 1 }) := rfl

/-- A report of a host moves the transport as it moves the inbox. -/
theorem ioUsbHidReceive_spec (hlen : buffer.length = ioHidEpLength) (hknown : KnownTag buffer)
    (h : l.Assembles inbox) : ∃ status l', (ioUsbHidReceive buffer random).run l = .ok status l' ∧
      l.Took l' status (intake inbox buffer random) := by
  have hbytes := epBuffer_bytes hlen
  have hkept : l.Kept { l with
      epBuffer := (Buffer.zero _).splice 0 (buffer.take ioHidEpLength) } :=
    ⟨rfl, rfl, rfl, rfl, rfl, rfl, rfl⟩
  have hanswer {data r : Bytes} (hdata : data.length ≤ 4)
      (hr : buffer.take 3 ++ data ++ buffer.drop (3 + data.length) = r) : ∃ status l',
      (answerPacket data).run { l with
        epBuffer := (Buffer.zero _).splice 0 (buffer.take ioHidEpLength) } = .ok status l' ∧
        l.Took l' status (.answer r) := by
    have hsplice : (Buffer.splice ((Buffer.zero ioHidEpLength).splice 0
        (buffer.take ioHidEpLength)) 3 data).bytes = r := by
      rw [Buffer.splice_bytes (by simp only [ioHidEpLength]; omega), hbytes, hr]
    refine ⟨_, _, answerPacket_run _ _, rfl, quiet_init _, rfl, rfl, rfl, rfl, rfl, ?_, rfl⟩
    simp only [ioUsbHidInit, hsplice]
  simp only [ioUsbHidReceive, EStateM.run_bind, EStateM.run_modify, EStateM.run_get, hbytes]
  rw [intake]
  by_cases happdu : buffer.getD 2 0 = tagApdu
  · rw [if_pos happdu, if_pos happdu, hlen]
    have hassembles : Link.Assembles { l with
        epBuffer := (Buffer.zero _).splice 0 (buffer.take ioHidEpLength) } inbox := by
      cases inbox with
      | none => exact ⟨h.number, h.remaining, h.current⟩
      | some a =>
        obtain ⟨hc, hrest⟩ := h
        exact ⟨⟨hc.number, hc.total, hc.channel, hc.remaining, hc.current, hc.bytes, hc.fits,
          hc.within, hc.counted⟩, hrest⟩
    obtain ⟨status, l', hrun, htook⟩ := receiveApduChunk_spec hbytes hassembles
    exact ⟨status, l', hrun, htook.of_kept hkept⟩
  rw [if_neg happdu, if_neg happdu]
  by_cases hversion : buffer.getD 2 0 = 0x00
  · rw [if_pos hversion, if_pos hversion]
    exact hanswer (by decide) rfl
  rw [if_neg hversion, if_neg hversion]
  by_cases hallocate : buffer.getD 2 0 = 0x01
  · rw [if_pos hallocate, if_pos hallocate]
    have hrandom : random.bytes.length = 4 := random.size_eq
    exact hanswer hrandom.le (by rw [hrandom])
  · have hping : buffer.getD 2 0 = 0x02 := by
      rcases hknown with h | h | h | h
      · exact absurd h happdu
      · exact absurd h hversion
      · exact absurd h hallocate
      · exact h
    rw [if_neg hallocate, if_neg hallocate, if_pos hping]
    exact hanswer (Nat.zero_le _) (by
      rw [List.append_nil, List.length_nil, Nat.add_zero, List.take_append_drop])

end Receive

end IostLedger
