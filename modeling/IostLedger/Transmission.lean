import IostLedger.Reception
import IostLedger.Consent

/-! Transmission: the reply of the application leaves in its reports, one for each
acknowledgement of the host, and the APDU buffer keeps it until the last. -/
namespace IostLedger
open Memory Exec Framing

/-- The reports of `reply` below number `k` have been given to the endpoint. -/
structure Link.Sends (l : Link) (reply : Bytes) (k : ℕ) : Prop where
  number : l.sequenceNumber = k
  remaining : l.remainingLength = reply.length - hidLayout.offset k
  current : l.currentBuffer = some (min (hidLayout.offset k) reply.length)
  bytes : l.device.apdu.bytes.take reply.length = reply
  fits : reply.length ≤ ioApduBufferSize

/-- One more report has been given to the endpoint. -/
structure Link.Sent (l l' : Link) (buffer : Bytes) : Prop where
  device : l'.device = l.device
  channel : l'.channel = l.channel
  apduState : l'.apduState = l.apduState
  media : l'.media = l.media
  apduLength : l'.apduLength = l.apduLength
  transmitting : l'.transmitting = l.transmitting
  prepared : l'.prepared = l.prepared ++ [buffer]
  inFlight : l'.inFlight = l.inFlight + 1

section Chunks
variable {l : Link} {reply : Bytes} {k : ℕ}

/-- The buffer filled up to a report. -/
theorem zero_write {bytes : Bytes} (h : bytes.length ≤ ioHidEpLength) :
    ∃ epBuffer, (Buffer.zero ioHidEpLength).write? 0 bytes = some epBuffer ∧
      epBuffer.bytes = padded bytes := by
  refine ⟨_, Buffer.write?_of_le (by omega), ?_⟩
  rw [Buffer.splice_bytes (by omega), List.take_zero, List.nil_append, Buffer.zero_bytes,
    List.drop_replicate, Nat.zero_add, padded]

theorem room_eq (k : ℕ) :
    (if k = 0 then ioHidEpLength - 7 else ioHidEpLength - 5) = hidLayout.room k := by
  cases k <;> rfl

/-- The header of a report says what remains only where nothing has been sent. -/
theorem reportHeader_remaining (channel : ℕ) (m : Bytes) (k : ℕ) :
    reportHeader channel (m.length - hidLayout.offset k) k = reportHeader channel m.length k := by
  cases k <;> rfl

theorem Link.Sends.report (h : l.Sends reply k) (hk : hidLayout.offset k < reply.length) :
    ∃ l', ioUsbHidSent.run l = .ok () l' ∧ l'.Sends reply (k + 1) ∧
      l.Sent l' (report l.channel reply k) := by
  have hfits := h.fits
  have hremaining := h.remaining
  have hcurrent : l.currentBuffer = some (hidLayout.offset k) := by
    rw [h.current, Nat.min_eq_left hk.le]
  have hpiece := hidLayout.piece_length_le reply k
  have hlen : (hidLayout.piece reply k).length =
      if hidLayout.room k < l.remainingLength then hidLayout.room k else l.remainingLength := by
    rw [Layout.piece_length, hremaining]
    split_ifs <;> omega
  have hread : l.device.apdu.read? (hidLayout.offset k) (hidLayout.piece reply k).length =
      some (hidLayout.piece reply k) := by
    have hbytes := h.bytes
    rw [Buffer.read?_of_le (by rw [Layout.piece_length]; omega)]
    congr 1
    -- the piece lies inside the reply, which is the head of the buffer
    have hhead : (l.device.apdu.bytes.drop (hidLayout.offset k)).take
        (reply.length - hidLayout.offset k) = reply.drop (hidLayout.offset k) := by
      rw [← List.drop_take, hbytes]
    rw [Layout.piece_length, ← List.take_take, hhead, Layout.piece]
  have hreport : (reportHeader l.channel reply.length k ++ hidLayout.piece reply k).length ≤
      ioHidEpLength := by
    have hroom := room_le k
    rw [List.length_append, reportHeader_length]
    omega
  obtain ⟨epBuffer, hwrite, hep⟩ := zero_write hreport
  have hsome : l.remainingLength ≠ 0 := by omega
  have hnumber : (l.sequenceNumber + 1) % 2 ^ 32 = k + 1 := by
    have hle := hidLayout.le_offset_self k
    simp only [ioApduBufferSize] at hfits
    rw [h.number]
    omega
  have hrun : ioUsbHidSent.run l = .ok () (Link.advance (hidLayout.piece reply k).length { l with
      epBuffer := epBuffer
      prepared := l.prepared ++ [epBuffer.bytes]
      inFlight := l.inFlight + 1 }) := by
    have hchunk : ioUsbHidSent.run l = (sendChunk (hidLayout.offset k)).run l := by
      simp only [ioUsbHidSent, EStateM.run_bind, EStateM.run_get, hcurrent, if_pos hsome]
    have hheader : reportHeader l.channel l.remainingLength l.sequenceNumber =
        reportHeader l.channel reply.length k := by
      rw [hremaining, h.number, reportHeader_remaining]
    have hroom : (if l.sequenceNumber = 0 then ioHidEpLength - 7 else ioHidEpLength - 5) =
        hidLayout.room k := by rw [h.number, room_eq]
    rw [hchunk]
    simp only [sendChunk, EStateM.run_bind, EStateM.run_get, hroom, ← hlen, hread, inRange_some,
      run_ofChecked_ok, hheader, hwrite, EStateM.run_set]
    rfl
  refine ⟨_, hrun, ⟨hnumber, ?_, ?_, h.bytes, hfits⟩, ⟨rfl, rfl, rfl, rfl, rfl, rfl, ?_, rfl⟩⟩
  · change l.remainingLength - (hidLayout.piece reply k).length = _
    rw [hremaining, Layout.piece_length, Layout.offset_succ]
    omega
  · change l.currentBuffer.map _ = _
    rw [hcurrent, Option.map_some, Layout.piece_length, Layout.offset_succ]
    congr 1
    omega
  · change l.prepared ++ [epBuffer.bytes] = _
    rw [hep, IostLedger.report]

/-- With nothing left to send the transport is quiet again. -/
theorem ioUsbHidSent_done (h : l.remainingLength = 0) :
    ioUsbHidSent.run l = .ok () l.sentAll := by
  simp only [ioUsbHidSent, EStateM.run_bind, EStateM.run_get, h]
  cases l.currentBuffer <;> rfl

/-- The first report of a reply at the head of the APDU buffer. -/
theorem ioUsbHidSend_run (hbytes : l.device.apdu.bytes.take reply.length = reply)
    (hsome : reply ≠ []) (hfits : reply.length ≤ ioApduBufferSize) :
    ∃ l', (ioUsbHidSend reply.length).run l = .ok () l' ∧ l'.Sends reply 1 ∧
      l.Sent l' (report l.channel reply 0) := by
  have hpos : 0 < reply.length := List.length_pos_iff.mpr hsome
  have hstart : Link.Sends { l with
      sequenceNumber := 0
      currentBuffer := some 0
      remainingLength := reply.length
      totalLength := reply.length } reply 0 :=
    ⟨rfl, rfl, by rw [Layout.offset, Nat.zero_min], hbytes, hfits⟩
  obtain ⟨l', hrun, hsends, hsent⟩ := hstart.report hpos
  refine ⟨l', ?_, hsends, hsent.device, hsent.channel, hsent.apduState, hsent.media,
    hsent.apduLength, hsent.transmitting, hsent.prepared, hsent.inFlight⟩
  rw [ioUsbHidSend, if_pos hpos.ne', EStateM.run_bind, EStateM.run_modify]
  exact hrun

end Chunks

/-! The reply of an event stands at the head of the APDU buffer when the event is over. -/

/-- The replies of the last event stand at the head of the APDU buffer. -/
def Device.HasReplies (d : Device) : Prop :=
  ∀ reply ∈ d.wire, d.apdu.bytes.take reply.length = reply ∧ reply.length ≤ ioApduBufferSize

section Replies
variable {d d' : Device} {crypto : Crypto}

theorem hasReplies_of_nil (h : d.wire = []) : d.HasReplies := by
  intro reply hreply
  rw [h] at hreply
  cases hreply

theorem replied_hasReplies {sw : UInt16} (hwire : d.wire = []) (htx : d.tx + 2 ≤ ioApduBufferSize) :
    (replied sw d).HasReplies := by
  intro reply hreply
  rw [replied_wire sw htx, hwire, List.nil_append, List.mem_singleton] at hreply
  have hlen : reply.length = d.tx + 2 := by
    rw [hreply, List.length_append, List.length_take, Buffer.size_eq, statusBytes_length]
    omega
  refine ⟨?_, by omega⟩
  rw [hlen, hreply]
  exact Buffer.take_splice_end (by simpa using htx) rfl

theorem handleApdu_hasReplies {rx : ℕ} (hd : d.Bounded) (htx : d.tx = 0) (hflags : d.flags = 0)
    (hbusy : d.apduState = .busy) (hphase : d.phase = .waiting) (hwire : d.wire = [])
    (hrx : 1 ≤ rx) : (handleApdu crypto rx d).HasReplies := by
  have hwp := processApdu_wp crypto hd htx hrx
  unfold Wp at hwp
  unfold handleApdu
  cases hrun : (processApdu crypto rx).run d with
  | ok a d₁ =>
    simp only [hrun] at hwp ⊢
    rcases hwp with ⟨owner, h⟩ | ⟨-, -, rfl⟩
    · have hwait : ¬ d₁.phase = .returned := by rw [h.phase, hphase]; decide
      rw [if_neg hwait, exchangeNext_deferred (by rw [h.flags, hflags]; rfl)]
      exact hasReplies_of_nil (h.wire.trans hwire)
    · exact hasReplies_of_nil hwire
  | error fault d₁ =>
    simp only [hrun] at hwp ⊢
    rcases hwp with h | ⟨rfl, rfl⟩
    · have hbusy₁ : d₁.apduState = .busy := h.apduState.trans hbusy
      have hflags₁ : d₁.flags = 0 := h.flags.trans hflags
      have hwire₁ : d₁.wire = [] := h.wire.trans hwire
      rcases h.verdict with ⟨hrefuse, htx₁⟩ | ⟨rfl, hbound, htx₁⟩
      · obtain ⟨e, rfl, herror, hreset⟩ := hrefuse.cases
        by_cases he : e = SdkException.ioReset.code
        · rw [he, caught_reset]
          exact hasReplies_of_nil hwire₁
        · have hfit : d₁.tx + 2 ≤ ioApduBufferSize := by rw [htx₁, htx]; decide
          rw [caught_eq he hbusy₁ hflags₁ hfit]
          exact replied_hasReplies (by simpa using hwire₁) (by simpa using hfit)
      · have hfit : d₁.tx + 2 ≤ ioApduBufferSize := by simp only [ioApduBufferSize]; omega
        rw [caught_eq (by decide) hbusy₁ hflags₁ hfit, clearUnless_swOk]
        exact replied_hasReplies hwire₁ hfit
    · have htx₁ : (resetting d).tx = 0 := htx
      have hreset : (resetting d).flags = ioResetAfterReplied := by rw [resetting, hflags]; rfl
      have hfit : (resetting d).tx + 2 ≤ ioApduBufferSize := by rw [htx₁]; decide
      rw [@caught_exit (resetting d) hbusy hreset hfit]
      exact @replied_hasReplies (resetting d) swOk hwire hfit

theorem step_apdu_hasReplies {bytes : Bytes} (hinv : d.Inv)
    (h : step crypto d (.apdu bytes) = some d') : d'.HasReplies := by
  obtain ⟨hphase, ⟨-, hlen, -, -⟩, rfl⟩ := step_apdu h
  exact handleApdu_hasReplies ⟨hinv.bounded.sign, hinv.bounded.pk⟩ (hinv.tx hphase) rfl rfl hphase
    rfl hlen

theorem step_button_hasReplies {mask : UInt32} (hinv : d.Inv)
    (h : step crypto d (.button mask) = some d') : d'.HasReplies := by
  have hphase := (step_button h).1
  rcases step_button_outcome hinv h with @⟨entries, currentEntry, -, rfl⟩ |
    @⟨owner, u, idle, -, -, rfl⟩ | @⟨owner, -, -, rfl⟩ | @⟨owner, u, -, -, -, rfl⟩ | ⟨-, -, -, rfl⟩
  · apply hasReplies_of_nil
    rcases uxMenuElementsButton_cases entries currentEntry mask { d with wire := [] } with
      heq | heq | ⟨_, _, heq⟩
    · rw [heq]
    · rw [heq]
      rfl
    · rw [heq]
  · apply hasReplies_of_nil
    cases idle <;> simp [uiIdle]
  · have hreplied := @replied_hasReplies (({ d with wire := [] } : Device).setTx 0) swUserRejected rfl
      (by rw [setTx_tx]; decide)
    intro reply hreply
    simp only [rejected, uiIdle, Owner.clearContext_wire, Owner.clearContext_apdu] at hreply ⊢
    exact hreplied reply hreply
  · have hout := hinv.bounded.output owner
    have hreplied := @replied_hasReplies
      (({ d with wire := [] } : Device).setTx (owner.outputLength d + 1)) swOk rfl (by
        simp only [setTx_tx, ioApduBufferSize]
        omega)
    have hlength : owner.outputLength { d with wire := [] } = owner.outputLength d := by
      cases owner <;> rfl
    intro reply hreply
    rw [approved, hlength] at hreply ⊢
    simp only [Owner.setUi_wire, Owner.clearContext_wire, Owner.setUi_apdu,
      Owner.clearContext_apdu] at hreply ⊢
    exact hreplied reply hreply
  · exact hasReplies_of_nil rfl

/-- A request is answered at once or left open. -/
theorem step_apdu_open {s : Suite} {bytes : Bytes} (hinv : d.Inv)
    (h : step s.crypto d (.apdu bytes) = some d') :
    d'.apduState = if d'.wire = [] then .busy else .idle := by
  rcases step_apdu_outcome hinv h with ⟨h⟩ | ⟨h⟩ | ⟨h⟩ | ⟨rfl⟩ | ⟨-, -, rfl⟩ | ⟨hthrow, -, -⟩
  · rw [if_neg (by simp [h.wire]), h.apduState]
  · rw [if_neg (by simp [h.wire]), h.apduState]
  · have hwire : d'.wire = [] := h.wire
    rw [if_pos hwire]
    exact h.apduState
  · rfl
  · rfl
  · exact absurd hthrow (s.not_mayThrow .ioReset)

/-- Without an open request a button touches neither the exchange nor the APDU buffer. -/
theorem step_button_idle {mask : UInt32} (hinv : d.Inv) (hidle : d.apduState = .idle)
    (h : step crypto d (.button mask) = some d') :
    d'.wire = [] ∧ d'.apduState = .idle ∧ d'.apdu = d.apdu := by
  have hscreen := hinv.not_approve (step_button h).1 hidle
  rcases step_button_outcome hinv h with @⟨entries, currentEntry, -, rfl⟩ |
    @⟨owner, u, idle, -, -, rfl⟩ | @⟨owner, happrove, -, rfl⟩ | @⟨owner, u, happrove, -, -, rfl⟩ |
    @⟨owner, happrove, -, -, rfl⟩
  · rcases uxMenuElementsButton_cases entries currentEntry mask { d with wire := [] } with
      heq | heq | ⟨_, _, heq⟩ <;> rw [heq] <;> exact ⟨rfl, hidle, rfl⟩
  · cases idle <;> simp [uiIdle, hidle]
  all_goals exact absurd happrove (hscreen owner)

/-- A button answers a request that has been left open, or leaves it so. -/
theorem step_button_open {s : Suite} {mask : UInt32} (hinv : d.Inv)
    (hbusy : d.apduState = .busy) (h : step s.crypto d (.button mask) = some d') :
    d'.apduState = if d'.wire = [] then .busy else .idle := by
  have hbalance := (step_button_balance (settled_of_waiting hinv (step_button h).1) h).2
  rw [outstanding_busy hbusy] at hbalance
  cases hstate : d'.apduState with
  | idle =>
    rw [outstanding_idle hstate] at hbalance
    rw [if_neg (by intro hwire; rw [hwire] at hbalance; cases hbalance)]
  | busy =>
    rw [outstanding_busy hstate] at hbalance
    rw [if_pos (List.length_eq_zero_iff.mp (by omega))]

end Replies

end IostLedger
