import IostLedger.Invariant

/-! Well-formed requests: the header and data as the handlers see them, and the reply of
a handler that exports a payload, at once or after the approval. -/
namespace IostLedger
open Memory Exec Machine

theorem command_length (ins p1 p2 : UInt8) (data : Bytes) :
    (command ins p1 p2 data).length = 5 + data.length := by
  simp only [command, List.length_append, List.length_cons, List.length_nil]

section Received
variable {d : Device} {ins p1 p2 : UInt8} {data : Bytes}

theorem received_command_apdu (hdata : data.length ≤ 255) :
    (received (command ins p1 p2 data) d).apdu.bytes =
      command ins p1 p2 data ++ d.apdu.bytes.drop (5 + data.length) := by
  have hlen := command_length ins p1 p2 data
  have hfit : 0 + (command ins p1 p2 data).length ≤ ioApduBufferSize := by
    simp only [ioApduBufferSize]
    omega
  rw [received, Buffer.splice_bytes hfit, hlen, List.take_zero, List.nil_append, Nat.zero_add]

theorem received_command_read (d : Device) (ins p1 p2 : UInt8) (hdata : data.length ≤ 255) :
    (received (command ins p1 p2 data) d).apdu.read? offsetCdata data.length = some data := by
  rw [Buffer.read?_of_le (by simp only [offsetCdata, ioApduBufferSize]; omega),
    received_command_apdu hdata, command, List.append_assoc]
  exact congrArg some (List.take_left' rfl)

theorem received_command_drop (d : Device) (ins p1 p2 : UInt8) (hdata : data.length ≤ 255) :
    (received (command ins p1 p2 data) d).apdu.bytes.drop offsetCdata =
      data ++ d.apdu.bytes.drop (5 + data.length) := by
  rw [received_command_apdu hdata, command, List.append_assoc]
  rfl

theorem command_accepts (hidle : d.apduState = .idle) (hdata : data.length ≤ 255) :
    Accepts d (command ins p1 p2 data) := by
  have hlen := command_length ins p1 p2 data
  refine ⟨hidle, by omega, by simp only [ioApduBufferSize]; omega, ?_⟩
  have happdu : (d.apdu.splice 0 (command ins p1 p2 data)).bytes = _ :=
    received_command_apdu hdata
  rw [happdu, command, List.append_assoc]
  simp [sdkReserved, cla]

theorem step_command (crypto : Crypto) (ins p1 p2 : UInt8) (hphase : d.phase = .waiting)
    (hidle : d.apduState = .idle)
    (hdata : data.length ≤ 255) :
    step crypto d (.apdu (command ins p1 p2 data)) =
      some (handleApdu crypto (5 + data.length) (received (command ins p1 p2 data) d)) := by
  rw [step, if_pos ⟨hphase, command_accepts hidle hdata⟩, command_length]

/-- A command reaches its handler unless it has no data and asks for no more. -/
theorem processApdu_command (crypto : Crypto) (d : Device) (ins p1 p2 : UInt8)
    (hdata : data.length ≤ 255) :
    (processApdu crypto (5 + data.length)).run (received (command ins p1 p2 data) d) =
      if data = [] ∧ p2 &&& p2More = 0 then
        .error (.thrown swWrongLength) (received (command ins p1 p2 data) d)
      else (dispatch crypto ins p1 p2 data.length (5 + data.length)).run
        (received (command ins p1 p2 data) d) := by
  have happdu : (received (command ins p1 p2 data) d).apdu.bytes = _ :=
    received_command_apdu hdata
  have hheader (k : ℕ) : (received (command ins p1 p2 data) d).header k =
      (command ins p1 p2 data ++ d.apdu.bytes.drop (5 + data.length)).getD k 0 := by
    rw [Device.header, happdu]
  have hcla : (received (command ins p1 p2 data) d).header offsetCla = cla := hheader 0
  have hins : (received (command ins p1 p2 data) d).header offsetIns = ins := hheader 1
  have hp1 : (received (command ins p1 p2 data) d).header offsetP1 = p1 := hheader 2
  have hp2 : (received (command ins p1 p2 data) d).header offsetP2 = p2 := hheader 3
  have hlc : (received (command ins p1 p2 data) d).header offsetLc = UInt8.ofNat data.length :=
    hheader 4
  have hlen : (UInt8.ofNat data.length).toNat = data.length :=
    UInt8.toNat_ofNat_of_lt' (by simp only [UInt8.size]; omega)
  have hmin : ¬ 5 + data.length < apduMinSize := by simp only [apduMinSize]; omega
  have hsize : ¬ data.length + apduMaxSize ≠ 5 + data.length := by
    simp only [apduMaxSize]
    omega
  have hempty : data.length = 0 ↔ data = [] := List.length_eq_zero_iff
  simp only [processApdu, EStateM.run_bind, EStateM.run_get, if_neg hmin, hcla, hins, hp1, hp2,
    hlc, hlen, hempty, if_neg hsize, ne_eq, not_true_eq_false, if_false]
  split_ifs <;> rfl

end Received

/-! The reply of a request. -/

/-- The reply that carries a payload. -/
def answer (payload : Bytes) : Bytes := payload ++ [0] ++ statusBytes swOk

/-- The release of the right button on a prompt. -/
def approval : Event := .button (buttonEvtReleased ||| buttonRight)

/-- The release of the left button on a prompt. -/
def rejection : Event := .button (buttonEvtReleased ||| buttonLeft)

/-- One request, approved by the user when it prompts. -/
def exchange (crypto : Crypto) (d : Device) (request : Bytes) : Option Device :=
  (step crypto d (.apdu request)).bind fun d' =>
    if d'.apduState = .busy then step crypto d' approval else some d'

/-- A device that waits for a request. -/
structure Ready (d : Device) : Prop where
  inv : d.Inv
  phase : d.phase = .waiting
  idle : d.apduState = .idle

section Finish
variable {crypto : Crypto} {owner : Owner} {d d₀ : Device} {p1 p2 : UInt8} {bytes : Bytes}
  {rx : ℕ} {path : List UInt32}

/-- The device after a payload has been sent at once. -/
def sentExport (owner : Owner) (p2 : UInt8) (bytes : Bytes) (d : Device) : Device :=
  replied swOk (owner.clearContext
    ((exported owner p2 bytes 0 d).setTx ((formatPayload p2 bytes).length + 1)))

theorem exported_outputLength :
    owner.outputLength (exported owner p2 bytes 0 d) = (formatPayload p2 bytes).length := by
  simp [exported]

/-- The exported payload and its terminator lie at the start of the APDU buffer. -/
theorem exported_take (hbytes : bytes.length ≤ 64) :
    (exported owner p2 bytes 0 d).apdu.bytes.take ((formatPayload p2 bytes).length + 1) =
      formatPayload p2 bytes ++ [0] := by
  have hpayload := formatPayload_length_le p2 bytes
  have hfit : 0 + (formatPayload p2 bytes ++ [0]).length ≤ ioApduBufferSize := by
    rw [List.length_append, List.length_singleton]
    simp only [ioApduBufferSize]
    omega
  rw [exported, Owner.setOutputLength_apdu, Owner.setUi_apdu, Buffer.take_splice_end hfit
    (by rw [List.length_append, List.length_singleton, Nat.zero_add]), List.take_zero,
    List.nil_append]

/-- In silent mode the payload is sent at once. -/
theorem handleApdu_silent (hbytes : bytes.length ≤ 64) (hp1 : p1 ≠ p1Confirm)
    (htx : d₀.tx = 0) (hbusy : d₀.apduState = .busy) (hflags : d₀.flags = 0)
    (hrun : (processApdu crypto rx).run d =
      (finishExport owner p1 (promptLabel owner ++ ascii "%u?") path).run
        (exported owner p2 bytes 0 d₀)) :
    handleApdu crypto rx d = sentExport owner p2 bytes d₀ := by
  have hpayload := formatPayload_length_le p2 bytes
  have hfinish : (finishExport owner p1 (promptLabel owner ++ ascii "%u?") path).run
      (exported owner p2 bytes 0 d₀) = .error (.thrown swOk) (owner.clearContext
        ((exported owner p2 bytes 0 d₀).setTx ((formatPayload p2 bytes).length + 1))) := by
    have htx' : (exported owner p2 bytes 0 d₀).tx = 0 := by simpa [exported] using htx
    rw [finishExport, if_pos hp1, replyExport_run, exported_outputLength, htx', Nat.zero_add,
      Nat.mod_eq_of_lt (by omega)]
  simp only [handleApdu, hrun, hfinish]
  rw [caught_eq (by decide) (by simpa [exported] using hbusy) (by simpa [exported] using hflags)
    (by rw [Owner.clearContext_tx, setTx_tx]; simp only [ioApduBufferSize]; omega),
    clearUnless_swOk]
  rfl

theorem sentExport_wire (hbytes : bytes.length ≤ 64) :
    (sentExport owner p2 bytes d).wire = d.wire ++ [answer (formatPayload p2 bytes)] := by
  have hpayload := formatPayload_length_le p2 bytes
  rw [sentExport, replied_wire, Owner.clearContext_wire, Owner.clearContext_apdu,
    Owner.clearContext_tx, setTx_apdu, setTx_tx, exported_take hbytes, answer]
  · simp [exported]
  · rw [Owner.clearContext_tx, setTx_tx]
    simp only [ioApduBufferSize]
    omega

/-- In confirm mode the payload stays in the APDU buffer behind the prompt. -/
theorem handleApdu_confirm (htx : d₀.tx = 0) (hflags : d₀.flags = 0)
    (hphase : d₀.phase = .waiting)
    (hrun : (processApdu crypto rx).run d =
      (finishExport owner p1Confirm (promptLabel owner ++ ascii "%u?") path).run
        (exported owner p2 bytes 0 d₀)) :
    ∃ b, cString b = (promptText (promptLabel owner) (keyNumber path)).take (displaySize - 1) ∧
      handleApdu crypto rx d = prompted owner b (exported owner p2 bytes 0 d₀) := by
  obtain ⟨b, htext, hprompt⟩ := uxApprove_run (promptLabel_ok owner) path owner
    (exported owner p2 bytes 0 d₀)
  refine ⟨b, htext, ?_⟩
  have hne : ¬ p1Confirm ≠ p1Confirm := by simp
  have hwait : ¬ (prompted owner b (exported owner p2 bytes 0 d₀)).phase = .returned := by
    simp [prompted, exported, hphase]
  have hdefer : (prompted owner b (exported owner p2 bytes 0 d₀)).flags = ioAsynchReply := by
    simp [prompted, exported, hflags]
  simp only [handleApdu, hrun, finishExport, if_neg hne, hprompt, if_neg hwait]
  rw [exchangeNext_deferred hdefer, setTx_self]
  simpa [prompted, exported] using htx

/-- An approval sends the payload that lies behind the prompt. -/
theorem approved_wire {u : UiContext} {b : Buffer (displaySize + 1)} (hbytes : bytes.length ≤ 64) :
    (approved owner u (prompted owner b (exported owner p2 bytes 0 d))).wire =
      d.wire ++ [answer (formatPayload p2 bytes)] := by
  have hpayload := formatPayload_length_le p2 bytes
  have hout : owner.outputLength (prompted owner b (exported owner p2 bytes 0 d)) =
      (formatPayload p2 bytes).length := by
    cases owner <;> rfl
  have hapdu : (prompted owner b (exported owner p2 bytes 0 d)).apdu =
      (exported owner p2 bytes 0 d).apdu := by
    cases owner <;> rfl
  have hwire : (prompted owner b (exported owner p2 bytes 0 d)).wire = d.wire := by
    cases owner <;> rfl
  simp only [approved, Owner.setUi_wire, Owner.clearContext_wire]
  rw [replied_wire _ (by rw [setTx_tx, hout]; simp only [ioApduBufferSize]; omega)]
  simp only [setTx_wire, setTx_apdu, setTx_tx, hout, hapdu, hwire, exported_take hbytes, answer]

end Finish

/-! Requests that end in an exception. -/

/-- A request that changes no more than the contexts and the APDU buffer. -/
structure Untouched (d d₀ : Device) : Prop extends SameLoop d d₀ where
  bounded : d₀.Bounded
  screen : d₀.screen = d.screen
  flags : d₀.flags = d.flags

section Ends
variable {crypto : Crypto} {d d₁ : Device} {ins p1 p2 : UInt8} {data : Bytes} {e : UInt16}

theorem step_thrown (hready : Ready d) (hdata : data.length ≤ 255)
    (hrun : (processApdu crypto (5 + data.length)).run (received (command ins p1 p2 data) d) =
      .error (.thrown e) d₁)
    (hsame : Untouched (received (command ins p1 p2 data) d) d₁)
    (htx : d₁.tx + 2 ≤ ioApduBufferSize) (he : e ≠ SdkException.ioReset.code) :
    ∃ d', step crypto d (.apdu (command ins p1 p2 data)) = some d' ∧ Ready d' ∧
      d'.wire = [d₁.apdu.bytes.take d₁.tx ++ statusBytes (statusOf e)] ∧
      d'.sign = (clearUnless e d₁).sign ∧ d'.pk = (clearUnless e d₁).pk := by
  have hstep := step_command crypto ins p1 p2 hready.phase hready.idle hdata
  have hwire : d₁.wire = [] := hsame.wire
  have hfinal : handleApdu crypto (5 + data.length) (received (command ins p1 p2 data) d) =
      replied (statusOf e) (clearUnless e d₁) := by
    rw [handleApdu, hrun]
    exact caught_eq he (hsame.apduState.trans rfl) (hsame.flags.trans rfl) htx
  rw [hfinal] at hstep
  refine ⟨_, hstep, ⟨step_inv hready.inv hstep, ?_, rfl⟩, ?_, rfl, rfl⟩
  · rw [replied_phase, clearUnless_phase]
    exact hsame.phase.trans hready.phase
  · rw [replied_wire _ (by rwa [clearUnless_tx]), clearUnless_wire, clearUnless_apdu,
      clearUnless_tx, hwire, List.nil_append]

/-- A refused request: the status alone is sent, and both contexts are cleared. -/
theorem step_refused (hready : Ready d) (hdata : data.length ≤ 255)
    (hrun : (processApdu crypto (5 + data.length)).run (received (command ins p1 p2 data) d) =
      .error (.thrown e) d₁)
    (hsame : Untouched (received (command ins p1 p2 data) d) d₁) (htx : d₁.tx = 0)
    (he : e ∈ [swWrongLength, swInvalidP1P2, swInsNotSupported, swInternalError]) :
    ∃ d', step crypto d (.apdu (command ins p1 p2 data)) = some d' ∧ Ready d' ∧
      d'.wire = [statusBytes e] ∧ d'.sign = .zero ∧ d'.pk = .zero := by
  have hcode : e ≠ SdkException.ioReset.code ∧ statusOf e = e ∧ e &&& 0xF000 ≠ 0x9000 := by
    simp only [List.mem_cons, List.not_mem_nil, or_false] at he
    rcases he with rfl | rfl | rfl | rfl <;> decide
  obtain ⟨d', hstep, hready', hwire, hsign, hpk⟩ :=
    step_thrown hready hdata hrun hsame (by rw [htx]; decide) hcode.1
  refine ⟨d', hstep, hready', ?_, ?_, ?_⟩
  · rw [hwire, htx, List.take_zero, List.nil_append, hcode.2.1]
  · rw [hsign, clearUnless_of_refusal hcode.2.2]
    rfl
  · rw [hpk, clearUnless_of_refusal hcode.2.2]
    rfl

end Ends

/-! Requests that export a payload. -/

/-- The instruction of a handler. -/
def Owner.ins : Owner → UInt8
  | .signMessage => insSignMessage
  | .getPublicKey => insGetPublicKey

/-- For both values of P1 the handler of `owner` exports `bytes` under the key of `path`. -/
def Exports (crypto : Crypto) (owner : Owner) (d : Device) (p2 : UInt8) (data bytes : Bytes)
    (path : List UInt32) : Prop :=
  ∀ p1, p1 = p1Confirm ∨ p1 = p1Silent → ∃ d₀,
    Untouched (received (command owner.ins p1 p2 data) d) d₀ ∧ d₀.tx = 0 ∧
    (owner = .getPublicKey → d₀.sign = d.sign) ∧
    (processApdu crypto (5 + data.length)).run (received (command owner.ins p1 p2 data) d) =
      (finishExport owner p1 (promptLabel owner ++ ascii "%u?") path).run
        (exported owner p2 bytes 0 d₀)

/-- A prompt is open over the payload of an export. -/
structure Pending (owner : Owner) (payload text : Bytes) (d : Device) : Prop where
  inv : d.Inv
  phase : d.phase = .waiting
  busy : d.apduState = .busy
  screen : d.screen = owner.approveScreen
  wire : d.wire = []
  text : cString (owner.ui d).approveL2 = text
  outputLength : owner.outputLength d = payload.length
  payload : d.apdu.bytes.take (payload.length + 1) = payload ++ [0]

section Exports
variable {crypto : Crypto} {owner : Owner} {d : Device} {p2 : UInt8} {data bytes : Bytes}
  {path : List UInt32}

/-- In silent mode the payload is the reply. -/
theorem Exports.silent (h : Exports crypto owner d p2 data bytes path) (hready : Ready d)
    (hdata : data.length ≤ 255) (hbytes : bytes.length ≤ 64) :
    ∃ d', step crypto d (.apdu (command owner.ins p1Silent p2 data)) = some d' ∧ Ready d' ∧
      d'.wire = [answer (formatPayload p2 bytes)] ∧
      (owner = .signMessage → d'.sign = .zero) ∧
      (owner = .getPublicKey → d'.sign = d.sign) := by
  obtain ⟨d₀, hsame, htx, hsign, hrun⟩ := h p1Silent (Or.inr rfl)
  have hstep := step_command crypto owner.ins p1Silent p2 hready.phase hready.idle hdata
  have hfinal := handleApdu_silent hbytes (by decide) htx
    (hsame.apduState.trans rfl) (hsame.flags.trans rfl) hrun
  rw [hfinal] at hstep
  refine ⟨_, hstep, ⟨step_inv hready.inv hstep, ?_, rfl⟩, ?_, ?_, ?_⟩
  · have hphase : d₀.phase = .waiting := hsame.phase.trans hready.phase
    simpa [sentExport, exported] using hphase
  · rw [sentExport_wire hbytes, hsame.wire]
    rfl
  · rintro rfl
    rfl
  · rintro rfl
    exact hsign rfl

/-- In confirm mode the payload waits behind the prompt. -/
theorem Exports.confirm (h : Exports crypto owner d p2 data bytes path) (hready : Ready d)
    (hdata : data.length ≤ 255) (hbytes : bytes.length ≤ 64) :
    ∃ d', step crypto d (.apdu (command owner.ins p1Confirm p2 data)) = some d' ∧
      Pending owner (formatPayload p2 bytes)
        ((promptText (promptLabel owner) (keyNumber path)).take (displaySize - 1)) d' ∧
      (owner = .getPublicKey → d'.sign = d.sign) := by
  obtain ⟨d₀, hsame, htx, hsign, hrun⟩ := h p1Confirm (Or.inl rfl)
  have hphase : d₀.phase = .waiting := hsame.phase.trans hready.phase
  have hwire : d₀.wire = [] := hsame.wire
  have hbusy : d₀.apduState = .busy := hsame.apduState
  have hstep := step_command crypto owner.ins p1Confirm p2 hready.phase hready.idle hdata
  obtain ⟨b, htext, hfinal⟩ := handleApdu_confirm
    htx (hsame.flags.trans rfl) hphase hrun
  rw [hfinal] at hstep
  refine ⟨_, hstep, ⟨step_inv hready.inv hstep, ?_, ?_, rfl, ?_, ?_, ?_, ?_⟩, ?_⟩
  · simpa [prompted, exported] using hphase
  · simpa [prompted, exported] using hbusy
  · simpa [prompted, exported] using hwire
  · rw [← htext]
    cases owner <;> rfl
  · cases owner <;> rfl
  · have htake : (exported owner p2 bytes 0 d₀).apdu.bytes.take _ = _ := exported_take hbytes
    cases owner <;> exact htake
  · rintro rfl
    exact hsign rfl

/-! What the buttons do at a prompt. -/

theorem Pending.step_button (crypto : Crypto) {payload text : Bytes}
    (h : Pending owner payload text d)
    (mask : UInt32) : step crypto d (.button mask) = some (handleButton mask d) := by
  have hself : { d with wire := [] } = d := by rw [← h.wire]
  rw [step, if_pos h.phase, hself]

theorem Pending.approve (crypto : Crypto) {payload text : Bytes} (h : Pending owner payload text d)
    (hlen : payload.length ≤ 128) :
    ∃ d', step crypto d approval = some d' ∧ Ready d' ∧ d'.wire = [answer payload] ∧
      (owner = .getPublicKey → d'.sign = d.sign) := by
  obtain ⟨u, -, hrun⟩ := uiApproveButton_right owner h.inv.bounded h.busy (h.inv.tx h.phase)
  have hpush : handleButton (buttonEvtReleased ||| buttonRight) d = approved owner u d := by
    rw [handleButton, buttonPush_approve h.screen, hrun]
  have hstep : step crypto d approval = some (approved owner u d) := by
    rw [approval, h.step_button, hpush]
  refine ⟨_, hstep, ⟨step_inv h.inv hstep, ?_, ?_⟩, ?_, ?_⟩
  · simpa [approved] using h.phase
  · simp [approved]
  · simp only [approved, Owner.setUi_wire, Owner.clearContext_wire]
    rw [replied_wire _ (by rw [setTx_tx, h.outputLength]; simp only [ioApduBufferSize]; omega),
      setTx_wire, setTx_apdu, setTx_tx, h.outputLength, h.payload, h.wire, answer,
      List.nil_append]
  · rintro rfl
    rfl

theorem Pending.reject (crypto : Crypto) {payload text : Bytes} (h : Pending owner payload text d) :
    ∃ d', step crypto d rejection = some d' ∧ Ready d' ∧
      d'.wire = [statusBytes swUserRejected] := by
  have hpush : handleButton (buttonEvtReleased ||| buttonLeft) d = rejected owner d := by
    rw [handleButton, buttonPush_approve h.screen,
      uiApproveButton_left h.busy (h.inv.tx h.phase)]
  have hstep : step crypto d rejection = some (rejected owner d) := by
    rw [rejection, h.step_button, hpush]
  refine ⟨_, hstep, ⟨step_inv h.inv hstep, ?_, ?_⟩, ?_⟩
  · simpa [rejected, uiIdle] using h.phase
  · simp [rejected, uiIdle]
  · exact rejected_wire owner h.wire

theorem Pending.ignore (crypto : Crypto) {payload text : Bytes} {mask : UInt32}
    (h : Pending owner payload text d)
    (hleft : mask ≠ buttonEvtReleased ||| buttonLeft)
    (hright : mask ≠ buttonEvtReleased ||| buttonRight) :
    step crypto d (.button mask) = some d := by
  rw [h.step_button, handleButton, buttonPush_approve h.screen,
    uiApproveButton_other hleft hright]

/-- In both modes the request ends with the payload as its reply. -/
theorem Exports.exchange (h : Exports crypto owner d p2 data bytes path) (hready : Ready d)
    (hdata : data.length ≤ 255) (hbytes : bytes.length ≤ 64) {p1 : UInt8}
    (hp1 : p1 = p1Confirm ∨ p1 = p1Silent) :
    ∃ d', exchange crypto d (command owner.ins p1 p2 data) = some d' ∧ Ready d' ∧
      d'.wire = [answer (formatPayload p2 bytes)] ∧
      (owner = .getPublicKey → d'.sign = d.sign) := by
  have hpayload := formatPayload_length_le p2 bytes
  rcases hp1 with rfl | rfl
  · obtain ⟨d₁, hstep, hpending, hsign⟩ := h.confirm hready hdata hbytes
    obtain ⟨d', hstep', hready', hwire, hsign'⟩ := hpending.approve crypto (by omega)
    refine ⟨d', ?_, hready', hwire, fun ho => (hsign' ho).trans (hsign ho)⟩
    rw [IostLedger.exchange, hstep, Option.bind_some, if_pos hpending.busy, hstep']
  · obtain ⟨d', hstep, hready', hwire, -, hsign⟩ := h.silent hready hdata hbytes
    refine ⟨d', ?_, hready', hwire, hsign⟩
    have hidle : ¬ d'.apduState = .busy := by
      rw [hready'.idle]
      decide
    rw [IostLedger.exchange, hstep, Option.bind_some, if_neg hidle]

end Exports

end IostLedger
