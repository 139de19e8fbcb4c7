import IostLedger.AppMain
import IostLedger.Frames

/-! The application behind its USB HID transport: `os_io_usb.c`, the callbacks of the USB stack
that call it, and the waits of `io_exchange` in which they run. -/
namespace IostLedger
open Memory Exec

/-- `G_io_app.apdu_media`, as far as USB HID uses it. -/
inductive ApduMedia where
  | none | usbHid
  deriving DecidableEq, Repr

/-- The application and the globals of its transport. The application counts a reply as given
when its transmission begins; `transmitting` lasts until the last report is acknowledged, and
`apduState` is that of `G_io_app` throughout. -/
structure Link where
  device : Device
  /-- `G_io_usb_ep_buffer`. -/
  epBuffer : Buffer ioHidEpLength
  totalLength : ℕ
  channel : ℕ
  remainingLength : ℕ
  sequenceNumber : ℕ
  /-- `G_io_usb_hid_current_buffer`: `NULL`, or an index of `G_io_apdu_buffer`. -/
  currentBuffer : Option ℕ
  apduState : ApduState
  media : ApduMedia
  apduLength : ℕ
  transmitting : Bool
  /-- The reports given to the endpoint while one event is handled. -/
  prepared : List Bytes
  /-- How many reports the host has not fetched. -/
  inFlight : ℕ
  deriving DecidableEq

abbrev LinkRun (α : Type) := EStateM Fault Link α

/-- `io_usb_hid_receive_status_t`. -/
inductive HidStatus where
  | reset | moreData | received
  deriving DecidableEq, Repr

/-- `io_usb_send_apdu_data`. -/
def ioUsbSendApduData (buffer : Bytes) : LinkRun Unit :=
  modify fun l => { l with prepared := l.prepared ++ [buffer], inFlight := l.inFlight + 1 }

/-- An assignment to `G_io_app.apdu_state`, which the application reads as well. -/
def Link.setApduState (state : ApduState) (l : Link) : Link :=
  { l with apduState := state, device := { l.device with apduState := state } }

/-- `io_usb_hid_init`. -/
def ioUsbHidInit (l : Link) : Link :=
  { l with sequenceNumber := 0, remainingLength := 0, currentBuffer := none }

/-- `apdu_reset`. -/
def apduReset : LinkRun HidStatus := do
  modify ioUsbHidInit
  pure .reset

/-- A subtraction from an `unsigned short`. -/
def subU16 (l k : ℕ) : ℕ := (l + 2 ^ 16 - k) % 2 ^ 16

/-- The application with `data` stored where the next chunk belongs. -/
def Link.store (l : Link) (data : Bytes) : Option Device :=
  match l.currentBuffer with
  | some i => (l.device.apdu.write? i data).map fun apdu => { l.device with apdu := apdu }
  | none => if data = [] then some l.device else none

/-- The position behind a chunk of `len` bytes. -/
def Link.advance (len : ℕ) (l : Link) : Link :=
  { l with
    currentBuffer := l.currentBuffer.map fun i => i + len
    remainingLength := l.remainingLength - len
    sequenceNumber := (l.sequenceNumber + 1) % 2 ^ 32 }

/-- The next `len` bytes of the APDU are at `off` of the endpoint buffer. -/
def appendChunk (off len : ℕ) : LinkRun Unit := do
  let l ← get
  let data ← ofChecked (inRange (l.epBuffer.read? off len))
  let device ← ofChecked (inRange (l.store data))
  set (Link.advance len { l with device := device })

/-- The end of `io_usb_hid_receive`. -/
def receiveStatus : LinkRun HidStatus := do
  let l ← get
  if l.remainingLength ≠ 0 then pure .moreData
  else do
    modify ioUsbHidInit
    pure .received

/-- `io_usb_hid_receive` on an APDU packet; `l` is the length of the report. -/
def receiveApduChunk (l : ℕ) : LinkRun HidStatus := do
  let link ← get
  let ep := link.epBuffer.bytes
  if u2be ep 3 ≠ link.sequenceNumber then apduReset
  else
    let l := subU16 l 5
    if link.sequenceNumber = 0 then do
      set { link with totalLength := u2be ep 5 }
      if ioApduBufferSize < u2be ep 5 then apduReset
      else do
        set { link with
          totalLength := u2be ep 5
          remainingLength := u2be ep 5
          currentBuffer := some 0
          channel := u2be ep 0 }
        let l := subU16 l 2
        appendChunk 7 (if u2be ep 5 < l then u2be ep 5 else l)
        receiveStatus
    else do
      appendChunk 5 (if link.remainingLength < l then link.remainingLength else l)
      receiveStatus

/-- The endpoint buffer sent back with `data` at its fourth byte. -/
def answerPacket (data : Bytes) : LinkRun HidStatus := do
  let l ← get
  let epBuffer := l.epBuffer.splice 3 data
  set { l with epBuffer := epBuffer }
  ioUsbSendApduData epBuffer.bytes
  apduReset

/-- `io_usb_hid_receive`; `random` is what `cx_rng` gives, should it be called. -/
def ioUsbHidReceive (buffer : Bytes) (random : Buffer 4) : LinkRun HidStatus := do
  modify fun l => { l with epBuffer := (Buffer.zero _).splice 0 (buffer.take ioHidEpLength) }
  let l ← get
  let tag := l.epBuffer.bytes.getD 2 0
  if tag = tagApdu then receiveApduChunk buffer.length
  else if tag = 0x00 then answerPacket (List.replicate 4 0)
  else if tag = 0x01 then answerPacket random.bytes
  else if tag = 0x02 then answerPacket []
  else receiveStatus

/-- The chunk that `io_usb_hid_sent` sends from index `i` of the APDU on. -/
def sendChunk (i : ℕ) : LinkRun Unit := do
  let l ← get
  let room := if l.sequenceNumber = 0 then ioHidEpLength - 7 else ioHidEpLength - 5
  let len := if room < l.remainingLength then room else l.remainingLength
  let header := reportHeader l.channel l.remainingLength l.sequenceNumber
  let data ← ofChecked (inRange (l.device.apdu.read? i len))
  let epBuffer ← ofChecked (inRange ((Buffer.zero ioHidEpLength).write? 0 (header ++ data)))
  set (Link.advance len { l with epBuffer := epBuffer })
  ioUsbSendApduData epBuffer.bytes

/-- Everything has been sent. -/
def Link.sentAll (l : Link) : Link := (ioUsbHidInit l).setApduState .idle

/-- `io_usb_hid_sent`. -/
def ioUsbHidSent : LinkRun Unit := do
  let l ← get
  match l.currentBuffer with
  | some i => if l.remainingLength ≠ 0 then sendChunk i else modify Link.sentAll
  | none => modify Link.sentAll

/-- `io_usb_hid_send`. -/
def ioUsbHidSend (sndlength : ℕ) : LinkRun Unit :=
  if sndlength ≠ 0 then do
    modify fun l => { l with
      sequenceNumber := 0
      currentBuffer := some 0
      remainingLength := sndlength
      totalLength := sndlength }
    ioUsbHidSent
  else pure ()

/-- A whole APDU has been received. -/
def Link.opened (l : Link) : Link :=
  { l.setApduState .busy with media := .usbHid, apduLength := l.totalLength }

/-- `USBD_HID_DataOut_impl`. -/
def usbdHidDataOut (buffer : Bytes) (random : Buffer 4) : LinkRun Unit := do
  let l ← get
  if l.media = .none then do
    let status ← ioUsbHidReceive buffer random
    if status = .received then modify Link.opened else pure ()
  else pure ()

/-- What `io_exchange` does once `apdu_state` says that the reply has been sent. -/
def Link.waitEnd (l : Link) : Link :=
  if l.transmitting ∧ l.apduState = .idle then
    { l with transmitting := false, media := .none, apduLength := 0 }
  else l

/-- `USBD_HID_DataIn_impl`. -/
def usbdHidDataIn : LinkRun Unit := do
  ioUsbHidSent
  modify Link.waitEnd

/-- The link after code of the transport. -/
def settle {α : Type} : EStateM.Result Fault Link α → Link
  | .ok _ l => l
  | .error _ l => { l with device := { l.device with phase := .crashed }, transmitting := false }

/-- The application has handled an event: `io_exchange` sends the reply, if there is one. -/
def Link.respond (l : Link) (d : Device) : Link :=
  match d.wire with
  | [] => { l with device := d, apduState := d.apduState, apduLength := 0 }
  | reply :: _ => settle ((ioUsbHidSend reply.length).run
      { l with device := d, apduState := .busy, transmitting := true })

/-- The application has handled an APDU. Without a reply the exchange is over, unless that is
deferred. -/
def Link.handled (l : Link) (d : Device) : Link :=
  if d.wire = [] ∧ d.apduState = .idle then { l.respond d with media := .none } else l.respond d

/-- An APDU is complete, and `io_exchange` returns it unless it is one of its own. -/
def Link.deliver (crypto : Crypto) (l : Link) : Option Link :=
  if ¬ l.transmitting ∧ l.apduState = .busy ∧ l.apduLength ≠ 0 then
    if l.device.apdu.bytes.take 4 ∈ sdkReserved then none
    else some (l.handled (handleApdu crypto l.apduLength { l.device with flags := 0, wire := [] }))
  else some l

/-- `EXCEPTION_IO_RESET` out of `io_exchange`: the application and its transport start again. -/
def Link.restarted (l : Link) : Link :=
  { ioUsbHidInit l with
    device := restart { l.device with phase := .waiting, wire := [] }
    apduState := .idle
    media := .none
    apduLength := 0
    transmitting := false
    prepared := []
    inFlight := 0 }

/-- What the USB stack and the buttons bring. -/
inductive UsbEvent where
  /-- A report of the host, and random bytes in case they are needed. -/
  | out (buffer : Bytes) (random : Buffer 4)
  /-- The host has fetched a report. -/
  | ack
  | button (mask : UInt32)
  /-- A reset of the bus. -/
  | reset
  deriving DecidableEq

/-- The host has fetched a report. -/
def Link.fetched (l : Link) : Link := { l with prepared := [], inFlight := l.inFlight - 1 }

/-- `io_exchange` handles events. -/
def Link.Live (l : Link) : Prop := l.transmitting = true ∨ l.device.phase = .waiting

instance (l : Link) : Decidable l.Live := inferInstanceAs (Decidable (_ ∨ _))

/-- One event of the link. Button events are taken while no reply is on its way. -/
def Link.step (crypto : Crypto) (l : Link) : UsbEvent → Option Link
  | .out buffer random =>
      if l.Live then
        Link.deliver crypto (settle ((usbdHidDataOut buffer random).run { l with prepared := [] }))
      else none
  | .ack =>
      if l.Live ∧ l.inFlight ≠ 0 then
        some (settle (usbdHidDataIn.run l.fetched))
      else none
  | .button mask =>
      if l.transmitting then none
      else (IostLedger.step crypto l.device (.button mask)).map
        (Link.respond { l with prepared := [] })
  | .reset =>
      if l.Live then
        some (if l.media = .none then { l with prepared := [], inFlight := 0 } else l.restarted)
      else none

/-- The link when `app_main` first waits. -/
def Link.boot (apdu : Buffer ioApduBufferSize) : Link where
  device := IostLedger.boot apdu
  epBuffer := .zero _
  totalLength := 0
  channel := 0
  remainingLength := 0
  sequenceNumber := 0
  currentBuffer := none
  apduState := .idle
  media := .none
  apduLength := 0
  transmitting := false
  prepared := []
  inFlight := 0

/-- The application behind its transport, as a system. -/
def link (crypto : Crypto) : Machine.System Link UsbEvent where
  start l := ∃ apdu, l = Link.boot apdu
  step := Link.step crypto

end IostLedger
