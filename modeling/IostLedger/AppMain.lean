import IostLedger.GetPublicKey
import IostLedger.Lib.Machine

/-! `app_main` and `main`: one APDU from its reception to the next wait in
`io_exchange`, and the system of the device and its events. -/
namespace IostLedger
open Memory Exec

/-- A byte of the APDU header. -/
def Device.header (d : Device) (offset : ℕ) : UInt8 := d.apdu.bytes.getD offset 0

/-- `clear_all_contexts`. -/
def clearAllContexts (d : Device) : Device := { d with pk := .zero, sign := .zero }

/-- The `switch` on the instruction byte. -/
def dispatch (crypto : Crypto) (ins p1 p2 : UInt8) (length rx : ℕ) : Run Unit := do
  if ins = insReset then do
    modify fun d => { d with flags := d.flags ||| ioResetAfterReplied }
    throwCode swOk
  else if ins = insEcho then do
    modify fun d => { d with tx := rx }
    throwCode swOk
  else if ins = insGetConfiguration then handleGetConfiguration
  else if ins = insGetPublicKey then handleGetPublicKey crypto p1 p2 offsetCdata length
  else if ins = insSignMessage then handleSignMessage crypto p1 p2 offsetCdata length
  else if ins = insReturnToDashboard then modify fun d => { d with phase := .returned }
  else throwCode swInsNotSupported

/-- The body of the `TRY` block once `io_exchange` has returned `rx`. -/
def processApdu (crypto : Crypto) (rx : ℕ) : Run Unit := do
  let d ← get
  if rx < apduMinSize then throwCode SdkException.ioReset.code
  else if d.header offsetCla ≠ cla then throwCode swClaNotSupported
  else
    let length := (d.header offsetLc).toNat
    if length = 0 ∧ d.header offsetP2 &&& p2More = 0 then throwCode swWrongLength
    else if length + apduMaxSize ≠ rx then throwCode swWrongLength
    else dispatch crypto (d.header offsetIns) (d.header offsetP1) (d.header offsetP2) length rx

/-- Whether the status of an exception is the exception itself. -/
def isStatus (e : UInt16) : Bool := e &&& 0xF000 = 0x6000 ∨ e &&& 0xF000 = 0x9000

/-- The status word of an exception. -/
def statusOf (e : UInt16) : UInt16 := if isStatus e then e else 0x6800 ||| (e &&& 0x7FF)

/-- The `clear_all_contexts` of `CATCH_OTHER(e)`, which a success status skips. -/
def clearUnless (e : UInt16) (d : Device) : Device :=
  if e &&& 0xF000 ≠ 0x9000 then clearAllContexts d else d

/-- `CATCH_OTHER(e)`. -/
def catchOther (e : UInt16) : Run Unit := do
  modify (clearUnless e)
  let d ← get
  let tx ← ioSetStatus (statusOf e) d.tx
  modify fun d => { d with tx := tx }

/-- The call of `io_exchange` at the head of the loop, up to its wait. -/
def exchangeNext (d : Device) : Device :=
  match (ioExchange (channelApdu ||| d.flags) d.tx).run { d with tx := 0 } with
  | .ok _ d => d
  | .error .outOfRange d => { d with phase := .crashed }
  | .error (.thrown _) d => { d with phase := .spinning }

/-- `main` after `EXCEPTION_IO_RESET`: the menu, and `app_main` from its start. -/
def restart (d : Device) : Device :=
  clearAllContexts { uiIdle d with apduState := .idle, flags := 0, tx := 0 }

/-- An exception in the `TRY` block. -/
def caught (fault : Fault) (d : Device) : Device :=
  match fault with
  | .outOfRange => { d with phase := .crashed }
  | .thrown e =>
      if e = SdkException.ioReset.code then restart d
      else
        match (catchOther e).run d with
        | .ok _ d => exchangeNext d
        | .error _ d => { d with phase := .crashed }

/-- What the device can meet while it waits. -/
inductive Event where
  /-- An APDU has been received. -/
  | apdu (bytes : Bytes)
  /-- A button event of the active screen. -/
  | button (mask : UInt32)
  /-- An exception leaves `io_exchange`. -/
  | ioThrow (code : UInt16)
  deriving DecidableEq

/-- The APDUs that `io_exchange` answers itself. -/
def sdkReserved : List Bytes := [[0xB0, 0x01, 0, 0], [0xB0, 0xA7, 0, 0], [0xB0, 0x02, 0, 0]]

/-- An APDU in the buffer, and `flags` cleared. -/
def received (bytes : Bytes) (d : Device) : Device :=
  { d with apdu := d.apdu.splice 0 bytes, apduState := .busy, flags := 0, wire := [] }

/-- The loop body on a received APDU of `rx` bytes. -/
def handleApdu (crypto : Crypto) (rx : ℕ) (d : Device) : Device :=
  match (processApdu crypto rx).run d with
  | .ok _ d => if d.phase = .returned then d else exchangeNext d
  | .error fault d => caught fault d

/-- A button event inside `io_exchange`. -/
def handleButton (mask : UInt32) (d : Device) : Device :=
  match (buttonPush mask).run d with
  | .ok _ d => d
  | .error fault d => caught fault d

/-- An APDU fits the buffer, is no open one's successor and reaches `app_main`. -/
def Accepts (d : Device) (bytes : Bytes) : Prop :=
  d.apduState = .idle ∧ 1 ≤ bytes.length ∧ bytes.length ≤ ioApduBufferSize ∧
    (d.apdu.splice 0 bytes).bytes.take 4 ∉ sdkReserved

instance (d : Device) (bytes : Bytes) : Decidable (Accepts d bytes) :=
  inferInstanceAs (Decidable (_ ∧ _))

/-- One event of a waiting device; `wire` then holds the replies it has caused. -/
def step (crypto : Crypto) (d : Device) : Event → Option Device
  | .apdu bytes =>
      if d.phase = .waiting ∧ Accepts d bytes then
        some (handleApdu crypto bytes.length (received bytes d))
      else none
  | .button mask =>
      if d.phase = .waiting then some (handleButton mask { d with wire := [] }) else none
  | .ioThrow code =>
      if d.phase = .waiting then some (caught (.thrown code) { d with wire := [] }) else none

/-- The device when `app_main` first waits; the APDU buffer holds anything. -/
def boot (apdu : Buffer ioApduBufferSize) : Device where
  apdu := apdu
  sign := .zero
  pk := .zero
  screen := .menu .main 0
  apduState := .idle
  flags := 0
  tx := 0
  phase := .waiting
  wire := []

/-- The application as a system. -/
def app (crypto : Crypto) : Machine.System Device Event where
  start d := ∃ apdu, d = boot apdu
  step := step crypto

/-- A command APDU with the length of its data. -/
def command (ins p1 p2 : UInt8) (data : Bytes) : Bytes :=
  [cla, ins, p1, p2, UInt8.ofNat data.length] ++ data

end IostLedger
