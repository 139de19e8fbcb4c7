import IostLedger.Lib.Memory
import IostLedger.Lib.Exec

/-! The globals of the application and the parts of the SDK they rest on: the shared
APDU buffer, both handler contexts, the active screen, and `io_exchange`. -/
namespace IostLedger
open Memory Exec

abbrev Bytes := List UInt8

/-- The character codes of a C string literal. -/
def ascii (s : String) : Bytes := s.toList.map fun c => UInt8.ofNat c.toNat

def cla : UInt8 := 0xE0

def offsetCla : ℕ := 0
def offsetIns : ℕ := 1
def offsetP1 : ℕ := 2
def offsetP2 : ℕ := 3
def offsetLc : ℕ := 4
def offsetCdata : ℕ := 5

def insReturnToDashboard : UInt8 := 0xFF
def insSignMessage : UInt8 := 0x08
def insGetPublicKey : UInt8 := 0x04
def insGetConfiguration : UInt8 := 0x02
def insEcho : UInt8 := 0x01
def insReset : UInt8 := 0x00

def p1Confirm : UInt8 := 0x00
def p1Silent : UInt8 := 0x01
def p2Bin : UInt8 := 0x00
def p2Hex : UInt8 := 0x01
def p2Base58 : UInt8 := 0x02
def p2More : UInt8 := 0x80

def swWrongLength : UInt16 := 0x6700
def swUserRejected : UInt16 := 0x6985
def swInvalidP1P2 : UInt16 := 0x6B00
def swInsNotSupported : UInt16 := 0x6D00
def swClaNotSupported : UInt16 := 0x6E00
def swInternalError : UInt16 := 0x6F00
def swOk : UInt16 := 0x9000

def apduMinSize : ℕ := 1
def apduMaxSize : ℕ := 5
def bip32PathMask : UInt32 := 0x80000000
def maxMsgSize : ℕ := 512
def displaySize : ℕ := 18
def ed25519KeySize : ℕ := 32

/-- `IO_APDU_BUFFER_SIZE` of a build with U2F support. -/
def ioApduBufferSize : ℕ := 3 + 32 + 32 + 15 + 255

def channelApdu : UInt8 := 0x00
def ioResetAfterReplied : UInt8 := 0x80
def ioReturnAfterTx : UInt8 := 0x20
def ioAsynchReply : UInt8 := 0x10

/-- The exceptions of the SDK, in the order of their codes. -/
inductive SdkException where
  | exception | invalidParameter | overflow | security | invalidCrc | invalidChecksum
  | invalidCounter | notSupported | invalidState | timeout | pic | appExit | ioOverflow
  | ioHeader | ioState | ioReset | cxPort | system | notEnoughSpace
  deriving DecidableEq, Repr

def SdkException.code : SdkException → UInt16
  | .exception => 1
  | .invalidParameter => 2
  | .overflow => 3
  | .security => 4
  | .invalidCrc => 5
  | .invalidChecksum => 6
  | .invalidCounter => 7
  | .notSupported => 8
  | .invalidState => 9
  | .timeout => 10
  | .pic => 11
  | .appExit => 12
  | .ioOverflow => 13
  | .ioHeader => 14
  | .ioState => 15
  | .ioReset => 16
  | .cxPort => 17
  | .system => 18
  | .notEnoughSpace => 19

/-- `ui_context_t`; `msgLength` is a `uint16_t` and `displayIndex` a `uint8_t`. -/
structure UiContext where
  msgBody : Buffer (displaySize * displaySize)
  msgLength : ℕ
  approveL2 : Buffer (displaySize + 1)
  displayIndex : ℕ
  partialMsg : Buffer (displaySize + 1)
  deriving DecidableEq

def UiContext.zero : UiContext := ⟨.zero _, 0, .zero _, 0, .zero _⟩

/-- `sign_tx_context_t`; both lengths are `uint16_t`. -/
structure SignTxContext where
  msgBody : Buffer maxMsgSize
  msgLength : ℕ
  outputLength : ℕ
  ui : UiContext
  deriving DecidableEq

def SignTxContext.zero : SignTxContext := ⟨.zero _, 0, 0, .zero⟩

/-- The context of `get_public_key.c`; of the public key only its point `W` is read. -/
structure PublicKeyContext where
  publicKey : Buffer 65
  outputLength : ℕ
  ui : UiContext
  deriving DecidableEq

def PublicKeyContext.zero : PublicKeyContext := ⟨.zero _, 0, .zero⟩

inductive MenuId where
  | main | about
  deriving DecidableEq, Repr

/-- The element array given to the last `UX_DISPLAY`, which fixes the button handler. -/
inductive Screen where
  | menu (entries : MenuId) (currentEntry : ℕ)
  | signMessageApprove
  | signMessageCompare
  | getPublicKeyApprove
  | getPublicKeyCompare
  deriving DecidableEq, Repr

/-- `G_io_app.apdu_state`: whether a received APDU has not been replied to. -/
inductive ApduState where
  | idle | busy
  deriving DecidableEq, Repr

/-- Where control is between two events. -/
inductive Phase where
  /-- `app_main` waits in `io_exchange`. -/
  | waiting
  /-- The task has ended by `os_sched_exit`. -/
  | exited
  /-- `app_main` has returned to `main`. -/
  | returned
  /-- `io_exchange` refuses the status of an exception for ever, as no APDU is open. -/
  | spinning
  /-- An access outside an object was made. -/
  | crashed
  deriving DecidableEq, Repr

/-- The memory of the application. `flags` and `tx` are the volatile locals of
`app_main`; `wire` holds the replies transmitted while one event is handled. -/
structure Device where
  apdu : Buffer ioApduBufferSize
  sign : SignTxContext
  pk : PublicKeyContext
  screen : Screen
  apduState : ApduState
  flags : UInt8
  tx : ℕ
  phase : Phase
  wire : List Bytes
  deriving DecidableEq

abbrev Run (α : Type) := EStateM Fault Device α

/-- Run code of `sign_message.c` that only touches its static context. -/
def withSign {α : Type} (x : EStateM Fault SignTxContext α) : Run α :=
  onPart Device.sign (fun c d => { d with sign := c }) x

/-- Run code of `get_public_key.c` that only touches its static context. -/
def withPk {α : Type} (x : EStateM Fault PublicKeyContext α) : Run α :=
  onPart Device.pk (fun c d => { d with pk := c }) x

/-- `io_check_p1p2`. -/
def ioCheckP1P2 (p1 p2 : UInt8) : Checked Unit :=
  if p1 ≠ p1Confirm ∧ p1 ≠ p1Silent then .error (.thrown swInvalidP1P2)
  else if p2 ≠ p2More ∧ p2 &&& p2More ≠ p2Bin ∧ p2 &&& p2More ≠ p2Hex ∧
      p2 &&& p2More ≠ p2Base58 then .error (.thrown swInvalidP1P2)
  else .ok ()

/-- `io_set_status`; the flags are handled at the call that passes them. -/
def ioSetStatus (sw : UInt16) (tx : ℕ) : Run ℕ := do
  let d ← get
  let apdu ← ofChecked (inRange (d.apdu.write? tx [(sw >>> 8).toUInt8, (sw &&& 0xFF).toUInt8]))
  modify fun d => { d with apdu := apdu }
  pure (tx + 2)

/-- The transmission in `io_exchange`: the reply leaves and the APDU is closed. -/
def sendReply (txLen : ℕ) : Run Unit := do
  let d ← get
  if d.apduState = .idle then throwCode SdkException.invalidState.code
  else do
    let reply ← ofChecked (inRange (d.apdu.read? 0 txLen))
    modify fun d => { d with wire := d.wire ++ [reply], apduState := .idle }

/-- `io_exchange` on the APDU channel, up to the wait for the next event. -/
def ioExchange (channel : UInt8) (txLen : ℕ) : Run Unit := do
  if txLen ≠ 0 ∧ channel &&& ioAsynchReply = 0 then do
    sendReply txLen
    if channel &&& ioReturnAfterTx ≠ 0 then pure ()
    else if channel &&& ioResetAfterReplied ≠ 0 then
      modify fun d => { d with phase := .exited }
    else pure ()
  else if channel &&& ioAsynchReply = 0 then
    modify fun d => { d with apduState := .idle }
  else pure ()

/-- `io_exchange_status`. -/
def ioExchangeStatus (sw : UInt16) (tx : ℕ) : Run Unit := do
  let tx ← ioSetStatus sw tx
  ioExchange (channelApdu ||| ioReturnAfterTx) tx

end IostLedger
