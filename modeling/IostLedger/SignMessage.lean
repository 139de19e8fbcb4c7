import IostLedger.Export
import IostLedger.Iost
import IostLedger.Printf
import IostLedger.Ui

/-! `sign_message.c`: the accumulated message, its signature, and the prompt. -/
namespace IostLedger
open Memory Exec

/-- `read_message` of `bufferLength` bytes of the APDU buffer. -/
def readMessage (apdu : Buffer ioApduBufferSize) (buffer bufferLength : ℕ) :
    EStateM Fault SignTxContext Unit := do
  let c ← get
  if maxMsgSize < c.msgLength + bufferLength then throwCode swWrongLength
  else if bufferLength ≠ 0 then do
    let data ← ofChecked (inRange (apdu.read? buffer bufferLength))
    let msgBody ← ofChecked (inRange (c.msgBody.write? c.msgLength data))
    set { c with msgBody := msgBody, msgLength := (c.msgLength + bufferLength) % 2 ^ 16 }
  else pure ()

/-- The `hash_before_sign` step of `sign_message`: the message is overwritten in place. -/
def hashMessage (crypto : Crypto) (hashBeforeSign : Bool) (msgOffset : ℕ) :
    EStateM Fault SignTxContext Unit := do
  if hashBeforeSign then do
    let c ← get
    let inBytes ← ofChecked (inRange (c.msgBody.read? msgOffset c.msgLength))
    let hash ← ofChecked (iostHashBytes crypto inBytes)
    let msgBody ← ofChecked (inRange (c.msgBody.write? msgOffset hash))
    set { c with msgBody := msgBody, msgLength := hash.length % 2 ^ 16 }
  else pure ()

/-- `sign_message`; the result is what is written to `signature`. -/
def signMessage (crypto : Crypto) (hashBeforeSign : Bool) : EStateM Fault SignTxContext Bytes := do
  let c ← get
  if c.msgLength = 0 then throwCode swWrongLength
  else if maxMsgSize < c.msgLength then throwCode swWrongLength
  else do
    let bip32Path ← ofChecked (ioReadBip32 c.msgBody 0 c.msgLength)
    let msgOffset := (1 + bip32Path.length * 4) % 2 ^ 16
    set { c with msgLength := (c.msgLength + 2 ^ 16 - msgOffset) % 2 ^ 16 }
    hashMessage crypto hashBeforeSign msgOffset
    let c ← get
    let signature ← callFrame .enter
      (iostSign crypto bip32Path c.msgBody msgOffset (UInt8.ofNat c.msgLength))
    set { c with outputLength := signature.length % 2 ^ 16 }
    pure signature

/-- `export_signature`. -/
def exportSignature (p2 : UInt8) (signature : Bytes) (output : ℕ) : Run Unit := do
  let d ← get
  let (ui, apdu, length) ← ofChecked
    (exportBytes p2 (signature.take d.sign.outputLength) d.sign.ui d.apdu output)
  set { d with
    apdu := apdu
    sign := { d.sign with ui := ui, outputLength := length % 2 ^ 16 } }

/-- The number in a prompt: the last word of the path less the hardened bit. -/
def keyNumber (bip32Path : List UInt32) : UInt32 :=
  if 0 < bip32Path.length then bip32Path.getD (bip32Path.length - 1) 0 - bip32PathMask else 0

/-- The prompt of a handler: its text, its screen, and the open reply. -/
def uxApprove (owner : Owner) (format : Bytes) (bip32Path : List UInt32) : Run Unit := do
  let d ← get
  let approveL2 ← ofChecked
    (inRange (iostSnprintf (owner.ui d).approveL2 displaySize format [keyNumber bip32Path]))
  set { owner.setUi { owner.ui d with approveL2 := approveL2 } d with
    screen := owner.approveScreen
    flags := d.flags ||| ioAsynchReply }

/-- The end of a handler in silent mode: the payload and its terminator are the reply. -/
def replyExport (owner : Owner) : Run Unit := do
  modify fun d => { d with tx := (d.tx + (owner.outputLength d + 1)) % 2 ^ 16 }
  modify owner.clearContext
  throwCode swOk

/-- The end of a handler that has exported its payload: the reply, or the prompt. -/
def finishExport (owner : Owner) (p1 : UInt8) (format : Bytes) (bip32Path : List UInt32) :
    Run Unit :=
  if p1 ≠ p1Confirm then replyExport owner else uxApprove owner format bip32Path

/-- `handle_sign_message`. -/
def handleSignMessage (crypto : Crypto) (p1 p2 : UInt8) (buffer bufferLength : ℕ) : Run Unit := do
  ofChecked (ioCheckP1P2 p1 p2)
  let d ← get
  withSign (readMessage d.apdu buffer bufferLength)
  if p2 &&& p2More ≠ p2More ∨ bufferLength = 0 then do
    let signature ← withSign (signMessage crypto (bufferLength = 0))
    let d ← get
    let bip32Path ← ofChecked (ioReadBip32 d.sign.msgBody 0 d.sign.msgLength)
    exportSignature p2 signature d.tx
    finishExport .signMessage p1 (ascii "With Key #%u?") bip32Path
  else throwCode swOk

end IostLedger
