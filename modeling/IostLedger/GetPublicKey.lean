import IostLedger.SignMessage

/-! `get_public_key.c` and `get_configuration.c`. -/
namespace IostLedger
open Memory Exec

/-- The call of `iost_derive_keypair` with `&context.public_key` as its public key. -/
def derivePublicKey (crypto : Crypto) (bip32Path : List UInt32) : Run ℕ :=
  onPart (fun d => KeyFrame.enter none (some d.pk.publicKey))
    (fun f d => { d with pk := { d.pk with publicKey := f.publicKey.getD d.pk.publicKey } })
    (iostDeriveKeypair crypto bip32Path)

/-- `get_pk`. -/
def getPk (crypto : Crypto) (bip32Path : List UInt32) (p2 : UInt8) (output : ℕ) : Run Unit := do
  let result ← derivePublicKey crypto bip32Path
  if result ≠ 0 then throwCode swInternalError
  else do
    let d ← get
    let pk := iostExtractBytesFromPublicKey d.pk.publicKey
    let (ui, apdu, length) ← ofChecked (exportBytes p2 pk d.pk.ui d.apdu output)
    set { d with
      apdu := apdu
      pk := { d.pk with ui := ui, outputLength := length % 2 ^ 16 } }

/-- `handle_get_public_key`. -/
def handleGetPublicKey (crypto : Crypto) (p1 p2 : UInt8) (buffer bufferLength : ℕ) :
    Run Unit := do
  ofChecked (ioCheckP1P2 p1 p2)
  let d ← get
  let bip32Path ← ofChecked (ioReadBip32 d.apdu buffer bufferLength)
  getPk crypto bip32Path p2 d.tx
  finishExport .getPublicKey p1 (ascii "Key #%u?") bip32Path

/-- Whether storage is allowed, and `APPVERSION_M`, `APPVERSION_N` and `APPVERSION_P`. -/
def configuration : Bytes := [0, 0, 0, 3]

/-- `handle_get_configuration`. -/
def handleGetConfiguration : Run Unit := do
  let d ← get
  let apdu ← ofChecked (inRange (d.apdu.write? d.tx configuration))
  set { d with apdu := apdu, tx := (d.tx + 4) % 2 ^ 16 }
  throwCode swOk

end IostLedger
