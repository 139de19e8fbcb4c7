import IostLedger.Compare

/-! The session of the host and the user: what a run of the application comes to, without
its memory and without its secrets. Keys and signatures stay queries, which the secrets
answer when a reply or a screen is rendered. -/
namespace IostLedger
open Memory Machine

/-- A value that the secrets of the device determine. -/
inductive Query where
  | publicKey (path : List UInt32)
  /-- The signature of a message. -/
  | signature (path : List UInt32) (message : Bytes)
  /-- The signature of the hash of a message. -/
  | hashSignature (path : List UInt32) (message : Bytes)
  deriving DecidableEq

/-- The handler that answers a query. -/
def Query.owner : Query → Owner
  | .publicKey _ => .getPublicKey
  | .signature _ _ => .signMessage
  | .hashSignature _ _ => .signMessage

def Query.path : Query → List UInt32
  | .publicKey path => path
  | .signature path _ => path
  | .hashSignature path _ => path

/-- A reply, with its query open. -/
inductive Reply where
  | status (sw : UInt16)
  | plain (payload : Bytes)
  | payload (p2 : UInt8) (query : Query)
  deriving DecidableEq

/-- What an APDU asks for. -/
inductive Request where
  | malformed (sw : UInt16)
  | reset
  | echo (bytes : Bytes)
  | configuration
  | publicKey (p1 p2 : UInt8) (data : Bytes)
  | sign (p1 p2 : UInt8) (data : Bytes)
  | dashboard
  | unknown
  deriving DecidableEq

/-- The request of a command. -/
def Request.ofCommand (ins p1 p2 : UInt8) (data : Bytes) : Request :=
  if ins = insReset then .reset
  else if ins = insEcho then .echo (command ins p1 p2 data)
  else if ins = insGetConfiguration then .configuration
  else if ins = insGetPublicKey then .publicKey p1 p2 data
  else if ins = insSignMessage then .sign p1 p2 data
  else if ins = insReturnToDashboard then .dashboard
  else .unknown

def Request.parse : Bytes → Request
  | c :: ins :: p1 :: p2 :: lc :: data =>
      if c ≠ cla then .malformed swClaNotSupported
      else if lc.toNat ≠ data.length ∨ data = [] ∧ p2 &&& p2More = 0 then
        .malformed swWrongLength
      else .ofCommand ins p1 p2 data
  | bytes => .malformed (if bytes.getD 0 0 ≠ cla then swClaNotSupported else swWrongLength)

/-- How a request is met. -/
inductive Response where
  /-- The status alone, and nothing is kept. -/
  | refuse (sw : UInt16)
  | reply (payload : Bytes)
  /-- A chunk of a message, which now has these bytes. -/
  | store (acc : Bytes)
  /-- The answer to a query, at once or after the approval. -/
  | give (p1 p2 : UInt8) (query : Query)
  | exit
  | leave
  deriving DecidableEq

/-- The response to the end of a message, of which `bytes` have been sent in all. -/
def Response.finish (p1 p2 : UInt8) (hashBeforeSign : Bool) (bytes : Bytes) : Response :=
  match splitPath bytes with
  | none => .refuse swWrongLength
  | some (path, m) =>
      if hashBeforeSign then .give p1 p2 (.hashSignature path m)
      else if Rereads path.length m then .give p1 p2 (.signature path m)
      else .refuse swWrongLength

def Request.respond (acc : Bytes) : Request → Response
  | .malformed sw => .refuse sw
  | .reset => .exit
  | .echo bytes => .reply bytes
  | .configuration => .reply IostLedger.configuration
  | .publicKey p1 p2 data =>
      if ¬ ValidP1P2 p1 p2 then .refuse swInvalidP1P2
      else match splitPath data with
        | none => .refuse swWrongLength
        | some (path, _) => .give p1 p2 (.publicKey path)
  | .sign p1 p2 data =>
      if ¬ ValidP1P2 p1 p2 then .refuse swInvalidP1P2
      else if maxMsgSize < acc.length + data.length then .refuse swWrongLength
      else if p2 &&& p2More = p2More ∧ data ≠ [] then .store (acc ++ data)
      else .finish p1 p2 (data.length = 0) (acc ++ data)
  | .dashboard => .leave
  | .unknown => .refuse swInsNotSupported

/-- What the screen is for. -/
inductive View where
  | menu (entries : MenuId) (currentEntry : ℕ)
  /-- A query waits for its approval. -/
  | prompt (p2 : UInt8) (query : Query)
  /-- The text of an answer that has been given, and the moves of its window so far; the
  text is gone once the context behind it has been cleared. -/
  | compare (owner : Owner) (query : Option Query) (moves : List Move)
  deriving DecidableEq

/-- The query whose reply is still open. -/
def View.asked : View → Option Query
  | .prompt _ query => some query
  | _ => none

/-- The view once the context of a handler has been cleared. -/
def View.blanked (owner : Owner) : View → View
  | .menu entries currentEntry => .menu entries currentEntry
  | .prompt p2 query => .prompt p2 query
  | .compare shown query moves =>
      if shown = owner then .compare shown none [] else .compare shown query moves

inductive Stage where
  | running | exited | returned
  deriving DecidableEq, Repr

/-- `wire` has the replies to the last event. -/
structure Session where
  /-- The bytes of the message that is being sent. -/
  acc : Bytes
  view : View
  stage : Stage
  wire : List Reply
  deriving DecidableEq

namespace Session

def start : Session := ⟨[], .menu .main 0, .running, []⟩

/-- The context of a handler cleared. -/
def cleared (owner : Owner) (t : Session) : Session :=
  { t with
    acc := if owner = .signMessage then [] else t.acc
    view := t.view.blanked owner }

def answered (response : Response) (t : Session) : Session :=
  match response with
  | .refuse sw => { (t.cleared .signMessage).cleared .getPublicKey with wire := [.status sw] }
  | .reply payload => { t with wire := [.plain payload] }
  | .store acc => { t with acc := acc, wire := [.status swOk] }
  | .give p1 p2 query =>
      if p1 = p1Confirm then { t with view := .prompt p2 query, wire := [] }
      else { t.cleared query.owner with wire := [.payload p2 query] }
  | .exit => { t with stage := .exited, wire := [.status swOk] }
  | .leave => { t with stage := .returned, wire := [] }

/-- An APDU is received while no reply is open. -/
def Receives (t : Session) (bytes : Bytes) : Prop :=
  t.view.asked = none ∧ 1 ≤ bytes.length ∧ bytes.length ≤ ioApduBufferSize ∧
    bytes.take 4 ∉ sdkReserved

instance (t : Session) (bytes : Bytes) : Decidable (t.Receives bytes) :=
  inferInstanceAs (Decidable (_ ∧ _))

/-- The entry a menu button leads to, unless it ends the task. -/
def menuEntry (entries : MenuId) (currentEntry : ℕ) (mask : UInt32) : Option (MenuId × ℕ) :=
  if mask = bothReleased then
    match entries, currentEntry with
    | .main, 1 => some (.about, 0)
    | .main, 2 => none
    | .about, 1 => some (.main, 0)
    | _, _ => some (entries, currentEntry)
  else if mask = buttonEvtFast ||| buttonLeft ∨ mask = buttonEvtReleased ||| buttonLeft then
    some (entries, currentEntry - 1)
  else if mask = buttonEvtFast ||| buttonRight ∨ mask = buttonEvtReleased ||| buttonRight then
    some (entries, if entries.entriesCount - 1 ≤ currentEntry then currentEntry
      else currentEntry + 1)
  else some (entries, currentEntry)

/-- The move of an arrow event on the compare screen. -/
def moveOf (mask : UInt32) : Option Move :=
  if mask = buttonLeft ∨ mask = buttonEvtFast ||| buttonLeft then some .left
  else if mask = buttonRight ∨ mask = buttonEvtFast ||| buttonRight then some .right
  else none

/-- A button event. -/
def pressed (mask : UInt32) (t : Session) : Session :=
  match t.view with
  | .menu entries currentEntry =>
      match menuEntry entries currentEntry mask with
      | none => { t with stage := .exited, wire := [] }
      | some (entries, currentEntry) => { t with view := .menu entries currentEntry, wire := [] }
  | .prompt p2 query =>
      if mask = buttonEvtReleased ||| buttonLeft then
        { t.cleared query.owner with view := .menu .main 0, wire := [.status swUserRejected] }
      else if mask = buttonEvtReleased ||| buttonRight then
        { t.cleared query.owner with
          view := .compare query.owner (some query) []
          wire := [.payload p2 query] }
      else { t with wire := [] }
  | .compare owner query moves =>
      match moveOf mask with
      | some move => { t with view := .compare owner query (moves ++ [move]), wire := [] }
      | none =>
          if mask = bothReleased then { t with view := .menu .main 0, wire := [] }
          else { t with wire := [] }

/-- One event of a session. Of the exceptions that can leave `io_exchange` it has the reset of
the link, after which the application starts again. -/
def step (t : Session) : Event → Option Session
  | .apdu bytes =>
      if t.stage = .running ∧ t.Receives bytes then
        some (t.answered ((Request.parse bytes).respond t.acc))
      else none
  | .button mask => if t.stage = .running then some (t.pressed mask) else none
  | .ioThrow code =>
      if t.stage = .running ∧ code = SdkException.ioReset.code then some start else none

end Session

/-- The session as a system. -/
def session : System Session Event where
  start t := t = .start
  step := Session.step

/-! What the host receives and the user sees, once the secrets answer the queries. -/

/-- The bytes that answer a query. -/
def Suite.value (s : Suite) : Query → Bytes
  | .publicKey path => iostExtractBytesFromPublicKey (s.publicPoint path)
  | .signature path message => s.signed path message
  | .hashSignature path message => s.signed path (s.hash message)

def Suite.render (s : Suite) : Reply → Bytes
  | .status sw => statusBytes sw
  | .plain payload => payload ++ statusBytes swOk
  | .payload p2 query => answer (formatPayload p2 (s.value query))

/-- What a display of the active screen shows. -/
inductive Sight where
  | menu (entries : MenuId) (currentEntry : ℕ)
  | prompt (owner : Owner) (text : Bytes)
  | compare (owner : Owner) (window : Bytes) (leftIcon rightIcon : Bool)
  deriving DecidableEq

/-- What an event has come to, for the host and the user. -/
structure Observation where
  wire : List Bytes
  sight : Sight
  phase : Phase
  deriving DecidableEq

/-- The text on the compare screen, which is that of no bytes once it is cleared. -/
def Suite.compareText (s : Suite) : Option Query → Bytes
  | none => []
  | some query => base58Text (s.value query)

/-- The compare screen with its window at index `i`. -/
def windowAt (owner : Owner) (text : Bytes) (i : ℕ) : Sight :=
  .compare owner ((text.drop i).take displaySize) (i ≠ 0) (i + displaySize ≠ text.length)

def View.sight (s : Suite) : View → Sight
  | .menu entries currentEntry => .menu entries currentEntry
  | .prompt _ query => .prompt query.owner
      ((promptText (promptLabel query.owner) (keyNumber query.path)).take (displaySize - 1))
  | .compare owner query moves => windowAt owner (s.compareText query)
      (walk ((s.compareText query).length - displaySize) 0 moves)

def Stage.phase : Stage → Phase
  | .running => .waiting
  | .exited => .exited
  | .returned => .returned

def Session.observe (s : Suite) (t : Session) : Observation :=
  ⟨t.wire.map s.render, t.view.sight s, t.stage.phase⟩

/-- What is read from the ui context of a handler. -/
def compareSight (owner : Owner) (context : UiContext) : Sight :=
  .compare owner (cString context.partialMsg) (uiPreproCompare context leftIconId)
    (uiPreproCompare context rightIconId)

def Device.sight (d : Device) : Sight :=
  match d.screen with
  | .menu entries currentEntry => .menu entries currentEntry
  | .signMessageApprove => .prompt .signMessage (cString d.sign.ui.approveL2)
  | .signMessageCompare => compareSight .signMessage d.sign.ui
  | .getPublicKeyApprove => .prompt .getPublicKey (cString d.pk.ui.approveL2)
  | .getPublicKeyCompare => compareSight .getPublicKey d.pk.ui

def Device.observe (d : Device) : Observation := ⟨d.wire, d.sight, d.phase⟩

end IostLedger
