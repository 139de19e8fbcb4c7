import IostLedger.Refinement
import IostLedger.Usb

/-! The port: the session of an application whose requests arrive in numbered reports and whose
replies leave in them. It has no buffers and no counters beyond those of the protocol. -/
namespace IostLedger
open Memory Machine Framing

/-- A message of which some reports have been received. -/
structure Assembly where
  channel : ℕ
  length : ℕ
  count : ℕ
  bytes : Bytes
  deriving DecidableEq

/-- What a report comes to. -/
inductive Intake where
  /-- It does not continue what has been received, which is dropped. -/
  | reset
  /-- It is answered by a report, and what has been received is dropped. -/
  | answer (buffer : Bytes)
  | more (inbox : Assembly)
  | complete (channel : ℕ) (bytes : Bytes)
  deriving DecidableEq

/-- What stands behind the header of the next report, as far as it belongs to the message. -/
def Assembly.add (a : Assembly) (content : Bytes) : Intake :=
  let bytes := a.bytes ++ content.take (a.length - a.bytes.length)
  if bytes.length = a.length then .complete a.channel bytes
  else .more { a with count := a.count + 1, bytes := bytes }

/-- An APDU packet: the first of a message announces it, the others have to follow in turn. -/
def packetIntake (inbox : Option Assembly) (buffer : Bytes) : Intake :=
  match inbox with
  | none =>
      if u2be buffer 3 ≠ 0 ∨ ioApduBufferSize < u2be buffer 5 then .reset
      else Assembly.add ⟨u2be buffer 0, u2be buffer 5, 0, []⟩ (buffer.drop 7)
  | some a => if u2be buffer 3 ≠ a.count then .reset else a.add (buffer.drop 5)

def intake (inbox : Option Assembly) (buffer : Bytes) (random : Buffer 4) : Intake :=
  if buffer.getD 2 0 = tagApdu then packetIntake inbox buffer
  else if buffer.getD 2 0 = 0x00 then
    .answer (buffer.take 3 ++ List.replicate 4 0 ++ buffer.drop 7)
  else if buffer.getD 2 0 = 0x01 then .answer (buffer.take 3 ++ random.bytes ++ buffer.drop 7)
  else .answer buffer

/-- A request that is complete is not empty, and one of a session. -/
def Intake.Clean : Intake → Prop
  | .complete _ bytes => bytes ≠ [] ∧ Event.Clean (.apdu bytes)
  | _ => True

instance : DecidablePred Intake.Clean
  | .complete _ bytes => inferInstanceAs (Decidable (bytes ≠ [] ∧ Event.Clean (.apdu bytes)))
  | .reset | .answer _ | .more _ => inferInstanceAs (Decidable True)

/-- The tags of the protocol. -/
def KnownTag (buffer : Bytes) : Prop :=
  buffer.getD 2 0 = tagApdu ∨ buffer.getD 2 0 = 0x00 ∨ buffer.getD 2 0 = 0x01 ∨
    buffer.getD 2 0 = 0x02

instance : DecidablePred KnownTag := fun buffer =>
  inferInstanceAs (Decidable (buffer.getD 2 0 = tagApdu ∨ _))

/-- Whose turn it is. -/
inductive Exchange where
  /-- The host may send; after a ping it has an answer to fetch first. -/
  | free (inbox : Option Assembly) (pinged : Bool)
  /-- A request has been delivered and is not answered. -/
  | pending (channel : ℕ)
  /-- A reply is on its way: one report waits for the host, and these follow. -/
  | sending (outbox : List Bytes)
  deriving DecidableEq

def Exchange.isSending : Exchange → Bool
  | .sending _ => true
  | _ => false

/-- A report that an exchange can take: it has its length and a tag of the protocol, the answer to
a ping has been fetched, and what it completes is clean. -/
def Exchange.Takes (buffer : Bytes) (random : Buffer 4) : Exchange → Prop
  | .free inbox pinged => buffer.length = ioHidEpLength ∧ KnownTag buffer ∧ pinged = false ∧
      (intake inbox buffer random).Clean
  | _ => True

instance (buffer : Bytes) (random : Buffer 4) : DecidablePred (Exchange.Takes buffer random)
  | .free _ _ => inferInstanceAs (Decidable (buffer.length = ioHidEpLength ∧ _))
  | .pending _ | .sending _ => inferInstanceAs (Decidable True)

/-- `sent` has the reports that the last event has brought to the host. -/
structure Port where
  session : Session
  exchange : Exchange
  sent : List Bytes
  deriving DecidableEq

namespace Port

def start : Port := ⟨.start, .free none false, []⟩

/-- The session has gone on. A reply leaves at once, on the channel of its request. -/
def proceed (s : Suite) (channel : ℕ) (silent : Exchange) (t : Session) : Port :=
  match t.wire with
  | [] => ⟨t, silent, []⟩
  | reply :: _ =>
      ⟨t, .sending (reportsFrom channel (s.render reply) 1), [report channel (s.render reply) 0]⟩

def Live (p : Port) : Prop := p.exchange.isSending = true ∨ p.session.stage = .running

instance (p : Port) : Decidable p.Live := inferInstanceAs (Decidable (_ ∨ _))

/-- A report arrives while the host may send. -/
def takeReport (s : Suite) (p : Port) (pinged : Bool) : Intake → Option Port
  | .reset => some ⟨p.session, .free none pinged, []⟩
  | .answer buffer => some ⟨p.session, .free none true, [buffer]⟩
  | .more inbox => some ⟨p.session, .free (some inbox) pinged, []⟩
  | .complete channel bytes =>
      (p.session.step (.apdu bytes)).map (proceed s channel (.pending channel))

/-- One event. What the host sends while an exchange is open is not looked at, and a reset of the
bus ends it. -/
def step (s : Suite) (p : Port) : UsbEvent → Option Port
  | .out buffer random =>
      if p.Live then
        match p.exchange with
        | .free inbox pinged => p.takeReport s pinged (intake inbox buffer random)
        | exchange => some ⟨p.session, exchange, []⟩
      else none
  | .ack =>
      if p.Live then
        match p.exchange with
        | .free inbox true => some ⟨p.session, .free inbox false, []⟩
        | .sending [] => some ⟨p.session, .free none false, []⟩
        | .sending (buffer :: outbox) => some ⟨p.session, .sending outbox, [buffer]⟩
        | _ => none
      else none
  | .button mask =>
      match p.exchange with
      | .sending _ => none
      | .free inbox pinged =>
          (p.session.step (.button mask)).map (proceed s 0 (.free inbox pinged))
      | .pending channel =>
          (p.session.step (.button mask)).map (proceed s channel (.pending channel))
  | .reset =>
      if p.Live then
        match p.exchange with
        | .free inbox _ => some ⟨p.session, .free inbox false, []⟩
        | _ => some start
      else none

/-- What a host does. -/
def Expects (p : Port) : UsbEvent → Prop
  | .out buffer random => p.exchange.Takes buffer random
  | _ => True

instance (p : Port) : DecidablePred p.Expects
  | .out buffer random => inferInstanceAs (Decidable (p.exchange.Takes buffer random))
  | .ack | .button _ | .reset => inferInstanceAs (Decidable True)

end Port

/-- What the host receives and the user sees. -/
structure LinkObservation where
  reports : List Bytes
  sight : Sight
  phase : Phase
  deriving DecidableEq

def Port.observe (s : Suite) (p : Port) : LinkObservation :=
  ⟨p.sent, p.session.view.sight s, p.session.stage.phase⟩

def Link.observe (l : Link) : LinkObservation := ⟨l.prepared, l.device.sight, l.device.phase⟩

/-- The port as a system. -/
def port (s : Suite) : System Port UsbEvent where
  start p := p = .start
  step := Port.step s

end IostLedger
