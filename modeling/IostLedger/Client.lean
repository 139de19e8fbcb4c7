import IostLedger.Dongle
import IostLedger.Lib.Driver

/-! The client of the Node.js example. `sendApdu` puts the path before the data, sends them in
one command or chunk by chunk, and goes on until a response has more than a status word. -/
namespace IostLedger
open Machine

/-- A child index as it is written in a path, before it is hardened. -/
structure ChildIndex where
  val : UInt32
  lt : val < 0x80000000
  deriving DecidableEq

def harden (index : UInt32) : UInt32 := index ||| 0x80000000

/-- The words of `BIP32_PATH`, with the index of a key behind them. -/
def bip32Path (index : Option ChildIndex) : List UInt32 :=
  [harden 44, harden 291] ++ (index.map fun i => harden i.val).toList

theorem bip32Path_valid (index : Option ChildIndex) : ValidPath (bip32Path index) := by
  cases index with
  | none => exact ⟨by decide, by decide⟩
  | some i => exact ⟨by simp [bip32Path], by simp [bip32Path]⟩

/-- `debugOrNot`, by whether `NODE_ENV` is `production`. -/
def debugOrNot {α : Type} (production : Bool) (d p : α) : α := if production then p else d

/-- The object that `sendApdu` takes apart; a member that is missing is `undefined`. -/
structure Arguments where
  instruction : UInt8
  p1 : Option UInt8
  p2 : Option UInt8
  index : Option ChildIndex
  data : Option Bytes

/-- The methods that go through `sendApdu`. -/
inductive Method where
  | getPublicKey (index : Option ChildIndex) (p1 p2 : Option UInt8)
  | signMessage (index : Option ChildIndex) (p1 p2 : Option UInt8) (message : Option Bytes)

def Method.arguments : Method → Arguments
  | .getPublicKey index p1 p2 => ⟨insGetPublicKey, p1, p2, index, none⟩
  | .signMessage index p1 p2 message => ⟨insSignMessage, p1, p2, index, message⟩

/-- What `sendApdu` enters its loop with. -/
structure Call where
  instruction : UInt8
  p1 : UInt8
  p2 : UInt8
  buffer : Bytes

def sendApdu (production : Bool) (arguments : Arguments) : Call where
  instruction := arguments.instruction
  p1 := arguments.p1.getD (debugOrNot production p1Silent p1Confirm)
  p2 := arguments.p2.getD p2Bin
  buffer := bufferFromBip32 (bip32Path arguments.index) ++ arguments.data.getD []

/-- `EXCHANGE_CHUNK_SIZE` -/
def exchangeChunkSize : ℕ := 255

/-- `transport.send` of the transport library: `frame` is the command it puts on the wire, which
cannot hold more than 255 bytes, and `receive` is what it makes of the response, which it throws
unless the status is `0x9000`. -/
structure HwTransport where
  frame : (cla ins p1 p2 : UInt8) → Bytes → Option Bytes
  receive : Bytes → Except UInt16 Bytes
  frame_short {cla ins p1 p2 : UInt8} {data : Bytes} (h : data.length ≤ 255) :
    frame cla ins p1 p2 data = some ([cla, ins, p1, p2, UInt8.ofNat data.length] ++ data)
  frame_long {cla ins p1 p2 : UInt8} {data : Bytes} (h : 255 < data.length) :
    frame cla ins p1 p2 data = none
  receive_ok (payload : Bytes) :
    receive (payload ++ statusBytes swOk) = .ok (payload ++ statusBytes swOk)
  receive_error (payload : Bytes) {sw : UInt16} (h : sw ≠ swOk) :
    receive (payload ++ statusBytes sw) = .error sw

/-- The last two bytes of a response. -/
def statusWord (response : Bytes) : ℕ :=
  (response.drop (response.length - 2)).foldl (fun w b => w * 256 + b.toNat) 0

theorem statusWord_append (payload : Bytes) (sw : UInt16) :
    statusWord (payload ++ statusBytes sw) = sw.toNat := by
  have hlength : (payload ++ statusBytes sw).length - 2 = payload.length := by simp
  rw [statusWord, hlength, List.drop_left, statusBytes]
  simp only [List.foldl_cons, List.foldl_nil, Nat.zero_mul, Nat.zero_add]
  exact statusBytes_value sw

/-- A transport that does this and no more. -/
def HwTransport.plain : HwTransport where
  frame cla ins p1 p2 data :=
    if data.length ≤ 255 then some ([cla, ins, p1, p2, UInt8.ofNat data.length] ++ data) else none
  receive response :=
    if statusWord response = 0x9000 then .ok response
    else .error (UInt16.ofNat (statusWord response))
  frame_short h := if_pos h
  frame_long h := if_neg (not_le.mpr h)
  receive_ok payload := if_pos (statusWord_append payload swOk)
  receive_error payload sw hsw := by
    have hne : sw.toNat ≠ 0x9000 := fun h => hsw (UInt16.toNat_inj.mp h)
    rw [statusWord_append, if_neg hne, UInt16.ofNat_toNat]

/-- The object that a call returns, or the data itself where no format is meant. -/
inductive Result where
  | hex (text : Bytes)
  | base58 (text : Bytes)
  | bin (bytes : Bytes)
  | data (bytes : Bytes)
  deriving DecidableEq

/-- How a call ends: it returns, or `transport.send` has thrown. -/
inductive Ending where
  | returned (result : Result)
  | statusError (sw : UInt16)
  | dataLengthTooBig
  deriving DecidableEq

/-- Where a call stands: before it sends the chunk at `offset`, or until that is answered. -/
inductive Client where
  | sending (offset : ℕ)
  | awaiting (offset : ℕ)
  | ended (ending : Ending)
  deriving DecidableEq

/-- One turn at the desk: the client sends, or the user presses. -/
inductive Turn where
  | send
  | press (mask : UInt32)
  deriving DecidableEq

/-- Two bytes as a word; a `RangeError` for any other number of them. -/
def arrayToWord : Bytes → Option ℕ
  | [high, low] => some (high.toNat <<< 8 ||| low.toNat)
  | _ => none

/-- `truncate`, which drops what the device puts behind a payload. -/
def truncate (data : Bytes) : Bytes := data.take (data.length - 3)

namespace Call

/-- The call sends its buffer in chunks. -/
def More (call : Call) : Prop := call.p2 &&& p2More = p2More

instance (call : Call) : Decidable call.More := inferInstanceAs (Decidable (_ = _))

def chunk (call : Call) (offset : ℕ) : Bytes :=
  if call.More then (call.buffer.drop offset).take exchangeChunkSize else call.buffer

/-- The `switch` at the end of `sendApdu`, on what is left of the data. -/
def result (call : Call) (data : Bytes) : Result :=
  if call.p2 &&& ~~~p2More = p2Hex then .hex (truncate data)
  else if call.p2 &&& ~~~p2More = p2Base58 then .base58 (truncate data)
  else if call.p2 &&& ~~~p2More = p2Bin then .bin (truncate data)
  else .data data

/-- The end of the loop body and the loop condition. -/
def next (call : Call) (offset : ℕ) (response : Bytes) : Client :=
  let data := if response.length = 2 ∧ arrayToWord response = some 0x9000 then [] else response
  if data.length = 0 then .sending (offset + (call.chunk offset).length)
  else .ended (.returned (call.result data))

def issue (transport : HwTransport) (call : Call) : Client → Turn → Option (Option Event × Client)
  | .sending offset, .send =>
      match transport.frame cla call.instruction call.p1 call.p2 (call.chunk offset) with
      | none => some (none, .ended .dataLengthTooBig)
      | some bytes => some (some (.apdu bytes), .awaiting offset)
  | .awaiting _, .send => none
  | .ended _, .send => none
  | client, .press mask => some (some (.button mask), client)

def absorb (transport : HwTransport) (call : Call) : Client → Bytes → Client
  | .awaiting offset, response =>
      match transport.receive response with
      | .error sw => .ended (.statusError sw)
      | .ok data => call.next offset data
  | client, _ => client

def driver (transport : HwTransport) (call : Call) : Driver Client Event Bytes Turn :=
  ⟨.sending 0, call.issue transport, call.absorb transport⟩

end Call

/-- A call in front of a device, with a user. -/
def desk {σ : Type} (m : System σ Event) (wire : σ → List Bytes) (transport : HwTransport)
    (call : Call) : System (σ × Client) Turn := m.driven wire (call.driver transport)

/-! What a call should come to. -/

/-- The object for a value in the format that `p2` asks for; the whole response where `p2` is
valid but means no format. -/
def Result.of (p2 : UInt8) (value : Bytes) : Result :=
  if p2 = p2Hex then .hex (bin2hex value)
  else if p2 = p2Base58 then .base58 (base58Text value)
  else if p2 = p2Bin ∨ p2 = p2More then .bin value
  else .data (answer value)

/-- The ends of a call that is met with a response. -/
def Response.Ends (s : Suite) : Response → Ending → Prop
  | .refuse sw, ending => ending = .statusError sw
  | .give p1 p2 query, ending =>
      ending = .returned (.of p2 (s.value query)) ∨
        p1 = p1Confirm ∧ ending = .statusError swUserRejected
  | _, _ => False

/-- The buffer is sent at once but does not fit a command. -/
def Call.Long (call : Call) : Prop := ¬ call.More ∧ exchangeChunkSize < call.buffer.length

instance (call : Call) : Decidable call.Long := inferInstanceAs (Decidable (_ ∧ _))

namespace Method

def call (production : Bool) (method : Method) : Call := sendApdu production method.arguments

/-- How a device that holds the bytes `acc` of another message meets a whole call. -/
def response (production : Bool) (acc : Bytes) (method : Method) : Response :=
  let call := method.call production
  if ¬ ValidP1P2 call.p1 call.p2 then .refuse swInvalidP1P2
  else match method with
  | .getPublicKey index _ _ => .give call.p1 call.p2 (.publicKey (bip32Path index))
  | .signMessage _ _ _ _ =>
      if maxMsgSize < acc.length + call.buffer.length then .refuse swWrongLength
      else .finish call.p1 call.p2 call.More (acc ++ call.buffer)

/-- The ends of a call to a device that holds the bytes `acc`. -/
def Ends (s : Suite) (production : Bool) (acc : Bytes) (method : Method) (ending : Ending) : Prop :=
  if (method.call production).Long then ending = .dataLengthTooBig
  else (method.response production acc).Ends s ending

end Method

/-- The device collects the chunks of a call. -/
def Call.Streams (call : Call) : Prop := call.instruction = insSignMessage ∧ call.More

instance (call : Call) : Decidable call.Streams := inferInstanceAs (Decidable (_ ∧ _))

/-- The number of chunks that a call still has to send. -/
def Call.budget (call : Call) : Client → ℕ
  | .sending offset =>
      if call.Streams then
        (call.buffer.length - offset + (exchangeChunkSize - 1)) / exchangeChunkSize + 1
      else 1
  | _ => 0

section Loop
variable {call : Call} {transport : HwTransport} {offset : ℕ} {s : Suite}

theorem absorb_more : call.absorb transport (.awaiting offset) (s.render (.status swOk)) =
    .sending (offset + (call.chunk offset).length) := by
  have hreceive := transport.receive_ok []
  rw [List.nil_append] at hreceive
  rw [Call.absorb, Suite.render, hreceive]
  rfl

theorem absorb_status {sw : UInt16} (hsw : sw ≠ swOk) :
    call.absorb transport (.awaiting offset) (s.render (.status sw)) =
      .ended (.statusError sw) := by
  have hreceive := transport.receive_error [] hsw
  rw [List.nil_append] at hreceive
  rw [Call.absorb, Suite.render, hreceive]

theorem truncate_answer (payload : Bytes) : truncate (answer payload) = payload := by
  have hlength : (answer payload).length - 3 = payload.length := by
    rw [answer, List.length_append, List.length_append, statusBytes_length, List.length_singleton]
    omega
  rw [truncate, hlength, answer, List.append_assoc, List.take_left]

theorem and_not_more {p2 : UInt8} (h : p2 &&& p2More = 0) : p2 &&& ~~~p2More = p2 := by
  have hall : ∀ n : Fin 256, UInt8.ofNat n &&& p2More = 0 →
      UInt8.ofNat n &&& ~~~p2More = UInt8.ofNat n := by decide +kernel
  have hp2 := hall ⟨p2.toNat, p2.toNat_lt⟩
  rw [UInt8.ofNat_toNat] at hp2
  exact hp2 h

/-- The client takes an answer apart as the device has put it together. -/
theorem result_answer {p1 : UInt8} (hvalid : ValidP1P2 p1 call.p2) (value : Bytes) :
    call.result (answer (formatPayload call.p2 value)) = .of call.p2 value := by
  rw [Call.result, truncate_answer, formatPayload, Result.of]
  rcases hvalid.p2 with hmore | hformat
  · rw [hmore]
    rfl
  rw [and_not_more hformat]
  have hne : call.p2 ≠ p2More := by
    intro hmore
    rw [hmore] at hformat
    cases hformat
  by_cases hhex : call.p2 = p2Hex
  · simp only [if_pos hhex]
  by_cases h58 : call.p2 = p2Base58
  · simp only [if_neg hhex, if_pos h58]
  · simp only [if_neg hhex, if_neg h58, hne, or_false]

theorem absorb_payload {p1 : UInt8} {query : Query} (hvalid : ValidP1P2 p1 call.p2) :
    call.absorb transport (.awaiting offset) (s.render (.payload call.p2 query)) =
      .ended (.returned (.of call.p2 (s.value query))) := by
  have hreceive := transport.receive_ok (formatPayload call.p2 (s.value query) ++ [0])
  have hlength : (answer (formatPayload call.p2 (s.value query))).length ≠ 2 := by
    rw [answer, List.length_append, List.length_append, statusBytes_length]
    simp only [List.length_singleton]
    omega
  have hsome : (answer (formatPayload call.p2 (s.value query))).length ≠ 0 := by
    rw [answer, List.length_append, statusBytes_length]
    omega
  rw [Call.absorb, Suite.render, answer, hreceive]
  change call.next offset (answer (formatPayload call.p2 (s.value query))) = _
  rw [Call.next]
  simp only [hlength, false_and, if_false, hsome]
  rw [result_answer hvalid]

end Loop

end IostLedger
