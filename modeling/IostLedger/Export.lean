import IostLedger.Base58

/-! The export of a key or a signature: its base-58 text for the compare screen, and the
payload in the format the request asks for, placed in the APDU buffer. The host decodes a
payload by the same format. -/
namespace IostLedger
open Memory Exec

/-- The table `hex` of `bin2hex`. -/
def hexDigits : Bytes := ascii "0123456789abcdef"

/-- The bytes `bin2hex` stores from `dst` on; it returns their number. -/
def bin2hex (data : Bytes) : Bytes :=
  data.flatMap fun b : UInt8 =>
    [hexDigits.getD ((b >>> 4) &&& 0x0F).toNat 0, hexDigits.getD (b &&& 0x0F).toNat 0]

/-- The host's decoder of a hexadecimal text. -/
def hexDecode : Bytes → Bytes
  | hi :: lo :: rest => UInt8.ofNat (16 * hexDigits.idxOf hi + hexDigits.idxOf lo) :: hexDecode rest
  | _ => []

@[simp] theorem bin2hex_length (data : Bytes) : (bin2hex data).length = 2 * data.length := by
  induction data with
  | nil => rfl
  | cons b bs ih =>
      rw [bin2hex, List.flatMap_cons, List.length_append, ← bin2hex, ih]
      simp only [List.length_cons, List.length_nil]
      omega

theorem hexDecode_digits (n : Fin 256) :
    UInt8.ofNat (16 * hexDigits.idxOf (hexDigits.getD ((UInt8.ofNat n >>> 4) &&& 0x0F).toNat 0) +
      hexDigits.idxOf (hexDigits.getD (UInt8.ofNat n &&& 0x0F).toNat 0)) = UInt8.ofNat n := by
  revert n
  decide +kernel

theorem hexDecode_bin2hex (data : Bytes) : hexDecode (bin2hex data) = data := by
  induction data with
  | nil => rfl
  | cons b bs ih =>
      have hb := hexDecode_digits ⟨b.toNat, b.toNat_lt⟩
      rw [UInt8.ofNat_toNat] at hb
      rw [bin2hex, List.flatMap_cons, List.cons_append, List.cons_append, List.nil_append,
        hexDecode, hb, ← bin2hex, ih]

/-- The payload `switch (p2)` selects; the whole byte `p2` is compared. -/
def formatPayload (p2 : UInt8) (data : Bytes) : Bytes :=
  if p2 = p2Hex then bin2hex data else if p2 = p2Base58 then base58Text data else data

/-- How the host reads a payload back, by the format it asked for. -/
def decodePayload (format : UInt8) (payload : Bytes) : Bytes :=
  if format = p2Hex then hexDecode payload
  else if format = p2Base58 then base58Decode payload else payload

theorem decodePayload_formatPayload (format : UInt8) (data : Bytes) :
    decodePayload format (formatPayload format data) = data := by
  unfold decodePayload formatPayload
  by_cases hhex : format = p2Hex
  · rw [if_pos hhex, if_pos hhex, hexDecode_bin2hex]
  · by_cases h58 : format = p2Base58
    · rw [if_neg hhex, if_neg hhex, if_pos h58, if_pos h58, base58Decode_text]
    · rw [if_neg hhex, if_neg hhex, if_neg h58, if_neg h58]

theorem formatPayload_injective (format : UInt8) : Function.Injective (formatPayload format) :=
  Function.LeftInverse.injective (decodePayload_formatPayload format)

theorem formatPayload_length_le (p2 : UInt8) (data : Bytes) :
    (formatPayload p2 data).length ≤ 2 * data.length := by
  unfold formatPayload
  split_ifs
  · rw [bin2hex_length]
  · exact base58Text_length_le data
  · omega

/-- The bytes the `switch (p2)` of an export moves to the output. -/
def exportPayload (p2 : UInt8) (data : Bytes) (ui : UiContext) : Checked Bytes :=
  if p2 = p2Hex then .ok (bin2hex data)
  else if p2 = p2Base58 then inRange (ui.msgBody.read? 0 ui.msgLength)
  else .ok data

/-- The common part of `export_signature` and `get_pk`: `data` as base-58 text in
`ui.msg_body`, the payload and its terminator from `output` on in the APDU buffer. The last
component is the value of `context.output_length`. -/
def exportBytes (p2 : UInt8) (data : Bytes) (ui : UiContext) (apdu : Buffer ioApduBufferSize)
    (output : ℕ) : Checked (UiContext × Buffer ioApduBufferSize × ℕ) := do
  let text ← encodeBase58 data
  let msgBody ← inRange (ui.msgBody.write? 0 text)
  let msgBody ← inRange (msgBody.set? text.length 0)
  let ui := { ui with msgBody := msgBody, msgLength := text.length }
  let payload ← exportPayload p2 data ui
  let apdu ← inRange (apdu.write? output payload)
  let apdu ← inRange (apdu.set? (output + payload.length) 0)
  pure (ui, apdu, payload.length)

/-- The compare text of exported bytes in the ui context. -/
def UiContext.withText (ui : UiContext) (data : Bytes) : UiContext :=
  { ui with msgBody := ui.msgBody.splice 0 (base58Text data ++ [0])
            msgLength := (base58Text data).length }

theorem exportText_read {ui : UiContext} {data : Bytes} (hdata : data.length ≤ 64) :
    (ui.withText data).msgBody.read? 0 (ui.withText data).msgLength = some (base58Text data) := by
  have htext := base58Text_length_le data
  have hbody : 0 + (base58Text data ++ [0]).length ≤ displaySize * displaySize := by
    simp only [displaySize, List.length_append, List.length_singleton]
    omega
  rw [UiContext.withText, Buffer.read?_of_le (by simp only [displaySize]; omega), List.drop_zero,
    Buffer.splice_bytes hbody, List.take_zero, List.nil_append, List.append_assoc, List.take_left]

/-- Up to 64 bytes are exported in range, whatever the format byte. -/
theorem exportBytes_eq {p2 : UInt8} {data : Bytes} {ui : UiContext}
    {apdu : Buffer ioApduBufferSize} {output : ℕ} (hdata : data.length ≤ 64)
    (hout : output + 2 * data.length < ioApduBufferSize) :
    exportBytes p2 data ui apdu output =
      .ok (ui.withText data, apdu.splice output (formatPayload p2 data ++ [0]),
        (formatPayload p2 data).length) := by
  have htext := base58Text_length_le data
  have hpayload := formatPayload_length_le p2 data
  have hbody : (base58Text data).length + 1 ≤ displaySize * displaySize := by
    simp only [displaySize]
    omega
  have hset : (ui.msgBody.splice 0 (base58Text data)).set? (base58Text data).length 0 =
      some (ui.msgBody.splice 0 (base58Text data ++ [0])) := by
    rw [Buffer.set?_of_lt (by omega)]
    have h : (ui.msgBody.splice 0 (base58Text data)).splice
        (0 + (base58Text data).length) [0] = _ :=
      Buffer.splice_splice (by simp only [List.length_singleton]; omega)
    rw [Nat.zero_add] at h
    rw [h]
  have hpick : exportPayload p2 data (ui.withText data) = .ok (formatPayload p2 data) := by
    unfold exportPayload formatPayload
    rw [exportText_read hdata]
    split_ifs <;> rfl
  have hwrite : apdu.write? output (formatPayload p2 data) =
      some (apdu.splice output (formatPayload p2 data)) := Buffer.write?_of_le (by omega)
  have hend : (apdu.splice output (formatPayload p2 data)).set?
      (output + (formatPayload p2 data).length) 0 =
      some (apdu.splice output (formatPayload p2 data ++ [0])) := by
    rw [Buffer.set?_of_lt (by omega),
      Buffer.splice_splice (by simp only [List.length_singleton]; omega)]
  simp only [exportBytes, encodeBase58_eq hdata, Buffer.write?_of_le
    (show 0 + (base58Text data).length ≤ displaySize * displaySize by omega), hset,
    inRange_some, bind, Except.bind]
  rw [← UiContext.withText, hpick]
  simp only [hwrite, hend, inRange_some]
  rfl

end IostLedger
