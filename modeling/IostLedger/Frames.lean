import IostLedger.Device
import IostLedger.Lib.Framing

/-! The reports of the USB HID transport: what both sides make of a message. A report names its
channel and its number, and the first one the length of the message; the last is filled up. -/
namespace IostLedger
open Framing

/-- `IO_HID_EP_LENGTH`. -/
def ioHidEpLength : ℕ := 64

/-- The content tag of an APDU packet. -/
def tagApdu : UInt8 := 0x05

/-- Two bytes, big endian. -/
def be16 (v : ℕ) : Bytes := [UInt8.ofNat (v / 256), UInt8.ofNat v]

/-- `U2BE`. -/
def u2be (bytes : Bytes) (off : ℕ) : ℕ :=
  (bytes.getD off 0).toNat * 256 + (bytes.getD (off + 1) 0).toNat

/-- The room of the reports behind channel, tag and number, and the length in the first one. -/
def hidLayout : Layout where
  first := ioHidEpLength - 7
  next := ioHidEpLength - 5
  first_pos := by decide
  next_pos := by decide

def reportHeader (channel len k : ℕ) : Bytes :=
  be16 channel ++ [tagApdu] ++ be16 k ++ if k = 0 then be16 len else []

/-- Filled up to the length of a report. -/
def padded (bytes : Bytes) : Bytes := bytes ++ List.replicate (ioHidEpLength - bytes.length) 0

/-- Report `k` of a message. -/
def report (channel : ℕ) (m : Bytes) (k : ℕ) : Bytes :=
  padded (reportHeader channel m.length k ++ hidLayout.piece m k)

/-- The reports of a message from number `k` on. -/
def reportsFrom (channel : ℕ) (m : Bytes) (k : ℕ) : List Bytes :=
  hidLayout.framesFrom (report channel m) m.length k

/-- The reports of a message. -/
def reports (channel : ℕ) (m : Bytes) : List Bytes := reportsFrom channel m 0

section Fields
variable {channel k : ℕ} {m : Bytes}

@[simp] theorem be16_length (v : ℕ) : (be16 v).length = 2 := rfl

theorem be16_value {v : ℕ} (h : v < 2 ^ 16) :
    (UInt8.ofNat (v / 256)).toNat * 256 + (UInt8.ofNat v).toNat = v := by
  rw [UInt8.toNat_ofNat', UInt8.toNat_ofNat']
  omega

theorem reportHeader_length (channel len k : ℕ) :
    (reportHeader channel len k).length = ioHidEpLength - hidLayout.room k := by
  cases k <;> rfl

theorem room_le (k : ℕ) : hidLayout.room k ≤ ioHidEpLength := by
  cases k <;> exact Nat.sub_le _ _

theorem padded_length {bytes : Bytes} (h : bytes.length ≤ ioHidEpLength) :
    (padded bytes).length = ioHidEpLength := by
  rw [padded, List.length_append, List.length_replicate]
  omega

theorem report_length (channel : ℕ) (m : Bytes) (k : ℕ) :
    (report channel m k).length = ioHidEpLength := by
  have hpiece := hidLayout.piece_length_le m k
  have hroom := room_le k
  apply padded_length
  rw [List.length_append, reportHeader_length]
  omega

/-- A report is its header, its piece and zeros. -/
theorem report_eq (channel : ℕ) (m : Bytes) (k : ℕ) :
    ∃ zeros, report channel m k =
      be16 channel ++ [tagApdu] ++ be16 k ++ (if k = 0 then be16 m.length else []) ++
        hidLayout.piece m k ++ zeros := ⟨_, rfl⟩

theorem report_tag (channel : ℕ) (m : Bytes) (k : ℕ) :
    (report channel m k).getD 2 0 = tagApdu := rfl

theorem report_channel (h : channel < 2 ^ 16) : u2be (report channel m k) 0 = channel :=
  be16_value h

theorem report_number (h : k < 2 ^ 16) : u2be (report channel m k) 3 = k := be16_value h

theorem report_total (h : m.length < 2 ^ 16) : u2be (report channel m 0) 5 = m.length :=
  be16_value h

/-- Behind the header stands the piece, as far as it goes. -/
theorem report_piece {n : ℕ} (hn : n = (hidLayout.piece m k).length) :
    ((report channel m k).drop (ioHidEpLength - hidLayout.room k)).take n =
      hidLayout.piece m k := by
  rw [report, padded, List.append_assoc, ← reportHeader_length channel m.length k,
    List.drop_left, hn, List.take_left]

end Fields

end IostLedger
