import IostLedger.Lib.Endian
import IostLedger.RawSigning

/-! The export of a public key: the encoding of the derived point, and the replies of
`GET_PUBLIC_KEY`. -/
namespace IostLedger
open Memory Exec Machine Endian

/-! The encoding. -/

/-- An uncompressed point: `04`, then both coordinates with the most significant byte first. -/
structure IsPoint (w : Buffer 65) (x y : ℕ) : Prop where
  bytes : w.bytes = 4 :: ((littleEndian 32 x).reverse ++ (littleEndian 32 y).reverse)
  y_lt : y < 2 ^ 255

/-- The compressed point: `y` with the least significant byte first, and the parity of `x` in
its top bit. -/
def compress (x y : ℕ) : Bytes := littleEndian 32 (y + x % 2 * 2 ^ 255)

theorem compress_length (x y : ℕ) : (compress x y).length = 32 := littleEndian_length 32 _

/-- Points with the same encoding agree in `y` and in the parity of `x`. -/
theorem compress_inj {x y x' y' : ℕ} (hy : y < 2 ^ 255) (hy' : y' < 2 ^ 255)
    (h : compress x y = compress x' y') : y = y' ∧ x % 2 = x' % 2 := by
  have hpow : 256 ^ 32 = 2 * 2 ^ 255 := by norm_num
  have hmod := Nat.mod_lt x (show 0 < 2 by decide)
  have hmod' := Nat.mod_lt x' (show 0 < 2 by decide)
  have heq := littleEndian_inj (by rw [hpow]; omega) (by rw [hpow]; omega) h
  omega

section Point
variable {w : Buffer 65} {x y : ℕ}

theorem IsPoint.pointByte (h : IsPoint w x y) {i : ℕ} (hi : i < 32) :
    pointByte w i = UInt8.ofNat (y / 256 ^ i) := by
  have hindex : ed25519KeySize * 2 - i = (31 - i + 32) + 1 := by
    simp only [ed25519KeySize]
    omega
  have hx : (littleEndian 32 x).reverse.length = 32 := by simp
  rw [IostLedger.pointByte, h.bytes, hindex, List.getD_cons_succ, List.getD_eq_getElem?_getD,
    List.getElem?_append_right (by rw [hx]; omega), hx, Nat.add_sub_cancel,
    List.getElem?_reverse (by rw [littleEndian_length]; omega), littleEndian_length,
    show 32 - 1 - (31 - i) = i by omega, littleEndian_getElem? hi, Option.getD_some]

theorem IsPoint.parity (h : IsPoint w x y) :
    w.bytes.getD ed25519KeySize 0 &&& 1 = 1 ↔ x % 2 = 1 := by
  have hbyte : w.bytes.getD ed25519KeySize 0 = UInt8.ofNat x := by
    have hx : (littleEndian 32 x).reverse.length = 32 := by simp
    rw [h.bytes, show ed25519KeySize = 31 + 1 from rfl, List.getD_cons_succ,
      List.getD_eq_getElem?_getD, List.getElem?_append_left (by rw [hx]; decide),
      List.getElem?_reverse (by rw [littleEndian_length]; decide), littleEndian_length,
      littleEndian_getElem? (by decide), Option.getD_some, pow_zero, Nat.div_one]
  rw [hbyte, ← UInt8.toNat_inj, UInt8.toNat_and, UInt8.toNat_ofNat']
  change x % 256 &&& 1 = 1 ↔ _
  rw [Nat.and_one_is_mod]
  omega

theorem ofNat_or_top {n : ℕ} (h : n < 128) : UInt8.ofNat n ||| 0x80 = UInt8.ofNat (n + 128) := by
  have hall : ∀ k : Fin 128, UInt8.ofNat k ||| 0x80 = UInt8.ofNat (k + 128) := by decide +kernel
  exact hall ⟨n, h⟩

/-- The bytes the application extracts are the compressed point. -/
theorem IsPoint.extract (h : IsPoint w x y) :
    iostExtractBytesFromPublicKey w = compress x y := by
  have hy := h.y_lt
  have htop : 2 ^ 255 = 256 ^ 31 * 128 := by norm_num
  -- the parity only reaches the last byte
  have hlow (i : ℕ) (hi : i < 31) :
      UInt8.ofNat ((y + x % 2 * 2 ^ 255) / 256 ^ i) = UInt8.ofNat (y / 256 ^ i) := by
    have hsplit : x % 2 * 2 ^ 255 = 256 ^ i * (256 * (x % 2 * 128 * 256 ^ (30 - i))) := by
      have hpow : (256 : ℕ) ^ 31 = 256 ^ i * (256 * 256 ^ (30 - i)) := by
        rw [← pow_succ', ← pow_add, show i + (30 - i + 1) = 31 by omega]
      rw [htop, hpow]
      ring
    rw [← UInt8.toNat_inj, UInt8.toNat_ofNat', UInt8.toNat_ofNat', hsplit,
      Nat.add_mul_div_left _ _ (by positivity)]
    omega
  have hhigh : (y + x % 2 * 2 ^ 255) / 256 ^ 31 = y / 256 ^ 31 + x % 2 * 128 := by
    rw [htop, show x % 2 * (256 ^ 31 * 128) = 256 ^ 31 * (x % 2 * 128) by ring,
      Nat.add_mul_div_left _ _ (by positivity)]
  have hsmall : y / 256 ^ 31 < 128 := by
    apply Nat.div_lt_of_lt_mul
    rw [← htop]
    exact hy
  apply List.ext_getElem?
  intro i
  by_cases hi : i < 32
  swap
  · rw [List.getElem?_eq_none (by rw [encode_length]; omega),
      List.getElem?_eq_none (by rw [compress_length]; omega)]
  have hmap : ((List.range ed25519KeySize).map (IostLedger.pointByte w))[i]? =
      some (UInt8.ofNat (y / 256 ^ i)) := by
    rw [List.getElem?_map, List.getElem?_range (by exact hi), Option.map_some, h.pointByte hi]
  rw [compress, littleEndian_getElem? hi]
  unfold iostExtractBytesFromPublicKey
  simp only []
  split_ifs with hparity
  · rw [h.parity] at hparity
    rw [List.getElem?_set]
    split_ifs with hlast hrange
    · obtain rfl : i = 31 := by simpa [ed25519KeySize] using hlast.symm
      rw [show ed25519KeySize - 1 = 31 from rfl, h.pointByte (by decide), hhigh, hparity, one_mul,
        ofNat_or_top hsmall]
    · simp [ed25519KeySize] at hrange
    · rw [hmap, hlow i (by simp only [ed25519KeySize] at hlast; omega)]
  · rw [h.parity] at hparity
    have heven : x % 2 = 0 := by omega
    rw [hmap, heven, zero_mul, Nat.add_zero]

end Point

/-! The handler. -/

section Handler
variable {s : Suite} {d : Device} {path : List UInt32} {p1 p2 : UInt8} {trailing : Bytes}

theorem derivePublicKey_run (s : Suite) (path : List UInt32) (d : Device) :
    (derivePublicKey s.crypto path).run d = .ok 0 (derived (s.publicPoint path) d) := by
  rw [derivePublicKey, run_onPart, s.iostDeriveKeypair_run]
  rfl

theorem getPk_run (htx : d.tx = 0) :
    (getPk s.crypto path p2 d.tx).run d = .ok () (exported .getPublicKey p2
      (iostExtractBytesFromPublicKey (s.publicPoint path)) 0 (derived (s.publicPoint path) d)) := by
  have hlen := encode_length (s.publicPoint path)
  have hpayload := formatPayload_length_le p2 (iostExtractBytesFromPublicKey (s.publicPoint path))
  have hexport : exportBytes p2 (iostExtractBytesFromPublicKey (s.publicPoint path)) d.pk.ui
      d.apdu 0 = _ := exportBytes_eq (by omega) (by simp only [ioApduBufferSize]; omega)
  have hresult : ¬ (0 : ℕ) ≠ 0 := by simp
  have hwide : (formatPayload p2 (iostExtractBytesFromPublicKey (s.publicPoint path))).length %
      2 ^ 16 =
        (formatPayload p2 (iostExtractBytesFromPublicKey (s.publicPoint path))).length := by omega
  simp only [getPk, EStateM.run_bind, derivePublicKey_run, if_neg hresult, EStateM.run_get, htx,
    derived, hexport, run_ofChecked_ok, EStateM.run_set, hwide]
  rfl

/-- The handler exports the key of the path it reads. -/
theorem handleGetPublicKey_run {buffer bufferLength : ℕ} (hvalid : ValidP1P2 p1 p2)
    (htx : d.tx = 0) (hread : ioReadBip32 d.apdu buffer bufferLength = .ok path) :
    (handleGetPublicKey s.crypto p1 p2 buffer bufferLength).run d =
      (finishExport .getPublicKey p1 (promptLabel .getPublicKey ++ ascii "%u?") path).run
        (exported .getPublicKey p2 (iostExtractBytesFromPublicKey (s.publicPoint path)) 0
          (derived (s.publicPoint path) d)) := by
  simp only [handleGetPublicKey, EStateM.run_bind, hvalid.check, run_ofChecked_ok, EStateM.run_get,
    hread, getPk_run htx]
  rfl

theorem processApdu_publicKey (crypto : Crypto) (d : Device) (p1 : UInt8) {data : Bytes}
    (hdata : data.length ≤ 255) (hsome : ¬ (data = [] ∧ p2 &&& p2More = 0)) :
    (processApdu crypto (5 + data.length)).run (received (command insGetPublicKey p1 p2 data) d) =
      (handleGetPublicKey crypto p1 p2 offsetCdata data.length).run
        (received (command insGetPublicKey p1 p2 data) d) := by
  rw [processApdu_command crypto d insGetPublicKey p1 p2 hdata, if_neg hsome]
  rfl

/-- The path of a request does not depend on its header. -/
theorem received_path (d : Device) (ins p1 p2 p1' : UInt8) {data : Bytes}
    (hdata : data.length ≤ 255) :
    ioReadBip32 (received (command ins p1 p2 data) d).apdu offsetCdata data.length =
      ioReadBip32 (received (command ins p1' p2 data) d).apdu offsetCdata data.length := by
  have hdrop (p : UInt8) := received_command_drop d ins p p2 hdata
  have hlen : data.length < 2 ^ 16 := by omega
  apply ioReadBip32_congr hlen (Nat.le_add_left data.length 21) (by omega) (by omega)
  intro i _
  rw [Buffer.get?, Buffer.get?, ← List.getElem?_drop, ← List.getElem?_drop, hdrop p1, hdrop p1']

/-- Where a path is read, its public key is exported. -/
theorem publicKey_exports_of_read {data : Bytes} (hready : Ready d)
    (hp2 : p2 = p2More ∨ p2 &&& p2More = 0) (hdata : data.length ≤ 255)
    (hsome : ¬ (data = [] ∧ p2 &&& p2More = 0))
    (hread : ioReadBip32 (received (command insGetPublicKey p1 p2 data) d).apdu offsetCdata
      data.length = .ok path) :
    Exports s.crypto .getPublicKey d p2 data
      (iostExtractBytesFromPublicKey (s.publicPoint path)) path := by
  intro p1' hp1'
  have hsame := untouched_received hready (command insGetPublicKey p1' p2 data)
  have htx : (received (command insGetPublicKey p1' p2 data) d).tx = 0 :=
    hready.inv.tx hready.phase
  refine ⟨derived (s.publicPoint path) (received (command insGetPublicKey p1' p2 data) d),
    ⟨⟨rfl, rfl, rfl⟩, ⟨hsame.bounded.sign, ⟨hsame.bounded.pk.outputLength, hsame.bounded.pk.ui⟩⟩,
      rfl, rfl⟩, htx, fun _ => rfl, ?_⟩
  have hread' := (received_path d insGetPublicKey p1' p2 p1 hdata).trans hread
  exact (processApdu_publicKey s.crypto d p1' hdata hsome).trans
    (handleGetPublicKey_run ⟨hp1', hp2⟩ htx hread')

/-- A request for a public key exports it, for every state the device waits in. -/
theorem publicKey_exports (hready : Ready d) (hp : ValidPath path)
    (hp2 : p2 = p2More ∨ p2 &&& p2More = 0)
    (hdata : (bufferFromBip32 path ++ trailing).length ≤ 255) :
    Exports s.crypto .getPublicKey d p2 (bufferFromBip32 path ++ trailing)
      (iostExtractBytesFromPublicKey (s.publicPoint path)) path := by
  have hsome : ¬ (bufferFromBip32 path ++ trailing = [] ∧ p2 &&& p2More = 0) := by
    rw [bufferFromBip32]
    simp
  have hlen :
      (bufferFromBip32 path ++ trailing).length = 1 + 4 * path.length + trailing.length := by
    rw [List.length_append, bufferFromBip32_length]
  have hdrop := received_command_drop d insGetPublicKey p1Silent p2 hdata
  rw [List.append_assoc] at hdrop
  have hread : ioReadBip32 (received (command insGetPublicKey p1Silent p2
      (bufferFromBip32 path ++ trailing)) d).apdu offsetCdata
      (bufferFromBip32 path ++ trailing).length = _ := ioReadBip32_eq hp (by omega) hdrop
  rw [if_pos (Or.inr (by omega))] at hread
  exact publicKey_exports_of_read hready hp2 hdata hsome hread

/-- Every request for a public key is refused with both contexts cleared, or it exports a key. -/
theorem publicKey_cases (s : Suite) (p1 p2 : UInt8) {data : Bytes} (hready : Ready d)
    (hdata : data.length ≤ 255) :
    (∃ sw d', (sw = swWrongLength ∨ sw = swInvalidP1P2) ∧
        step s.crypto d (.apdu (command insGetPublicKey p1 p2 data)) = some d' ∧ Ready d' ∧
        d'.wire = [statusBytes sw] ∧ d'.sign = .zero ∧ d'.pk = .zero) ∨
      (ValidP1P2 p1 p2 ∧ ∃ path, ValidPath path ∧ Exports s.crypto .getPublicKey d p2 data
        (iostExtractBytesFromPublicKey (s.publicPoint path)) path) := by
  have htx : (received (command insGetPublicKey p1 p2 data) d).tx = 0 := hready.inv.tx hready.phase
  have hsame := untouched_received hready (command insGetPublicKey p1 p2 data)
  by_cases hempty : data = [] ∧ p2 &&& p2More = 0
  · left
    have hrun := processApdu_command s.crypto d insGetPublicKey p1 p2 hdata
    rw [if_pos hempty] at hrun
    obtain ⟨d', h⟩ := step_refused hready hdata hrun hsame htx (by simp)
    exact ⟨_, d', Or.inl rfl, h⟩
  have hrun := processApdu_publicKey s.crypto d p1 hdata hempty
  by_cases hvalid : ValidP1P2 p1 p2
  swap
  · left
    simp only [handleGetPublicKey, EStateM.run_bind, ioCheckP1P2_refuse hvalid,
      run_ofChecked_error] at hrun
    obtain ⟨d', h⟩ := step_refused hready hdata hrun hsame htx (by simp)
    exact ⟨_, d', Or.inr rfl, h⟩
  have hfit : offsetCdata + 21 ≤ ioApduBufferSize := by decide
  rcases ioReadBip32_ok_or (received (command insGetPublicKey p1 p2 data) d).apdu data.length hfit
    with ⟨path, hp, -, hread⟩ | hread
  · right
    exact ⟨hvalid, path, hp, publicKey_exports_of_read hready hvalid.p2 hdata hempty hread⟩
  · left
    simp only [handleGetPublicKey, EStateM.run_bind, hvalid.check, run_ofChecked_ok,
      EStateM.run_get, hread, run_ofChecked_error] at hrun
    obtain ⟨d', h⟩ := step_refused hready hdata hrun hsame htx (by simp)
    exact ⟨_, d', Or.inl rfl, h⟩

end Handler

/-- The reply to a request for a public key. -/
theorem publicKey_reply {crypto : Crypto} {s : Suite} {d : Device} {path : List UInt32}
    {trailing : Bytes} {p1 p2 : UInt8} {x y : ℕ} (hd : (app crypto).Reachable d)
    (hphase : d.phase = .waiting) (hidle : d.apduState = .idle) (hp : ValidPath path)
    (hpoint : IsPoint (s.publicPoint path) x y) (hp1 : p1 = p1Confirm ∨ p1 = p1Silent)
    (hp2 : p2 = p2Bin ∨ p2 = p2Hex ∨ p2 = p2Base58)
    (hdata : (bufferFromBip32 path ++ trailing).length ≤ 255) :
    ∃ d', exchange s.crypto d (command insGetPublicKey p1 p2 (bufferFromBip32 path ++ trailing)) =
        some d' ∧
      d'.wire = [answer (formatPayload p2 (compress x y))] ∧ d'.sign = d.sign := by
  have hready := ready_of_reachable hd hphase hidle
  have hformat : p2 = p2More ∨ p2 &&& p2More = 0 := by rcases hp2 with rfl | rfl | rfl <;> decide
  have hexports := publicKey_exports (s := s) hready hp hformat hdata
  rw [hpoint.extract] at hexports
  obtain ⟨d', hexchange, -, hwire, hsign⟩ :=
    hexports.exchange hready hdata (by rw [compress_length]; decide) hp1
  exact ⟨d', hexchange, hwire, hsign rfl⟩

theorem answer_payload (payload : Bytes) :
    (answer payload).take ((answer payload).length - 3) = payload := by
  rw [answer, List.append_assoc]
  apply List.take_left'
  simp

/-- A public key is exported in the chosen format and can be read back, and the rest of the
device and of the request do not show in the reply. -/
theorem publicKey_end_to_end {crypto : Crypto} {s : Suite} {d : Device} {path : List UInt32}
    {trailing : Bytes} {p1 p2 : UInt8} {x y : ℕ} (hd : (app crypto).Reachable d)
    (hphase : d.phase = .waiting) (hidle : d.apduState = .idle) (hp : ValidPath path)
    (hpoint : IsPoint (s.publicPoint path) x y) (hp1 : p1 = p1Confirm ∨ p1 = p1Silent)
    (hp2 : p2 = p2Bin ∨ p2 = p2Hex ∨ p2 = p2Base58)
    (hdata : (bufferFromBip32 path ++ trailing).length ≤ 255) :
    ∃ d' reply,
      exchange s.crypto d (command insGetPublicKey p1 p2 (bufferFromBip32 path ++ trailing)) =
        some d' ∧
      d'.wire = [reply] ∧ reply = formatPayload p2 (compress x y) ++ [0] ++ [0x90, 0x00] ∧
      decodePayload p2 (reply.take (reply.length - 3)) = compress x y ∧ d'.sign = d.sign ∧
      -- any other request, of any state: the same key gives the same reply, another key another
      ∀ (crypto₂ : Crypto) (s₂ : Suite) (d₂ d₂' : Device) (path₂ : List UInt32)
          (trailing₂ : Bytes) (p1₂ : UInt8) (x₂ y₂ : ℕ),
        (app crypto₂).Reachable d₂ → d₂.phase = .waiting → d₂.apduState = .idle →
        ValidPath path₂ → IsPoint (s₂.publicPoint path₂) x₂ y₂ →
        p1₂ = p1Confirm ∨ p1₂ = p1Silent → (bufferFromBip32 path₂ ++ trailing₂).length ≤ 255 →
        exchange s₂.crypto d₂
          (command insGetPublicKey p1₂ p2 (bufferFromBip32 path₂ ++ trailing₂)) = some d₂' →
        (d₂'.wire = [reply] ↔ y = y₂ ∧ x % 2 = x₂ % 2) := by
  obtain ⟨d', hexchange, hwire, hsign⟩ :=
    publicKey_reply hd hphase hidle hp hpoint hp1 hp2 hdata
  refine ⟨d', _, hexchange, hwire, rfl, ?_, hsign, ?_⟩
  · rw [answer_payload, decodePayload_formatPayload]
  · intro crypto₂ s₂ d₂ d₂' path₂ trailing₂ p1₂ x₂ y₂ hd₂ hphase₂ hidle₂ hpath₂ hpoint₂ hp1₂ hdata₂
      hex₂
    obtain ⟨d₃, hexchange₃, hwire₃, -⟩ :=
      publicKey_reply hd₂ hphase₂ hidle₂ hpath₂ hpoint₂ hp1₂ hp2 hdata₂
    obtain rfl := Option.some.inj (hexchange₃.symm.trans hex₂)
    rw [hwire₃]
    constructor
    · intro h
      have hpayload := List.append_cancel_right (List.append_cancel_right (List.cons.inj h).1)
      have hkey := formatPayload_injective p2 hpayload
      exact compress_inj hpoint.y_lt hpoint₂.y_lt hkey.symm
    · rintro ⟨rfl, hparity⟩
      rw [compress, compress, hparity]

theorem publicKey_end_to_end_boot : ∃ d' reply,
    exchange (Suite.marking [] []).crypto (boot (.zero _))
      (command insGetPublicKey p1Confirm p2Hex (bufferFromBip32 [0x8000002C] ++ [7])) = some d' ∧
    d'.wire = [reply] := by
  have hpoint : IsPoint ((Suite.marking [] []).publicPoint [0x8000002C])
      (256 ^ 31 + 0x80 * 256 ^ 30 + 0x2C * 256 ^ 27)
      (256 ^ 31 + 0x80 * 256 ^ 30 + 0x2C * 256 ^ 27) := ⟨by decide +kernel, by decide +kernel⟩
  obtain ⟨d', reply, hexchange, hwire, -⟩ := publicKey_end_to_end
    (reachable_boot (Suite.marking [] []).crypto (.zero _)) rfl rfl ⟨by decide, by decide⟩ hpoint
    (Or.inl rfl) (Or.inr (Or.inl rfl))
    (show (bufferFromBip32 [0x8000002C] ++ [7]).length ≤ 255 by decide)
  exact ⟨d', reply, hexchange, hwire⟩

end IostLedger
