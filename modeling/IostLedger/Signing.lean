import IostLedger.Requests

/-! Signing requests over cryptographic functions that succeed: what the accumulated bytes
are, and what is signed. -/
namespace IostLedger
open Memory Exec Machine

/-- The bytes accumulated in the sign context. -/
structure SignTxContext.Holds (c : SignTxContext) (acc : Bytes) : Prop where
  length : c.msgLength = acc.length
  bytes : c.msgBody.bytes.take acc.length = acc

theorem SignTxContext.zero_holds : SignTxContext.zero.Holds [] := ⟨rfl, rfl⟩

theorem SignTxContext.Holds.length_le {c : SignTxContext} {acc : Bytes} (h : c.Holds acc) :
    acc.length ≤ maxMsgSize := by
  have hlen := congrArg List.length h.bytes
  rw [List.length_take, Buffer.size_eq] at hlen
  omega

/-- What is signed of a message: its length passes through a `uint8_t`. -/
def signedPart (m : Bytes) : Bytes := m.take (m.length % 2 ^ 8)

/-- The signature of `iost_sign`, which signs nothing when the length is zero. -/
def Suite.signed (s : Suite) (path : List UInt32) (m : Bytes) : Bytes :=
  if m.length % 2 ^ 8 = 0 then [] else s.signature path (signedPart m)

theorem Suite.signed_length_le (s : Suite) (path : List UInt32) (m : Bytes) :
    (s.signed path m).length ≤ 64 := by
  unfold Suite.signed
  split_ifs <;> simp

theorem Suite.signed_of_short (s : Suite) (path : List UInt32) {m : Bytes} (hpos : 1 ≤ m.length)
    (hle : m.length ≤ 255) : s.signed path m = s.signature path m := by
  have hmod : m.length % 2 ^ 8 = m.length := by omega
  rw [Suite.signed, signedPart, hmod, if_neg (by omega), List.take_length]

/-- What reaches the signer: the message, or its hash. -/
def Suite.prepared (s : Suite) (hashBeforeSign : Bool) (m : Bytes) : Bytes :=
  if hashBeforeSign then s.hash m else m

section Context
variable {c : SignTxContext} {acc data m : Bytes} {apdu : Buffer ioApduBufferSize} {buffer : ℕ}
  {path : List UInt32}

theorem readMessage_append (hc : c.Holds acc) (hread : apdu.read? buffer data.length = some data)
    (hfit : acc.length + data.length ≤ maxMsgSize) :
    ∃ c', (readMessage apdu buffer data.length).run c = .ok () c' ∧ c'.Holds (acc ++ data) ∧
      c'.ui = c.ui ∧ c'.outputLength = c.outputLength := by
  have hroom : ¬ maxMsgSize < c.msgLength + data.length := by
    rw [hc.length]
    omega
  by_cases hdata : data = []
  · subst hdata
    have hempty : ¬ ([] : Bytes).length ≠ 0 := by simp
    refine ⟨c, ?_, ?_, rfl, rfl⟩
    · simp only [readMessage, EStateM.run_bind, EStateM.run_get, if_neg hroom, if_neg hempty]
      rfl
    · rwa [List.append_nil]
  · have hne : data.length ≠ 0 := fun h => hdata (List.length_eq_zero_iff.mp h)
    have hwrite : c.msgBody.write? c.msgLength data = some (c.msgBody.splice acc.length data) := by
      rw [hc.length]
      exact Buffer.write?_of_le hfit
    refine ⟨{ c with
      msgBody := c.msgBody.splice acc.length data
      msgLength := (c.msgLength + data.length) % 2 ^ 16 }, ?_, ⟨?_, ?_⟩, rfl, rfl⟩
    · simp only [readMessage, EStateM.run_bind, EStateM.run_get, if_neg hroom, if_pos hne, hread,
        hwrite, inRange_some, run_ofChecked_ok]
      rfl
    · simp only [maxMsgSize] at hfit
      simp only [hc.length, List.length_append]
      omega
    · have htake := Buffer.take_splice_end hfit rfl (b := c.msgBody)
      rw [hc.bytes] at htake
      rw [List.length_append, htake]

theorem readMessage_overflow (hc : c.Holds acc)
    (hover : maxMsgSize < acc.length + data.length) :
    (readMessage apdu buffer data.length).run c = .error (.thrown swWrongLength) c := by
  have hroom : maxMsgSize < c.msgLength + data.length := by
    rw [hc.length]
    exact hover
  simp only [readMessage, EStateM.run_bind, EStateM.run_get, if_pos hroom, run_throwCode]

theorem holds_drop (hc : c.Holds acc) :
    c.msgBody.bytes.drop 0 = acc ++ c.msgBody.bytes.drop acc.length := by
  rw [List.drop_zero]
  conv_lhs => rw [← List.take_append_drop acc.length c.msgBody.bytes]
  rw [hc.bytes]

/-- The hash overwrites the message and leaves the path before it. -/
theorem hashMessage_run (s : Suite) (hashBeforeSign : Bool) (hp : ValidPath path)
    (hc : c.Holds (bufferFromBip32 path ++ m)) :
    ∃ body : Buffer maxMsgSize, (hashMessage s.crypto hashBeforeSign (1 + 4 * path.length)).run
        { c with msgLength := m.length } =
        .ok () { c with msgBody := body, msgLength := (s.prepared hashBeforeSign m).length } ∧
      ∃ rest, body.bytes = bufferFromBip32 path ++ s.prepared hashBeforeSign m ++ rest := by
  have hlen := hc.length_le
  have hdrop := holds_drop hc
  have hpath := bufferFromBip32_length path
  rw [List.drop_zero] at hdrop
  rw [List.length_append, hpath] at hlen
  cases hashBeforeSign with
  | false => exact ⟨c.msgBody, rfl, _, hdrop⟩
  | true =>
    have hin : c.msgBody.read? (1 + 4 * path.length) m.length = some m := by
      rw [Buffer.read?_of_le (by omega), hdrop, List.append_assoc, List.drop_left' hpath,
        List.take_left]
    have hhash := s.hash_length m
    have hle := hp.le
    have hfit : 1 + 4 * path.length + (s.hash m).length ≤ maxMsgSize := by
      simp only [maxMsgSize]
      omega
    have hmod : (s.hash m).length % 2 ^ 16 = (s.hash m).length := by omega
    refine ⟨c.msgBody.splice (1 + 4 * path.length) (s.hash m), ?_,
      c.msgBody.bytes.drop (1 + 4 * path.length + (s.hash m).length), ?_⟩
    · simp only [hashMessage, if_true, EStateM.run_bind, EStateM.run_get, hin, inRange_some,
        run_ofChecked_ok, s.iostHashBytes_eq, Buffer.write?_of_le hfit, hmod]
      rfl
    · have htake : c.msgBody.bytes.take (1 + 4 * path.length) = bufferFromBip32 path := by
        rw [hdrop, List.append_assoc, List.take_left' hpath]
      rw [Buffer.splice_bytes hfit, htake]
      rfl

/-- The outcome of `sign_message` on a path and a message. -/
theorem signMessage_run (s : Suite) (hashBeforeSign : Bool) (hp : ValidPath path)
    (hc : c.Holds (bufferFromBip32 path ++ m)) :
    ∃ c', (signMessage s.crypto hashBeforeSign).run c =
        .ok (s.signed path (s.prepared hashBeforeSign m)) c' ∧
      c'.msgLength = (s.prepared hashBeforeSign m).length ∧
      (∃ rest, c'.msgBody.bytes.drop 0 = bufferFromBip32 path ++ rest) ∧
      c'.outputLength = (s.signed path (s.prepared hashBeforeSign m)).length ∧ c'.ui = c.ui := by
  have hlen := hc.length_le
  have hpath := bufferFromBip32_length path
  have hsigned := s.signed_length_le path (s.prepared hashBeforeSign m)
  obtain ⟨body, hhash, rest, hbody⟩ := hashMessage_run s hashBeforeSign hp hc
  have hmsg := hc.length
  rw [List.length_append, hpath] at hlen hmsg
  simp only [maxMsgSize] at hlen
  have hread : ioReadBip32 c.msgBody 0 c.msgLength = .ok path := by
    have hdrop := holds_drop hc
    rw [List.append_assoc] at hdrop
    rw [ioReadBip32_eq hp (by omega) hdrop, if_pos (Or.inr (by omega))]
  have hne : ¬ c.msgLength = 0 := by omega
  have hle : ¬ maxMsgSize < c.msgLength := by
    simp only [maxMsgSize]
    omega
  have hvalid := hp.le
  have hoffset : (1 + path.length * 4) % 2 ^ 16 = 1 + 4 * path.length := by omega
  have hrest : (c.msgLength + 2 ^ 16 - (1 + 4 * path.length)) % 2 ^ 16 = m.length := by omega
  have hbodylen : 1 + 4 * path.length + (s.prepared hashBeforeSign m).length ≤ maxMsgSize := by
    have hsize := body.size_eq
    rw [hbody, List.length_append, List.length_append, hpath] at hsize
    omega
  have hnarrow : (UInt8.ofNat (s.prepared hashBeforeSign m).length).toNat =
      (s.prepared hashBeforeSign m).length % 2 ^ 8 := UInt8.toNat_ofNat'
  have hzero : UInt8.ofNat (s.prepared hashBeforeSign m).length = 0 ↔
      (s.prepared hashBeforeSign m).length % 2 ^ 8 = 0 := by
    rw [← hnarrow]
    exact UInt8.toNat_inj.symm
  have hwide : (s.signed path (s.prepared hashBeforeSign m)).length % 2 ^ 16 =
      (s.signed path (s.prepared hashBeforeSign m)).length := by omega
  obtain ⟨f, hsign⟩ := s.iostSign_run path body (1 + 4 * path.length)
    (UInt8.ofNat (s.prepared hashBeforeSign m).length) .enter (by
      have := Nat.mod_le (s.prepared hashBeforeSign m).length (2 ^ 8)
      omega)
  have hpart : (body.bytes.drop (1 + 4 * path.length)).take
      ((s.prepared hashBeforeSign m).length % 2 ^ 8) =
        signedPart (s.prepared hashBeforeSign m) := by
    rw [hbody, List.append_assoc, List.drop_left' hpath,
      List.take_append_of_le_length (Nat.mod_le _ _)]
    rfl
  rw [hnarrow, hpart] at hsign
  simp only [hzero] at hsign
  rw [← Suite.signed] at hsign
  refine ⟨{ c with
    msgBody := body
    msgLength := (s.prepared hashBeforeSign m).length
    outputLength := (s.signed path (s.prepared hashBeforeSign m)).length }, ?_, rfl,
    ⟨s.prepared hashBeforeSign m ++ rest, ?_⟩, rfl, rfl⟩
  · simp only [signMessage, EStateM.run_bind, EStateM.run_get, if_neg hne, if_neg hle, hread,
      run_ofChecked_ok, hoffset, hrest]
    have hfirst : (set ({ c with msgLength := m.length } : SignTxContext) :
        EStateM Fault SignTxContext PUnit).run c = .ok ⟨⟩ { c with msgLength := m.length } := rfl
    simp only [hfirst, hhash, run_callFrame, hsign, EStateM.run_pure, hwide]
    rfl
  · rw [List.drop_zero, hbody, List.append_assoc]

/-- Accumulated bytes that do not start with a path are refused. -/
theorem signMessage_malformed (crypto : Crypto) (hashBeforeSign : Bool) (hc : c.Holds acc)
    (hbad : ∀ path m, ValidPath path → acc ≠ bufferFromBip32 path ++ m) :
    (signMessage crypto hashBeforeSign).run c = .error (.thrown swWrongLength) c := by
  have hlen := hc.length_le
  by_cases hempty : c.msgLength = 0
  · simp only [signMessage, EStateM.run_bind, EStateM.run_get, if_pos hempty, run_throwCode]
  · have hle : ¬ maxMsgSize < c.msgLength := by
      rw [hc.length]
      omega
    simp only [maxMsgSize] at hlen
    have hmem : (c.msgBody.bytes.drop 0).take c.msgLength = acc := by
      rw [List.drop_zero, hc.length, hc.bytes]
    have hread : ioReadBip32 c.msgBody 0 c.msgLength = .error (.thrown swWrongLength) := by
      have hcases : (∃ path m, ValidPath path ∧
          (c.msgBody.bytes.drop 0).take c.msgLength = bufferFromBip32 path ++ m ∧ _) ∨ _ :=
        ioReadBip32_cases (Nat.one_le_iff_ne_zero.mpr hempty) (by rw [hc.length]; omega)
          (by rw [hc.length, Nat.zero_add]; exact hc.length_le)
      rcases hcases with ⟨path, m, hp, hsplit, -⟩ | ⟨-, h⟩
      · rw [hmem] at hsplit
        exact absurd hsplit (hbad path m hp)
      · exact h
    simp only [signMessage, EStateM.run_bind, EStateM.run_get, if_neg hempty, if_neg hle, hread,
      run_ofChecked_error]

end Context

/-! The parameters of a request. -/

/-- The parameters `io_check_p1p2` lets through. -/
structure ValidP1P2 (p1 p2 : UInt8) : Prop where
  p1 : p1 = p1Confirm ∨ p1 = p1Silent
  p2 : p2 = p2More ∨ p2 &&& p2More = 0

theorem p2More_cases (p2 : UInt8) : p2 &&& p2More = 0 ∨ p2 &&& p2More = p2More := by
  have hall : ∀ n : Fin 256, UInt8.ofNat n &&& p2More = 0 ∨ UInt8.ofNat n &&& p2More = p2More := by
    decide +kernel
  have h := hall ⟨p2.toNat, p2.toNat_lt⟩
  rwa [UInt8.ofNat_toNat] at h

theorem ioCheckP1P2_eq (p1 p2 : UInt8) :
    (ValidP1P2 p1 p2 ∧ ioCheckP1P2 p1 p2 = .ok ()) ∨
      (¬ ValidP1P2 p1 p2 ∧ ioCheckP1P2 p1 p2 = .error (.thrown swInvalidP1P2)) := by
  by_cases h1 : p1 ≠ p1Confirm ∧ p1 ≠ p1Silent
  · right
    refine ⟨fun h => ?_, if_pos h1⟩
    rcases h.p1 with h | h
    · exact h1.1 h
    · exact h1.2 h
  · have hp1 : p1 = p1Confirm ∨ p1 = p1Silent := by
      by_contra hne
      push Not at hne
      exact h1 hne
    unfold ioCheckP1P2
    rw [if_neg h1]
    rcases p2More_cases p2 with hp2 | hp2
    · left
      refine ⟨⟨hp1, Or.inr hp2⟩, if_neg ?_⟩
      rw [hp2]
      exact fun h => h.2.1 rfl
    · by_cases hmore : p2 = p2More
      · left
        exact ⟨⟨hp1, Or.inl hmore⟩, if_neg fun h => h.1 hmore⟩
      · right
        refine ⟨fun h => ?_, if_pos ?_⟩
        · rcases h.p2 with h | h
          · exact hmore h
          · rw [hp2] at h
            exact absurd h (by decide)
        · rw [hp2]
          exact ⟨hmore, by decide, by decide, by decide⟩

theorem ValidP1P2.check {p1 p2 : UInt8} (h : ValidP1P2 p1 p2) : ioCheckP1P2 p1 p2 = .ok () := by
  rcases ioCheckP1P2_eq p1 p2 with ⟨-, hok⟩ | ⟨hbad, -⟩
  · exact hok
  · exact absurd h hbad

theorem ioCheckP1P2_refuse {p1 p2 : UInt8} (h : ¬ ValidP1P2 p1 p2) :
    ioCheckP1P2 p1 p2 = .error (.thrown swInvalidP1P2) := by
  rcases ioCheckP1P2_eq p1 p2 with ⟨hok, -⟩ | ⟨-, hbad⟩
  · exact absurd hok h
  · exact hbad

/-! The handler. -/

theorem withSign_run_ok {α : Type} {x : EStateM Fault SignTxContext α} {d : Device} {a : α}
    {c : SignTxContext} (h : x.run d.sign = .ok a c) :
    (withSign x).run d = .ok a { d with sign := c } := by
  simp only [withSign, run_onPart, h]

theorem withSign_run_error {α : Type} {x : EStateM Fault SignTxContext α} {d : Device}
    {fault : Fault} {c : SignTxContext} (h : x.run d.sign = .error fault c) :
    (withSign x).run d = .error fault { d with sign := c } := by
  simp only [withSign, run_onPart, h]

section Handler
variable {d : Device} {acc data m : Bytes} {buffer : ℕ} {p1 p2 : UInt8} {path : List UInt32}

theorem handleSignMessage_invalid (crypto : Crypto) (bufferLength : ℕ) (h : ¬ ValidP1P2 p1 p2) :
    (handleSignMessage crypto p1 p2 buffer bufferLength).run d =
      .error (.thrown swInvalidP1P2) d := by
  simp only [handleSignMessage, EStateM.run_bind, ioCheckP1P2_refuse h, run_ofChecked_error]

theorem handleSignMessage_overflow (crypto : Crypto) (h : ValidP1P2 p1 p2)
    (hc : d.sign.Holds acc) (hover : maxMsgSize < acc.length + data.length) :
    (handleSignMessage crypto p1 p2 buffer data.length).run d =
      .error (.thrown swWrongLength) d := by
  have hread : (readMessage d.apdu buffer data.length).run d.sign = _ :=
    readMessage_overflow hc hover
  simp only [handleSignMessage, EStateM.run_bind, h.check, run_ofChecked_ok, EStateM.run_get,
    withSign_run_error hread]

/-- A chunk that asks for more is appended. -/
theorem handleSignMessage_stored (crypto : Crypto) (h : ValidP1P2 p1 p2) (hc : d.sign.Holds acc)
    (hread : d.apdu.read? buffer data.length = some data)
    (hfit : acc.length + data.length ≤ maxMsgSize) (hmore : p2 &&& p2More = p2More)
    (hdata : data ≠ []) :
    ∃ c', c'.Holds (acc ++ data) ∧ c'.outputLength = d.sign.outputLength ∧ c'.ui = d.sign.ui ∧
      (handleSignMessage crypto p1 p2 buffer data.length).run d =
        .error (.thrown swOk) { d with sign := c' } := by
  obtain ⟨c', hrun, hholds, hui, hout⟩ := readMessage_append hc hread hfit
  refine ⟨c', hholds, hout, hui, ?_⟩
  have hstop : ¬ (p2 &&& p2More ≠ p2More ∨ data.length = 0) := by
    rintro (hne | hzero)
    · exact hne hmore
    · exact hdata (List.length_eq_zero_iff.mp hzero)
  simp only [handleSignMessage, EStateM.run_bind, h.check, run_ofChecked_ok, EStateM.run_get,
    withSign_run_ok hrun, if_neg hstop, run_throwCode]

theorem handleSignMessage_malformed (crypto : Crypto) (h : ValidP1P2 p1 p2)
    (hc : d.sign.Holds acc) (hread : d.apdu.read? buffer data.length = some data)
    (hfit : acc.length + data.length ≤ maxMsgSize)
    (hlast : p2 &&& p2More ≠ p2More ∨ data.length = 0)
    (hbad : ∀ path m, ValidPath path → acc ++ data ≠ bufferFromBip32 path ++ m) :
    ∃ c', c'.Holds (acc ++ data) ∧ c'.outputLength = d.sign.outputLength ∧ c'.ui = d.sign.ui ∧
      (handleSignMessage crypto p1 p2 buffer data.length).run d =
        .error (.thrown swWrongLength) { d with sign := c' } := by
  obtain ⟨c', hrun, hholds, hui, hout⟩ := readMessage_append hc hread hfit
  have hsign : (signMessage crypto (data.length = 0)).run c' = _ :=
    signMessage_malformed crypto _ hholds hbad
  refine ⟨c', hholds, hout, hui, ?_⟩
  simp only [handleSignMessage, EStateM.run_bind, h.check, run_ofChecked_ok, EStateM.run_get,
    withSign_run_ok hrun, if_pos hlast]
  rw [withSign_run_error (d := { d with sign := c' }) hsign]

/-- A path and a message are signed, unless the second reading of the path refuses the
length that the first has left in the context. -/
theorem handleSignMessage_final (s : Suite) (h : ValidP1P2 p1 p2) (htx : d.tx = 0)
    (hc : d.sign.Holds acc) (hread : d.apdu.read? buffer data.length = some data)
    (hfit : acc.length + data.length ≤ maxMsgSize)
    (hlast : p2 &&& p2More ≠ p2More ∨ data.length = 0) (hp : ValidPath path)
    (hsplit : acc ++ data = bufferFromBip32 path ++ m) :
    ∃ c', c'.msgLength ≤ maxMsgSize ∧ c'.outputLength ≤ 64 ∧ c'.ui = d.sign.ui ∧
      (handleSignMessage s.crypto p1 p2 buffer data.length).run d =
      if (s.prepared (data.length = 0) m).length = 0 ∨
          1 + 4 * path.length ≤ (s.prepared (data.length = 0) m).length then
        (finishExport .signMessage p1 (promptLabel .signMessage ++ ascii "%u?") path).run
          (exported .signMessage p2 (s.signed path (s.prepared (data.length = 0) m)) 0
            { d with sign := c' })
      else .error (.thrown swWrongLength) { d with sign := c' } := by
  obtain ⟨c, hrun, hholds, hui, -⟩ := readMessage_append hc hread hfit
  have hlen := hholds.length_le
  rw [hsplit] at hholds hlen
  obtain ⟨c', hsign, hlength, ⟨rest, hbody⟩, hout, hui'⟩ :=
    signMessage_run s (data.length = 0) hp hholds
  have hprepared : (s.prepared (data.length = 0) m).length ≤ maxMsgSize := by
    rw [List.length_append] at hlen
    unfold Suite.prepared
    split_ifs
    · rw [s.hash_length]
      decide
    · omega
  have hpath : ioReadBip32 c'.msgBody 0 (s.prepared (data.length = 0) m).length = _ :=
    ioReadBip32_eq hp (by simp only [maxMsgSize] at hprepared; omega) hbody
  have hexport : (exportSignature p2 (s.signed path (s.prepared (data.length = 0) m)) d.tx).run
      { d with sign := c' } = _ :=
    exportSignature_run (s.signed_length_le path _) hout (by rw [htx]; decide)
  refine ⟨c', hlength.trans_le hprepared, hout.trans_le (s.signed_length_le path _),
    hui'.trans hui, ?_⟩
  simp only [handleSignMessage, EStateM.run_bind, h.check, run_ofChecked_ok, EStateM.run_get,
    withSign_run_ok hrun, if_pos hlast]
  rw [withSign_run_ok (d := { d with sign := c }) hsign]
  simp only [hlength, hpath]
  split_ifs
  · simp only [run_ofChecked_ok, hexport]
    rw [htx]
    rfl
  · rfl

end Handler

end IostLedger
