import IostLedger.AppMain

/-! What each handler can do, whatever the cryptographic calls return: every access is in
range, and the loop state is left in one of few ways. -/
namespace IostLedger
open Memory Exec

/-- Some call of the operating system throws `x`. -/
inductive Crypto.MayThrow (crypto : Crypto) (x : SdkException) : Prop where
  | deriveNode (path : List UInt32) (h : crypto.deriveNode path = .error x)
  | initPrivateKey (node : Buffer ed25519KeySize) (h : crypto.initPrivateKey node = .error x)
  | initPublicKey (h : crypto.initPublicKey = .error x)
  | generatePair (key : Buffer ed25519KeySize) (h : crypto.generatePair key = .error x)
  | eddsaSign (key : Buffer ed25519KeySize) (data : Bytes)
      (h : crypto.eddsaSign key data = .error x)
  | sha3Init (h : crypto.sha3Init = .error x)
  | sha3Update (data : Bytes) (h : crypto.sha3Update data = .error x)
  | sha3Final (data : Bytes) (h : crypto.sha3Final data = .error x)

theorem Suite.not_mayThrow (s : Suite) (x : SdkException) : ¬ s.crypto.MayThrow x := by
  rintro (⟨_, h⟩ | ⟨_, h⟩ | ⟨h⟩ | ⟨_, h⟩ | ⟨_, _, h⟩ | ⟨h⟩ | ⟨_, h⟩ | ⟨_, h⟩) <;> simp [crypto] at h

/-- A thrown code whose status is an error: one of the application's, or an exception of
the operating system. -/
inductive Refusal (crypto : Crypto) : Fault → Prop where
  | app {e : UInt16} (h : e ∈ [swWrongLength, swInvalidP1P2, swInsNotSupported,
      swClaNotSupported, swInternalError]) : Refusal crypto (.thrown e)
  | sdk {x : SdkException} (h : crypto.MayThrow x) : Refusal crypto (.thrown x.code)

section Codes
variable {crypto : Crypto}

theorem refusal_wrongLength : Refusal crypto (.thrown swWrongLength) := .app (by decide)
theorem refusal_invalidP1P2 : Refusal crypto (.thrown swInvalidP1P2) := .app (by decide)
theorem refusal_internalError : Refusal crypto (.thrown swInternalError) := .app (by decide)
theorem refusal_insNotSupported : Refusal crypto (.thrown swInsNotSupported) := .app (by decide)
theorem refusal_claNotSupported : Refusal crypto (.thrown swClaNotSupported) := .app (by decide)

theorem syscall_error {α : Type} {x : Except SdkException α} {fault : Fault}
    (hx : ∀ e, x = .error e → crypto.MayThrow e) (h : syscall x = .error fault) :
    Refusal crypto fault := by
  cases x with
  | ok a => simp at h
  | error e =>
    obtain rfl := Except.error.inj h
    exact .sdk (hx e rfl)

end Codes

theorem Refusal.cases {crypto : Crypto} {fault : Fault} (h : Refusal crypto fault) :
    ∃ e, fault = .thrown e ∧ e &&& 0xF000 ≠ 0x9000 ∧
      (e = SdkException.ioReset.code → crypto.MayThrow .ioReset) := by
  rcases h with ⟨he⟩ | @⟨x, hx⟩
  · refine ⟨_, rfl, ?_⟩
    simp only [List.mem_cons, List.not_mem_nil, or_false] at he
    rcases he with rfl | rfl | rfl | rfl | rfl <;> exact ⟨by decide, fun h => absurd h (by decide)⟩
  · refine ⟨_, rfl, ?_, fun h => ?_⟩
    · cases x <;> decide
    · have hreset : x = .ioReset := by
        revert h
        cases x <;> decide
      exact hreset ▸ hx

/-- The bounds on a ui context. -/
structure UiContext.Bounded (c : UiContext) : Prop where
  msgLength : c.msgLength ≤ 128
  displayIndex : c.displayIndex ≤ 128 - displaySize

structure SignTxContext.Bounded (c : SignTxContext) : Prop where
  msgLength : c.msgLength ≤ maxMsgSize
  outputLength : c.outputLength ≤ 128
  ui : c.ui.Bounded

structure PublicKeyContext.Bounded (c : PublicKeyContext) : Prop where
  outputLength : c.outputLength ≤ 128
  ui : c.ui.Bounded

/-- The bounds on both contexts. -/
structure Device.Bounded (d : Device) : Prop where
  sign : d.sign.Bounded
  pk : d.pk.Bounded

theorem Device.Bounded.output {d : Device} (hd : d.Bounded) (owner : Owner) :
    owner.outputLength d ≤ 128 := by
  cases owner
  · exact hd.sign.outputLength
  · exact hd.pk.outputLength

theorem Device.Bounded.ui {d : Device} (hd : d.Bounded) (owner : Owner) :
    (owner.ui d).Bounded := by
  cases owner
  · exact hd.sign.ui
  · exact hd.pk.ui

theorem UiContext.zero_bounded : UiContext.zero.Bounded := ⟨by decide, by decide⟩

theorem SignTxContext.zero_bounded : SignTxContext.zero.Bounded :=
  ⟨by decide, by decide, UiContext.zero_bounded⟩

theorem PublicKeyContext.zero_bounded : PublicKeyContext.zero.Bounded :=
  ⟨by decide, UiContext.zero_bounded⟩

theorem setUi_bounded {owner : Owner} {d : Device} {ui : UiContext} (hd : d.Bounded)
    (hui : ui.Bounded) : (owner.setUi ui d).Bounded := by
  cases owner
  · exact ⟨⟨hd.sign.msgLength, hd.sign.outputLength, hui⟩, hd.pk⟩
  · exact ⟨hd.sign, ⟨hd.pk.outputLength, hui⟩⟩

theorem setOutputLength_bounded {owner : Owner} {d : Device} {length : ℕ} (hd : d.Bounded)
    (hlength : length ≤ 128) : (owner.setOutputLength length d).Bounded := by
  cases owner
  · exact ⟨⟨hd.sign.msgLength, hlength, hd.sign.ui⟩, hd.pk⟩
  · exact ⟨hd.sign, ⟨hlength, hd.pk.ui⟩⟩

theorem clearContext_bounded {owner : Owner} {d : Device} (hd : d.Bounded) :
    (owner.clearContext d).Bounded := by
  cases owner
  · exact ⟨SignTxContext.zero_bounded, hd.pk⟩
  · exact ⟨hd.sign, PublicKeyContext.zero_bounded⟩

/-- The loop state that handlers do not touch. -/
structure SameLoop (d d' : Device) : Prop where
  apduState : d'.apduState = d.apduState
  phase : d'.phase = d.phase
  wire : d'.wire = d.wire

/-- A handler has returned at its prompt. -/
structure Prompted (owner : Owner) (d d' : Device) : Prop extends SameLoop d d' where
  bounded : d'.Bounded
  screen : d'.screen = owner.approveScreen
  flags : d'.flags = d.flags ||| ioAsynchReply
  tx : d'.tx = d.tx

/-- A handler has been left by an exception: a refusal with nothing to send, or a success
whose payload lies in the first `tx` bytes. -/
structure Thrown (crypto : Crypto) (d : Device) (fault : Fault) (d' : Device) : Prop
    extends SameLoop d d' where
  screen : d'.screen = d.screen
  flags : d'.flags = d.flags
  verdict : (Refusal crypto fault ∧ d'.tx = d.tx) ∨
    (fault = .thrown swOk ∧ d'.Bounded ∧ d'.tx ≤ 5 + 255)

section Context
variable {crypto : Crypto} {c : SignTxContext}

theorem readMessage_wp {apdu : Buffer ioApduBufferSize} {buffer bufferLength : ℕ}
    (hfit : buffer + bufferLength ≤ ioApduBufferSize) (hc : c.msgLength ≤ maxMsgSize) :
    Wp (readMessage apdu buffer bufferLength)
      (fun _ c' => c'.msgLength = c.msgLength + bufferLength ∧ c'.msgLength ≤ maxMsgSize ∧
        c'.outputLength = c.outputLength ∧ c'.ui = c.ui)
      (fun fault c' => Refusal crypto fault ∧ c' = c) c := by
  simp only [readMessage, wp_bind, wp_get, wp_ite, wp_throwCode, wp_pure]
  refine ⟨fun _ => ⟨refusal_wrongLength, trivial⟩, fun hle => ⟨fun _ => ?_, fun h0 => ?_⟩⟩
  · have hdata : ((apdu.bytes.drop buffer).take bufferLength).length = bufferLength := by
      rw [List.length_take, List.length_drop, Buffer.size_eq]
      omega
    rw [Buffer.read?_of_le hfit, inRange_some, wp_ofChecked_ok,
      Buffer.write?_of_le (by rw [hdata]; omega), inRange_some, wp_ofChecked_ok, wp_set]
    simp only [maxMsgSize] at hle hc ⊢
    exact ⟨by omega, by omega, trivial, trivial⟩
  · exact ⟨by omega, hc, trivial, trivial⟩

theorem iostHashBytes_cases (crypto : Crypto) (inBytes : Bytes) :
    (∃ hash, iostHashBytes crypto inBytes = .ok hash ∧ hash.length ≤ 32) ∨
      ∃ fault, iostHashBytes crypto inBytes = .error fault ∧ Refusal crypto fault := by
  unfold iostHashBytes
  cases hinit : crypto.sha3Init with
  | error e => exact Or.inr ⟨_, rfl, .sdk (.sha3Init hinit)⟩
  | ok init =>
    by_cases h0 : init = 0
    · exact Or.inl ⟨[], by simp [bind, Except.bind, h0, pure, Except.pure], by simp⟩
    cases hupdate : crypto.sha3Update inBytes with
    | error e =>
      refine Or.inr ⟨.thrown e.code, ?_, .sdk (.sha3Update _ hupdate)⟩
      simp [bind, Except.bind, h0, syscall]
    | ok update =>
      by_cases h1 : update = 0
      swap
      · exact Or.inl ⟨[], by simp [bind, Except.bind, h0, h1, pure, Except.pure], by simp⟩
      cases hfinal : crypto.sha3Final inBytes with
      | error e =>
        refine Or.inr ⟨.thrown e.code, ?_, .sdk (.sha3Final _ hfinal)⟩
        simp [bind, Except.bind, h0, h1, syscall]
      | ok hash =>
        refine Or.inl ⟨hash.val, ?_, hash.property⟩
        simp [bind, Except.bind, h0, h1, pure, Except.pure]

theorem hashMessage_wp (crypto : Crypto) (hashBeforeSign : Bool) {msgOffset : ℕ}
    (hfit : msgOffset + c.msgLength ≤ maxMsgSize) (hoff : msgOffset ≤ 21) :
    Wp (hashMessage crypto hashBeforeSign msgOffset)
      (fun _ c' => msgOffset + c'.msgLength ≤ maxMsgSize ∧ c'.ui = c.ui)
      (fun fault c' => Refusal crypto fault ∧ c' = c) c := by
  simp only [hashMessage, wp_ite, wp_bind, wp_get, wp_pure]
  refine ⟨fun _ => ?_, fun _ => ⟨hfit, trivial⟩⟩
  rw [Buffer.read?_of_le hfit, inRange_some, wp_ofChecked_ok]
  rcases iostHashBytes_cases crypto ((c.msgBody.bytes.drop msgOffset).take c.msgLength) with
    ⟨hash, hhash, hlen⟩ | ⟨fault, hfault, hrefuse⟩
  · rw [hhash, wp_ofChecked_ok, Buffer.write?_of_le (by simp only [maxMsgSize]; omega),
      inRange_some, wp_ofChecked_ok, wp_set]
    exact ⟨by simp only [maxMsgSize]; omega, rfl⟩
  · rw [hfault, wp_ofChecked]
    exact ⟨by simp, by simpa using hrefuse⟩

theorem iostDeriveKeypair_wp (crypto : Crypto) (path : List UInt32) (f : KeyFrame) :
    Wp (iostDeriveKeypair crypto path) (fun _ _ => True)
      (fun fault _ => Refusal crypto fault) f := by
  simp only [iostDeriveKeypair, wp_bind, wp_modify, wp_ofChecked, wp_ite, wp_get, wp_pure]
  refine ⟨fun node _ => ⟨fun key _ => ⟨fun _ => ⟨fun init _ => ⟨fun _ => ⟨fun _ _ => trivial, ?_⟩,
    fun _ => trivial⟩, ?_⟩, fun _ => trivial⟩, ?_⟩, ?_⟩
  · exact fun fault => syscall_error fun _ => .generatePair _
  · exact fun fault => syscall_error fun _ => .initPublicKey
  · exact fun fault => syscall_error fun _ => .initPrivateKey _
  · exact fun fault => syscall_error fun _ => .deriveNode _

theorem iostSign_wp {n : ℕ} (crypto : Crypto) (path : List UInt32) (body : Buffer n)
    {trxHash : ℕ} {hashLength : UInt8} (hfit : trxHash + hashLength.toNat ≤ n) (f : SignFrame) :
    Wp (iostSign crypto path body trxHash hashLength) (fun signature _ => signature.length ≤ 64)
      (fun fault _ => Refusal crypto fault) f := by
  simp only [iostSign, SignFrame.derive, wp_ite, wp_pure, wp_bind, wp_onPart, wp_get]
  refine ⟨fun _ => by simp, fun _ => (iostDeriveKeypair_wp crypto path _).mono ?_ (fun _ _ h => h)⟩
  intro result t _
  refine ⟨fun _ => ?_, fun _ => by simp⟩
  rw [Buffer.read?_of_le hfit, inRange_some, wp_ofChecked_ok, wp_ofChecked]
  exact ⟨fun signature _ => signature.property,
    fun fault => syscall_error fun _ => .eddsaSign _ _⟩

theorem signMessage_wp (crypto : Crypto) (hashBeforeSign : Bool) (hc : c.msgLength ≤ maxMsgSize) :
    Wp (signMessage crypto hashBeforeSign)
      (fun signature c' => signature.length ≤ 64 ∧ c'.outputLength = signature.length ∧
        c'.msgLength ≤ maxMsgSize ∧ c'.ui = c.ui)
      (fun fault c' => Refusal crypto fault ∧ c'.msgLength ≤ maxMsgSize) c := by
  simp only [signMessage, wp_bind, wp_get, wp_ite, wp_throwCode]
  refine ⟨fun _ => ⟨refusal_wrongLength, hc⟩, fun hne =>
    ⟨fun _ => ⟨refusal_wrongLength, hc⟩, fun _ => ?_⟩⟩
  rcases ioReadBip32_ok_or c.msgBody c.msgLength
    (show 0 + 21 ≤ maxMsgSize by decide) with ⟨path, hpath, hcap, hread⟩ | hread
  · rw [hread, wp_ofChecked_ok]
    simp only [maxMsgSize] at hc
    have hcap := hcap (Nat.one_le_iff_ne_zero.mpr hne) (by omega)
    have hle := hpath.le
    have hoff : (1 + path.length * 4) % 2 ^ 16 = 1 + 4 * path.length := by omega
    have hsub : (c.msgLength + 2 ^ 16 - (1 + 4 * path.length)) % 2 ^ 16 =
        c.msgLength - (1 + 4 * path.length) := by omega
    simp only [wp_set, hoff, hsub]
    have hhash : Wp (hashMessage crypto hashBeforeSign (1 + 4 * path.length)) _ _
        { c with msgLength := c.msgLength - (1 + 4 * path.length) } :=
      hashMessage_wp crypto hashBeforeSign
        (show 1 + 4 * path.length + (c.msgLength - (1 + 4 * path.length)) ≤ 512 by omega)
        (by omega)
    refine hhash.mono ?_ ?_
    swap
    · rintro fault c' ⟨hrefuse, rfl⟩
      exact ⟨hrefuse, by simp only [maxMsgSize]; omega⟩
    rintro - c' ⟨hlen, hui⟩
    have hnarrow := Nat.mod_le c'.msgLength (2 ^ 8)
    simp only [wp_callFrame]
    refine (iostSign_wp crypto path c'.msgBody
      (by rw [UInt8.toNat_ofNat']; omega) SignFrame.enter).mono ?_ fun _ _ h => ⟨h, by omega⟩
    intro signature _ hsig
    simp only [wp_pure]
    exact ⟨hsig, by omega, by omega, hui⟩
  · rw [hread, wp_ofChecked]
    exact ⟨by simp, by simpa using ⟨refusal_wrongLength, hc⟩⟩

end Context

/-- The memory after `data` has been exported at `output`. -/
def exported (owner : Owner) (p2 : UInt8) (data : Bytes) (output : ℕ) (d : Device) : Device :=
  owner.setOutputLength (formatPayload p2 data).length
    (owner.setUi ((owner.ui d).withText data)
      { d with apdu := d.apdu.splice output (formatPayload p2 data ++ [0]) })

section Export
variable {crypto : Crypto} {owner : Owner} {d : Device} {p2 : UInt8} {data : Bytes} {output : ℕ}

theorem withText_bounded {ui : UiContext} (hui : ui.Bounded) (hdata : data.length ≤ 64) :
    (ui.withText data).Bounded :=
  ⟨(base58Text_length_le data).trans (by omega), hui.displayIndex⟩

theorem exported_bounded (hd : d.Bounded) (hdata : data.length ≤ 64) :
    (exported owner p2 data output d).Bounded := by
  have hpayload := formatPayload_length_le p2 data
  refine setOutputLength_bounded (setUi_bounded ?_ (withText_bounded (hd.ui owner) hdata))
    (by omega)
  exact ⟨hd.sign, hd.pk⟩

theorem exportSignature_run (hdata : data.length ≤ 64) (hout : d.sign.outputLength = data.length)
    (hfit : output + 128 < ioApduBufferSize) :
    (exportSignature p2 data output).run d = .ok () (exported .signMessage p2 data output d) := by
  have hpayload := formatPayload_length_le p2 data
  have htake : data.take d.sign.outputLength = data := List.take_of_length_le (by omega)
  simp only [exportSignature, EStateM.run_bind, EStateM.run_get, htake,
    exportBytes_eq hdata (show output + 2 * data.length < ioApduBufferSize by omega),
    run_ofChecked_ok, EStateM.run_set,
    Nat.mod_eq_of_lt (show (formatPayload p2 data).length < 2 ^ 16 by omega)]
  rfl

def Device.setTx (tx : ℕ) (d : Device) : Device := { d with tx := tx }

section SetTx
variable (tx : ℕ) (d : Device)

@[simp] theorem setTx_apdu : (d.setTx tx).apdu = d.apdu := rfl
@[simp] theorem setTx_sign : (d.setTx tx).sign = d.sign := rfl
@[simp] theorem setTx_pk : (d.setTx tx).pk = d.pk := rfl
@[simp] theorem setTx_screen : (d.setTx tx).screen = d.screen := rfl
@[simp] theorem setTx_apduState : (d.setTx tx).apduState = d.apduState := rfl
@[simp] theorem setTx_flags : (d.setTx tx).flags = d.flags := rfl
@[simp] theorem setTx_tx : (d.setTx tx).tx = tx := rfl
@[simp] theorem setTx_phase : (d.setTx tx).phase = d.phase := rfl
@[simp] theorem setTx_wire : (d.setTx tx).wire = d.wire := rfl

theorem setTx_self {tx : ℕ} {d : Device} (h : d.tx = tx) : d.setTx tx = d := by
  subst h
  rfl

end SetTx

theorem replyExport_run (owner : Owner) (d : Device) :
    (replyExport owner).run d = .error (.thrown swOk) (owner.clearContext
      (d.setTx ((d.tx + (owner.outputLength d + 1)) % 2 ^ 16))) := rfl

/-- The memory at a prompt with the given text buffer. -/
def prompted (owner : Owner) (approveL2 : Buffer (displaySize + 1)) (d : Device) : Device :=
  { owner.setUi { owner.ui d with approveL2 := approveL2 } d with
    screen := owner.approveScreen
    flags := d.flags ||| ioAsynchReply }

theorem uxApprove_run {label : Bytes} (hlabel : ∀ c ∈ label, c ≠ 37 ∧ c ≠ 0)
    (path : List UInt32) (owner : Owner) (d : Device) :
    ∃ approveL2, cString approveL2 =
        (promptText label (keyNumber path)).take (displaySize - 1) ∧
      (uxApprove owner (label ++ ascii "%u?") path).run d =
        .ok () (prompted owner approveL2 d) := by
  obtain ⟨b, hb, htext⟩ := iostSnprintf_prompt (owner.ui d).approveL2 hlabel (keyNumber path)
    (Nat.le_succ displaySize)
  refine ⟨b, htext, ?_⟩
  simp only [uxApprove, EStateM.run_bind, EStateM.run_get, hb, inRange_some, run_ofChecked_ok,
    EStateM.run_set]
  rfl

/-- The text before the number in the prompt of a handler. -/
def promptLabel : Owner → Bytes
  | .signMessage => ascii "With Key #"
  | .getPublicKey => ascii "Key #"

theorem promptLabel_ok (owner : Owner) : ∀ c ∈ promptLabel owner, c ≠ 37 ∧ c ≠ 0 := by
  cases owner <;> decide +kernel

theorem prompted_bounded {b : Buffer (displaySize + 1)} (hd : d.Bounded) :
    (prompted owner b d).Bounded := by
  have h : (owner.setUi { owner.ui d with approveL2 := b } d).Bounded :=
    setUi_bounded hd ⟨(hd.ui owner).msgLength, (hd.ui owner).displayIndex⟩
  exact ⟨h.sign, h.pk⟩

/-- With a payload in place a handler prompts or is left by a success. -/
theorem finishExport_wp (owner : Owner) (p1 : UInt8) (path : List UInt32) {d₀ : Device}
    (hd : d.Bounded) (htx : d.tx = 0) (htx₀ : d₀.tx = 0) (hloop : SameLoop d₀ d)
    (hscreen : d.screen = d₀.screen) (hflags : d.flags = d₀.flags) :
    Wp (finishExport owner p1 (promptLabel owner ++ ascii "%u?") path)
      (fun _ d' => Prompted owner d₀ d') (fun fault d' => Thrown crypto d₀ fault d') d := by
  have hout := hd.output owner
  rw [finishExport, wp_ite]
  refine ⟨fun _ => ?_, fun _ => ?_⟩
  · rw [wp_of_run_error (replyExport_run owner d)]
    refine ⟨⟨?_, ?_, ?_⟩, ?_, ?_, Or.inr ⟨rfl, clearContext_bounded ⟨hd.sign, hd.pk⟩, ?_⟩⟩
    · simpa using hloop.apduState
    · simpa using hloop.phase
    · simpa using hloop.wire
    · simpa using hscreen
    · simpa using hflags
    · rw [Owner.clearContext_tx, setTx_tx]
      omega
  · obtain ⟨b, -, hrun⟩ := uxApprove_run (promptLabel_ok owner) path owner d
    rw [wp_of_run_ok hrun]
    refine ⟨⟨?_, ?_, ?_⟩, prompted_bounded hd, rfl, ?_, ?_⟩
    · simpa [prompted] using hloop.apduState
    · simpa [prompted] using hloop.phase
    · simpa [prompted] using hloop.wire
    · simp [prompted, hflags]
    · simp [prompted, htx, htx₀]

end Export

section Handlers
variable {crypto : Crypto} {d : Device} {buffer bufferLength : ℕ}

theorem ioCheckP1P2_cases (p1 p2 : UInt8) :
    ioCheckP1P2 p1 p2 = .ok () ∨ ioCheckP1P2 p1 p2 = .error (.thrown swInvalidP1P2) := by
  unfold ioCheckP1P2
  split_ifs <;> simp

/-- A refusal with nothing written but the context of a handler. -/
theorem thrown_of_refusal {fault : Fault} {d' : Device} (hloop : SameLoop d d')
    (hscreen : d'.screen = d.screen) (hflags : d'.flags = d.flags) (htx : d'.tx = d.tx)
    (h : Refusal crypto fault) : Thrown crypto d fault d' :=
  ⟨hloop, hscreen, hflags, Or.inl ⟨h, htx⟩⟩

theorem handleSignMessage_wp (crypto : Crypto) (p1 p2 : UInt8) (hd : d.Bounded) (htx : d.tx = 0)
    (hfit : buffer + bufferLength ≤ ioApduBufferSize) :
    Wp (handleSignMessage crypto p1 p2 buffer bufferLength)
      (fun _ d' => Prompted .signMessage d d') (fun fault d' => Thrown crypto d fault d') d := by
  have hrefuse {fault : Fault} (c : SignTxContext) (h : Refusal crypto fault) :
      Thrown crypto d fault { d with sign := c } := thrown_of_refusal ⟨rfl, rfl, rfl⟩ rfl rfl rfl h
  simp only [handleSignMessage, wp_bind, wp_get]
  rcases ioCheckP1P2_cases p1 p2 with hcheck | hcheck
  swap
  · rw [hcheck, wp_ofChecked]
    exact ⟨by simp, by simpa using hrefuse d.sign refusal_invalidP1P2⟩
  rw [hcheck, wp_ofChecked_ok]
  simp only [withSign, wp_onPart]
  refine (readMessage_wp hfit hd.sign.msgLength).mono ?_ fun fault c h => hrefuse c h.1
  rintro - c ⟨-, hlen, hout, hui⟩
  have hc : c.Bounded := ⟨hlen, hout ▸ hd.sign.outputLength, hui ▸ hd.sign.ui⟩
  simp only [wp_ite, wp_bind, wp_onPart, wp_get, wp_throwCode]
  refine ⟨fun _ => ?_, fun _ => ⟨⟨rfl, rfl, rfl⟩, rfl, rfl,
    Or.inr ⟨rfl, ⟨hc, hd.pk⟩, by simp [htx]⟩⟩⟩
  refine (signMessage_wp crypto _ hlen).mono ?_ fun fault c' h => hrefuse c' h.1
  rintro signature c' ⟨hsig, hout', hlen', hui'⟩
  have hc' : c'.Bounded := ⟨hlen', by omega, hui' ▸ hc.ui⟩
  rcases ioReadBip32_ok_or c'.msgBody c'.msgLength
    (show 0 + 21 ≤ maxMsgSize by decide) with ⟨path, -, -, hread⟩ | hread
  · rw [hread, wp_ofChecked_ok, wp_of_run_ok (exportSignature_run hsig hout' (by
      simp only [htx, ioApduBufferSize]
      omega))]
    refine finishExport_wp .signMessage p1 path (exported_bounded ⟨hc', hd.pk⟩ hsig) ?_ htx
      ⟨?_, ?_, ?_⟩ ?_ ?_ <;> simp [exported, htx]
  · rw [hread, wp_ofChecked]
    exact ⟨by simp, by simpa using hrefuse c' refusal_wrongLength⟩

theorem encode_length (w : Buffer 65) : (iostExtractBytesFromPublicKey w).length = 32 := by
  simp only [iostExtractBytesFromPublicKey]
  split_ifs <;> simp [ed25519KeySize]

/-- The memory after a public key has been derived. -/
def derived (point : Buffer 65) (d : Device) : Device :=
  { d with pk := { d.pk with publicKey := point } }

theorem derivePublicKey_wp (crypto : Crypto) (path : List UInt32) :
    Wp (derivePublicKey crypto path) (fun _ d' => ∃ point, d' = derived point d)
      (fun fault d' => Refusal crypto fault ∧ ∃ point, d' = derived point d) d := by
  rw [derivePublicKey, wp_onPart]
  exact (iostDeriveKeypair_wp crypto path _).mono (fun _ f _ => ⟨_, rfl⟩)
    (fun _ f h => ⟨h, _, rfl⟩)

theorem getPk_wp (crypto : Crypto) (path : List UInt32) (p2 : UInt8) (htx : d.tx = 0) :
    Wp (getPk crypto path p2 d.tx)
      (fun _ d' => ∃ point, d' = exported .getPublicKey p2 (iostExtractBytesFromPublicKey point)
        d.tx (derived point d))
      (fun fault d' => Refusal crypto fault ∧ ∃ point, d' = derived point d) d := by
  simp only [getPk, wp_bind]
  refine (derivePublicKey_wp crypto path).mono ?_ fun _ _ h => h
  rintro result - ⟨point, rfl⟩
  have hlen := encode_length point
  have hpayload := formatPayload_length_le p2 (iostExtractBytesFromPublicKey point)
  simp only [wp_ite, wp_throwCode, wp_bind, wp_get]
  refine ⟨fun _ => ⟨refusal_internalError, point, rfl⟩, fun _ => ?_⟩
  rw [show (derived point d).pk.publicKey = point from rfl,
    exportBytes_eq (by omega) (by simp only [htx, ioApduBufferSize]; omega), wp_ofChecked_ok,
    wp_set]
  refine ⟨point, ?_⟩
  rw [Nat.mod_eq_of_lt (show (formatPayload p2 (iostExtractBytesFromPublicKey point)).length <
    2 ^ 16 by omega)]
  rfl

theorem handleGetPublicKey_wp (crypto : Crypto) (p1 p2 : UInt8) (hd : d.Bounded) (htx : d.tx = 0)
    (hfit : buffer + 21 ≤ ioApduBufferSize) :
    Wp (handleGetPublicKey crypto p1 p2 buffer bufferLength)
      (fun _ d' => Prompted .getPublicKey d d') (fun fault d' => Thrown crypto d fault d') d := by
  have hrefuse {fault : Fault} (c : PublicKeyContext) (h : Refusal crypto fault) :
      Thrown crypto d fault { d with pk := c } := thrown_of_refusal ⟨rfl, rfl, rfl⟩ rfl rfl rfl h
  simp only [handleGetPublicKey, wp_bind, wp_get]
  rcases ioCheckP1P2_cases p1 p2 with hcheck | hcheck
  swap
  · rw [hcheck, wp_ofChecked]
    exact ⟨by simp, by simpa using hrefuse d.pk refusal_invalidP1P2⟩
  rw [hcheck, wp_ofChecked_ok]
  rcases ioReadBip32_ok_or d.apdu bufferLength hfit with ⟨path, -, -, hread⟩ | hread
  swap
  · rw [hread, wp_ofChecked]
    exact ⟨by simp, by simpa using hrefuse d.pk refusal_wrongLength⟩
  rw [hread, wp_ofChecked_ok]
  refine (getPk_wp crypto path p2 htx).mono ?_ ?_
  · rintro - - ⟨point, rfl⟩
    have hpoint : (derived point d).Bounded :=
      ⟨hd.sign, ⟨hd.pk.outputLength, hd.pk.ui⟩⟩
    have hlen := encode_length point
    refine finishExport_wp .getPublicKey p1 path (exported_bounded hpoint (by omega)) ?_ htx
      ⟨?_, ?_, ?_⟩ ?_ ?_ <;> simp [exported, derived, htx]
  · rintro fault - ⟨h, point, rfl⟩
    exact hrefuse _ h

theorem handleGetConfiguration_run (htx : d.tx = 0) :
    handleGetConfiguration.run d = .error (.thrown swOk)
      { d with apdu := d.apdu.splice 0 configuration, tx := 4 } := by
  simp only [handleGetConfiguration, EStateM.run_bind, EStateM.run_get, htx,
    Buffer.write?_of_le (show 0 + configuration.length ≤ ioApduBufferSize by decide),
    inRange_some, run_ofChecked_ok]
  rfl

end Handlers

end IostLedger
