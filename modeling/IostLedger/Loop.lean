import IostLedger.Safety

/-! One event of the main loop in full: how the outcome of the `TRY` block becomes a
reply, and the invariant of the device between events. -/
namespace IostLedger
open Memory Exec Machine

/-- The two bytes of a status word. -/
def statusBytes (sw : UInt16) : Bytes := [(sw >>> 8).toUInt8, (sw &&& 0xFF).toUInt8]

@[simp] theorem statusBytes_length (sw : UInt16) : (statusBytes sw).length = 2 := rfl

/-- A status placed behind the payload. -/
def withStatus (sw : UInt16) (d : Device) : Device :=
  { d with apdu := d.apdu.splice d.tx (statusBytes sw), tx := d.tx + 2 }

/-- The first `tx` bytes of the APDU buffer transmitted as the reply. -/
def sent (d : Device) : Device :=
  { d with wire := d.wire ++ [d.apdu.bytes.take d.tx], apduState := .idle, tx := 0 }

/-- The device after a reply with the payload in place. -/
def replied (sw : UInt16) (d : Device) : Device := sent (withStatus sw d)

def exited (d : Device) : Device := { d with phase := .exited }

@[simp] theorem clearUnless_swOk (d : Device) : clearUnless swOk d = d := rfl

theorem clearUnless_of_refusal {e : UInt16} (h : e &&& 0xF000 ≠ 0x9000) (d : Device) :
    clearUnless e d = clearAllContexts d := if_pos h

section Fields
variable (e sw : UInt16) (d : Device)

@[simp] theorem clearUnless_apdu : (clearUnless e d).apdu = d.apdu := by
  unfold clearUnless; split_ifs <;> rfl
@[simp] theorem clearUnless_screen : (clearUnless e d).screen = d.screen := by
  unfold clearUnless; split_ifs <;> rfl
@[simp] theorem clearUnless_apduState : (clearUnless e d).apduState = d.apduState := by
  unfold clearUnless; split_ifs <;> rfl
@[simp] theorem clearUnless_flags : (clearUnless e d).flags = d.flags := by
  unfold clearUnless; split_ifs <;> rfl
@[simp] theorem clearUnless_tx : (clearUnless e d).tx = d.tx := by
  unfold clearUnless; split_ifs <;> rfl
@[simp] theorem clearUnless_phase : (clearUnless e d).phase = d.phase := by
  unfold clearUnless; split_ifs <;> rfl
@[simp] theorem clearUnless_wire : (clearUnless e d).wire = d.wire := by
  unfold clearUnless; split_ifs <;> rfl

@[simp] theorem replied_sign : (replied sw d).sign = d.sign := rfl
@[simp] theorem replied_pk : (replied sw d).pk = d.pk := rfl
@[simp] theorem replied_screen : (replied sw d).screen = d.screen := rfl
@[simp] theorem replied_apduState : (replied sw d).apduState = .idle := rfl
@[simp] theorem replied_flags : (replied sw d).flags = d.flags := rfl
@[simp] theorem replied_tx : (replied sw d).tx = 0 := rfl
@[simp] theorem replied_phase : (replied sw d).phase = d.phase := rfl

end Fields

theorem replied_wire {d : Device} (sw : UInt16) (h : d.tx + 2 ≤ ioApduBufferSize) :
    (replied sw d).wire = d.wire ++ [d.apdu.bytes.take d.tx ++ statusBytes sw] := by
  have hfit : d.tx + (statusBytes sw).length ≤ ioApduBufferSize := h
  have htake : (d.apdu.splice d.tx (statusBytes sw)).bytes.take (d.tx + 2) = _ :=
    Buffer.take_splice_end hfit rfl
  exact congrArg (fun reply => d.wire ++ [reply]) htake

theorem ioSetStatus_run (sw : UInt16) {tx : ℕ} {d : Device} (h : tx + 2 ≤ ioApduBufferSize) :
    (ioSetStatus sw tx).run d =
      .ok (tx + 2) { d with apdu := d.apdu.splice tx (statusBytes sw) } := by
  have hwrite : d.apdu.write? tx (statusBytes sw) = some (d.apdu.splice tx (statusBytes sw)) :=
    Buffer.write?_of_le (by simpa using h)
  rw [statusBytes] at hwrite
  simp only [ioSetStatus, EStateM.run_bind, EStateM.run_get, hwrite, inRange_some,
    run_ofChecked_ok, EStateM.run_modify, EStateM.run_pure]
  rfl

theorem sendReply_run {d : Device} {txLen : ℕ} (hbusy : d.apduState = .busy)
    (h : txLen ≤ ioApduBufferSize) :
    (sendReply txLen).run d =
      .ok () { d with wire := d.wire ++ [d.apdu.bytes.take txLen], apduState := .idle } := by
  have hidle : ¬ d.apduState = .idle := by rw [hbusy]; decide
  simp only [sendReply, EStateM.run_bind, EStateM.run_get, if_neg hidle,
    Buffer.read?_of_le (show 0 + txLen ≤ ioApduBufferSize by omega), inRange_some,
    run_ofChecked_ok, List.drop_zero]
  rfl

theorem catchOther_run {e : UInt16} {d : Device} (h : d.tx + 2 ≤ ioApduBufferSize) :
    (catchOther e).run d = .ok () (withStatus (statusOf e) (clearUnless e d)) := by
  simp only [catchOther, EStateM.run_bind, EStateM.run_modify, EStateM.run_get]
  rw [ioSetStatus_run _ (by rwa [clearUnless_tx])]
  rfl

section Caught
variable {d : Device} {e : UInt16}

/-- At the head of the loop an open APDU is answered unless the handler has deferred it. -/
theorem exchangeNext_send (hbusy : d.apduState = .busy) (hpos : d.tx ≠ 0)
    (hfit : d.tx ≤ ioApduBufferSize) (hflags : d.flags = 0) : exchangeNext d = sent d := by
  have hsend : (sendReply d.tx).run { d with tx := 0 } = _ := sendReply_run hbusy hfit
  have hcond : d.tx ≠ 0 ∧ (channelApdu ||| d.flags) &&& ioAsynchReply = 0 :=
    ⟨hpos, by rw [hflags]; decide⟩
  have hreturn : ¬ (channelApdu ||| d.flags) &&& ioReturnAfterTx ≠ 0 := by rw [hflags]; decide
  have hreset : ¬ (channelApdu ||| d.flags) &&& ioResetAfterReplied ≠ 0 := by rw [hflags]; decide
  simp only [exchangeNext, ioExchange, if_pos hcond, EStateM.run_bind, hsend,
    if_neg hreturn, if_neg hreset, EStateM.run_pure, sent]

/-- With the flag of `INS_RESET` the task ends after the reply. -/
theorem exchangeNext_exit (hbusy : d.apduState = .busy) (hpos : d.tx ≠ 0)
    (hfit : d.tx ≤ ioApduBufferSize) (hflags : d.flags = ioResetAfterReplied) :
    exchangeNext d = exited (sent d) := by
  have hsend : (sendReply d.tx).run { d with tx := 0 } = _ := sendReply_run hbusy hfit
  have hcond : d.tx ≠ 0 ∧ (channelApdu ||| d.flags) &&& ioAsynchReply = 0 :=
    ⟨hpos, by rw [hflags]; decide⟩
  have hreturn : ¬ (channelApdu ||| d.flags) &&& ioReturnAfterTx ≠ 0 := by rw [hflags]; decide
  have hreset : (channelApdu ||| d.flags) &&& ioResetAfterReplied ≠ 0 := by rw [hflags]; decide
  simp only [exchangeNext, ioExchange, if_pos hcond, EStateM.run_bind, hsend,
    if_neg hreturn, if_pos hreset, EStateM.run_modify, exited, sent]

/-- With the flag of a deferred reply nothing is sent. -/
theorem exchangeNext_deferred (hflags : d.flags = ioAsynchReply) :
    exchangeNext d = d.setTx 0 := by
  have hasynch : ¬ (channelApdu ||| d.flags) &&& ioAsynchReply = 0 := by rw [hflags]; decide
  have hcond : ¬ (d.tx ≠ 0 ∧ (channelApdu ||| d.flags) &&& ioAsynchReply = 0) :=
    fun h => hasynch h.2
  simp only [exchangeNext, ioExchange, if_neg hcond, if_neg hasynch, EStateM.run_pure]
  rfl

/-- Without an open APDU nothing can be sent, and the attempt never ends. -/
theorem exchangeNext_idle (hidle : d.apduState = .idle) (hpos : d.tx ≠ 0) :
    exchangeNext d = { d with tx := 0, phase := .spinning } ∨
      exchangeNext d = { d with tx := 0 } := by
  by_cases hasynch : (channelApdu ||| d.flags) &&& ioAsynchReply = 0
  · left
    have hcond : d.tx ≠ 0 ∧ (channelApdu ||| d.flags) &&& ioAsynchReply = 0 := ⟨hpos, hasynch⟩
    have hsend : (sendReply d.tx).run { d with tx := 0 } =
        .error (.thrown SdkException.invalidState.code) { d with tx := 0 } := by
      simp only [sendReply, EStateM.run_bind, EStateM.run_get, hidle, if_true, run_throwCode]
    simp only [exchangeNext, ioExchange, if_pos hcond, EStateM.run_bind, hsend]
  · right
    have hcond : ¬ (d.tx ≠ 0 ∧ (channelApdu ||| d.flags) &&& ioAsynchReply = 0) :=
      fun h => hasynch h.2
    simp only [exchangeNext, ioExchange, if_neg hcond, if_neg hasynch, EStateM.run_pure]

theorem caught_reset : caught (.thrown SdkException.ioReset.code) d = restart d := rfl

theorem caught_of_ne (he : e ≠ SdkException.ioReset.code) (htx : d.tx + 2 ≤ ioApduBufferSize) :
    caught (.thrown e) d = exchangeNext (withStatus (statusOf e) (clearUnless e d)) := by
  simp only [caught, if_neg he, catchOther_run htx]

/-- An exception while an APDU is open is answered. -/
theorem caught_eq (he : e ≠ SdkException.ioReset.code) (hbusy : d.apduState = .busy)
    (hflags : d.flags = 0) (htx : d.tx + 2 ≤ ioApduBufferSize) :
    caught (.thrown e) d = replied (statusOf e) (clearUnless e d) := by
  rw [caught_of_ne he htx, replied]
  exact exchangeNext_send ((clearUnless_apduState e d).trans hbusy) (Nat.succ_ne_zero _)
    (by simpa [withStatus] using htx) ((clearUnless_flags e d).trans hflags)

theorem caught_exit (hbusy : d.apduState = .busy) (hflags : d.flags = ioResetAfterReplied)
    (htx : d.tx + 2 ≤ ioApduBufferSize) :
    caught (.thrown swOk) d = exited (replied swOk d) := by
  rw [caught_of_ne (by decide) htx, clearUnless_swOk]
  exact exchangeNext_exit hbusy (Nat.succ_ne_zero _) htx hflags

/-- An exception that leaves `io_exchange` while a deferred reply is open is not answered. -/
theorem caught_deferred (he : e ≠ SdkException.ioReset.code) (hflags : d.flags = ioAsynchReply)
    (htx : d.tx = 0) :
    caught (.thrown e) d = (withStatus (statusOf e) (clearUnless e d)).setTx 0 := by
  rw [caught_of_ne he (by rw [htx]; decide)]
  exact exchangeNext_deferred ((clearUnless_flags e d).trans hflags)

end Caught

/-- A status sent from a button handler. -/
theorem ioExchangeStatus_run (sw : UInt16) {tx : ℕ} {d : Device} (hbusy : d.apduState = .busy)
    (htx : d.tx = 0) (h : tx + 2 ≤ ioApduBufferSize) :
    (ioExchangeStatus sw tx).run d = .ok () (replied sw (d.setTx tx)) := by
  have hsend : (sendReply (tx + 2)).run { d with apdu := d.apdu.splice tx (statusBytes sw) } = _ :=
    sendReply_run hbusy h
  have hcond : tx + 2 ≠ 0 ∧ (channelApdu ||| ioReturnAfterTx) &&& ioAsynchReply = 0 :=
    ⟨by omega, by decide⟩
  have hreturn : (channelApdu ||| ioReturnAfterTx) &&& ioReturnAfterTx ≠ 0 := by decide
  simp only [ioExchangeStatus, EStateM.run_bind, ioSetStatus_run sw h, ioExchange, if_pos hcond,
    hsend, if_pos hreturn, EStateM.run_pure, replied, sent, withStatus, Device.setTx]
  rw [htx]

/-! The body of the `TRY` block. -/

/-- `INS_RESET` asks for the end of the task after its reply. -/
def resetting (d : Device) : Device := { d with flags := d.flags ||| ioResetAfterReplied }

/-- `goto return_to_dashboard`. -/
def dashboard (d : Device) : Device := { d with phase := .returned }

theorem processApdu_wp (crypto : Crypto) {rx : ℕ} {d : Device} (hd : d.Bounded) (htx : d.tx = 0)
    (hrx : 1 ≤ rx) :
    Wp (processApdu crypto rx)
      (fun _ d' => (∃ owner, Prompted owner d d') ∨
        (5 ≤ rx ∧ d.header offsetIns = insReturnToDashboard ∧ d' = dashboard d))
      (fun fault d' => Thrown crypto d fault d' ∨ (fault = .thrown swOk ∧ d' = resetting d)) d := by
  have hrefuse {fault : Fault} (h : Refusal crypto fault) : Thrown crypto d fault d :=
    thrown_of_refusal ⟨rfl, rfl, rfl⟩ rfl rfl rfl h
  have hlc := (d.header offsetLc).toNat_lt
  simp only [processApdu, wp_bind, wp_get, wp_ite, wp_throwCode]
  refine ⟨fun h => absurd h (by simp only [apduMinSize]; omega), fun _ =>
    ⟨fun _ => Or.inl (hrefuse refusal_claNotSupported), fun _ =>
    ⟨fun _ => Or.inl (hrefuse refusal_wrongLength), fun _ =>
    ⟨fun _ => Or.inl (hrefuse refusal_wrongLength), fun hlen => ?_⟩⟩⟩⟩
  simp only [ne_eq, not_not, apduMaxSize] at hlen
  simp only [dispatch, wp_ite, wp_bind, wp_modify, wp_throwCode]
  refine ⟨fun _ => Or.inr ⟨trivial, rfl⟩, fun _ => ⟨fun _ => Or.inl ⟨⟨rfl, rfl, rfl⟩, rfl, rfl,
    Or.inr ⟨rfl, ⟨hd.sign, hd.pk⟩, ?_⟩⟩, fun _ => ⟨fun _ => ?_, fun _ => ⟨fun _ => ?_, fun _ =>
    ⟨fun _ => ?_, fun _ => ⟨fun hins => Or.inr ⟨by omega, hins, rfl⟩, fun _ => ?_⟩⟩⟩⟩⟩⟩
  · simp only []
    omega
  · rw [wp_of_run_error (handleGetConfiguration_run htx)]
    exact Or.inl ⟨⟨rfl, rfl, rfl⟩, rfl, rfl, Or.inr ⟨rfl, ⟨hd.sign, hd.pk⟩, by simp⟩⟩
  · exact (handleGetPublicKey_wp crypto _ _ hd htx (by decide)).mono
      (fun _ _ h => Or.inl ⟨_, h⟩) fun _ _ h => Or.inl h
  · refine (handleSignMessage_wp crypto _ _ hd htx ?_).mono
      (fun _ _ h => Or.inl ⟨_, h⟩) fun _ _ h => Or.inl h
    simp only [offsetCdata, ioApduBufferSize]
    omega
  · exact Or.inl (hrefuse refusal_insNotSupported)

/-! What a received APDU can lead to. -/

/-- An error status alone is sent, and both contexts are cleared. -/
structure Refused (e : UInt16) (d d' : Device) : Prop where
  error : e &&& 0xF000 ≠ 0x9000
  wire : d'.wire = d.wire ++ [statusBytes (statusOf e)]
  sign : d'.sign = .zero
  pk : d'.pk = .zero
  apduState : d'.apduState = .idle
  screen : d'.screen = d.screen
  phase : d'.phase = d.phase
  tx : d'.tx = 0

/-- A payload and the status of a success are sent. -/
structure Succeeded (payload : Bytes) (d d' : Device) : Prop where
  wire : d'.wire = d.wire ++ [payload ++ statusBytes swOk]
  bounded : d'.Bounded
  apduState : d'.apduState = .idle
  screen : d'.screen = d.screen
  phase : d'.phase = d.phase
  tx : d'.tx = 0

inductive ApduOutcome (crypto : Crypto) (rx : ℕ) (d d' : Device) : Prop where
  | refused {e : UInt16} (h : Refused e d d')
  | succeeded {payload : Bytes} (h : Succeeded payload d d')
  | prompted {owner : Owner} (h : Prompted owner d d')
  | exited (h : d' = exited (replied swOk (resetting d)))
  | returned (hrx : 5 ≤ rx) (hins : d.header offsetIns = insReturnToDashboard)
      (h : d' = dashboard d)
  | restarted {d₁ : Device} (hthrow : crypto.MayThrow .ioReset) (hloop : SameLoop d d₁)
      (h : d' = restart d₁)

theorem handleApdu_outcome (crypto : Crypto) {rx : ℕ} {d : Device} (hd : d.Bounded)
    (htx : d.tx = 0) (hflags : d.flags = 0) (hbusy : d.apduState = .busy)
    (hphase : d.phase = .waiting) (hrx : 1 ≤ rx) :
    ApduOutcome crypto rx d (handleApdu crypto rx d) := by
  have hwp := processApdu_wp crypto hd htx hrx
  unfold Wp at hwp
  unfold handleApdu
  cases hrun : (processApdu crypto rx).run d with
  | ok a d₁ =>
    simp only [hrun] at hwp ⊢
    rcases hwp with ⟨owner, h⟩ | ⟨hfive, hins, rfl⟩
    · have hwait : ¬ d₁.phase = .returned := by rw [h.phase, hphase]; decide
      rw [if_neg hwait, exchangeNext_deferred (by rw [h.flags, hflags]; rfl)]
      exact .prompted ⟨⟨h.apduState, h.phase, h.wire⟩, ⟨h.bounded.sign, h.bounded.pk⟩, h.screen,
        h.flags, htx.symm⟩
    · exact .returned hfive hins (if_pos rfl)
  | error fault d₁ =>
    simp only [hrun] at hwp ⊢
    rcases hwp with h | ⟨rfl, rfl⟩
    · have hbusy₁ : d₁.apduState = .busy := h.apduState.trans hbusy
      have hflags₁ : d₁.flags = 0 := h.flags.trans hflags
      rcases h.verdict with ⟨hrefuse, htx₁⟩ | ⟨rfl, hbound, htx₁⟩
      · obtain ⟨e, rfl, herror, hreset⟩ := hrefuse.cases
        by_cases he : e = SdkException.ioReset.code
        · exact .restarted (hreset he) ⟨h.apduState, h.phase, h.wire⟩ (by rw [he, caught_reset])
        · have htx₁ : d₁.tx = 0 := htx₁.trans htx
          have hfit : d₁.tx + 2 ≤ ioApduBufferSize := by rw [htx₁]; decide
          rw [caught_eq he hbusy₁ hflags₁ hfit, clearUnless_of_refusal herror]
          refine .refused (e := e) ⟨herror, ?_, rfl, rfl, rfl, h.screen, h.phase, rfl⟩
          rw [replied_wire _ (by exact hfit)]
          change d₁.wire ++ [d₁.apdu.bytes.take d₁.tx ++ _] = _
          rw [htx₁, List.take_zero, List.nil_append, h.wire]
      · have hfit : d₁.tx + 2 ≤ ioApduBufferSize := by simp only [ioApduBufferSize]; omega
        rw [caught_eq (by decide) hbusy₁ hflags₁ hfit, clearUnless_swOk]
        exact .succeeded ⟨(replied_wire _ hfit).trans (by rw [h.wire]; rfl),
          ⟨hbound.sign, hbound.pk⟩, rfl, h.screen, h.phase, rfl⟩
    · refine .exited (caught_exit hbusy (by rw [resetting, hflags]; rfl) ?_)
      change d.tx + 2 ≤ _
      rw [htx]
      decide

/-- A reply is left open only where no exception was thrown. -/
theorem handleApdu_open (crypto : Crypto) {rx : ℕ} {d : Device} (hd : d.Bounded)
    (htx : d.tx = 0) (hflags : d.flags = 0) (hbusy : d.apduState = .busy)
    (hphase : d.phase = .waiting) (hrx : 1 ≤ rx)
    (hopen : (handleApdu crypto rx d).apduState = .busy)
    (hwait : (handleApdu crypto rx d).phase = .waiting) :
    ∃ d₁, (processApdu crypto rx).run d = .ok () d₁ ∧ handleApdu crypto rx d = d₁.setTx 0 := by
  have hwp := processApdu_wp crypto hd htx hrx
  unfold Wp at hwp
  unfold handleApdu at hopen hwait ⊢
  cases hrun : (processApdu crypto rx).run d with
  | ok a d₁ =>
    simp only [hrun] at hwp hwait ⊢
    refine ⟨d₁, rfl, ?_⟩
    rcases hwp with ⟨owner, h⟩ | ⟨-, -, rfl⟩
    · have hwait₁ : ¬ d₁.phase = .returned := by rw [h.phase, hphase]; decide
      rw [if_neg hwait₁, exchangeNext_deferred (by rw [h.flags, hflags]; rfl)]
    · have hreturned : (dashboard d).phase = .returned := rfl
      rw [if_pos hreturned, hreturned] at hwait
      cases hwait
  | error fault d₁ =>
    exfalso
    simp only [hrun] at hwp hopen
    rcases hwp with h | ⟨rfl, rfl⟩
    · have hbusy₁ : d₁.apduState = .busy := h.apduState.trans hbusy
      have hflags₁ : d₁.flags = 0 := h.flags.trans hflags
      rcases h.verdict with ⟨hrefuse, htx₁⟩ | ⟨rfl, hbound, htx₁⟩
      · obtain ⟨e, rfl, -, -⟩ := hrefuse.cases
        by_cases he : e = SdkException.ioReset.code
        · rw [he, caught_reset] at hopen
          cases hopen
        · rw [caught_eq he hbusy₁ hflags₁ (by rw [htx₁, htx]; decide)] at hopen
          cases hopen
      · rw [caught_eq (by decide) hbusy₁ hflags₁
          (by simp only [ioApduBufferSize]; omega)] at hopen
        cases hopen
    · have hexit : (resetting d).flags = ioResetAfterReplied := by rw [resetting, hflags]; rfl
      have htx₁ : (resetting d).tx = 0 := htx
      rw [caught_exit (show (resetting d).apduState = .busy from hbusy) hexit
        (by rw [htx₁]; decide)] at hopen
      cases hopen

end IostLedger
