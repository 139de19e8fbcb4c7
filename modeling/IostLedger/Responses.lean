import IostLedger.Errors
import IostLedger.Residue
import IostLedger.Represent
import IostLedger.Lib.Frame

/-! One request, as the session responds to it: the reply, the prompt, and what becomes of
both contexts. -/
namespace IostLedger
open Memory Exec Machine

/-- The context of a handler is the same. -/
def Owner.Kept : Owner → Device → Device → Prop
  | .signMessage, d, d' => d'.sign = d.sign
  | .getPublicKey, d, d' => d'.pk = d.pk

/-- A reply has been sent, and the screen is the same. -/
structure Answered (d : Device) (reply : Bytes) (d' : Device) : Prop extends Ready d' where
  wire : d'.wire = [reply]
  screen : d'.screen = d.screen

/-- The text of the prompt for a query. -/
def Query.text (query : Query) : Bytes :=
  (promptText (promptLabel query.owner) (keyNumber query.path)).take (displaySize - 1)

/-- A prompt is open over a query, with the answer behind it. -/
structure AtPrompt (s : Suite) (p2 : UInt8) (query : Query) (d : Device) : Prop extends
    Pending query.owner (formatPayload p2 (s.value query)) query.text d where
  textIn : TextIn (base58Text (s.value query)) (query.owner.ui d)

/-- The application has ended, and its contexts and screen are the same. -/
structure Stopped (phase : Phase) (wire : List Bytes) (d d' : Device) : Prop where
  inv : d'.Inv
  phase : d'.phase = phase
  wire : d'.wire = wire
  kept : ∀ owner : Owner, owner.Kept d d'
  screen : d'.screen = d.screen

/-- The device meets a request with this response. -/
def Meets (s : Suite) (d d' : Device) : Response → Prop
  | .refuse sw => Answered d (statusBytes sw) d' ∧ ∀ owner : Owner, owner.Cleared d'
  | .reply payload => Answered d (payload ++ statusBytes swOk) d' ∧
      ∀ owner : Owner, owner.Kept d d'
  | .store acc => Answered d (statusBytes swOk) d' ∧ d'.sign.Holds acc ∧
      d'.sign.ui = d.sign.ui ∧ d'.pk = d.pk
  | .give p1 p2 query => query.owner.other.Kept d d' ∧
      if p1 = p1Confirm then AtPrompt s p2 query d'
      else Answered d (answer (formatPayload p2 (s.value query))) d' ∧ query.owner.Cleared d'
  | .exit => Stopped .exited [statusBytes swOk] d d'
  | .leave => Stopped .returned [] d d'

section Meets
variable {s : Suite} {d d' : Device} {ins p1 p2 : UInt8} {data bytes acc : Bytes}

/-- A request after which the device waits again leaves the screen alone. -/
theorem answered_of_step {reply : Bytes} (hready : Ready d) (hready' : Ready d')
    (hstep : step s.crypto d (.apdu bytes) = some d') (hwire : d'.wire = [reply]) :
    Answered d reply d' := by
  refine ⟨hready', hwire, ?_⟩
  rcases step_apdu_outcome hready.inv hstep with ⟨h⟩ | ⟨h⟩ | ⟨h⟩ | ⟨rfl⟩ | ⟨-, -, rfl⟩ | ⟨hthrow, -, -⟩
  · exact h.screen
  · exact h.screen
  · have hidle := hready'.idle
    rw [h.apduState] at hidle
    cases hidle
  · cases hready'.phase
  · cases hready'.phase
  · exact absurd hthrow (s.not_mayThrow _)

/-- An error reply has cleared both contexts. -/
theorem meets_refuse {sw : UInt16} (hready : Ready d) (hready' : Ready d')
    (hstep : step s.crypto d (.apdu bytes) = some d') (hwire : d'.wire = [statusBytes sw])
    (hsw : statusBytes sw ≠ statusBytes swOk) : Meets s d d' (.refuse sw) := by
  refine ⟨answered_of_step hready hready' hstep hwire, ?_⟩
  have herror : ¬ statusBytes swOk <:+ statusBytes sw := fun h =>
    hsw (h.eq_of_length (by simp)).symm
  have hclean := step_apdu_clean hready.inv hstep (statusBytes sw)
    (by rw [hwire]; exact List.mem_singleton_self _) herror
  exact hclean.2.2

/-- A request that leaves by an exception of success keeps what the exception left. -/
theorem meets_thrown {d₁ : Device} (hready : Ready d) (hdata : data.length ≤ 255)
    (hrun : (processApdu s.crypto (5 + data.length)).run (received (command ins p1 p2 data) d) =
      .error (.thrown swOk) d₁)
    (hsame : Untouched (received (command ins p1 p2 data) d) d₁)
    (htx : d₁.tx + 2 ≤ ioApduBufferSize) :
    ∃ d', step s.crypto d (.apdu (command ins p1 p2 data)) = some d' ∧
      Answered d (d₁.apdu.bytes.take d₁.tx ++ statusBytes swOk) d' ∧
      d'.sign = d₁.sign ∧ d'.pk = d₁.pk := by
  obtain ⟨d', hstep, hready', hwire, hsign, hpk⟩ :=
    step_thrown hready hdata hrun hsame htx (by decide)
  exact ⟨d', hstep, answered_of_step hready hready' hstep hwire, hsign, hpk⟩

/-- The requests that do not reach the handlers of keys and signatures. -/
theorem meets_plain (s : Suite) {d₁ : Device} {payload : Bytes} (hready : Ready d)
    (hdata : data.length ≤ 255)
    (hrun : (processApdu s.crypto (5 + data.length)).run (received (command ins p1 p2 data) d) =
      .error (.thrown swOk) d₁)
    (hloop : SameLoop (received (command ins p1 p2 data) d) d₁) (hsign : d₁.sign = d.sign)
    (hpk : d₁.pk = d.pk) (hscreen : d₁.screen = d.screen) (hflags : d₁.flags = 0)
    (htx : d₁.tx + 2 ≤ ioApduBufferSize) (hpayload : d₁.apdu.bytes.take d₁.tx = payload) :
    ∃ d', step s.crypto d (.apdu (command ins p1 p2 data)) = some d' ∧
      Meets s d d' (.reply payload) := by
  have hbounded : d₁.Bounded := ⟨hsign ▸ hready.inv.bounded.sign, hpk ▸ hready.inv.bounded.pk⟩
  obtain ⟨d', hstep, hanswered, hsign', hpk'⟩ :=
    meets_thrown hready hdata hrun ⟨hloop, hbounded, hscreen, hflags⟩ htx
  rw [hpayload] at hanswered
  refine ⟨d', hstep, hanswered, fun owner => ?_⟩
  cases owner
  · exact hsign'.trans hsign
  · exact hpk'.trans hpk

theorem meets_echo (s : Suite) (p1 : UInt8) (hready : Ready d) (hdata : data.length ≤ 255)
    (hsome : ¬ (data = [] ∧ p2 &&& p2More = 0)) :
    ∃ d', step s.crypto d (.apdu (command insEcho p1 p2 data)) = some d' ∧
      Meets s d d' (.reply (command insEcho p1 p2 data)) := by
  have hrun := processApdu_command s.crypto d insEcho p1 p2 hdata
  rw [if_neg hsome] at hrun
  have hdispatch : (dispatch s.crypto insEcho p1 p2 data.length (5 + data.length)).run
      (received (command insEcho p1 p2 data) d) = .error (.thrown swOk)
        ((received (command insEcho p1 p2 data) d).setTx (5 + data.length)) := rfl
  apply meets_plain s hready hdata (hrun.trans hdispatch) ⟨rfl, rfl, rfl⟩ rfl rfl rfl rfl
  · rw [setTx_tx]
    simp only [ioApduBufferSize]
    omega
  · rw [setTx_apdu, setTx_tx, received_command_apdu hdata,
      List.take_left' (command_length insEcho p1 p2 data)]

theorem meets_configuration (s : Suite) (p1 : UInt8) (hready : Ready d)
    (hdata : data.length ≤ 255) (hsome : ¬ (data = [] ∧ p2 &&& p2More = 0)) :
    ∃ d', step s.crypto d (.apdu (command insGetConfiguration p1 p2 data)) = some d' ∧
      Meets s d d' (.reply configuration) := by
  have htx : (received (command insGetConfiguration p1 p2 data) d).tx = 0 :=
    hready.inv.tx hready.phase
  have hrun := processApdu_command s.crypto d insGetConfiguration p1 p2 hdata
  rw [if_neg hsome] at hrun
  have hfit : 0 + configuration.length ≤ ioApduBufferSize := by decide
  apply meets_plain s hready hdata (hrun.trans (handleGetConfiguration_run htx)) ⟨rfl, rfl, rfl⟩
    rfl rfl rfl rfl
  · exact show 4 + 2 ≤ ioApduBufferSize by decide
  · exact Buffer.take_splice_start (by decide) rfl

/-- The requests that end the application. -/
theorem meets_reset (s : Suite) (p1 : UInt8) (hready : Ready d) (hdata : data.length ≤ 255)
    (hsome : ¬ (data = [] ∧ p2 &&& p2More = 0)) :
    ∃ d', step s.crypto d (.apdu (command insReset p1 p2 data)) = some d' ∧
      Meets s d d' .exit := by
  have htx : (resetting (received (command insReset p1 p2 data) d)).tx = 0 :=
    hready.inv.tx hready.phase
  have hrun := processApdu_command s.crypto d insReset p1 p2 hdata
  rw [if_neg hsome] at hrun
  have hdispatch : (dispatch s.crypto insReset p1 p2 data.length (5 + data.length)).run
      (received (command insReset p1 p2 data) d) = .error (.thrown swOk)
        (resetting (received (command insReset p1 p2 data) d)) := rfl
  have hflags : (resetting (received (command insReset p1 p2 data) d)).flags =
      ioResetAfterReplied := by
    change (0 : UInt8) ||| ioResetAfterReplied = _
    decide
  have hstep := step_command s.crypto insReset p1 p2 hready.phase hready.idle hdata
  rw [handleApdu, hrun, hdispatch] at hstep
  simp only [] at hstep
  rw [caught_exit rfl hflags (by rw [htx]; decide)] at hstep
  have hwire : (replied swOk (resetting (received (command insReset p1 p2 data) d))).wire = _ :=
    replied_wire swOk (by rw [htx]; decide)
  rw [htx] at hwire
  refine ⟨_, hstep, step_inv hready.inv hstep, rfl, hwire, fun owner => ?_, rfl⟩
  cases owner <;> rfl

theorem meets_dashboard (s : Suite) (p1 : UInt8) (hready : Ready d) (hdata : data.length ≤ 255)
    (hsome : ¬ (data = [] ∧ p2 &&& p2More = 0)) :
    ∃ d', step s.crypto d (.apdu (command insReturnToDashboard p1 p2 data)) = some d' ∧
      Meets s d d' .leave := by
  have hrun := processApdu_command s.crypto d insReturnToDashboard p1 p2 hdata
  rw [if_neg hsome] at hrun
  have hdispatch : (dispatch s.crypto insReturnToDashboard p1 p2 data.length
      (5 + data.length)).run (received (command insReturnToDashboard p1 p2 data) d) =
        .ok () (dashboard (received (command insReturnToDashboard p1 p2 data) d)) := rfl
  have hreturned : (dashboard (received (command insReturnToDashboard p1 p2 data) d)).phase =
      .returned := rfl
  have hstep := step_command s.crypto insReturnToDashboard p1 p2 hready.phase hready.idle hdata
  rw [handleApdu, hrun, hdispatch] at hstep
  simp only [if_pos hreturned] at hstep
  refine ⟨_, hstep, step_inv hready.inv hstep, rfl, rfl, fun owner => ?_, rfl⟩
  cases owner <;> rfl

/-- A request that a handler refuses before it writes anything. -/
theorem meets_error (s : Suite) {sw : UInt16} (hready : Ready d) (hdata : data.length ≤ 255)
    (hrun : (processApdu s.crypto (5 + data.length)).run (received (command ins p1 p2 data) d) =
      .error (.thrown sw) (received (command ins p1 p2 data) d))
    (hsw : sw ∈ [swWrongLength, swInvalidP1P2, swInsNotSupported, swInternalError]) :
    ∃ d', step s.crypto d (.apdu (command ins p1 p2 data)) = some d' ∧
      Meets s d d' (.refuse sw) := by
  obtain ⟨d', hstep, hready', hwire, hsign, hpk⟩ := step_refused hready hdata hrun
    (untouched_received hready _) (hready.inv.tx hready.phase) hsw
  refine ⟨d', hstep, answered_of_step hready hready' hstep hwire, fun owner => ?_⟩
  cases owner
  · exact hsign
  · exact hpk

theorem meets_unknown (s : Suite) (p1 : UInt8) (hready : Ready d) (hdata : data.length ≤ 255)
    (hsome : ¬ (data = [] ∧ p2 &&& p2More = 0))
    (hins : Request.ofCommand ins p1 p2 data = .unknown) :
    ∃ d', step s.crypto d (.apdu (command ins p1 p2 data)) = some d' ∧
      Meets s d d' (.refuse swInsNotSupported) := by
  have hrun := processApdu_command s.crypto d ins p1 p2 hdata
  rw [if_neg hsome] at hrun
  apply meets_error s hready hdata (hrun.trans _) (by simp)
  unfold Request.ofCommand at hins
  unfold dispatch
  split_ifs at hins ⊢
  rfl

end Meets

/-! What the handler of signatures leaves alone. -/

section Frame
variable {crypto : Crypto} {p1 p2 : UInt8} {buffer bufferLength : ℕ}

theorem finishExport_keeps_pk (format : Bytes) (path : List UInt32) :
    Keeps Device.pk (finishExport .signMessage p1 format path) := by
  refine Keeps.ite (fun d => ?_) (Keeps.get_bind fun d => ?_)
  · rw [wp_of_run_error (replyExport_run .signMessage d)]
    rfl
  · rw [wp_bind, wp_ofChecked]
    exact ⟨fun _ _ => rfl, fun _ _ => rfl⟩

theorem handleSignMessage_keeps_pk :
    Keeps Device.pk (handleSignMessage crypto p1 p2 buffer bufferLength) := by
  have hput (c : SignTxContext) (d : Device) : ({ d with sign := c } : Device).pk = d.pk := rfl
  have hsign {α : Type} (x : EStateM Fault SignTxContext α) : Keeps Device.pk (withSign x) :=
    Keeps.onPart hput x
  have hexport (signature : Bytes) (output : ℕ) :
      Keeps Device.pk (exportSignature p2 signature output) := by
    refine Keeps.get_bind fun d => ?_
    rw [wp_bind, wp_ofChecked]
    exact ⟨fun _ _ => rfl, fun _ _ => rfl⟩
  refine (Keeps.ofChecked _).bind fun _ => Keeps.get_bind fun d => ?_
  refine ((hsign _).bind fun _ => Keeps.ite ((hsign _).bind fun signature => ?_)
    (Keeps.throwCode _)) d
  refine Keeps.get_bind fun e => ?_
  exact ((Keeps.ofChecked _).bind fun path => (hexport _ _).bind fun _ =>
    finishExport_keeps_pk _ path) e

theorem processApdu_sign_pk (crypto : Crypto) (d : Device) (p1 p2 : UInt8) {data : Bytes}
    (hdata : data.length ≤ 255) :
    Wp (processApdu crypto (5 + data.length)) (fun _ d' => d'.pk = d.pk)
      (fun _ d' => d'.pk = d.pk) (received (command insSignMessage p1 p2 data) d) := by
  by_cases hsome : data = [] ∧ p2 &&& p2More = 0
  · have hrun := processApdu_command crypto d insSignMessage p1 p2 hdata
    rw [if_pos hsome] at hrun
    rw [wp_of_run_error hrun]
    rfl
  · have hframe : Wp (handleSignMessage crypto p1 p2 offsetCdata data.length)
        (fun _ d' => d'.pk = d.pk) (fun _ d' => d'.pk = d.pk)
        (received (command insSignMessage p1 p2 data) d) := handleSignMessage_keeps_pk.wp rfl
    unfold Wp at hframe ⊢
    rwa [processApdu_sign crypto d p1 hdata hsome]

end Frame

/-! Requests that export a payload. -/

section Give
variable {s : Suite} {d : Device} {p1 p2 : UInt8} {data : Bytes} {query : Query}

theorem Suite.value_length_le (s : Suite) (query : Query) : (s.value query).length ≤ 64 := by
  cases query with
  | publicKey path =>
    rw [Suite.value, encode_length]
    decide
  | signature path message => exact s.signed_length_le _ _
  | hashSignature path message => exact s.signed_length_le _ _

/-- An export leaves the context of the other handler alone. -/
theorem export_kept {owner : Owner} {d₀ : Device} {bytes : Bytes} {path : List UInt32}
    (hdata : data.length ≤ 255) (hsign : owner = .getPublicKey → d₀.sign = d.sign)
    (hrun : (processApdu s.crypto (5 + data.length)).run
      (received (command owner.ins p1 p2 data) d) =
        (finishExport owner p1 (promptLabel owner ++ ascii "%u?") path).run
          (exported owner p2 bytes 0 d₀)) : owner.other.Kept d d₀ := by
  cases owner with
  | signMessage =>
    have hpk : (exported .signMessage p2 bytes 0 d₀).pk = d.pk :=
      Keeps.eq_of_run (processApdu_sign_pk s.crypto d p1 p2 hdata)
        (finishExport_keeps_pk _ path) hrun
    exact hpk
  | getPublicKey => exact hsign rfl

/-- The answer to a query is the reply, or it waits behind its prompt. -/
theorem meets_give (hready : Ready d) (hdata : data.length ≤ 255)
    (hp1 : p1 = p1Confirm ∨ p1 = p1Silent)
    (h : Exports s.crypto query.owner d p2 data (s.value query) query.path) :
    ∃ d', step s.crypto d (.apdu (command query.owner.ins p1 p2 data)) = some d' ∧
      Meets s d d' (.give p1 p2 query) := by
  have hvalue := s.value_length_le query
  obtain ⟨d₀, hsame, htx, hsign, hrun⟩ := h p1 hp1
  have hkept := export_kept hdata hsign hrun
  have hstep := step_command s.crypto query.owner.ins p1 p2 hready.phase hready.idle hdata
  rcases hp1 with rfl | rfl
  · obtain ⟨d', hstep', hpending, -⟩ := h.confirm hready hdata hvalue
    obtain ⟨b, -, hfinal⟩ := handleApdu_confirm htx (hsame.flags.trans rfl)
      (hsame.phase.trans hready.phase) hrun
    have hd' : d' = prompted query.owner b (exported query.owner p2 (s.value query) 0 d₀) := by
      rw [← hfinal]
      exact Option.some.inj (hstep'.symm.trans hstep)
    refine ⟨d', hstep', ?_, ?_⟩
    · rw [hd']
      generalize query.owner = owner at hkept ⊢
      cases owner <;> exact hkept
    · rw [if_pos rfl]
      refine ⟨hpending, ?_⟩
      have htext := @withText_textIn (s.value query)
        { query.owner.ui d₀ with approveL2 := b } hvalue
      have hui : query.owner.ui d' =
          ({ query.owner.ui d₀ with approveL2 := b } : UiContext).withText (s.value query) := by
        rw [hd']
        generalize query.owner = owner
        cases owner <;> rfl
      rwa [hui]
  · obtain ⟨d', hstep', hready', hwire, -⟩ := h.silent hready hdata hvalue
    have hfinal := handleApdu_silent hvalue (by decide) htx (hsame.apduState.trans rfl)
      (hsame.flags.trans rfl) hrun
    have hd' : d' = sentExport query.owner p2 (s.value query) d₀ := by
      rw [← hfinal]
      exact Option.some.inj (hstep'.symm.trans hstep)
    refine ⟨d', hstep', ?_, ?_⟩
    · rw [hd']
      generalize query.owner = owner at hkept ⊢
      cases owner <;> exact hkept
    · rw [if_neg (by decide)]
      refine ⟨answered_of_step hready hready' hstep' hwire, ?_⟩
      rw [hd']
      generalize query.owner = owner
      cases owner <;> rfl

end Give

/-! Every request. -/

section Requests
variable {s : Suite} {d : Device} {ins p1 p2 : UInt8} {data bytes acc : Bytes}

theorem p2More_ne_zero (h : p2 &&& p2More = p2More) : ¬ (data = [] ∧ p2 &&& p2More = 0) := by
  rintro ⟨-, hzero⟩
  exact more_ne h hzero

theorem meets_sign (p1 p2 : UInt8) (hready : Ready d) (hacc : d.sign.Holds acc)
    (hdata : data.length ≤ 255) (hsome : ¬ (data = [] ∧ p2 &&& p2More = 0)) :
    ∃ d', step s.crypto d (.apdu (command insSignMessage p1 p2 data)) = some d' ∧
      Meets s d d' ((Request.sign p1 p2 data).respond acc) := by
  have hprocess := processApdu_sign s.crypto d p1 hdata hsome
  have hholds : (received (command insSignMessage p1 p2 data) d).sign.Holds acc := hacc
  have hfollows := sign_follows s p1 p2 hready hacc hdata
  unfold Suite.verdict at hfollows
  rw [if_neg hsome] at hfollows
  simp only [Request.respond]
  by_cases hvalid : ValidP1P2 p1 p2
  swap
  · rw [if_pos hvalid]
    apply meets_error s hready hdata (hprocess.trans _) (by simp)
    exact handleSignMessage_invalid s.crypto _ hvalid
  rw [if_neg (not_not.mpr hvalid)] at hfollows ⊢
  by_cases hover : maxMsgSize < acc.length + data.length
  · rw [if_pos hover]
    apply meets_error s hready hdata (hprocess.trans _) (by simp)
    exact handleSignMessage_overflow s.crypto hvalid hholds hover
  rw [if_neg hover] at hfollows ⊢
  by_cases hmore : p2 &&& p2More = p2More ∧ data ≠ []
  · rw [if_pos hmore]
    have htx : (received (command insSignMessage p1 p2 data) d).tx = 0 :=
      hready.inv.tx hready.phase
    obtain ⟨c, hc, hcout, hcui, hrun⟩ := handleSignMessage_stored s.crypto hvalid hholds
      (received_command_read d insSignMessage p1 p2 hdata) (Nat.le_of_not_lt hover) hmore.1 hmore.2
    have hlength := hc.length_le
    rw [← hc.length] at hlength
    obtain ⟨d', hstep, hanswered, hsign, hpk⟩ := meets_thrown hready hdata (hprocess.trans hrun)
      (untouched_sign hready _ hlength
        (hcout.trans_le hready.inv.bounded.sign.outputLength) hcui) (by rw [htx]; decide)
    rw [htx, List.take_zero, List.nil_append] at hanswered
    refine ⟨d', hstep, hanswered, hsign ▸ hc, ?_, hpk⟩
    rw [hsign]
    exact hcui
  rw [if_neg hmore] at hfollows ⊢
  unfold Suite.finish at hfollows
  unfold Response.finish
  cases hsplit : splitPath (acc ++ data) with
  | none =>
    simp only [hsplit] at hfollows ⊢
    obtain ⟨d', hstep, hreplied⟩ := hfollows
    exact ⟨d', hstep, meets_refuse hready hreplied.toReady hstep hreplied.wire (by decide)⟩
  | some split =>
    obtain ⟨path, m⟩ := split
    have hp := (splitPath_eq_some.mp hsplit).1
    simp only [hsplit] at hfollows ⊢
    by_cases hempty : data.length = 0
    · -- the hash is long enough for the second reading of any path
      have hle := hp.le
      have hhash := s.hash_length m
      have hrereads : Rereads path.length (s.hash m) := Or.inr (by omega)
      have hprepared : s.prepared (decide (data.length = 0)) m = s.hash m := by
        rw [decide_eq_true hempty]
        rfl
      rw [hprepared, if_pos hrereads] at hfollows
      rw [if_pos (decide_eq_true hempty)]
      exact @meets_give s d p1 p2 data (.hashSignature path m) hready hdata hvalid.p1 hfollows
    · have hprepared : s.prepared (decide (data.length = 0)) m = m := by
        rw [decide_eq_false hempty]
        rfl
      have hfalse : ¬ decide (data.length = 0) = true := by simpa using hempty
      rw [hprepared] at hfollows
      rw [if_neg hfalse]
      split_ifs at hfollows ⊢
      · exact @meets_give s d p1 p2 data (.signature path m) hready hdata hvalid.p1 hfollows
      · obtain ⟨d', hstep, hreplied⟩ := hfollows
        exact ⟨d', hstep, meets_refuse hready hreplied.toReady hstep hreplied.wire (by decide)⟩

theorem meets_publicKey (p1 p2 : UInt8) (hready : Ready d) (hdata : data.length ≤ 255)
    (hne : ¬ (data = [] ∧ p2 &&& p2More = 0)) (hpath : ValidP1P2 p1 p2 → data ≠ [])
    (acc : Bytes) :
    ∃ d', step s.crypto d (.apdu (command insGetPublicKey p1 p2 data)) = some d' ∧
      Meets s d d' ((Request.publicKey p1 p2 data).respond acc) := by
  have hprocess := processApdu_publicKey s.crypto d p1 hdata hne
  simp only [Request.respond]
  by_cases hvalid : ValidP1P2 p1 p2
  swap
  · rw [if_pos hvalid]
    apply meets_error s hready hdata (hprocess.trans _) (by simp)
    simp only [handleGetPublicKey, EStateM.run_bind, ioCheckP1P2_refuse hvalid,
      run_ofChecked_error]
  rw [if_neg (not_not.mpr hvalid)]
  cases hsplit : splitPath data with
  | none =>
    simp only []
    apply meets_error s hready hdata (hprocess.trans _) (by simp)
    have hpos : 1 ≤ data.length := List.length_pos_iff.mpr (hpath hvalid)
    have hmem : ((received (command insGetPublicKey p1 p2 data) d).apdu.bytes.drop
        offsetCdata).take data.length = data := by
      rw [received_command_drop d insGetPublicKey p1 p2 hdata, List.take_left]
    have hread : ioReadBip32 (received (command insGetPublicKey p1 p2 data) d).apdu offsetCdata
        data.length = .error (.thrown swWrongLength) := by
      rcases @ioReadBip32_cases _ (received (command insGetPublicKey p1 p2 data) d).apdu
        offsetCdata data.length hpos (by omega)
        (by simp only [offsetCdata, ioApduBufferSize]; omega) with ⟨path, m, hp, heq, -⟩ | ⟨-, h⟩
      · rw [hmem] at heq
        exact absurd heq (splitPath_eq_none.mp hsplit path m hp)
      · exact h
    simp only [handleGetPublicKey, EStateM.run_bind, hvalid.check, run_ofChecked_ok,
      EStateM.run_get, hread, run_ofChecked_error]
  | some split =>
    obtain ⟨path, m⟩ := split
    obtain ⟨hp, rfl⟩ := splitPath_eq_some.mp hsplit
    exact @meets_give s d p1 p2 _ (.publicKey path) hready hdata hvalid.p1
      (publicKey_exports hready hp hvalid.p2 hdata)

theorem parse_command (ins p1 p2 : UInt8) (hdata : data.length ≤ 255) :
    Request.parse (command ins p1 p2 data) =
      if data = [] ∧ p2 &&& p2More = 0 then .malformed swWrongLength
      else .ofCommand ins p1 p2 data := by
  have hlength : (UInt8.ofNat data.length).toNat = data.length :=
    UInt8.toNat_ofNat_of_lt' (by simp only [UInt8.size]; omega)
  simp only [command, List.cons_append, List.nil_append, Request.parse, hlength, ne_eq,
    not_true_eq_false, if_false, false_or]

/-- Where the header does not fit the length, no more than the class is looked at. -/
theorem parse_other (h : ∀ ins p1 p2 data, data.length ≤ 255 → bytes ≠ command ins p1 p2 data) :
    Request.parse bytes =
      .malformed (if bytes.getD 0 0 ≠ cla then swClaNotSupported else swWrongLength) := by
  unfold Request.parse
  split
  · rename_i c ins p1 p2 lc data
    rw [List.getD_cons_zero]
    split_ifs with hcla hlc
    · rfl
    · rfl
    · exfalso
      have hlt := lc.toNat_lt
      have hlength : lc.toNat = data.length := by
        by_contra hne
        exact hlc (Or.inl hne)
      apply h ins p1 p2 data (by omega)
      rw [command, ← hlength, UInt8.ofNat_toNat, ← not_not.mp hcla]
      rfl
  · rfl

theorem meets_other (s : Suite) (hready : Ready d) (haccepts : Accepts d bytes)
    (h : ∀ ins p1 p2 data, data.length ≤ 255 → bytes ≠ command ins p1 p2 data) :
    ∃ d', step s.crypto d (.apdu bytes) = some d' ∧
      Meets s d d' (.refuse (if bytes.getD 0 0 ≠ cla then swClaNotSupported
        else swWrongLength)) := by
  have hpos := haccepts.2.1
  have hlen := haccepts.2.2.1
  have htx : (received bytes d).tx = 0 := hready.inv.tx hready.phase
  have hmin : ¬ bytes.length < apduMinSize := not_lt.mpr hpos
  have hcla : (received bytes d).header offsetCla = bytes.getD 0 0 := received_header hlen hpos
  have hrun : (processApdu s.crypto bytes.length).run (received bytes d) =
      .error (.thrown (if bytes.getD 0 0 ≠ cla then swClaNotSupported else swWrongLength))
        (received bytes d) := by
    simp only [processApdu, EStateM.run_bind, EStateM.run_get, if_neg hmin, hcla]
    split_ifs with h1 h2 h3
    · rfl
    · rfl
    · rfl
    · exfalso
      simp only [ne_eq, not_not, apduMaxSize] at h1 h3
      have hlc : (received bytes d).header offsetLc = bytes.getD 4 0 :=
        received_header hlen (by simp only [offsetLc]; omega)
      rw [hlc] at h3
      obtain ⟨hdata, heq⟩ := command_of_header h1 h3
      exact h _ _ _ _ hdata heq
  have hstep : step s.crypto d (.apdu bytes) =
      some (handleApdu s.crypto bytes.length (received bytes d)) :=
    if_pos ⟨hready.phase, haccepts⟩
  rw [handleApdu, hrun] at hstep
  generalize hsw : (if bytes.getD 0 0 ≠ cla then swClaNotSupported else swWrongLength) = sw
    at hstep ⊢
  have hcode : sw ≠ SdkException.ioReset.code ∧ statusOf sw = sw ∧ sw &&& 0xF000 ≠ 0x9000 ∧
      statusBytes sw ≠ statusBytes swOk := by
    rw [← hsw]
    split_ifs <;> decide
  simp only [] at hstep
  rw [caught_eq hcode.1 rfl rfl (by rw [htx]; decide), hcode.2.1,
    clearUnless_of_refusal hcode.2.2.1] at hstep
  have hready' : Ready (replied sw (clearAllContexts (received bytes d))) :=
    ⟨step_inv hready.inv hstep, hready.phase, rfl⟩
  have hfit : (clearAllContexts (received bytes d)).tx + 2 ≤ ioApduBufferSize := by
    rw [show (clearAllContexts (received bytes d)).tx = 0 from htx]
    decide
  have hwire : (replied sw (clearAllContexts (received bytes d))).wire =
      [(received bytes d).apdu.bytes.take (received bytes d).tx ++ statusBytes sw] :=
    replied_wire sw hfit
  rw [htx, List.take_zero, List.nil_append] at hwire
  exact ⟨_, hstep, meets_refuse hready hready' hstep hwire hcode.2.2.2⟩

/-- Every request that does not read behind its bytes is met as the session responds. -/
theorem step_meets (s : Suite) (hready : Ready d) (hacc : d.sign.Holds acc)
    (haccepts : Accepts d bytes) (hresidue : ¬ ReadsResidue bytes) :
    ∃ d', step s.crypto d (.apdu bytes) = some d' ∧
      Meets s d d' ((Request.parse bytes).respond acc) := by
  by_cases hcommand : ∃ ins p1 p2 data, data.length ≤ 255 ∧ bytes = command ins p1 p2 data
  swap
  · have hother : ∀ ins p1 p2 data, data.length ≤ 255 → bytes ≠ command ins p1 p2 data :=
      fun ins p1 p2 data hdata heq => hcommand ⟨ins, p1, p2, data, hdata, heq⟩
    rw [parse_other hother]
    exact meets_other s hready haccepts hother
  obtain ⟨ins, p1, p2, data, hdata, rfl⟩ := hcommand
  rw [parse_command ins p1 p2 hdata]
  by_cases hempty : data = [] ∧ p2 &&& p2More = 0
  · rw [if_pos hempty]
    have hrun := processApdu_command s.crypto d ins p1 p2 hdata
    rw [if_pos hempty] at hrun
    exact meets_error s hready hdata hrun (by simp)
  rw [if_neg hempty]
  by_cases hpk : ins = insGetPublicKey
  · subst hpk
    apply meets_publicKey p1 p2 hready hdata hempty _ acc
    rintro hvalid rfl
    have hp2 : p2 = p2More := hvalid.p2.resolve_right fun h => hempty ⟨rfl, h⟩
    exact hresidue ⟨p1, hvalid.p1, by rw [hp2]⟩
  by_cases hunknown : Request.ofCommand ins p1 p2 data = .unknown
  · rw [hunknown]
    exact meets_unknown s p1 hready hdata hempty hunknown
  unfold Request.ofCommand at hunknown ⊢
  rw [if_neg hpk] at hunknown ⊢
  split_ifs at hunknown ⊢ with h1 h2 h3 h4 h5
  · subst h1
    exact meets_reset s p1 hready hdata hempty
  · subst h2
    exact meets_echo s p1 hready hdata hempty
  · subst h3
    exact meets_configuration s p1 hready hdata hempty
  · subst h4
    exact meets_sign p1 p2 hready hacc hdata hempty
  · subst h5
    exact meets_dashboard s p1 hready hdata hempty
  · exact absurd rfl hunknown

end Requests

end IostLedger
