import IostLedger.Loop

/-! Button events, and the invariant of the device: contexts within their bounds, no
access out of range, and an open APDU exactly while an approve screen is active. -/
namespace IostLedger
open Memory Exec Machine

/-! The compare screen. -/

theorem uiShiftMsg_ok {u : UiContext} (hu : u.Bounded) :
    ∃ u', uiShiftMsg u = .ok u' ∧ u'.Bounded := by
  have hindex := hu.displayIndex
  simp only [displaySize] at hindex
  have hpart : ((u.msgBody.bytes.drop u.displayIndex).take displaySize).length ≤ displaySize :=
    List.length_take_le _ _
  refine ⟨{ u with
    partialMsg := u.partialMsg.splice 0 ((u.msgBody.bytes.drop u.displayIndex).take displaySize) },
    ?_, hu.msgLength, hu.displayIndex⟩
  simp only [uiShiftMsg, bind, Except.bind,
    Buffer.read?_of_le (show u.displayIndex + displaySize ≤ displaySize * displaySize by
      simp only [displaySize]; omega), inRange_some]
  rw [Buffer.write?_of_le (by simp only [displaySize] at hpart ⊢; omega)]
  rfl

theorem uiCompareMsg_ok {u : UiContext} (hu : u.Bounded) :
    ∃ u', uiCompareMsg u = .ok u' ∧ u'.Bounded := by
  have hpart : ((u.msgBody.bytes.drop 0).take displaySize).length ≤ displaySize :=
    List.length_take_le _ _
  refine ⟨{ u with
    partialMsg := (u.partialMsg.splice 0 ((u.msgBody.bytes.drop 0).take displaySize)).splice
      displaySize [0]
    displayIndex := 0 }, ?_, hu.msgLength, Nat.zero_le _⟩
  simp only [uiCompareMsg, bind, Except.bind,
    Buffer.read?_of_le (show 0 + displaySize ≤ displaySize * displaySize by decide), inRange_some]
  rw [Buffer.write?_of_le (by simp only [displaySize] at hpart ⊢; omega)]
  simp only [inRange_some, Buffer.set?_of_lt (Nat.lt_succ_self displaySize)]
  rfl

theorem uiCompareButton_ok {u : UiContext} (hu : u.Bounded) (mask : UInt32) :
    ∃ u' idle, uiCompareButton u mask = .ok (u', idle) ∧ u'.Bounded := by
  have hmsg := hu.msgLength
  have hindex := hu.displayIndex
  simp only [displaySize] at hindex
  have hleft : UiContext.Bounded
      (if 0 < u.displayIndex then { u with displayIndex := u.displayIndex - 1 } else u) := by
    split_ifs
    · exact ⟨hmsg, by simp only [displaySize]; omega⟩
    · exact hu
  have hright : UiContext.Bounded
      (if (u.displayIndex : ℤ) < (u.msgLength : ℤ) - displaySize then
        { u with displayIndex := (u.displayIndex + 1) % 2 ^ 8 } else u) := by
    split_ifs with h
    · simp only [displaySize] at h
      exact ⟨hmsg, by simp only [displaySize]; omega⟩
    · exact hu
  obtain ⟨ul, hl, hul⟩ := uiShiftMsg_ok hleft
  obtain ⟨ur, hr, hur⟩ := uiShiftMsg_ok hright
  by_cases h1 : mask = buttonLeft ∨ mask = buttonEvtFast ||| buttonLeft
  · exact ⟨ul, false, by rw [uiCompareButton, if_pos h1, hl]; rfl, hul⟩
  by_cases h2 : mask = buttonRight ∨ mask = buttonEvtFast ||| buttonRight
  · exact ⟨ur, false, by rw [uiCompareButton, if_neg h1, if_pos h2, hr]; rfl, hur⟩
  by_cases h3 : mask = buttonEvtReleased ||| buttonLeft ||| buttonRight
  · exact ⟨.zero, true, by rw [uiCompareButton, if_neg h1, if_neg h2, if_pos h3]; rfl,
      UiContext.zero_bounded⟩
  · exact ⟨u, false, by rw [uiCompareButton, if_neg h1, if_neg h2, if_neg h3]; rfl, hu⟩

/-! What a button event can lead to. -/

/-- The device after an approval: the reply is sent and its text stays on the screen. -/
def approved (owner : Owner) (u : UiContext) (d : Device) : Device :=
  { owner.setUi u (owner.clearContext (replied swOk (d.setTx (owner.outputLength d + 1)))) with
    screen := owner.compareScreen }

/-- The device after a rejection. -/
def rejected (owner : Owner) (d : Device) : Device :=
  uiIdle (owner.clearContext (replied swUserRejected (d.setTx 0)))

/-- A rejection sends the status alone. -/
theorem rejected_wire (owner : Owner) {d : Device} (hwire : d.wire = []) :
    (rejected owner d).wire = [statusBytes swUserRejected] := by
  simp only [rejected, uiIdle, Owner.clearContext_wire]
  rw [replied_wire _ (by rw [setTx_tx]; decide), setTx_wire, setTx_tx, hwire, List.take_zero]
  rfl

inductive ButtonOutcome (mask : UInt32) (d d' : Device) : Prop where
  | menu {entries : MenuId} {currentEntry : ℕ} (hscreen : d.screen = .menu entries currentEntry)
      (h : d' = uxMenuElementsButton entries currentEntry mask d)
  | compare {owner : Owner} {u : UiContext} {idle : Bool} (hscreen : d.screen = owner.compareScreen)
      (hu : u.Bounded) (h : d' = if idle then uiIdle (owner.setUi u d) else owner.setUi u d)
  | rejects {owner : Owner} (hscreen : d.screen = owner.approveScreen)
      (hmask : mask = buttonEvtReleased ||| buttonLeft) (h : d' = rejected owner d)
  | approves {owner : Owner} {u : UiContext} (hscreen : d.screen = owner.approveScreen)
      (hmask : mask = buttonEvtReleased ||| buttonRight) (hu : u.Bounded)
      (h : d' = approved owner u d)
  | ignored {owner : Owner} (hscreen : d.screen = owner.approveScreen)
      (hleft : mask ≠ buttonEvtReleased ||| buttonLeft)
      (hright : mask ≠ buttonEvtReleased ||| buttonRight) (h : d' = d)

section Buttons
variable {d : Device} {mask : UInt32}

theorem compareExport_run {owner : Owner} (hu : (owner.ui d).Bounded) :
    ∃ u, (u.Bounded ∧ uiCompareMsg (owner.ui d) = .ok u) ∧ (compareExport owner).run d =
      .ok () { owner.setUi u d with screen := owner.compareScreen } := by
  obtain ⟨u, hrun, hu'⟩ := uiCompareMsg_ok hu
  refine ⟨u, ⟨hu', hrun⟩, ?_⟩
  simp only [compareExport, EStateM.run_bind, EStateM.run_get, hrun, run_ofChecked_ok,
    EStateM.run_modify]

theorem setUi_setUi (owner : Owner) (u v : UiContext) (d : Device) :
    owner.setUi u (owner.setUi v d) = owner.setUi u d := by cases owner <;> rfl

theorem uiApproveButton_left {owner : Owner} (hbusy : d.apduState = .busy) (htx : d.tx = 0) :
    (uiApproveButton owner (buttonEvtReleased ||| buttonLeft)).run d =
      .ok () (rejected owner d) := by
  simp only [uiApproveButton, EStateM.run_bind, EStateM.run_get, if_true,
    ioExchangeStatus_run swUserRejected hbusy htx (show 0 + 2 ≤ ioApduBufferSize by decide),
    EStateM.run_modify, rejected]

theorem uiApproveButton_right (owner : Owner) (hd : d.Bounded) (hbusy : d.apduState = .busy)
    (htx : d.tx = 0) :
    ∃ u, (u.Bounded ∧ uiCompareMsg (owner.ui d) = .ok u) ∧
      (uiApproveButton owner (buttonEvtReleased ||| buttonRight)).run d =
        .ok () (approved owner u d) := by
  have hout := hd.output owner
  have hne : ¬ buttonEvtReleased ||| buttonRight = buttonEvtReleased ||| buttonLeft := by decide
  have hlen : (owner.outputLength d + 1) % 2 ^ 16 = owner.outputLength d + 1 := by omega
  let d₁ := owner.setUi (owner.ui d)
    (owner.clearContext (replied swOk (d.setTx (owner.outputLength d + 1))))
  have hui : (owner.ui d₁).Bounded := by
    rw [Owner.ui_setUi]
    exact hd.ui owner
  obtain ⟨u, hu, hrun⟩ := compareExport_run hui
  rw [Owner.ui_setUi] at hu
  refine ⟨u, hu, ?_⟩
  simp only [uiApproveButton, EStateM.run_bind, EStateM.run_get, if_neg hne, if_true, hlen,
    EStateM.run_modify]
  rw [ioExchangeStatus_run swOk hbusy htx (by simp only [ioApduBufferSize]; omega)]
  simp only []
  rw [hrun, setUi_setUi]
  rfl

theorem uiApproveButton_other {owner : Owner} (hleft : mask ≠ buttonEvtReleased ||| buttonLeft)
    (hright : mask ≠ buttonEvtReleased ||| buttonRight) :
    (uiApproveButton owner mask).run d = .ok () d := by
  simp only [uiApproveButton, EStateM.run_bind, EStateM.run_get, if_neg hleft, if_neg hright,
    EStateM.run_pure]

theorem buttonPush_approve {owner : Owner} (hscreen : d.screen = owner.approveScreen) :
    (buttonPush mask).run d = (uiApproveButton owner mask).run d := by
  cases owner <;> rw [buttonPush, EStateM.run_bind, EStateM.run_get] <;> simp only [hscreen] <;> rfl

theorem buttonPush_compare {owner : Owner} (hscreen : d.screen = owner.compareScreen) :
    (buttonPush mask).run d = (uiExportCompareButton owner mask).run d := by
  cases owner <;> rw [buttonPush, EStateM.run_bind, EStateM.run_get] <;> simp only [hscreen] <;> rfl

theorem uiExportCompareButton_run (owner : Owner) (mask : UInt32) (hd : d.Bounded) :
    ∃ u idle, u.Bounded ∧ (uiExportCompareButton owner mask).run d =
      .ok () (if idle = true then uiIdle (owner.setUi u d) else owner.setUi u d) := by
  obtain ⟨u, idle, hrun, hu⟩ := uiCompareButton_ok (hd.ui owner) mask
  refine ⟨u, idle, hu, ?_⟩
  simp only [uiExportCompareButton, EStateM.run_bind, EStateM.run_get, hrun, run_ofChecked_ok,
    EStateM.run_modify]
  cases idle <;> rfl

theorem screen_cases (screen : Screen) :
    (∃ entries currentEntry, screen = .menu entries currentEntry) ∨
      (∃ owner : Owner, screen = owner.approveScreen) ∨
        ∃ owner : Owner, screen = owner.compareScreen := by
  cases screen with
  | menu entries currentEntry => exact Or.inl ⟨entries, currentEntry, rfl⟩
  | signMessageApprove => exact Or.inr (Or.inl ⟨.signMessage, rfl⟩)
  | signMessageCompare => exact Or.inr (Or.inr ⟨.signMessage, rfl⟩)
  | getPublicKeyApprove => exact Or.inr (Or.inl ⟨.getPublicKey, rfl⟩)
  | getPublicKeyCompare => exact Or.inr (Or.inr ⟨.getPublicKey, rfl⟩)

theorem handleButton_outcome (mask : UInt32) (hd : d.Bounded) (htx : d.tx = 0)
    (hbusy : ∀ owner : Owner, d.screen = owner.approveScreen → d.apduState = .busy) :
    ButtonOutcome mask d (handleButton mask d) := by
  unfold handleButton
  rcases screen_cases d.screen with ⟨entries, currentEntry, hscreen⟩ | ⟨owner, hscreen⟩ |
    ⟨owner, hscreen⟩
  · have hrun : (buttonPush mask).run d =
        .ok () (uxMenuElementsButton entries currentEntry mask d) := by
      rw [buttonPush, EStateM.run_bind, EStateM.run_get]
      simp only [hscreen, EStateM.run_modify]
    rw [hrun]
    exact .menu hscreen rfl
  · rw [buttonPush_approve hscreen]
    by_cases hleft : mask = buttonEvtReleased ||| buttonLeft
    · rw [hleft, uiApproveButton_left (hbusy owner hscreen) htx]
      exact .rejects hscreen rfl rfl
    · by_cases hright : mask = buttonEvtReleased ||| buttonRight
      · obtain ⟨u, hu, hrun⟩ := uiApproveButton_right owner hd (hbusy owner hscreen) htx
        rw [hright, hrun]
        exact .approves hscreen rfl hu.1 rfl
      · rw [uiApproveButton_other hleft hright]
        exact .ignored hscreen hleft hright rfl
  · obtain ⟨u, idle, hu, hrun⟩ := uiExportCompareButton_run owner mask hd
    rw [buttonPush_compare hscreen, hrun]
    exact .compare hscreen hu rfl

end Buttons

/-- What holds of the device whenever an event has been handled. -/
structure Device.Inv (d : Device) : Prop where
  bounded : d.Bounded
  inRange : d.phase ≠ .crashed
  tx : d.phase = .waiting → d.tx = 0
  open_iff : d.phase = .waiting →
    (d.apduState = .busy ↔ ∃ owner : Owner, d.screen = owner.approveScreen)
  flags : d.phase = .waiting → d.apduState = .busy → d.flags = ioAsynchReply

section Step
variable {crypto : Crypto} {d d' : Device}

theorem approveScreen_ne_menu (owner : Owner) (entries : MenuId) (currentEntry : ℕ) :
    Screen.menu entries currentEntry ≠ owner.approveScreen := by
  cases owner <;> simp [Owner.approveScreen]

theorem approveScreen_ne_compare (owner owner' : Owner) :
    owner.compareScreen ≠ owner'.approveScreen := by
  cases owner <;> cases owner' <;> decide

theorem step_apdu {bytes : Bytes} (h : step crypto d (.apdu bytes) = some d') :
    d.phase = .waiting ∧ Accepts d bytes ∧
      d' = handleApdu crypto bytes.length (received bytes d) := by
  simp only [step] at h
  split_ifs at h with hc
  exact ⟨hc.1, hc.2, (Option.some.inj h).symm⟩

theorem step_button {mask : UInt32} (h : step crypto d (.button mask) = some d') :
    d.phase = .waiting ∧ d' = handleButton mask { d with wire := [] } := by
  simp only [step] at h
  split_ifs at h with hc
  exact ⟨hc, (Option.some.inj h).symm⟩

theorem step_ioThrow {e : UInt16} (h : step crypto d (.ioThrow e) = some d') :
    d.phase = .waiting ∧ d' = caught (.thrown e) { d with wire := [] } := by
  simp only [step] at h
  split_ifs at h with hc
  exact ⟨hc, (Option.some.inj h).symm⟩

/-- One APDU of a device that keeps the invariant. -/
theorem step_apdu_outcome {bytes : Bytes} (hinv : d.Inv)
    (h : step crypto d (.apdu bytes) = some d') :
    ApduOutcome crypto bytes.length (received bytes d) d' := by
  obtain ⟨hphase, ⟨-, hlen, -, -⟩, rfl⟩ := step_apdu h
  exact handleApdu_outcome crypto (d := received bytes d)
    ⟨hinv.bounded.sign, hinv.bounded.pk⟩ (hinv.tx hphase) rfl rfl hphase hlen

/-- One button event of a device that keeps the invariant. -/
theorem step_button_outcome {mask : UInt32} (hinv : d.Inv)
    (h : step crypto d (.button mask) = some d') :
    ButtonOutcome mask { d with wire := [] } d' := by
  obtain ⟨hphase, rfl⟩ := step_button h
  refine handleButton_outcome mask ⟨hinv.bounded.sign, hinv.bounded.pk⟩ (hinv.tx hphase)
    fun owner hscreen => ?_
  exact (hinv.open_iff hphase).mpr ⟨owner, hscreen⟩

theorem inv_of_idle (hbounded : d.Bounded) (hphase : d.phase ≠ .crashed) (htx : d.tx = 0)
    (hidle : d.apduState = .idle) (hscreen : ∀ owner : Owner, d.screen ≠ owner.approveScreen) :
    d.Inv := by
  refine ⟨hbounded, hphase, fun _ => htx, fun _ => ⟨fun h => ?_, ?_⟩, fun _ h => ?_⟩
  · rw [hidle] at h
    cases h
  · rintro ⟨owner, h⟩
    exact absurd h (hscreen owner)
  · rw [hidle] at h
    cases h

theorem boot_inv (apdu : Buffer ioApduBufferSize) : (boot apdu).Inv :=
  inv_of_idle ⟨SignTxContext.zero_bounded, PublicKeyContext.zero_bounded⟩ (by simp [boot]) rfl rfl
    fun owner => approveScreen_ne_menu owner _ _

theorem restart_inv (hphase : d.phase = .waiting) : (restart d).Inv :=
  inv_of_idle ⟨SignTxContext.zero_bounded, PublicKeyContext.zero_bounded⟩
    (by simp [restart, clearAllContexts, uiIdle, hphase]) rfl rfl
    fun owner => approveScreen_ne_menu owner _ _

/-- Without an open APDU no approve screen is active. -/
theorem Device.Inv.not_approve (hinv : d.Inv) (hphase : d.phase = .waiting)
    (hidle : d.apduState = .idle) (owner : Owner) : d.screen ≠ owner.approveScreen := by
  intro h
  have hbusy := (hinv.open_iff hphase).mpr ⟨owner, h⟩
  rw [hidle] at hbusy
  cases hbusy

theorem clearUnless_bounded {e : UInt16} (hd : d.Bounded) : (clearUnless e d).Bounded := by
  unfold clearUnless
  split_ifs
  · exact ⟨SignTxContext.zero_bounded, PublicKeyContext.zero_bounded⟩
  · exact hd

/-- A menu button moves in the menus or ends the task. -/
theorem uxMenuElementsButton_cases (entries : MenuId) (currentEntry : ℕ) (mask : UInt32)
    (d : Device) :
    uxMenuElementsButton entries currentEntry mask d = d ∨
      uxMenuElementsButton entries currentEntry mask d = exited d ∨
      ∃ entries' currentEntry', uxMenuElementsButton entries currentEntry mask d =
        { d with screen := .menu entries' currentEntry' } := by
  unfold uxMenuElementsButton
  split_ifs
  · unfold uxMenuEnter
    split
    · exact Or.inr (Or.inr ⟨_, _, rfl⟩)
    · exact Or.inr (Or.inl rfl)
    · exact Or.inr (Or.inr ⟨_, _, rfl⟩)
    · exact Or.inl rfl
  all_goals first | exact Or.inl rfl | exact Or.inr (Or.inr ⟨_, _, rfl⟩)

theorem apduOutcome_inv {bytes : Bytes} (hinv : d.Inv) (hphase : d.phase = .waiting)
    (hidle : d.apduState = .idle)
    (h : ApduOutcome crypto bytes.length (received bytes d) d') : d'.Inv := by
  have hscreen := hinv.not_approve hphase hidle
  rcases h with ⟨h⟩ | ⟨h⟩ | ⟨h⟩ | ⟨rfl⟩ | ⟨-, -, rfl⟩ | ⟨-, h, rfl⟩
  · refine inv_of_idle ⟨h.sign ▸ SignTxContext.zero_bounded, h.pk ▸ PublicKeyContext.zero_bounded⟩
      ?_ h.tx h.apduState ?_
    · rw [h.phase.trans hphase]
      decide
    · rw [h.screen]
      exact hscreen
  · refine inv_of_idle h.bounded ?_ h.tx h.apduState ?_
    · rw [h.phase.trans hphase]
      decide
    · rw [h.screen]
      exact hscreen
  · rename_i owner
    refine ⟨h.bounded, ?_, fun _ => h.tx.trans (hinv.tx hphase), fun _ => ?_,
      fun _ _ => h.flags.trans (show (0 : UInt8) ||| ioAsynchReply = _ by decide)⟩
    · rw [h.phase.trans hphase]
      decide
    · exact ⟨fun _ => ⟨owner, h.screen⟩, fun _ => h.apduState⟩
  · exact inv_of_idle ⟨hinv.bounded.sign, hinv.bounded.pk⟩ (by simp [exited]) rfl rfl hscreen
  · exact ⟨⟨hinv.bounded.sign, hinv.bounded.pk⟩, by simp [dashboard], by simp [dashboard],
      by simp [dashboard], by simp [dashboard]⟩
  · exact restart_inv (h.phase.trans hphase)

theorem buttonOutcome_inv {mask : UInt32} (hinv : d.Inv) (hphase : d.phase = .waiting)
    (h : ButtonOutcome mask d d') : d'.Inv := by
  have htx := hinv.tx hphase
  have hidle_of_not (hscreen : ∀ owner : Owner, d.screen ≠ owner.approveScreen) :
      d.apduState = .idle := by
    cases hstate : d.apduState with
    | idle => rfl
    | busy =>
      obtain ⟨owner, h⟩ := (hinv.open_iff hphase).mp hstate
      exact absurd h (hscreen owner)
  rcases h with @⟨entries, currentEntry, hscreen, rfl⟩ | @⟨owner, u, idle, hscreen, hu, rfl⟩ |
    @⟨owner, hscreen, -, rfl⟩ | @⟨owner, u, hscreen, -, hu, rfl⟩ | ⟨-, -, -, rfl⟩
  · have hne (owner : Owner) : d.screen ≠ owner.approveScreen := by
      rw [hscreen]
      exact approveScreen_ne_menu owner _ _
    have hidle := hidle_of_not hne
    rcases uxMenuElementsButton_cases entries currentEntry mask d with h | h | ⟨_, _, h⟩ <;> rw [h]
    · exact hinv
    · exact inv_of_idle ⟨hinv.bounded.sign, hinv.bounded.pk⟩ (by simp [exited]) htx hidle hne
    · exact inv_of_idle ⟨hinv.bounded.sign, hinv.bounded.pk⟩ hinv.inRange htx hidle
        fun owner => approveScreen_ne_menu owner _ _
  · have hne (owner' : Owner) : d.screen ≠ owner'.approveScreen := by
      rw [hscreen]
      exact approveScreen_ne_compare owner owner'
    have hidle := hidle_of_not hne
    cases idle with
    | true =>
      refine inv_of_idle ?_ ?_ ?_ ?_ fun owner => approveScreen_ne_menu owner _ _
      · have hset : (owner.setUi u d).Bounded := setUi_bounded hinv.bounded hu
        exact ⟨hset.sign, hset.pk⟩
      all_goals simp [uiIdle, hphase, htx, hidle]
    | false =>
      refine inv_of_idle (setUi_bounded hinv.bounded hu) ?_ ?_ ?_ ?_
      all_goals simp [hphase, htx, hidle, hne]
  · refine inv_of_idle ?_ ?_ ?_ ?_ fun owner => approveScreen_ne_menu owner _ _
    · have h : (owner.clearContext d).Bounded := clearContext_bounded hinv.bounded
      cases owner <;> exact ⟨h.sign, h.pk⟩
    all_goals simp [rejected, uiIdle, hphase]
  · refine inv_of_idle ?_ ?_ ?_ ?_ fun owner' => approveScreen_ne_compare owner owner'
    · have h : (owner.setUi u (owner.clearContext d)).Bounded :=
        setUi_bounded (clearContext_bounded hinv.bounded) hu
      cases owner <;> exact ⟨h.sign, h.pk⟩
    all_goals simp [approved, hphase]
  · exact hinv

theorem ioThrow_inv {e : UInt16} (hinv : d.Inv) (hphase : d.phase = .waiting) :
    (caught (.thrown e) d).Inv := by
  have htx := hinv.tx hphase
  by_cases he : e = SdkException.ioReset.code
  · rw [he, caught_reset]
    exact restart_inv hphase
  have hbounded : (clearUnless e d).Bounded := clearUnless_bounded hinv.bounded
  cases hstate : d.apduState with
  | busy =>
    have hflags := hinv.flags hphase hstate
    rw [caught_deferred he hflags htx]
    refine ⟨⟨hbounded.sign, hbounded.pk⟩, ?_, fun _ => rfl, fun _ => ?_, fun _ _ => ?_⟩
    · simp [withStatus, hphase]
    · simpa [withStatus] using hinv.open_iff hphase
    · simpa [withStatus] using hflags
  | idle =>
    have hscreen := hinv.not_approve hphase hstate
    rw [caught_of_ne he (by rw [htx]; decide)]
    rcases exchangeNext_idle (d := withStatus (statusOf e) (clearUnless e d))
      (by simpa [withStatus] using hstate) (Nat.succ_ne_zero _) with h | h <;> rw [h]
    · exact ⟨⟨hbounded.sign, hbounded.pk⟩, by simp, by simp, by simp, by simp⟩
    · refine inv_of_idle ⟨hbounded.sign, hbounded.pk⟩ ?_ rfl ?_ ?_
      · simp [withStatus, hphase]
      · simpa [withStatus] using hstate
      · simpa [withStatus] using hscreen

theorem wire_irrelevant_inv (hinv : d.Inv) : Device.Inv { d with wire := [] } :=
  ⟨⟨hinv.bounded.sign, hinv.bounded.pk⟩, hinv.inRange, hinv.tx, hinv.open_iff, hinv.flags⟩

/-- Every event keeps the invariant. -/
theorem step_inv {event : Event} (hinv : d.Inv) (h : step crypto d event = some d') : d'.Inv := by
  cases event with
  | apdu bytes =>
    obtain ⟨hphase, ⟨hidle, -⟩, -⟩ := step_apdu h
    exact apduOutcome_inv hinv hphase hidle (step_apdu_outcome hinv h)
  | button mask =>
    exact buttonOutcome_inv (wire_irrelevant_inv hinv) (step_button h).1
      (step_button_outcome hinv h)
  | ioThrow e =>
    obtain ⟨hphase, rfl⟩ := step_ioThrow h
    exact ioThrow_inv (wire_irrelevant_inv hinv) hphase

/-- The invariant holds in every state the application reaches. -/
theorem reachable_inv {allowed : Event → Prop} (h : (app crypto).ReachableBy allowed d) :
    d.Inv := by
  have hstart : ∀ s, (app crypto).start s → s.Inv := by
    rintro s ⟨apdu, rfl⟩
    exact boot_inv apdu
  exact h.invariant hstart fun s e t hs _ hstep => step_inv hs hstep

end Step

end IostLedger
