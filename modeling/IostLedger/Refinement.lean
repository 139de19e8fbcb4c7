import IostLedger.Responses
import IostLedger.Lib.Simulation

/-! The application refines the session: every run of the one is observed as the run of the
other on the same events. -/
namespace IostLedger
open Memory Exec Machine

/-- The events that the session accounts for: no request that is read behind its bytes, no
piece of a request of the SDK, and of the exceptions of `io_exchange` the reset. -/
def Event.Clean : Event → Prop
  | .apdu bytes => ¬ ReadsResidue bytes ∧ (4 ≤ bytes.length ∨ bytes.head? ≠ some 0xB0)
  | .button _ => True
  | .ioThrow code => code = SdkException.ioReset.code

instance : DecidablePred ReadsResidue := fun bytes =>
  decidable_of_iff (bytes = command insGetPublicKey p1Confirm p2More [] ∨
    bytes = command insGetPublicKey p1Silent p2More []) (by simp [ReadsResidue])

instance : DecidablePred Event.Clean
  | .apdu bytes => inferInstanceAs (Decidable (¬ ReadsResidue bytes ∧ _))
  | .button _ => inferInstanceAs (Decidable True)
  | .ioThrow code => inferInstanceAs (Decidable (code = _))

/-- The screen of the device and the context behind it are those of a view. -/
inductive Depicts (s : Suite) (d : Device) : View → Prop where
  | menu {entries : MenuId} {currentEntry : ℕ} (hscreen : d.screen = .menu entries currentEntry) :
      Depicts s d (.menu entries currentEntry)
  | prompt {p2 : UInt8} {query : Query} (h : AtPrompt s p2 query d) : Depicts s d (.prompt p2 query)
  | compare {owner : Owner} {query : Option Query} {moves : List Move}
      (hscreen : d.screen = owner.compareScreen)
      (h : WindowIn (s.compareText query)
        (walk ((s.compareText query).length - displaySize) 0 moves) (owner.ui d)) :
      Depicts s d (.compare owner query moves)

/-- The device is in the state of a session. While a signature waits for its approval the
context of the message is that of the handler. -/
structure Represents (s : Suite) (d : Device) (t : Session) : Prop where
  inv : d.Inv
  phase : d.phase = t.stage.phase
  wire : d.wire = t.wire.map s.render
  acc : (∀ query, t.view.asked = some query → query.owner = .getPublicKey) → d.sign.Holds t.acc
  view : Depicts s d t.view

section Views
variable {s : Suite} {d d' : Device} {view : View}

/-- What reads the screen and the ui contexts alone. -/
theorem Depicts.kept (h : Depicts s d view) (hasked : view.asked = none)
    (hscreen : d'.screen = d.screen) (hui : ∀ owner : Owner, owner.ui d' = owner.ui d) :
    Depicts s d' view := by
  cases h with
  | menu hmenu => exact .menu (hscreen.trans hmenu)
  | prompt h => cases hasked
  | compare hcompare h =>
    refine .compare (hscreen.trans hcompare) ?_
    rw [hui]
    exact h

theorem Owner.Cleared.ui {owner : Owner} (h : owner.Cleared d) : owner.ui d = .zero := by
  cases owner
  · exact congrArg SignTxContext.ui h
  · exact congrArg PublicKeyContext.ui h

theorem Owner.Kept.ui {owner : Owner} (h : owner.Kept d d') : owner.ui d' = owner.ui d := by
  cases owner
  · exact congrArg SignTxContext.ui h
  · exact congrArg PublicKeyContext.ui h

/-- Once a context is cleared, its text is gone from the compare screen. -/
theorem Depicts.blanked {owner : Owner} (h : Depicts s d view) (hasked : view.asked = none)
    (hscreen : d'.screen = d.screen) (hcleared : owner.Cleared d')
    (hkept : owner.other.ui d' = owner.other.ui d) : Depicts s d' (view.blanked owner) := by
  cases h with
  | menu hmenu => exact .menu (hscreen.trans hmenu)
  | prompt h => cases hasked
  | @compare shown query moves hcompare h =>
    rw [View.blanked]
    split_ifs with hshown
    · subst hshown
      refine .compare (hscreen.trans hcompare) ?_
      rw [hcleared.ui]
      exact zero_windowIn
    · have hother : owner.other = shown := by
        cases owner <;> cases shown <;> first | rfl | exact absurd rfl hshown
      refine .compare (hscreen.trans hcompare) ?_
      rw [← hother, hkept, hother]
      exact h

theorem View.asked_blanked (owner : Owner) (view : View) :
    (view.blanked owner).asked = view.asked := by
  cases view with
  | menu entries currentEntry => rfl
  | prompt p2 query => rfl
  | compare shown query moves =>
    rw [View.blanked]
    split_ifs <;> rfl

end Views

section Responses
variable {s : Suite} {d d' : Device} {t : Session}

/-- A session that waits for a request is a device that does. -/
theorem Represents.ready (h : Represents s d t) (hrunning : t.stage = .running)
    (hasked : t.view.asked = none) : Ready d := by
  have hphase : d.phase = .waiting := by rw [h.phase, hrunning, Stage.phase]
  refine ⟨h.inv, hphase, ?_⟩
  have hopen := h.inv.open_iff hphase
  cases hstate : d.apduState with
  | idle => rfl
  | busy =>
    exfalso
    obtain ⟨owner, hscreen⟩ := hopen.mp hstate
    have hview := h.view
    generalize t.view = view at hview hasked
    cases hview with
    | menu hmenu => exact approveScreen_ne_menu owner _ _ (hmenu.symm.trans hscreen)
    | prompt h => cases hasked
    | @compare shown query moves hcompare _ =>
      exact approveScreen_ne_compare shown owner (hcompare.symm.trans hscreen)

theorem Represents.holds (h : Represents s d t) (hasked : t.view.asked = none) :
    d.sign.Holds t.acc := by
  apply h.acc
  intro query hquery
  rw [hasked] at hquery
  cases hquery

/-- The device that meets a request represents the session that answers it. -/
theorem Meets.represents {response : Response} (hmeets : Meets s d d' response)
    (h : Represents s d t) (hrunning : t.stage = .running) (hasked : t.view.asked = none) :
    Represents s d' (t.answered response) := by
  have hholds := h.holds hasked
  have hrun (hready : Ready d') : d'.phase = t.stage.phase := by
    rw [hready.phase, hrunning, Stage.phase]
  cases response with
  | refuse sw =>
    obtain ⟨hanswered, hcleared⟩ := hmeets
    have hsign : d'.sign = .zero := hcleared .signMessage
    refine ⟨hanswered.inv, hrun hanswered.toReady, hanswered.wire, fun _ => ?_, ?_⟩
    · rw [hsign]
      exact SignTxContext.zero_holds
    · have hfirst : Depicts s (Owner.clearContext .signMessage d)
          (t.view.blanked .signMessage) := h.view.blanked hasked rfl rfl rfl
      refine hfirst.blanked ((View.asked_blanked _ _).trans hasked) hanswered.screen
        (hcleared .getPublicKey) ?_
      exact congrArg SignTxContext.ui hsign
  | reply payload =>
    obtain ⟨hanswered, hkept⟩ := hmeets
    refine ⟨hanswered.inv, hrun hanswered.toReady, hanswered.wire, fun _ => ?_,
      h.view.kept hasked hanswered.screen fun owner => (hkept owner).ui⟩
    rw [show d'.sign = d.sign from hkept .signMessage]
    exact hholds
  | store acc =>
    obtain ⟨hanswered, hacc, hui, hpk⟩ := hmeets
    refine ⟨hanswered.inv, hrun hanswered.toReady, hanswered.wire, fun _ => hacc,
      h.view.kept hasked hanswered.screen fun owner => ?_⟩
    cases owner
    · exact hui
    · exact congrArg PublicKeyContext.ui hpk
  | give p1 p2 query =>
    obtain ⟨hkept, hgive⟩ := hmeets
    rw [Session.answered]
    split_ifs at hgive ⊢ with hp1
    · refine ⟨hgive.inv, ?_, hgive.wire, fun howner => ?_, .prompt hgive⟩
      · rw [hgive.phase, hrunning, Stage.phase]
      · rw [howner query rfl] at hkept
        rw [show d'.sign = d.sign from hkept]
        exact hholds
    · obtain ⟨hanswered, hcleared⟩ := hgive
      refine ⟨hanswered.inv, hrun hanswered.toReady, hanswered.wire, fun _ => ?_,
        h.view.blanked hasked hanswered.screen hcleared hkept.ui⟩
      generalize query.owner = owner at hkept hcleared
      cases owner with
      | signMessage =>
        rw [show d'.sign = .zero from hcleared]
        exact SignTxContext.zero_holds
      | getPublicKey =>
        rw [show d'.sign = d.sign from hkept]
        exact hholds
  | exit =>
    have hsign : d'.sign = d.sign := hmeets.kept .signMessage
    refine ⟨hmeets.inv, hmeets.phase, hmeets.wire, fun _ => ?_,
      h.view.kept hasked hmeets.screen fun owner => (hmeets.kept owner).ui⟩
    rw [hsign]
    exact hholds
  | leave =>
    have hsign : d'.sign = d.sign := hmeets.kept .signMessage
    refine ⟨hmeets.inv, hmeets.phase, hmeets.wire, fun _ => ?_,
      h.view.kept hasked hmeets.screen fun owner => (hmeets.kept owner).ui⟩
    rw [hsign]
    exact hholds

end Responses

/-! Buttons. -/

theorem uxMenuElementsButton_eq {entries : MenuId} {currentEntry : ℕ} {d : Device}
    (hscreen : d.screen = .menu entries currentEntry) (mask : UInt32) :
    uxMenuElementsButton entries currentEntry mask d =
      (Session.menuEntry entries currentEntry mask).elim (exited d)
        fun entry => { d with screen := .menu entry.1 entry.2 } := by
  have hself : ({ d with screen := .menu entries currentEntry } : Device) = d := by
    rw [← hscreen]
  have hboth : bothReleased = buttonEvtReleased ||| buttonLeft ||| buttonRight := rfl
  unfold uxMenuElementsButton Session.menuEntry
  rw [hboth]
  split_ifs with h1 h2 h3 h4 h5
  · unfold uxMenuEnter
    split
    · rfl
    · rfl
    · rfl
    · simp only [Option.elim_some, hself]
  · simp only [Option.elim_some, h3, Nat.zero_sub]
    rw [← h3, hself]
  · rfl
  · simp only [Option.elim_some, hself]
  · rfl
  · simp only [Option.elim_some, hself]

section Buttons
variable {s : Suite} {d : Device} {t : Session} {mask : UInt32}

theorem Represents.menu {entries : MenuId} {currentEntry : ℕ} (h : Represents s d t)
    (hrunning : t.stage = .running) (hview : t.view = .menu entries currentEntry)
    (hscreen : d.screen = .menu entries currentEntry) :
    Represents s (uxMenuElementsButton entries currentEntry mask { d with wire := [] })
      (t.pressed mask) := by
  have hasked : t.view.asked = none := by rw [hview]; rfl
  have hready := h.ready hrunning hasked
  have hholds := h.holds hasked
  have hphase : d.phase = .waiting := hready.phase
  have hinv : (uxMenuElementsButton entries currentEntry mask { d with wire := [] }).Inv :=
    buttonOutcome_inv (wire_irrelevant_inv h.inv) hphase (.menu hscreen rfl)
  have hmenu := @uxMenuElementsButton_eq entries currentEntry { d with wire := [] } hscreen mask
  rw [hmenu] at hinv ⊢
  rw [Session.pressed, hview]
  simp only []
  generalize Session.menuEntry entries currentEntry mask = entry at hinv ⊢
  cases entry with
  | none => exact ⟨hinv, rfl, rfl, fun _ => hholds, .menu hscreen⟩
  | some entry =>
    refine ⟨hinv, ?_, rfl, fun _ => hholds, .menu rfl⟩
    simp only [Option.elim_some, hphase, hrunning, Stage.phase]

/-- Once the answer has been sent or refused, only the bytes of the other handler are left. -/
theorem AtPrompt.holds {p2 : UInt8} {query : Query} {d' : Device} (h : Represents s d t)
    (hview : t.view = .prompt p2 query) (hcleared : query.owner = .signMessage →
      d'.sign.msgLength = 0) (hkept : query.owner = .getPublicKey → d'.sign = d.sign) :
    d'.sign.Holds (t.cleared query.owner).acc := by
  cases howner : query.owner with
  | signMessage => exact holds_nil (hcleared howner)
  | getPublicKey =>
    have hholds : d.sign.Holds t.acc := by
      apply h.acc
      intro query' hquery'
      rw [hview] at hquery'
      obtain rfl := Option.some.inj hquery'
      exact howner
    rw [hkept howner]
    exact hholds

theorem Pending.step_approve (crypto : Crypto) {owner : Owner} {payload text : Bytes}
    (h : Pending owner payload text d) :
    ∃ u, uiCompareMsg (owner.ui d) = .ok u ∧ step crypto d approval = some (approved owner u d) := by
  obtain ⟨u, ⟨-, hcompare⟩, hrun⟩ :=
    uiApproveButton_right owner h.inv.bounded h.busy (h.inv.tx h.phase)
  refine ⟨u, hcompare, ?_⟩
  rw [approval, h.step_button, handleButton, buttonPush_approve h.screen, hrun]

theorem Pending.step_reject (crypto : Crypto) {owner : Owner} {payload text : Bytes}
    (h : Pending owner payload text d) : step crypto d rejection = some (rejected owner d) := by
  rw [rejection, h.step_button, handleButton, buttonPush_approve h.screen,
    uiApproveButton_left h.busy (h.inv.tx h.phase)]

theorem Represents.prompt {p2 : UInt8} {query : Query} (h : Represents s d t)
    (hrunning : t.stage = .running) (hview : t.view = .prompt p2 query)
    (hprompt : AtPrompt s p2 query d) :
    ∃ d', step s.crypto d (.button mask) = some d' ∧ Represents s d' (t.pressed mask) := by
  have hvalue := s.value_length_le query
  have hformat := formatPayload_length_le p2 (s.value query)
  have hphase : d.phase = t.stage.phase := h.phase
  rw [Session.pressed, hview]
  simp only []
  by_cases hleft : mask = buttonEvtReleased ||| buttonLeft
  · subst hleft
    obtain ⟨d', hreject, hready, hwire⟩ := hprompt.reject s.crypto
    have hd' : rejected query.owner d = d' :=
      Option.some.inj ((hprompt.step_reject s.crypto).symm.trans hreject)
    refine ⟨d', hreject, ?_⟩
    rw [if_pos rfl]
    refine ⟨hready.inv, ?_, hwire, fun _ => AtPrompt.holds h hview ?_ ?_, .menu ?_⟩
    · rw [hready.phase]
      exact (congrArg Stage.phase hrunning).symm
    · intro howner
      rw [← hd', howner]
      rfl
    · intro howner
      rw [← hd', howner]
      rfl
    · rw [← hd']
      rfl
  by_cases hright : mask = buttonEvtReleased ||| buttonRight
  · subst hright
    obtain ⟨d', happrove, hready, hwire, -⟩ := hprompt.approve s.crypto (by omega)
    obtain ⟨u, hcompare, hstep⟩ := hprompt.step_approve s.crypto
    obtain ⟨u', hwindow, hu'⟩ := uiCompareMsg_windowIn hprompt.textIn
    obtain rfl := Except.ok.inj (hwindow.symm.trans hcompare)
    have hd' : approved query.owner u' d = d' := Option.some.inj (hstep.symm.trans happrove)
    refine ⟨d', happrove, ?_⟩
    rw [if_neg hleft, if_pos rfl]
    refine ⟨hready.inv, ?_, hwire, fun _ => AtPrompt.holds h hview ?_ ?_, .compare ?_ ?_⟩
    · rw [hready.phase]
      exact (congrArg Stage.phase hrunning).symm
    · intro howner
      rw [← hd', howner]
      rfl
    · intro howner
      rw [← hd', howner]
      rfl
    · rw [← hd']
      rfl
    · have hui : query.owner.ui (approved query.owner u' d) = u' := by
        generalize query.owner = owner
        cases owner <;> rfl
      rw [← hd', hui]
      exact hu'
  · have hnone : t.wire.map s.render = [] := h.wire.symm.trans hprompt.wire
    have hwire : t.wire = [] := List.map_eq_nil_iff.mp hnone
    have hsame : ({ t with view := .prompt p2 query, wire := [] } : Session) = t := by
      rw [← hwire, ← hview]
    refine ⟨d, hprompt.ignore s.crypto hleft hright, ?_⟩
    rw [if_neg hleft, if_neg hright, hsame]
    exact h

/-- Only the ui context of a handler, the wire and the screen differ. -/
theorem setUi_holds {owner : Owner} {u : UiContext} {acc : Bytes} (h : d.sign.Holds acc) :
    (owner.setUi u { d with wire := [] }).sign.Holds acc := by
  cases owner
  · exact ⟨h.length, h.bytes⟩
  · exact h

theorem Represents.compare {owner : Owner} {query : Option Query} {moves : List Move}
    (h : Represents s d t) (hrunning : t.stage = .running)
    (hview : t.view = .compare owner query moves) (hscreen : d.screen = owner.compareScreen)
    (hwindow : WindowIn (s.compareText query)
      (walk ((s.compareText query).length - displaySize) 0 moves) (owner.ui d)) :
    ∃ d', step s.crypto d (.button mask) = some d' ∧ Represents s d' (t.pressed mask) := by
  have hasked : t.view.asked = none := by rw [hview]; rfl
  have hready := h.ready hrunning hasked
  have hholds := h.holds hasked
  have hphase : d.phase = t.stage.phase := h.phase
  rw [Session.pressed, hview]
  simp only []
  cases hmove : Session.moveOf mask with
  | some move =>
    obtain ⟨u, hrun, hu⟩ := uiCompareButton_move hwindow hmove
    have hstep : step s.crypto d (.button mask) = _ :=
      step_compare hready.phase hscreen hrun
    refine ⟨_, hstep, step_inv h.inv hstep, ?_, ?_, fun _ => setUi_holds hholds, .compare ?_ ?_⟩
    · simpa using hphase
    · simp
    · simpa using hscreen
    · simp only [Bool.false_eq_true, if_false, Owner.ui_setUi]
      rw [walk_append]
      exact hu
  | none =>
    by_cases hboth : mask = bothReleased
    · subst hboth
      have hstep : step s.crypto d (.button bothReleased) = _ :=
        step_compare hready.phase hscreen (uiCompareButton_both (owner.ui d))
      rw [if_pos rfl]
      refine ⟨_, hstep, step_inv h.inv hstep, ?_, ?_, fun _ => setUi_holds hholds, .menu rfl⟩
      · simpa [uiIdle] using hphase
      · simp [uiIdle]
    · have hstep : step s.crypto d (.button mask) = _ :=
        step_compare hready.phase hscreen (uiCompareButton_other (owner.ui d) hmove hboth)
      rw [if_neg hboth]
      refine ⟨_, hstep, step_inv h.inv hstep, ?_, ?_, fun _ => setUi_holds hholds, .compare ?_ ?_⟩
      · simpa using hphase
      · simp
      · simpa using hscreen
      · simpa using hwindow

end Buttons

/-! Runs. -/

section Runs
variable {s : Suite} {d : Device} {t : Session}

/-- Both receive the same requests. -/
theorem Represents.accepts_iff {bytes : Bytes} (h : Represents s d t)
    (hrunning : t.stage = .running)
    (hwhole : 4 ≤ bytes.length ∨ bytes.head? ≠ some 0xB0) :
    Accepts d bytes ↔ t.Receives bytes := by
  have hasked : d.apduState = .idle ↔ t.view.asked = none := by
    constructor
    · intro hidle
      have hview := h.view
      generalize t.view = view at hview
      cases hview with
      | menu _ => rfl
      | prompt hprompt =>
        rw [hprompt.busy] at hidle
        cases hidle
      | compare _ _ => rfl
    · intro hasked
      exact (h.ready hrunning hasked).idle
  unfold Accepts Session.Receives
  rw [hasked]
  apply and_congr_right
  intro _
  apply and_congr_right
  intro hpos
  apply and_congr_right
  intro hlen
  have hbytes : (d.apdu.splice 0 bytes).bytes = _ :=
    Buffer.splice_bytes (by rw [Nat.zero_add]; exact hlen)
  rw [hbytes, List.take_zero, List.nil_append, Nat.zero_add]
  rcases hwhole with hlong | hhead
  · rw [List.take_append_of_le_length hlong]
  · obtain ⟨c, rest, rfl⟩ := List.exists_cons_of_length_pos hpos
    have hc : c ≠ 0xB0 := fun heq => hhead (by rw [heq]; rfl)
    have hnot (l : Bytes) : (c :: l).take 4 ∉ sdkReserved := by
      rw [List.take_succ_cons]
      simp [sdkReserved, hc]
    exact iff_of_true (hnot _) (hnot _)

/-- On the events of a session, the application and the session go in lock step. -/
theorem lockStep (s : Suite) :
    LockStep (app s.crypto) session (fun _ => Event.Clean) (Represents s) := by
  intro d t event h hclean
  have hstopped : t.stage ≠ .running → d.phase ≠ .waiting := by
    intro hstage hphase
    have heq := h.phase.symm.trans hphase
    cases hstate : t.stage with
    | running => exact hstage hstate
    | exited => rw [hstate] at heq; cases heq
    | returned => rw [hstate] at heq; cases heq
  have hwaiting (hrunning : t.stage = .running) : d.phase = .waiting := by
    rw [h.phase, hrunning, Stage.phase]
  cases event with
  | apdu bytes =>
    change Option.Rel _ (step s.crypto d (.apdu bytes)) (t.step (.apdu bytes))
    by_cases hreceive : t.stage = .running ∧ t.Receives bytes
    · obtain ⟨hrunning, hreceives⟩ := hreceive
      have haccepts := (h.accepts_iff hrunning hclean.2).mpr hreceives
      have hasked := hreceives.1
      obtain ⟨d', hstep, hmeets⟩ :=
        step_meets s (h.ready hrunning hasked) (h.holds hasked) haccepts hclean.1
      rw [hstep, Session.step, if_pos ⟨hrunning, hreceives⟩]
      exact .some (hmeets.represents h hrunning hasked)
    · have hrefuse : ¬ (d.phase = .waiting ∧ Accepts d bytes) := by
        rintro ⟨hphase, haccepts⟩
        have hrunning : t.stage = .running := by
          by_contra hstage
          exact hstopped hstage hphase
        exact hreceive ⟨hrunning, (h.accepts_iff hrunning hclean.2).mp haccepts⟩
      rw [step, if_neg hrefuse, Session.step, if_neg hreceive]
      exact .none
  | button mask =>
    change Option.Rel _ (step s.crypto d (.button mask)) (t.step (.button mask))
    by_cases hrunning : t.stage = .running
    · rw [Session.step, if_pos hrunning]
      have hstep : ∃ d', step s.crypto d (.button mask) = some d' ∧
          Represents s d' (t.pressed mask) := by
        have hview := h.view
        generalize hv : t.view = view at hview
        cases hview with
        | @menu entries currentEntry hscreen =>
          refine ⟨_, ?_, h.menu hrunning hv hscreen⟩
          rw [step, if_pos (hwaiting hrunning), handleButton, buttonPush, EStateM.run_bind,
            EStateM.run_get]
          simp only [hscreen, EStateM.run_modify]
        | prompt hprompt => exact h.prompt hrunning hv hprompt
        | compare hscreen hwindow => exact h.compare hrunning hv hscreen hwindow
      obtain ⟨d', hstep, hrep⟩ := hstep
      rw [hstep]
      exact .some hrep
    · rw [Session.step, if_neg hrunning, step, if_neg (hstopped hrunning)]
      exact .none
  | ioThrow code =>
    have hcode : code = SdkException.ioReset.code := hclean
    subst hcode
    change Option.Rel _ (step s.crypto d (.ioThrow SdkException.ioReset.code))
      (t.step (.ioThrow SdkException.ioReset.code))
    by_cases hrunning : t.stage = .running
    · rw [Session.step, if_pos ⟨hrunning, rfl⟩, step, if_pos (hwaiting hrunning), caught_reset]
      exact .some ⟨restart_inv (hwaiting hrunning), hwaiting hrunning, rfl,
        fun _ => SignTxContext.zero_holds, .menu rfl⟩
    · rw [Session.step, if_neg fun hc => hrunning hc.1, step, if_neg (hstopped hrunning)]
      exact .none

/-- The host and the user cannot tell the device from the session. -/
theorem Represents.observe (h : Represents s d t) : d.observe = t.observe s := by
  have hsight : d.sight = t.view.sight s := by
    have hview := h.view
    generalize t.view = view at hview
    cases hview with
    | menu hscreen => rw [Device.sight, hscreen, View.sight]
    | @prompt p2 query hprompt =>
      have htext := hprompt.text
      have hscreen := hprompt.screen
      rw [View.sight, ← Query.text, ← htext]
      unfold Device.sight
      rw [hscreen]
      generalize query.owner = owner
      cases owner <;> rfl
    | @compare owner query moves hscreen hwindow =>
      rw [View.sight, ← hwindow.sight owner]
      unfold Device.sight
      rw [hscreen]
      cases owner <;> rfl
  rw [Device.observe, Session.observe, h.wire, hsight, h.phase]

theorem boot_represents (s : Suite) (apdu : Buffer ioApduBufferSize) :
    Represents s (boot apdu) .start :=
  ⟨boot_inv apdu, rfl, rfl, fun _ => SignTxContext.zero_holds, .menu rfl⟩

/-- A chunk, a key that is approved and looked through, a refused request, and a reset. -/
def sampleSession : List Event :=
  [.apdu (command insSignMessage p1Silent p2More [1, 0, 0]),
    .apdu (command insGetPublicKey p1Confirm p2Hex (bufferFromBip32 [44])), .button 0, approval,
    .button buttonRight, .apdu (command insEcho 0 0 [1]), .apdu [0xE0, 4],
    .ioThrow SdkException.ioReset.code]

end Runs

end IostLedger
