import IostLedger.Device

/-! `ui.c`, the menu buttons of the SDK, and the approve and compare screens, which
`sign_message.c` and `get_public_key.c` define in the same way over their own contexts. -/
namespace IostLedger
open Memory Exec

def buttonLeft : UInt32 := 1
def buttonRight : UInt32 := 2
def buttonEvtFast : UInt32 := 0x40000000
def buttonEvtReleased : UInt32 := 0x80000000

/-- `ui_idle`. -/
def uiIdle (d : Device) : Device := { d with screen := .menu .main 0 }

/-- `ui_shift_msg`. -/
def uiShiftMsg (c : UiContext) : Checked UiContext := do
  let part ← inRange (c.msgBody.read? c.displayIndex displaySize)
  let partialMsg ← inRange (c.partialMsg.write? 0 part)
  pure { c with partialMsg := partialMsg }

/-- `ui_clear_context`. -/
def uiClearContext (_ : UiContext) : UiContext := .zero

/-- `ui_compare_button` without its call of `ui_idle`, which the second component asks
for. The bound on `display_index` is a difference of `int`s. -/
def uiCompareButton (c : UiContext) (buttonMask : UInt32) : Checked (UiContext × Bool) :=
  if buttonMask = buttonLeft ∨ buttonMask = buttonEvtFast ||| buttonLeft then do
    let c ← uiShiftMsg
      (if 0 < c.displayIndex then { c with displayIndex := c.displayIndex - 1 } else c)
    pure (c, false)
  else if buttonMask = buttonRight ∨ buttonMask = buttonEvtFast ||| buttonRight then do
    let c ← uiShiftMsg
      (if (c.displayIndex : ℤ) < (c.msgLength : ℤ) - displaySize then
        { c with displayIndex := (c.displayIndex + 1) % 2 ^ 8 } else c)
    pure (c, false)
  else if buttonMask = buttonEvtReleased ||| buttonLeft ||| buttonRight then
    pure (uiClearContext c, true)
  else pure (c, false)

/-- `ui_compare_msg`. -/
def uiCompareMsg (c : UiContext) : Checked UiContext := do
  let part ← inRange (c.msgBody.read? 0 displaySize)
  let partialMsg ← inRange (c.partialMsg.write? 0 part)
  let partialMsg ← inRange (partialMsg.set? displaySize 0)
  pure { c with partialMsg := partialMsg, displayIndex := 0 }

/-- The number of entries of `menu_main` and `menu_about`. -/
def MenuId.entriesCount : MenuId → ℕ
  | .main => 3
  | .about => 2

/-- The second case of `ux_menu_elements_button`: enter a menu, or call back. -/
def uxMenuEnter (entries : MenuId) (currentEntry : ℕ) (d : Device) : Device :=
  match entries, currentEntry with
  | .main, 1 => { d with screen := .menu .about 0 }
  | .main, 2 => { d with phase := .exited }
  | .about, 1 => { d with screen := .menu .main 0 }
  | _, _ => d

/-- `ux_menu_elements_button`. -/
def uxMenuElementsButton (entries : MenuId) (currentEntry : ℕ) (buttonMask : UInt32)
    (d : Device) : Device :=
  if buttonMask = buttonEvtReleased ||| buttonLeft ||| buttonRight then
    uxMenuEnter entries currentEntry d
  else if buttonMask = buttonEvtFast ||| buttonLeft ∨
      buttonMask = buttonEvtReleased ||| buttonLeft then
    if currentEntry = 0 then d else { d with screen := .menu entries (currentEntry - 1) }
  else if buttonMask = buttonEvtFast ||| buttonRight ∨
      buttonMask = buttonEvtReleased ||| buttonRight then
    if entries.entriesCount - 1 ≤ currentEntry then d
    else { d with screen := .menu entries (currentEntry + 1) }
  else d

/-- The two handlers with a static context of their own. -/
inductive Owner where
  | signMessage | getPublicKey
  deriving DecidableEq, Repr

namespace Owner

def ui : Owner → Device → UiContext
  | .signMessage, d => d.sign.ui
  | .getPublicKey, d => d.pk.ui

def setUi (ui : UiContext) : Owner → Device → Device
  | .signMessage, d => { d with sign := { d.sign with ui := ui } }
  | .getPublicKey, d => { d with pk := { d.pk with ui := ui } }

def outputLength : Owner → Device → ℕ
  | .signMessage, d => d.sign.outputLength
  | .getPublicKey, d => d.pk.outputLength

def setOutputLength (length : ℕ) : Owner → Device → Device
  | .signMessage, d => { d with sign := { d.sign with outputLength := length } }
  | .getPublicKey, d => { d with pk := { d.pk with outputLength := length } }

/-- `clear_context_sign_message` and `clear_context_get_public_key`. -/
def clearContext : Owner → Device → Device
  | .signMessage, d => { d with sign := .zero }
  | .getPublicKey, d => { d with pk := .zero }

def approveScreen : Owner → Screen
  | .signMessage => .signMessageApprove
  | .getPublicKey => .getPublicKeyApprove

def compareScreen : Owner → Screen
  | .signMessage => .signMessageCompare
  | .getPublicKey => .getPublicKeyCompare

/-- The other handler. -/
def other : Owner → Owner
  | .signMessage => .getPublicKey
  | .getPublicKey => .signMessage

variable (owner : Owner) (d : Device) (u : UiContext) (length : ℕ)

@[simp] theorem ui_setUi : owner.ui (owner.setUi u d) = u := by cases owner <;> rfl

@[simp] theorem outputLength_setUi :
    owner.outputLength (owner.setUi u d) = owner.outputLength d := by cases owner <;> rfl

@[simp] theorem ui_setOutputLength :
    owner.ui (owner.setOutputLength length d) = owner.ui d := by cases owner <;> rfl

@[simp] theorem outputLength_setOutputLength :
    owner.outputLength (owner.setOutputLength length d) = length := by cases owner <;> rfl

@[simp] theorem setUi_apdu : (owner.setUi u d).apdu = d.apdu := by cases owner <;> rfl
@[simp] theorem setUi_screen : (owner.setUi u d).screen = d.screen := by cases owner <;> rfl
@[simp] theorem setUi_apduState : (owner.setUi u d).apduState = d.apduState := by
  cases owner <;> rfl
@[simp] theorem setUi_flags : (owner.setUi u d).flags = d.flags := by cases owner <;> rfl
@[simp] theorem setUi_tx : (owner.setUi u d).tx = d.tx := by cases owner <;> rfl
@[simp] theorem setUi_phase : (owner.setUi u d).phase = d.phase := by cases owner <;> rfl
@[simp] theorem setUi_wire : (owner.setUi u d).wire = d.wire := by cases owner <;> rfl

@[simp] theorem setOutputLength_apdu : (owner.setOutputLength length d).apdu = d.apdu := by
  cases owner <;> rfl
@[simp] theorem setOutputLength_screen : (owner.setOutputLength length d).screen = d.screen := by
  cases owner <;> rfl
@[simp] theorem setOutputLength_apduState :
    (owner.setOutputLength length d).apduState = d.apduState := by cases owner <;> rfl
@[simp] theorem setOutputLength_flags : (owner.setOutputLength length d).flags = d.flags := by
  cases owner <;> rfl
@[simp] theorem setOutputLength_tx : (owner.setOutputLength length d).tx = d.tx := by
  cases owner <;> rfl
@[simp] theorem setOutputLength_phase : (owner.setOutputLength length d).phase = d.phase := by
  cases owner <;> rfl
@[simp] theorem setOutputLength_wire : (owner.setOutputLength length d).wire = d.wire := by
  cases owner <;> rfl

@[simp] theorem clearContext_apdu : (owner.clearContext d).apdu = d.apdu := by cases owner <;> rfl
@[simp] theorem clearContext_screen : (owner.clearContext d).screen = d.screen := by
  cases owner <;> rfl
@[simp] theorem clearContext_apduState : (owner.clearContext d).apduState = d.apduState := by
  cases owner <;> rfl
@[simp] theorem clearContext_flags : (owner.clearContext d).flags = d.flags := by
  cases owner <;> rfl
@[simp] theorem clearContext_tx : (owner.clearContext d).tx = d.tx := by cases owner <;> rfl
@[simp] theorem clearContext_phase : (owner.clearContext d).phase = d.phase := by
  cases owner <;> rfl
@[simp] theorem clearContext_wire : (owner.clearContext d).wire = d.wire := by cases owner <;> rfl

end Owner

/-- `compare_signature` and `compare_pk`. -/
def compareExport (owner : Owner) : Run Unit := do
  let d ← get
  let ui ← ofChecked (uiCompareMsg (owner.ui d))
  modify (owner.setUi ui)
  modify fun d => { d with screen := owner.compareScreen }

/-- The button handler of an approve screen. -/
def uiApproveButton (owner : Owner) (buttonMask : UInt32) : Run Unit := do
  let d ← get
  if buttonMask = buttonEvtReleased ||| buttonLeft then do
    ioExchangeStatus swUserRejected 0
    modify owner.clearContext
    modify uiIdle
  else if buttonMask = buttonEvtReleased ||| buttonRight then do
    ioExchangeStatus swOk ((owner.outputLength d + 1) % 2 ^ 16)
    modify owner.clearContext
    modify (owner.setUi (owner.ui d))
    compareExport owner
  else pure ()

def uiSignMessageApproveButton : UInt32 → Run Unit := uiApproveButton .signMessage

def uiGetPublicKeyApproveButton : UInt32 → Run Unit := uiApproveButton .getPublicKey

/-- The button handler of a compare screen. -/
def uiExportCompareButton (owner : Owner) (buttonMask : UInt32) : Run Unit := do
  let d ← get
  let (ui, idle) ← ofChecked (uiCompareButton (owner.ui d) buttonMask)
  modify (owner.setUi ui)
  if idle then modify uiIdle else pure ()

def uiSignMessageCompareButton : UInt32 → Run Unit := uiExportCompareButton .signMessage

def uiGetPublicKeyCompareButton : UInt32 → Run Unit := uiExportCompareButton .getPublicKey

/-- `UX_BUTTON_PUSH_EVENT`: the handler of the active screen. -/
def buttonPush (buttonMask : UInt32) : Run Unit := do
  let d ← get
  match d.screen with
  | .menu entries currentEntry => modify (uxMenuElementsButton entries currentEntry buttonMask)
  | .signMessageApprove => uiSignMessageApproveButton buttonMask
  | .signMessageCompare => uiSignMessageCompareButton buttonMask
  | .getPublicKeyApprove => uiGetPublicKeyApproveButton buttonMask
  | .getPublicKeyCompare => uiGetPublicKeyCompareButton buttonMask

end IostLedger
