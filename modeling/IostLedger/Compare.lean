import IostLedger.Consent

/-! The compare screen: the window on the exported text, where the arrows move it, and which
text it is. -/
namespace IostLedger
open Memory Exec Machine

def leftIconId : ℕ := 1
def rightIconId : ℕ := 2

/-- `ui_prepro_compare`: whether the element with this user id is shown. -/
def uiPreproCompare (context : UiContext) (userid : ℕ) : Bool :=
  if userid = leftIconId ∧ context.displayIndex = 0 then false
  else if userid = rightIconId ∧
      (context.displayIndex : ℤ) = (context.msgLength : ℤ) - displaySize then false
  else true

/-! The walk of the window. -/

inductive Move where
  | left | right
  deriving DecidableEq, Repr

/-- One step of a walk between 0 and `last`. -/
def Move.apply (last i : ℕ) : Move → ℕ
  | .left => i - 1
  | .right => min (i + 1) last

/-- The position of a walk that starts at `i`. -/
def walk (last : ℕ) : ℕ → List Move → ℕ
  | i, [] => i
  | i, move :: moves => walk last (move.apply last i) moves

theorem Move.apply_le {last i : ℕ} (h : i ≤ last) (move : Move) : move.apply last i ≤ last := by
  cases move with
  | left => exact (Nat.sub_le i 1).trans h
  | right => exact Nat.min_le_right _ _

/-- Right moves alone go as far as they can. -/
theorem walk_rights {last i : ℕ} (h : i ≤ last) (k : ℕ) :
    walk last i (List.replicate k .right) = min (i + k) last := by
  induction k generalizing i with
  | zero => simpa [walk] using h
  | succ k ih =>
    rw [List.replicate_succ, walk, ih (Move.apply_le h .right), Move.apply]
    omega

/-- An arrow event of the compare screen: a press, or its fast repetition. -/
structure Press where
  move : Move
  fast : Bool
  deriving DecidableEq, Repr

/-- The button mask of an arrow event. -/
def Press.mask : Press → UInt32
  | ⟨.left, false⟩ => buttonLeft
  | ⟨.left, true⟩ => buttonEvtFast ||| buttonLeft
  | ⟨.right, false⟩ => buttonRight
  | ⟨.right, true⟩ => buttonEvtFast ||| buttonRight

def Press.event (press : Press) : Event := .button press.mask

/-! The window. -/

/-- The ui context holds `text` with its terminator. -/
structure HoldsText (text : Bytes) (u : UiContext) : Prop where
  body : u.msgBody.bytes.take (text.length + 1) = text ++ [0]
  msgLength : u.msgLength = text.length
  room : displaySize ≤ text.length ∧ text.length ≤ 128

/-- The window stands at index `i` of `text`, with the arrows that lead on. -/
structure ShowsWindow (text : Bytes) (i : ℕ) (u : UiContext) : Prop extends HoldsText text u where
  displayIndex : u.displayIndex = i
  partialMsg : u.partialMsg.bytes = (text.drop i).take displaySize ++ [0]
  leftIcon : uiPreproCompare u leftIconId = false ↔ i = 0
  rightIcon : uiPreproCompare u rightIconId = false ↔ i = text.length - displaySize
  others : ∀ userid, userid ≠ leftIconId → userid ≠ rightIconId → uiPreproCompare u userid = true

section Window
variable {text : Bytes} {i : ℕ} {u : UiContext}

/-- A window inside the text is read from the text. -/
theorem HoldsText.read (h : HoldsText text u) (hi : i + displaySize ≤ text.length) :
    u.msgBody.read? i displaySize = some ((text.drop i).take displaySize) := by
  have hroom := h.room.2
  have hcut : (u.msgBody.bytes.drop i).take displaySize =
      ((u.msgBody.bytes.take (text.length + 1)).drop i).take displaySize := by
    rw [List.drop_take, List.take_take, Nat.min_eq_left (by omega)]
  rw [Buffer.read?_of_le (by simp only [displaySize] at hi ⊢; omega), hcut, h.body,
    List.drop_append_of_le_length (by omega), List.take_append_of_le_length]
  rw [List.length_drop]
  omega

theorem ShowsWindow.of_window (h : HoldsText text u) (hi : i + displaySize ≤ text.length)
    (hindex : u.displayIndex = i)
    (hsome : u.partialMsg.bytes = (text.drop i).take displaySize ++ [0]) :
    ShowsWindow text i u := by
  have hlength := h.msgLength
  constructor
  · exact h
  · exact hindex
  · exact hsome
  · simp [uiPreproCompare, leftIconId, rightIconId, hindex]
  · simp [uiPreproCompare, leftIconId, rightIconId, hindex, hlength]
    omega
  · intro userid hleft hright
    simp [uiPreproCompare, hleft, hright]

theorem window_length (hi : i + displaySize ≤ text.length) :
    ((text.drop i).take displaySize).length = displaySize := by
  rw [List.length_take, List.length_drop]
  omega

/-- The window moved to `i`; its terminator stays. -/
theorem uiShiftMsg_window (h : HoldsText text u) (hi : i + displaySize ≤ text.length)
    (hindex : u.displayIndex = i) (hend : u.partialMsg.bytes.drop displaySize = [0]) :
    ∃ u', uiShiftMsg u = .ok u' ∧ ShowsWindow text i u' := by
  subst hindex
  have hlen := window_length hi
  have hfit : 0 + ((text.drop u.displayIndex).take displaySize).length ≤ displaySize + 1 := by
    omega
  let u' := { u with
    partialMsg := u.partialMsg.splice 0 ((text.drop u.displayIndex).take displaySize) }
  have hu' : HoldsText text u' := ⟨h.body, h.msgLength, h.room⟩
  refine ⟨u', ?_, ?_⟩
  · simp only [uiShiftMsg, bind, Except.bind, h.read hi, inRange_some, Buffer.write?_of_le hfit]
    rfl
  · apply ShowsWindow.of_window hu' hi rfl
    rw [Buffer.splice_bytes hfit, List.take_zero, List.nil_append, Nat.zero_add, hlen, hend]

theorem uiCompareMsg_window (h : HoldsText text u) :
    ∃ u', uiCompareMsg u = .ok u' ∧ ShowsWindow text 0 u' := by
  have hi : 0 + displaySize ≤ text.length := by simpa using h.room.1
  have hlen := window_length hi
  have hfit : 0 + ((text.drop 0).take displaySize).length ≤ displaySize + 1 := by omega
  have hends : (u.partialMsg.splice 0 ((text.drop 0).take displaySize)).bytes.take displaySize =
      (text.drop 0).take displaySize := Buffer.take_splice_start (by omega) hlen.symm
  let u' := { u with
    partialMsg := (u.partialMsg.splice 0 ((text.drop 0).take displaySize)).splice displaySize [0]
    displayIndex := 0 }
  have hu' : HoldsText text u' := ⟨h.body, h.msgLength, h.room⟩
  refine ⟨u', ?_, ?_⟩
  · simp only [uiCompareMsg, bind, Except.bind, h.read hi, inRange_some,
      Buffer.write?_of_le hfit, Buffer.set?_of_lt (Nat.lt_succ_self displaySize)]
    rfl
  · apply ShowsWindow.of_window hu' hi rfl
    have hlast : ∀ b : Buffer (displaySize + 1), (b.splice displaySize [0]).bytes =
        b.bytes.take displaySize ++ [0] := by
      intro b
      rw [Buffer.splice_bytes (by simp), List.drop_of_length_le (by simp), List.append_nil]
    rw [hlast, hends]

theorem ShowsWindow.inside (h : ShowsWindow text i u) (hi : i ≤ text.length - displaySize) :
    i + displaySize ≤ text.length := by
  have hroom := h.room.1
  omega

theorem ShowsWindow.terminator (h : ShowsWindow text i u) (hi : i + displaySize ≤ text.length) :
    u.partialMsg.bytes.drop displaySize = [0] := by
  rw [h.partialMsg, List.drop_append_of_le_length (by rw [window_length hi]),
    List.drop_of_length_le (by rw [window_length hi]), List.nil_append]

/-- The index after a left event does not pass 0. -/
theorem ShowsWindow.left (h : ShowsWindow text i u) (hi : i ≤ text.length - displaySize) :
    ∃ u', uiShiftMsg (if 0 < u.displayIndex then { u with displayIndex := u.displayIndex - 1 }
        else u) = .ok u' ∧ ShowsWindow text (Move.left.apply (text.length - displaySize) i) u' := by
  have hinside := h.inside hi
  have hend := h.terminator hinside
  have hindex := h.displayIndex
  have hstep : Move.left.apply (text.length - displaySize) i = i - 1 := rfl
  rw [hstep]
  split_ifs with hpos
  · have hheld : HoldsText text { u with displayIndex := u.displayIndex - 1 } :=
      ⟨h.body, h.msgLength, h.room⟩
    exact uiShiftMsg_window hheld (by omega) (by simp only [hindex]) hend
  · exact uiShiftMsg_window h.toHoldsText (by omega) (by omega) hend

/-- The index after a right event does not pass the last window, and does not wrap. -/
theorem ShowsWindow.right (h : ShowsWindow text i u) (hi : i ≤ text.length - displaySize) :
    ∃ u', uiShiftMsg (if (u.displayIndex : ℤ) < (u.msgLength : ℤ) - displaySize then
        { u with displayIndex := (u.displayIndex + 1) % 2 ^ 8 } else u) = .ok u' ∧
      ShowsWindow text (Move.right.apply (text.length - displaySize) i) u' := by
  have hinside := h.inside hi
  have hend := h.terminator hinside
  have hindex := h.displayIndex
  have hlength := h.msgLength
  have hroom := h.room.2
  have hstep : Move.right.apply (text.length - displaySize) i =
      min (i + 1) (text.length - displaySize) := rfl
  rw [hstep]
  split_ifs with hlast
  · have hheld : HoldsText text { u with displayIndex := (u.displayIndex + 1) % 2 ^ 8 } :=
      ⟨h.body, h.msgLength, h.room⟩
    apply uiShiftMsg_window hheld (by omega) _ hend
    simp only [hindex]
    omega
  · exact uiShiftMsg_window h.toHoldsText (by omega) (by omega) hend

/-- An arrow event moves the window one step of its walk. -/
theorem uiCompareButton_press (h : ShowsWindow text i u) (hi : i ≤ text.length - displaySize)
    (press : Press) :
    ∃ u', uiCompareButton u press.mask = .ok (u', false) ∧
      ShowsWindow text (press.move.apply (text.length - displaySize) i) u' := by
  rcases press with ⟨move, fast⟩
  cases move with
  | left =>
    obtain ⟨u', hrun, hshows⟩ := h.left hi
    have hmask : (Press.mk .left fast).mask = buttonLeft ∨
        (Press.mk .left fast).mask = buttonEvtFast ||| buttonLeft := by
      cases fast <;> simp [Press.mask]
    refine ⟨u', ?_, hshows⟩
    rw [uiCompareButton, if_pos hmask, hrun]
    rfl
  | right =>
    obtain ⟨u', hrun, hshows⟩ := h.right hi
    have hmask : (Press.mk .right fast).mask = buttonRight ∨
        (Press.mk .right fast).mask = buttonEvtFast ||| buttonRight := by
      cases fast <;> simp [Press.mask]
    have hother : ¬ ((Press.mk .right fast).mask = buttonLeft ∨
        (Press.mk .right fast).mask = buttonEvtFast ||| buttonLeft) := by
      cases fast <;> decide
    refine ⟨u', ?_, hshows⟩
    rw [uiCompareButton, if_neg hother, if_pos hmask, hrun]
    rfl

end Window

/-! The screen and its events. -/

/-- Both buttons released on the compare screen. -/
def bothReleased : UInt32 := buttonEvtReleased ||| buttonLeft ||| buttonRight

section Screen
variable {crypto : Crypto} {owner : Owner} {d : Device} {text : Bytes} {i : ℕ}

/-- The device waits at the compare screen, with the window at index `i` of `text`. -/
structure AtWindow (owner : Owner) (text : Bytes) (i : ℕ) (d : Device) : Prop where
  phase : d.phase = .waiting
  screen : d.screen = owner.compareScreen
  shows : ShowsWindow text i (owner.ui d)

theorem step_compare {mask : UInt32} {u : UiContext} {idle : Bool} (hphase : d.phase = .waiting)
    (hscreen : d.screen = owner.compareScreen)
    (hrun : uiCompareButton (owner.ui d) mask = .ok (u, idle)) :
    step crypto d (.button mask) = some (if idle then uiIdle (owner.setUi u { d with wire := [] })
      else owner.setUi u { d with wire := [] }) := by
  have hsame : owner.ui { d with wire := [] } = owner.ui d := by cases owner <;> rfl
  have hpush : (buttonPush mask).run { d with wire := [] } =
      (uiExportCompareButton owner mask).run { d with wire := [] } := buttonPush_compare hscreen
  rw [step, if_pos hphase, handleButton, hpush]
  simp only [uiExportCompareButton, EStateM.run_bind, EStateM.run_get, hsame, hrun,
    run_ofChecked_ok, EStateM.run_modify]
  cases idle <;> rfl

variable (crypto) in
theorem AtWindow.press (h : AtWindow owner text i d) (hi : i ≤ text.length - displaySize)
    (press : Press) :
    ∃ d', step crypto d press.event = some d' ∧
      AtWindow owner text (press.move.apply (text.length - displaySize) i) d' := by
  obtain ⟨u, hrun, hshows⟩ := uiCompareButton_press h.shows hi press
  refine ⟨_, step_compare h.phase h.screen hrun, ?_⟩
  constructor
  · simpa using h.phase
  · simpa using h.screen
  · simpa using hshows

variable (crypto) in
/-- Any sequence of arrow events walks the window through the text. -/
theorem AtWindow.presses (h : AtWindow owner text i d) (hi : i ≤ text.length - displaySize)
    (presses : List Press) :
    ∃ d', (app crypto).run d (presses.map Press.event) = some d' ∧
      AtWindow owner text (walk (text.length - displaySize) i (presses.map Press.move)) d' := by
  induction presses generalizing i d with
  | nil => exact ⟨d, rfl, h⟩
  | cons press presses ih =>
    obtain ⟨d₁, hstep, h₁⟩ := h.press crypto hi press
    obtain ⟨d', hrun, h'⟩ := ih h₁ (press.move.apply_le hi)
    have hcons : (app crypto).run d ((press :: presses).map Press.event) =
        (app crypto).run d₁ (presses.map Press.event) := run_cons _ hstep _
    exact ⟨d', hcons.trans hrun, h'⟩

/-- Both buttons zero the ui context and return to the menu. -/
theorem AtWindow.both (h : AtWindow owner text i d) :
    ∃ d', step crypto d (.button bothReleased) = some d' ∧ owner.ui d' = .zero ∧
      d'.screen = .menu .main 0 := by
  have hleft : ¬ (bothReleased = buttonLeft ∨ bothReleased = buttonEvtFast ||| buttonLeft) := by
    decide
  have hright : ¬ (bothReleased = buttonRight ∨ bothReleased = buttonEvtFast ||| buttonRight) := by
    decide
  have hboth : bothReleased = buttonEvtReleased ||| buttonLeft ||| buttonRight := rfl
  have hrun : uiCompareButton (owner.ui d) bothReleased = .ok (.zero, true) := by
    rw [uiCompareButton, if_neg hleft, if_neg hright, if_pos hboth]
    rfl
  refine ⟨_, step_compare h.phase h.screen hrun, ?_, rfl⟩
  cases owner <;> rfl

end Screen

/-! The text behind a prompt. -/

/-- A prompt over `data`: its text is in the ui context and its payload in the APDU buffer. -/
def PromptsFor (owner : Owner) (p2 : UInt8) (d d' : Device) : Prop :=
  ∃ data b d₀, data.length ≤ 64 ∧ d₀.wire = d.wire ∧ d₀.tx = d.tx ∧
    d' = prompted owner b (exported owner p2 data 0 d₀)

section Exported
variable {crypto : Crypto} {d : Device} {buffer bufferLength : ℕ}

theorem finishExport_prompts (owner : Owner) (p1 : UInt8) (path : List UInt32) :
    Wp (finishExport owner p1 (promptLabel owner ++ ascii "%u?") path)
      (fun _ d' => ∃ b, d' = prompted owner b d) (fun _ _ => True) d := by
  rw [finishExport, wp_ite]
  constructor
  · intro _
    rw [wp_of_run_error (replyExport_run owner d)]
    trivial
  · intro _
    obtain ⟨b, -, hrun⟩ := uxApprove_run (promptLabel_ok owner) path owner d
    rw [wp_of_run_ok hrun]
    exact ⟨b, rfl⟩

theorem handleSignMessage_prompts (p1 p2 : UInt8) (hd : d.Bounded) (htx : d.tx = 0)
    (hfit : buffer + bufferLength ≤ ioApduBufferSize) :
    Wp (handleSignMessage crypto p1 p2 buffer bufferLength)
      (fun _ d' => PromptsFor .signMessage p2 d d') (fun _ _ => True) d := by
  simp only [handleSignMessage, wp_bind, wp_get]
  rcases ioCheckP1P2_cases p1 p2 with hcheck | hcheck
  swap
  · rw [hcheck, wp_ofChecked]
    exact ⟨by simp, by simp⟩
  rw [hcheck, wp_ofChecked_ok]
  simp only [withSign, wp_onPart]
  apply (@readMessage_wp crypto _ _ _ _ hfit hd.sign.msgLength).mono _ fun _ _ _ => trivial
  rintro - c ⟨-, hlen, -, -⟩
  simp only [wp_ite, wp_bind, wp_onPart, wp_get, wp_throwCode, implies_true, and_true]
  intro _
  apply (signMessage_wp crypto _ hlen).mono _ fun _ _ _ => trivial
  rintro signature c' ⟨hsig, hout, -, -⟩
  rcases ioReadBip32_ok_or c'.msgBody c'.msgLength
    (show 0 + 21 ≤ maxMsgSize by decide) with ⟨path, -, -, hread⟩ | hread
  swap
  · rw [hread, wp_ofChecked]
    exact ⟨by simp, by simp⟩
  have hroom : d.tx + 128 < ioApduBufferSize := by
    rw [htx]
    decide
  rw [hread, wp_ofChecked_ok, wp_of_run_ok (exportSignature_run hsig hout hroom)]
  apply (finishExport_prompts .signMessage p1 path).mono _ fun _ _ h => h
  rintro - d' ⟨b, rfl⟩
  exact ⟨signature, b, { d with sign := c' }, hsig, rfl, rfl, by rw [htx]⟩

theorem handleGetPublicKey_prompts (p1 p2 : UInt8) (htx : d.tx = 0)
    (hfit : buffer + 21 ≤ ioApduBufferSize) :
    Wp (handleGetPublicKey crypto p1 p2 buffer bufferLength)
      (fun _ d' => PromptsFor .getPublicKey p2 d d') (fun _ _ => True) d := by
  simp only [handleGetPublicKey, wp_bind, wp_get]
  rcases ioCheckP1P2_cases p1 p2 with hcheck | hcheck
  swap
  · rw [hcheck, wp_ofChecked]
    exact ⟨by simp, by simp⟩
  rw [hcheck, wp_ofChecked_ok]
  rcases ioReadBip32_ok_or d.apdu bufferLength hfit with ⟨path, -, -, hread⟩ | hread
  swap
  · rw [hread, wp_ofChecked]
    exact ⟨by simp, by simp⟩
  rw [hread, wp_ofChecked_ok]
  apply (getPk_wp crypto path p2 htx).mono _ fun _ _ _ => trivial
  rintro - - ⟨point, rfl⟩
  have hlen := encode_length point
  apply (finishExport_prompts .getPublicKey p1 path).mono _ fun _ _ h => h
  rintro - d' ⟨b, rfl⟩
  exact ⟨iostExtractBytesFromPublicKey point, b, derived point d, by omega, rfl, rfl, by rw [htx]⟩

/-- Where an APDU ends without an exception it prompts in the format of its P2. -/
theorem processApdu_prompts {rx : ℕ} (hd : d.Bounded) (htx : d.tx = 0) :
    Wp (processApdu crypto rx)
      (fun _ d' => 5 ≤ rx ∧ ((∃ owner, PromptsFor owner (d.header offsetP2) d d') ∨
        d' = dashboard d)) (fun _ _ => True) d := by
  have hlc := (d.header offsetLc).toNat_lt
  simp only [processApdu, wp_bind, wp_get, wp_ite, wp_throwCode, implies_true, true_and]
  intro _ _ _ hlen
  have hrx : 5 ≤ rx := by
    simp only [ne_eq, not_not, apduMaxSize] at hlen
    omega
  simp only [dispatch, wp_ite, wp_bind, wp_modify, wp_throwCode, implies_true, true_and]
  intro _ _
  constructor
  · intro _
    rw [wp_of_run_error (handleGetConfiguration_run htx)]
    trivial
  intro _
  constructor
  · intro _
    apply (handleGetPublicKey_prompts _ _ htx (by decide)).mono _ fun _ _ h => h
    intro _ d' h
    exact ⟨hrx, Or.inl ⟨_, h⟩⟩
  intro _
  constructor
  · intro _
    have hfit : offsetCdata + (d.header offsetLc).toNat ≤ ioApduBufferSize := by
      simp only [offsetCdata, ioApduBufferSize]
      omega
    apply (handleSignMessage_prompts _ _ hd htx hfit).mono _ fun _ _ h => h
    intro _ d' h
    exact ⟨hrx, Or.inl ⟨_, h⟩⟩
  intro _
  constructor
  · intro _
    exact ⟨hrx, Or.inr rfl⟩
  · trivial

end Exported

/-- What the compare screen offers for `text`: every sequence of arrow events walks the window,
both buttons leave, and each character comes into the window. -/
structure Compares (crypto : Crypto) (owner : Owner) (text : Bytes) (d : Device) : Prop where
  walks : ∀ presses : List Press, ∃ d', (app crypto).run d (presses.map Press.event) = some d' ∧
    AtWindow owner text (walk (text.length - displaySize) 0 (presses.map Press.move)) d' ∧
    ∃ d'', step crypto d' (.button bothReleased) = some d'' ∧ owner.ui d'' = .zero ∧
      d''.screen = .menu .main 0
  rights : ∀ k, ∃ d', (app crypto).run d (List.replicate k (.button buttonRight)) = some d' ∧
    AtWindow owner text (min k (text.length - displaySize)) d'
  covers : ∀ j < text.length, ∃ k d' c,
    (app crypto).run d (List.replicate k (.button buttonRight)) = some d' ∧ c < displaySize ∧
      (owner.ui d').partialMsg.bytes[c]? = text[j]?

section Approve
variable {crypto : Crypto} {owner : Owner} {d d' : Device} {text : Bytes}

/-- The characters of the window are those of the text. -/
theorem ShowsWindow.char {i j : ℕ} {u : UiContext} (h : ShowsWindow text i u) (hij : i ≤ j)
    (hj : j < i + displaySize) (hlt : j < text.length) :
    u.partialMsg.bytes[j - i]? = text[j]? := by
  have hlen : j - i < ((text.drop i).take displaySize).length := by
    rw [List.length_take, List.length_drop]
    omega
  rw [h.partialMsg, List.getElem?_append_left hlen, List.getElem?_take_of_lt (by omega),
    List.getElem?_drop]
  congr 1
  omega

variable (crypto) in
theorem AtWindow.rights (h : AtWindow owner text 0 d) (k : ℕ) :
    ∃ d', (app crypto).run d (List.replicate k (.button buttonRight)) = some d' ∧
      AtWindow owner text (min k (text.length - displaySize)) d' := by
  obtain ⟨d', hrun, h'⟩ := h.presses crypto (Nat.zero_le _)
    (List.replicate k ⟨.right, false⟩)
  rw [List.map_replicate] at hrun h'
  rw [walk_rights (Nat.zero_le _), Nat.zero_add] at h'
  exact ⟨d', hrun, h'⟩

theorem AtWindow.compares (h : AtWindow owner text 0 d) : Compares crypto owner text d := by
  constructor
  · intro presses
    obtain ⟨d', hrun, h'⟩ := h.presses crypto (Nat.zero_le _) presses
    exact ⟨d', hrun, h', h'.both⟩
  · exact h.rights crypto
  · intro j hj
    obtain ⟨d', hrun, h'⟩ := h.rights crypto j
    have hinside : j < min j (text.length - displaySize) + displaySize := by
      simp only [displaySize]
      omega
    refine ⟨j, d', j - min j (text.length - displaySize), hrun, by omega, ?_⟩
    exact h'.shows.char (Nat.min_le_left _ _) hinside hj

/-- A prompt has exported the text that it keeps. -/
theorem step_prompts {bytes : Bytes} (hinv : d.Inv) (hstep : step crypto d (.apdu bytes) = some d')
    (hscreen : d'.screen = owner.approveScreen) :
    ∃ data b d₀, data.length ≤ 64 ∧ d₀.wire = [] ∧
      d' = prompted owner b (exported owner (bytes.getD 3 0) data 0 d₀) := by
  obtain ⟨hbusy, hwait⟩ := prompt_open hinv hstep hscreen
  obtain ⟨hphase, ⟨-, hpos, hlen, -⟩, rfl⟩ := step_apdu hstep
  have hbounded : (received bytes d).Bounded := ⟨hinv.bounded.sign, hinv.bounded.pk⟩
  have htx : (received bytes d).tx = 0 := hinv.tx hphase
  obtain ⟨d₁, hrun, hfinal⟩ := handleApdu_open crypto hbounded htx rfl rfl hphase hpos hbusy hwait
  have hprompts := (wp_of_run_ok hrun).mp (processApdu_prompts hbounded htx)
  rw [hfinal] at hscreen hwait ⊢
  rcases hprompts with ⟨hrx, ⟨owner', data, b, d₀, hdata, hwire, htx₀, rfl⟩ | rfl⟩
  · have howner : owner' = owner := by
      revert hscreen
      cases owner' <;> cases owner <;> simp [prompted, Owner.approveScreen]
    subst howner
    have hp2 : (received bytes d).header offsetP2 = bytes.getD 3 0 :=
      received_header hlen (by simp only [offsetP2]; omega)
    refine ⟨data, b, d₀, hdata, hwire, ?_⟩
    rw [← hp2, setTx_self]
    simp [prompted, exported, htx₀, htx]
  · cases hwait

/-- A button event that ends at a prompt has been ignored there. -/
theorem button_keeps_prompt {mask : UInt32} (hinv : d.Inv)
    (hstep : step crypto d (.button mask) = some d') (hscreen : d'.screen = owner.approveScreen) :
    d' = { d with wire := [] } := by
  rcases step_button_outcome hinv hstep with @⟨entries, currentEntry, hmenu, rfl⟩ |
    @⟨owner', u, idle, hcompare, -, rfl⟩ | @⟨owner', -, -, rfl⟩ | @⟨owner', u, -, -, -, rfl⟩ |
    ⟨-, -, -, rfl⟩
  · have hmenu : d.screen = .menu entries currentEntry := hmenu
    rcases uxMenuElementsButton_cases entries currentEntry mask { d with wire := [] } with
      h | h | ⟨entries', currentEntry', h⟩ <;> rw [h] at hscreen
    · exact absurd (hmenu.symm.trans hscreen) (approveScreen_ne_menu owner _ _)
    · exact absurd (hmenu.symm.trans hscreen) (approveScreen_ne_menu owner _ _)
    · exact absurd hscreen (approveScreen_ne_menu owner _ _)
  · have hcompare : d.screen = owner'.compareScreen := hcompare
    cases idle
    · simp only [Bool.false_eq_true, if_false, Owner.setUi_screen] at hscreen
      exact absurd (hcompare.symm.trans hscreen) (approveScreen_ne_compare owner' owner)
    · exact absurd hscreen (approveScreen_ne_menu owner _ _)
  · exact absurd hscreen (approveScreen_ne_menu owner _ _)
  · exact absurd hscreen (approveScreen_ne_compare owner' owner)
  · rfl

/-- Where button events end at a prompt, none of them has changed anything. -/
theorem buttons_keep_prompt {masks : List UInt32} (hinv : d.Inv)
    (hrun : (app crypto).run d (masks.map Event.button) = some d')
    (hscreen : d'.screen = owner.approveScreen) :
    d.screen = owner.approveScreen ∧ ({ d' with wire := [] } : Device) = { d with wire := [] } := by
  induction masks generalizing d with
  | nil =>
    obtain rfl := Option.some.inj hrun
    exact ⟨hscreen, rfl⟩
  | cons mask masks ih =>
    obtain ⟨d₁, hstep, hrun⟩ := (run_cons_eq_some _).mp hrun
    have hstep : step crypto d (.button mask) = some d₁ := hstep
    obtain ⟨hscreen₁, hsame⟩ := ih (step_inv hinv hstep) hrun
    obtain rfl := button_keeps_prompt hinv hstep hscreen₁
    exact ⟨hscreen₁, hsame⟩

/-- The text of exported bytes with its terminator. -/
theorem withText_holds {data : Bytes} {u : UiContext} (hdata : data.length ≤ 64)
    (hroom : displaySize ≤ (base58Text data).length) :
    HoldsText (base58Text data) (u.withText data) := by
  have htext := base58Text_length_le data
  constructor
  · apply Buffer.take_splice_start
    · simp only [displaySize, List.length_append, List.length_singleton]
      omega
    · simp
  · rfl
  · exact ⟨hroom, by omega⟩

/-- The approved payload and the text on the compare screen come from the same bytes: the
payload is these bytes in the format of the request, the screen walks through their base-58
text. -/
theorem compare_shows_export {d₁ d₂ : Device} {bytes : Bytes} {masks : List UInt32}
    (hreach : (app crypto).Reachable d)
    (hprompt : (app crypto).run d (.apdu bytes :: masks.map Event.button) = some d₁)
    (hscreen : d₁.screen = owner.approveScreen)
    (happrove : step crypto d₁ approval = some d₂) :
    ∃ data, d₂.wire = [answer (formatPayload (bytes.getD 3 0) data)] ∧
      (displaySize ≤ (base58Text data).length →
        Compares crypto owner (base58Text data) d₂) := by
  have hinv : d.Inv := reachable_inv hreach
  obtain ⟨e, hstep, hmasks⟩ := (run_cons_eq_some _).mp hprompt
  have hstep : step crypto d (.apdu bytes) = some e := hstep
  have hinve : e.Inv := step_inv hinv hstep
  obtain ⟨hscreene, hsame⟩ := buttons_keep_prompt hinve hmasks hscreen
  obtain ⟨hbusy, hwait⟩ := prompt_open hinv hstep hscreene
  obtain ⟨data, b, d₀, hdata, hwire₀, he⟩ := step_prompts hinv hstep hscreene
  have hwiree : e.wire = [] := by
    rw [he, ← hwire₀]
    cases owner <;> rfl
  have hself : ({ e with wire := [] } : Device) = e := by rw [← hwiree]
  obtain ⟨-, hfinal⟩ := step_button happrove
  obtain ⟨u, ⟨-, hcompare⟩, hrun⟩ :=
    uiApproveButton_right owner hinve.bounded hbusy (hinve.tx hwait)
  have hd₂ : d₂ = approved owner u e := by
    rw [hfinal, hsame, hself, handleButton, buttonPush_approve hscreene, hrun]
  refine ⟨data, ?_, ?_⟩
  · rw [hd₂, he, approved_wire hdata, hwire₀]
    rfl
  · intro hroom
    have hui : owner.ui e = ({ owner.ui d₀ with approveL2 := b } : UiContext).withText data := by
      rw [he]
      cases owner <;> rfl
    obtain ⟨u', hcompare', hshows⟩ := uiCompareMsg_window (withText_holds hdata hroom)
    rw [← hui, hcompare] at hcompare'
    obtain rfl := Except.ok.inj hcompare'
    apply AtWindow.compares
    rw [hd₂]
    constructor
    · simpa [approved] using hwait
    · rfl
    · have hkept : owner.ui (approved owner u e) = u := by cases owner <;> rfl
      rw [hkept]
      exact hshows

/-- A request for a key in hexadecimal, with a button that the prompt ignores. -/
def samplePrompt : List Event :=
  .apdu (command insGetPublicKey p1Confirm p2Hex (bufferFromBip32 [0x8000002C])) ::
    [0].map Event.button

theorem compare_shows_export_boot : ∃ d₁ d₂ data,
    (app (Suite.marking [] []).crypto).run (boot (.zero _)) samplePrompt = some d₁ ∧
    step (Suite.marking [] []).crypto d₁ approval = some d₂ ∧
    d₂.wire = [answer (formatPayload p2Hex data)] ∧
    (displaySize ≤ (base58Text data).length →
      Compares (Suite.marking [] []).crypto .getPublicKey (base58Text data) d₂) := by
  have hprompts : ((app (Suite.marking [] []).crypto).run (boot (.zero _)) samplePrompt).map
      Device.screen = some .getPublicKeyApprove := by decide +kernel
  have happroves : (((app (Suite.marking [] []).crypto).run (boot (.zero _)) samplePrompt).bind
      fun d₁ => step (Suite.marking [] []).crypto d₁ approval).isSome = true := by decide +kernel
  obtain ⟨d₁, hrun, hscreen⟩ := Option.map_eq_some_iff.mp hprompts
  obtain ⟨d₂, happrove⟩ := Option.isSome_iff_exists.mp happroves
  rw [hrun, Option.bind_some] at happrove
  have howner : d₁.screen = Owner.getPublicKey.approveScreen := hscreen
  obtain ⟨data, hwire, hcompares⟩ := compare_shows_export
    (reachable_boot (Suite.marking [] []).crypto (.zero _)) hrun howner happrove
  exact ⟨d₁, d₂, data, hrun, happrove, hwire, hcompares⟩

end Approve

end IostLedger
