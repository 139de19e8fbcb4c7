import IostLedger.Session

/-! The texts behind the screens of the device: a window on a text of any length. -/
namespace IostLedger
open Memory Exec Machine

/-! The window on a text of any length. -/

/-- The ui context holds `text` with its terminator. -/
structure TextIn (text : Bytes) (u : UiContext) : Prop where
  body : u.msgBody.bytes.take (text.length + 1) = text ++ [0]
  msgLength : u.msgLength = text.length
  room : text.length ≤ 128
  visible : ∀ c ∈ text, c ≠ 0

/-- The window stands at index `i`. Behind a text that is shorter than the window it shows
what else lies in the buffer, past the terminator. -/
structure WindowIn (text : Bytes) (i : ℕ) (u : UiContext) : Prop extends TextIn text u where
  displayIndex : u.displayIndex = i
  inside : i ≤ text.length - displaySize
  partialMsg : u.partialMsg.bytes = (u.msgBody.bytes.drop i).take displaySize ++ [0]

theorem base58Text_visible {data : Bytes} : ∀ c ∈ base58Text data, c ≠ 0 := by
  have hall : ∀ d : Fin 58, base58Alphabet.getD d 0 ≠ 0 := by decide
  intro c hc
  obtain ⟨d, hd, rfl⟩ := List.mem_map.mp hc
  exact hall ⟨d, Radix.recode_lt (by norm_num) d hd⟩

/-- The text of exported bytes. -/
theorem withText_textIn {data : Bytes} {u : UiContext} (hdata : data.length ≤ 64) :
    TextIn (base58Text data) (u.withText data) := by
  have htext := base58Text_length_le data
  refine ⟨?_, rfl, by omega, base58Text_visible⟩
  apply Buffer.take_splice_start
  · simp only [displaySize, List.length_append, List.length_singleton]
    omega
  · simp

/-- A cleared context shows nothing. -/
theorem zero_windowIn : WindowIn [] 0 .zero := by
  refine ⟨⟨rfl, rfl, Nat.zero_le _, by simp⟩, rfl, Nat.zero_le _, ?_⟩
  decide +kernel

section Window
variable {text : Bytes} {i : ℕ} {u : UiContext}

/-- The body from an index of the window on: the text, its terminator, and the rest. -/
theorem TextIn.drop_body (h : TextIn text u) (hi : i ≤ text.length) :
    ∃ rest, u.msgBody.bytes.drop i = text.drop i ++ 0 :: rest := by
  refine ⟨u.msgBody.bytes.drop (text.length + 1), ?_⟩
  conv_lhs => rw [← List.take_append_drop (text.length + 1) u.msgBody.bytes]
  rw [h.body, List.append_assoc, List.drop_append_of_le_length hi]
  rfl

theorem window_size (hi : i ≤ 128) (b : Buffer (displaySize * displaySize)) :
    ((b.bytes.drop i).take displaySize).length = displaySize := by
  rw [List.length_take, List.length_drop, Buffer.size_eq]
  simp only [displaySize]
  omega

/-- As a C string the window is what it shows of the text. -/
theorem WindowIn.cString (h : WindowIn text i u) :
    cString u.partialMsg = (text.drop i).take displaySize := by
  have hinside := h.inside
  have hvisible : ∀ c ∈ (text.drop i).take displaySize, c ≠ 0 := fun c hc =>
    h.visible c (List.mem_of_mem_drop (List.mem_of_mem_take hc))
  obtain ⟨rest, hbody⟩ := h.drop_body (show i ≤ text.length by omega)
  have hpart := h.partialMsg
  rw [hbody] at hpart
  by_cases hfull : i + displaySize ≤ text.length
  · rw [List.take_append_of_le_length (by rw [List.length_drop]; omega)] at hpart
    have hbytes : u.partialMsg.bytes = (text.drop i).take displaySize ++ [0] ++ [] := by
      rw [hpart, List.append_nil]
    exact cString_eq hbytes hvisible
  · -- a short text ends inside the window
    have hshort : (text.drop i).length < displaySize := by
      rw [List.length_drop]
      omega
    have hlen : 0 < displaySize - (text.drop i).length := by omega
    obtain ⟨k, hk⟩ := Nat.exists_eq_succ_of_ne_zero hlen.ne'
    rw [List.take_append, hk, List.take_succ_cons, List.append_assoc] at hpart
    have hbytes : u.partialMsg.bytes =
        (text.drop i).take displaySize ++ [0] ++ (rest.take k ++ [0]) := by
      rw [hpart]
      simp
    exact cString_eq hbytes hvisible

/-- The compare screen shows the window on the text, with the arrows that lead on. -/
theorem WindowIn.sight (h : WindowIn text i u) (owner : Owner) :
    compareSight owner u = windowAt owner text i := by
  have hindex := h.displayIndex
  have hlength := h.msgLength
  have hleft : uiPreproCompare u leftIconId = decide (i ≠ 0) := by
    by_cases hi : i = 0 <;> simp [uiPreproCompare, leftIconId, rightIconId, hindex, hi]
  have hright : uiPreproCompare u rightIconId = decide (i + displaySize ≠ text.length) := by
    have hlast : ((i : ℤ) = (text.length : ℤ) - displaySize) ↔ i + displaySize = text.length := by
      omega
    by_cases hi : i + displaySize = text.length <;>
      simp [uiPreproCompare, leftIconId, rightIconId, hindex, hlength, hlast, hi]
  rw [compareSight, windowAt, h.cString, hleft, hright]

/-- The window moved to an index of the text. -/
theorem uiShiftMsg_windowIn (h : TextIn text u) (hi : i ≤ text.length - displaySize)
    (hindex : u.displayIndex = i) (hend : u.partialMsg.bytes.drop displaySize = [0]) :
    ∃ u', uiShiftMsg u = .ok u' ∧ WindowIn text i u' := by
  subst hindex
  have hroom := h.room
  have hsize := window_size (show u.displayIndex ≤ 128 by omega) u.msgBody
  have hread : u.msgBody.read? u.displayIndex displaySize = _ :=
    Buffer.read?_of_le (by simp only [displaySize] at hi ⊢; omega)
  have hfit : 0 + ((u.msgBody.bytes.drop u.displayIndex).take displaySize).length ≤
      displaySize + 1 := by omega
  let u' := { u with
    partialMsg := u.partialMsg.splice 0 ((u.msgBody.bytes.drop u.displayIndex).take displaySize) }
  have hu' : TextIn text u' := ⟨h.body, h.msgLength, h.room, h.visible⟩
  refine ⟨u', ?_, hu', rfl, hi, ?_⟩
  · simp only [uiShiftMsg, bind, Except.bind, hread, inRange_some, Buffer.write?_of_le hfit]
    rfl
  · rw [Buffer.splice_bytes hfit, List.take_zero, List.nil_append, Nat.zero_add, hsize, hend]

theorem WindowIn.terminator (h : WindowIn text i u) :
    u.partialMsg.bytes.drop displaySize = [0] := by
  have hinside := h.inside
  have hroom := h.room
  have hsize := window_size (show i ≤ 128 by omega) u.msgBody
  rw [h.partialMsg, List.drop_append_of_le_length hsize.ge, List.drop_of_length_le hsize.le,
    List.nil_append]

theorem uiCompareMsg_windowIn (h : TextIn text u) :
    ∃ u', uiCompareMsg u = .ok u' ∧ WindowIn text 0 u' := by
  have hsize := window_size (Nat.zero_le 128) u.msgBody
  have hread : u.msgBody.read? 0 displaySize = _ := Buffer.read?_of_le (by decide)
  have hfit : 0 + ((u.msgBody.bytes.drop 0).take displaySize).length ≤ displaySize + 1 := by omega
  have hstart : (u.partialMsg.splice 0 ((u.msgBody.bytes.drop 0).take displaySize)).bytes.take
      displaySize = (u.msgBody.bytes.drop 0).take displaySize :=
    Buffer.take_splice_start (by omega) hsize.symm
  have hlast : ∀ b : Buffer (displaySize + 1), (b.splice displaySize [0]).bytes =
      b.bytes.take displaySize ++ [0] := by
    intro b
    rw [Buffer.splice_bytes (by simp), List.drop_of_length_le (by simp), List.append_nil]
  let u' := { u with
    partialMsg := (u.partialMsg.splice 0 ((u.msgBody.bytes.drop 0).take displaySize)).splice
      displaySize [0]
    displayIndex := 0 }
  have hu' : TextIn text u' := ⟨h.body, h.msgLength, h.room, h.visible⟩
  refine ⟨u', ?_, hu', rfl, Nat.zero_le _, ?_⟩
  · simp only [uiCompareMsg, bind, Except.bind, hread, inRange_some, Buffer.write?_of_le hfit,
      Buffer.set?_of_lt (Nat.lt_succ_self displaySize)]
    rfl
  · rw [hlast, hstart]

/-- An arrow event moves the window one step of its walk. -/
theorem uiCompareButton_move {mask : UInt32} {move : Move} (h : WindowIn text i u)
    (hmask : Session.moveOf mask = some move) :
    ∃ u', uiCompareButton u mask = .ok (u', false) ∧
      WindowIn text (move.apply (text.length - displaySize) i) u' := by
  have hinside := h.inside
  have hindex := h.displayIndex
  have hlength := h.msgLength
  have hroom := h.room
  have hend := h.terminator
  unfold Session.moveOf at hmask
  split_ifs at hmask with hleft hright
  · obtain rfl := Option.some.inj hmask
    have hmoved : TextIn text
        (if 0 < u.displayIndex then { u with displayIndex := u.displayIndex - 1 } else u) := by
      split_ifs <;> exact ⟨h.body, h.msgLength, h.room, h.visible⟩
    obtain ⟨u', hrun, hu'⟩ := uiShiftMsg_windowIn (i := i - 1) hmoved (by omega)
      (by split_ifs <;> simp only [hindex]; omega) (by split_ifs <;> exact hend)
    refine ⟨u', ?_, hu'⟩
    rw [uiCompareButton, if_pos hleft, hrun]
    rfl
  · obtain rfl := Option.some.inj hmask
    have hmoved : TextIn text
        (if (u.displayIndex : ℤ) < (u.msgLength : ℤ) - displaySize then
          { u with displayIndex := (u.displayIndex + 1) % 2 ^ 8 } else u) := by
      split_ifs <;> exact ⟨h.body, h.msgLength, h.room, h.visible⟩
    obtain ⟨u', hrun, hu'⟩ := uiShiftMsg_windowIn (i := min (i + 1) (text.length - displaySize))
      hmoved (by omega) (by split_ifs <;> simp only [hindex] <;> omega) (by split_ifs <;> exact hend)
    refine ⟨u', ?_, hu'⟩
    rw [uiCompareButton, if_neg hleft, if_pos hright, hrun]
    rfl

theorem uiCompareButton_both (u : UiContext) :
    uiCompareButton u bothReleased = .ok (.zero, true) := by
  have hleft : ¬ (bothReleased = buttonLeft ∨ bothReleased = buttonEvtFast ||| buttonLeft) := by
    decide
  have hright : ¬ (bothReleased = buttonRight ∨ bothReleased = buttonEvtFast ||| buttonRight) := by
    decide
  have hboth : bothReleased = buttonEvtReleased ||| buttonLeft ||| buttonRight := rfl
  rw [uiCompareButton, if_neg hleft, if_neg hright, if_pos hboth]
  rfl

theorem uiCompareButton_other {mask : UInt32} (u : UiContext)
    (hmask : Session.moveOf mask = none) (hboth : mask ≠ bothReleased) :
    uiCompareButton u mask = .ok (u, false) := by
  have hboth : ¬ mask = buttonEvtReleased ||| buttonLeft ||| buttonRight := hboth
  unfold Session.moveOf at hmask
  split_ifs at hmask with hleft hright
  rw [uiCompareButton, if_neg hleft, if_neg hright, if_neg hboth]
  rfl

end Window

theorem walk_append (last i : ℕ) (moves : List Move) (move : Move) :
    walk last i (moves ++ [move]) = move.apply last (walk last i moves) := by
  induction moves generalizing i with
  | nil => rfl
  | cons first moves ih => exact ih _

end IostLedger
