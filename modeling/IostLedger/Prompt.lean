import IostLedger.Consent
import IostLedger.Numeral

/-! The text of an approval prompt: which key a request asks for, and what of its number the
prompt shows. -/
namespace IostLedger
open Memory Exec Machine

/-- A prompt of `owner` shows the number of a path. -/
def Shows (owner : Owner) (path : List UInt32) (d : Device) : Prop :=
  d.screen = owner.approveScreen ∧ cString (owner.ui d).approveL2 =
    (promptText (promptLabel owner) (keyNumber path)).take (displaySize - 1)

section Shows
variable {crypto : Crypto} {owner : Owner} {path : List UInt32} {d : Device} {p1 p2 : UInt8}
  {acc data m : Bytes} {buffer : ℕ}

/-- Where nothing is asked, nothing is to be shown. -/
theorem wp_trivial {σ α : Type} (x : EStateM Fault σ α) (s : σ) :
    Wp x (fun _ _ => True) (fun _ _ => True) s := by
  unfold Wp
  cases x.run s <;> trivial

theorem finishExport_shows (owner : Owner) (p1 : UInt8) (path : List UInt32) (d : Device) :
    Wp (finishExport owner p1 (promptLabel owner ++ ascii "%u?") path)
      (fun _ d' => Shows owner path d') (fun _ _ => True) d := by
  obtain ⟨b, htext, hrun⟩ := uxApprove_run (promptLabel_ok owner) path owner d
  unfold finishExport
  rw [wp_ite]
  constructor
  · intro _
    rw [wp_of_run_error (replyExport_run owner d)]
    trivial
  · intro _
    rw [wp_of_run_ok hrun]
    constructor
    · rfl
    · rw [← htext]
      cases owner <;> rfl

theorem hashMessage_path (crypto : Crypto) (hashBeforeSign : Bool) (c : SignTxContext)
    (hlength : c.msgLength < 2 ^ 16) (offset : ℕ) :
    Wp (hashMessage crypto hashBeforeSign offset)
      (fun _ c' => c'.msgBody.bytes.take offset = c.msgBody.bytes.take offset ∧
        c'.msgLength < 2 ^ 16) (fun _ _ => True) c := by
  unfold hashMessage
  simp only [wp_ite, wp_bind, wp_get, wp_ofChecked, wp_pure]
  constructor
  · intro _
    refine ⟨fun inBytes _ => ⟨fun hash _ => ⟨fun body hbody => ?_, fun _ _ => trivial⟩,
      fun _ _ => trivial⟩, fun _ _ => trivial⟩
    obtain ⟨-, rfl⟩ := Buffer.write?_eq_some (inRange_eq_ok hbody)
    rw [wp_set]
    exact ⟨Buffer.take_splice le_rfl, Nat.mod_lt _ (by norm_num)⟩
  · intro _
    exact ⟨trivial, hlength⟩

/-- Whatever is signed, the path stays in front of the message. -/
theorem signMessage_path (crypto : Crypto) (hashBeforeSign : Bool) {c : SignTxContext}
    (hp : ValidPath path) (hc : c.Holds (bufferFromBip32 path ++ m)) :
    Wp (signMessage crypto hashBeforeSign)
      (fun _ c' => c'.msgBody.bytes.take (1 + 4 * path.length) = bufferFromBip32 path ∧
        c'.msgLength < 2 ^ 16) (fun _ _ => True) c := by
  have hle := hp.le
  have hpath := bufferFromBip32_length path
  have hlen := hc.length_le
  have hmsg := hc.length
  rw [List.length_append, hpath] at hlen hmsg
  simp only [maxMsgSize] at hlen
  have hbytes := holds_drop hc
  rw [List.append_assoc] at hbytes
  have hread : ioReadBip32 c.msgBody 0 c.msgLength = _ :=
    ioReadBip32_eq hp (by omega) hbytes
  rw [if_pos (Or.inr (by omega))] at hread
  have hprefix : c.msgBody.bytes.take (1 + 4 * path.length) = bufferFromBip32 path := by
    rw [List.drop_zero] at hbytes
    rw [hbytes, List.take_left' hpath]
  have hoffset : (1 + path.length * 4) % 2 ^ 16 = 1 + 4 * path.length := by omega
  unfold signMessage
  simp only [wp_bind, wp_get, wp_ite, wp_throwCode, hread, wp_ofChecked_ok, wp_set, hoffset]
  refine ⟨fun _ => trivial, fun _ => ⟨fun _ => trivial, fun _ => ?_⟩⟩
  apply (hashMessage_path crypto hashBeforeSign
    { c with msgLength := (c.msgLength + 2 ^ 16 - (1 + 4 * path.length)) % 2 ^ 16 }
    (Nat.mod_lt _ (by norm_num)) (1 + 4 * path.length)).mono _ fun _ _ h => h
  rintro - c' ⟨htake, hlength⟩
  rw [wp_callFrame]
  apply (wp_trivial _ _).mono _ fun _ _ h => h
  intro signature _ _
  rw [wp_pure]
  exact ⟨htake.trans hprefix, hlength⟩

/-- A request to sign that prompts shows the number of the path it carries. -/
theorem handleSignMessage_shows (crypto : Crypto) (p1 p2 : UInt8) (hp : ValidPath path)
    (hc : d.sign.Holds acc) (hread : d.apdu.read? buffer data.length = some data)
    (hsplit : acc ++ data = bufferFromBip32 path ++ m) :
    Wp (handleSignMessage crypto p1 p2 buffer data.length)
      (fun _ d' => Shows .signMessage path d') (fun _ _ => True) d := by
  unfold handleSignMessage
  rw [wp_bind, wp_ofChecked]
  refine ⟨fun _ _ => ?_, fun _ _ => trivial⟩
  rw [wp_bind, wp_get, wp_bind, withSign, wp_onPart]
  by_cases hover : maxMsgSize < acc.length + data.length
  · rw [wp_of_run_error (readMessage_overflow hc hover)]
    trivial
  obtain ⟨c, hrun, hholds, -⟩ := readMessage_append hc hread (Nat.le_of_not_lt hover)
  rw [wp_of_run_ok hrun, wp_ite]
  refine ⟨fun _ => ?_, fun _ => by rw [wp_throwCode]; trivial⟩
  rw [wp_bind, withSign, wp_onPart]
  rw [hsplit] at hholds
  apply (signMessage_path crypto (data.length = 0) hp hholds).mono _ fun _ _ _ => trivial
  rintro signature c' ⟨htake, hlength⟩
  have hbytes : c'.msgBody.bytes.drop 0 =
      bufferFromBip32 path ++ c'.msgBody.bytes.drop (1 + 4 * path.length) := by
    rw [List.drop_zero, ← htake, List.take_append_drop]
  have hpath : ioReadBip32 c'.msgBody 0 c'.msgLength = _ := ioReadBip32_eq hp hlength hbytes
  rw [wp_bind, wp_get]
  simp only [hpath]
  rw [wp_bind, wp_ofChecked]
  refine ⟨fun path' hpath' => ?_, fun _ _ => trivial⟩
  split_ifs at hpath'
  obtain rfl := Except.ok.inj hpath'
  rw [wp_bind]
  apply (wp_trivial _ _).mono _ fun _ _ h => h
  intro _ d₁ _
  exact finishExport_shows .signMessage p1 path d₁

/-- A request for a public key that prompts shows the number of the path it carries. -/
theorem handleGetPublicKey_shows (crypto : Crypto) (p1 p2 : UInt8) {bufferLength : ℕ}
    (hp : ValidPath path) (hlen : bufferLength < 2 ^ 16)
    (hdrop : d.apdu.bytes.drop buffer = bufferFromBip32 path ++ m) :
    Wp (handleGetPublicKey crypto p1 p2 buffer bufferLength)
      (fun _ d' => Shows .getPublicKey path d') (fun _ _ => True) d := by
  have hread := ioReadBip32_eq hp hlen hdrop
  unfold handleGetPublicKey
  rw [wp_bind, wp_ofChecked]
  refine ⟨fun _ _ => ?_, fun _ _ => trivial⟩
  rw [wp_bind, wp_get, hread, wp_bind, wp_ofChecked]
  refine ⟨fun path' hpath' => ?_, fun _ _ => trivial⟩
  split_ifs at hpath'
  obtain rfl := Except.ok.inj hpath'
  rw [wp_bind]
  apply (wp_trivial _ _).mono _ fun _ _ h => h
  intro _ d₁ _
  exact finishExport_shows .getPublicKey p1 path d₁

end Shows

/-! Prompts of requests. -/

/-- The path of a request in the state `d`: it leads the collected message of a request to
sign, and the data of a request for a public key, behind which the buffer is as it was. -/
def Carries : Owner → Device → Bytes → List UInt32 → Prop
  | .signMessage, d, data, path =>
      ∃ acc message, d.sign.Holds acc ∧ acc ++ data = bufferFromBip32 path ++ message
  | .getPublicKey, d, data, path =>
      ∃ rest, data ++ d.apdu.bytes.drop (5 + data.length) = bufferFromBip32 path ++ rest

/-- Some confirm request with this path reaches its prompt, which then shows `text`. -/
def Prompts (crypto : Crypto) (owner : Owner) (path : List UInt32) (text : Bytes) : Prop :=
  ∃ d p2 data d', (app crypto).Reachable d ∧ data.length ≤ 255 ∧ ValidPath path ∧
    Carries owner d data path ∧
    step crypto d (.apdu (command owner.ins p1Confirm p2 data)) = some d' ∧
    d'.screen = owner.approveScreen ∧ cString (owner.ui d').approveL2 = text

section Prompts
variable {crypto : Crypto} {owner : Owner} {path path' : List UInt32} {text text' : Bytes}

/-- What the handler of a request leaves behind where it returns. -/
theorem dispatch_shows (crypto : Crypto) (p1 p2 : UInt8) (rx : ℕ) {d : Device} {data : Bytes}
    (hp : ValidPath path) (hdata : data.length ≤ 255) (hcarries : Carries owner d data path) :
    Wp (dispatch crypto owner.ins p1 p2 data.length rx) (fun _ d' => Shows owner path d')
      (fun _ _ => True) (received (command owner.ins p1 p2 data) d) := by
  cases owner with
  | signMessage =>
    obtain ⟨acc, message, hacc, hsplit⟩ := hcarries
    exact handleSignMessage_shows crypto p1 p2 hp
      (show (received (command Owner.signMessage.ins p1 p2 data) d).sign.Holds acc from hacc)
      (received_command_read d _ p1 p2 hdata) hsplit
  | getPublicKey =>
    obtain ⟨rest, hrest⟩ := hcarries
    have hdrop := received_command_drop d Owner.getPublicKey.ins p1 p2 hdata
    exact handleGetPublicKey_shows crypto p1 p2 hp (by omega) (hdrop.trans hrest)

/-- The text of every prompt. -/
theorem prompts_text (h : Prompts crypto owner path text) :
    ValidPath path ∧
      text = (promptText (promptLabel owner) (keyNumber path)).take (displaySize - 1) := by
  obtain ⟨d, p2, data, d', hreachable, hdata, hp, hcarries, hstep, hscreen, rfl⟩ := h
  refine ⟨hp, ?_⟩
  have hinv := reachable_inv hreachable
  obtain ⟨hphase, ⟨hidle, -⟩, -⟩ := step_apdu hstep
  obtain ⟨hbusy, hwait⟩ := prompt_open hinv hstep hscreen
  rw [step_command crypto owner.ins p1Confirm p2 hphase hidle hdata] at hstep
  have hfinal := Option.some.inj hstep
  obtain ⟨d₁, hrun, hopen⟩ := handleApdu_open crypto
    (d := received (command owner.ins p1Confirm p2 data) d)
    ⟨hinv.bounded.sign, hinv.bounded.pk⟩ (hinv.tx hphase) rfl rfl hphase (by omega)
    (hfinal ▸ hbusy) (hfinal ▸ hwait)
  rw [processApdu_command crypto d owner.ins p1Confirm p2 hdata] at hrun
  split_ifs at hrun with hempty
  have hshows := dispatch_shows crypto p1Confirm p2 (5 + data.length) hp hdata hcarries
  rw [wp_of_run_ok hrun] at hshows
  rw [← hfinal, hopen, ← hshows.2]
  cases owner <;> rfl

theorem keyNumber_of_last {w : UInt32} (h : path.getLast? = some w) :
    keyNumber path = w - bip32PathMask := by
  obtain ⟨before, rfl⟩ := List.getLast?_eq_some_iff.mp h
  rw [keyNumber, if_pos (by simp), List.length_append, List.length_singleton, Nat.add_sub_cancel,
    List.getD_eq_getElem?_getD, List.getElem?_append_right le_rfl, Nat.sub_self]
  rfl

theorem keyNumber_inj (hp : ValidPath path) (hp' : ValidPath path') :
    (keyNumber path).toNat = (keyNumber path').toNat ↔ path.getLast? = path'.getLast? := by
  have hne : path ≠ [] := List.ne_nil_of_length_pos hp.pos
  have hne' : path' ≠ [] := List.ne_nil_of_length_pos hp'.pos
  have hlast := List.getLast?_eq_some_getLast hne
  have hlast' := List.getLast?_eq_some_getLast hne'
  rw [keyNumber_of_last hlast, keyNumber_of_last hlast', hlast, hlast', UInt32.toNat_inj,
    UInt32.sub_left_inj, Option.some.injEq]

/-- The number of a hardened word is its index. -/
theorem keyNumber_hardened {w : UInt32} {i : ℕ} (h : path.getLast? = some w)
    (hw : w.toNat = 2 ^ 31 + i) : (keyNumber path).toNat = i := by
  have hmask : bip32PathMask.toNat = 2 ^ 31 := rfl
  rw [keyNumber_of_last h, UInt32.toNat_sub_of_le _ _ (UInt32.le_iff_toNat_le.mpr (by omega)),
    hmask, hw]
  omega

end Prompts

/-- Two numbers that a prompt shows in the same way: the display limit leaves seven
characters of the number a signature is made with, and the digit buffer the last nine digits. -/
def Owner.Confuses : Owner → ℕ → ℕ → Prop
  | .signMessage, v, w => 10 ^ 6 ≤ v ∧ 10 ^ 6 ≤ w ∧ leadingDigits v = leadingDigits w
  | .getPublicKey, v, w => 10 ^ 8 ≤ v ∧ 10 ^ 8 ≤ w ∧ v % 10 ^ 9 = w % 10 ^ 9

/-- The indices whose numeral is shown whole. -/
def Owner.shownBelow : Owner → ℕ
  | .signMessage => 10 ^ 6
  | .getPublicKey => 10 ^ 9

/-- A prompt differs from every prompt for another last word unless the two numbers are
confused, and it shows the whole index of a hardened key up to a bound. -/
theorem prompt_identifies_iff {crypto : Crypto} {owner : Owner} {path : List UInt32} {text : Bytes}
    (h : Prompts crypto owner path text) :
    (∀ path' text', Prompts crypto owner path' text' → path.getLast? ≠ path'.getLast? →
      (text ≠ text' ↔ ¬ owner.Confuses (keyNumber path).toNat (keyNumber path').toNat)) ∧
    ∀ w i, path.getLast? = some w → w.toNat = 2 ^ 31 + i →
      (numeral i ++ [questionMark] <:+: text ↔ i < owner.shownBelow) := by
  obtain ⟨hp, rfl⟩ := prompts_text h
  constructor
  · intro path' text' h' hlast
    obtain ⟨hp', rfl⟩ := prompts_text h'
    have hne := mt (keyNumber_inj hp hp').mp hlast
    rw [not_iff_not]
    cases owner with
    | signMessage =>
      rw [show promptLabel .signMessage = ascii "With Key #" from rfl, signText_eq, signText_eq,
        List.append_right_inj, signNumber_eq_iff]
      exact or_iff_right hne
    | getPublicKey =>
      rw [show promptLabel .getPublicKey = ascii "Key #" from rfl, publicKeyText_eq,
        publicKeyText_eq, List.append_right_inj, List.append_left_inj, decimal_eq_iff]
      exact or_iff_right hne
  · intro w i hw hi
    have hnumber := keyNumber_hardened hw hi
    cases owner with
    | signMessage =>
      rw [show promptLabel .signMessage = ascii "With Key #" from rfl, signText_eq, hnumber]
      exact signText_contains_iff
    | getPublicKey =>
      rw [show promptLabel .getPublicKey = ascii "Key #" from rfl, publicKeyText_eq, hnumber]
      exact publicKeyText_contains_iff

/-- A request after the start that shows `text` in its prompt. -/
theorem prompts_boot {crypto : Crypto} {owner : Owner} {path : List UInt32} {data text : Bytes}
    (hp : ValidPath path) (hdata : data.length ≤ 255)
    (hcarries : Carries owner (boot (.zero _)) data path)
    (hstep : (step crypto (boot (.zero _)) (.apdu (command owner.ins p1Confirm p2Bin data))).map
      (fun d => (d.screen, cString (owner.ui d).approveL2)) = some (owner.approveScreen, text)) :
    Prompts crypto owner path text := by
  obtain ⟨d', hstep', heq⟩ := Option.map_eq_some_iff.mp hstep
  obtain ⟨hscreen, htext⟩ := Prod.mk.inj heq
  exact ⟨_, p2Bin, data, d', reachable_boot crypto _, hdata, hp, hcarries, hstep', hscreen, htext⟩

/-- A request for the public key of a path of one word. -/
theorem publicKey_prompts_boot {w : UInt32} {text : Bytes}
    (hstep : (step (Suite.marking [] []).crypto (boot (.zero _))
        (.apdu (command Owner.getPublicKey.ins p1Confirm p2Bin (bufferFromBip32 [w])))).map
      (fun d => (d.screen, cString (Owner.getPublicKey.ui d).approveL2)) =
        some (Owner.getPublicKey.approveScreen, text)) :
    Prompts (Suite.marking [] []).crypto .getPublicKey [w] text :=
  @prompts_boot _ _ [w] (bufferFromBip32 [w]) text ⟨le_rfl, show 1 ≤ 5 by decide⟩
    (show 5 ≤ 255 by decide) ⟨_, rfl⟩ hstep

/-- A request for the signature of one byte sequence with the key of a path of one word. -/
theorem signMessage_prompts_boot {w : UInt32} {text : Bytes}
    (hstep : (step (Suite.marking [] []).crypto (boot (.zero _))
        (.apdu (command Owner.signMessage.ins p1Confirm p2Bin
          (bufferFromBip32 [w] ++ [1, 2, 3, 4, 5])))).map
      (fun d => (d.screen, cString (Owner.signMessage.ui d).approveL2)) =
        some (Owner.signMessage.approveScreen, text)) :
    Prompts (Suite.marking [] []).crypto .signMessage [w] text :=
  @prompts_boot _ _ [w] (bufferFromBip32 [w] ++ [1, 2, 3, 4, 5]) text
    ⟨le_rfl, show 1 ≤ 5 by decide⟩
    (by rw [List.length_append, bufferFromBip32_length, List.length_singleton]; decide)
    ⟨[], _, holds_nil rfl, rfl⟩ hstep

theorem prompt_identifies_iff_boot :
    numeral 44 ++ [questionMark] <:+: ascii "Key #44?" ↔ 44 < Owner.getPublicKey.shownBelow :=
  (prompt_identifies_iff (publicKey_prompts_boot (w := 2147483692) (by decide +kernel))).2
    2147483692 44 rfl rfl

/-- Every two prompts for different last words differ, and show the index of a hardened key. -/
def Identifies (crypto : Crypto) (owner : Owner) : Prop :=
  (∀ path path' text text', Prompts crypto owner path text → Prompts crypto owner path' text' →
    path.getLast? ≠ path'.getLast? → text ≠ text') ∧
  ∀ path text w i, Prompts crypto owner path text → path.getLast? = some w →
    w.toNat = 2 ^ 31 + i → numeral i ++ [questionMark] <:+: text

/-- The keys 10000000 and 10000001 sign under one prompt, the public keys 100000000 and
1100000000 have one prompt. -/
theorem prompt_identifies_fails :
    ¬ Identifies (Suite.marking [] []).crypto .signMessage ∧
      ¬ Identifies (Suite.marking [] []).crypto .getPublicKey := by
  constructor
  · intro h
    have h₁ := @signMessage_prompts_boot 2157483648 (ascii "With Key #1000000") (by decide +kernel)
    have h₂ := @signMessage_prompts_boot 2157483649 (ascii "With Key #1000000") (by decide +kernel)
    exact h.1 _ _ _ _ h₁ h₂ (by decide) rfl
  · intro h
    have h₁ := @publicKey_prompts_boot 2247483648 (ascii "Key #100000000?") (by decide +kernel)
    have h₂ := @publicKey_prompts_boot 3247483648 (ascii "Key #100000000?") (by decide +kernel)
    exact h.1 _ _ _ _ h₁ h₂ (by decide) rfl

end IostLedger
