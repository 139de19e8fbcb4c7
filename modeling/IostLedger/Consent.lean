import IostLedger.Streaming

/-! Replies and consent: how many replies a run sends, and what the buttons decide at a
prompt. -/
namespace IostLedger
open Memory Exec Machine

/-! One reply for each APDU. -/

/-- APDUs of all instructions but `RETURN_TO_DASHBOARD`, and button events. -/
def Event.Allowed : Event → Prop
  | .apdu bytes => bytes[1]? ≠ some insReturnToDashboard
  | .button _ => True
  | .ioThrow _ => False

/-- The replies an event asks for. -/
def Event.requests : Event → ℕ
  | .apdu _ => 1
  | .button _ => 0
  | .ioThrow _ => 0

/-- The replies that are still to be sent. -/
def Device.outstanding (d : Device) : ℕ := if d.apduState = .busy then 1 else 0

/-- The invariant of the device, also where it no longer waits. -/
structure Settled (d : Device) : Prop where
  inv : d.Inv
  stopped : d.phase ≠ .waiting →
    d.apduState = .idle ∧ ∀ owner : Owner, d.screen ≠ owner.approveScreen

section Balance
variable {s : Suite} {d d' : Device}

theorem settled_of_waiting (hinv : d.Inv) (hphase : d.phase = .waiting) : Settled d :=
  ⟨hinv, fun h => absurd hphase h⟩

theorem outstanding_idle (h : d.apduState = .idle) : d.outstanding = 0 := by
  rw [Device.outstanding, h]
  rfl

theorem outstanding_busy (h : d.apduState = .busy) : d.outstanding = 1 := by
  rw [Device.outstanding, h]
  rfl

/-- A request stands where it has been received. -/
theorem received_header {bytes : Bytes} (hlen : bytes.length ≤ ioApduBufferSize) {k : ℕ}
    (hk : k < bytes.length) : (received bytes d).header k = bytes.getD k 0 := by
  have hsplice : (d.apdu.splice 0 bytes).bytes = _ :=
    Buffer.splice_bytes (by rw [Nat.zero_add]; exact hlen)
  have hbyte : (received bytes d).header k = (d.apdu.splice 0 bytes).bytes.getD k 0 := rfl
  rw [List.take_zero, List.nil_append] at hsplice
  rw [hbyte, hsplice, List.getD_eq_getElem?_getD, List.getElem?_append_left hk,
    ← List.getD_eq_getElem?_getD]

/-- The second byte of a request is the instruction. -/
theorem received_ins {bytes : Bytes} (hlen : bytes.length ≤ ioApduBufferSize)
    (h5 : 5 ≤ bytes.length) (h : (received bytes d).header offsetIns = insReturnToDashboard) :
    bytes[1]? = some insReturnToDashboard := by
  have hk : 1 < bytes.length := by omega
  have hins : (received bytes d).header offsetIns = bytes.getD 1 0 := received_header hlen hk
  rw [← h, hins, List.getD_eq_getElem?_getD, List.getElem?_eq_getElem hk, Option.getD_some]

theorem step_apdu_balance {bytes : Bytes} (hd : Settled d)
    (hallowed : (Event.apdu bytes).Allowed) (hstep : step s.crypto d (.apdu bytes) = some d') :
    Settled d' ∧ d'.wire.length + d'.outstanding = d.outstanding + 1 := by
  obtain ⟨hphase, ⟨hidle, -, hlen, -⟩, -⟩ := step_apdu hstep
  have hinv := step_inv hd.inv hstep
  have hscreen := hd.inv.not_approve hphase hidle
  rw [outstanding_idle hidle]
  rcases step_apdu_outcome hd.inv hstep with ⟨h⟩ | ⟨h⟩ | ⟨h⟩ | ⟨rfl⟩ | ⟨h5, hins, -⟩ |
    ⟨hthrow, -, -⟩
  · refine ⟨settled_of_waiting hinv (h.phase.trans hphase), ?_⟩
    rw [outstanding_idle h.apduState, h.wire]
    rfl
  · refine ⟨settled_of_waiting hinv (h.phase.trans hphase), ?_⟩
    rw [outstanding_idle h.apduState, h.wire]
    rfl
  · refine ⟨settled_of_waiting hinv (h.phase.trans hphase), ?_⟩
    rw [outstanding_busy h.apduState, h.wire]
    rfl
  · exact ⟨⟨hinv, fun _ => ⟨rfl, hscreen⟩⟩, rfl⟩
  · exact absurd (received_ins hlen h5 hins) hallowed
  · exact absurd hthrow (s.not_mayThrow .ioReset)

theorem step_button_balance {mask : UInt32} (hd : Settled d)
    (hstep : step s.crypto d (.button mask) = some d') :
    Settled d' ∧ d'.wire.length + d'.outstanding = d.outstanding := by
  have hphase := (step_button hstep).1
  have hinv := step_inv hd.inv hstep
  have hopen := hd.inv.open_iff hphase
  rcases step_button_outcome hd.inv hstep with @⟨entries, currentEntry, hscreen, hmenu⟩ |
    @⟨owner, u, idle, hscreen, -, hcompare⟩ | @⟨owner, hscreen, -, hrejected⟩ |
    @⟨owner, u, hscreen, -, -, happroved⟩ | ⟨-, -, -, hsame⟩
  · have hscreen : d.screen = .menu entries currentEntry := hscreen
    have hne (owner : Owner) : d.screen ≠ owner.approveScreen := by
      rw [hscreen]
      exact approveScreen_ne_menu owner _ _
    rcases uxMenuElementsButton_cases entries currentEntry mask { d with wire := [] } with
      heq | heq | ⟨entries', currentEntry', heq⟩ <;> rw [heq] at hmenu
    · refine ⟨settled_of_waiting hinv (by rw [hmenu]; exact hphase), ?_⟩
      rw [hmenu]
      exact Nat.zero_add _
    · have hidle : d.apduState = .idle := by
        cases hstate : d.apduState with
        | idle => rfl
        | busy =>
          obtain ⟨owner, h⟩ := hopen.mp hstate
          exact absurd h (hne owner)
      constructor
      · refine ⟨hinv, fun _ => ?_⟩
        rw [hmenu]
        exact ⟨hidle, hne⟩
      · rw [hmenu]
        exact Nat.zero_add _
    · refine ⟨settled_of_waiting hinv (by rw [hmenu]; exact hphase), ?_⟩
      rw [hmenu]
      exact Nat.zero_add _
  · refine ⟨settled_of_waiting hinv ?_, ?_⟩ <;> rw [hcompare] <;>
      cases idle <;> simp [uiIdle, hphase, Device.outstanding]
  · have hscreen : d.screen = owner.approveScreen := hscreen
    have hwire := rejected_wire owner (show ({ d with wire := [] } : Device).wire = [] from rfl)
    have hidle : (rejected owner { d with wire := [] }).apduState = .idle := by
      simp [rejected, uiIdle]
    rw [outstanding_busy (hopen.mpr ⟨owner, hscreen⟩), hrejected, outstanding_idle hidle, hwire]
    refine ⟨settled_of_waiting (hrejected ▸ hinv) ?_, rfl⟩
    simp [rejected, uiIdle, hphase]
  · have hscreen : d.screen = owner.approveScreen := hscreen
    obtain ⟨payload, hwire⟩ :
        ∃ payload, (approved owner u { d with wire := [] }).wire = [payload] := by
      simp only [approved, Owner.setUi_wire, Owner.clearContext_wire]
      exact ⟨_, rfl⟩
    have hidle : (approved owner u { d with wire := [] }).apduState = .idle := by simp [approved]
    rw [outstanding_busy (hopen.mpr ⟨owner, hscreen⟩), happroved, outstanding_idle hidle, hwire]
    refine ⟨settled_of_waiting (happroved ▸ hinv) ?_, rfl⟩
    simp [approved, hphase]
  · rw [hsame] at hinv ⊢
    exact ⟨settled_of_waiting hinv hphase, by simp [Device.outstanding]⟩

theorem step_balance {event : Event} (hd : Settled d) (hallowed : event.Allowed)
    (hstep : step s.crypto d event = some d') :
    Settled d' ∧ d'.wire.length + d'.outstanding = d.outstanding + event.requests := by
  cases event with
  | apdu bytes => exact step_apdu_balance hd hallowed hstep
  | button mask => exact step_button_balance hd hstep
  | ioThrow e => exact absurd hallowed id

end Balance

/-! Requests that prompt. -/

section Prompt
variable {crypto : Crypto} {s : Suite} {d d₁ : Device} {bytes : Bytes}

theorem command_of_header (hcla : bytes.getD 0 0 = cla)
    (hlc : (bytes.getD 4 0).toNat + 5 = bytes.length) :
    (bytes.drop 5).length ≤ 255 ∧
      bytes = command (bytes.getD 1 0) (bytes.getD 2 0) (bytes.getD 3 0) (bytes.drop 5) := by
  obtain ⟨b0, b1, b2, b3, b4, data, rfl⟩ :
      ∃ b0 b1 b2 b3 b4 data, bytes = b0 :: b1 :: b2 :: b3 :: b4 :: data := by
    rcases bytes with - | ⟨b0, - | ⟨b1, - | ⟨b2, - | ⟨b3, - | ⟨b4, data⟩⟩⟩⟩⟩ <;>
      simp only [List.length_nil, List.length_cons] at hlc
    all_goals first | omega | exact ⟨b0, b1, b2, b3, b4, data, rfl⟩
  simp only [List.getD_cons_zero, List.getD_cons_succ, List.length_cons, List.drop_succ_cons,
    List.drop_zero] at hcla hlc ⊢
  have hlt := b4.toNat_lt
  have hlength : data.length = b4.toNat := by omega
  constructor
  · omega
  · rw [command, hlength, UInt8.ofNat_toNat, ← hcla]
    rfl

/-- A request that is not a command with the length of its data is refused. -/
theorem request_cases (hready : Ready d) (hstep : step crypto d (.apdu bytes) = some d₁) :
    d₁.apduState = .idle ∨
      ∃ ins p1 p2 data, data.length ≤ 255 ∧ bytes = command ins p1 p2 data := by
  obtain ⟨-, ⟨-, hpos, hlen, -⟩, hfinal⟩ := step_apdu hstep
  by_cases hcommand : ∃ ins p1 p2 data, data.length ≤ 255 ∧ bytes = command ins p1 p2 data
  · exact Or.inr hcommand
  left
  have htx : (received bytes d).tx = 0 := hready.inv.tx hready.phase
  have hrun : ∃ e, e ≠ SdkException.ioReset.code ∧ (processApdu crypto bytes.length).run
      (received bytes d) = .error (.thrown e) (received bytes d) := by
    have hmin : ¬ bytes.length < apduMinSize := not_lt.mpr hpos
    have hcla : (received bytes d).header offsetCla = bytes.getD 0 0 := received_header hlen hpos
    simp only [processApdu, EStateM.run_bind, EStateM.run_get, if_neg hmin, hcla]
    split_ifs with h1 h2 h3
    · exact ⟨swClaNotSupported, by decide, rfl⟩
    · exact ⟨swWrongLength, by decide, rfl⟩
    · exact ⟨swWrongLength, by decide, rfl⟩
    · exfalso
      simp only [ne_eq, not_not, apduMaxSize] at h1 h3
      have hlc : (received bytes d).header offsetLc = bytes.getD 4 0 :=
        received_header hlen (by simp only [offsetLc]; omega)
      rw [hlc] at h3
      exact hcommand ⟨_, _, _, _, command_of_header h1 h3⟩
  obtain ⟨e, he, hrun⟩ := hrun
  rw [hfinal, handleApdu, hrun]
  simp only []
  rw [caught_eq he rfl rfl (by rw [htx]; decide)]
  exact replied_apduState _ _

/-- Where a request leads to an approve screen, its reply is open. -/
theorem prompt_open {owner : Owner} (hinv : d.Inv)
    (hstep : step crypto d (.apdu bytes) = some d₁) (hscreen : d₁.screen = owner.approveScreen) :
    d₁.apduState = .busy ∧ d₁.phase = .waiting := by
  obtain ⟨hphase, ⟨hidle, -⟩, -⟩ := step_apdu hstep
  have hne : d.screen ≠ owner.approveScreen := hinv.not_approve hphase hidle owner
  rcases step_apdu_outcome hinv hstep with ⟨h⟩ | ⟨h⟩ | ⟨h⟩ | ⟨rfl⟩ | ⟨-, -, rfl⟩ | ⟨-, -, rfl⟩
  · exact absurd (h.screen.symm.trans hscreen) hne
  · exact absurd (h.screen.symm.trans hscreen) hne
  · exact ⟨h.apduState, h.phase.trans hphase⟩
  · exact absurd hscreen hne
  · exact absurd hscreen hne
  · exact absurd hscreen (approveScreen_ne_menu owner _ _)

theorem verdict_signed_valid {acc data message : Bytes} {p1 p2 : UInt8} {path : List UInt32}
    (h : s.verdict acc p1 p2 data = .signed path message) : ValidP1P2 p1 p2 := by
  unfold Suite.verdict at h
  by_contra hvalid
  split_ifs at h

/-- The handlers alone leave a reply open. -/
theorem dispatch_other {ins p1 p2 : UInt8} {data : Bytes} (hready : Ready d)
    (hdata : data.length ≤ 255) (hsign : ins ≠ insSignMessage) (hpk : ins ≠ insGetPublicKey)
    (hstep : step crypto d (.apdu (command ins p1 p2 data)) = some d₁) :
    d₁.apduState = .idle ∨ d₁.phase = .returned := by
  have htx : (received (command ins p1 p2 data) d).tx = 0 := hready.inv.tx hready.phase
  have hready_idle {d₂ : Device} (h : step crypto d (.apdu (command ins p1 p2 data)) = some d₂)
      (hready₂ : Ready d₂) : d₁.apduState = .idle := by
    obtain rfl := Option.some.inj (hstep.symm.trans h)
    exact hready₂.idle
  by_cases hempty : data = [] ∧ p2 &&& p2More = 0
  · obtain ⟨d₂, hstep₂, hready₂, -⟩ := step_empty crypto ins p1 hready hempty
    exact Or.inl (hready_idle hstep₂ hready₂)
  by_cases hecho : ins = insEcho
  · subst hecho
    obtain ⟨d₂, hstep₂, hready₂, -⟩ := step_echo crypto p1 hready hdata hempty
    exact Or.inl (hready_idle hstep₂ hready₂)
  by_cases hconfiguration : ins = insGetConfiguration
  · subst hconfiguration
    obtain ⟨d₂, hstep₂, hready₂, -⟩ := step_configuration crypto p1 hready hdata hempty
    exact Or.inl (hready_idle hstep₂ hready₂)
  have hrun := processApdu_command crypto d ins p1 p2 hdata
  rw [if_neg hempty] at hrun
  have hfinal : handleApdu crypto (5 + data.length) (received (command ins p1 p2 data) d) = d₁ :=
    Option.some.inj
      ((step_command crypto ins p1 p2 hready.phase hready.idle hdata).symm.trans hstep)
  unfold handleApdu at hfinal
  by_cases hreset : ins = insReset
  · have hdispatch : (dispatch crypto ins p1 p2 data.length (5 + data.length)).run
        (received (command ins p1 p2 data) d) = .error (.thrown swOk)
          (resetting (received (command ins p1 p2 data) d)) := by
      unfold dispatch
      rw [if_pos hreset]
      rfl
    rw [hrun, hdispatch] at hfinal
    simp only [] at hfinal
    have hflags :
        (resetting (received (command ins p1 p2 data) d)).flags = ioResetAfterReplied := by
      change (0 : UInt8) ||| ioResetAfterReplied = _
      decide
    have hreset_tx : (resetting (received (command ins p1 p2 data) d)).tx = 0 := htx
    rw [caught_exit rfl hflags (by rw [hreset_tx]; decide)] at hfinal
    left
    rw [← hfinal]
    rfl
  by_cases hdashboard : ins = insReturnToDashboard
  · have hdispatch : (dispatch crypto ins p1 p2 data.length (5 + data.length)).run
        (received (command ins p1 p2 data) d) = .ok ()
          (dashboard (received (command ins p1 p2 data) d)) := by
      rw [hdashboard]
      rfl
    rw [hrun, hdispatch] at hfinal
    right
    rw [← hfinal]
    rfl
  · have hdispatch : (dispatch crypto ins p1 p2 data.length (5 + data.length)).run
        (received (command ins p1 p2 data) d) = .error (.thrown swInsNotSupported)
          (received (command ins p1 p2 data) d) := by
      unfold dispatch
      rw [if_neg hreset, if_neg hecho, if_neg hconfiguration, if_neg hpk, if_neg hsign,
        if_neg hdashboard]
      rfl
    obtain ⟨d₂, hstep₂, hready₂, -⟩ := step_refused hready hdata (hrun.trans hdispatch)
      (untouched_received hready _) htx (by simp)
    exact Or.inl (hready_idle hstep₂ hready₂)

/-- A request that prompts is a confirm request whose payload is computed and kept. -/
theorem prompt_exports (hready : Ready d) (hstep : step s.crypto d (.apdu bytes) = some d₁)
    (hbusy : d₁.apduState = .busy) (hphase : d₁.phase = .waiting) :
    ∃ owner p2 data payload path, bytes = command owner.ins p1Confirm p2 data ∧
      data.length ≤ 255 ∧ payload.length ≤ 64 ∧ Exports s.crypto owner d p2 data payload path := by
  have hopen : d₁.apduState ≠ .idle := by
    rw [hbusy]
    decide
  obtain ⟨ins, p1, p2, data, hdata, rfl⟩ := (request_cases hready hstep).resolve_left hopen
  -- in silent mode the reply is not left open
  have hconfirm {owner : Owner} {payload : Bytes} {path : List UInt32} (hins : ins = owner.ins)
      (hp1 : p1 = p1Confirm ∨ p1 = p1Silent) (hpayload : payload.length ≤ 64)
      (h : Exports s.crypto owner d p2 data payload path) : p1 = p1Confirm := by
    refine hp1.resolve_right fun hsilent => ?_
    subst hsilent hins
    obtain ⟨d₂, hstep₂, hready₂, -⟩ := h.silent hready hdata hpayload
    obtain rfl := Option.some.inj (hstep.symm.trans hstep₂)
    exact hopen hready₂.idle
  by_cases hsign : ins = insSignMessage
  · subst hsign
    have hfollows :=
      sign_follows s p1 p2 hready (holds_self hready.inv.bounded.sign.msgLength) hdata
    cases hverdict : s.verdict _ p1 p2 data with
    | refused sw =>
      rw [hverdict] at hfollows
      obtain ⟨d₂, hstep₂, hreplied⟩ := hfollows
      obtain rfl := Option.some.inj (hstep.symm.trans hstep₂)
      exact absurd hreplied.idle hopen
    | stored acc =>
      rw [hverdict] at hfollows
      obtain ⟨d₂, hstep₂, hreplied⟩ := hfollows
      obtain rfl := Option.some.inj (hstep.symm.trans hstep₂)
      exact absurd hreplied.idle hopen
    | signed path message =>
      rw [hverdict] at hfollows
      have hexports : Exports s.crypto .signMessage d p2 data (s.signed path message) path :=
        hfollows
      have hlen := s.signed_length_le path message
      have hp1 := hconfirm rfl (verdict_signed_valid hverdict).p1 hlen hexports
      exact ⟨.signMessage, p2, data, _, path, by rw [hp1]; rfl, hdata, hlen, hexports⟩
  by_cases hpk : ins = insGetPublicKey
  · subst hpk
    rcases publicKey_cases s p1 p2 hready hdata with
      ⟨sw, d₂, -, hstep₂, hready₂, -⟩ | ⟨hvalid, path, -, hexports⟩
    · obtain rfl := Option.some.inj (hstep.symm.trans hstep₂)
      exact absurd hready₂.idle hopen
    · have hlen : (iostExtractBytesFromPublicKey (s.publicPoint path)).length ≤ 64 := by
        rw [encode_length]
        decide
      have hp1 := hconfirm rfl hvalid.p1 hlen hexports
      exact ⟨.getPublicKey, p2, data, _, path, by rw [hp1]; rfl, hdata, hlen, hexports⟩
  · rcases dispatch_other hready hdata hsign hpk hstep with hidle | hreturned
    · exact absurd hidle hopen
    · rw [hphase] at hreturned
      cases hreturned

end Prompt

/-! The approval. -/

/-- The masks a prompt ignores. -/
def Ignored (mask : UInt32) : Prop :=
  mask ≠ buttonEvtReleased ||| buttonLeft ∧ mask ≠ buttonEvtReleased ||| buttonRight

/-- What the buttons decide at the prompt `d₁` of the request `bytes` in the state `d`: no
other mask has an effect, the left button refuses, and the right button sends the reply of
the same request in silent mode. -/
def Consented (crypto : Crypto) (d : Device) (bytes : Bytes) (d₁ : Device) : Prop :=
  d₁.wire = [] ∧ (bytes[1]? = some insSignMessage ∨ bytes[1]? = some insGetPublicKey) ∧
    bytes[2]? = some p1Confirm ∧
    ∀ masks : List UInt32, (∀ mask ∈ masks, Ignored mask) →
      (app crypto).run d₁ (masks.map Event.button) = some d₁ ∧
      (∃ d₂, step crypto d₁ rejection = some d₂ ∧ d₂.wire = [[0x69, 0x85]]) ∧
      ∃ d₃ d₄ reply, step crypto d₁ approval = some d₃ ∧ d₃.wire = [reply] ∧
        step crypto d (.apdu (bytes.set 2 p1Silent)) = some d₄ ∧ d₄.wire = [reply]

theorem Pending.ignores {crypto : Crypto} {owner : Owner} {payload text : Bytes} {d : Device}
    (h : Pending owner payload text d) {masks : List UInt32}
    (hmasks : ∀ mask ∈ masks, Ignored mask) :
    (app crypto).run d (masks.map Event.button) = some d := by
  induction masks with
  | nil => rfl
  | cons mask masks ih =>
    have hmask := hmasks mask List.mem_cons_self
    have hstep : (app crypto).step d (.button mask) = some d := h.ignore crypto hmask.1 hmask.2
    rw [List.map_cons, run_cons _ hstep]
    exact ih fun m hm => hmasks m (List.mem_cons_of_mem mask hm)

theorem consented {s : Suite} {d d₁ : Device} {bytes : Bytes} (hready : Ready d)
    (hstep : step s.crypto d (.apdu bytes) = some d₁) (hbusy : d₁.apduState = .busy)
    (hphase : d₁.phase = .waiting) : Consented s.crypto d bytes d₁ := by
  obtain ⟨owner, p2, data, payload, path, rfl, hdata, hpayload, hexports⟩ :=
    prompt_exports hready hstep hbusy hphase
  have hformat := formatPayload_length_le p2 payload
  obtain ⟨d₂, hconfirm, hpending, -⟩ := hexports.confirm hready hdata hpayload
  obtain rfl := Option.some.inj (hstep.symm.trans hconfirm)
  obtain ⟨d₄, hsilent, -, hreply, -⟩ := hexports.silent hready hdata hpayload
  obtain ⟨d₃, happrove, -, hanswer, -⟩ := hpending.approve s.crypto (by omega)
  obtain ⟨d₂, hreject, -, hstatus⟩ := hpending.reject s.crypto
  refine ⟨hpending.wire, ?_, rfl, fun masks hmasks => ⟨hpending.ignores hmasks, ⟨d₂, hreject, ?_⟩,
    d₃, d₄, _, happrove, hanswer, hsilent, hreply⟩⟩
  · cases owner
    · exact Or.inl rfl
    · exact Or.inr rfl
  · rw [hstatus]
    rfl

/-- An echo, a prompt, a button that does nothing and an approval. -/
def sampleEvents : List Event :=
  [.apdu (command insEcho 0 0 [1]),
    .apdu (command insGetPublicKey p1Confirm p2Bin (bufferFromBip32 [44])), .button 0, approval]

end IostLedger
