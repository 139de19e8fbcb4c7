import IostLedger.Wired

/-! A request without a byte. The transport takes it for received, but `io_exchange` waits for a
length: from then on the port is shut, and only a reset of the bus opens it. -/
namespace IostLedger
open Memory Machine Framing

/-- Nothing is asked of the user. -/
structure Device.Unasked (d : Device) : Prop where
  bounded : d.Bounded
  tx : d.phase = .waiting → d.tx = 0
  screen : ∀ owner : Owner, d.screen ≠ owner.approveScreen

/-- The transport takes no report and has none to send. -/
structure Link.Deaf (l : Link) : Prop where
  media : l.media = .usbHid
  transmitting : l.transmitting = false
  length : l.apduLength = 0
  quiet : l.Quiet
  unasked : l.device.Unasked

section Steps
variable {crypto : Crypto} {d d' : Device} {l l' : Link}

/-- Where nothing is asked, a button is not answered and asks nothing. -/
theorem Device.Unasked.button {mask : UInt32} (h : d.Unasked)
    (hstep : IostLedger.step crypto d (.button mask) = some d') : d'.Unasked ∧ d'.wire = [] := by
  obtain ⟨hphase, rfl⟩ := step_button hstep
  have htx := h.tx hphase
  have houtcome := handleButton_outcome (d := { d with wire := [] }) mask
    ⟨h.bounded.sign, h.bounded.pk⟩ htx fun owner hscreen => absurd hscreen (h.screen owner)
  generalize handleButton mask { d with wire := [] } = d' at houtcome
  rcases houtcome with @⟨entries, currentEntry, -, rfl⟩ | @⟨owner, u, idle, hscreen, hu, rfl⟩ |
    ⟨hscreen, -, -⟩ | ⟨hscreen, -, -, -⟩ | ⟨hscreen, -, -, -⟩
  · rcases uxMenuElementsButton_cases entries currentEntry mask { d with wire := [] } with
      heq | heq | ⟨_, _, heq⟩ <;> rw [heq]
    · exact ⟨⟨⟨h.bounded.sign, h.bounded.pk⟩, h.tx, h.screen⟩, rfl⟩
    · exact ⟨⟨⟨h.bounded.sign, h.bounded.pk⟩, fun _ => htx, h.screen⟩, rfl⟩
    · exact ⟨⟨⟨h.bounded.sign, h.bounded.pk⟩, fun _ => htx,
        fun owner => approveScreen_ne_menu owner _ _⟩, rfl⟩
  · have hset : (owner.setUi u { d with wire := [] }).Bounded :=
      setUi_bounded ⟨h.bounded.sign, h.bounded.pk⟩ hu
    cases idle with
    | true =>
      refine ⟨⟨⟨hset.sign, hset.pk⟩, fun _ => ?_, fun owner => approveScreen_ne_menu owner _ _⟩, ?_⟩
      · simp [uiIdle, htx]
      · simp [uiIdle]
    | false =>
      refine ⟨⟨hset, fun _ => ?_, fun owner' => ?_⟩, ?_⟩
      · simp [htx]
      · simpa using h.screen owner'
      · simp
  all_goals exact absurd hscreen (h.screen _)

/-- Every event but a reset keeps the port shut. -/
theorem Link.Deaf.step {e : UsbEvent} (h : l.Deaf) (hreset : e ≠ .reset)
    (hstep : l.step crypto e = some l') : l'.Deaf ∧ l'.prepared = [] := by
  have hclosed (apduState : ApduState) : ¬ (¬ l.transmitting = true ∧ apduState = .busy ∧
      l.apduLength ≠ 0) := fun hc => hc.2.2 h.length
  cases e with
  | reset => exact absurd rfl hreset
  | out buffer random =>
    rw [Link.step] at hstep
    split_ifs at hstep with hlive
    rw [usbdHidDataOut_busy (l := { l with prepared := [] }) h.media, settle, Link.deliver,
      if_neg (hclosed l.apduState)] at hstep
    cases hstep
    exact ⟨⟨h.media, h.transmitting, h.length, ⟨h.quiet.number, h.quiet.remaining,
      h.quiet.current⟩, h.unasked⟩, rfl⟩
  | ack =>
    rw [Link.step] at hstep
    split_ifs at hstep with hlive
    have hdone := usbdHidDataIn_run (@ioUsbHidSent_done l.fetched h.quiet.remaining)
    have hwait : l.fetched.sentAll.waitEnd = l.fetched.sentAll := waitEnd_idle h.transmitting
    rw [hdone, settle, hwait] at hstep
    cases hstep
    exact ⟨⟨h.media, h.transmitting, h.length, ⟨rfl, rfl, rfl⟩,
      ⟨⟨h.unasked.bounded.sign, h.unasked.bounded.pk⟩, h.unasked.tx, h.unasked.screen⟩⟩, rfl⟩
  | button mask =>
    rw [Link.step, if_neg (by rw [h.transmitting]; decide), Option.map_eq_some_iff] at hstep
    obtain ⟨d, hd, rfl⟩ := hstep
    obtain ⟨hunasked, hwire⟩ := h.unasked.button hd
    rw [Link.respond, hwire]
    exact ⟨⟨h.media, h.transmitting, rfl, ⟨h.quiet.number, h.quiet.remaining, h.quiet.current⟩,
      hunasked⟩, rfl⟩

end Steps

section Runs
variable {s : Suite} {l l' : Link}

/-- Until a reset no report leaves. -/
theorem Link.Deaf.outputs {crypto : Crypto} {later : List UsbEvent} (h : l.Deaf)
    (hlater : UsbEvent.reset ∉ later) : (link crypto).outputs Link.prepared l later = [] := by
  induction later generalizing l with
  | nil => rfl
  | cons e later ih =>
    rw [List.mem_cons, not_or] at hlater
    cases hstep : (link crypto).step l e with
    | none => simp only [System.outputs, hstep]
    | some l' =>
      obtain ⟨hdeaf, hprepared⟩ := h.step (Ne.symm hlater.1) hstep
      rw [outputs_cons hstep, hprepared, List.nil_append, ih hdeaf hlater.2]

/-- Until a reset the port stays shut. -/
theorem Link.Deaf.run {crypto : Crypto} {later : List UsbEvent} (h : l.Deaf)
    (hlater : UsbEvent.reset ∉ later) (hrun : (link crypto).run l later = some l') :
    l'.Deaf := by
  have hstep (l : Link) (e : UsbEvent) (l' : Link) (hl : l.Deaf) (he : e ≠ .reset)
      (hstep : (link crypto).step l e = some l') : l'.Deaf := (hl.step he hstep).1
  exact run_invariant hstep h (fun e he heq => hlater (heq ▸ he)) hrun

/-- A first report that announces nothing completes a request of no bytes. -/
theorem intake_empty {buffer : Bytes} {random : Buffer 4} (htag : buffer.getD 2 0 = tagApdu)
    (hnumber : u2be buffer 3 = 0) (htotal : u2be buffer 5 = 0) :
    intake none buffer random = .complete (u2be buffer 0) [] := by
  rw [intake, if_pos htag, packetIntake, hnumber, htotal, if_neg (by decide)]
  rfl

/-- Such a report shuts the port. -/
theorem Wired.deafened {p : Port} {buffer : Bytes} {random : Buffer 4} (h : Wired s l p)
    (hmedia : l.media = .none) (hnumber : l.sequenceNumber = 0)
    (hphase : l.device.phase = .waiting) (hlen : buffer.length = ioHidEpLength)
    (htag : buffer.getD 2 0 = tagApdu) (hfirst : u2be buffer 3 = 0) (htotal : u2be buffer 5 = 0) :
    ∃ l', l.step s.crypto (.out buffer random) = some l' ∧ l'.Deaf ∧ l'.prepared = [] := by
  have hinv := h.represents.inv
  have hlive : l.Live := Or.inr hphase
  have hcarries := h.carries.begun
  generalize p.exchange = exchange at hcarries
  cases hcarries with
  | pending hmedia' =>
    have hmedia' : l.media = .usbHid := hmedia'
    rw [hmedia] at hmedia'
    cases hmedia'
  | sending hmedia' =>
    have hmedia' : l.media = .usbHid := hmedia'
    rw [hmedia] at hmedia'
    cases hmedia'
  | @free inbox pinged _ htransmitting hstate hidle hlength hflight hassembles hping =>
    have hidle : l.device.apduState = .idle := hidle
    cases inbox with
    | some a =>
      obtain ⟨hcollects, -, hcount⟩ := hassembles
      have heq : l.sequenceNumber = a.count := hcollects.number
      omega
    | none =>
      obtain ⟨status, l', hrun, htook⟩ := @ioUsbHidReceive_spec _ _ _ random hlen (Or.inl htag)
        hassembles
      rw [intake_empty htag hfirst htotal] at htook
      obtain ⟨rfl, hquiet, hkept, -, hempty, -, -⟩ := htook
      have hempty : l'.totalLength = 0 := hempty
      have hdevice : l'.device = { l.device with apdu := l'.device.apdu } := hkept.device
      have hclosed : ¬ (¬ l'.opened.transmitting = true ∧ l'.opened.apduState = .busy ∧
          l'.opened.apduLength ≠ 0) := fun hc => hc.2.2 hempty
      have hunasked : l'.opened.device.Unasked := by
        change Device.Unasked { l'.device with apduState := .busy }
        rw [hdevice]
        exact ⟨⟨hinv.bounded.sign, hinv.bounded.pk⟩, hinv.tx, hinv.not_approve hphase hidle⟩
      refine ⟨l'.opened, ?_, ⟨rfl, hkept.transmitting.trans htransmitting, hempty,
        ⟨hquiet.number, hquiet.remaining, hquiet.current⟩, hunasked⟩, hkept.prepared⟩
      have hout := usbdHidDataOut_run (show Link.media { l with prepared := [] } = .none from hmedia)
        hrun
      rw [Link.step, if_pos hlive, hout, if_pos rfl, settle, Link.deliver, if_neg hclosed]

/-- A request without a byte shuts the port of a device that waits for one: it takes the report,
and whatever the host and the user do then, no report leaves any more. A reset of the bus opens it
again, and what follows is a run from the start. -/
theorem empty_request_deafens {apdu : Buffer ioApduBufferSize} {events : List UsbEvent}
    (hexpects : (port s).Guarded Port.Expects .start events)
    (hrun : (link s.crypto).run (Link.boot apdu) events = some l) (hmedia : l.media = .none)
    (hnumber : l.sequenceNumber = 0) (hphase : l.device.phase = .waiting) {buffer : Bytes}
    (hlen : buffer.length = ioHidEpLength) (htag : buffer.getD 2 0 = tagApdu)
    (hfirst : u2be buffer 3 = 0) (htotal : u2be buffer 5 = 0) (random : Buffer 4) :
    ∃ l₁, l.step s.crypto (.out buffer random) = some l₁ ∧ l₁.prepared = [] ∧
      ∀ later : List UsbEvent, .reset ∉ later →
        (link s.crypto).outputs Link.prepared l₁ later = [] ∧
        ∀ l₂, (link s.crypto).run l₁ later = some l₂ → l₂.Live →
          ∃ l₃, l₂.step s.crypto .reset = some l₃ ∧
            ∀ more, (port s).Guarded Port.Expects .start more →
              (link s.crypto).outputs (fun l => [l.observe]) l₃ more =
                (port s).outputs (fun p => [p.observe s]) .start more := by
  have hlink := (linkLockStep s).run (boot_wired s apdu) hexpects
  rw [hrun] at hlink
  obtain ⟨p, hwired⟩ : ∃ p, Wired s l p := by
    generalize (port s).run .start events = x at hlink
    cases hlink with
    | some h => exact ⟨_, h⟩
  obtain ⟨l₁, hstep, hdeaf, hprepared⟩ :=
    @Wired.deafened _ _ _ _ random hwired hmedia hnumber hphase hlen htag hfirst htotal
  refine ⟨l₁, hstep, hprepared, fun later hlater => ⟨hdeaf.outputs hlater, fun l₂ hl₂ hlive => ?_⟩⟩
  have hshut : ¬ l₂.media = .none := by
    rw [(hdeaf.run hlater hl₂).media]
    decide
  have hreset : l₂.step s.crypto .reset = some l₂.restarted := by
    rw [Link.step, if_pos hlive, if_neg hshut]
  refine ⟨l₂.restarted, hreset, fun more hmore => ?_⟩
  exact (linkLockStep s).outputs (fun l p h => by rw [h.observe]) (restarted_wired s l₂) hmore

/-- A device that has just started. -/
theorem empty_request_deafens_boot :
    ∃ l₁, (Link.boot (.zero _)).step (Suite.marking [] []).crypto
        (.out (padded [1, 1, 5]) (.zero 4)) = some l₁ ∧ l₁.prepared = [] ∧
      ∀ later : List UsbEvent, .reset ∉ later →
        (link (Suite.marking [] []).crypto).outputs Link.prepared l₁ later = [] ∧
        ∀ l₂, (link (Suite.marking [] []).crypto).run l₁ later = some l₂ → l₂.Live →
          ∃ l₃, l₂.step (Suite.marking [] []).crypto .reset = some l₃ ∧
            ∀ more, (port (Suite.marking [] [])).Guarded Port.Expects .start more →
              (link (Suite.marking [] []).crypto).outputs (fun l => [l.observe]) l₃ more =
                (port (Suite.marking [] [])).outputs (fun p => [p.observe (Suite.marking [] [])])
                  .start more :=
  @empty_request_deafens (Suite.marking [] []) (Link.boot (.zero _)) (.zero _) [] trivial rfl rfl
    rfl rfl (padded [1, 1, 5]) (by decide) (by decide) (by decide) (by decide) (.zero 4)

end Runs

end IostLedger
