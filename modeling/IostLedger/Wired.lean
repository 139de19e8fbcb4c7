import IostLedger.Transmission

/-! The application behind its transport refines the port: event for event it sends the same
reports and shows the same screen. -/
namespace IostLedger
open Memory Exec Machine Framing

/-- The globals of the transport are those of an exchange. -/
inductive Link.Carries (l : Link) : Exchange → Prop where
  | free {inbox : Option Assembly} {pinged : Bool} (hmedia : l.media = .none)
      (htransmitting : l.transmitting = false) (hstate : l.apduState = .idle)
      (hidle : l.device.apduState = .idle) (hlength : l.apduLength = 0)
      (hflight : l.inFlight = if pinged then 1 else 0) (hassembles : l.Assembles inbox)
      (hping : pinged = true → inbox = none) : l.Carries (.free inbox pinged)
  | pending {channel : ℕ} (hmedia : l.media = .usbHid) (htransmitting : l.transmitting = false)
      (hstate : l.apduState = .busy) (hbusy : l.device.apduState = .busy)
      (hlength : l.apduLength = 0) (hflight : l.inFlight = 0) (hchannel : l.channel = channel)
      (hquiet : l.Quiet) : l.Carries (.pending channel)
  | sending {channel : ℕ} {reply : Bytes} {k : ℕ} (hmedia : l.media = .usbHid)
      (htransmitting : l.transmitting = true) (hstate : l.apduState = .busy)
      (hidle : l.device.apduState = .idle) (hflight : l.inFlight = 1)
      (hchannel : l.channel = channel) (hsends : l.Sends reply k) (hk : 0 < k) :
      l.Carries (.sending (reportsFrom channel reply k))

/-- The link is in the state of a port. -/
structure Wired (s : Suite) (l : Link) (p : Port) : Prop where
  represents : Represents s l.device p.session
  carries : l.Carries p.exchange
  prepared : l.prepared = p.sent

section Device
variable {s : Suite} {d : Device} {t : Session}

/-- While no request is open, the APDU buffer may have any content. -/
theorem Represents.setApdu (h : Represents s d t) (hasked : t.view.asked = none)
    (apdu : Buffer ioApduBufferSize) : Represents s { d with apdu := apdu } t := by
  refine ⟨⟨⟨h.inv.bounded.sign, h.inv.bounded.pk⟩, h.inv.inRange, h.inv.tx, h.inv.open_iff,
    h.inv.flags⟩, h.phase, h.wire, fun _ => h.holds hasked, h.view.kept hasked rfl fun owner => ?_⟩
  cases owner <;> rfl

/-- Without an open request nothing is asked of the user. -/
theorem Represents.asked_of_idle (h : Represents s d t) (hidle : d.apduState = .idle) :
    t.view.asked = none := by
  have hview := h.view
  generalize t.view = view at hview
  cases hview with
  | menu _ => rfl
  | prompt hprompt =>
    rw [hprompt.busy] at hidle
    cases hidle
  | compare _ _ => rfl

theorem Represents.wire_nil_iff (h : Represents s d t) : d.wire = [] ↔ t.wire = [] := by
  rw [h.wire, List.map_eq_nil_iff]

theorem Represents.waiting_iff (h : Represents s d t) :
    d.phase = .waiting ↔ t.stage = .running := by
  rw [h.phase]
  cases t.stage <;> simp [Stage.phase]

end Device

section Events
variable {s : Suite} {l : Link} {p : Port}

/-- Both handle events at the same times. -/
theorem Wired.live_iff (h : Wired s l p) : l.Live ↔ p.Live := by
  have hphase := h.represents.waiting_iff
  have hcarries := h.carries
  unfold Link.Live Port.Live
  rw [hphase]
  generalize p.exchange = exchange at hcarries
  cases hcarries with
  | free _ htransmitting => simp [htransmitting, Exchange.isSending]
  | pending _ htransmitting => simp [htransmitting, Exchange.isSending]
  | sending _ htransmitting => simp [htransmitting, Exchange.isSending]

/-- A reply leaves on the channel of its request. -/
theorem respond_wired {d : Device} {t : Session} {reply : Reply} {replies : List Reply}
    {channel : ℕ} {silent : Exchange} (hrep : Represents s d t) (hreplies : d.HasReplies)
    (hidle : d.apduState = .idle) (hwire : t.wire = reply :: replies)
    (hmedia : l.media = .usbHid) (hflight : l.inFlight = 0) (hchannel : l.channel = channel)
    (hprepared : l.prepared = []) :
    Wired s (l.respond d) (Port.proceed s channel silent t) := by
  have hdevice : d.wire = s.render reply :: replies.map s.render := by
    rw [hrep.wire, hwire, List.map_cons]
  obtain ⟨hbytes, hfits⟩ := hreplies (s.render reply) (by rw [hdevice]; exact List.mem_cons_self)
  have hsome : s.render reply ≠ [] := by
    cases reply <;> simp [Suite.render, answer, statusBytes]
  obtain ⟨l', hrun, hsends, hsent⟩ := @ioUsbHidSend_run
    { l with device := d, apduState := .busy, transmitting := true } _ hbytes hsome hfits
  have hrespond : l.respond d = l' := by
    rw [Link.respond, hdevice]
    simp only [hrun, settle]
  have hl'channel : l'.channel = channel := hsent.channel.trans hchannel
  have hl'flight : l'.inFlight = 1 := by rw [hsent.inFlight, hflight]
  rw [hrespond, Port.proceed, hwire]
  refine ⟨hsent.device ▸ hrep, ?_, ?_⟩
  · exact .sending (hsent.media.trans hmedia) hsent.transmitting hsent.apduState
      (hsent.device ▸ hidle) hl'flight hl'channel hsends Nat.one_pos
  · rw [hsent.prepared, hprepared, List.nil_append, ← hchannel]

/-- A report that completes a request is one event of the application. -/
theorem deliver_eq {crypto : Crypto} {bytes : Bytes} (htransmitting : l.transmitting = false)
    (hbusy : l.apduState = .busy) (hlength : l.apduLength = bytes.length) (hsome : bytes ≠ [])
    (hdevice : l.device.apduState = .busy) (hphase : l.device.phase = .waiting)
    (hbytes : l.device.apdu.bytes.take bytes.length = bytes)
    (hfits : bytes.length ≤ ioApduBufferSize) :
    l.deliver crypto =
      (step crypto { l.device with apduState := .idle } (.apdu bytes)).map l.handled := by
  have hpos : 0 < bytes.length := List.length_pos_iff.mpr hsome
  have hsplice : l.device.apdu.splice 0 bytes = l.device.apdu := by
    apply Buffer.ext_bytes
    rw [Buffer.splice_bytes (by omega), List.take_zero, List.nil_append, Nat.zero_add]
    calc bytes ++ l.device.apdu.bytes.drop bytes.length
        = l.device.apdu.bytes.take bytes.length ++ l.device.apdu.bytes.drop bytes.length := by
          rw [hbytes]
      _ = l.device.apdu.bytes := List.take_append_drop _ _
  have hreceived : received bytes { l.device with apduState := .idle } =
      { l.device with flags := 0, wire := [] } := by
    simp only [received, hsplice, ← hdevice]
  have hopen : ¬ l.transmitting ∧ l.apduState = .busy ∧ l.apduLength ≠ 0 := by
    rw [htransmitting, hlength]
    exact ⟨by decide, hbusy, by omega⟩
  rw [Link.deliver, if_pos hopen, step, hreceived, hlength]
  by_cases hreserved : l.device.apdu.bytes.take 4 ∈ sdkReserved
  · have hrefuse : ¬ (l.device.phase = .waiting ∧
        Accepts { l.device with apduState := .idle } bytes) := by
      rintro ⟨-, -, -, -, h⟩
      rw [hsplice] at h
      exact h hreserved
    rw [if_pos hreserved, if_neg hrefuse, Option.map_none]
  · have haccept : l.device.phase = .waiting ∧
        Accepts { l.device with apduState := .idle } bytes := by
      refine ⟨hphase, rfl, hpos, hfits, ?_⟩
      rw [hsplice]
      exact hreserved
    rw [if_neg hreserved, if_pos haccept, Option.map_some]

/-- The application has taken a request: it is answered at once or left open. -/
theorem handled_wired {d : Device} {t : Session} {channel : ℕ} (hrep : Represents s d t)
    (hreplies : d.HasReplies) (hopen : d.apduState = if d.wire = [] then .busy else .idle)
    (hmedia : l.media = .usbHid) (htransmitting : l.transmitting = false)
    (hflight : l.inFlight = 0) (hchannel : l.channel = channel) (hquiet : l.Quiet)
    (hprepared : l.prepared = []) :
    Wired s (l.handled d) (Port.proceed s channel (.pending channel) t) := by
  cases hwire : t.wire with
  | nil =>
    have hnil : d.wire = [] := hrep.wire_nil_iff.mpr hwire
    rw [if_pos hnil] at hopen
    have hleft : ¬ (d.wire = [] ∧ d.apduState = .idle) := by
      rw [hopen]
      simp
    have hrespond : l.respond d = { l with device := d, apduState := d.apduState, apduLength := 0 } := by
      rw [Link.respond, hnil]
    rw [Link.handled, if_neg hleft, hrespond, Port.proceed, hwire]
    exact ⟨hrep, .pending hmedia htransmitting hopen hopen rfl hflight hchannel
      ⟨hquiet.number, hquiet.remaining, hquiet.current⟩, hprepared⟩
  | cons reply replies =>
    have hsome : d.wire ≠ [] := by
      rw [Ne, hrep.wire_nil_iff, hwire]
      exact List.cons_ne_nil _ _
    rw [if_neg hsome] at hopen
    rw [Link.handled, if_neg fun hc => hsome hc.1]
    exact respond_wired hrep hreplies hopen hwire hmedia hflight hchannel hprepared

theorem usbdHidDataOut_run {l' : Link} {status : HidStatus} {buffer : Bytes} {random : Buffer 4}
    (hmedia : l.media = .none) (hrun : (ioUsbHidReceive buffer random).run l = .ok status l') :
    (usbdHidDataOut buffer random).run l =
      .ok () (if status = .received then l'.opened else l') := by
  simp only [usbdHidDataOut, EStateM.run_bind, EStateM.run_get, if_pos hmedia, hrun]
  split_ifs <;> rfl

/-- A report that completes nothing leaves the application alone. -/
theorem kept_wired {crypto : Crypto} {l' : Link} {t : Session} {inbox : Option Assembly}
    {pinged : Bool} (hrep : Represents s l.device t) (hkept : l.Kept l') (hmedia : l.media = .none)
    (htransmitting : l.transmitting = false) (hstate : l.apduState = .idle)
    (hidle : l.device.apduState = .idle) (hlength : l.apduLength = 0)
    (hflight : l.inFlight = if pinged then 1 else 0) (hassembles : l'.Assembles inbox)
    (hping : pinged = true → inbox = none) :
    l'.deliver crypto = some l' ∧ Wired s l' ⟨t, .free inbox pinged, l.prepared⟩ := by
  have hstate' : l'.apduState = .idle := hkept.apduState.trans hstate
  constructor
  · rw [Link.deliver, if_neg]
    rintro ⟨-, hbusy, -⟩
    rw [hstate'] at hbusy
    cases hbusy
  · have hidle' : l'.device.apduState = .idle := by
      rw [hkept.device]
      exact hidle
    refine ⟨?_, .free (hkept.media.trans hmedia) (hkept.transmitting.trans htransmitting) hstate'
      hidle' (hkept.apduLength.trans hlength) (hkept.inFlight.trans hflight) hassembles hping,
      hkept.prepared⟩
    rw [hkept.device]
    exact hrep.setApdu (hrep.asked_of_idle hidle) _

/-- A report that completes a request hands it to the application. -/
theorem opened_wired {l' : Link} {t : Session} {channel : ℕ} {bytes : Bytes}
    (hrep : Represents s l.device t) (hkept : l.Kept l') (hrunning : t.stage = .running)
    (htransmitting : l.transmitting = false) (hidle : l.device.apduState = .idle)
    (hflight : l.inFlight = 0) (hprepared : l.prepared = []) (hquiet : l'.Quiet)
    (hchannel : l'.channel = channel) (htotal : l'.totalLength = bytes.length)
    (hbytes : l'.device.apdu.bytes.take bytes.length = bytes)
    (hfits : bytes.length ≤ ioApduBufferSize) (hsome : bytes ≠ [])
    (hclean : Event.Clean (.apdu bytes)) :
    Option.Rel (Wired s) (l'.opened.deliver s.crypto)
      ((t.step (.apdu bytes)).map (Port.proceed s channel (.pending channel))) := by
  have hdevice : { l'.opened.device with apduState := .idle } =
      { l.device with apdu := l'.device.apdu } := by
    change { l'.device with apduState := .idle } = _
    rw [hkept.device, ← hidle]
  have hphase : l'.opened.device.phase = .waiting := by
    change l'.device.phase = .waiting
    rw [hkept.device]
    exact hrep.waiting_iff.mpr hrunning
  have hrep' : Represents s { l'.opened.device with apduState := .idle } t := by
    rw [hdevice]
    exact hrep.setApdu (hrep.asked_of_idle hidle) _
  rw [deliver_eq (l := l'.opened) (hkept.transmitting.trans htransmitting) rfl htotal hsome rfl
    hphase hbytes hfits]
  rcases (lockStep s).cases hrep' hclean with ⟨hd, ht⟩ | ⟨d, t', hd, ht, hend⟩
  · have hd' : step s.crypto { l'.opened.device with apduState := .idle } (.apdu bytes) = none := hd
    have ht' : t.step (.apdu bytes) = none := ht
    rw [hd', ht']
    exact .none
  · have hd' : step s.crypto { l'.opened.device with apduState := .idle } (.apdu bytes) = some d :=
      hd
    have ht' : t.step (.apdu bytes) = some t' := ht
    rw [hd', ht']
    exact .some (handled_wired hend (step_apdu_hasReplies hrep'.inv hd')
      (step_apdu_open hrep'.inv hd') rfl (hkept.transmitting.trans htransmitting)
      (hkept.inFlight.trans hflight) hchannel ⟨hquiet.number, hquiet.remaining, hquiet.current⟩
      (hkept.prepared.trans hprepared))

/-- A report that arrives while the host may send. -/
theorem Link.Carries.takeReport {inbox : Option Assembly} {buffer : Bytes} {random : Buffer 4}
    (hcarries : l.Carries (.free inbox false)) (hrep : Represents s l.device p.session)
    (hprepared : l.prepared = []) (hrunning : p.session.stage = .running)
    (hlen : buffer.length = ioHidEpLength) (hknown : KnownTag buffer)
    (hclean : (intake inbox buffer random).Clean) :
    Option.Rel (Wired s) (Link.deliver s.crypto (settle ((usbdHidDataOut buffer random).run l)))
      (p.takeReport s false (intake inbox buffer random)) := by
  rcases hcarries with ⟨hmedia, htransmitting, hstate, hidle, hlength, hflight, hassembles, -⟩
  have hflight : l.inFlight = 0 := hflight
  obtain ⟨status, l', hrun, htook⟩ := @ioUsbHidReceive_spec _ _ _ random hlen hknown hassembles
  rw [usbdHidDataOut_run hmedia hrun, settle]
  generalize intake inbox buffer random = taken at htook hclean
  cases taken with
  | reset =>
    obtain ⟨rfl, hquiet, hkept⟩ := htook
    have hend : l'.deliver s.crypto = some l' ∧ Wired s l' ⟨p.session, .free none false, _⟩ :=
      kept_wired hrep hkept hmedia htransmitting hstate hidle hlength hflight hquiet fun _ => rfl
    obtain ⟨hdeliver, hwired⟩ := hend
    rw [hprepared] at hwired
    simp only [reduceCtorEq, if_false, hdeliver, Port.takeReport]
    exact .some hwired
  | answer buffer' =>
    obtain ⟨rfl, hquiet, hkept⟩ := htook
    have hcount : l.inFlight + 1 = if true then 1 else 0 := by rw [hflight]; rfl
    have hend : l'.deliver s.crypto = some l' ∧ Wired s l' ⟨p.session, .free none true, _⟩ :=
      kept_wired (l := { l with prepared := l.prepared ++ [buffer'], inFlight := l.inFlight + 1 })
        hrep hkept hmedia htransmitting hstate hidle hlength hcount hquiet fun _ => rfl
    obtain ⟨hdeliver, hwired⟩ := hend
    simp only [hprepared, List.nil_append] at hwired
    simp only [reduceCtorEq, if_false, hdeliver, Port.takeReport]
    exact .some hwired
  | more inbox' =>
    obtain ⟨rfl, hassembles', hkept⟩ := htook
    have hend : l'.deliver s.crypto = some l' ∧
        Wired s l' ⟨p.session, .free (some inbox') false, _⟩ :=
      kept_wired hrep hkept hmedia htransmitting hstate hidle hlength hflight hassembles' (by simp)
    obtain ⟨hdeliver, hwired⟩ := hend
    rw [hprepared] at hwired
    simp only [reduceCtorEq, if_false, hdeliver, Port.takeReport]
    exact .some hwired
  | complete channel bytes =>
    obtain ⟨rfl, hquiet, hkept, hchannel, htotal, hbytes, hfits⟩ := htook
    simp only [if_true, Port.takeReport]
    exact opened_wired hrep hkept hrunning htransmitting hidle hflight hprepared hquiet hchannel
      htotal hbytes hfits hclean.1 hclean.2

/-- An inbox says nothing of the reports to the host. -/
theorem Link.Assembles.endpoint {inbox : Option Assembly} (h : l.Assembles inbox)
    (prepared : List Bytes) (inFlight : ℕ) :
    Link.Assembles { l with prepared := prepared, inFlight := inFlight } inbox := by
  cases inbox with
  | none => exact ⟨h.number, h.remaining, h.current⟩
  | some a =>
    obtain ⟨hc, hrest⟩ := h
    exact ⟨⟨hc.number, hc.total, hc.channel, hc.remaining, hc.current, hc.bytes, hc.fits,
      hc.within, hc.counted⟩, hrest⟩

/-- The reports of the last event are forgotten. -/
theorem Link.Carries.begun {exchange : Exchange} (h : l.Carries exchange) :
    Link.Carries { l with prepared := [] } exchange := by
  cases h with
  | @free inbox pinged hmedia htransmitting hstate hidle hlength hflight hassembles hping =>
    exact .free hmedia htransmitting hstate hidle hlength hflight (hassembles.endpoint _ _) hping
  | pending hmedia htransmitting hstate hbusy hlength hflight hchannel hquiet =>
    exact .pending hmedia htransmitting hstate hbusy hlength hflight hchannel
      ⟨hquiet.number, hquiet.remaining, hquiet.current⟩
  | sending hmedia htransmitting hstate hidle hflight hchannel hsends hk =>
    exact .sending hmedia htransmitting hstate hidle hflight hchannel
      ⟨hsends.number, hsends.remaining, hsends.current, hsends.bytes, hsends.fits⟩ hk

/-- What the host sends while an exchange is open is not looked at. -/
theorem usbdHidDataOut_busy {buffer : Bytes} {random : Buffer 4} (hmedia : l.media = .usbHid) :
    (usbdHidDataOut buffer random).run l = .ok () l := by
  simp only [usbdHidDataOut, EStateM.run_bind, EStateM.run_get, hmedia, reduceCtorEq, if_false,
    EStateM.run_pure]

theorem waitEnd_idle (h : l.transmitting = false) : l.waitEnd = l :=
  if_neg fun hc => Bool.false_ne_true (h.symm.trans hc.1)

theorem waitEnd_busy (h : l.apduState = .busy) : l.waitEnd = l := by
  rw [Link.waitEnd, h]
  exact if_neg (by simp)

theorem waitEnd_sentAll (h : l.transmitting = true) : l.sentAll.waitEnd =
    { l.sentAll with transmitting := false, media := .none, apduLength := 0 } :=
  if_pos ⟨h, rfl⟩

theorem usbdHidDataIn_run {l' : Link} (hrun : ioUsbHidSent.run l = .ok () l') :
    usbdHidDataIn.run l = .ok () l'.waitEnd := by
  simp only [usbdHidDataIn, EStateM.run_bind, hrun, EStateM.run_modify]

/-- Without an open request a button leaves the transport alone. -/
theorem button_free {d : Device} {t : Session} {inbox : Option Assembly} {pinged : Bool}
    (hcarries : l.Carries (.free inbox pinged)) (hrep : Represents s d t) (hwire : d.wire = [])
    (hidle : d.apduState = .idle) (hapdu : d.apdu = l.device.apdu) (hprepared : l.prepared = []) :
    Wired s (l.respond d) (Port.proceed s 0 (.free inbox pinged) t) := by
  rcases hcarries with ⟨hmedia, htransmitting, -, -, -, hflight, hassembles, hping⟩
  have hrespond : l.respond d =
      { l with device := d, apduState := d.apduState, apduLength := 0 } := by
    rw [Link.respond, hwire]
  rw [hrespond, Port.proceed, hrep.wire_nil_iff.mp hwire]
  refine ⟨hrep, .free hmedia htransmitting hidle hidle rfl hflight ?_ hping, hprepared⟩
  cases inbox with
  | none => exact ⟨hassembles.number, hassembles.remaining, hassembles.current⟩
  | some a =>
    obtain ⟨hc, hrest⟩ := hassembles
    exact ⟨⟨hc.number, hc.total, hc.channel, hc.remaining, hc.current, hapdu ▸ hc.bytes, hc.fits,
      hc.within, hc.counted⟩, hrest⟩

/-- A button answers an open request or leaves it open. -/
theorem button_pending {d : Device} {t : Session} {channel : ℕ}
    (hcarries : l.Carries (.pending channel)) (hrep : Represents s d t)
    (hreplies : d.HasReplies) (hopen : d.apduState = if d.wire = [] then .busy else .idle)
    (hprepared : l.prepared = []) :
    Wired s (l.respond d) (Port.proceed s channel (.pending channel) t) := by
  rcases hcarries with - | ⟨hmedia, htransmitting, -, -, -, hflight, hchannel, hquiet⟩ | -
  have hhandled := handled_wired hrep hreplies hopen hmedia htransmitting hflight hchannel hquiet
    hprepared
  have hleft : ¬ (d.wire = [] ∧ d.apduState = .idle) := by
    rintro ⟨hwire, hidle⟩
    rw [if_pos hwire, hidle] at hopen
    cases hopen
  rwa [Link.handled, if_neg hleft] at hhandled

/-- The host has fetched a report. -/
theorem Wired.ack (h : Wired s l p) :
    Option.Rel (Wired s) (l.step s.crypto .ack) (p.step s .ack) := by
  have hlive := h.live_iff
  have hcarries := h.carries.begun
  have hrep := h.represents
  rw [Link.step, Port.step]
  by_cases hpLive : p.Live
  · rw [if_pos hpLive]
    have hlLive := hlive.mpr hpLive
    generalize p.exchange = exchange at hcarries
    cases hcarries with
    | @free inbox pinged hmedia htransmitting hstate hidle hlength hflight hassembles hping =>
      have hidle : l.device.apduState = .idle := hidle
      cases pinged with
      | false =>
        have hflight : l.inFlight = 0 := hflight
        rw [if_neg fun hc => hc.2 hflight]
        exact .none
      | true =>
        obtain rfl := hping rfl
        have hflight : l.inFlight = 1 := hflight
        have hquiet : l.remainingLength = 0 := hassembles.remaining
        have hdone := usbdHidDataIn_run (@ioUsbHidSent_done l.fetched hquiet)
        have hwait : l.fetched.sentAll.transmitting = false := htransmitting
        have hdevice : l.fetched.sentAll.device = l.device := by
          change { l.device with apduState := .idle } = _
          rw [← hidle]
        rw [if_pos ⟨hlLive, by omega⟩, hdone, settle, waitEnd_idle hwait]
        refine .some ⟨?_, .free hmedia htransmitting rfl rfl hlength ?_ ⟨rfl, rfl, rfl⟩
          fun _ => rfl, rfl⟩
        · rw [hdevice]
          exact hrep
        · change l.inFlight - 1 = 0
          omega
    | pending hmedia htransmitting hstate hbusy hlength hflight hchannel hquiet =>
      have hflight : l.inFlight = 0 := hflight
      rw [if_neg fun hc => hc.2 hflight]
      exact .none
    | @sending channel reply k hmedia htransmitting hstate hidle hflight hchannel hsends hk =>
      have hidle : l.device.apduState = .idle := hidle
      have hflight : l.inFlight = 1 := hflight
      have hbegun : l.fetched.Sends reply k :=
        ⟨hsends.number, hsends.remaining, hsends.current, hsends.bytes, hsends.fits⟩
      rw [if_pos ⟨hlLive, by omega⟩]
      by_cases hmore : k < hidLayout.count reply.length
      · have hoffset : hidLayout.offset k < reply.length := by
          rcases (hidLayout.lt_count_iff _ _).mp hmore with h | h
          · omega
          · exact h
        obtain ⟨l', hrun, hsends', hsent⟩ := hbegun.report hoffset
        have hstate' : l'.apduState = .busy := hsent.apduState.trans hstate
        rw [usbdHidDataIn_run hrun, settle, waitEnd_busy hstate', reportsFrom,
          Layout.framesFrom_cons hmore]
        refine .some ⟨?_, ?_, ?_⟩
        · rw [hsent.device]
          exact hrep
        · refine .sending (hsent.media.trans hmedia) (hsent.transmitting.trans htransmitting)
            hstate' ?_ ?_ (hsent.channel.trans hchannel) hsends' (Nat.succ_pos k)
          · rw [hsent.device]
            exact hidle
          · rw [hsent.inFlight]
            change l.inFlight - 1 + 1 = 1
            omega
        · rw [hsent.prepared]
          exact congrArg (fun c => [report c reply k]) hchannel
      · -- the acknowledgement of the last report
        have hdone : l.remainingLength = 0 := by
          have hle := Layout.le_offset (Nat.le_of_not_lt hmore)
          have hremaining : l.remainingLength = reply.length - hidLayout.offset k :=
            hsends.remaining
          omega
        have hrun := usbdHidDataIn_run (@ioUsbHidSent_done l.fetched hdone)
        have hwait : l.fetched.transmitting = true := htransmitting
        have hdevice : l.fetched.sentAll.device = l.device := by
          change { l.device with apduState := .idle } = _
          rw [← hidle]
        rw [hrun, settle, waitEnd_sentAll hwait, reportsFrom,
          Layout.framesFrom_nil (Nat.le_of_not_lt hmore)]
        refine .some ⟨?_, .free rfl rfl rfl rfl rfl ?_ ⟨rfl, rfl, rfl⟩ fun _ => rfl, rfl⟩
        · change Represents s l.fetched.sentAll.device _
          rw [hdevice]
          exact hrep
        · change l.inFlight - 1 = 0
          omega
  · rw [if_neg hpLive, if_neg fun hc => hpLive (hlive.mp hc.1)]
    exact .none

/-- A button event. -/
theorem Wired.button (h : Wired s l p) (mask : UInt32) :
    Option.Rel (Wired s) (l.step s.crypto (.button mask)) (p.step s (.button mask)) := by
  have hcarries := h.carries.begun
  have hrep := h.represents
  have hcases := (lockStep s).cases hrep (show Event.Clean (.button mask) from trivial)
  rw [Link.step, Port.step]
  generalize p.exchange = exchange at hcarries
  cases hcarries with
  | free hmedia htransmitting hstate hidle hlength hflight hassembles hping =>
    have htransmitting' : ¬ l.transmitting = true := by simpa using htransmitting
    rw [if_neg htransmitting']
    rcases hcases with ⟨hd, ht⟩ | ⟨d, t, hd, ht, hend⟩
    · have hd' : step s.crypto l.device (.button mask) = none := hd
      have ht' : p.session.step (.button mask) = none := ht
      rw [hd', ht']
      exact .none
    · have hd' : step s.crypto l.device (.button mask) = some d := hd
      have ht' : p.session.step (.button mask) = some t := ht
      obtain ⟨hwire, hidle', hapdu⟩ := step_button_idle hrep.inv hidle hd'
      rw [hd', ht']
      exact .some (button_free (l := { l with prepared := [] })
        (.free hmedia htransmitting hstate hidle hlength hflight hassembles hping) hend hwire
        hidle' hapdu rfl)
  | pending hmedia htransmitting hstate hbusy hlength hflight hchannel hquiet =>
    have htransmitting' : ¬ l.transmitting = true := by simpa using htransmitting
    rw [if_neg htransmitting']
    rcases hcases with ⟨hd, ht⟩ | ⟨d, t, hd, ht, hend⟩
    · have hd' : step s.crypto l.device (.button mask) = none := hd
      have ht' : p.session.step (.button mask) = none := ht
      rw [hd', ht']
      exact .none
    · have hd' : step s.crypto l.device (.button mask) = some d := hd
      have ht' : p.session.step (.button mask) = some t := ht
      rw [hd', ht']
      exact .some (button_pending (l := { l with prepared := [] })
        (.pending hmedia htransmitting hstate hbusy hlength hflight hchannel hquiet) hend
        (step_button_hasReplies hrep.inv hd') (step_button_open hrep.inv hbusy hd') rfl)
  | sending hmedia htransmitting =>
    have htransmitting' : l.transmitting = true := htransmitting
    rw [if_pos htransmitting']
    exact .none

/-- After a reset of the bus the application starts again. -/
theorem restarted_wired (s : Suite) (l : Link) : Wired s l.restarted .start := by
  refine ⟨⟨?_, rfl, rfl, fun _ => SignTxContext.zero_holds, .menu rfl⟩,
    .free rfl rfl rfl rfl rfl rfl ⟨rfl, rfl, rfl⟩ fun _ => rfl, rfl⟩
  exact restart_inv rfl

/-- A reset of the bus. -/
theorem Wired.reset (h : Wired s l p) :
    Option.Rel (Wired s) (l.step s.crypto .reset) (p.step s .reset) := by
  have hlive := h.live_iff
  have hcarries := h.carries.begun
  have hrep := h.represents
  have hrestarted := restarted_wired s l
  rw [Link.step, Port.step]
  by_cases hpLive : p.Live
  · rw [if_pos hpLive, if_pos (hlive.mpr hpLive)]
    generalize p.exchange = exchange at hcarries
    cases hcarries with
    | free hmedia htransmitting hstate hidle hlength hflight hassembles hping =>
      have hmedia' : l.media = .none := hmedia
      rw [if_pos hmedia']
      refine .some ⟨hrep, .free hmedia htransmitting hstate hidle hlength rfl ?_ (by simp), rfl⟩
      exact hassembles.endpoint [] 0
    | pending hmedia =>
      have hmedia' : ¬ l.media = .none := by
        rw [show l.media = .usbHid from hmedia]
        decide
      rw [if_neg hmedia']
      exact .some hrestarted
    | sending hmedia =>
      have hmedia' : ¬ l.media = .none := by
        rw [show l.media = .usbHid from hmedia]
        decide
      rw [if_neg hmedia']
      exact .some hrestarted
  · rw [if_neg hpLive, if_neg fun hc => hpLive (hlive.mp hc)]
    exact .none

/-- A report of the host. -/
theorem Wired.out (h : Wired s l p) {buffer : Bytes} {random : Buffer 4}
    (htakes : p.exchange.Takes buffer random) :
    Option.Rel (Wired s) (l.step s.crypto (.out buffer random)) (p.step s (.out buffer random)) := by
  have hlive := h.live_iff
  have hcarries := h.carries.begun
  have hrep := h.represents
  rw [Link.step, Port.step]
  by_cases hpLive : p.Live
  · rw [if_pos hpLive, if_pos (hlive.mpr hpLive)]
    have hrunning : p.exchange.isSending = false → p.session.stage = .running := by
      intro hsending
      rcases hpLive with h | h
      · rw [hsending] at h
        cases h
      · exact h
    generalize p.exchange = exchange at hcarries htakes hrunning
    cases hcarries with
    | free hmedia htransmitting hstate hidle hlength hflight hassembles hping =>
      obtain ⟨hlen, hknown, rfl, hclean⟩ := htakes
      exact Link.Carries.takeReport
        (.free hmedia htransmitting hstate hidle hlength hflight hassembles hping) hrep rfl
        (hrunning rfl) hlen hknown hclean
    | pending hmedia htransmitting hstate hbusy hlength hflight hchannel hquiet =>
      have hclosed : ¬ (¬ l.transmitting = true ∧ l.apduState = .busy ∧ l.apduLength ≠ 0) :=
        fun hc => hc.2.2 hlength
      rw [usbdHidDataOut_busy hmedia, settle, Link.deliver, if_neg hclosed]
      exact .some ⟨hrep, .pending hmedia htransmitting hstate hbusy hlength hflight hchannel hquiet,
        rfl⟩
    | sending hmedia htransmitting hstate hidle hflight hchannel hsends hk =>
      have hclosed : ¬ (¬ l.transmitting = true ∧ l.apduState = .busy ∧ l.apduLength ≠ 0) :=
        fun hc => hc.1 htransmitting
      rw [usbdHidDataOut_busy hmedia, settle, Link.deliver, if_neg hclosed]
      exact .some ⟨hrep, .sending hmedia htransmitting hstate hidle hflight hchannel hsends hk, rfl⟩
  · rw [if_neg hpLive, if_neg fun hc => hpLive (hlive.mp hc)]
    exact .none

end Events

/-! Runs. -/

/-- On what a host does, the link and the port go in lock step. -/
theorem linkLockStep (s : Suite) : LockStep (link s.crypto) (port s) Port.Expects (Wired s) := by
  intro l p event h hexpects
  cases event with
  | out buffer random => exact h.out hexpects
  | ack => exact h.ack
  | button mask => exact h.button mask
  | reset => exact h.reset

theorem Wired.observe {s : Suite} {l : Link} {p : Port} (h : Wired s l p) :
    l.observe = p.observe s := by
  have hobserve := congrArg Observation.sight h.represents.observe
  have hsight : l.device.sight = p.session.view.sight s := hobserve
  rw [Link.observe, Port.observe, h.prepared, hsight, h.represents.phase]

theorem boot_wired (s : Suite) (apdu : Buffer ioApduBufferSize) :
    Wired s (Link.boot apdu) .start :=
  ⟨boot_represents s apdu, .free rfl rfl rfl rfl rfl rfl ⟨rfl, rfl, rfl⟩ fun _ => rfl, rfl⟩

/-- A ping, a key that is asked for in two reports and approved, a report on the way of its
reply, and a request that a reset of the bus cuts off. -/
def sampleTraffic : List UsbEvent :=
  let host (buffers : List Bytes) := buffers.map fun buffer => UsbEvent.out buffer (.zero 4)
  host [padded [1, 1, 2]] ++ [.ack] ++
    host (reports 0x0101 (command insGetPublicKey p1Confirm p2Hex (bufferFromBip32 [44] ++
      List.replicate 60 0))) ++
    [.button (buttonEvtReleased ||| buttonRight)] ++ host [padded [1, 1, 5]] ++ [.ack, .ack] ++
    host [report 0x0101 (command insEcho 0 0 (List.replicate 60 1)) 0] ++ [.reset]

end IostLedger
