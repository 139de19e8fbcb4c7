import IostLedger.Unwrapping
import IostLedger.Wired

/-! `HIDDongleHIDAPI.exchange` over a whole session: what the host writes, the acknowledgements of
its reads, and what it makes of the reports it gets. -/
namespace IostLedger
open Memory Machine Framing

/-- What `exchange` suggests for a status. -/
def possibleCause (sw : ℕ) : String :=
  if sw = 0x6982 then "Have you uninstalled the existing CA with resetCustomCA first?"
  else if sw = 0x6985 then "Condition of use not satisfied (denied by the user?)"
  else if sw = 0x6a84 ∨ sw = 0x6a85 then "Not enough space?"
  else if sw = 0x6a83 then "Maybe this app requires a library to be installed first?"
  else if sw = 0x6484 then "Are you using the correct targetId?"
  else if sw = 0x6d00 ∨ sw = 0x6e00 then
    "Unexpected state of device: verify that the right application is opened?"
  else "Unknown reason"

/-- An index of a list, which counts from the end where it is negative. -/
def pyIndex (xs : Bytes) (i : ℤ) : Except HostError UInt8 :=
  let j := if i < 0 then i + xs.length else i
  if j < 0 then .error .indexError else byteAt xs j.toNat

/-- What `exchange` returns for a response, or raises. -/
def checkStatus (result : Bytes) : Except HostError Bytes := do
  let swOffset : ℤ := result.length - 2
  let high ← pyIndex result swOffset
  let low ← pyIndex result (swOffset + 1)
  let sw := high.toNat * 256 + low.toNat
  let response := result.take (result.length - 2)
  if sw ≠ 0x9000 ∧ sw &&& 0xFF00 ≠ 0x6100 ∧ sw &&& 0xFF00 ≠ 0x6C00 then
    .error (.invalidStatus sw (possibleCause sw) response)
  else pure response

theorem pyIndex_append (payload rest : Bytes) (b : UInt8) :
    pyIndex (payload ++ b :: rest) payload.length = .ok b := by
  have hpos : ¬ (payload.length : ℤ) < 0 := by omega
  rw [pyIndex]
  simp only [if_neg hpos, Int.toNat_natCast]
  rw [byteAt, List.drop_left]

theorem statusBytes_value (sw : UInt16) :
    (sw >>> 8).toUInt8.toNat * 256 + (sw &&& 0xFF).toUInt8.toNat = sw.toNat := by
  have hlt := sw.toNat_lt
  have hand : sw.toNat &&& 255 = sw.toNat % 256 := Nat.and_two_pow_sub_one_eq_mod _ 8
  have hlow : (sw &&& 0xFF).toNat = sw.toNat % 256 := by rw [UInt16.toNat_and]; exact hand
  have hhigh : (sw >>> 8).toNat = sw.toNat / 256 := by
    rw [UInt16.toNat_shiftRight]
    exact Nat.shiftRight_eq_div_pow _ 8
  rw [UInt16.toNat_toUInt8, UInt16.toNat_toUInt8, hlow, hhigh]
  omega

/-- The status word of a response decides, and the rest is returned or kept with the error. -/
theorem checkStatus_append (payload : Bytes) (sw : UInt16) :
    checkStatus (payload ++ statusBytes sw) =
      if sw.toNat ≠ 0x9000 ∧ sw.toNat &&& 0xFF00 ≠ 0x6100 ∧ sw.toNat &&& 0xFF00 ≠ 0x6C00 then
        .error (.invalidStatus sw.toNat (possibleCause sw.toNat) payload)
      else .ok payload := by
  have hvalue := statusBytes_value sw
  have hoffset : (((payload ++ statusBytes sw).length : ℤ) - 2) = payload.length := by simp
  have hhigh : pyIndex (payload ++ statusBytes sw) payload.length = .ok (sw >>> 8).toUInt8 :=
    pyIndex_append _ _ _
  have hlow : pyIndex (payload ++ statusBytes sw) (payload.length + 1) =
      .ok (sw &&& 0xFF).toUInt8 := by
    have h := pyIndex_append (payload ++ [(sw >>> 8).toUInt8]) [] (sw &&& 0xFF).toUInt8
    rw [List.append_assoc, List.length_append] at h
    exact h
  have hresponse : (payload ++ statusBytes sw).take ((payload ++ statusBytes sw).length - 2) =
      payload := by
    rw [List.length_append, statusBytes_length, Nat.add_sub_cancel, List.take_left]
  rw [checkStatus]
  simp only [hoffset, hhigh, hlow, hresponse, bind, Except.bind, hvalue, pure, Except.pure]

theorem readResponse_length {channel : ℕ} {result : Bytes} {reads : List Bytes}
    {response : Bytes × List Bytes} (h : readResponse channel result reads = .ok (some response)) :
    response.2.length ≤ reads.length := by
  induction reads generalizing result with
  | nil =>
    obtain ⟨found, -, hfound⟩ := except_bind_ok.mp h
    cases found with
    | none => cases hfound
    | some found =>
      cases hfound
      exact le_rfl
  | cons read reads ih =>
    obtain ⟨found, -, hfound⟩ := except_bind_ok.mp h
    cases found with
    | none => exact (ih hfound).trans (Nat.le_succ _)
    | some found =>
      cases hfound
      exact le_rfl

/-- What one exchange after the other returns or raises, from the reports in the order in which they
are read. -/
def exchangeResults (channel : ℕ) : List Bytes → Except HostError (List (Except HostError Bytes))
  | [] => .ok []
  | first :: reads =>
      match _hread : readResponse channel first reads with
      | .error e => .error e
      | .ok none => .ok []
      | .ok (some response) =>
          (exchangeResults channel response.2).map fun results =>
            checkStatus response.1 :: results
termination_by reads => reads.length
decreasing_by
  have hlength := readResponse_length _hread
  rw [List.length_cons]
  omega

/-- The reports of a host. -/
def outEvents (random : Buffer 4) (writes : List Bytes) : List UsbEvent :=
  writes.map fun buffer => .out buffer random

/-- The acknowledgements of the reports of a reply. -/
def ackEvents (reply : Bytes) : List UsbEvent :=
  List.replicate (hidLayout.count reply.length) .ack

/-- What an event of the application is on the bus, with the replies it has come to. A reset of
the link is no event of a host. -/
def busEvents (channel : ℕ) (random : Buffer 4) :
    Event × List Bytes → Option (List UsbEvent)
  | (.apdu bytes, replies) => (commandWrites channel bytes).map fun writes =>
      outEvents random writes ++ replies.flatMap ackEvents
  | (.button mask, replies) => some (.button mask :: replies.flatMap ackEvents)
  | (.ioThrow _, _) => none

/-- The traffic on the bus for what has happened at the application. -/
def traffic (channel : ℕ) (random : Buffer 4) :
    List (Event × List Bytes) → Option (List UsbEvent)
  | [] => some []
  | exchange :: exchanges => do
      let first ← busEvents channel random exchange
      let rest ← traffic channel random exchanges
      pure (first ++ rest)

/-- An event that a host and a user can bring about. -/
def Event.OnBus : Event → Prop
  | .apdu bytes => Event.Clean (.apdu bytes)
  | .button _ => True
  | .ioThrow _ => False

instance : DecidablePred Event.OnBus
  | .apdu bytes => inferInstanceAs (Decidable (Event.Clean (.apdu bytes)))
  | .button _ => inferInstanceAs (Decidable True)
  | .ioThrow _ => inferInstanceAs (Decidable False)

section Assembly
variable {channel : ℕ} {m : Bytes} {s : Suite} {t t' : Session} {random : Buffer 4}

/-- What the port has of a message before report `k`. -/
def inboxAt (channel : ℕ) (m : Bytes) (k : ℕ) : Option Assembly :=
  if k = 0 then none else some ⟨channel, m.length, k, m.take (hidLayout.offset k)⟩

/-- Behind the header of a report the message goes on. -/
theorem report_content (channel : ℕ) (m : Bytes) (k : ℕ) :
    ((report channel m k).drop (ioHidEpLength - hidLayout.room k)).take
      (m.length - hidLayout.offset k) = hidLayout.piece m k := by
  have hroom := room_le k
  have hpiece : (hidLayout.piece m k).length =
      min (hidLayout.room k) (m.length - hidLayout.offset k) := Layout.piece_length m k
  have hzeros : min (m.length - hidLayout.offset k - (hidLayout.piece m k).length)
      (ioHidEpLength - (ioHidEpLength - hidLayout.room k + (hidLayout.piece m k).length)) = 0 := by
    omega
  rw [report, ← body, padded, body_length, body, List.append_assoc,
    ← reportHeader_length channel m.length k, List.drop_left, List.take_append,
    List.take_of_length_le (by omega), List.take_replicate, reportHeader_length, hzeros,
    List.replicate_zero, List.append_nil]

/-- An assembly is continued by the content of the next report. -/
theorem add_report (channel : ℕ) (m : Bytes) (k : ℕ) :
    Assembly.add ⟨channel, m.length, k, m.take (hidLayout.offset k)⟩
        ((report channel m k).drop (ioHidEpLength - hidLayout.room k)) =
      if k + 1 < hidLayout.count m.length then .more ⟨channel, m.length, k + 1,
        m.take (hidLayout.offset (k + 1))⟩
      else .complete channel m := by
  have hcontent : m.take (hidLayout.offset k) ++
      ((report channel m k).drop (ioHidEpLength - hidLayout.room k)).take
        (m.length - (m.take (hidLayout.offset k)).length) =
        m.take (hidLayout.offset (k + 1)) := by
    rw [hidLayout.take_offset_succ m k]
    by_cases hle : hidLayout.offset k ≤ m.length
    · rw [List.length_take, Nat.min_eq_left hle, report_content]
    · rw [List.length_take, Nat.min_eq_right (by omega), Nat.sub_self, List.take_zero,
        List.eq_nil_of_length_eq_zero (l := hidLayout.piece m k) (by
          rw [Layout.piece_length]
          omega)]
  rw [Assembly.add]
  dsimp only
  rw [hcontent]
  by_cases hmore : k + 1 < hidLayout.count m.length
  · have hlt := hidLayout.offset_lt hmore
    rw [if_pos hmore, if_neg]
    rw [List.length_take]
    omega
  · have hle := hidLayout.le_offset (Nat.le_of_not_lt hmore)
    rw [if_neg hmore, List.take_of_length_le hle, if_pos rfl]

/-- The next report of a message. -/
theorem intake_report (hchannel : channel < 2 ^ 16) (hfits : m.length ≤ ioApduBufferSize) {k : ℕ}
    (hk : k < hidLayout.count m.length) :
    intake (inboxAt channel m k) (report channel m k) random =
      if k + 1 < hidLayout.count m.length then .more ⟨channel, m.length, k + 1,
        m.take (hidLayout.offset (k + 1))⟩
      else .complete channel m := by
  have hlen : m.length < 2 ^ 16 := hfits.trans_lt (by decide)
  rw [intake, if_pos (report_tag channel m k), ← add_report]
  cases k with
  | zero =>
    have hstart : ¬ (u2be (report channel m 0) 3 ≠ 0 ∨
        ioApduBufferSize < u2be (report channel m 0) 5) := by
      rw [report_number (by decide), report_total hlen]
      omega
    rw [inboxAt, if_pos rfl, packetIntake, if_neg hstart, report_channel hchannel,
      report_total hlen]
    rfl
  | succ k =>
    have hlt := hidLayout.offset_lt hk
    have hself := hidLayout.le_offset_self (k + 1)
    have hnumber : u2be (report channel m (k + 1)) 3 = k + 1 := report_number (by omega)
    rw [inboxAt, if_neg (Nat.succ_ne_zero k), packetIntake, if_neg (not_not_intro hnumber)]
    rfl

/-- The port takes a report while the host may send. -/
theorem step_out_free {inbox : Option Assembly} {pinged : Bool} {sent : List Bytes} {buffer : Bytes}
    (hrunning : t.stage = .running) :
    (port s).step ⟨t, .free inbox pinged, sent⟩ (.out buffer random) =
      Port.takeReport s ⟨t, .free inbox pinged, sent⟩ pinged (intake inbox buffer random) :=
  if_pos (Or.inr hrunning)

/-- While the reports of a request arrive the session stands still; the last one is one event
of it. -/
theorem request_serves (hchannel : channel < 2 ^ 16) (hclean : Event.Clean (.apdu m))
    (hstep : t.step (.apdu m) = some t') (k : ℕ) :
    k < hidLayout.count m.length → ∀ sent : List Bytes,
      (port s).Serves Port.Expects Port.sent ⟨t, .free (inboxAt channel m k) false, sent⟩
        (outEvents random (reportsFrom channel m k))
        (Port.proceed s channel (.pending channel) t').sent
        (Port.proceed s channel (.pending channel) t') := by
  have hreceives : t.stage = .running ∧ t.Receives m := by
    by_contra hc
    rw [Session.step, if_neg hc] at hstep
    cases hstep
  obtain ⟨hrunning, -, hpos, hfits, -⟩ := hreceives
  induction k using @Layout.framesFrom_induction hidLayout m.length with
  | hend k h => exact fun hk => absurd hk (by omega)
  | hframe k h ih =>
    intro _ sent
    have hintake : intake (inboxAt channel m k) (report channel m k) random = _ :=
      intake_report hchannel hfits h
    have htakes : Port.Expects ⟨t, .free (inboxAt channel m k) false, sent⟩
        (.out (report channel m k) random) := by
      refine ⟨report_length channel m k, Or.inl (report_tag channel m k), rfl, ?_⟩
      rw [hintake]
      split_ifs
      · trivial
      · exact ⟨List.length_pos_iff.mp hpos, hclean⟩
    rw [reportsFrom, Layout.framesFrom_cons h, outEvents, List.map_cons]
    by_cases hmore : k + 1 < hidLayout.count m.length
    · rw [if_pos hmore] at hintake
      refine (ih hmore []).cons htakes ((step_out_free hrunning).trans ?_)
      rw [hintake]
      rfl
    · rw [if_neg hmore] at hintake
      rw [Layout.framesFrom_nil (Nat.le_of_not_lt hmore), List.map_nil]
      refine serves_singleton htakes ((step_out_free hrunning).trans ?_)
      rw [hintake, Port.takeReport, hstep, Option.map_some]

end Assembly

section Replies
variable {channel : ℕ} {s : Suite} {t t' : Session}

theorem port_step (s : Suite) (p : Port) (e : UsbEvent) : (port s).step p e = p.step s e := rfl

/-- The host reads a reply on. -/
theorem reply_serves (t : Session) (channel : ℕ) (reply : Bytes) (k : ℕ) :
    k ≤ hidLayout.count reply.length → ∀ sent : List Bytes,
      (port s).Serves Port.Expects Port.sent ⟨t, .sending (reportsFrom channel reply k), sent⟩
        (List.replicate (hidLayout.count reply.length - k + 1) .ack)
        (reportsFrom channel reply k) ⟨t, .free none false, []⟩ := by
  induction k using @Layout.framesFrom_induction hidLayout reply.length with
  | hend k h =>
    intro _ sent
    have hlive : Port.Live ⟨t, .sending [], sent⟩ := Or.inl rfl
    have hstep : Port.step s ⟨t, .sending [], sent⟩ .ack = some ⟨t, .free none false, []⟩ := by
      rw [Port.step, if_pos hlive]
    rw [reportsFrom, Layout.framesFrom_nil h, Nat.sub_eq_zero_of_le h]
    exact serves_singleton trivial ((port_step s _ _).trans hstep)
  | hframe k h ih =>
    intro _ sent
    have hlive : Port.Live ⟨t, .sending (report channel reply k :: reportsFrom channel reply (k + 1)),
        sent⟩ := Or.inl rfl
    have hstep : Port.step s
        ⟨t, .sending (report channel reply k :: reportsFrom channel reply (k + 1)), sent⟩ .ack =
          some ⟨t, .sending (reportsFrom channel reply (k + 1)), [report channel reply k]⟩ := by
      rw [Port.step, if_pos hlive]
    have hcount : hidLayout.count reply.length - k + 1 =
        hidLayout.count reply.length - (k + 1) + 1 + 1 := by omega
    have hreports : reportsFrom channel reply k =
        report channel reply k :: reportsFrom channel reply (k + 1) := Layout.framesFrom_cons h
    rw [hreports, hcount, List.replicate_succ]
    exact (ih h [report channel reply k]).cons trivial ((port_step s _ _).trans hstep)

/-- What an event comes to that can answer a request: a reply, or the request is open. -/
def Session.Answers (t : Session) : Prop :=
  (t.wire = [] ∧ (t.stage = .running → t.view.asked ≠ none)) ∨
    ∃ reply, t.wire = [reply] ∧ t.view.asked = none

theorem blanked_asked (owner : Owner) (view : View) : (view.blanked owner).asked = view.asked := by
  cases view with
  | menu entries currentEntry => rfl
  | prompt p2 query => rfl
  | compare shown query moves =>
    rw [View.blanked]
    split_ifs <;> rfl

theorem cleared_asked (owner : Owner) (t : Session) :
    (t.cleared owner).view.asked = t.view.asked := blanked_asked owner t.view

/-- A request is answered, is left open, or ends the application. -/
theorem answered_answers (hasked : t.view.asked = none) (response : Response) :
    (t.answered response).Answers := by
  cases response with
  | refuse sw =>
    refine Or.inr ⟨.status sw, rfl, ?_⟩
    exact (cleared_asked _ _).trans ((cleared_asked _ _).trans hasked)
  | reply payload => exact Or.inr ⟨.plain payload, rfl, hasked⟩
  | store acc => exact Or.inr ⟨.status swOk, rfl, hasked⟩
  | give p1 p2 query =>
    rw [Session.answered]
    split_ifs
    · exact Or.inl ⟨rfl, fun _ => by simp [View.asked]⟩
    · exact Or.inr ⟨.payload p2 query, rfl, (cleared_asked _ _).trans hasked⟩
  | exit => exact Or.inr ⟨.status swOk, rfl, hasked⟩
  | leave => exact Or.inl ⟨rfl, fun hrunning => by cases hrunning⟩

/-- Without an open request a button has no reply and opens none. -/
theorem pressed_free (hasked : t.view.asked = none) (mask : UInt32) :
    (t.pressed mask).wire = [] ∧ (t.pressed mask).view.asked = none := by
  rw [Session.pressed]
  cases hview : t.view with
  | prompt p2 query =>
    rw [hview] at hasked
    cases hasked
  | menu entries currentEntry =>
    cases hentry : Session.menuEntry entries currentEntry mask with
    | none => simp only [hentry, View.asked, and_self]
    | some entry => simp only [hentry, View.asked, and_self]
  | compare owner query moves =>
    cases Session.moveOf mask with
    | some move => exact ⟨rfl, rfl⟩
    | none =>
      dsimp only
      split_ifs <;> exact ⟨rfl, rfl⟩

/-- A button answers an open request, or leaves it open. -/
theorem pressed_answers (hasked : t.view.asked ≠ none) (mask : UInt32) :
    (t.pressed mask).Answers := by
  rw [Session.pressed]
  cases hview : t.view with
  | menu entries currentEntry => exact absurd (by rw [hview]; rfl) hasked
  | compare owner query moves => exact absurd (by rw [hview]; rfl) hasked
  | prompt p2 query =>
    dsimp only
    split_ifs
    · exact Or.inr ⟨_, rfl, rfl⟩
    · exact Or.inr ⟨_, rfl, rfl⟩
    · exact Or.inl ⟨rfl, fun _ => by simp [View.asked]⟩

/-- Between two exchanges the transport is free, or the request is open that has come last. -/
def Port.Rests (channel : ℕ) (p : Port) : Prop :=
  p.session.stage = .running →
    p.exchange = if p.session.view.asked = none then .free none false else .pending channel

/-- A reply leaves in its reports, which the host acknowledges. -/
theorem proceed_serves (channel : ℕ) (h : t.Answers) :
    ∃ out p, (port s).Serves Port.Expects Port.sent (Port.proceed s channel (.pending channel) t)
        ((t.wire.map s.render).flatMap ackEvents) out p ∧
      (Port.proceed s channel (.pending channel) t).sent ++ out =
        (t.wire.map s.render).flatMap (reports channel) ∧
      p.session = t ∧ p.Rests channel := by
  rcases h with ⟨hwire, hasked⟩ | ⟨reply, hwire, hasked⟩
  · rw [Port.proceed, hwire]
    exact ⟨[], ⟨t, .pending channel, []⟩, serves_nil _, rfl, rfl,
      fun hrunning => (if_neg (hasked hrunning)).symm⟩
  · have hcount := hidLayout.count_pos (s.render reply).length
    have hserves := reply_serves (s := s) t channel (s.render reply) 1 hcount
      [report channel (s.render reply) 0]
    rw [Nat.sub_add_cancel hcount] at hserves
    have hreports : report channel (s.render reply) 0 :: reportsFrom channel (s.render reply) 1 =
        reports channel (s.render reply) := by
      rw [reports, reportsFrom, reportsFrom, Layout.framesFrom_cons hcount]
    rw [Port.proceed, hwire]
    simp only [List.map_cons, List.map_nil, List.flatMap_cons, List.flatMap_nil, List.append_nil,
      List.singleton_append]
    exact ⟨_, _, hserves, hreports, rfl, fun _ => (if_pos hasked).symm⟩

/-- One event of the application, as the bus carries it. -/
theorem event_serves {e : Event} {p : Port} {random : Buffer 4} (hchannel : channel < 2 ^ 16)
    (hsession : p.session = t) (hrests : p.Rests channel) (hbus : e.OnBus)
    (hstep : t.step e = some t') :
    ∃ bus p', busEvents channel random (e, t'.wire.map s.render) = some bus ∧
      (port s).Serves Port.Expects Port.sent p bus
        ((t'.wire.map s.render).flatMap (reports channel)) p' ∧
      p'.session = t' ∧ p'.Rests channel := by
  obtain ⟨u, exchange, sent⟩ := p
  change u = t at hsession
  subst hsession
  cases e with
  | ioThrow code => cases hbus
  | apdu bytes =>
    have hreceives : u.stage = .running ∧ u.Receives bytes := by
      by_contra hc
      rw [Session.step, if_neg hc] at hstep
      cases hstep
    have hstep' := hstep
    rw [Session.step, if_pos hreceives, Option.some.injEq] at hstep'
    obtain ⟨hrunning, hasked, -, hfits, -⟩ := hreceives
    obtain rfl : exchange = .free none false := (hrests hrunning).trans (if_pos hasked)
    have hwrites := commandWrites_eq hchannel (m := bytes) (hfits.trans_lt (by decide))
    have hanswers : t'.Answers := hstep' ▸ answered_answers hasked _
    obtain ⟨out, p', hserves, hout, hsession', hrests'⟩ := proceed_serves (s := s) channel hanswers
    have hrequest := @request_serves _ _ s _ _ random hchannel hbus hstep 0
      (hidLayout.count_pos _) sent
    refine ⟨_, p', by rw [busEvents, hwrites, Option.map_some], ?_, hsession', hrests'⟩
    rw [← hout]
    exact hrequest.append hserves
  | button mask =>
    have hrunning : u.stage = .running := by
      by_contra hc
      rw [Session.step, if_neg hc] at hstep
      cases hstep
    have hstep' := hstep
    rw [Session.step, if_pos hrunning, Option.some.injEq] at hstep'
    by_cases hasked : u.view.asked = none
    · obtain rfl : exchange = .free none false := (hrests hrunning).trans (if_pos hasked)
      obtain ⟨hwire, hasked'⟩ := hstep' ▸ pressed_free hasked mask
      have hport : (port s).step ⟨u, .free none false, sent⟩ (.button mask) =
          some ⟨t', .free none false, []⟩ := by
        change (u.step (.button mask)).map _ = _
        rw [hstep, Option.map_some, Port.proceed, hwire]
      refine ⟨_, ⟨t', .free none false, []⟩, rfl, ?_, rfl, fun _ => (if_pos hasked').symm⟩
      rw [hwire]
      exact serves_singleton trivial hport
    · obtain rfl : exchange = .pending channel := (hrests hrunning).trans (if_neg hasked)
      have hanswers : t'.Answers := hstep' ▸ pressed_answers hasked mask
      obtain ⟨out, p', hserves, hout, hsession', hrests'⟩ :=
        proceed_serves (s := s) channel hanswers
      have hport : (port s).step ⟨u, .pending channel, sent⟩ (.button mask) =
          some (Port.proceed s channel (.pending channel) t') := by
        change (u.step (.button mask)).map _ = _
        rw [hstep, Option.map_some]
      refine ⟨_, p', rfl, ?_, hsession', hrests'⟩
      rw [← hout]
      exact hserves.cons trivial hport

end Replies

section Runs
variable {channel : ℕ} {s : Suite} {random : Buffer 4}

/-- A run of the session, as the bus carries it. -/
theorem traffic_serves (hchannel : channel < 2 ^ 16) {events : List Event}
    (hevents : ∀ event ∈ events, event.OnBus) {t : Session} {p : Port} (hsession : p.session = t)
    (hrests : p.Rests channel) :
    ∃ bus p', traffic channel random
        (events.zip (session.outputs (fun t => [t.wire.map s.render]) t events)) = some bus ∧
      (port s).Serves Port.Expects Port.sent p bus
        ((session.outputs (fun t => t.wire.map s.render) t events).flatMap (reports channel)) p' ∧
      ∀ t', session.run t events = some t' → p'.session = t' := by
  induction events generalizing t p with
  | nil =>
    refine ⟨[], p, rfl, serves_nil p, fun t' ht' => ?_⟩
    rw [run_nil, Option.some.injEq] at ht'
    exact hsession.trans ht'
  | cons e events ih =>
    cases hstep : session.step t e with
    | none =>
      refine ⟨[], p, ?_, ?_, fun t' ht' => ?_⟩
      · simp only [System.outputs, hstep, List.zip_nil_right, traffic]
      · simp only [System.outputs, hstep, List.flatMap_nil]
        exact serves_nil p
      · simp only [System.run, hstep, Option.bind_none] at ht'
        cases ht'
    | some u =>
      obtain ⟨first, q, hfirst, hserves, hsession', hrests'⟩ := @event_serves channel s _ _ e p
        random hchannel hsession hrests (hevents e List.mem_cons_self) hstep
      obtain ⟨rest, p', hrest, hserves', hend⟩ :=
        ih (fun f hf => hevents f (List.mem_cons_of_mem e hf)) hsession' hrests'
      refine ⟨first ++ rest, p', ?_, ?_, fun t' ht' => hend t' ?_⟩
      · rw [outputs_cons hstep, List.singleton_append, List.zip_cons_cons, traffic, hfirst, hrest]
        rfl
      · rw [outputs_cons hstep, List.flatMap_append]
        exact hserves.append hserves'
      · rwa [run_cons session hstep] at ht'

/-- The host makes the replies of the reports of replies. -/
theorem exchangeResults_replies (hchannel : channel < 2 ^ 16) {replies : List Bytes}
    (hreplies : ∀ reply ∈ replies, reply.length < 2 ^ 16) :
    exchangeResults channel (replies.flatMap (reports channel)) =
      .ok (replies.map checkStatus) := by
  induction replies with
  | nil => rw [List.flatMap_nil, exchangeResults, List.map_nil]
  | cons reply replies ih =>
    have hlen := hreplies reply List.mem_cons_self
    have hreports : reports channel reply = report channel reply 0 :: reportsFrom channel reply 1 := by
      rw [reports, reportsFrom, reportsFrom, Layout.framesFrom_cons (hidLayout.count_pos _)]
    have hread := readResponse_eq hchannel hlen (replies.flatMap (reports channel))
    rw [List.flatMap_cons, hreports, List.cons_append, exchangeResults]
    split
    next e he =>
      rw [hread] at he
      cases he
    next hnone =>
      rw [hread] at hnone
      cases hnone
    next response hsome =>
      rw [hread] at hsome
      cases hsome
      rw [ih fun r hr => hreplies r (List.mem_cons_of_mem reply hr)]
      rfl

theorem Event.OnBus.clean {e : Event} (h : e.OnBus) : e.Clean := by
  cases e with
  | apdu bytes => exact h
  | button mask => exact h
  | ioThrow code => cases h

/-- The replies of a host's requests fit the APDU buffer. -/
theorem outputs_fit {crypto : Crypto} {apdu : Buffer ioApduBufferSize} {events : List Event}
    (hevents : ∀ event ∈ events, event.OnBus) :
    ∀ reply ∈ (app crypto).outputs Device.wire (boot apdu) events,
      reply.length ≤ ioApduBufferSize := by
  intro reply h
  obtain ⟨first, event, rest, d', rfl, hrun, hreply⟩ := mem_outputs h
  obtain ⟨d, hfirst, hstep⟩ := run_concat hrun
  have hinv : d.Inv := reachable_inv ⟨boot apdu, first, ⟨apdu, rfl⟩, fun _ _ => trivial, hfirst⟩
  have hbus := hevents event (List.mem_append_right _ List.mem_cons_self)
  cases event with
  | apdu bytes =>
    have hstep : step crypto d (.apdu bytes) = some d' := hstep
    exact (step_apdu_hasReplies hinv hstep reply hreply).2
  | button mask =>
    have hstep : step crypto d (.button mask) = some d' := hstep
    exact (step_button_hasReplies hinv hstep reply hreply).2
  | ioThrow code => cases hbus

end Runs

end IostLedger
