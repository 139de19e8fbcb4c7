import IostLedger.Transmission

/-! The transport alone, under calls in any order: the callbacks of the USB stack, the replies of
an application that may do anything else with its memory, and resets. -/
namespace IostLedger
open Memory Exec Machine Framing

/-- The calls of the transport. -/
inductive TransportCall where
  | receive (buffer : Bytes) (random : Buffer 4)
  | sent
  | send (sndlength : ℕ)
  | init
  /-- The application has gone on. -/
  | app (device : Device)

/-- The state after code that has stayed inside its buffers. -/
def survived {α : Type} : EStateM.Result Fault Link α → Option Link
  | .ok _ l => some l
  | .error _ _ => none

def Link.call (l : Link) : TransportCall → Option Link
  | .receive buffer random => survived ((ioUsbHidReceive buffer random).run l)
  | .sent => survived (ioUsbHidSent.run l)
  | .send sndlength => survived ((ioUsbHidSend sndlength).run l)
  | .init => some (ioUsbHidInit l)
  | .app device => some { l with device := device }

/-- The transport as a system. -/
def transport : System Link TransportCall where
  start l := ∃ apdu, l = Link.boot apdu
  step := Link.call

/-- A report fits its endpoint, and a reply the APDU buffer. -/
def TransportCall.Proper : TransportCall → Prop
  | .receive buffer _ => buffer.length ≤ ioHidEpLength
  | .send sndlength => sndlength ≤ ioApduBufferSize
  | _ => True

/-- A packet that is shorter than its header, where more is missing than a report can hold: the
length that is left for the chunk has wrapped around. -/
def Link.Overreads (l : Link) (buffer : Bytes) : Prop :=
  buffer.getD 2 0 = tagApdu ∧ u2be buffer 3 = l.sequenceNumber ∧
    if l.sequenceNumber = 0 then
      buffer.length < 7 ∧ ioHidEpLength - 7 < u2be buffer 5 ∧ u2be buffer 5 ≤ ioApduBufferSize
    else buffer.length < 5 ∧ ioHidEpLength - 5 < l.remainingLength

/-- What is still to be received or sent lies in the APDU buffer. -/
def Link.Inside (l : Link) : Prop :=
  match l.currentBuffer with
  | some i => i + l.remainingLength ≤ ioApduBufferSize
  | none => l.remainingLength = 0

section Calls
variable {l : Link} {off len : ℕ}

theorem inside_init (l : Link) : (ioUsbHidInit l).Inside := rfl

theorem Link.Inside.remaining (h : l.Inside) : l.remainingLength ≤ ioApduBufferSize := by
  unfold Link.Inside at h
  split at h <;> omega

theorem Link.Inside.advance (h : l.Inside) (hlen : len ≤ l.remainingLength) :
    (Link.advance len l).Inside := by
  unfold Link.Inside at h ⊢
  cases hcurrent : l.currentBuffer with
  | none =>
    simp only [hcurrent] at h
    simp only [Link.advance, hcurrent, Option.map_none, h, Nat.zero_sub]
  | some i =>
    simp only [hcurrent] at h
    simp only [Link.advance, hcurrent, Option.map_some]
    omega

/-- What belongs to the message can be stored. -/
theorem Link.Inside.store {data : Bytes} (h : l.Inside) (hlen : data.length ≤ l.remainingLength) :
    ∃ device, l.store data = some device := by
  unfold Link.Inside at h
  cases hcurrent : l.currentBuffer with
  | none =>
    simp only [hcurrent] at h
    have hnil : data = [] := List.eq_nil_of_length_eq_zero (by omega)
    exact ⟨l.device, by simp only [Link.store, hcurrent, hnil, if_pos]⟩
  | some i =>
    simp only [hcurrent] at h
    refine ⟨{ l.device with apdu := l.device.apdu.splice i data }, ?_⟩
    simp only [Link.store, hcurrent]
    rw [Buffer.write?_of_le (by omega), Option.map_some]

/-- A chunk leaves the buffers exactly where it is longer than the report. -/
theorem appendChunk_wp (h : l.Inside) (hlen : len ≤ l.remainingLength) :
    Wp (appendChunk off len) (fun _ l' => off + len ≤ ioHidEpLength ∧ l'.Inside)
      (fun _ _ => ioHidEpLength < off + len) l := by
  simp only [appendChunk, wp_bind, wp_get]
  by_cases hread : off + len ≤ ioHidEpLength
  · have hdata : ((l.epBuffer.bytes.drop off).take len).length ≤ l.remainingLength :=
      (List.length_take_le _ _).trans hlen
    obtain ⟨device, hstore⟩ := h.store hdata
    rw [Buffer.read?_of_le hread, inRange_some, wp_ofChecked_ok, hstore, inRange_some,
      wp_ofChecked_ok, wp_set]
    have hinside : Link.Inside { l with device := device } := h
    exact ⟨hread, hinside.advance hlen⟩
  · have hnone : l.epBuffer.read? off len = none := if_neg hread
    rw [hnone, inRange_none, wp_ofChecked]
    exact ⟨fun a ha => (by cases ha), fun _ _ => Nat.lt_of_not_le hread⟩

theorem receiveStatus_wp (h : l.Inside) {err : Fault → Link → Prop} :
    Wp receiveStatus (fun _ l' => l'.Inside) err l := by
  simp only [receiveStatus, wp_bind, wp_get, wp_ite, wp_pure, wp_modify]
  exact ⟨fun _ => h, fun _ => inside_init l⟩

/-- A chunk is sent from within the APDU buffer, and its report from within the endpoint's. -/
theorem sendChunk_wp {i : ℕ} (h : l.Inside) (hcurrent : l.currentBuffer = some i) :
    Wp (sendChunk i) (fun _ l' => l'.Inside) (fun _ _ => False) l := by
  have hfits : i + l.remainingLength ≤ ioApduBufferSize := by
    unfold Link.Inside at h
    rwa [hcurrent] at h
  simp only [sendChunk, wp_bind, wp_get, ioUsbSendApduData, room_eq]
  have hroom := room_le l.sequenceNumber
  generalize hlen : (if hidLayout.room l.sequenceNumber < l.remainingLength
    then hidLayout.room l.sequenceNumber else l.remainingLength) = len
  have hle : len ≤ l.remainingLength ∧ len ≤ hidLayout.room l.sequenceNumber := by
    rw [← hlen]
    split_ifs <;> omega
  have hread := Buffer.read?_of_le (b := l.device.apdu) (show i + len ≤ ioApduBufferSize by omega)
  have hwrite : ∃ epBuffer, (Buffer.zero ioHidEpLength).write? 0
      (reportHeader l.channel l.remainingLength l.sequenceNumber ++
        (l.device.apdu.bytes.drop i).take len) = some epBuffer := by
    refine ⟨_, Buffer.write?_of_le ?_⟩
    rw [List.length_append, reportHeader_length, List.length_take]
    omega
  obtain ⟨epBuffer, hwrite⟩ := hwrite
  rw [hread, inRange_some, wp_ofChecked_ok, hwrite, inRange_some, wp_ofChecked_ok, wp_set,
    wp_modify]
  have hinside : Link.Inside { l with epBuffer := epBuffer } := h
  exact hinside.advance hle.1

theorem ioUsbHidSent_wp (h : l.Inside) :
    Wp ioUsbHidSent (fun _ l' => l'.Inside) (fun _ _ => False) l := by
  simp only [ioUsbHidSent, wp_bind, wp_get]
  cases hcurrent : l.currentBuffer with
  | none => exact inside_init l
  | some i =>
    simp only [wp_ite, wp_modify]
    exact ⟨fun _ => sendChunk_wp h hcurrent, fun _ => inside_init l⟩

theorem ioUsbHidSend_wp {sndlength : ℕ} (h : l.Inside) (hfits : sndlength ≤ ioApduBufferSize) :
    Wp (ioUsbHidSend sndlength) (fun _ l' => l'.Inside) (fun _ _ => False) l := by
  rw [ioUsbHidSend, wp_ite]
  refine ⟨fun _ => ?_, fun _ => h⟩
  simp only [wp_bind, wp_modify]
  apply ioUsbHidSent_wp
  change 0 + sndlength ≤ ioApduBufferSize
  omega

/-- A chunk and the status behind it; `leaves` says when it is longer than the report. -/
theorem chunk_wp {leaves : Prop} (h : l.Inside) (hlen : len ≤ l.remainingLength)
    (hleaves : leaves ↔ ioHidEpLength < off + len) :
    Wp (appendChunk off len) (fun _ l₁ => Wp receiveStatus (fun _ l' => ¬ leaves ∧ l'.Inside)
      (fun _ _ => leaves) l₁) (fun _ _ => leaves) l := by
  refine (appendChunk_wp h hlen).mono (fun _ l₁ h₁ => ?_) fun _ _ hlong => hleaves.mpr hlong
  have hstatus : Wp receiveStatus (fun _ l' => l'.Inside) (fun _ _ => leaves) l₁ :=
    receiveStatus_wp h₁.2
  exact hstatus.mono (fun _ _ h' => ⟨fun hc => absurd (hleaves.mp hc) (Nat.not_lt.mpr h₁.1), h'⟩)
    fun _ _ hc => hc

/-- The room for a chunk, as it is computed from the length of the report. -/
theorem subU16_next {n : ℕ} (hn : n ≤ ioHidEpLength) :
    subU16 n 5 = if 5 ≤ n then n - 5 else 2 ^ 16 + n - 5 := by
  rw [ioHidEpLength] at hn
  rw [subU16]
  split_ifs <;> omega

theorem subU16_first {n : ℕ} (hn : n ≤ ioHidEpLength) :
    subU16 (subU16 n 5) 2 = if 7 ≤ n then n - 7 else 2 ^ 16 + n - 7 := by
  rw [ioHidEpLength] at hn
  rw [subU16, subU16]
  split_ifs <;> omega

theorem getD_append_zeros (bytes : Bytes) (n off : ℕ) :
    (bytes ++ List.replicate n 0).getD off 0 = bytes.getD off 0 := by
  rw [List.getD_eq_getElem?_getD, List.getD_eq_getElem?_getD]
  by_cases h : off < bytes.length
  · rw [List.getElem?_append_left h]
  · rw [List.getElem?_append_right (by omega), List.getElem?_eq_none (by omega : bytes.length ≤ off)]
    rw [List.getElem?_replicate]
    split_ifs <;> rfl

theorem epBuffer_padded {buffer : Bytes} (h : buffer.length ≤ ioHidEpLength) :
    ((Buffer.zero ioHidEpLength).splice 0 (buffer.take ioHidEpLength)).bytes = padded buffer := by
  rw [List.take_of_length_le h, Buffer.splice_bytes (by omega), List.take_zero, List.nil_append,
    Buffer.zero_bytes, List.drop_replicate, Nat.zero_add, padded]

theorem getD_padded (buffer : Bytes) (off : ℕ) : (padded buffer).getD off 0 = buffer.getD off 0 :=
  getD_append_zeros buffer _ off

theorem u2be_padded (buffer : Bytes) (off : ℕ) : u2be (padded buffer) off = u2be buffer off := by
  rw [u2be, u2be, getD_padded, getD_padded]

section Packets
variable {bytes : Bytes} {n : ℕ}

/-- A packet out of turn. -/
theorem receiveApduChunk_turn (hbytes : l.epBuffer.bytes = bytes)
    (hnumber : u2be bytes 3 ≠ l.sequenceNumber) :
    (receiveApduChunk n).run l = .ok .reset (ioUsbHidInit l) := by
  simp only [receiveApduChunk, EStateM.run_bind, EStateM.run_get, hbytes, if_pos hnumber]
  rfl

/-- A first packet that announces too much. -/
theorem receiveApduChunk_long (hbytes : l.epBuffer.bytes = bytes)
    (hnumber : u2be bytes 3 = l.sequenceNumber) (hfirst : l.sequenceNumber = 0)
    (hlong : ioApduBufferSize < u2be bytes 5) :
    ∃ l', (receiveApduChunk n).run l = .ok .reset (ioUsbHidInit l') := by
  simp only [receiveApduChunk, EStateM.run_bind, EStateM.run_get, hbytes, hnumber, hfirst, hlong,
    ne_eq, not_true_eq_false, if_false, if_true, EStateM.run_set]
  exact ⟨_, rfl⟩

/-- The state in which the first chunk is stored. -/
def Link.announced (l : Link) (channel total : ℕ) : Link :=
  { l with
    totalLength := total
    remainingLength := total
    currentBuffer := some 0
    channel := channel }

theorem receiveApduChunk_first (hbytes : l.epBuffer.bytes = bytes)
    (hnumber : u2be bytes 3 = l.sequenceNumber) (hfirst : l.sequenceNumber = 0)
    (hfits : u2be bytes 5 ≤ ioApduBufferSize) :
    (receiveApduChunk n).run l =
      (appendChunk 7 (if u2be bytes 5 < subU16 (subU16 n 5) 2 then u2be bytes 5
        else subU16 (subU16 n 5) 2) >>= fun _ => receiveStatus).run
        (l.announced (u2be bytes 0) (u2be bytes 5)) := by
  have hturn : ¬ u2be bytes 3 ≠ l.sequenceNumber := not_not_intro hnumber
  rw [receiveApduChunk, EStateM.run_bind, EStateM.run_get]
  simp only [hbytes]
  rw [if_neg hturn, if_pos hfirst, EStateM.run_bind, EStateM.run_set]
  simp only []
  rw [if_neg (Nat.not_lt.mpr hfits), EStateM.run_bind, EStateM.run_set]
  rfl

theorem receiveApduChunk_next (hbytes : l.epBuffer.bytes = bytes)
    (hnumber : u2be bytes 3 = l.sequenceNumber) (hlater : l.sequenceNumber ≠ 0) :
    (receiveApduChunk n).run l =
      (appendChunk 5 (if l.remainingLength < subU16 n 5 then l.remainingLength else subU16 n 5) >>=
        fun _ => receiveStatus).run l := by
  have hturn : ¬ u2be bytes 3 ≠ l.sequenceNumber := not_not_intro hnumber
  rw [receiveApduChunk, EStateM.run_bind, EStateM.run_get]
  simp only [hbytes]
  rw [if_neg hturn, if_neg hlater]

end Packets

/-- An APDU packet leaves the buffers exactly where it is too short for its header and more is
missing than a report can hold. -/
theorem receiveApduChunk_wp {buffer : Bytes} (h : l.Inside) (hlen : buffer.length ≤ ioHidEpLength)
    (htag : buffer.getD 2 0 = tagApdu) (hbytes : l.epBuffer.bytes = padded buffer) :
    Wp (receiveApduChunk buffer.length) (fun _ l' => ¬ l.Overreads buffer ∧ l'.Inside)
      (fun _ _ => l.Overreads buffer) l := by
  have hover : l.Overreads buffer ↔ u2be buffer 3 = l.sequenceNumber ∧
      if l.sequenceNumber = 0 then
        buffer.length < 7 ∧ ioHidEpLength - 7 < u2be buffer 5 ∧ u2be buffer 5 ≤ ioApduBufferSize
      else buffer.length < 5 ∧ ioHidEpLength - 5 < l.remainingLength := by
    rw [Link.Overreads]
    exact and_iff_right htag
  rw [← u2be_padded buffer 3, ← u2be_padded buffer 5] at hover
  by_cases hnumber : u2be (padded buffer) 3 = l.sequenceNumber
  · by_cases hfirst : l.sequenceNumber = 0
    · rw [if_pos hfirst, and_iff_right hnumber] at hover
      by_cases hlong : ioApduBufferSize < u2be (padded buffer) 5
      · obtain ⟨l', hrun⟩ := receiveApduChunk_long (n := buffer.length) hbytes hnumber hfirst hlong
        rw [wp_of_run_ok hrun, hover]
        exact ⟨fun hc => Nat.not_le.mpr hlong hc.2.2, inside_init _⟩
      · have hfits := Nat.le_of_not_lt hlong
        have hinside : (l.announced (u2be (padded buffer) 0) (u2be (padded buffer) 5)).Inside := by
          change 0 + u2be (padded buffer) 5 ≤ ioApduBufferSize
          rwa [Nat.zero_add]
        rw [Wp, receiveApduChunk_first hbytes hnumber hfirst hfits, subU16_first hlen]
        refine (wp_bind _ _).mpr (chunk_wp hinside ?_ ?_)
        · change _ ≤ u2be (padded buffer) 5
          split_ifs <;> omega
        · rw [hover]
          rw [ioHidEpLength, ioApduBufferSize] at *
          split_ifs <;> omega
    · rw [if_neg hfirst, and_iff_right hnumber] at hover
      have hremaining := h.remaining
      rw [Wp, receiveApduChunk_next hbytes hnumber hfirst, subU16_next hlen]
      refine (wp_bind _ _).mpr (chunk_wp h ?_ ?_)
      · split_ifs <;> omega
      · rw [hover]
        rw [ioHidEpLength, ioApduBufferSize] at *
        split_ifs <;> omega
  · rw [wp_of_run_ok (receiveApduChunk_turn hbytes hnumber), hover]
    exact ⟨fun hc => hnumber hc.1, inside_init l⟩

/-- The exact condition on which a report is read behind its end. -/
theorem ioUsbHidReceive_wp {buffer : Bytes} {random : Buffer 4} (h : l.Inside)
    (hlen : buffer.length ≤ ioHidEpLength) :
    Wp (ioUsbHidReceive buffer random) (fun _ l' => ¬ l.Overreads buffer ∧ l'.Inside)
      (fun _ _ => l.Overreads buffer) l := by
  have hbytes := epBuffer_padded hlen
  have hinside : Link.Inside { l with
      epBuffer := (Buffer.zero _).splice 0 (buffer.take ioHidEpLength) } := h
  simp only [ioUsbHidReceive, wp_bind, wp_modify, wp_get, wp_ite, hbytes, getD_padded]
  refine ⟨fun htag => ?_, fun htag => ?_⟩
  · exact receiveApduChunk_wp hinside hlen htag hbytes
  · have hnot : ¬ l.Overreads buffer := fun hc => htag hc.1
    have hanswer (data : Bytes) (l₁ : Link) : Wp (answerPacket data)
        (fun _ l' => ¬ l.Overreads buffer ∧ l'.Inside) (fun _ _ => l.Overreads buffer) l₁ := by
      rw [Wp, answerPacket_run]
      exact ⟨hnot, inside_init _⟩
    refine ⟨fun _ => hanswer _ _, fun _ => ⟨fun _ => hanswer _ _, fun _ => ⟨fun _ => hanswer _ _,
      fun _ => ?_⟩⟩⟩
    have hstatus : Wp receiveStatus (fun _ l' => l'.Inside) (fun _ _ => l.Overreads buffer) _ :=
      receiveStatus_wp hinside
    exact hstatus.mono (fun _ _ h' => ⟨hnot, h'⟩) fun _ _ hc => hc

end Calls

section Runs
variable {l l' : Link} {call : TransportCall}

/-- What a weakest precondition says about a call. -/
theorem survived_of_wp {α : Type} {x : LinkRun α} {post : Link → Prop} {err : Prop}
    (h : Wp x (fun _ l' => ¬ err ∧ post l') (fun _ _ => err) l) :
    (survived (x.run l) = none ↔ err) ∧ ∀ l', survived (x.run l) = some l' → post l' := by
  unfold Wp at h
  cases hrun : x.run l with
  | ok a l₁ =>
    rw [hrun] at h
    refine ⟨⟨fun hc => (by cases hc), fun hc => absurd hc h.1⟩, fun l' hl' => ?_⟩
    cases hl'
    exact h.2
  | error e l₁ =>
    rw [hrun] at h
    exact ⟨⟨fun _ => h, fun _ => rfl⟩, fun l' hl' => by cases hl'⟩

/-- A call of the transport stays inside its buffers, or it reads a report behind its end. -/
theorem Link.Inside.call_iff (h : l.Inside) (hproper : call.Proper) :
    (l.call call = none ↔ ∃ buffer random, call = .receive buffer random ∧ l.Overreads buffer) ∧
      ∀ l', l.call call = some l' → l'.Inside := by
  have hsafe {α : Type} {x : LinkRun α} (hwp : Wp x (fun _ l' => l'.Inside) (fun _ _ => False) l) :
      survived (x.run l) ≠ none ∧ ∀ l', survived (x.run l) = some l' → l'.Inside := by
    have hwp' := survived_of_wp (hwp.mono (fun _ _ h => ⟨not_false, h⟩) fun _ _ hc => hc)
    exact ⟨fun hc => hwp'.1.mp hc, hwp'.2⟩
  cases call with
  | receive buffer random =>
    have hwp := survived_of_wp (@ioUsbHidReceive_wp _ _ random h hproper)
    refine ⟨hwp.1.trans ⟨fun hc => ⟨buffer, random, rfl, hc⟩, ?_⟩, hwp.2⟩
    rintro ⟨_, _, heq, hc⟩
    cases heq
    exact hc
  | sent =>
    obtain ⟨hsome, hinside⟩ := hsafe (ioUsbHidSent_wp h)
    exact ⟨⟨fun hc => absurd hc hsome, fun ⟨_, _, heq, _⟩ => by cases heq⟩, hinside⟩
  | send sndlength =>
    obtain ⟨hsome, hinside⟩ := hsafe (ioUsbHidSend_wp h hproper)
    exact ⟨⟨fun hc => absurd hc hsome, fun ⟨_, _, heq, _⟩ => by cases heq⟩, hinside⟩
  | init =>
    refine ⟨⟨fun hc => (by cases hc), fun ⟨_, _, heq, _⟩ => (by cases heq)⟩, fun l' hl' => ?_⟩
    cases hl'
    exact inside_init l
  | app device =>
    refine ⟨⟨fun hc => (by cases hc), fun ⟨_, _, heq, _⟩ => (by cases heq)⟩, fun l' hl' => ?_⟩
    cases hl'
    exact h

/-- In every order of calls the transport stays inside its buffers, but for one kind of report,
and for every report of that kind. -/
theorem transport_faults_iff (hreach : transport.ReachableBy TransportCall.Proper l)
    (hproper : call.Proper) :
    l.call call = none ↔
      ∃ buffer random, call = .receive buffer random ∧ l.Overreads buffer := by
  have hstart : ∀ l, transport.start l → l.Inside := by
    rintro l ⟨apdu, rfl⟩
    rfl
  have hinside : l.Inside := hreach.invariant hstart fun _ _ l' h hcall hstep =>
    (h.call_iff hcall).2 l' hstep
  exact (hinside.call_iff hproper).1

/-- A report that ends inside its header and announces 256 bytes. -/
theorem transport_faults_iff_short :
    (Link.boot (.zero _)).call (.receive [1, 1, 5, 0, 0, 1] (.zero 4)) = none ↔
      ∃ buffer random, TransportCall.receive [1, 1, 5, 0, 0, 1] (.zero 4) = .receive buffer random ∧
        (Link.boot (.zero _)).Overreads buffer :=
  transport_faults_iff (reachable_of_start ⟨.zero _, rfl⟩) (show 6 ≤ 64 by decide)

/-- Calls whose reports have whole headers never leave the buffers. -/
theorem transport_safe (apdu : Buffer ioApduBufferSize) {calls : List TransportCall}
    (hproper : ∀ c ∈ calls, c.Proper)
    (hwhole : ∀ buffer random, .receive buffer random ∈ calls → 7 ≤ buffer.length) :
    ∃ l, transport.run (Link.boot apdu) calls = some l := by
  suffices hrun : ∀ l : Link, l.Inside → ∃ l', transport.run l calls = some l' from hrun _ rfl
  induction calls with
  | nil => exact fun l _ => ⟨l, rfl⟩
  | cons c calls ih =>
    intro l h
    obtain ⟨hfault, hnext⟩ := h.call_iff (hproper c List.mem_cons_self)
    cases hcall : l.call c with
    | none =>
      obtain ⟨buffer, random, rfl, -, -, hshort⟩ := hfault.mp hcall
      have hlong := hwhole buffer random List.mem_cons_self
      split_ifs at hshort <;> omega
    | some l' =>
      obtain ⟨l'', hrun⟩ := ih (fun c hc => hproper c (List.mem_cons_of_mem _ hc))
        (fun buffer random hc => hwhole buffer random (List.mem_cons_of_mem _ hc)) l'
        (hnext l' hcall)
      exact ⟨l'', (run_cons transport hcall calls).trans hrun⟩

end Runs

end IostLedger
