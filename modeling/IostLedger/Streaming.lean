import IostLedger.PublicKey

/-! Streamed signing: chunks that ask for more, with other commands between them, and an
empty chunk that has the hash of the message signed. -/
namespace IostLedger
open Memory Exec Machine

/-! The commands that may stand between the chunks. -/

/-- Button events, and the commands other than `SIGN_MESSAGE` that return. -/
inductive Aside : Event → Prop where
  | button (mask : UInt32) : Aside (.button mask)
  | command {ins p1 p2 : UInt8} {data : Bytes}
      (hins : ins = insEcho ∨ ins = insGetConfiguration ∨ ins = insGetPublicKey)
      (hdata : data.length ≤ 255) : Aside (.apdu (command ins p1 p2 data))

/-- Every reply the last event has caused ends with the status of a success. -/
def Device.Succeeds (d : Device) : Prop := ∀ reply ∈ d.wire, statusBytes swOk <:+ reply

instance : DecidablePred Device.Succeeds := fun d =>
  inferInstanceAs (Decidable (∀ reply ∈ d.wire, statusBytes swOk <:+ reply))

theorem not_succeeds {d : Device} {sw : UInt16} (hwire : d.wire = [statusBytes sw])
    (hsw : sw = swWrongLength ∨ sw = swInvalidP1P2 ∨ sw = swUserRejected) : ¬ d.Succeeds := by
  intro h
  have hsuffix := h (statusBytes sw) (by rw [hwire]; exact List.mem_singleton_self _)
  rcases hsw with rfl | rfl | rfl <;> exact absurd hsuffix (by decide)

section Plain
variable {d : Device} {p2 : UInt8} {data : Bytes}

theorem step_empty (crypto : Crypto) (ins p1 : UInt8) (hready : Ready d)
    (hempty : data = [] ∧ p2 &&& p2More = 0) :
    ∃ d', step crypto d (.apdu (command ins p1 p2 data)) = some d' ∧ Ready d' ∧
      d'.wire = [statusBytes swWrongLength] ∧ d'.sign = .zero ∧ d'.pk = .zero := by
  have hdata : data.length ≤ 255 := by
    rw [hempty.1]
    decide
  have hrun := processApdu_command crypto d ins p1 p2 hdata
  rw [if_pos hempty] at hrun
  exact step_refused hready hdata hrun (untouched_received hready _)
    (hready.inv.tx hready.phase) (by simp)

/-- `INS_ECHO` sends the request back. -/
theorem step_echo (crypto : Crypto) (p1 : UInt8) (hready : Ready d) (hdata : data.length ≤ 255)
    (hsome : ¬ (data = [] ∧ p2 &&& p2More = 0)) :
    ∃ d', step crypto d (.apdu (command insEcho p1 p2 data)) = some d' ∧ Ready d' ∧
      d'.wire = [command insEcho p1 p2 data ++ statusBytes swOk] ∧ d'.sign = d.sign := by
  have hsame := untouched_received hready (command insEcho p1 p2 data)
  have hrun := processApdu_command crypto d insEcho p1 p2 hdata
  rw [if_neg hsome] at hrun
  have hdispatch : (dispatch crypto insEcho p1 p2 data.length (5 + data.length)).run
      (received (command insEcho p1 p2 data) d) = .error (.thrown swOk)
        ((received (command insEcho p1 p2 data) d).setTx (5 + data.length)) := rfl
  have hecho : Untouched (received (command insEcho p1 p2 data) d)
      ((received (command insEcho p1 p2 data) d).setTx (5 + data.length)) :=
    ⟨⟨rfl, rfl, rfl⟩, ⟨hsame.bounded.sign, hsame.bounded.pk⟩, rfl, rfl⟩
  have hfit : 5 + data.length + 2 ≤ ioApduBufferSize := by
    simp only [ioApduBufferSize]
    omega
  obtain ⟨d', hstep, hready', hwire, hsign, -⟩ :=
    step_thrown hready hdata (hrun.trans hdispatch) hecho hfit (by decide)
  refine ⟨d', hstep, hready', ?_, hsign⟩
  rw [hwire, setTx_apdu, setTx_tx, received_command_apdu hdata,
    List.take_left' (command_length insEcho p1 p2 data)]
  rfl

/-- `INS_GET_CONFIGURATION` sends the configuration. -/
theorem step_configuration (crypto : Crypto) (p1 : UInt8) (hready : Ready d)
    (hdata : data.length ≤ 255)
    (hsome : ¬ (data = [] ∧ p2 &&& p2More = 0)) :
    ∃ d', step crypto d (.apdu (command insGetConfiguration p1 p2 data)) = some d' ∧ Ready d' ∧
      d'.wire = [configuration ++ statusBytes swOk] ∧ d'.sign = d.sign := by
  have hsame := untouched_received hready (command insGetConfiguration p1 p2 data)
  have htx : (received (command insGetConfiguration p1 p2 data) d).tx = 0 :=
    hready.inv.tx hready.phase
  have hrun := processApdu_command crypto d insGetConfiguration p1 p2 hdata
  rw [if_neg hsome] at hrun
  have hfit : 0 + configuration.length ≤ ioApduBufferSize := by decide
  have htake := @Buffer.take_splice_end _ (received (command insGetConfiguration p1 p2 data) d).apdu
    4 0 configuration hfit rfl
  obtain ⟨d', hstep, hready', hwire, hsign, -⟩ :=
    step_thrown hready hdata (hrun.trans (handleGetConfiguration_run htx))
      ⟨⟨rfl, rfl, rfl⟩, ⟨hsame.bounded.sign, hsame.bounded.pk⟩, rfl, rfl⟩ (by simp; decide)
      (by decide)
  refine ⟨d', hstep, hready', ?_, hsign⟩
  rw [hwire]
  simp only []
  rw [htake]
  rfl

end Plain

/-! A stream. -/

/-- A stream has collected `acc` so far, and no message waits for approval. -/
structure Streaming (acc : Bytes) (d : Device) : Prop where
  inv : d.Inv
  holds : d.sign.Holds acc
  screen : d.screen ≠ .signMessageApprove

theorem Ready.streaming {acc : Bytes} {d : Device} (h : Ready d) (hacc : d.sign.Holds acc) :
    Streaming acc d :=
  ⟨h.inv, hacc, h.inv.not_approve h.phase h.idle .signMessage⟩

section Streaming
variable {s : Suite} {acc : Bytes} {d d' : Device} {event : Event}

theorem Streaming.button {mask : UInt32} (h : Streaming acc d)
    (hstep : step s.crypto d (.button mask) = some d') (hok : d'.Succeeds) : Streaming acc d' := by
  have hinv := step_inv h.inv hstep
  rcases step_button_outcome h.inv hstep with @⟨entries, currentEntry, hscreen, hmenu⟩ |
    @⟨owner, u, idle, hscreen, -, hcompare⟩ | @⟨owner, hscreen, -, hrejected⟩ |
    @⟨owner, u, hscreen, -, -, happroved⟩ | ⟨-, -, -, hsame⟩
  · rcases uxMenuElementsButton_cases entries currentEntry mask { d with wire := [] } with
      heq | heq | ⟨entries', currentEntry', heq⟩ <;> rw [heq] at hmenu <;> subst hmenu
    · exact ⟨hinv, h.holds, h.screen⟩
    · exact ⟨hinv, h.holds, h.screen⟩
    · exact ⟨hinv, h.holds, by simp⟩
  · subst hcompare
    refine ⟨hinv, ?_, ?_⟩
    · cases idle <;> cases owner
      · exact ⟨h.holds.length, h.holds.bytes⟩
      · exact h.holds
      · exact ⟨h.holds.length, h.holds.bytes⟩
      · exact h.holds
    · cases idle
      · simpa using h.screen
      · simp [uiIdle]
  · have hwire : d'.wire = [statusBytes swUserRejected] := by
      rw [hrejected]
      exact rejected_wire owner rfl
    exact absurd hok (not_succeeds hwire (Or.inr (Or.inr rfl)))
  · cases owner with
    | signMessage => exact absurd hscreen h.screen
    | getPublicKey =>
      subst happroved
      exact ⟨hinv, h.holds, by simp [approved, Owner.compareScreen]⟩
  · rw [hsame] at hinv ⊢
    exact ⟨hinv, h.holds, h.screen⟩

/-- What stands between the chunks leaves the collected bytes alone when it succeeds. -/
theorem Streaming.aside (h : Streaming acc d) (haside : Aside event)
    (hstep : step s.crypto d event = some d') (hok : d'.Succeeds) : Streaming acc d' := by
  cases haside with
  | button mask => exact h.button hstep hok
  | @command ins p1 p2 data hins hdata =>
    obtain ⟨hphase, ⟨hidle, -⟩, -⟩ := step_apdu hstep
    have hready : Ready d := ⟨h.inv, hphase, hidle⟩
    by_cases hempty : data = [] ∧ p2 &&& p2More = 0
    · obtain ⟨d₁, hstep₁, -, hwire, -⟩ := step_empty s.crypto ins p1 hready hempty
      obtain rfl := Option.some.inj (hstep.symm.trans hstep₁)
      exact absurd hok (not_succeeds hwire (Or.inl rfl))
    rcases hins with rfl | rfl | rfl
    · obtain ⟨d₁, hstep₁, hready₁, -, hsign⟩ := step_echo s.crypto p1 hready hdata hempty
      obtain rfl := Option.some.inj (hstep.symm.trans hstep₁)
      exact hready₁.streaming (hsign ▸ h.holds)
    · obtain ⟨d₁, hstep₁, hready₁, -, hsign⟩ :=
        step_configuration s.crypto p1 hready hdata hempty
      obtain rfl := Option.some.inj (hstep.symm.trans hstep₁)
      exact hready₁.streaming (hsign ▸ h.holds)
    · rcases publicKey_cases s p1 p2 hready hdata with
        ⟨sw, d₁, hsw, hstep₁, -, hwire, -⟩ | ⟨hvalid, path, -, hexports⟩
      · obtain rfl := Option.some.inj (hstep.symm.trans hstep₁)
        refine absurd hok (not_succeeds hwire ?_)
        tauto
      · have hkey := encode_length (s.publicPoint path)
        rcases hvalid.p1 with rfl | rfl
        · obtain ⟨d₁, hstep₁, hpending, hsign⟩ := hexports.confirm hready hdata (by omega)
          obtain rfl := Option.some.inj (hstep.symm.trans hstep₁)
          refine ⟨hpending.inv, (hsign rfl) ▸ h.holds, ?_⟩
          rw [hpending.screen]
          simp [Owner.approveScreen]
        · obtain ⟨d₁, hstep₁, hready₁, -, -, hsign⟩ := hexports.silent hready hdata (by omega)
          obtain rfl := Option.some.inj (hstep.symm.trans hstep₁)
          exact hready₁.streaming ((hsign rfl) ▸ h.holds)

/-- A chunk is collected and answered with the bare status. -/
theorem Streaming.chunk {chunk : Chunk} (h : Streaming acc d) (hchunk : chunk.Fits)
    (hwanted : chunk.Wanted) (hfit : acc.length + chunk.2.length ≤ maxMsgSize)
    (hstep : step s.crypto d chunk.event = some d') :
    Streaming (acc ++ chunk.2) d' ∧ d'.wire = [statusBytes swOk] := by
  obtain ⟨hphase, ⟨hidle, -⟩, -⟩ := step_apdu hstep
  have hready : Ready d := ⟨h.inv, hphase, hidle⟩
  have hcollect : collect acc chunk = acc ++ chunk.2 := Collect.push_of_fits hwanted hfit
  have hfollows := sign_follows s chunk.1 p2More hready h.holds hchunk.2
  rcases verdict_more s acc hchunk with ⟨hverdict, -⟩ | ⟨sw, -, hdropped, -⟩
  · rw [hverdict, hcollect] at hfollows
    obtain ⟨d₁, hstep₁, hreplied⟩ := hfollows
    obtain rfl := Option.some.inj (hstep.symm.trans hstep₁)
    exact ⟨hreplied.toReady.streaming hreplied.holds, hreplied.wire⟩
  · rw [hcollect] at hdropped
    exact absurd (List.append_eq_nil_iff.mp hdropped).2 hchunk.1

end Streaming

/-- What is sent between the start and the end of a streamed message. -/
inductive StreamItem where
  | chunk (piece : Chunk)
  | aside (other : Event)

def StreamItem.event : StreamItem → Event
  | .chunk piece => piece.event
  | .aside other => other

def StreamItem.bytes : StreamItem → Bytes
  | .chunk piece => piece.2
  | .aside _ => []

def StreamItem.WellFormed : StreamItem → Prop
  | .chunk piece => piece.Fits ∧ piece.Wanted
  | .aside other => Aside other

section Run
variable {s : Suite} {acc m : Bytes} {d d' : Device} {items : List StreamItem}
  {path : List UInt32} {p1 p2 : UInt8}

/-- The stream collects its chunks, however they are cut and whatever stands between them,
and each chunk is answered with the bare status. -/
theorem Streaming.run (h : Streaming acc d) (hitems : ∀ item ∈ items, item.WellFormed)
    (hfit : (acc ++ items.flatMap StreamItem.bytes).length ≤ maxMsgSize)
    (hrun : (app s.crypto).run d (items.map StreamItem.event) = some d')
    (hok : (app s.crypto).Along (fun _ event t => Aside event → t.Succeeds) d
      (items.map StreamItem.event)) :
    Streaming (acc ++ items.flatMap StreamItem.bytes) d' ∧
      (app s.crypto).Along (fun _ event t => ¬ Aside event → t.wire = [statusBytes swOk]) d
        (items.map StreamItem.event) := by
  induction items generalizing d acc with
  | nil =>
    obtain rfl := Option.some.inj hrun
    rw [List.flatMap_nil, List.append_nil]
    exact ⟨h, trivial⟩
  | cons item items ih =>
    rw [List.map_cons] at hrun hok ⊢
    obtain ⟨d₁, hstep, hrest⟩ := (run_cons_eq_some (app s.crypto)).mp hrun
    rw [along_cons hstep] at hok ⊢
    rw [List.flatMap_cons, ← List.append_assoc] at hfit ⊢
    have hitem := hitems item List.mem_cons_self
    have hnext := fun i hi => hitems i (List.mem_cons_of_mem item hi)
    cases item with
    | chunk chunk =>
      have hchunk : chunk.Fits ∧ chunk.Wanted := hitem
      have hbytes : (StreamItem.chunk chunk).bytes = chunk.2 := rfl
      rw [hbytes] at hfit ⊢
      have hroom : acc.length + chunk.2.length ≤ maxMsgSize := by
        rw [List.length_append, List.length_append] at hfit
        omega
      obtain ⟨h₁, hwire⟩ := h.chunk hchunk.1 hchunk.2 hroom hstep
      obtain ⟨h', halong⟩ := ih h₁ hnext hfit hrest hok.2
      exact ⟨h', fun _ => hwire, halong⟩
    | aside event =>
      have haside : Aside event := hitem
      have hbytes : (StreamItem.aside event).bytes = [] := rfl
      rw [hbytes, List.append_nil] at hfit ⊢
      have h₁ := h.aside haside hstep (hok.1 haside)
      obtain ⟨h', halong⟩ := ih h₁ hnext hfit hrest hok.2
      exact ⟨h', fun hne => absurd haside hne, halong⟩

/-- The empty chunk that ends a stream has the hash of the message signed. -/
theorem exchange_hashed (hready : Ready d) (hp : ValidPath path)
    (hholds : d.sign.Holds (bufferFromBip32 path ++ m)) (hp1 : p1 = p1Confirm ∨ p1 = p1Silent) :
    ∃ d', exchange s.crypto d (command insSignMessage p1 p2More []) = some d' ∧
      d'.wire = [answer (s.signature path (s.hash m))] := by
  have hle := hp.le
  have hhash := s.hash_length m
  have hlength := hholds.length_le
  have hsplit := splitPath_eq_some.mpr ⟨hp, (rfl : bufferFromBip32 path ++ m = _)⟩
  have hverdict : s.verdict (bufferFromBip32 path ++ m) p1 p2More [] =
      .signed path (s.hash m) := by
    have hvalid : ValidP1P2 p1 p2More := ⟨hp1, Or.inl rfl⟩
    have hempty : ¬ (([] : Bytes) = [] ∧ p2More &&& p2More = 0) := by decide
    have hover : ¬ maxMsgSize < (bufferFromBip32 path ++ m).length + ([] : Bytes).length :=
      not_lt.mpr hlength
    have hmore : ¬ (p2More &&& p2More = p2More ∧ ([] : Bytes) ≠ []) := fun h => h.2 rfl
    have hprepared : s.prepared (decide (([] : Bytes).length = 0)) m = s.hash m := rfl
    have hrereads : Rereads path.length (s.hash m) := Or.inr (by omega)
    rw [Suite.verdict, if_neg hempty, if_neg (not_not.mpr hvalid), if_neg hover, if_neg hmore,
      Suite.finish, List.append_nil, hsplit]
    simp only [hprepared, if_pos hrereads]
  have hdata : ([] : Bytes).length ≤ 255 := Nat.zero_le 255
  have hfollows := sign_follows s p1 p2More hready hholds hdata
  rw [hverdict] at hfollows
  obtain ⟨d', hexchange, hwire⟩ := exchange_signed hready hdata hp1 hfollows
  rw [s.signed_of_short path (by omega) (by omega)] at hwire
  exact ⟨d', hexchange, hwire⟩

/-- A path and a hash in one request have the hash signed. -/
theorem exchange_prehashed (hready : Ready d) (hempty : d.sign.msgLength = 0) (hp : ValidPath path)
    (hp1 : p1 = p1Confirm ∨ p1 = p1Silent) :
    ∃ d', exchange s.crypto d (command insSignMessage p1 p2Bin (bufferFromBip32 path ++ s.hash m)) =
        some d' ∧ d'.wire = [answer (s.signature path (s.hash m))] := by
  have hle := hp.le
  have hhash := s.hash_length m
  have hdata : (bufferFromBip32 path ++ s.hash m).length ≤ 255 := by
    rw [List.length_append, bufferFromBip32_length]
    omega
  have hsome : bufferFromBip32 path ++ s.hash m ≠ [] := by
    rw [bufferFromBip32]
    exact List.cons_ne_nil _ _
  have hfit : ([] : Bytes).length + (bufferFromBip32 path ++ s.hash m).length ≤ maxMsgSize := by
    simp only [List.length_nil, maxMsgSize]
    omega
  have hfollows := sign_follows s p1 p2Bin hready (holds_nil hempty) hdata
  rcases verdict_last s [] p1 hsome (show p2Bin &&& p2More = 0 by decide) with
    ⟨hdeclined, -⟩ | ⟨-, -, path', m', hp', hsplit, hverdict⟩
  · rw [declined_iff hp1 hp hfit (List.nil_append _)] at hdeclined
    exact absurd (Or.inr (by omega)) hdeclined
  · rw [List.nil_append] at hsplit
    obtain ⟨rfl, rfl⟩ := bufferFromBip32_append_inj hp hp' hsplit
    rw [hverdict] at hfollows
    obtain ⟨d', hexchange, hwire⟩ := exchange_signed hready hdata hp1 hfollows
    rw [s.signed_of_short path (by omega) (by omega)] at hwire
    exact ⟨d', hexchange, hwire⟩

end Run

/-- A streamed message is signed by its hash, for every way to cut it and every order of
other commands that succeed in between, and the reply is the one to the hash sent at once. -/
theorem streamed_signature {crypto : Crypto} {s : Suite} {d d₁ : Device} {path : List UInt32}
    {m : Bytes} {items : List StreamItem} {p1 : UInt8} (hd : (app crypto).Reachable d)
    (hphase : d.phase = .waiting) (hidle : d.apduState = .idle) (hempty : d.sign.msgLength = 0)
    (hp : ValidPath path) (hlen : 1 + 4 * path.length + m.length ≤ maxMsgSize)
    (hitems : ∀ item ∈ items, item.WellFormed)
    (hbytes : items.flatMap StreamItem.bytes = bufferFromBip32 path ++ m)
    (hrun : (app s.crypto).run d (items.map StreamItem.event) = some d₁)
    (hok : (app s.crypto).Along (fun _ event t => Aside event → t.Succeeds) d
      (items.map StreamItem.event))
    (hphase₁ : d₁.phase = .waiting) (hidle₁ : d₁.apduState = .idle)
    (hp1 : p1 = p1Confirm ∨ p1 = p1Silent) :
    (app s.crypto).Along (fun _ event t => ¬ Aside event → t.wire = [statusBytes swOk]) d
        (items.map StreamItem.event) ∧
      ∃ d', exchange s.crypto d₁ (command insSignMessage p1 p2More []) = some d' ∧
        d'.wire = [s.signature path (s.hash m) ++ [0x00, 0x90, 0x00]] ∧
        ∀ (crypto₂ : Crypto) (d₂ : Device) (p1₂ : UInt8), (app crypto₂).Reachable d₂ →
          d₂.phase = .waiting → d₂.apduState = .idle → d₂.sign.msgLength = 0 →
          p1₂ = p1Confirm ∨ p1₂ = p1Silent →
          ∃ d₂', exchange s.crypto d₂
              (command insSignMessage p1₂ p2Bin (bufferFromBip32 path ++ s.hash m)) = some d₂' ∧
            d₂'.wire = d'.wire := by
  have hready := ready_of_reachable hd hphase hidle
  have hfit : ([] ++ items.flatMap StreamItem.bytes).length ≤ maxMsgSize := by
    rw [List.nil_append, hbytes, List.length_append, bufferFromBip32_length]
    exact hlen
  obtain ⟨hstreamed, halong⟩ :=
    (hready.streaming (holds_nil hempty)).run hitems hfit hrun hok
  have hholds := hstreamed.holds
  rw [List.nil_append, hbytes] at hholds
  obtain ⟨d', hexchange, hwire⟩ :=
    exchange_hashed (s := s) ⟨hstreamed.inv, hphase₁, hidle₁⟩ hp hholds hp1
  have hreply : answer (s.signature path (s.hash m)) =
      s.signature path (s.hash m) ++ [0x00, 0x90, 0x00] := List.append_assoc _ _ _
  refine ⟨halong, d', hexchange, by rw [hwire, hreply], ?_⟩
  intro crypto₂ d₂ p1₂ hd₂ hphase₂ hidle₂ hempty₂ hp1₂
  obtain ⟨d₂', hexchange₂, hwire₂⟩ :=
    exchange_prehashed (s := s) (m := m) (ready_of_reachable hd₂ hphase₂ hidle₂) hempty₂ hp hp1₂
  exact ⟨d₂', hexchange₂, by rw [hwire₂, hwire]⟩

/-- Two cuts, one inside the path, with an echo, a button and a public key between them. -/
def sampleStream : List StreamItem :=
  [.chunk (p1Silent, [1, 0x80]), .aside (.apdu (command insEcho 9 9 [5])),
    .aside (.button (buttonEvtReleased ||| buttonRight)), .chunk (p1Confirm, [0, 0, 44, 7]),
    .aside (.apdu (command insGetPublicKey p1Silent p2Hex (bufferFromBip32 [44])))]

theorem streamed_signature_sample :
    ∃ d₁ d', (app (Suite.marking [] []).crypto).run (boot (.zero _))
        (sampleStream.map StreamItem.event) = some d₁ ∧
      exchange (Suite.marking [] []).crypto d₁ (command insSignMessage p1Confirm p2More []) =
        some d' ∧
      d'.wire = [(Suite.marking [] []).signature [0x8000002C] ((Suite.marking [] []).hash [7]) ++
        [0x00, 0x90, 0x00]] := by
  have hopen : ((app (Suite.marking [] []).crypto).run (boot (.zero _))
      (sampleStream.map StreamItem.event)).map (fun d => (d.phase, d.apduState)) =
      some (.waiting, .idle) := by
    decide +kernel
  have hok : (app (Suite.marking [] []).crypto).Along (fun _ _ t => t.Succeeds) (boot (.zero _))
      (sampleStream.map StreamItem.event) := by
    decide +kernel
  have hitems : ∀ item ∈ sampleStream, item.WellFormed := by
    simp only [sampleStream, List.forall_mem_cons, List.not_mem_nil, false_imp_iff, implies_true,
      and_true]
    exact ⟨⟨by simp [Chunk.Fits], Or.inr rfl⟩, .command (Or.inl rfl) (by decide), .button _,
      ⟨by simp [Chunk.Fits], Or.inl rfl⟩, .command (Or.inr (Or.inr rfl)) (by decide)⟩
  obtain ⟨d₁, hrun, hstate⟩ := Option.map_eq_some_iff.mp hopen
  obtain ⟨hphase, hidle⟩ := Prod.mk.inj hstate
  obtain ⟨-, d', hexchange, hwire, -⟩ := streamed_signature
    (reachable_boot (Suite.marking [] []).crypto (.zero _)) rfl rfl rfl ⟨by decide, by decide⟩
    (show 1 + 4 * [(0x8000002C : UInt32)].length + [(7 : UInt8)].length ≤ maxMsgSize by decide)
    hitems (by decide) hrun (hok.mono fun _ _ _ h _ => h) hphase hidle (Or.inl rfl)
  exact ⟨d₁, d', hrun, hexchange, hwire⟩

end IostLedger
