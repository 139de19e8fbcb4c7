import IostLedger.Calls

/-! Calls to a device, one after another: how each one ends, and that none of them leaves
anything behind that the next one could be answered with. -/
namespace IostLedger
open Memory Exec Machine

/-- How a call stands in front of a device that held the bytes `acc` when it began. -/
inductive Method.Stands (s : Suite) (transport : HwTransport) (production : Bool) (acc : Bytes)
    (method : Method) : Device → Client → Prop
  /-- The device holds what has been sent, and can take the next chunk. -/
  | sending {d : Device} {offset : ℕ}
      (hacc : d.sign.Holds (acc ++ (method.call production).buffer.take offset))
      (hsends : d.phase = .waiting → ∃ next,
        (desk (app s.crypto) Device.wire transport (method.call production)).step
          (d, .sending offset) .send = some next) :
      Method.Stands s transport production acc method d (.sending offset)
  /-- The user is asked for the whole call, and has the last word. -/
  | awaiting {d : Device} {offset : ℕ} {query : Query}
      (hresponse : method.response production acc =
        .give p1Confirm (method.call production).p2 query)
      (hprompt : AtPrompt s (method.call production).p2 query d)
      (happrove : ∃ d', (desk (app s.crypto) Device.wire transport (method.call production)).step
        (d, .awaiting offset) (.press (buttonEvtReleased ||| buttonRight)) =
          some (d', .ended (.returned (.of (method.call production).p2 (s.value query)))))
      (hreject : ∃ d', (desk (app s.crypto) Device.wire transport (method.call production)).step
        (d, .awaiting offset) (.press (buttonEvtReleased ||| buttonLeft)) =
          some (d', .ended (.statusError swUserRejected))) :
      Method.Stands s transport production acc method d (.awaiting offset)
  | ended {d : Device} {ending : Ending} (hends : method.Ends s production acc ending) :
      Method.Stands s transport production acc method d (.ended ending)

section Stands
variable {s : Suite} {production : Bool} {method : Method} {acc : Bytes} {d d' : Device}
  {t : Session} {client client' : Client} {turns : List Turn} {query : Query} {offset : ℕ}
  (transport : HwTransport)

/-- A press on the device answers the client as one on the session does. -/
theorem step_press (hrep : Represents s d t) (hrunning : t.stage = .running) (call : Call)
    (client : Client) (mask : UInt32) :
    ∃ d', (desk (app s.crypto) Device.wire transport call).step (d, client) (.press mask) =
      some (d', ((t.pressed mask).replies s).foldl (call.absorb transport) client) := by
  have hpress : session.step t (.button mask) = some (t.pressed mask) := if_pos hrunning
  rcases (lockStep s).cases hrep (show Event.Clean (.button mask) from trivial) with
    ⟨-, hnone⟩ | ⟨d', t', hd', ht', hrep'⟩
  · rw [hpress] at hnone
    cases hnone
  · rw [hpress] at ht'
    cases ht'
    have hbutton : (app s.crypto).step d (.button mask) = some d' := hd'
    refine ⟨d', ?_⟩
    rw [desk, driven_sent (issue_press mask), hbutton, Option.map_some, hrep'.wire]
    rfl

theorem replies_approval {p2 : UInt8} (hview : t.view = .prompt p2 query) :
    (t.pressed (buttonEvtReleased ||| buttonRight)).replies s = [s.render (.payload p2 query)] := by
  rw [Session.replies, Session.pressed, hview]
  rfl

theorem replies_rejection {p2 : UInt8} (hview : t.view = .prompt p2 query) :
    (t.pressed (buttonEvtReleased ||| buttonLeft)).replies s =
      [s.render (.status swUserRejected)] := by
  rw [Session.replies, Session.pressed, hview]
  rfl

/-- A device in front of which a call is under way. -/
theorem Method.Underway.stands (h : method.Underway s production acc t client)
    (hrep : Represents s d t) : method.Stands s transport production acc d client := by
  cases hclient : client with
  | ended ending =>
    subst hclient
    cases h with | ended _ hends _ => exact .ended hends
  | sending offset =>
    subst hclient
    have hallowed : ((method.call production).driver transport).Allowed
      (fun (_ : Session) => Event.Clean) (t, .sending offset) .send := h.clean rfl
    have hsends := h.sends transport (method.call production)
    cases h with | sending hasked hacc hfirst
    refine .sending (hacc ▸ hrep.holds hasked) fun hwaiting => ?_
    obtain ⟨next, hnext⟩ := hsends (hrep.waiting_iff.mp hwaiting)
    have hstart : Represents s (d, Client.sending offset).1 (t, Client.sending offset).1 ∧
        (d, Client.sending offset).2 = (t, Client.sending offset).2 := ⟨hrep, rfl⟩
    rcases (desk_lockStep s transport (method.call production)).cases hstart hallowed with
      ⟨-, hnone⟩ | ⟨p, -, hp, -⟩
    · rw [hnext] at hnone
      cases hnone
    · exact ⟨p, hp⟩
  | awaiting offset =>
    subst hclient
    cases h with | @awaiting _ query hview hshort hresponse hacc
    have hdepicts := hrep.view
    rw [hview] at hdepicts
    cases hdepicts with | prompt hprompt
    have hrunning := hrep.waiting_iff.mp hprompt.phase
    refine .awaiting hresponse hprompt ?_ ?_
    · obtain ⟨d', hstep⟩ := step_press transport hrep hrunning (method.call production)
        (.awaiting offset) (buttonEvtReleased ||| buttonRight)
      rw [replies_approval hview, List.foldl_cons, List.foldl_nil,
        absorb_payload (response_give hresponse)] at hstep
      exact ⟨d', hstep⟩
    · obtain ⟨d', hstep⟩ := step_press transport hrep hrunning (method.call production)
        (.awaiting offset) (buttonEvtReleased ||| buttonLeft)
      rw [replies_rejection hview, List.foldl_cons, List.foldl_nil,
        absorb_status (by decide)] at hstep
      exact ⟨d', hstep⟩

end Stands

theorem Holds_eq {c : SignTxContext} {acc acc' : Bytes} (h : c.Holds acc) (h' : c.Holds acc') :
    acc = acc' := by
  have hlength : acc.length = acc'.length := h.length.symm.trans h'.length
  rw [← h.bytes, hlength, h'.bytes]

section Calls
variable {s : Suite} {apdu : Buffer ioApduBufferSize} {events : List Event} {d d' : Device}
  {acc : Bytes} {turns : List Turn} {client : Client}

/-- A clean run ends in a session that the device represents. -/
theorem exists_represents (hclean : ∀ event ∈ events, event.Clean)
    (hd : (app s.crypto).run (boot apdu) events = some d) : ∃ t, Represents s d t := by
  have hrel := (lockStep s).run (boot_represents s apdu)
    (guarded_of_forall hclean (n := session) .start)
  rw [hd] at hrel
  generalize session.run .start events = x at hrel
  cases hrel with | some hrep => exact ⟨_, hrep⟩

/-- A message that is left unfinished. -/
def sampleLeftover : List Event := [.apdu (command insSignMessage p1Silent p2More [1, 0, 0])]

/-- The call that comes after it, with the turns until the user agrees. -/
def sampleMethod : Method := .signMessage none (some p1Confirm) (some p2More) (some [7])

def sampleTurns : List Turn :=
  [.press 0, .send, .send, .press 0, .press (buttonEvtReleased ||| buttonRight)]

end Calls

/-- What a method asks for: the key of its path, or the signature of its message under it. -/
def Method.query (production : Bool) : Method → Query
  | .getPublicKey index _ _ => .publicKey (bip32Path index)
  | .signMessage index p1 p2 message =>
      if ((Method.signMessage index p1 p2 message).call production).More then
        .hashSignature (bip32Path index) (message.getD [])
      else .signature (bip32Path index) (message.getD [])

/-- A device that holds nothing gives a call what it asks for, if anything. -/
theorem response_query {production : Bool} {method : Method} {p1 p2 : UInt8} {query : Query}
    (h : method.response production [] = .give p1 p2 query) :
    p2 = (method.call production).p2 ∧ query = method.query production := by
  unfold Method.response at h
  by_cases hvalid : ValidP1P2 (method.call production).p1 (method.call production).p2
  swap
  · simp only [hvalid, not_false_eq_true, if_true] at h
    cases h
  simp only [hvalid, not_true_eq_false, if_false] at h
  cases method with
  | getPublicKey index _ _ =>
    cases h
    exact ⟨rfl, rfl⟩
  | signMessage index q1 q2 message =>
    dsimp only at h
    split_ifs at h with hlong
    have hsplit : splitPath
        ([] ++ ((Method.signMessage index q1 q2 message).call production).buffer) =
          some (bip32Path index, message.getD []) :=
      splitPath_eq_some.mpr ⟨bip32Path_valid index, rfl⟩
    rw [Response.finish, hsplit] at h
    dsimp only at h
    rw [Method.query]
    by_cases hmore : ((Method.signMessage index q1 q2 message).call production).More
    · rw [if_pos hmore]
      rw [decide_eq_true hmore, if_pos rfl] at h
      cases h
      exact ⟨rfl, rfl⟩
    · rw [if_neg hmore]
      rw [decide_eq_false hmore, if_neg (by decide)] at h
      split_ifs at h
      cases h
      exact ⟨rfl, rfl⟩

/-- Calls to a device, each with the turns until it has ended, and their endings. -/
inductive Conversation (s : Suite) (transport : HwTransport) (production : Bool) :
    Device → List (Method × Ending) → Device → Prop
  | nil (d : Device) : Conversation s transport production d [] d
  | cons {d d₁ d₂ : Device} {method : Method} {ending : Ending} {turns : List Turn}
      {calls : List (Method × Ending)}
      (hrun : (desk (app s.crypto) Device.wire transport (method.call production)).run
        (d, .sending 0) turns = some (d₁, .ended ending))
      (hrest : Conversation s transport production d₁ calls d₂) :
      Conversation s transport production d ((method, ending) :: calls) d₂

/-- A call that returns a result has been given it. -/
theorem ends_returned {s : Suite} {production : Bool} {method : Method} {result : Result}
    (h : method.Ends s production [] (.returned result)) :
    result = .of (method.call production).p2 (s.value (method.query production)) := by
  rw [Method.Ends] at h
  split_ifs at h
  rcases response_cases production [] method with ⟨sw, -, hrefuse⟩ | ⟨query, -, -, hgive⟩
  · rw [hrefuse] at h
    cases h
  · rw [hgive] at h
    rcases h with h | ⟨-, h⟩
    · rw [← (response_query hgive).2]
      exact Ending.returned.inj h
    · cases h

section Conversations
variable {s : Suite} {transport : HwTransport} {production : Bool} {d d' : Device}
  {calls : List (Method × Ending)} {t : Session}

theorem Conversation.ends (h : Conversation s transport production d calls d')
    (hrep : Represents s d t) (hasked : t.view.asked = none) (hempty : t.acc = []) :
    ∀ call ∈ calls, call.1.Ends s production [] call.2 := by
  induction h generalizing t with
  | nil d =>
    intro call hcall
    cases hcall
  | @cons d d₁ d₂ method ending turns calls hrun hrest ih =>
    have hstart : method.Underway s production [] t (.sending 0) :=
      .sending hasked hempty (Or.inl rfl)
    obtain ⟨t', hrep', hunderway, -⟩ := hstart.device rfl hrep hrun
    cases hunderway with | ended hasked' hends hacc
    intro call hcall
    rcases List.mem_cons.mp hcall with rfl | hcall
    · exact hends
    · exact ih hrep' hasked' (hacc rfl) call hcall

/-- A key that the user does not agree to show, a message too short to be signed raw, and one that
is signed. -/
def sampleCalls : List (Method × Ending) :=
  [(.getPublicKey none none (some p2Base58), .statusError swUserRejected),
    (.signMessage none (some p1Silent) none (some [1, 2, 3]), .statusError swWrongLength),
    (.signMessage none (some p1Silent) none (some (List.replicate 32 7)),
      .returned (.bin ((Suite.marking [] []).value
        (.signature (bip32Path none) (List.replicate 32 7)))))]

end Conversations

end IostLedger
