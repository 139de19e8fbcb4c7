import IostLedger.Client

/-! A call from its first chunk to its end, whatever the user presses in between: what the
device holds of it, what it waits for, and what it comes to. -/
namespace IostLedger
open Memory Exec Machine

/-- A call is under way that has met the device with the bytes `acc` of another message. -/
inductive Method.Underway (s : Suite) (production : Bool) (acc : Bytes) (method : Method) :
    Session → Client → Prop
  | sending {t : Session} {offset : ℕ} (hasked : t.view.asked = none)
      (hacc : t.acc = acc ++ (method.call production).buffer.take offset)
      (hfirst : offset = 0 ∨ (method.call production).Streams) :
      Method.Underway s production acc method t (.sending offset)
  | awaiting {t : Session} {offset : ℕ} {query : Query}
      (hview : t.view = .prompt (method.call production).p2 query)
      (hshort : ¬ (method.call production).Long)
      (hresponse : method.response production acc =
        .give p1Confirm (method.call production).p2 query)
      (hacc : query.owner = .getPublicKey → t.acc = acc) :
      Method.Underway s production acc method t (.awaiting offset)
  | ended {t : Session} {ending : Ending} (hasked : t.view.asked = none)
      (hends : method.Ends s production acc ending) (hacc : acc = [] → t.acc = []) :
      Method.Underway s production acc method t (.ended ending)

/-- The command of the chunk at an offset. -/
def Call.request (call : Call) (offset : ℕ) : Bytes :=
  command call.instruction call.p1 call.p2 (call.chunk offset)

section Chunks
variable {production : Bool} {method : Method} {call : Call} {offset : ℕ}

theorem call_buffer_ne : (method.call production).buffer ≠ [] := by
  simp [Method.call, sendApdu, bufferFromBip32]

theorem chunk_length_le (hshort : ¬ call.Long) : (call.chunk offset).length ≤ 255 := by
  rw [Call.chunk]
  split_ifs with hmore
  · rw [List.length_take]
    exact min_le_left _ _
  · exact not_lt.mp fun hlong => hshort ⟨hmore, hlong⟩

/-- Only a chunk behind the whole buffer is empty. -/
theorem more_of_chunk_nil (hbuffer : call.buffer ≠ []) (h : call.chunk offset = []) :
    call.More ∧ call.buffer.length ≤ offset := by
  rw [Call.chunk] at h
  split_ifs at h with hmore
  · refine ⟨hmore, ?_⟩
    have hlength := congrArg List.length h
    rw [List.length_take, List.length_drop, List.length_nil, exchangeChunkSize] at hlength
    omega
  · exact absurd h hbuffer

theorem take_chunk (hmore : call.More) :
    call.buffer.take offset ++ call.chunk offset =
      call.buffer.take (offset + (call.chunk offset).length) := by
  rw [Call.chunk, if_pos hmore, List.take_add, List.length_take]
  exact congrArg _ List.take_eq_take_min

/-- What a method is met with as a whole: a refusal, or an answer of its own kind. -/
theorem response_cases (production : Bool) (acc : Bytes) (method : Method) :
    (∃ sw, sw ≠ swOk ∧ method.response production acc = .refuse sw) ∨
      ∃ query, ValidP1P2 (method.call production).p1 (method.call production).p2 ∧
        (query.owner = .getPublicKey →
          (method.call production).instruction = insGetPublicKey) ∧
        method.response production acc =
          .give (method.call production).p1 (method.call production).p2 query := by
  unfold Method.response
  by_cases hvalid : ValidP1P2 (method.call production).p1 (method.call production).p2
  swap
  · exact Or.inl ⟨_, by decide, if_pos hvalid⟩
  simp only [hvalid, not_true_eq_false, if_false]
  cases method with
  | getPublicKey index p1 p2 => exact Or.inr ⟨_, trivial, fun _ => rfl, rfl⟩
  | signMessage index p1 p2 message =>
    dsimp only
    split_ifs
    · exact Or.inl ⟨_, by decide, rfl⟩
    unfold Response.finish
    split
    · exact Or.inl ⟨_, by decide, rfl⟩
    split_ifs
    · exact Or.inr ⟨_, trivial, fun howner => (by cases howner), rfl⟩
    · exact Or.inr ⟨_, trivial, fun howner => (by cases howner), rfl⟩
    · exact Or.inl ⟨_, by decide, rfl⟩

theorem chunk_whole (h : call.buffer.length ≤ exchangeChunkSize) : call.chunk 0 = call.buffer := by
  rw [Call.chunk]
  split_ifs
  · rw [List.drop_zero, List.take_of_length_le h]
  · rfl

theorem respond_getPublicKey {index : Option ChildIndex} {p1 p2 : Option UInt8} (acc : Bytes)
    (hcall : (Method.getPublicKey index p1 p2).call production = call)
    (hvalid : ValidP1P2 call.p1 call.p2) :
    (Request.ofCommand call.instruction call.p1 call.p2 (call.chunk 0)).respond acc =
      (Method.getPublicKey index p1 p2).response production acc := by
  have hbuffer : call.buffer = bufferFromBip32 (bip32Path index) ++ [] := hcall ▸ rfl
  have hlength : call.buffer.length ≤ exchangeChunkSize := by
    rw [hbuffer, List.append_nil, bufferFromBip32_length]
    cases index <;> simp [bip32Path, exchangeChunkSize]
  have hsplit : splitPath call.buffer = some (bip32Path index, []) :=
    splitPath_eq_some.mpr ⟨bip32Path_valid index, hbuffer⟩
  have hins : call.instruction = insGetPublicKey := hcall ▸ rfl
  have hrequest : Request.ofCommand insGetPublicKey call.p1 call.p2 call.buffer =
      .publicKey call.p1 call.p2 call.buffer := rfl
  rw [chunk_whole hlength, hins, hrequest, Request.respond, if_neg (not_not.mpr hvalid), hsplit,
    Method.response, hcall]
  exact (if_neg (not_not.mpr hvalid)).symm

/-- A chunk of a message is stored, and the whole message is what the last one comes to. -/
theorem respond_signMessage {index : Option ChildIndex} {p1 p2 : Option UInt8}
    {message : Option Bytes} (acc : Bytes)
    (hcall : (Method.signMessage index p1 p2 message).call production = call)
    (hvalid : ValidP1P2 call.p1 call.p2) (hfirst : offset = 0 ∨ call.Streams) :
    (Request.ofCommand call.instruction call.p1 call.p2 (call.chunk offset)).respond
          (acc ++ call.buffer.take offset) =
        (Method.signMessage index p1 p2 message).response production acc ∨
      call.Streams ∧ call.chunk offset ≠ [] ∧
        (Request.ofCommand call.instruction call.p1 call.p2 (call.chunk offset)).respond
            (acc ++ call.buffer.take offset) =
          .store (acc ++ call.buffer.take (offset + (call.chunk offset).length)) := by
  have hbuffer : call.buffer ≠ [] := hcall ▸ call_buffer_ne
  have hins : call.instruction = insSignMessage := hcall ▸ rfl
  have hrequest (data : Bytes) : Request.ofCommand insSignMessage call.p1 call.p2 data =
      .sign call.p1 call.p2 data := rfl
  have hresponse : (Method.signMessage index p1 p2 message).response production acc =
      if maxMsgSize < acc.length + call.buffer.length then .refuse swWrongLength
      else .finish call.p1 call.p2 call.More (acc ++ call.buffer) := by
    rw [Method.response, hcall]
    exact if_neg (not_not.mpr hvalid)
  rw [hins, hrequest, Request.respond, if_neg (not_not.mpr hvalid), hresponse]
  by_cases hmore : call.More
  · have htake : call.buffer.take offset ++ call.chunk offset = _ := take_chunk hmore
    by_cases hbig : maxMsgSize <
        (acc ++ call.buffer.take offset).length + (call.chunk offset).length
    · left
      have hlength := congrArg List.length htake
      have hle := List.length_take_le' (offset + (call.chunk offset).length) call.buffer
      have hwhole : maxMsgSize < acc.length + call.buffer.length := by
        rw [List.length_append] at hbig hlength
        omega
      rw [if_pos hbig, if_pos hwhole]
    by_cases hnil : call.chunk offset = []
    · left
      have hend : call.buffer.take offset = call.buffer :=
        List.take_of_length_le (more_of_chunk_nil hbuffer hnil).2
      rw [hnil, hend, List.length_nil, Nat.add_zero, List.length_append] at hbig
      rw [hnil, hend, List.length_nil, Nat.add_zero, List.length_append, if_neg hbig, if_neg hbig,
        if_neg fun h => h.2 rfl, List.append_nil]
      simp only [hmore, decide_true]
    · right
      refine ⟨⟨hins, hmore⟩, hnil, ?_⟩
      rw [if_neg hbig, if_pos ⟨hmore, hnil⟩, List.append_assoc, htake]
  · left
    have hstart : offset = 0 := hfirst.resolve_right fun hstreams => hmore hstreams.2
    have hchunk : call.chunk 0 = call.buffer := if_neg hmore
    have hsome : call.buffer.length ≠ 0 := fun h => hbuffer (List.length_eq_zero_iff.mp h)
    have hlast : ¬ (call.p2 &&& p2More = p2More ∧ call.buffer ≠ []) := fun h => hmore h.1
    rw [hstart, hchunk, List.take_zero, List.append_nil, if_neg hlast]
    simp only [hmore, hsome, decide_false]

/-- A chunk is stored, or it is met as the whole call. -/
theorem respond_chunk (hcall : method.call production = call) (hshort : ¬ call.Long) (acc : Bytes)
    (hfirst : offset = 0 ∨ call.Streams) :
    (Request.parse (call.request offset)).respond (acc ++ call.buffer.take offset) =
        method.response production acc ∨
      call.Streams ∧ call.chunk offset ≠ [] ∧
        (Request.parse (call.request offset)).respond (acc ++ call.buffer.take offset) =
          .store (acc ++ call.buffer.take (offset + (call.chunk offset).length)) := by
  have hbuffer : call.buffer ≠ [] := hcall ▸ call_buffer_ne
  have hparsed : ¬ (call.chunk offset = [] ∧ call.p2 &&& p2More = 0) := by
    rintro ⟨hnil, hzero⟩
    have hmore : call.p2 &&& p2More = p2More := (more_of_chunk_nil hbuffer hnil).1
    rw [hmore] at hzero
    cases hzero
  rw [Call.request, parse_command _ _ _ (chunk_length_le hshort), if_neg hparsed]
  by_cases hvalid : ValidP1P2 call.p1 call.p2
  swap
  · left
    subst hcall
    cases method with
    | getPublicKey index p1 p2 => exact (if_pos hvalid).trans (if_pos hvalid).symm
    | signMessage index p1 p2 message => exact (if_pos hvalid).trans (if_pos hvalid).symm
  cases method with
  | getPublicKey index p1 p2 =>
    left
    have hstart : offset = 0 := by
      refine hfirst.resolve_right fun hstreams => ?_
      have hins := hstreams.1
      rw [← hcall] at hins
      cases hins
    rw [hstart, List.take_zero, List.append_nil]
    exact respond_getPublicKey acc hcall hvalid
  | signMessage index p1 p2 message => exact respond_signMessage acc hcall hvalid hfirst

end Chunks

section Turns
variable {s : Suite} {transport : HwTransport} {production : Bool} {method : Method} {call : Call}
  {acc : Bytes} {t t' : Session} {offset : ℕ} {client client' : Client} {turn : Turn}

/-- Without an open request a button keeps the bytes of the message. -/
theorem pressed_keeps_acc (hasked : t.view.asked = none) (mask : UInt32) :
    (t.pressed mask).acc = t.acc := by
  rw [Session.pressed]
  cases hview : t.view with
  | prompt p2 query =>
    rw [hview] at hasked
    cases hasked
  | menu entries currentEntry =>
    cases hentry : Session.menuEntry entries currentEntry mask with
    | none => simp only [hentry]
    | some entry => simp only [hentry]
  | compare owner query moves =>
    cases Session.moveOf mask with
    | some move => rfl
    | none =>
      dsimp only
      split_ifs <;> rfl

/-- The replies of a session, as the client receives them. -/
def Session.replies (s : Suite) (t : Session) : List Bytes := t.wire.map s.render

theorem cleared_acc {query : Query} (hacc : query.owner = .getPublicKey → t.acc = acc)
    (hempty : acc = []) : (t.cleared query.owner).acc = [] := by
  cases howner : query.owner with
  | signMessage => rfl
  | getPublicKey => exact (hacc howner).trans hempty

/-- What a method gives, it gives for valid parameters. -/
theorem response_give {p1 p2 : UInt8} {query : Query}
    (h : method.response production acc = .give p1 p2 query) :
    ValidP1P2 (method.call production).p1 (method.call production).p2 := by
  rcases response_cases production acc method with ⟨sw, -, hrefuse⟩ | ⟨_, hvalid, -⟩
  · rw [hrefuse] at h
    cases h
  · exact hvalid

/-- What the client makes of the session after a press. -/
theorem Method.Underway.press (h : method.Underway s production acc t client)
    (hcall : method.call production = call) {mask : UInt32} (ht' : t' = t.pressed mask)
    (hclient : client' = (t'.replies s).foldl (call.absorb transport) client) :
    method.Underway s production acc t' client' ∧ call.budget client' ≤ call.budget client := by
  subst hcall
  cases h with
  | sending hasked hacc hfirst =>
    obtain ⟨hwire, hasked'⟩ := pressed_free hasked mask
    rw [Session.replies, ht', hwire] at hclient
    rw [hclient, ht']
    exact ⟨.sending hasked' ((pressed_keeps_acc hasked mask).trans hacc) hfirst, le_rfl⟩
  | ended hasked hends hacc =>
    obtain ⟨hwire, hasked'⟩ := pressed_free hasked mask
    rw [Session.replies, ht', hwire] at hclient
    rw [hclient, ht']
    exact ⟨.ended hasked' hends fun h => (pressed_keeps_acc hasked mask).trans (hacc h), le_rfl⟩
  | @awaiting offset query hview hshort hresponse hacc =>
    have hends (ending : Ending)
        (h : (Response.give p1Confirm (method.call production).p2 query).Ends s ending) :
        method.Ends s production acc ending := by
      rw [Method.Ends, if_neg hshort, hresponse]
      exact h
    rw [Session.pressed, hview] at ht'
    dsimp only at ht'
    split_ifs at ht'
    · rw [Session.replies, ht', List.map_singleton, List.foldl_cons, List.foldl_nil,
        absorb_status (by decide)] at hclient
      rw [hclient, ht']
      exact ⟨.ended rfl (hends _ (Or.inr ⟨rfl, rfl⟩)) (cleared_acc hacc), le_rfl⟩
    · rw [Session.replies, ht', List.map_singleton, List.foldl_cons, List.foldl_nil,
        absorb_payload (response_give hresponse)] at hclient
      rw [hclient, ht']
      exact ⟨.ended rfl (hends _ (Or.inl rfl)) (cleared_acc hacc), le_rfl⟩
    · rw [Session.replies, ht', List.map_nil, List.foldl_nil] at hclient
      rw [hclient, ht']
      exact ⟨.awaiting rfl hshort hresponse hacc, le_rfl⟩

theorem budget_sending_pos : 1 ≤ call.budget (.sending offset) := by
  rw [Call.budget]
  split_ifs
  · exact Nat.le_add_left _ _
  · exact le_rfl

/-- A chunk with something in it is one less to send. -/
theorem budget_chunk (hstreams : call.Streams) (hsome : call.chunk offset ≠ []) :
    1 + call.budget (.sending (offset + (call.chunk offset).length)) ≤
      call.budget (.sending offset) := by
  have hpos : 0 < (call.chunk offset).length := List.length_pos_of_ne_nil hsome
  have hlength : (call.chunk offset).length = min 255 (call.buffer.length - offset) := by
    rw [Call.chunk, if_pos hstreams.2, List.length_take, List.length_drop, exchangeChunkSize]
  simp only [Call.budget, if_pos hstreams, exchangeChunkSize]
  omega

/-- What the client makes of the session after a chunk. -/
theorem Method.Underway.send (h : method.Underway s production acc t (.sending offset))
    (hcall : method.call production = call) (hshort : ¬ call.Long)
    (ht' : t' = t.answered ((Request.parse (call.request offset)).respond t.acc))
    (hclient : client = (t'.replies s).foldl (call.absorb transport) (.awaiting offset)) :
    method.Underway s production acc t' client ∧
      1 + call.budget client ≤ call.budget (.sending offset) := by
  cases h with | sending hasked hacc hfirst
  rw [hcall] at hacc hfirst
  rw [hacc] at ht'
  rcases respond_chunk hcall hshort acc hfirst with hwhole | ⟨hstreams, hsome, hstore⟩
  · rw [hwhole] at ht'
    have hpos : 1 ≤ call.budget (.sending offset) := budget_sending_pos
    have hends (ending : Ending) (h : (method.response production acc).Ends s ending) :
        method.Ends s production acc ending := by
      rw [Method.Ends, hcall, if_neg hshort]
      exact h
    rcases response_cases production acc method with
      ⟨sw, hsw, hrefuse⟩ | ⟨query, hvalid, howner, hgive⟩
    · rw [hrefuse] at ht' hends
      rw [ht', Session.replies, Session.answered, List.map_singleton, List.foldl_cons,
        List.foldl_nil, absorb_status hsw] at hclient
      rw [hclient, ht']
      refine ⟨.ended ?_ (hends _ rfl) fun _ => rfl, hpos⟩
      exact (cleared_asked _ _).trans ((cleared_asked _ _).trans hasked)
    have hkept (hpk : query.owner = .getPublicKey) : t.acc = acc := by
      have hstart : offset = 0 := by
        refine hfirst.resolve_right fun hstreams => ?_
        have hins := hstreams.1
        rw [← hcall, howner hpk] at hins
        cases hins
      rw [hacc, hstart, List.take_zero, List.append_nil]
    rw [hcall] at hgive hvalid
    rw [hgive, Session.answered] at ht'
    split_ifs at ht' with hp1
    · rw [ht', Session.replies, List.map_nil, List.foldl_nil] at hclient
      rw [hclient, ht']
      subst hcall
      exact ⟨.awaiting rfl hshort (hp1 ▸ hgive) hkept, hpos⟩
    · rw [ht', Session.replies, List.map_singleton, List.foldl_cons, List.foldl_nil,
        absorb_payload hvalid] at hclient
      rw [hclient, ht']
      rw [hgive] at hends
      exact ⟨.ended ((cleared_asked _ _).trans hasked) (hends _ (Or.inl rfl))
        (cleared_acc hkept), hpos⟩
  · rw [hstore] at ht'
    rw [ht', Session.replies, Session.answered, List.map_singleton, List.foldl_cons,
      List.foldl_nil, absorb_more] at hclient
    rw [hclient, ht']
    subst hcall
    exact ⟨.sending hasked rfl (Or.inr hstreams), budget_chunk hstreams hsome⟩

/-- A turn that sends the chunk at an offset, unless the transport refuses it. -/
theorem issue_send (hshort : ¬ call.Long) : call.issue transport (.sending offset) .send =
    some (some (.apdu (call.request offset)), .awaiting offset) := by
  rw [Call.issue, transport.frame_short (chunk_length_le hshort)]
  rfl

theorem issue_send_long (hlong : call.Long) : call.issue transport (.sending offset) .send =
    some (none, .ended .dataLengthTooBig) := by
  have hchunk : call.chunk offset = call.buffer := if_neg hlong.1
  rw [Call.issue, hchunk, transport.frame_long hlong.2]

theorem issue_press (mask : UInt32) : call.issue transport client (.press mask) =
    some (some (.button mask), client) := by
  cases client <;> rfl

/-- Every turn of a call keeps it under way, and a chunk is sent once. -/
theorem Method.Underway.step (h : method.Underway s production acc t client)
    (hcall : method.call production = call)
    (hstep : (desk session (Session.replies s) transport call).step (t, client) turn =
      some (t', client')) :
    method.Underway s production acc t' client' ∧
      (if turn = .send then 1 else 0) + call.budget client' ≤ call.budget client := by
  cases turn with
  | press mask =>
    rw [desk, driven_sent (issue_press mask), Option.map_eq_some_iff] at hstep
    obtain ⟨u, hu, heq⟩ := hstep
    obtain ⟨rfl, rfl⟩ := Prod.mk.inj heq
    have hpressed : u = t.pressed mask := by
      simp only [session, Session.step] at hu
      split_ifs at hu
      exact (Option.some.inj hu).symm
    rw [if_neg (by simp), Nat.zero_add]
    exact h.press hcall hpressed rfl
  | send =>
    rw [if_pos rfl]
    cases h with
    | awaiting => cases hstep
    | ended => cases hstep
    | @sending offset hasked hacc hfirst =>
      by_cases hlong : call.Long
      · rw [desk, driven_silent (issue_send_long hlong)] at hstep
        obtain ⟨rfl, rfl⟩ := Prod.mk.inj (Option.some.inj hstep)
        refine ⟨.ended hasked ?_ fun hempty => ?_, budget_sending_pos⟩
        · rw [Method.Ends, hcall, if_pos hlong]
        · rw [hcall] at hfirst
          have hstart : offset = 0 := hfirst.resolve_right fun hstreams => hlong.1 hstreams.2
          rw [hacc, hempty, hstart]
          rfl
      · rw [desk, driven_sent (issue_send hlong), Option.map_eq_some_iff] at hstep
        obtain ⟨u, hu, heq⟩ := hstep
        obtain ⟨rfl, rfl⟩ := Prod.mk.inj heq
        have hanswered : u = t.answered ((Request.parse (call.request offset)).respond t.acc) := by
          simp only [session, Session.step] at hu
          split_ifs at hu
          exact (Option.some.inj hu).symm
        exact Method.Underway.send (.sending hasked hacc hfirst) hcall hlong hanswered rfl

/-- A call under way sends no request that is read behind its bytes. -/
theorem Method.Underway.clean (h : method.Underway s production acc t client)
    (hcall : method.call production = call) :
    (call.driver transport).Allowed (fun (_ : Session) => Event.Clean) (t, client) turn := by
  intro event next hissue
  cases turn with
  | press mask =>
    rw [show (call.driver transport).issue client (.press mask) = _ from issue_press mask] at hissue
    cases hissue
    exact trivial
  | send =>
    cases h with
    | awaiting => cases hissue
    | ended => cases hissue
    | @sending offset hasked hacc hfirst =>
      by_cases hlong : call.Long
      · rw [show (call.driver transport).issue (.sending offset) .send = _ from
          issue_send_long hlong] at hissue
        cases hissue
      · rw [show (call.driver transport).issue (.sending offset) .send = _ from
          issue_send hlong] at hissue
        cases hissue
        refine ⟨?_, Or.inl ?_⟩
        · rintro ⟨p1, -, heq⟩
          simp only [Call.request, command, List.cons_append, List.nil_append,
            List.cons.injEq] at heq
          have hins : call.instruction = insGetPublicKey := heq.2.1
          have hnil : call.chunk offset = [] := heq.2.2.2.2.2
          have hbuffer : call.buffer ≠ [] := hcall ▸ call_buffer_ne
          have hpos := List.length_pos_of_ne_nil hbuffer
          have hend := (more_of_chunk_nil hbuffer hnil).2
          rw [hcall] at hfirst
          rcases hfirst with hstart | hstreams
          · omega
          · rw [hstreams.1] at hins
            cases hins
        · rw [Call.request, command_length]
          omega

/-- Whatever the user does, a call is under way until it ends, and sends no more chunks than its
buffer has, and one that is empty. -/
theorem Method.Underway.run {turns : List Turn} (h : method.Underway s production acc t client)
    (hcall : method.call production = call)
    (hrun : (desk session (Session.replies s) transport call).run (t, client) turns =
      some (t', client')) :
    method.Underway s production acc t' client' ∧
      turns.count .send + call.budget client' ≤ call.budget client := by
  have hstep (p : Session × Client) (turn : Turn) (q : Session × Client)
      (hp : method.Underway s production acc p.1 p.2)
      (h : (desk session (Session.replies s) transport call).step p turn = some q) :
      method.Underway s production acc q.1 q.2 ∧
        (if turn = .send then 1 else 0) + call.budget q.2 ≤ call.budget p.2 :=
    hp.step hcall h
  have hcounted := count_add_budget_le hstep h hrun
  exact hcounted

variable (transport call) in
/-- Where the client has a chunk to send and the application runs, it can. -/
theorem Method.Underway.sends (h : method.Underway s production acc t (.sending offset))
    (hrunning : t.stage = .running) :
    ∃ next, (desk session (Session.replies s) transport call).step (t, .sending offset) .send =
      some next := by
  cases h with | sending hasked hacc hfirst
  by_cases hlong : call.Long
  · exact ⟨_, driven_silent (issue_send_long hlong)⟩
  have hlength : (call.chunk offset).length ≤ 255 := chunk_length_le hlong
  have hreceives : t.Receives (call.request offset) := by
    refine ⟨hasked, ?_, ?_, ?_⟩
    · rw [Call.request, command_length]
      omega
    · rw [Call.request, command_length, ioApduBufferSize]
      omega
    · simp [Call.request, command, sdkReserved, cla]
  rw [desk, driven_sent (issue_send hlong),
    show session.step t (.apdu (call.request offset)) = _ from if_pos ⟨hrunning, hreceives⟩]
  exact ⟨_, rfl⟩

end Turns

section Desk
variable {s : Suite} {transport : HwTransport} {production : Bool} {method : Method} {call : Call}
  {acc : Bytes} {d d' : Device} {t : Session} {offset : ℕ} {client client' : Client}
  {turns : List Turn}

/-- The client cannot tell the device from the session. -/
theorem desk_lockStep (s : Suite) (transport : HwTransport) (call : Call) :
    LockStep (desk (app s.crypto) Device.wire transport call)
      (desk session (Session.replies s) transport call)
      ((call.driver transport).Allowed fun _ => Event.Clean)
      (fun p q => Represents s p.1 q.1 ∧ p.2 = q.2) :=
  (lockStep s).driven (fun _ _ h => h.wire) _

/-- What holds of a call at the session holds of it at the device. -/
theorem Method.Underway.device (h : method.Underway s production acc t client)
    (hcall : method.call production = call) (hrep : Represents s d t)
    (hrun : (desk (app s.crypto) Device.wire transport call).run (d, client) turns =
      some (d', client')) :
    ∃ t', Represents s d' t' ∧ method.Underway s production acc t' client' ∧
      turns.count .send + call.budget client' ≤ call.budget client := by
  have hguarded : (desk session (Session.replies s) transport call).Guarded
      ((call.driver transport).Allowed fun _ => Event.Clean) (t, client) turns :=
    guarded_of_invariant
      (fun (p : Session × Client) turn q (hp : method.Underway s production acc p.1 p.2) hstep =>
        (hp.step hcall hstep).1)
      (fun p turn hp => hp.clean hcall) h
  have hstart : Represents s (d, client).1 (t, client).1 ∧ (d, client).2 = (t, client).2 :=
    ⟨hrep, rfl⟩
  have hrel := (desk_lockStep s transport call).run hstart hguarded
  rw [hrun] at hrel
  generalize hq : (desk session (Session.replies s) transport call).run (t, client) turns = q
    at hrel
  cases hrel with | @some _ q hrelated
  obtain ⟨t', client''⟩ := q
  obtain ⟨hrep', heq⟩ := hrelated
  cases heq
  obtain ⟨hkept, hspent⟩ := h.run hcall hq
  exact ⟨t', hrep', hkept, hspent⟩

end Desk

end IostLedger
