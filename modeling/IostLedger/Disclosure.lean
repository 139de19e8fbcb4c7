import IostLedger.Refinement

/-! What a run discloses of the secrets: the answers to the queries it was asked for, at once
or through an approval, and nothing else. -/
namespace IostLedger
open Memory Machine

/-- The query that a reply answers. -/
def Reply.query : Reply → Option Query
  | .payload _ query => some query
  | _ => none

/-- The query whose answer is on the screen. -/
def View.shown : View → Option Query
  | .compare _ query _ => query
  | _ => none

/-- The queries whose answers the host or the user can read. -/
def Session.disclosed (t : Session) : List Query :=
  t.wire.filterMap Reply.query ++ t.view.shown.toList

/-- The queries that a run answers. -/
def disclosedBy (events : List Event) : List Query :=
  session.outputs Session.disclosed .start events

section Observe
variable {s s' : Suite} {t : Session}

theorem Suite.render_congr {reply : Reply}
    (h : ∀ query, reply.query = some query → s.value query = s'.value query) :
    s.render reply = s'.render reply := by
  cases reply with
  | status sw => rfl
  | plain payload => rfl
  | payload p2 query => rw [Suite.render, h query rfl, Suite.render]

theorem View.sight_congr {view : View}
    (h : ∀ query, view.shown = some query → s.value query = s'.value query) :
    view.sight s = view.sight s' := by
  cases view with
  | menu entries currentEntry => rfl
  | prompt p2 query => rfl
  | compare owner query moves =>
    cases query with
    | none => rfl
    | some query =>
      have htext : s.compareText (some query) = s'.compareText (some query) :=
        congrArg base58Text (h query rfl)
      rw [View.sight, htext, View.sight]

/-- An observation depends on the secrets by what it discloses. -/
theorem Session.observe_congr (h : ∀ query ∈ t.disclosed, s.value query = s'.value query) :
    t.observe s = t.observe s' := by
  have hwire : t.wire.map s.render = t.wire.map s'.render := by
    apply List.map_congr_left
    intro reply hreply
    apply Suite.render_congr
    intro query hquery
    exact h query (List.mem_append_left _ (List.mem_filterMap.mpr ⟨reply, hreply, hquery⟩))
  have hsight : t.view.sight s = t.view.sight s' := by
    apply View.sight_congr
    intro query hquery
    exact h query (List.mem_append_right _ (by rw [hquery]; exact List.mem_singleton_self _))
  rw [Session.observe, hwire, hsight, Session.observe]

theorem observed_congr {events : List Event}
    (h : ∀ query ∈ disclosedBy events, s.value query = s'.value query) :
    session.outputs (fun t => [t.observe s]) .start events =
      session.outputs (fun t => [t.observe s']) .start events := by
  rw [disclosedBy, outputs_flatMap] at h
  rw [outputs_flatMap, @outputs_flatMap _ _ _ session (fun t => [t.observe s'])]
  apply List.flatMap_congr
  intro t ht
  rw [Session.observe_congr fun query hquery => h query (List.mem_flatMap.mpr ⟨t, ht, hquery⟩)]

end Observe

/-! Where a query comes from. -/

/-- The request `bytes` after the events `history` asks for a query. -/
def Asks (history : List Event) (bytes : Bytes) (p1 p2 : UInt8) (query : Query) : Prop :=
  ∃ t, session.run .start history = some t ∧ t.view.asked = none ∧
    (Request.parse bytes).respond t.acc = .give p1 p2 query

/-- After the events `history`, the next one has a query answered: it asks for it in silent
mode, or it is the approval of its prompt. -/
inductive Granted (query : Query) : List Event → Event → Prop where
  | silent {history : List Event} {bytes : Bytes} {p2 : UInt8}
      (h : Asks history bytes p1Silent p2 query) : Granted query history (.apdu bytes)
  | approved {history : List Event} {bytes : Bytes} {p2 : UInt8} {masks : List UInt32}
      (h : Asks history bytes p1Confirm p2 query) (hmasks : ∀ mask ∈ masks, Ignored mask) :
      Granted query (history ++ .apdu bytes :: masks.map Event.button) approval

theorem Response.finish_give {p1 p2 p1' p2' : UInt8} {hashBeforeSign : Bool} {bytes : Bytes}
    {query : Query} (h : Response.finish p1 p2 hashBeforeSign bytes = .give p1' p2' query) :
    p1' = p1 ∧ p2' = p2 ∧ ∃ path m, splitPath bytes = some (path, m) ∧
      query = if hashBeforeSign then .hashSignature path m else .signature path m := by
  unfold Response.finish at h
  split at h
  · cases h
  · rename_i path m hsplit
    split_ifs at h with hhash
    · obtain ⟨rfl, rfl, rfl⟩ := Response.give.inj h
      exact ⟨rfl, rfl, path, m, hsplit, by rw [if_pos hhash]⟩
    · obtain ⟨rfl, rfl, rfl⟩ := Response.give.inj h
      exact ⟨rfl, rfl, path, m, hsplit, by rw [if_neg hhash]⟩

/-- What a request for a query looks like. -/
theorem respond_give {request : Request} {acc : Bytes} {p1 p2 : UInt8} {query : Query}
    (h : request.respond acc = .give p1 p2 query) :
    ValidP1P2 p1 p2 ∧ ∃ path, query.path = path ∧
      ((∃ data m, request = .publicKey p1 p2 data ∧ splitPath data = some (path, m) ∧
          query = .publicKey path) ∨
        ∃ data m, request = .sign p1 p2 data ∧ splitPath (acc ++ data) = some (path, m) ∧
          query = if data.length = 0 then .hashSignature path m else .signature path m) := by
  cases request with
  | publicKey q1 q2 data =>
    simp only [Request.respond] at h
    split_ifs at h with hvalid
    split at h
    · cases h
    · rename_i path m hsplit
      obtain ⟨rfl, rfl, rfl⟩ := Response.give.inj h
      exact ⟨hvalid, path, rfl, Or.inl ⟨data, m, rfl, hsplit, rfl⟩⟩
  | sign q1 q2 data =>
    simp only [Request.respond] at h
    split_ifs at h with hvalid hover hmore
    obtain ⟨rfl, rfl, path, m, hsplit, hquery⟩ := Response.finish_give h
    simp only [decide_eq_true_eq] at hquery
    refine ⟨hvalid, path, ?_, Or.inr ⟨data, m, rfl, hsplit, hquery⟩⟩
    rw [hquery]
    split_ifs <;> rfl
  | malformed sw => cases h
  | reset => cases h
  | echo bytes => cases h
  | configuration => cases h
  | dashboard => cases h
  | unknown => cases h

section Runs
variable {t t' : Session} {events : List Event} {event : Event}

/-- The last step of a session, by its event. -/
theorem Session.step_cases (h : t.step event = some t') :
    (∃ bytes, event = .apdu bytes ∧ t.view.asked = none ∧
        t' = t.answered ((Request.parse bytes).respond t.acc)) ∨
      (∃ mask, event = .button mask ∧ t' = t.pressed mask) ∨ t' = .start := by
  cases event with
  | apdu bytes =>
    rw [Session.step] at h
    split_ifs at h with hc
    exact Or.inl ⟨bytes, rfl, hc.2.1, (Option.some.inj h).symm⟩
  | button mask =>
    rw [Session.step] at h
    split_ifs at h
    exact Or.inr (Or.inl ⟨mask, rfl, (Option.some.inj h).symm⟩)
  | ioThrow code =>
    rw [Session.step] at h
    split_ifs at h
    exact Or.inr (Or.inr (Option.some.inj h).symm)

/-- A response that opens a prompt or shows a reply to a query gives it. -/
theorem answered_asked {response : Response} {query : Query} (hasked : t.view.asked = none)
    (h : (t.answered response).view.asked = some query) :
    ∃ p2, response = .give p1Confirm p2 query ∧
      (t.answered response).view = .prompt p2 query := by
  have hblank (owner : Owner) : (t.cleared owner).view.asked = none :=
    (View.asked_blanked owner t.view).trans hasked
  cases response with
  | refuse sw =>
    have hboth : ((t.cleared .signMessage).cleared .getPublicKey).view.asked = none :=
      (View.asked_blanked _ _).trans (hblank _)
    exact absurd (hboth.symm.trans h) (by simp)
  | give p1 p2 query' =>
    rw [Session.answered] at h ⊢
    split_ifs at h ⊢ with hp1
    · obtain rfl := Option.some.inj h
      exact ⟨p2, by rw [hp1], rfl⟩
    · exact absurd ((hblank _).symm.trans h) (by simp)
  | reply payload => exact absurd (hasked.symm.trans h) (by simp)
  | store acc => exact absurd (hasked.symm.trans h) (by simp)
  | exit => exact absurd (hasked.symm.trans h) (by simp)
  | leave => exact absurd (hasked.symm.trans h) (by simp)

/-- Buttons open no prompt, and those that keep one are ignored there. -/
theorem pressed_asked {mask : UInt32} {query : Query}
    (h : (t.pressed mask).view.asked = some query) : Ignored mask ∧ (t.pressed mask).view = t.view := by
  unfold Session.pressed at h ⊢
  cases hview : t.view with
  | menu entries currentEntry =>
    simp only [hview] at h
    generalize Session.menuEntry entries currentEntry mask = entry at h
    cases entry <;> simp [View.asked] at h
  | prompt p2 query' =>
    simp only [hview] at h ⊢
    split_ifs at h ⊢ with hleft hright
    · cases h
    · cases h
    · exact ⟨⟨hleft, hright⟩, rfl⟩
  | compare owner query' moves =>
    simp only [hview] at h
    generalize Session.moveOf mask = move at h
    cases move
    · split_ifs at h <;> simp [View.asked] at h
    · simp [View.asked] at h

/-- A prompt has been opened by a confirm request, and no button since has had an effect. -/
theorem prompt_origin {p2 : UInt8} {query : Query}
    (hrun : session.run .start events = some t) (hview : t.view = .prompt p2 query) :
    ∃ history bytes, ∃ masks : List UInt32,
      events = history ++ .apdu bytes :: masks.map Event.button ∧
      (∀ mask ∈ masks, Ignored mask) ∧ Asks history bytes p1Confirm p2 query := by
  induction events using List.reverseRecOn generalizing t with
  | nil =>
    obtain rfl := Option.some.inj hrun
    cases hview
  | append_singleton events event ih =>
    obtain ⟨t₀, hrun₀, hstep⟩ := run_concat hrun
    have hasked : t.view.asked = some query := by rw [hview]; rfl
    rcases Session.step_cases hstep with ⟨bytes, rfl, hnone, rfl⟩ | ⟨mask, rfl, rfl⟩ | rfl
    · obtain ⟨p2', hgive, hprompt⟩ := answered_asked hnone hasked
      obtain ⟨rfl, -⟩ := View.prompt.inj (hview.symm.trans hprompt)
      exact ⟨events, bytes, [], rfl, by simp, t₀, hrun₀, hnone, hgive⟩
    · obtain ⟨hmask, hsame⟩ := pressed_asked hasked
      obtain ⟨history, bytes, masks, rfl, hmasks, hasks⟩ := ih hrun₀ (hsame.symm.trans hview)
      refine ⟨history, bytes, masks ++ [mask], by simp, fun m hm => ?_, hasks⟩
      rcases List.mem_append.mp hm with hm | hm
      · exact hmasks m hm
      · rw [List.mem_singleton.mp hm]
        exact hmask
    · cases hasked

theorem cleared_shown {owner : Owner} {query : Query}
    (h : (t.cleared owner).view.shown = some query) : t.view.shown = some query := by
  rw [Session.cleared] at h
  simp only [] at h
  generalize t.view = view at h ⊢
  cases view with
  | menu entries currentEntry => exact h
  | prompt p2 query' => exact h
  | compare shown query' moves =>
    rw [View.blanked] at h
    split_ifs at h
    · cases h
    · exact h

theorem mem_disclosed {query : Query} : query ∈ t.disclosed ↔
    (∃ reply ∈ t.wire, reply.query = some query) ∨ t.view.shown = some query := by
  rw [Session.disclosed, List.mem_append, List.mem_filterMap, Option.mem_toList]

/-- A response shows no new answer on the screen, and sends one at once in silent mode alone. -/
theorem answered_disclosed {response : Response} {query : Query}
    (h : query ∈ (t.answered response).disclosed) :
    t.view.shown = some query ∨ ∃ p1 p2, response = .give p1 p2 query ∧ p1 ≠ p1Confirm := by
  rw [mem_disclosed] at h
  cases response with
  | refuse sw =>
    left
    apply cleared_shown
    apply cleared_shown
    simpa [Session.answered, Reply.query] using h
  | give p1 p2 query' =>
    rw [Session.answered] at h
    split_ifs at h with hp1
    · rcases h with ⟨reply, hreply, -⟩ | h
      · cases hreply
      · cases h
    · rcases h with ⟨reply, hreply, hquery⟩ | h
      · rw [List.mem_singleton.mp hreply] at hquery
        obtain rfl := Option.some.inj hquery
        exact Or.inr ⟨p1, p2, rfl, hp1⟩
      · exact Or.inl (cleared_shown h)
  | reply payload => exact Or.inl (by simpa [Session.answered, Reply.query] using h)
  | store acc => exact Or.inl (by simpa [Session.answered, Reply.query] using h)
  | exit => exact Or.inl (by simpa [Session.answered, Reply.query] using h)
  | leave => exact Or.inl (by simpa [Session.answered, Reply.query] using h)

/-- A button shows a new answer where it approves the prompt for it. -/
theorem pressed_disclosed {mask : UInt32} {query : Query}
    (h : query ∈ (t.pressed mask).disclosed) :
    t.view.shown = some query ∨
      mask = buttonEvtReleased ||| buttonRight ∧ ∃ p2, t.view = .prompt p2 query := by
  rw [mem_disclosed] at h
  unfold Session.pressed at h
  cases hview : t.view with
  | menu entries currentEntry =>
    simp only [hview] at h
    generalize Session.menuEntry entries currentEntry mask = entry at h
    cases entry <;> simp [View.shown] at h
  | prompt p2 query' =>
    simp only [hview] at h
    split_ifs at h with hleft hright
    · simp [View.shown, Reply.query] at h
    · right
      rcases h with ⟨reply, hreply, hquery⟩ | h
      · rw [List.mem_singleton.mp hreply] at hquery
        obtain rfl := Option.some.inj hquery
        exact ⟨hright, p2, rfl⟩
      · obtain rfl := Option.some.inj h
        exact ⟨hright, p2, rfl⟩
    · simp [View.shown] at h
  | compare owner query' moves =>
    simp only [hview] at h
    left
    generalize Session.moveOf mask = move at h
    cases move with
    | none =>
      split_ifs at h
      · simp [View.shown] at h
      · simpa [View.shown, hview] using h
    | some move => simpa [View.shown] using h

/-- What a state of a run discloses has been granted by an event of the run. -/
theorem disclosed_origin {query : Query} (hrun : session.run .start events = some t)
    (h : query ∈ t.disclosed) :
    ∃ history event rest, events = history ++ event :: rest ∧ Granted query history event := by
  induction events using List.reverseRecOn generalizing t with
  | nil =>
    obtain rfl := Option.some.inj hrun
    cases h
  | append_singleton events event ih =>
    obtain ⟨t₀, hrun₀, hstep⟩ := run_concat hrun
    have hbefore (hshown : t₀.view.shown = some query) :
        ∃ history event' rest, events ++ [event] = history ++ event' :: rest ∧
          Granted query history event' := by
      obtain ⟨history, event', rest, rfl, hgranted⟩ :=
        ih hrun₀ (List.mem_append_right _ (by rw [hshown]; exact List.mem_singleton_self _))
      exact ⟨history, event', rest ++ [event], by simp, hgranted⟩
    rcases Session.step_cases hstep with ⟨bytes, rfl, hnone, rfl⟩ | ⟨mask, rfl, rfl⟩ | rfl
    · rcases answered_disclosed h with hshown | ⟨p1, p2, hgive, hp1⟩
      · exact hbefore hshown
      · obtain ⟨hvalid, -⟩ := respond_give hgive
        rw [hvalid.p1.resolve_left hp1] at hgive
        exact ⟨events, _, [], rfl, .silent ⟨t₀, hrun₀, hnone, hgive⟩⟩
    · rcases pressed_disclosed h with hshown | ⟨rfl, p2, hview⟩
      · exact hbefore hshown
      · obtain ⟨history, bytes, masks, rfl, hmasks, hasks⟩ := prompt_origin hrun₀ hview
        exact ⟨_, approval, [], rfl, .approved hasks hmasks⟩
    · cases h

/-- A run discloses no more than what its requests and approvals grant. -/
theorem disclosedBy_granted {query : Query} (h : query ∈ disclosedBy events) :
    ∃ history event rest, events = history ++ event :: rest ∧ Granted query history event := by
  obtain ⟨first, event, rest, t, rfl, hrun, ht⟩ := mem_outputs h
  obtain ⟨history, event', rest', heq, hgranted⟩ := disclosed_origin hrun ht
  refine ⟨history, event', rest' ++ rest, ?_, hgranted⟩
  have happend : first ++ event :: rest = (first ++ [event]) ++ rest := by simp
  rw [happend, heq, List.append_assoc, List.cons_append]

end Runs

/-- A signature that the user refuses. -/
def sampleRefusal : List Event :=
  [.apdu (command insSignMessage p1Confirm p2Bin (bufferFromBip32 [44] ++ [1, 2, 3, 4, 5])),
    rejection]

/-- The bytes that a request adds to a message. -/
def Request.chunk : Request → Bytes
  | .sign _ _ data => data
  | _ => []

def Event.chunk : Event → Bytes
  | .apdu bytes => (Request.parse bytes).chunk
  | _ => []

/-- `bytes` have been sent by the last of the events, one after the other. -/
def SentLast (events : List Event) (bytes : Bytes) : Prop :=
  ∃ first last, events = first ++ last ∧ last.flatMap Event.chunk = bytes

section Chunks
variable {t : Session} {events : List Event} {event : Event} {bytes acc : Bytes}

theorem sentLast_nil (events : List Event) : SentLast events [] := ⟨events, [], by simp, rfl⟩

theorem SentLast.concat (h : SentLast events acc) :
    SentLast (events ++ [event]) (acc ++ event.chunk) := by
  obtain ⟨first, last, rfl, rfl⟩ := h
  exact ⟨first, last ++ [event], by simp, by simp⟩

theorem respond_sign (acc : Bytes) (p1 p2 : UInt8) (data : Bytes) :
    (∃ sw, (Request.sign p1 p2 data).respond acc = .refuse sw) ∨
      (Request.sign p1 p2 data).respond acc = .store (acc ++ data) ∨
      ∃ query, (Request.sign p1 p2 data).respond acc = .give p1 p2 query ∧
        query.owner = .signMessage := by
  simp only [Request.respond]
  split_ifs
  · exact Or.inl ⟨_, rfl⟩
  · exact Or.inr (Or.inl rfl)
  · unfold Response.finish
    split
    · exact Or.inl ⟨_, rfl⟩
    · split_ifs
      · exact Or.inr (Or.inr ⟨_, rfl, rfl⟩)
      · exact Or.inr (Or.inr ⟨_, rfl, rfl⟩)
      · exact Or.inl ⟨_, rfl⟩
  · exact Or.inl ⟨_, rfl⟩

/-- A request either drops the collected bytes or adds its own, unless it prompts for their
signature. -/
theorem answered_acc (t : Session) (request : Request) :
    (t.answered (request.respond t.acc)).acc = [] ∨
      (t.answered (request.respond t.acc)).acc = t.acc ++ request.chunk ∨
      ∃ query, (t.answered (request.respond t.acc)).view.asked = some query ∧
        query.owner = .signMessage := by
  cases request with
  | malformed sw => exact Or.inl rfl
  | unknown => exact Or.inl rfl
  | reset => exact Or.inr (Or.inl (List.append_nil t.acc).symm)
  | echo payload => exact Or.inr (Or.inl (List.append_nil t.acc).symm)
  | configuration => exact Or.inr (Or.inl (List.append_nil t.acc).symm)
  | dashboard => exact Or.inr (Or.inl (List.append_nil t.acc).symm)
  | publicKey p1 p2 data =>
    simp only [Request.respond, Request.chunk, List.append_nil]
    split_ifs
    · cases splitPath data with
      | none => exact Or.inl rfl
      | some split =>
        right
        left
        rw [Session.answered]
        split_ifs <;> rfl
    · exact Or.inl rfl
  | sign p1 p2 data =>
    rcases respond_sign t.acc p1 p2 data with ⟨sw, hrefuse⟩ | hstore | ⟨query, hgive, howner⟩
    · rw [hrefuse]
      exact Or.inl rfl
    · rw [hstore]
      exact Or.inr (Or.inl rfl)
    · rw [hgive, Session.answered]
      split_ifs
      · exact Or.inr (Or.inr ⟨query, rfl, howner⟩)
      · left
        simp only [Session.cleared, howner, if_true]

/-- A button either keeps the collected bytes or drops them. -/
theorem pressed_acc (t : Session) (mask : UInt32) :
    (t.pressed mask).acc = [] ∨ (t.pressed mask).acc = t.acc ∧
      ∀ query, t.view.asked = some query → query.owner = .signMessage →
        (t.pressed mask).view.asked = some query := by
  unfold Session.pressed
  cases hview : t.view with
  | menu entries currentEntry =>
    simp only []
    generalize Session.menuEntry entries currentEntry mask = entry
    cases entry <;> simp [View.asked]
  | prompt p2 query =>
    simp only [Session.cleared]
    split_ifs with hleft howner hright
    · exact Or.inl rfl
    · refine Or.inr ⟨rfl, fun query' hquery' howner' => ?_⟩
      obtain rfl := Option.some.inj hquery'
      exact absurd howner' howner
    · exact Or.inl rfl
    · refine Or.inr ⟨rfl, fun query' hquery' howner' => ?_⟩
      obtain rfl := Option.some.inj hquery'
      contradiction
    · exact Or.inr ⟨rfl, fun _ hquery _ => hquery⟩
  | compare owner query moves =>
    simp only []
    generalize Session.moveOf mask = move
    cases move
    · simp only []
      split_ifs <;> simp [View.asked]
    · simp [View.asked]

/-- The collected bytes are what the last requests have sent. -/
theorem acc_sentLast (hrun : session.run .start events = some t)
    (hasked : ∀ query, t.view.asked = some query → query.owner ≠ .signMessage) :
    SentLast events t.acc := by
  induction events using List.reverseRecOn generalizing t with
  | nil =>
    obtain rfl := Option.some.inj hrun
    exact sentLast_nil []
  | append_singleton events event ih =>
    obtain ⟨t₀, hrun₀, hstep⟩ := run_concat hrun
    rcases Session.step_cases hstep with ⟨bytes, rfl, hnone, rfl⟩ | ⟨mask, rfl, rfl⟩ | rfl
    · have h₀ := ih hrun₀ fun query hquery => by
        rw [hnone] at hquery
        cases hquery
      rcases answered_acc t₀ (Request.parse bytes) with hnil | hadd | ⟨query, hquery, howner⟩
      · rw [hnil]
        exact sentLast_nil _
      · rw [hadd]
        exact h₀.concat
      · exact absurd howner (hasked query hquery)
    · rcases pressed_acc t₀ mask with hnil | ⟨hsame, hkept⟩
      · rw [hnil]
        exact sentLast_nil _
      · have h₀ := ih hrun₀ fun query hquery howner =>
          hasked query (hkept query hquery howner) howner
        rw [hsame, ← List.append_nil t₀.acc]
        exact h₀.concat
    · exact sentLast_nil _

/-- A signature that is asked for is over the bytes of the last requests: the path and the
message that they spell, or the hash of this message where the last request is empty. -/
theorem Asks.signature {p1 p2 : UInt8} {query : Query} (h : Asks events bytes p1 p2 query)
    (howner : query.owner = .signMessage) :
    ∃ m, SentLast (events ++ [.apdu bytes]) (bufferFromBip32 query.path ++ m) ∧
      query = if (Event.apdu bytes).chunk = [] then .hashSignature query.path m
        else .signature query.path m := by
  obtain ⟨t, hrun, hnone, hgive⟩ := h
  have hacc := acc_sentLast hrun fun query hquery => by
    rw [hnone] at hquery
    cases hquery
  obtain ⟨-, path, rfl, ⟨data, m, -, -, hquery⟩ | ⟨data, m, hsign, hsplit, hquery⟩⟩ :=
    respond_give hgive
  · rw [hquery] at howner
    cases howner
  · have hchunk : (Event.apdu bytes).chunk = data := by rw [Event.chunk, hsign]; rfl
    obtain ⟨-, hbytes⟩ := splitPath_eq_some.mp hsplit
    refine ⟨m, ?_, ?_⟩
    · rw [← hbytes, ← hchunk]
      exact hacc.concat
    · rw [hchunk]
      simp only [List.length_eq_zero_iff] at hquery
      exact hquery

end Chunks

/-- How a reply of a run is accounted for: a status, the configuration, a request sent back, or
the answer to a query that an event of the run grants. A signature is over the bytes of the
last requests before the grant. -/
inductive Accounted (s : Suite) (events : List Event) : Bytes → Prop where
  | status (sw : UInt16) : Accounted s events (statusBytes sw)
  | configuration : Accounted s events (configuration ++ statusBytes swOk)
  | echo {request : Bytes} (h : .apdu request ∈ events) :
      Accounted s events (request ++ statusBytes swOk)
  | answer {p2 : UInt8} {query : Query} {history rest : List Event} {event : Event}
      (hevents : events = history ++ event :: rest) (hgranted : Granted query history event)
      (hsigned : query.owner = .signMessage → ∃ first last m, events = first ++ last ∧
        SentLast first (bufferFromBip32 query.path ++ m) ∧
        (query = .signature query.path m ∨ query = .hashSignature query.path m)) :
      Accounted s events (answer (formatPayload p2 (s.value query)))

section Accounts
variable {s : Suite} {events : List Event}

/-- A grant of a signature names the requests that it is over. -/
theorem Granted.signature {query : Query} {history rest : List Event} {event : Event}
    (h : Granted query history event) (howner : query.owner = .signMessage) :
    ∃ first last m, history ++ event :: rest = first ++ last ∧
      SentLast first (bufferFromBip32 query.path ++ m) ∧
      (query = .signature query.path m ∨ query = .hashSignature query.path m) := by
  have hcases {c : Prop} [Decidable c] {m : Bytes}
      (hquery : query = if c then .hashSignature query.path m else .signature query.path m) :
      query = .signature query.path m ∨ query = .hashSignature query.path m := by
    by_cases hc : c
    · exact Or.inr (hquery.trans (if_pos hc))
    · exact Or.inl (hquery.trans (if_neg hc))
  cases h with
  | @silent _ bytes _ hasks =>
    obtain ⟨m, hsent, hquery⟩ := hasks.signature howner
    exact ⟨_, rest, m, by simp, hsent, hcases hquery⟩
  | @approved history bytes _ masks hasks _ =>
    obtain ⟨m, hsent, hquery⟩ := hasks.signature howner
    exact ⟨_, masks.map Event.button ++ approval :: rest, m, by simp, hsent, hcases hquery⟩

theorem accounted_of_disclosed {p2 : UInt8} {query : Query}
    (h : ∃ history event rest, events = history ++ event :: rest ∧ Granted query history event) :
    Accounted s events (answer (formatPayload p2 (s.value query))) := by
  obtain ⟨history, event, rest, rfl, hgranted⟩ := h
  exact .answer rfl hgranted fun howner => hgranted.signature howner

theorem Accounted.append {reply : Bytes} (h : Accounted s events reply) (more : List Event) :
    Accounted s (events ++ more) reply := by
  cases h with
  | status sw => exact .status sw
  | configuration => exact .configuration
  | echo hmem => exact .echo (List.mem_append_left more hmem)
  | @answer p2 query history rest event hevents hgranted _ =>
    exact accounted_of_disclosed ⟨history, event, rest ++ more, by rw [hevents]; simp, hgranted⟩

theorem parse_echo {bytes payload : Bytes} (h : Request.parse bytes = .echo payload) :
    payload = bytes := by
  unfold Request.parse at h
  split at h
  · rename_i c ins p1 p2 lc data
    split_ifs at h with hcla hlength
    unfold Request.ofCommand at h
    split_ifs at h
    have hlen : lc.toNat = data.length := by
      by_contra hne
      exact hlength (Or.inl hne)
    rw [← Request.echo.inj h, command, ← hlen, UInt8.ofNat_toNat, ← not_not.mp hcla]
    rfl
  · cases h

/-- Without a query a reply is a status, the configuration, or the request itself. -/
theorem answered_plain {t : Session} {bytes payload : Bytes}
    (h : .plain payload ∈ (t.answered ((Request.parse bytes).respond t.acc)).wire) :
    payload = configuration ∨ payload = bytes := by
  cases hrequest : Request.parse bytes with
  | echo sent =>
    rw [hrequest] at h
    have heq : payload = sent := Reply.plain.inj (List.mem_singleton.mp h)
    exact Or.inr (heq.trans (parse_echo hrequest))
  | configuration =>
    rw [hrequest] at h
    exact Or.inl (Reply.plain.inj (List.mem_singleton.mp h))
  | malformed sw =>
    rw [hrequest] at h
    cases List.mem_singleton.mp h
  | unknown =>
    rw [hrequest] at h
    cases List.mem_singleton.mp h
  | reset =>
    rw [hrequest] at h
    cases List.mem_singleton.mp h
  | dashboard =>
    rw [hrequest] at h
    cases h
  | publicKey p1 p2 data =>
    simp only [hrequest, Request.respond] at h
    split_ifs at h
    · cases hsplit : splitPath data <;> simp only [hsplit, Session.answered] at h
      · cases List.mem_singleton.mp h
      · split_ifs at h
        · cases h
        · cases List.mem_singleton.mp h
    · cases List.mem_singleton.mp h
  | sign p1 p2 data =>
    rw [hrequest] at h
    rcases respond_sign t.acc p1 p2 data with ⟨sw, hrefuse⟩ | hstore | ⟨query, hgive, -⟩
    · rw [hrefuse] at h
      cases List.mem_singleton.mp h
    · rw [hstore] at h
      cases List.mem_singleton.mp h
    · rw [hgive, Session.answered] at h
      split_ifs at h
      · cases h
      · cases List.mem_singleton.mp h

theorem pressed_plain {t : Session} {mask : UInt32} {payload : Bytes} :
    .plain payload ∉ (t.pressed mask).wire := by
  intro h
  unfold Session.pressed at h
  cases hview : t.view with
  | menu entries currentEntry =>
    simp only [hview] at h
    generalize Session.menuEntry entries currentEntry mask = entry at h
    cases entry <;> cases h
  | prompt p2 query =>
    simp only [hview] at h
    split_ifs at h
    · cases List.mem_singleton.mp h
    · cases List.mem_singleton.mp h
    · cases h
  | compare owner query moves =>
    simp only [hview] at h
    generalize Session.moveOf mask = move at h
    cases move
    · simp only [] at h
      split_ifs at h <;> cases h
    · cases h

end Accounts

end IostLedger
