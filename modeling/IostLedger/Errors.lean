import IostLedger.RawSigning

/-! What an error leaves behind: the contexts after an error reply, and an exception while an
approval is outstanding. -/
namespace IostLedger
open Memory Exec Machine

/-! Error replies. -/

def Owner.Cleared : Owner → Device → Prop
  | .signMessage, d => d.sign = .zero
  | .getPublicKey, d => d.pk = .zero

instance (owner : Owner) : DecidablePred owner.Cleared := fun d => by
  cases owner
  · exact inferInstanceAs (Decidable (d.sign = .zero))
  · exact inferInstanceAs (Decidable (d.pk = .zero))

/-- An error reply of the event is the status alone, and it leaves both contexts cleared. -/
def CleanError (_ : Device) (_ : Event) (d' : Device) : Prop :=
  ∀ reply ∈ d'.wire, ¬ statusBytes swOk <:+ reply →
    reply.length = 2 ∧ d'.sign.msgLength = 0 ∧ ∀ owner : Owner, owner.Cleared d'

/-- A rejection finds the context of the other handler cleared. -/
def RejectsCleared (d : Device) (event : Event) (_ : Device) : Prop :=
  event = rejection → ∀ owner : Owner, d.screen = owner.approveScreen → owner.other.Cleared d

section Clean
variable {crypto : Crypto} {d d' : Device} {event : Event}

theorem cleanError_of_success {payload : Bytes}
    (hwire : d'.wire = [payload ++ statusBytes swOk]) : CleanError d event d' := by
  intro reply hreply herror
  rw [hwire, List.mem_singleton] at hreply
  rw [hreply] at herror
  exact absurd (List.suffix_append _ _) herror

theorem cleanError_of_silence (hwire : d'.wire = []) : CleanError d event d' := by
  intro reply hreply
  rw [hwire] at hreply
  cases hreply

/-- An APDU leaves nothing behind its error. -/
theorem step_apdu_clean {bytes : Bytes} (hinv : d.Inv)
    (hstep : step crypto d (.apdu bytes) = some d') : CleanError d (.apdu bytes) d' := by
  rcases step_apdu_outcome hinv hstep with ⟨h⟩ | ⟨h⟩ | ⟨h⟩ | ⟨rfl⟩ | ⟨-, -, rfl⟩ | ⟨-, hloop, rfl⟩
  · rename_i e
    intro reply hreply _
    have hwire : d'.wire = [statusBytes (statusOf e)] := h.wire
    rw [hwire, List.mem_singleton] at hreply
    refine ⟨by rw [hreply, statusBytes_length], by rw [h.sign]; rfl, fun owner => ?_⟩
    cases owner
    · exact h.sign
    · exact h.pk
  · exact cleanError_of_success h.wire
  · exact cleanError_of_silence h.wire
  · have htx : (resetting (received bytes d)).tx = 0 := hinv.tx (step_apdu hstep).1
    have hwire : (replied swOk (resetting (received bytes d))).wire = _ :=
      replied_wire swOk (by rw [htx]; decide)
    exact cleanError_of_success hwire
  · exact cleanError_of_silence rfl
  · exact cleanError_of_silence hloop.wire

/-- The wire of an approval. -/
theorem approved_success (owner : Owner) {u : UiContext} (hd : d.Bounded) (hwire : d.wire = []) :
    ∃ payload, (approved owner u d).wire = [payload ++ statusBytes swOk] := by
  have hout := hd.output owner
  simp only [approved, Owner.setUi_wire, Owner.clearContext_wire]
  rw [replied_wire _ (by rw [setTx_tx]; simp only [ioApduBufferSize]; omega), setTx_wire, hwire]
  exact ⟨_, rfl⟩

theorem approveScreen_inj {owner owner' : Owner} (h : owner.approveScreen = owner'.approveScreen) :
    owner = owner' := by cases owner <;> cases owner' <;> first | rfl | cases h

/-- After a rejection the contexts are cleared exactly when the other one was before. -/
theorem rejected_clean {owner : Owner} {d₀ : Device} (hwire : d.wire = []) :
    CleanError d₀ event (rejected owner d) ↔ owner.other.Cleared d := by
  have hreply := rejected_wire owner hwire
  constructor
  · intro h
    obtain ⟨-, -, hcleared⟩ := h (statusBytes swUserRejected)
      (by rw [hreply]; exact List.mem_singleton_self _) (by decide)
    have hother := hcleared owner.other
    cases owner <;> exact hother
  · intro hother reply hmem _
    rw [hreply, List.mem_singleton] at hmem
    refine ⟨by rw [hmem, statusBytes_length], ?_, fun owner' => ?_⟩
    · cases owner
      · rfl
      · exact congrArg SignTxContext.msgLength hother
    · cases owner <;> cases owner' <;> first | rfl | exact hother

/-- A button event leaves nothing behind its error exactly when a rejection finds the other
context cleared. -/
theorem step_button_clean {mask : UInt32} (hinv : d.Inv)
    (hstep : step crypto d (.button mask) = some d') :
    CleanError d (.button mask) d' ↔ RejectsCleared d (.button mask) d' := by
  have hrejection : Event.button mask = rejection ↔ mask = buttonEvtReleased ||| buttonLeft := by
    rw [rejection, Event.button.injEq]
  unfold RejectsCleared
  rw [hrejection]
  rcases step_button_outcome hinv hstep with @⟨entries, currentEntry, hscreen, hmenu⟩ |
    @⟨owner, u, idle, hscreen, -, hcompare⟩ | @⟨owner, hscreen, hmask, hrejected⟩ |
    @⟨owner, u, hscreen, hmask, -, happroved⟩ | ⟨-, hleft, -, hsame⟩
  · have hwire : d'.wire = [] := by
      rw [hmenu]
      rcases uxMenuElementsButton_cases entries currentEntry mask { d with wire := [] } with
        heq | heq | ⟨entries', currentEntry', heq⟩
      · rw [heq]
      · rw [heq, exited]
      · rw [heq]
    refine iff_of_true (cleanError_of_silence hwire) fun _ owner h => ?_
    exact absurd (hscreen.symm.trans h) (approveScreen_ne_menu owner _ _)
  · have hwire : d'.wire = [] := by
      rw [hcompare]
      cases idle <;> simp [uiIdle]
    refine iff_of_true (cleanError_of_silence hwire) fun _ owner' h => ?_
    exact absurd (hscreen.symm.trans h) (approveScreen_ne_compare owner owner')
  · have hclean : CleanError d (.button mask) (rejected owner { d with wire := [] }) ↔ _ :=
      rejected_clean rfl
    rw [hrejected, hclean]
    constructor
    · intro h _ owner' howner'
      rw [← approveScreen_inj (hscreen.symm.trans howner')]
      cases owner <;> exact h
    · intro h
      have hother := h hmask owner hscreen
      cases owner <;> exact hother
  · obtain ⟨payload, hwire⟩ := approved_success (u := u) owner
      (wire_irrelevant_inv hinv).bounded rfl
    rw [← happroved] at hwire
    refine iff_of_true (cleanError_of_success hwire) fun hleft => ?_
    exact absurd (hmask.symm.trans hleft) (by decide)
  · refine iff_of_true (cleanError_of_silence (by rw [hsame])) fun h => absurd h hleft

/-- An exception that leaves `io_exchange` is never answered. -/
theorem caught_wire {e : UInt16} (hinv : d.Inv) (hphase : d.phase = .waiting)
    (hwire : d.wire = []) : (caught (.thrown e) d).wire = [] := by
  have htx := hinv.tx hphase
  by_cases he : e = SdkException.ioReset.code
  · rw [he, caught_reset]
    exact hwire
  have hquiet : (withStatus (statusOf e) (clearUnless e d)).wire = [] := by
    simpa [withStatus] using hwire
  cases hstate : d.apduState with
  | busy =>
    rw [caught_deferred he (hinv.flags hphase hstate) htx]
    exact hquiet
  | idle =>
    have hidle : (withStatus (statusOf e) (clearUnless e d)).apduState = .idle := by
      simpa [withStatus] using hstate
    rw [caught_of_ne he (by rw [htx]; decide)]
    rcases exchangeNext_idle hidle (Nat.succ_ne_zero _) with h | h <;> rw [h] <;> exact hquiet

theorem step_ioThrow_wire {e : UInt16} (hinv : d.Inv)
    (hstep : step crypto d (.ioThrow e) = some d') : d'.wire = [] := by
  obtain ⟨hphase, rfl⟩ := step_ioThrow hstep
  exact caught_wire (wire_irrelevant_inv hinv) hphase rfl

end Clean

/-- The status of an exception is sent, and from then on no button event sends a reply with
the status of a success. -/
def Recovers (crypto : Crypto) (d : Device) (e : UInt16) : Prop :=
  ∃ d', step crypto d (.ioThrow e) = some d' ∧ d'.wire = [statusBytes (statusOf e)] ∧
    ∀ masks : List UInt32, (app crypto).Along
      (fun _ _ t => ∀ reply ∈ t.wire, ¬ statusBytes swOk <:+ reply) d' (masks.map Event.button)

section Recovery
variable {crypto : Crypto} {d : Device} {owner : Owner} {e : UInt16}

/-- An exception during a pending approval leaves the prompt open. -/
theorem ioThrow_pending (hinv : d.Inv) (hphase : d.phase = .waiting)
    (hscreen : d.screen = owner.approveScreen) (he : e ≠ SdkException.ioReset.code) :
    ∃ d', step crypto d (.ioThrow e) = some d' ∧ d'.phase = .waiting ∧
      d'.screen = owner.approveScreen ∧ d'.wire = [] := by
  have hbusy := (hinv.open_iff hphase).mpr ⟨owner, hscreen⟩
  have hstep : step crypto d (.ioThrow e) = some (caught (.thrown e) { d with wire := [] }) :=
    if_pos hphase
  have hwire := step_ioThrow_wire hinv hstep
  have hdeferred := @caught_deferred { d with wire := [] } e he (hinv.flags hphase hbusy)
    (hinv.tx hphase)
  refine ⟨_, hstep, ?_, ?_, hwire⟩
  · rw [hdeferred]
    simpa [withStatus] using hphase
  · rw [hdeferred]
    simpa [withStatus] using hscreen

/-- An open prompt is answered with a success when the right button is released. -/
theorem approval_answered (hinv : d.Inv) (hphase : d.phase = .waiting)
    (hscreen : d.screen = owner.approveScreen) :
    ∃ d' payload, step crypto d approval = some d' ∧ d'.wire = [payload ++ statusBytes swOk] := by
  have hbusy := (hinv.open_iff hphase).mpr ⟨owner, hscreen⟩
  have hbounded := (wire_irrelevant_inv hinv).bounded
  obtain ⟨u, -, hrun⟩ := uiApproveButton_right owner hbounded hbusy (hinv.tx hphase)
  obtain ⟨payload, hwire⟩ := approved_success (u := u) owner hbounded rfl
  have hscreen' : ({ d with wire := [] } : Device).screen = owner.approveScreen := hscreen
  have hpush := (buttonPush_approve hscreen').trans hrun
  refine ⟨_, payload, ?_, hwire⟩
  rw [approval, step, if_pos hphase, handleButton, hpush]

/-- An exception during a pending approval is not answered, and the approval still is. -/
theorem not_recovers (hd : (app crypto).Reachable d) (hphase : d.phase = .waiting)
    (hscreen : d.screen = .signMessageApprove ∨ d.screen = .getPublicKeyApprove)
    (he : e ≠ SdkException.ioReset.code) :
    ¬ Recovers crypto d e ∧ ∃ d' d'' payload, step crypto d (.ioThrow e) = some d' ∧ d'.wire = [] ∧
      step crypto d' approval = some d'' ∧ d''.wire = [payload ++ statusBytes swOk] := by
  have hinv := reachable_inv hd
  have howner : ∃ owner : Owner, d.screen = owner.approveScreen := by
    rcases hscreen with h | h
    · exact ⟨.signMessage, h⟩
    · exact ⟨.getPublicKey, h⟩
  obtain ⟨owner, hscreen⟩ := howner
  obtain ⟨d', hstep, hphase', hscreen', hwire⟩ :=
    @ioThrow_pending crypto _ _ _ hinv hphase hscreen he
  obtain ⟨d'', payload, happrove, hsuccess⟩ :=
    @approval_answered crypto _ _ (step_inv hinv hstep) hphase' hscreen'
  refine ⟨?_, d', d'', payload, hstep, hwire, happrove, hsuccess⟩
  rintro ⟨d₁, hstep₁, hsent, -⟩
  obtain rfl := Option.some.inj (hstep.symm.trans hstep₁)
  rw [hwire] at hsent
  cases hsent

end Recovery

/-- The prompt for a public key, reached from the start. -/
theorem exists_prompt : ∃ d, (app (Suite.marking [] []).crypto).run (boot (.zero _))
      [.apdu (command insGetPublicKey p1Confirm p2Bin (bufferFromBip32 [44]))] = some d ∧
    d.phase = .waiting ∧ d.screen = .getPublicKeyApprove := by
  have hstate : ((app (Suite.marking [] []).crypto).run (boot (.zero _))
      [.apdu (command insGetPublicKey p1Confirm p2Bin (bufferFromBip32 [44]))]).map
        (fun d => (d.phase, d.screen)) = some (.waiting, .getPublicKeyApprove) := by
    decide +kernel
  obtain ⟨d, hrun, h⟩ := Option.map_eq_some_iff.mp hstate
  obtain ⟨hphase, hscreen⟩ := Prod.mk.inj h
  exact ⟨d, hrun, hphase, hscreen⟩

theorem not_recovers_prompt : ∃ d, (app (Suite.marking [] []).crypto).Reachable d ∧
    ¬ Recovers (Suite.marking [] []).crypto d SdkException.overflow.code := by
  obtain ⟨d, hrun, hphase, hscreen⟩ := exists_prompt
  have hd : (app (Suite.marking [] []).crypto).Reachable d :=
    (reachable_boot _ (.zero _)).run (fun _ _ => trivial) hrun
  exact ⟨d, hd, (not_recovers hd hphase (Or.inr hscreen) (by decide)).1⟩

/-- An overflow while the prompt for a public key is open: nothing is sent, and the right
button sends the status of a success. -/
theorem recovers_fails : ∃ d, (app (Suite.marking [] []).crypto).run (boot (.zero _))
      [.apdu (command insGetPublicKey p1Confirm p2Bin (bufferFromBip32 [44]))] = some d ∧
    ¬ Recovers (Suite.marking [] []).crypto d SdkException.overflow.code := by
  obtain ⟨d, hrun, -⟩ := exists_prompt
  refine ⟨d, hrun, ?_⟩
  rintro ⟨d', hstep, hwire, -⟩
  have hsilent : ((app (Suite.marking [] []).crypto).run (boot (.zero _))
      ([.apdu (command insGetPublicKey p1Confirm p2Bin (bufferFromBip32 [44]))] ++
        [.ioThrow SdkException.overflow.code])).map Device.wire = some [] := by
    decide +kernel
  have hstep' : (app (Suite.marking [] []).crypto).step d
      (.ioThrow SdkException.overflow.code) = some d' := hstep
  rw [run_append, hrun, Option.bind_some, run_cons _ hstep', run_nil, Option.map_some,
    Option.some.injEq, hwire] at hsilent
  cases hsilent

end IostLedger
