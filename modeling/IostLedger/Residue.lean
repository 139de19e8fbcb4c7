import IostLedger.Prompt

/-! Two runs of one APDU over different residues in the APDU buffer. -/
namespace IostLedger
open Memory Exec Machine

def Device.setApdu (b : Buffer ioApduBufferSize) (d : Device) : Device := { d with apdu := b }

/-- Two memories that differ at most in the APDU buffer, and there from `k` on. -/
def Alike (k : ℕ) (d d' : Device) : Prop :=
  ∃ b, d' = d.setApdu b ∧ d.apdu.bytes.take k = b.bytes.take k

/-- Two memories before an APDU of `k` bytes is handled. -/
def Fresh (k : ℕ) (d d' : Device) : Prop := Alike k d d' ∧ d.tx = 0 ∧ d.flags = 0

/-- Two memories after an exception: what is to be sent lies in both buffers. -/
def Failed (d d' : Device) : Prop := Alike d.tx d d' ∧ d.flags ≠ ioAsynchReply

/-- Two memories that hold the payload of a handler. -/
def Holding (owner : Owner) (d d' : Device) : Prop :=
  Alike (owner.outputLength d + 1) d d' ∧ owner.outputLength d + 1 < 2 ^ 16 ∧ d.tx = 0 ∧ d.flags = 0

/-- Two memories that agree on the reply that waits for an approval. -/
def SamePending (d d' : Device) : Prop :=
  d.flags = ioAsynchReply → ∀ owner : Owner, d.screen = owner.approveScreen →
    d.apdu.bytes.take (owner.outputLength d + 1) = d'.apdu.bytes.take (owner.outputLength d + 1)

/-- Two memories after a handler. -/
def Done (d d' : Device) : Prop := Alike d.tx d d' ∧ SamePending d d'

section Relations
variable {k : ℕ} {d d' : Device} {owner : Owner}

theorem Alike.mono {l : ℕ} (h : Alike l d d') (hk : k ≤ l) : Alike k d d' := by
  obtain ⟨b, rfl, htake⟩ := h
  refine ⟨b, rfl, ?_⟩
  have hcut := congrArg (List.take k) htake
  rwa [List.take_take, List.take_take, Nat.min_eq_left hk] at hcut

theorem Fresh.failed (h : Fresh k d d') : Failed d d' := by
  obtain ⟨hsame, htx, hflags⟩ := h
  refine ⟨hsame.mono (by omega), ?_⟩
  rw [hflags]
  decide

theorem Holding.fresh (h : Holding owner d d') : Fresh 0 d d' := ⟨h.1.mono (Nat.zero_le _), h.2.2⟩

end Relations

/-! The handlers in two runs. -/

section Handlers
variable {crypto : Crypto} {k : ℕ} {owner : Owner}

/-- Whatever lies in the buffer, an export at its start puts the same payload there. -/
theorem exportBytes_alike (p2 : UInt8) (data : Bytes) (ui : UiContext)
    (a b : Buffer ioApduBufferSize) :
    (∃ e, exportBytes p2 data ui a 0 = .error e ∧ exportBytes p2 data ui b 0 = .error e) ∨
      ∃ ui' a' b' n, exportBytes p2 data ui a 0 = .ok (ui', a', n) ∧
        exportBytes p2 data ui b 0 = .ok (ui', b', n) ∧ n < ioApduBufferSize ∧
        a'.bytes.take (n + 1) = b'.bytes.take (n + 1) := by
  simp only [exportBytes, bind, Except.bind]
  cases encodeBase58 data with
  | error e => exact Or.inl ⟨e, rfl, rfl⟩
  | ok text =>
    simp only []
    cases inRange (ui.msgBody.write? 0 text) with
    | error e => exact Or.inl ⟨e, rfl, rfl⟩
    | ok body =>
      simp only []
      cases inRange (body.set? text.length 0) with
      | error e => exact Or.inl ⟨e, rfl, rfl⟩
      | ok body' =>
        simp only []
        cases exportPayload p2 data { ui with msgBody := body', msgLength := text.length } with
        | error e => exact Or.inl ⟨e, rfl, rfl⟩
        | ok payload =>
          have hend (c : Buffer ioApduBufferSize) (hfit : 0 + payload.length < ioApduBufferSize) :
              ((c.splice 0 payload).splice (0 + payload.length) [0]).bytes.take
                (payload.length + 1) = payload ++ [0] := by
            rw [Buffer.splice_splice (by rw [List.length_singleton]; omega)]
            apply Buffer.take_splice_start
            · rw [List.length_append, List.length_singleton]
              omega
            · rw [List.length_append, List.length_singleton]
          simp only []
          by_cases hfit : 0 + payload.length < ioApduBufferSize
          · right
            rw [Buffer.write?_of_le hfit.le, Buffer.write?_of_le hfit.le]
            simp only [inRange_some]
            rw [Buffer.set?_of_lt hfit, Buffer.set?_of_lt hfit]
            exact ⟨_, _, _, _, rfl, rfl, by omega, (hend a hfit).trans (hend b hfit).symm⟩
          · left
            by_cases hle : 0 + payload.length ≤ ioApduBufferSize
            · rw [Buffer.write?_of_le hle, Buffer.write?_of_le hle]
              have hset (c : Buffer ioApduBufferSize) : c.set? (0 + payload.length) 0 = none :=
                if_neg (by rw [List.length_singleton]; omega)
              simp only [inRange_some, hset]
              exact ⟨.outOfRange, rfl, rfl⟩
            · have hwrite (c : Buffer ioApduBufferSize) : c.write? 0 payload = none := if_neg hle
              simp only [hwrite]
              exact ⟨.outOfRange, rfl, rfl⟩

theorem replyExport_agree (owner : Owner) :
    Agree (Holding owner) (fun _ => Done) Failed (replyExport owner) := by
  rintro d - ⟨⟨b, rfl, htake⟩, hlt, htx, hflags⟩
  right
  rw [replyExport_run, replyExport_run]
  refine ⟨_, _, _, rfl, rfl, ⟨b, ?_, ?_⟩, ?_⟩
  · cases owner <;> rfl
  · rw [Owner.clearContext_apdu, Owner.clearContext_tx, setTx_apdu, setTx_tx, htx, Nat.zero_add,
      Nat.mod_eq_of_lt hlt]
    exact htake
  · rw [Owner.clearContext_flags, setTx_flags, hflags]
    decide

theorem uxApprove_agree (owner : Owner) (format : Bytes) (path : List UInt32) :
    Agree (Holding owner) (fun _ => Done) Failed (uxApprove owner format path) := by
  intro d d' h
  have hfailed := h.fresh.failed
  obtain ⟨⟨b, rfl, htake⟩, -, htx, hflags⟩ := h
  have hui : owner.ui (d.setApdu b) = owner.ui d := by cases owner <;> rfl
  simp only [uxApprove, EStateM.run_bind, EStateM.run_get, hui]
  cases inRange (iostSnprintf (owner.ui d).approveL2 displaySize format [keyNumber path]) with
  | error e => exact Or.inr ⟨e, _, _, rfl, rfl, hfailed⟩
  | ok approveL2 =>
    left
    refine ⟨_, _, _, rfl, rfl, ⟨b, ?_, ?_⟩, ?_⟩
    · cases owner <;> rfl
    · have htx' : (owner.setUi { owner.ui d with approveL2 := approveL2 } d).tx = 0 := by
        rw [Owner.setUi_tx, htx]
      change List.take (owner.setUi { owner.ui d with approveL2 := approveL2 } d).tx _ =
        List.take (owner.setUi { owner.ui d with approveL2 := approveL2 } d).tx _
      rw [htx', List.take_zero, List.take_zero]
    · intro _ owner' hscreen
      have howner : owner' = owner := by
        have hscreen : owner.approveScreen = owner'.approveScreen := hscreen
        cases owner <;> cases owner' <;> first | rfl | cases hscreen
      subst howner
      cases owner' <;> exact htake

theorem finishExport_agree (owner : Owner) (p1 : UInt8) (format : Bytes) (path : List UInt32) :
    Agree (Holding owner) (fun _ => Done) Failed (finishExport owner p1 format path) :=
  Agree.ite (fun _ => replyExport_agree owner) (fun _ => uxApprove_agree owner format path)

/-- Two memories after an export at the start of the buffer. -/
theorem holding_of_export {d : Device} {ui : UiContext} {a b : Buffer ioApduBufferSize} {n : ℕ}
    (htx : d.tx = 0) (hflags : d.flags = 0) (hn : n < ioApduBufferSize)
    (htake : a.bytes.take (n + 1) = b.bytes.take (n + 1)) :
    Holding owner (owner.setOutputLength (n % 2 ^ 16) (owner.setUi ui (d.setApdu a)))
      (owner.setOutputLength (n % 2 ^ 16) (owner.setUi ui (d.setApdu b))) := by
  simp only [ioApduBufferSize] at hn
  have hlength : n % 2 ^ 16 = n := Nat.mod_eq_of_lt (by omega)
  unfold Holding
  rw [Owner.outputLength_setOutputLength, Owner.setOutputLength_tx, Owner.setUi_tx,
    Owner.setOutputLength_flags, Owner.setUi_flags, hlength]
  refine ⟨⟨b, ?_, ?_⟩, by omega, htx, hflags⟩
  · cases owner <;> rfl
  · rw [Owner.setOutputLength_apdu, Owner.setUi_apdu]
    exact htake

theorem exportSignature_agree (p2 : UInt8) (signature : Bytes) :
    Agree (Fresh k) (fun _ => Holding .signMessage) Failed (exportSignature p2 signature 0) := by
  intro d d' h
  have hfailed := h.failed
  obtain ⟨⟨b, rfl, -⟩, htx, hflags⟩ := h
  have hsign : (d.setApdu b).sign = d.sign := rfl
  have hapdu : (d.setApdu b).apdu = b := rfl
  simp only [exportSignature, EStateM.run_bind, EStateM.run_get, hsign, hapdu]
  rcases exportBytes_alike p2 (signature.take d.sign.outputLength) d.sign.ui d.apdu b with
    ⟨e, ha, hb⟩ | ⟨ui, a', b', n, ha, hb, hn, htake⟩
  · right
    rw [ha, hb]
    exact ⟨e, _, _, rfl, rfl, hfailed⟩
  · left
    rw [ha, hb]
    exact ⟨(), _, _, rfl, rfl, @holding_of_export .signMessage d ui a' b' n htx hflags hn htake⟩

theorem getPk_agree (crypto : Crypto) (path : List UInt32) (p2 : UInt8) :
    Agree (Fresh k) (fun _ => Holding .getPublicKey) Failed (getPk crypto path p2 0) := by
  have hderive : Agree (Fresh k) (fun _ => Fresh k) Failed (derivePublicKey crypto path) := by
    apply Agree.onPart
    · rintro d - ⟨⟨b, rfl, -⟩, -⟩
      rfl
    · rintro f d - ⟨⟨b, rfl, htake⟩, hrest⟩
      exact ⟨⟨b, rfl, htake⟩, hrest⟩
    · rintro f d - ⟨⟨b, rfl, htake⟩, hrest⟩
      exact Fresh.failed ⟨⟨b, rfl, htake⟩, hrest⟩
  apply hderive.bind
  intro result
  apply Agree.ite
  · intro _
    exact Agree.throwCode fun _ _ h => h.failed
  intro _ d d' h
  have hfailed := h.failed
  obtain ⟨⟨b, rfl, -⟩, htx, hflags⟩ := h
  have hpk : (d.setApdu b).pk = d.pk := rfl
  have hapdu : (d.setApdu b).apdu = b := rfl
  simp only [EStateM.run_bind, EStateM.run_get, hpk, hapdu]
  rcases exportBytes_alike p2 (iostExtractBytesFromPublicKey d.pk.publicKey) d.pk.ui d.apdu b with
    ⟨e, ha, hb⟩ | ⟨ui, a', b', n, ha, hb, hn, htake⟩
  · right
    rw [ha, hb]
    exact ⟨e, _, _, rfl, rfl, hfailed⟩
  · left
    rw [ha, hb]
    exact ⟨(), _, _, rfl, rfl, @holding_of_export .getPublicKey d ui a' b' n htx hflags hn htake⟩

/-- Only with an empty path does the handler read behind the received bytes. -/
theorem handleGetPublicKey_agree (crypto : Crypto) (p1 p2 : UInt8) {length : ℕ}
    (hlength : length ≤ 255) (hempty : length = 0 → ¬ ValidP1P2 p1 p2) :
    Agree (Fresh (offsetCdata + length)) (fun _ => Done) Failed
      (handleGetPublicKey crypto p1 p2 offsetCdata length) := by
  unfold handleGetPublicKey
  by_cases hvalid : ValidP1P2 p1 p2
  swap
  · rw [ioCheckP1P2_refuse hvalid]
    exact Agree.throw fun _ _ h => h.failed
  have hpos : 1 ≤ length := Nat.one_le_iff_ne_zero.mpr fun h => hempty h hvalid
  apply (Agree.ofChecked fun _ _ h => h.failed).bind
  intro _
  apply Agree.read
  rintro d d' h
  obtain ⟨⟨b, rfl, htake⟩, htx, hflags⟩ := h
  have hread : ioReadBip32 b offsetCdata length = ioReadBip32 d.apdu offsetCdata length := by
    apply ioReadBip32_congr (by omega) le_rfl hpos (by omega)
    intro i hi
    have hcell := congrArg (fun bytes : Bytes => bytes[offsetCdata + i]?) htake
    rw [List.getElem?_take_of_lt (by omega), List.getElem?_take_of_lt (by omega)] at hcell
    exact hcell.symm
  constructor
  · rw [show (d.setApdu b).apdu = b from rfl, show (d.setApdu b).tx = d.tx from rfl, hread]
  · rw [htx]
    apply (Agree.ofChecked fun _ _ h => h.failed).bind
    intro path
    apply (getPk_agree crypto path p2).bind
    intro _
    exact finishExport_agree .getPublicKey p1 _ path

theorem readMessage_congr {a b : Buffer ioApduBufferSize} {length : ℕ}
    (h : a.bytes.take (offsetCdata + length) = b.bytes.take (offsetCdata + length)) :
    readMessage b offsetCdata length = readMessage a offsetCdata length := by
  have hdrop := congrArg (List.drop offsetCdata) h
  rw [List.drop_take, List.drop_take, Nat.add_sub_cancel_left] at hdrop
  have hread : b.read? offsetCdata length = a.read? offsetCdata length := by
    unfold Buffer.read?
    rw [hdrop]
  unfold readMessage
  rw [hread]

/-- Code on the context of a signature sees nothing of the buffer. -/
theorem withSign_agree {α : Type} (x : EStateM Fault SignTxContext α) :
    Agree (Fresh k) (fun _ => Fresh k) Failed (withSign x) := by
  apply Agree.onPart
  · rintro d - ⟨⟨b, rfl, -⟩, -⟩
    rfl
  · rintro c d - ⟨⟨b, rfl, htake⟩, hrest⟩
    exact ⟨⟨b, rfl, htake⟩, hrest⟩
  · rintro c d - ⟨⟨b, rfl, htake⟩, hrest⟩
    exact Fresh.failed ⟨⟨b, rfl, htake⟩, hrest⟩

theorem handleSignMessage_agree (crypto : Crypto) (p1 p2 : UInt8) (length : ℕ) :
    Agree (Fresh (offsetCdata + length)) (fun _ => Done) Failed
      (handleSignMessage crypto p1 p2 offsetCdata length) := by
  unfold handleSignMessage
  apply (Agree.ofChecked fun _ _ h => h.failed).bind
  intro _
  apply Agree.read
  rintro d - ⟨⟨b, rfl, htake⟩, -⟩
  constructor
  · rw [show (d.setApdu b).apdu = b from rfl, readMessage_congr htake]
  apply (withSign_agree _).bind
  intro _
  apply Agree.ite
  swap
  · intro _
    exact Agree.throwCode fun _ _ h => h.failed
  intro _
  apply (withSign_agree _).bind
  intro signature
  apply Agree.read
  rintro d₁ - ⟨⟨b₁, rfl, -⟩, htx, -⟩
  constructor
  · rfl
  rw [htx]
  apply (Agree.ofChecked fun _ _ h => h.failed).bind
  intro path
  apply (exportSignature_agree p2 signature).bind
  intro _
  exact finishExport_agree .signMessage p1 _ path

theorem handleGetConfiguration_agree :
    Agree (Fresh k) (fun _ => Done) Failed handleGetConfiguration := by
  rintro d - ⟨⟨b, rfl, -⟩, htx, hflags⟩
  right
  rw [handleGetConfiguration_run htx,
    handleGetConfiguration_run (show (d.setApdu b).tx = 0 from htx)]
  have htake (c : Buffer ioApduBufferSize) :
      (c.splice 0 configuration).bytes.take 4 = configuration :=
    Buffer.take_splice_start (by decide) rfl
  refine ⟨_, _, _, rfl, rfl, ⟨b.splice 0 configuration, rfl, (htake _).trans (htake _).symm⟩, ?_⟩
  rw [hflags]
  decide

theorem dispatch_agree (crypto : Crypto) {ins p1 p2 : UInt8} {length : ℕ} (hlength : length ≤ 255)
    (hresidue : ins = insGetPublicKey → length = 0 → ¬ ValidP1P2 p1 p2) :
    Agree (Fresh (offsetCdata + length)) (fun _ => Done) Failed
      (dispatch crypto ins p1 p2 length (offsetCdata + length)) := by
  unfold dispatch
  apply Agree.ite
  · rintro _ d - ⟨⟨b, rfl, -⟩, htx, hflags⟩
    right
    refine ⟨.thrown swOk, resetting d, resetting (d.setApdu b), rfl, rfl, ⟨b, rfl, ?_⟩, ?_⟩
    · rw [show (resetting d).tx = 0 from htx, List.take_zero, List.take_zero]
    · have hreset : (resetting d).flags = 0 ||| ioResetAfterReplied :=
        congrArg (· ||| ioResetAfterReplied) hflags
      rw [hreset]
      decide
  intro _
  apply Agree.ite
  · rintro _ d - ⟨⟨b, rfl, htake⟩, -, hflags⟩
    right
    refine ⟨.thrown swOk, d.setTx (offsetCdata + length),
      (d.setApdu b).setTx (offsetCdata + length), rfl,
      rfl, ⟨b, rfl, htake⟩, ?_⟩
    rw [setTx_flags, hflags]
    decide
  intro _
  apply Agree.ite
  · intro _
    exact handleGetConfiguration_agree
  intro _
  apply Agree.ite
  · intro hins
    exact handleGetPublicKey_agree crypto p1 p2 hlength (hresidue hins)
  intro _
  apply Agree.ite
  · intro _
    exact handleSignMessage_agree crypto p1 p2 length
  intro _
  apply Agree.ite
  · rintro _ d - ⟨⟨b, rfl, htake⟩, htx, hflags⟩
    left
    refine ⟨(), dashboard d, dashboard (d.setApdu b), rfl, rfl, ⟨b, rfl, ?_⟩, ?_⟩
    · rw [show (dashboard d).tx = 0 from htx, List.take_zero, List.take_zero]
    · intro hasynch
      rw [show (dashboard d).flags = 0 from hflags] at hasynch
      exact absurd hasynch (by decide)
  · intro _
    exact Agree.throwCode fun _ _ h => h.failed

end Handlers

/-! The loop body in two runs. -/

/-- The requests that are read behind their bytes: for a public key without a path. -/
def ReadsResidue (bytes : Bytes) : Prop :=
  ∃ p1, (p1 = p1Confirm ∨ p1 = p1Silent) ∧ bytes = command insGetPublicKey p1 p2More []

section Loop
variable {crypto : Crypto} {d d' : Device} {b : Buffer ioApduBufferSize}

/-- What the head of the loop leaves of the device. -/
def closed (wire : List Bytes) (apduState : ApduState) (phase : Phase) (d : Device) : Device :=
  { d with wire := wire, apduState := apduState, tx := 0, phase := phase }

theorem exchangeNext_of_ok {d₁ : Device}
    (h : (ioExchange (channelApdu ||| d.flags) d.tx).run (d.setTx 0) = .ok () d₁) :
    exchangeNext d = d₁ := by
  unfold exchangeNext
  rw [show ({ d with tx := 0 } : Device) = d.setTx 0 from rfl, h]

/-- At the head of the loop only the reply is read from the buffer. -/
theorem exchangeNext_closed (d : Device) : ∃ wire apduState phase,
    ∀ b : Buffer ioApduBufferSize, d.apdu.bytes.take d.tx = b.bytes.take d.tx →
      exchangeNext (d.setApdu b) = closed wire apduState phase (d.setApdu b) := by
  have hread {b : Buffer ioApduBufferSize} (h : d.apdu.bytes.take d.tx = b.bytes.take d.tx) :
      b.read? 0 d.tx = d.apdu.read? 0 d.tx := by
    unfold Buffer.read?
    rw [List.drop_zero, List.drop_zero, h]
  by_cases hcond : d.tx ≠ 0 ∧ (channelApdu ||| d.flags) &&& ioAsynchReply = 0
  · cases hstate : d.apduState with
    | idle =>
      refine ⟨d.wire, .idle, .spinning, fun b _ => ?_⟩
      simp only [exchangeNext, Device.setApdu, ioExchange, if_pos hcond, EStateM.run_bind,
        sendReply, EStateM.run_get, hstate, if_true, run_throwCode]
      rfl
    | busy =>
      have hbusy : ¬ ApduState.busy = .idle := by decide
      cases hreply : d.apdu.read? 0 d.tx with
      | none =>
        refine ⟨d.wire, .busy, .crashed, fun b hb => ?_⟩
        simp only [exchangeNext, Device.setApdu, ioExchange, if_pos hcond, EStateM.run_bind,
          sendReply, EStateM.run_get, hstate, if_neg hbusy, hread hb, hreply, inRange_none,
          run_ofChecked_error]
        rfl
      | some reply =>
        by_cases hexit : (channelApdu ||| d.flags) &&& ioReturnAfterTx = 0 ∧
            (channelApdu ||| d.flags) &&& ioResetAfterReplied ≠ 0
        · refine ⟨d.wire ++ [reply], .idle, .exited, fun b hb => ?_⟩
          have hreturn : ¬ (channelApdu ||| d.flags) &&& ioReturnAfterTx ≠ 0 := not_not.mpr hexit.1
          simp only [exchangeNext, Device.setApdu, ioExchange, if_pos hcond, EStateM.run_bind,
            sendReply, EStateM.run_get, hstate, if_neg hbusy, hread hb, hreply, inRange_some,
            run_ofChecked_ok, EStateM.run_modify, if_neg hreturn, if_pos hexit.2]
          rfl
        · refine ⟨d.wire ++ [reply], .idle, d.phase, fun b hb => ?_⟩
          simp only [exchangeNext, Device.setApdu, ioExchange, if_pos hcond, EStateM.run_bind,
            sendReply, EStateM.run_get, hstate, if_neg hbusy, hread hb, hreply, inRange_some,
            run_ofChecked_ok, EStateM.run_modify]
          by_cases hreturn : (channelApdu ||| d.flags) &&& ioReturnAfterTx ≠ 0
          · rw [if_pos hreturn]
            rfl
          · have hreset : ¬ (channelApdu ||| d.flags) &&& ioResetAfterReplied ≠ 0 :=
              fun h => hexit ⟨not_not.mp hreturn, h⟩
            rw [if_neg hreturn, if_neg hreset]
            rfl
  · have hskip : ioExchange (channelApdu ||| d.flags) d.tx =
        if (channelApdu ||| d.flags) &&& ioAsynchReply = 0 then
          modify fun d => { d with apduState := .idle }
        else pure () := if_neg hcond
    by_cases hasynch : (channelApdu ||| d.flags) &&& ioAsynchReply = 0
    · refine ⟨d.wire, .idle, d.phase, fun b _ => exchangeNext_of_ok ?_⟩
      change (ioExchange (channelApdu ||| d.flags) d.tx).run _ = _
      rw [hskip, if_pos hasynch]
      rfl
    · refine ⟨d.wire, d.apduState, d.phase, fun b _ => exchangeNext_of_ok ?_⟩
      change (ioExchange (channelApdu ||| d.flags) d.tx).run _ = _
      rw [hskip, if_neg hasynch]
      rfl

/-- Two devices that differ at most in the APDU buffer, and not in a reply that is open. -/
def SameReply (d d' : Device) : Prop := (∃ b, d' = d.setApdu b) ∧ SamePending d d'

theorem exchangeNext_alike (h : Alike d.tx d d') (hpending : SamePending d d') :
    SameReply (exchangeNext d) (exchangeNext d') := by
  obtain ⟨b, rfl, htake⟩ := h
  obtain ⟨wire, apduState, phase, hclosed⟩ := exchangeNext_closed d
  have hself : exchangeNext d = closed wire apduState phase d := hclosed d.apdu rfl
  rw [hself, hclosed b htake]
  refine ⟨⟨b, rfl⟩, fun hflags owner hscreen => ?_⟩
  have hlength : owner.outputLength (closed wire apduState phase d) = owner.outputLength d := by
    cases owner <;> rfl
  rw [hlength]
  exact hpending hflags owner hscreen

/-- A reply that is not deferred is not pending. -/
theorem samePending_of_flags (h : d.flags ≠ ioAsynchReply) : SamePending d d' :=
  fun hflags => absurd hflags h

/-- A status that does not fit the buffer ends the task. -/
theorem caught_overflow {e : UInt16} (he : e ≠ SdkException.ioReset.code)
    (hfit : ¬ d.tx + 2 ≤ ioApduBufferSize) :
    caught (.thrown e) d = { clearUnless e d with phase := .crashed } := by
  have hwrite : (clearUnless e d).apdu.write? (clearUnless e d).tx
      [(statusOf e >>> 8).toUInt8, (statusOf e &&& 0xFF).toUInt8] = none := by
    rw [clearUnless_tx]
    exact if_neg hfit
  simp only [caught, if_neg he, catchOther, ioSetStatus, EStateM.run_bind, EStateM.run_modify,
    EStateM.run_get, hwrite, inRange_none, run_ofChecked_error]

theorem clearUnless_setApdu (e : UInt16) :
    clearUnless e (d.setApdu b) = (clearUnless e d).setApdu b := by
  unfold clearUnless
  split_ifs <;> rfl

theorem caught_alike (fault : Fault) (h : Failed d d') :
    SameReply (caught fault d) (caught fault d') := by
  obtain ⟨⟨b, rfl, htake⟩, hflags⟩ := h
  cases fault with
  | outOfRange => exact ⟨⟨b, rfl⟩, samePending_of_flags hflags⟩
  | thrown e =>
    by_cases he : e = SdkException.ioReset.code
    · subst he
      rw [caught_reset, caught_reset]
      refine ⟨⟨b, rfl⟩, samePending_of_flags ?_⟩
      rw [show (restart d).flags = 0 from rfl]
      decide
    by_cases hfit : d.tx + 2 ≤ ioApduBufferSize
    · have htake' (c : Buffer ioApduBufferSize) :
          (c.splice d.tx (statusBytes (statusOf e))).bytes.take (d.tx + 2) =
            c.bytes.take d.tx ++ statusBytes (statusOf e) := Buffer.take_splice_end hfit rfl
      rw [caught_of_ne he hfit, caught_of_ne he (show (d.setApdu b).tx + 2 ≤ _ from hfit),
        clearUnless_setApdu]
      apply exchangeNext_alike
      · refine ⟨b.splice d.tx (statusBytes (statusOf e)), ?_, ?_⟩
        · simp only [withStatus, Device.setApdu, clearUnless_tx]
        · simp only [withStatus, clearUnless_tx, clearUnless_apdu, htake']
          rw [htake]
      · apply samePending_of_flags
        rw [show (withStatus (statusOf e) (clearUnless e d)).flags =
            (clearUnless e d).flags from rfl,
          clearUnless_flags]
        exact hflags
    · rw [caught_overflow he hfit, caught_overflow he (show ¬ (d.setApdu b).tx + 2 ≤ _ from hfit),
        clearUnless_setApdu]
      refine ⟨⟨b, rfl⟩, samePending_of_flags ?_⟩
      rw [show ({ clearUnless e d with phase := Phase.crashed } : Device).flags =
        (clearUnless e d).flags from rfl, clearUnless_flags]
      exact hflags

/-- The first bytes of the buffer are the header. -/
theorem header_take (d : Device) : d.apdu.bytes.take 5 = [d.header offsetCla, d.header offsetIns,
    d.header offsetP1, d.header offsetP2, d.header offsetLc] := by
  have hsize : d.apdu.bytes.length = ioApduBufferSize := d.apdu.size_eq
  simp only [Device.header]
  generalize d.apdu.bytes = bytes at hsize ⊢
  rcases bytes with - | ⟨b0, - | ⟨b1, - | ⟨b2, - | ⟨b3, - | ⟨b4, rest⟩⟩⟩⟩⟩
  case cons.cons.cons.cons.cons => rfl
  all_goals simp [ioApduBufferSize] at hsize

/-- A request that does not read behind its bytes is handled in the same way whatever lies there. -/
theorem processApdu_agree (crypto : Crypto) {rx : ℕ} (h : Fresh rx d d')
    (hresidue : ¬ ReadsResidue (d.apdu.bytes.take rx)) :
    (∃ a s' t', (processApdu crypto rx).run d = .ok a s' ∧
        (processApdu crypto rx).run d' = .ok a t' ∧ Done s' t') ∨
      (∃ e s' t', (processApdu crypto rx).run d = .error e s' ∧
        (processApdu crypto rx).run d' = .error e t' ∧ Failed s' t') := by
  have hfailed := h.failed
  obtain ⟨⟨b, rfl, htake⟩, htx, hflags⟩ := h
  have hheader {i : ℕ} (hi : i < rx) : (d.setApdu b).header i = d.header i := by
    have hcell := congrArg (fun bytes : Bytes => bytes.getD i 0) htake
    simp only [List.getD_eq_getElem?_getD] at hcell
    rw [List.getElem?_take_of_lt hi, List.getElem?_take_of_lt hi] at hcell
    simp only [Device.header, Device.setApdu, List.getD_eq_getElem?_getD]
    exact hcell.symm
  by_cases hmin : rx < apduMinSize
  · right
    simp only [processApdu, EStateM.run_bind, EStateM.run_get, if_pos hmin]
    exact ⟨_, _, _, rfl, rfl, hfailed⟩
  simp only [apduMinSize] at hmin
  have hcla : (d.setApdu b).header offsetCla = d.header offsetCla :=
    hheader (by simp only [offsetCla]; omega)
  by_cases hhead : d.header offsetCla ≠ cla
  · right
    simp only [processApdu, EStateM.run_bind, EStateM.run_get, apduMinSize, if_neg hmin, hcla,
      if_pos hhead]
    exact ⟨_, _, _, rfl, rfl, hfailed⟩
  by_cases hshort : rx < 5
  · have hrefused (c : Device) (hc : c.header offsetCla = cla) :
        (processApdu crypto rx).run c = .error (.thrown swWrongLength) c := by
      have hsize : (c.header offsetLc).toNat + apduMaxSize ≠ rx := by
        simp only [apduMaxSize]
        omega
      simp only [processApdu, EStateM.run_bind, EStateM.run_get, apduMinSize, if_neg hmin, hc,
        ne_eq, not_true_eq_false, if_false, if_pos hsize]
      split_ifs <;> rfl
    right
    rw [hrefused d (not_not.mp hhead), hrefused _ (hcla.trans (not_not.mp hhead))]
    exact ⟨_, _, _, rfl, rfl, hfailed⟩
  have hlc : (d.setApdu b).header offsetLc = d.header offsetLc :=
    hheader (by simp only [offsetLc]; omega)
  have hins : (d.setApdu b).header offsetIns = d.header offsetIns :=
    hheader (by simp only [offsetIns]; omega)
  have hp1 : (d.setApdu b).header offsetP1 = d.header offsetP1 :=
    hheader (by simp only [offsetP1]; omega)
  have hp2 : (d.setApdu b).header offsetP2 = d.header offsetP2 :=
    hheader (by simp only [offsetP2]; omega)
  simp only [processApdu, EStateM.run_bind, EStateM.run_get, apduMinSize, if_neg hmin,
    if_neg hhead, hcla, hlc, hins, hp1, hp2]
  split_ifs with hempty hsize
  · exact Or.inr ⟨_, _, _, rfl, rfl, hfailed⟩
  · exact Or.inr ⟨_, _, _, rfl, rfl, hfailed⟩
  · simp only [apduMaxSize, not_not, ne_eq] at hsize hhead
    have hrx : rx = offsetCdata + (d.header offsetLc).toNat := by
      simp only [offsetCdata]
      omega
    have hlt := (d.header offsetLc).toNat_lt
    have hvalid : d.header offsetIns = insGetPublicKey → (d.header offsetLc).toNat = 0 →
        ¬ ValidP1P2 (d.header offsetP1) (d.header offsetP2) := by
      intro hpk h0 hvalid
      have hmore : d.header offsetP2 = p2More := hvalid.p2.resolve_right fun h => hempty ⟨h0, h⟩
      have hzero : d.header offsetLc = 0 := UInt8.toNat_inj.mp h0
      apply hresidue
      refine ⟨d.header offsetP1, hvalid.p1, ?_⟩
      rw [hrx, h0, show offsetCdata + 0 = 5 from rfl, header_take, hhead, hpk, hmore, hzero]
      rfl
    rw [hrx]
    exact dispatch_agree crypto (by omega) hvalid d _ ⟨⟨b, rfl, hrx ▸ htake⟩, htx, hflags⟩

theorem handleApdu_alike (crypto : Crypto) {rx : ℕ} (h : Fresh rx d d')
    (hresidue : ¬ ReadsResidue (d.apdu.bytes.take rx)) :
    SameReply (handleApdu crypto rx d) (handleApdu crypto rx d') := by
  unfold handleApdu
  rcases processApdu_agree crypto h hresidue with
    ⟨a, s', t', hs, ht, hdone⟩ | ⟨e, s', t', hs, ht, hfailed⟩
  · rw [hs, ht]
    obtain ⟨⟨b, rfl, htake⟩, hpending⟩ := hdone
    simp only [show (s'.setApdu b).phase = s'.phase from rfl]
    split_ifs
    · exact ⟨⟨b, rfl⟩, hpending⟩
    · exact exchangeNext_alike ⟨b, rfl, htake⟩ hpending
  · rw [hs, ht]
    exact caught_alike e hfailed

end Loop

/-- The memory where the APDU `bytes` has been received over what `d` holds. -/
def arrived (bytes : Bytes) (d : Device) : Device := (received bytes d).setTx 0

/-- The reply to an APDU depends on its bytes and the state alone, not on the rest of the buffer. -/
def ResidueFree (bytes : Bytes) : Prop :=
  ∀ (crypto : Crypto) (d : Device) (b : Buffer ioApduBufferSize),
    SameReply (handleApdu crypto bytes.length (arrived bytes d))
      (handleApdu crypto bytes.length (arrived bytes (d.setApdu b)))

theorem arrived_take {bytes : Bytes} (hlen : bytes.length ≤ ioApduBufferSize) (d : Device) :
    (arrived bytes d).apdu.bytes.take bytes.length = bytes :=
  Buffer.take_splice_start hlen rfl

/-- A path left in the buffer by an earlier request. -/
def leftover : Buffer ioApduBufferSize :=
  (Buffer.zero _).splice offsetCdata (bufferFromBip32 [2147483692])

/-- A request for a public key without a path is refused over an empty buffer, and it is served
over a path that an earlier request has left there. -/
theorem leftover_served {p1 : UInt8} (hp1 : p1 = p1Confirm ∨ p1 = p1Silent) :
    ¬ ResidueFree (command insGetPublicKey p1 p2More []) := by
  intro h
  obtain ⟨⟨b, hb⟩, -⟩ := h (Suite.marking [] []).crypto (boot (.zero _)) leftover
  have hwire : (handleApdu (Suite.marking [] []).crypto 5
      (arrived (command insGetPublicKey p1 p2More []) ((boot (.zero _)).setApdu leftover))).wire =
      (handleApdu (Suite.marking [] []).crypto 5
        (arrived (command insGetPublicKey p1 p2More []) (boot (.zero _)))).wire := by
    have h := congrArg Device.wire hb
    exact h
  revert hwire
  rcases hp1 with rfl | rfl
  · decide +kernel
  · decide +kernel

/-- The reply to an APDU depends on the rest of the buffer for one request alone. -/
theorem residueFree_iff {bytes : Bytes} (hlen : bytes.length ≤ ioApduBufferSize) :
    ResidueFree bytes ↔ ¬ ReadsResidue bytes := by
  constructor
  · rintro hfree ⟨p1, hp1, rfl⟩
    exact leftover_served hp1 hfree
  · intro hresidue crypto d b
    have htake := arrived_take hlen d
    have htake' := arrived_take hlen (d.setApdu b)
    apply handleApdu_alike crypto
    · exact ⟨⟨(arrived bytes (d.setApdu b)).apdu, rfl, htake.trans htake'.symm⟩, rfl, rfl⟩
    · rw [htake]
      exact hresidue

theorem residueFree_iff_boot : ResidueFree (command insGetPublicKey p1Silent p2More [1]) ↔
    ¬ ReadsResidue (command insGetPublicKey p1Silent p2More [1]) :=
  residueFree_iff (show 6 ≤ ioApduBufferSize by decide)

theorem residueFree_fails :
    ¬ ∀ bytes : Bytes, bytes.length ≤ ioApduBufferSize → ResidueFree bytes := by
  intro h
  exact leftover_served (Or.inr rfl) (h (command insGetPublicKey p1Silent p2More [])
    (show 5 ≤ ioApduBufferSize by decide))

end IostLedger
