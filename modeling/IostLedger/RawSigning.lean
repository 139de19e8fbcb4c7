import IostLedger.Lib.Collect
import IostLedger.Verdict

/-! Raw signing: a sequence of chunks that ask for more, and a last one that does not. -/
namespace IostLedger
open Memory Exec Machine

/-- The P1 byte and the data of a request that asks for more. -/
abbrev Chunk := UInt8 × Bytes

def Chunk.event (chunk : Chunk) : Event :=
  .apdu (command insSignMessage chunk.1 p2More chunk.2)

/-- The values of P1 that are allowed. -/
def Chunk.Wanted (chunk : Chunk) : Prop := chunk.1 = p1Confirm ∨ chunk.1 = p1Silent

instance : DecidablePred Chunk.Wanted := fun _ => inferInstanceAs (Decidable (_ ∨ _))

/-- A chunk with data that one APDU can carry. -/
def Chunk.Fits (chunk : Chunk) : Prop := chunk.2 ≠ [] ∧ chunk.2.length ≤ 255

/-- The bytes of all chunks. -/
def concat (chunks : List Chunk) : Bytes := chunks.flatMap Prod.snd

/-- What the sign context holds after one more chunk. -/
def collect (acc : Bytes) (chunk : Chunk) : Bytes :=
  Collect.push Chunk.Wanted Prod.snd maxMsgSize acc chunk

theorem p2More_more : p2More &&& p2More = p2More := by decide

/-- A chunk that asks for more is stored, or it is refused. -/
theorem verdict_more (s : Suite) (acc : Bytes) {chunk : Chunk} (hchunk : chunk.Fits) :
    (s.verdict acc chunk.1 p2More chunk.2 = .stored (collect acc chunk) ∧ chunk.Wanted ∧
        acc.length + chunk.2.length ≤ maxMsgSize) ∨
      ∃ sw, (sw = swWrongLength ∨ sw = swInvalidP1P2) ∧ collect acc chunk = [] ∧
        s.verdict acc chunk.1 p2More chunk.2 = .refused sw := by
  have hempty : ¬ (chunk.2 = [] ∧ p2More &&& p2More = 0) := fun h => hchunk.1 h.1
  unfold Suite.verdict
  rw [if_neg hempty]
  by_cases hwanted : chunk.Wanted
  · have hvalid : ValidP1P2 chunk.1 p2More := ⟨hwanted, Or.inl rfl⟩
    rw [if_neg (not_not.mpr hvalid)]
    by_cases hover : maxMsgSize < acc.length + chunk.2.length
    · right
      refine ⟨swWrongLength, Or.inl rfl, if_neg fun h => ?_, if_pos hover⟩
      omega
    · left
      have hfit := Nat.le_of_not_lt hover
      rw [if_neg hover, if_pos ⟨p2More_more, hchunk.1⟩]
      exact ⟨congrArg _ (Collect.push_of_fits hwanted hfit).symm, hwanted, hfit⟩
  · right
    have hvalid : ¬ ValidP1P2 chunk.1 p2More := fun h => hwanted h.p1
    exact ⟨swInvalidP1P2, Or.inr rfl, if_neg fun h => hwanted h.1, if_pos hvalid⟩

section Run
variable {s : Suite} {d : Device} {acc : Bytes}

/-- One chunk. -/
theorem step_chunk (hready : Ready d) (hacc : d.sign.Holds acc) {chunk : Chunk}
    (hchunk : chunk.Fits) :
    ∃ d', step s.crypto d chunk.event = some d' ∧ Ready d' ∧ d'.sign.Holds (collect acc chunk) := by
  have hfollows := sign_follows s chunk.1 p2More hready hacc hchunk.2
  rcases verdict_more s acc hchunk with ⟨hverdict, -⟩ | ⟨sw, -, hdropped, hverdict⟩
  · rw [hverdict] at hfollows
    obtain ⟨d', hstep, hreplied⟩ := hfollows
    exact ⟨d', hstep, hreplied.toReady, hreplied.holds⟩
  · rw [hverdict] at hfollows
    obtain ⟨d', hstep, hreplied⟩ := hfollows
    exact ⟨d', hstep, hreplied.toReady, hdropped ▸ hreplied.holds⟩

/-- The sign context follows the collector through any number of chunks. -/
theorem run_chunks {chunks : List Chunk} (hready : Ready d) (hacc : d.sign.Holds acc)
    (hchunks : ∀ chunk ∈ chunks, chunk.Fits) :
    ∃ d', (app s.crypto).run d (chunks.map Chunk.event) = some d' ∧ Ready d' ∧
      d'.sign.Holds (chunks.foldl collect acc) := by
  induction chunks generalizing d acc with
  | nil => exact ⟨d, rfl, hready, hacc⟩
  | cons chunk chunks ih =>
    obtain ⟨d₁, hstep, hready₁, hacc₁⟩ :=
      step_chunk (s := s) hready hacc (hchunks chunk List.mem_cons_self)
    obtain ⟨d', hrun, hready', hacc'⟩ :=
      ih hready₁ hacc₁ fun c hc => hchunks c (List.mem_cons_of_mem chunk hc)
    have hstep' : (app s.crypto).step d chunk.event = some d₁ := hstep
    refine ⟨d', ?_, hready', hacc'⟩
    rw [List.map_cons, run_cons (app s.crypto) hstep']
    exact hrun

/-- A request that is refused is answered with its status, also when it asks for a prompt. -/
theorem exchange_refused {p1 p2 : UInt8} {data : Bytes} {sw : UInt16}
    (h : Follows s d p1 p2 data (.refused sw)) :
    ∃ d', exchange s.crypto d (command insSignMessage p1 p2 data) = some d' ∧
      d'.wire = [statusBytes sw] := by
  obtain ⟨d', hstep, hreplied⟩ := h
  have hidle : ¬ d'.apduState = .busy := by
    rw [hreplied.idle]
    decide
  refine ⟨d', ?_, hreplied.wire⟩
  rw [exchange, hstep, Option.bind_some, if_neg hidle]

/-- A request that is signed is answered with the signature. -/
theorem exchange_signed {p1 p2 : UInt8} {data message : Bytes} {path : List UInt32}
    (hready : Ready d) (hdata : data.length ≤ 255) (hp1 : p1 = p1Confirm ∨ p1 = p1Silent)
    (h : Follows s d p1 p2 data (.signed path message)) :
    ∃ d', exchange s.crypto d (command insSignMessage p1 p2 data) = some d' ∧
      d'.wire = [answer (formatPayload p2 (s.signed path message))] := by
  have hexports : Exports s.crypto .signMessage d p2 data (s.signed path message) path := h
  obtain ⟨d', hexchange, -, hwire, -⟩ :=
    hexports.exchange hready hdata (s.signed_length_le path message) hp1
  exact ⟨d', hexchange, hwire⟩

end Run

theorem ready_of_reachable {crypto : Crypto} {d : Device} (hd : (app crypto).Reachable d)
    (hphase : d.phase = .waiting) (hidle : d.apduState = .idle) : Ready d :=
  ⟨reachable_inv hd, hphase, hidle⟩

theorem holds_nil {c : SignTxContext} (hempty : c.msgLength = 0) : c.Holds [] := ⟨hempty, rfl⟩

/-- A context always holds some bytes. -/
theorem holds_self {c : SignTxContext} (hc : c.msgLength ≤ maxMsgSize) :
    c.Holds (c.msgBody.bytes.take c.msgLength) := by
  have hlen : (c.msgBody.bytes.take c.msgLength).length = c.msgLength := by
    rw [List.length_take, Buffer.size_eq]
    omega
  constructor
  · rw [hlen]
  · rw [hlen]

/-! What a success of the last request says. -/

/-- A success of the last request carries the signature of the whole message. -/
def SoundSigning (s : Suite) (d : Device) (chunks : List Chunk) (p1 p2 : UInt8) (last : Bytes) :
    Prop :=
  ∀ d₁ d' payload, (app s.crypto).run d (chunks.map Chunk.event) = some d₁ →
    exchange s.crypto d₁ (command insSignMessage p1 p2 last) = some d' →
    d'.wire = [payload ++ statusBytes swOk] →
    ∃ path m, ValidPath path ∧ concat chunks ++ last = bufferFromBip32 path ++ m ∧
      payload = formatPayload p2 (s.signature path m) ++ [0]

/-- The last request is refused: its P1 is not allowed, the bytes do not fit or do not start
with a path, or the message is too short for its path to be read again. -/
def Declined (acc : Bytes) (p1 : UInt8) (last : Bytes) : Prop :=
  ¬ (p1 = p1Confirm ∨ p1 = p1Silent) ∨ maxMsgSize < acc.length + last.length ∨
    match splitPath (acc ++ last) with
    | none => True
    | some (path, m) => ¬ Rereads path.length m

/-- No chunk before the last is refused. -/
def Uninterrupted (chunks : List Chunk) : Prop :=
  (∀ chunk ∈ chunks, chunk.Wanted) ∧ (concat chunks).length ≤ maxMsgSize

theorem collect_eq_iff {chunks : List Chunk} (hchunks : ∀ chunk ∈ chunks, chunk.Fits) :
    chunks.foldl collect [] = concat chunks ↔ Uninterrupted chunks :=
  @Collect.foldl_push_eq_iff _ _ Chunk.Wanted _ Prod.snd maxMsgSize [] chunks
    (Nat.zero_le maxMsgSize)
    fun chunk hchunk => (hchunks chunk hchunk).1

theorem declined_iff {acc last m : Bytes} {p1 : UInt8} {path : List UInt32}
    (hp1 : p1 = p1Confirm ∨ p1 = p1Silent) (hp : ValidPath path)
    (hfit : acc.length + last.length ≤ maxMsgSize)
    (hsplit : acc ++ last = bufferFromBip32 path ++ m) :
    Declined acc p1 last ↔ ¬ Rereads path.length m := by
  unfold Declined
  rw [splitPath_eq_some.mpr ⟨hp, hsplit⟩]
  constructor
  · rintro (h | h | h)
    · exact absurd hp1 h
    · omega
    · exact h
  · intro h
    exact Or.inr (Or.inr h)

theorem verdict_last (s : Suite) (acc : Bytes) (p1 : UInt8) {p2 : UInt8} {last : Bytes}
    (hlast : last ≠ [])
    (hp2 : p2 &&& p2More = 0) :
    (Declined acc p1 last ∧ ∃ sw, (sw = swWrongLength ∨ sw = swInvalidP1P2) ∧
        s.verdict acc p1 p2 last = .refused sw) ∨
      (¬ Declined acc p1 last ∧ (p1 = p1Confirm ∨ p1 = p1Silent) ∧
        ∃ path m, ValidPath path ∧ acc ++ last = bufferFromBip32 path ++ m ∧
          s.verdict acc p1 p2 last = .signed path m) := by
  have hempty : ¬ (last = [] ∧ p2 &&& p2More = 0) := fun h => hlast h.1
  have hraw : ¬ (p2 &&& p2More = p2More ∧ last ≠ []) := fun h => more_ne h.1 hp2
  have hlength : decide (last.length = 0) = false := by simpa using hlast
  unfold Suite.verdict Declined
  rw [if_neg hempty, if_neg hraw, hlength]
  by_cases hp1 : p1 = p1Confirm ∨ p1 = p1Silent
  swap
  · left
    have hvalid : ¬ ValidP1P2 p1 p2 := fun h => hp1 h.p1
    exact ⟨Or.inl hp1, swInvalidP1P2, Or.inr rfl, if_pos hvalid⟩
  have hvalid : ValidP1P2 p1 p2 := ⟨hp1, Or.inr hp2⟩
  rw [if_neg (not_not.mpr hvalid)]
  by_cases hover : maxMsgSize < acc.length + last.length
  · left
    exact ⟨Or.inr (Or.inl hover), swWrongLength, Or.inl rfl, if_pos hover⟩
  rw [if_neg hover]
  unfold Suite.finish
  cases hsplit : splitPath (acc ++ last) with
  | none =>
    left
    exact ⟨Or.inr (Or.inr trivial), swWrongLength, Or.inl rfl, rfl⟩
  | some split =>
    obtain ⟨path, m⟩ := split
    obtain ⟨hp, heq⟩ := splitPath_eq_some.mp hsplit
    have hprepared : s.prepared false m = m := rfl
    simp only [hprepared]
    split_ifs with haccept
    · right
      refine ⟨?_, hp1, path, m, hp, heq, rfl⟩
      rintro (h | h | h)
      · exact h hp1
      · exact hover h
      · exact h haccept
    · left
      exact ⟨Or.inr (Or.inr haccept), swWrongLength, Or.inl rfl, rfl⟩

/-- A status of refusal does not end a reply of success. -/
theorem refusal_ne_success {sw : UInt16} (hsw : sw = swWrongLength ∨ sw = swInvalidP1P2)
    (payload : Bytes) : statusBytes sw ≠ payload ++ statusBytes swOk := by
  intro h
  have hlast := congrArg (fun reply : Bytes => reply.drop (reply.length - 2)) h
  have hdrop : (payload ++ statusBytes swOk).drop ((payload ++ statusBytes swOk).length - 2) =
      statusBytes swOk := by
    apply List.drop_left'
    simp
  simp only [hdrop] at hlast
  rcases hsw with rfl | rfl <;> exact absurd hlast (by decide)

theorem answer_eq {bytes payload : Bytes} (h : answer bytes = payload ++ statusBytes swOk) :
    payload = bytes ++ [0] := (List.append_cancel_right h).symm

section Sound
variable {crypto : Crypto} {d : Device} {chunks : List Chunk} {p1 p2 : UInt8} {last : Bytes}

/-- Where the signer gets the message of the whole sequence, a success is sound. -/
theorem soundSigning_of_signed {s : Suite} {d₁ : Device} {path : List UInt32} {m : Bytes}
    (hready : Ready d₁) (hrun : (app s.crypto).run d (chunks.map Chunk.event) = some d₁)
    (hlast : last.length ≤ 255) (hp1 : p1 = p1Confirm ∨ p1 = p1Silent)
    (hfollows : Follows s d₁ p1 p2 last (.signed path m)) :
    SoundSigning s d chunks p1 p2 last ↔ ∃ path' m', ValidPath path' ∧
      concat chunks ++ last = bufferFromBip32 path' ++ m' ∧
        s.signed path m = s.signature path' m' := by
  obtain ⟨d', hexchange, hwire⟩ := exchange_signed hready hlast hp1 hfollows
  constructor
  · intro hsound
    obtain ⟨path', m', hp', hsplit, hpayload⟩ := hsound d₁ d' _ hrun hexchange hwire
    have heq := List.append_cancel_right hpayload
    exact ⟨path', m', hp', hsplit, formatPayload_injective p2 heq⟩
  · rintro ⟨path', m', hp', hsplit, heq⟩ d₂ d₃ payload hrun₂ hexchange₂ hwire₂
    obtain rfl := Option.some.inj (hrun.symm.trans hrun₂)
    obtain rfl := Option.some.inj (hexchange.symm.trans hexchange₂)
    rw [hwire, List.cons.injEq] at hwire₂
    refine ⟨path', m', hp', hsplit, ?_⟩
    rw [answer_eq hwire₂.1, heq]

/-- A success is sound for all signatures exactly when the last request is refused, or when
the whole sequence is collected and its message has from 1 to 255 bytes. -/
theorem soundSigning_iff (hd : (app crypto).Reachable d) (hphase : d.phase = .waiting)
    (hidle : d.apduState = .idle) (hempty : d.sign.msgLength = 0)
    (hchunks : ∀ chunk ∈ chunks, chunk.Fits) (hsome : last ≠ []) (hlast : last.length ≤ 255)
    (hp2 : p2 &&& p2More = 0) :
    (∀ s : Suite, SoundSigning s d chunks p1 p2 last) ↔
      Declined (chunks.foldl collect []) p1 last ∨
        (Uninterrupted chunks ∧ ∃ path m, splitPath (concat chunks ++ last) = some (path, m) ∧
          1 ≤ m.length ∧ m.length ≤ 255) := by
  have hready := ready_of_reachable hd hphase hidle
  have hrun (s : Suite) := run_chunks (s := s) hready (holds_nil hempty) hchunks
  have hsuffix : chunks.foldl collect [] <:+ concat chunks := Collect.foldl_push_suffix
  constructor
  · intro hsound
    by_cases hdeclined : Declined (chunks.foldl collect []) p1 last
    · exact Or.inl hdeclined
    right
    -- each suite gives a split of the sequence whose signature is the one that is sent
    have hsplits (s : Suite) : ∃ path m path' m', ValidPath path ∧
        chunks.foldl collect [] ++ last = bufferFromBip32 path ++ m ∧ ValidPath path' ∧
        concat chunks ++ last = bufferFromBip32 path' ++ m' ∧
        s.signed path m = s.signature path' m' := by
      obtain ⟨d₁, hrun₁, hready₁, hholds⟩ := hrun s
      have hfollows := sign_follows s p1 p2 hready₁ hholds hlast
      rcases verdict_last s (chunks.foldl collect []) p1 hsome hp2 with
        ⟨h, -⟩ | ⟨-, hp1, path, m, hp, hsplit, hverdict⟩
      · exact absurd h hdeclined
      · rw [hverdict] at hfollows
        obtain ⟨path', m', hp', hsplit', heq⟩ :=
          (soundSigning_of_signed hready₁ hrun₁ hlast hp1 hfollows).mp (hsound s)
        exact ⟨path, m, path', m', hp, hsplit, hp', hsplit', heq⟩
    obtain ⟨path, m, path', m', hp, hsplit, hp', hsplit', -⟩ := hsplits (.marking [] [])
    have hall (s : Suite) : s.signed path m = s.signature path' m' := by
      obtain ⟨path₂, m₂, path₃, m₃, hp₂, hsplit₂, hp₃, hsplit₃, heq⟩ := hsplits s
      obtain ⟨rfl, rfl⟩ := bufferFromBip32_append_inj hp hp₂ (hsplit.symm.trans hsplit₂)
      obtain ⟨rfl, rfl⟩ := bufferFromBip32_append_inj hp' hp₃ (hsplit'.symm.trans hsplit₃)
      exact heq
    have hnonzero : ¬ m.length % 2 ^ 8 = 0 := by
      intro hzero
      have hlen := congrArg List.length (hall (.marking [] []))
      rw [Suite.signed, if_pos hzero, Suite.signature_length] at hlen
      cases hlen
    have hpart : path = path' ∧ signedPart m = m' := by
      by_contra hne
      obtain ⟨s, hs⟩ := Suite.exists_signature_ne hp hp' hne
      apply hs
      rw [← hall s, Suite.signed, if_neg hnonzero]
    obtain ⟨rfl, rfl⟩ := hpart
    have hle := hsuffix.length_le
    have hlen := congrArg List.length hsplit
    have hlen' := congrArg List.length hsplit'
    simp only [List.length_append, signedPart, List.length_take] at hlen hlen'
    have hmod := Nat.mod_lt m.length (show 0 < 2 ^ 8 by decide)
    have hmodle := Nat.mod_le m.length (2 ^ 8)
    refine ⟨(collect_eq_iff hchunks).mp (hsuffix.eq_of_length (by omega)), path, signedPart m,
      splitPath_eq_some.mpr ⟨hp, hsplit'⟩, ?_, ?_⟩ <;>
    · rw [signedPart, List.length_take]
      omega
  · intro h s
    obtain ⟨d₁, hrun₁, hready₁, hholds⟩ := hrun s
    have hfollows := sign_follows s p1 p2 hready₁ hholds hlast
    rcases verdict_last s (chunks.foldl collect []) p1 hsome hp2 with
      ⟨-, sw, hsw, hverdict⟩ | ⟨hdeclined, hp1, path, m, hp, hsplit, hverdict⟩
    · rw [hverdict] at hfollows
      obtain ⟨d', hexchange, hwire⟩ := exchange_refused hfollows
      intro d₂ d₃ payload hrun₂ hexchange₂ hwire₂
      obtain rfl := Option.some.inj (hrun₁.symm.trans hrun₂)
      obtain rfl := Option.some.inj (hexchange.symm.trans hexchange₂)
      rw [hwire, List.cons.injEq] at hwire₂
      exact absurd hwire₂.1 (refusal_ne_success hsw payload)
    · obtain ⟨hwhole, path', m', hsplit', hpos, hle⟩ := h.resolve_left hdeclined
      rw [(collect_eq_iff hchunks).mpr hwhole] at hsplit
      have hsame := (splitPath_eq_some.mpr ⟨hp, hsplit⟩).symm.trans hsplit'
      obtain ⟨rfl, rfl⟩ := Prod.mk.inj (Option.some.inj hsame)
      rw [hverdict] at hfollows
      apply (soundSigning_of_signed hready₁ hrun₁ hlast hp1 hfollows).mpr
      exact ⟨path, m, hp, hsplit, s.signed_of_short path hpos hle⟩

theorem reachable_boot (crypto : Crypto) (apdu : Buffer ioApduBufferSize) :
    (app crypto).Reachable (boot apdu) := reachable_of_start ⟨apdu, rfl⟩

theorem soundSigning_iff_boot :
    (∀ s : Suite, SoundSigning s (boot (.zero _)) [(p1Silent, [1, 0x80, 0])] p1Confirm p2Hex
      [0, 44, 7]) ↔
      Declined (List.foldl collect [] [(p1Silent, [1, 0x80, 0])]) p1Confirm [0, 44, 7] ∨
        (Uninterrupted [(p1Silent, [1, 0x80, 0])] ∧ ∃ path m,
          splitPath (concat [(p1Silent, [1, 0x80, 0])] ++ [0, 44, 7]) = some (path, m) ∧
            1 ≤ m.length ∧ m.length ≤ 255) :=
  soundSigning_iff (reachable_boot (Suite.marking [] []).crypto _) rfl rfl rfl
    (by simp [Chunk.Fits]) (by simp) (by decide) (by decide)

/-- A path with no message behind it is answered with an empty payload, and of a message of
300 bytes only the first 44 are signed. -/
theorem soundSigning_fails :
    ¬ SoundSigning (.marking [] []) (boot (.zero _)) [] p1Silent p2Bin [1, 0x80, 0, 0, 44] ∧
      ¬ SoundSigning (.marking [0x8000002C] (List.replicate 300 7)) (boot (.zero _))
        [(p1Silent, [1, 0x80, 0, 0, 44] ++ List.replicate 200 7)] p1Silent p2Bin
        (List.replicate 100 7) := by
  constructor
  · intro hsound
    have hreply : (exchange (Suite.marking [] []).crypto (boot (.zero _))
        (command insSignMessage p1Silent p2Bin [1, 0x80, 0, 0, 44])).map Device.wire =
        some [[0] ++ statusBytes swOk] := by
      decide +kernel
    obtain ⟨d', hexchange, hwire⟩ := Option.map_eq_some_iff.mp hreply
    obtain ⟨path, m, -, -, hpayload⟩ := hsound _ d' [0] rfl hexchange hwire
    have hlen := congrArg List.length hpayload
    simp [formatPayload, p2Bin, p2Hex, p2Base58] at hlen
  · intro hsound
    have hreply : (((app (Suite.marking [0x8000002C] (List.replicate 300 7)).crypto).run
        (boot (.zero _)) [Chunk.event (p1Silent, [1, 0x80, 0, 0, 44] ++ List.replicate 200 7)]).bind
          fun d₁ => exchange (Suite.marking [0x8000002C] (List.replicate 300 7)).crypto d₁
            (command insSignMessage p1Silent p2Bin (List.replicate 100 7))).map Device.wire =
        some [List.replicate 64 0 ++ [0] ++ statusBytes swOk] := by
      decide +kernel
    obtain ⟨d', hboth, hwire⟩ := Option.map_eq_some_iff.mp hreply
    obtain ⟨d₁, hrun, hexchange⟩ := Option.bind_eq_some_iff.mp hboth
    obtain ⟨path, m, hp, hsplit, hpayload⟩ := hsound d₁ d' _ hrun hexchange hwire
    have hsame : splitPath (concat [(p1Silent, [1, 0x80, 0, 0, 44] ++ List.replicate 200 7)] ++
        List.replicate 100 7) = some ([0x8000002C], List.replicate 300 7) := by
      decide +kernel
    have hpath := (splitPath_eq_some.mpr ⟨hp, hsplit⟩).symm.trans hsame
    obtain ⟨rfl, rfl⟩ := Prod.mk.inj (Option.some.inj hpath)
    exact absurd hpayload (by decide +kernel)

/-! One request for a path and a message. -/

/-- A request is signed in silent mode and prompts in confirm mode. -/
def CompletesSigning (s : Suite) (d : Device) (p2 : UInt8) (data : Bytes) : Prop :=
  (∃ d' signature, step s.crypto d (.apdu (command insSignMessage p1Silent p2 data)) = some d' ∧
      signature.length = 64 ∧ d'.wire = [answer (formatPayload p2 signature)]) ∧
    ∃ d', step s.crypto d (.apdu (command insSignMessage p1Confirm p2 data)) = some d' ∧
      d'.screen = .signMessageApprove ∧ d'.wire = []

theorem statusBytes_ne_answer (sw : UInt16) (payload : Bytes) :
    statusBytes sw ≠ answer payload := by
  intro h
  have hlen := congrArg List.length h
  simp [answer] at hlen

/-- One request for a path of `n` words and a message is signed exactly when the message
has more than `4 * n` bytes. -/
theorem completesSigning_iff {s : Suite} {p2 : UInt8} {path : List UInt32} {m : Bytes}
    (hd : (app crypto).Reachable d) (hphase : d.phase = .waiting) (hidle : d.apduState = .idle)
    (hempty : d.sign.msgLength = 0) (hp : ValidPath path) (hm : m ≠ [])
    (hlen : 1 + 4 * path.length + m.length ≤ 255)
    (hp2 : p2 = p2Bin ∨ p2 = p2Hex ∨ p2 = p2Base58) :
    CompletesSigning s d p2 (bufferFromBip32 path ++ m) ↔ 1 + 4 * path.length ≤ m.length := by
  have hready := ready_of_reachable hd hphase hidle
  have hraw : p2 &&& p2More = 0 := by rcases hp2 with rfl | rfl | rfl <;> decide
  have hdata : (bufferFromBip32 path ++ m).length ≤ 255 := by
    rw [List.length_append, bufferFromBip32_length]
    exact hlen
  have hsome : bufferFromBip32 path ++ m ≠ [] := by
    rw [bufferFromBip32]
    exact List.cons_ne_nil _ _
  have hdeclined : Declined [] p1Silent (bufferFromBip32 path ++ m) ↔
      m.length < 1 + 4 * path.length := by
    have hrereads : Rereads path.length m ↔ 1 + 4 * path.length ≤ m.length := or_iff_right hm
    rw [declined_iff (Or.inr rfl) hp _ (List.nil_append _), hrereads, not_le]
    simp only [List.length_nil, maxMsgSize]
    omega
  have hfollows := sign_follows s p1Silent p2 hready (holds_nil hempty) hdata
  rcases verdict_last s [] p1Silent hsome hraw with
    ⟨h, sw, -, hverdict⟩ | ⟨h, -, path', m', hp', hsplit, hverdict⟩
  · rw [hdeclined] at h
    rw [hverdict] at hfollows
    obtain ⟨d₂, hstep₂, hreplied⟩ := hfollows
    constructor
    · rintro ⟨⟨d', signature, hstep, -, hwire⟩, -⟩
      obtain rfl := Option.some.inj (hstep.symm.trans hstep₂)
      rw [hreplied.wire, List.cons.injEq] at hwire
      exact absurd hwire.1 (statusBytes_ne_answer _ _)
    · intro hlong
      omega
  · rw [hdeclined, not_lt] at h
    rw [List.nil_append] at hsplit
    obtain ⟨rfl, rfl⟩ := bufferFromBip32_append_inj hp hp' hsplit
    rw [hverdict] at hfollows
    have hexports : Exports s.crypto .signMessage d p2 (bufferFromBip32 path ++ m)
      (s.signed path m) path := hfollows
    have hbytes := s.signed_length_le path m
    obtain ⟨d₁, hsilent, -, hwire, -⟩ := hexports.silent hready hdata hbytes
    obtain ⟨d₂, hconfirm, hpending, -⟩ := hexports.confirm hready hdata hbytes
    refine iff_of_true ⟨⟨d₁, _, hsilent, ?_, hwire⟩, d₂, hconfirm, hpending.screen,
      hpending.wire⟩ h
    rw [s.signed_of_short path (by omega) (by omega), Suite.signature_length]

theorem completesSigning_iff_boot :
    CompletesSigning (.marking [] []) (boot (.zero _)) p2Base58
        (bufferFromBip32 [0x8000002C] ++ [1, 2, 3, 4, 5, 6]) ↔
      1 + 4 * [(0x8000002C : UInt32)].length ≤ [(1 : UInt8), 2, 3, 4, 5, 6].length :=
  completesSigning_iff (reachable_boot (Suite.marking [] []).crypto _) rfl rfl rfl
    ⟨by decide, by decide⟩ (by simp) (by decide) (Or.inr (Or.inr rfl))

/-- A message of one byte under a path of one word is refused. -/
theorem completesSigning_fails :
    ¬ CompletesSigning (.marking [] []) (boot (.zero _)) p2Bin
      (bufferFromBip32 [0x8000002C] ++ [7]) := by
  rintro ⟨⟨d', signature, hstep, -, hwire⟩, -⟩
  have hreply : (step (Suite.marking [] []).crypto (boot (.zero _)) (.apdu
      (command insSignMessage p1Silent p2Bin (bufferFromBip32 [0x8000002C] ++ [7])))).map
        Device.wire = some [statusBytes swWrongLength] := by
    decide +kernel
  rw [hstep, Option.map_some, Option.some.injEq, hwire, List.cons.injEq] at hreply
  exact statusBytes_ne_answer _ _ hreply.1.symm

end Sound
end IostLedger
