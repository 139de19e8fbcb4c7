import IostLedger.Streaming

/-! The format and the streaming flag that share the byte P2. -/
namespace IostLedger
open Memory Exec Machine

def IsFormat (format : UInt8) : Prop := format = p2Bin ∨ format = p2Hex ∨ format = p2Base58

/-- A chunk that asks for more, and for a format. -/
def Chunk.eventFor (format : UInt8) (chunk : Chunk) : Event :=
  .apdu (command insSignMessage chunk.1 (format ||| p2More) chunk.2)

/-- The chunks of a path and a message, and the P1 of the empty chunk behind them. -/
structure StreamedRequest (path : List UInt32) (m : Bytes) (chunks : List Chunk) (p1 : UInt8) :
    Prop where
  valid : ValidPath path
  room : 1 + 4 * path.length + m.length ≤ maxMsgSize
  pieces : ∀ chunk ∈ chunks, chunk.Fits ∧ chunk.Wanted
  whole : concat chunks = bufferFromBip32 path ++ m
  last : p1 = p1Confirm ∨ p1 = p1Silent

/-- The reply to a streamed sequence with a format. -/
def StreamReplies (s : Suite) (d : Device) (format : UInt8) (chunks : List Chunk) (p1 : UInt8)
    (reply : Bytes) : Prop :=
  ∃ d₁ d', (app s.crypto).run d (chunks.map (Chunk.eventFor format)) = some d₁ ∧
    exchange s.crypto d₁ (command insSignMessage p1 (format ||| p2More) []) = some d' ∧
    d'.wire = [reply]

/-- A streamed sequence is answered in its format with the signature of the `BIN` sequence,
and the host, which drops the streaming flag, reads it back. -/
def StreamEncodes (s : Suite) (d : Device) (format : UInt8) (chunks : List Chunk) (p1 : UInt8) :
    Prop :=
  ∃ signature, signature.length = 64 ∧ StreamReplies s d p2Bin chunks p1 (answer signature) ∧
    StreamReplies s d format chunks p1 (answer (formatPayload format signature)) ∧
    decodePayload ((format ||| p2More) &&& ~~~p2More) (formatPayload format signature) = signature

section Stream
variable {s : Suite} {d : Device} {path : List UInt32} {m : Bytes} {chunks : List Chunk}
  {p1 p2 format : UInt8}

/-- Of the values of P2 with the streaming flag only the flag itself is let through. -/
theorem not_validP1P2 (hmore : p2 &&& p2More ≠ 0) (hne : p2 ≠ p2More) : ¬ ValidP1P2 p1 p2 := by
  intro h
  rcases h.p2 with h | h
  · exact hne h
  · exact hmore h

theorem verdict_invalid (s : Suite) (acc data : Bytes) (hsome : ¬ (data = [] ∧ p2 &&& p2More = 0))
    (hvalid : ¬ ValidP1P2 p1 p2) : s.verdict acc p1 p2 data = .refused swInvalidP1P2 := by
  rw [Suite.verdict, if_neg hsome, if_pos hvalid]

theorem format_more (hformat : format = p2Hex ∨ format = p2Base58) :
    (format ||| p2More) &&& p2More ≠ 0 ∧ format ||| p2More ≠ p2More := by
  rcases hformat with rfl | rfl <;> decide

/-- With another format than `BIN` every chunk is refused. -/
theorem run_refused (hformat : format = p2Hex ∨ format = p2Base58) (hready : Ready d)
    (hempty : d.sign.msgLength = 0) (hchunks : ∀ chunk ∈ chunks, chunk.Fits) :
    ∃ d₁, (app s.crypto).run d (chunks.map (Chunk.eventFor format)) = some d₁ ∧ Ready d₁ ∧
      d₁.sign.msgLength = 0 := by
  obtain ⟨hmore, hne⟩ := format_more hformat
  induction chunks generalizing d with
  | nil => exact ⟨d, rfl, hready, hempty⟩
  | cons chunk chunks ih =>
    have hchunk := hchunks chunk List.mem_cons_self
    have hsome : ¬ (chunk.2 = [] ∧ (format ||| p2More) &&& p2More = 0) := fun h => hmore h.2
    have hfollows := sign_follows s chunk.1 (format ||| p2More) hready (holds_nil hempty) hchunk.2
    rw [verdict_invalid s [] chunk.2 hsome (not_validP1P2 hmore hne)] at hfollows
    obtain ⟨d₁, hstep, hreplied⟩ := hfollows
    have hstep' : (app s.crypto).step d (chunk.eventFor format) = some d₁ := hstep
    obtain ⟨d₂, hrun, hrest⟩ := ih hreplied.toReady hreplied.holds.length
      fun c hc => hchunks c (List.mem_cons_of_mem chunk hc)
    refine ⟨d₂, ?_, hrest⟩
    rw [List.map_cons, run_cons (app s.crypto) hstep']
    exact hrun

theorem streamReplies_refused (p1 : UInt8) (hformat : format = p2Hex ∨ format = p2Base58)
    (hready : Ready d)
    (hempty : d.sign.msgLength = 0) (hchunks : ∀ chunk ∈ chunks, chunk.Fits) :
    StreamReplies s d format chunks p1 (statusBytes swInvalidP1P2) := by
  obtain ⟨hmore, hne⟩ := format_more hformat
  obtain ⟨d₁, hrun, hready₁, hempty₁⟩ := run_refused (s := s) hformat hready hempty hchunks
  have hdata : ([] : Bytes).length ≤ 255 := Nat.zero_le 255
  have hsome : ¬ (([] : Bytes) = [] ∧ (format ||| p2More) &&& p2More = 0) := fun h => hmore h.2
  have hfollows := sign_follows s p1 (format ||| p2More) hready₁ (holds_nil hempty₁) hdata
  rw [verdict_invalid s [] [] hsome (not_validP1P2 hmore hne)] at hfollows
  obtain ⟨d', hexchange, hwire⟩ := exchange_refused hfollows
  exact ⟨d₁, d', hrun, hexchange, hwire⟩

/-- The `BIN` sequence is answered with the signature of the hash. -/
theorem streamReplies_bin (h : StreamedRequest path m chunks p1) (hready : Ready d)
    (hempty : d.sign.msgLength = 0) :
    StreamReplies s d p2Bin chunks p1 (answer (s.signature path (s.hash m))) := by
  have hfits := fun chunk hchunk => (h.pieces chunk hchunk).1
  have hlen : (concat chunks).length ≤ maxMsgSize := by
    rw [h.whole, List.length_append, bufferFromBip32_length]
    exact h.room
  have hcollected :=
    (collect_eq_iff hfits).mpr ⟨fun chunk hchunk => (h.pieces chunk hchunk).2, hlen⟩
  obtain ⟨d₁, hrun, hready₁, hholds⟩ := run_chunks (s := s) hready (holds_nil hempty) hfits
  rw [hcollected, h.whole] at hholds
  obtain ⟨d', hexchange, hwire⟩ := exchange_hashed (s := s) hready₁ h.valid hholds h.last
  exact ⟨d₁, d', hrun, hexchange, hwire⟩

theorem StreamReplies.unique {reply reply' : Bytes} (h : StreamReplies s d format chunks p1 reply)
    (h' : StreamReplies s d format chunks p1 reply') : reply = reply' := by
  obtain ⟨d₁, d₂, hrun, hexchange, hwire⟩ := h
  obtain ⟨d₁', d₂', hrun', hexchange', hwire'⟩ := h'
  obtain rfl := Option.some.inj (hrun.symm.trans hrun')
  obtain rfl := Option.some.inj (hexchange.symm.trans hexchange')
  exact (List.cons.inj (hwire.symm.trans hwire')).1

theorem streamEncodes_iff (hready : Ready d) (hempty : d.sign.msgLength = 0)
    (hformat : IsFormat format) (h : StreamedRequest path m chunks p1) :
    StreamEncodes s d format chunks p1 ↔ format = p2Bin := by
  constructor
  · rintro ⟨signature, -, -, hreply, -⟩
    by_contra hbin
    have hrefused := streamReplies_refused (s := s) p1 (hformat.resolve_left hbin) hready hempty
      fun chunk hchunk => (h.pieces chunk hchunk).1
    exact statusBytes_ne_answer _ _ (hrefused.unique hreply)
  · rintro rfl
    have hreply := streamReplies_bin (s := s) h hready hempty
    exact ⟨_, s.signature_length path (s.hash m), hreply, hreply, rfl⟩

end Stream

/-! Values of P2 that name no format. -/

/-- The device refuses a request with the status for its parameters. -/
def RefusesParameters (s : Suite) (d : Device) (ins p1 p2 : UInt8) (data : Bytes) : Prop :=
  ∃ d', step s.crypto d (.apdu (command ins p1 p2 data)) = some d' ∧
    d'.wire = [statusBytes swInvalidP1P2]

section Refuse
variable {s : Suite} {d : Device} {p1 p2 : UInt8} {data : Bytes}

theorem refusesParameters_of_invalid (hready : Ready d) (hdata : data.length ≤ 255)
    (hsome : ¬ (data = [] ∧ p2 &&& p2More = 0)) (hvalid : ¬ ValidP1P2 p1 p2) :
    RefusesParameters s d insSignMessage p1 p2 data ∧
      RefusesParameters s d insGetPublicKey p1 p2 data := by
  constructor
  · have hholds := holds_self hready.inv.bounded.sign.msgLength
    have hfollows := sign_follows s p1 p2 hready hholds hdata
    rw [verdict_invalid s _ data hsome hvalid] at hfollows
    obtain ⟨d', hstep, hreplied⟩ := hfollows
    exact ⟨d', hstep, hreplied.wire⟩
  · have hrun := processApdu_publicKey s.crypto d p1 hdata hsome
    simp only [handleGetPublicKey, EStateM.run_bind, ioCheckP1P2_refuse hvalid,
      run_ofChecked_error] at hrun
    obtain ⟨d', hstep, -, hwire, -⟩ := step_refused hready hdata hrun
      (untouched_received hready _) (hready.inv.tx hready.phase) (by simp)
    exact ⟨d', hstep, hwire⟩

/-- A request for the key of a path is not refused while its parameters are let through. -/
theorem not_refusesParameters {path : List UInt32} {m : Bytes} (hready : Ready d)
    (hp : ValidPath path) (hdata : (bufferFromBip32 path ++ m).length ≤ 255)
    (hvalid : ValidP1P2 p1 p2) :
    ¬ RefusesParameters s d insGetPublicKey p1 p2 (bufferFromBip32 path ++ m) := by
  rintro ⟨d', hstep, hwire⟩
  have hexports := @publicKey_exports s d path p2 m hready hp hvalid.p2 hdata
  have hkey := encode_length (s.publicPoint path)
  rcases hvalid.p1 with rfl | rfl
  · obtain ⟨d₁, hstep₁, hpending, -⟩ := hexports.confirm hready hdata (by omega)
    obtain rfl := Option.some.inj (hstep.symm.trans hstep₁)
    rw [hpending.wire] at hwire
    cases hwire
  · obtain ⟨d₁, hstep₁, -, hanswer, -⟩ := hexports.silent hready hdata (by omega)
    obtain rfl := Option.some.inj (hstep.symm.trans hstep₁)
    exact statusBytes_ne_answer _ _ (List.cons.inj (hwire.symm.trans hanswer)).1

end Refuse

/-- Formats other than `BIN` cannot be streamed; and a value of P2 that names no format is
refused by both handlers exactly when it has the streaming flag or P1 is not allowed. -/
theorem format_and_more {crypto : Crypto} {s : Suite} {d : Device} (hd : (app crypto).Reachable d)
    (hphase : d.phase = .waiting) (hidle : d.apduState = .idle) :
    (∀ format path m chunks p1, d.sign.msgLength = 0 → IsFormat format →
      StreamedRequest path m chunks p1 →
        (StreamEncodes s d format chunks p1 ↔ format = p2Bin)) ∧
    ∀ p1 p2 path m, ValidPath path → (bufferFromBip32 path ++ m).length ≤ 255 →
      ¬ IsFormat (p2 &&& ~~~p2More) →
        ((RefusesParameters s d insSignMessage p1 p2 (bufferFromBip32 path ++ m) ∧
          RefusesParameters s d insGetPublicKey p1 p2 (bufferFromBip32 path ++ m)) ↔
            ¬ (p1 = p1Confirm ∨ p1 = p1Silent) ∨ p2 &&& p2More ≠ 0) := by
  have hready := ready_of_reachable hd hphase hidle
  constructor
  · intro format path m chunks p1 hempty hformat h
    exact streamEncodes_iff hready hempty hformat h
  · intro p1 p2 path m hp hdata hnone
    have hsome : ¬ (bufferFromBip32 path ++ m = [] ∧ p2 &&& p2More = 0) := by
      rw [bufferFromBip32]
      simp
    have hne : p2 ≠ p2More := by
      rintro rfl
      exact hnone (Or.inl (by decide))
    constructor
    · rintro ⟨-, hrefuses⟩
      by_contra hnot
      push Not at hnot
      exact not_refusesParameters hready hp hdata ⟨hnot.1, Or.inr hnot.2⟩ hrefuses
    · rintro (hp1 | hmore)
      · exact refusesParameters_of_invalid hready hdata hsome fun h => hp1 h.p1
      · exact refusesParameters_of_invalid hready hdata hsome (not_validP1P2 hmore hne)

theorem format_and_more_boot :
    (StreamEncodes (.marking [] []) (boot (.zero _)) p2Hex
        [(p1Silent, [1, 0x80, 0, 0, 44]), (p1Silent, [7])] p1Confirm ↔ p2Hex = p2Bin) ∧
      ((RefusesParameters (.marking [] []) (boot (.zero _)) insSignMessage p1Silent 0x85
          (bufferFromBip32 [44] ++ []) ∧
        RefusesParameters (.marking [] []) (boot (.zero _)) insGetPublicKey p1Silent 0x85
          (bufferFromBip32 [44] ++ [])) ↔
        ¬ (p1Silent = p1Confirm ∨ p1Silent = p1Silent) ∨ 0x85 &&& p2More ≠ 0) := by
  have h := format_and_more (s := .marking [] [])
    (reachable_boot (Suite.marking [] []).crypto (.zero _)) rfl rfl
  constructor
  · apply h.1 p2Hex [0x8000002C] [7] _ _ rfl (Or.inr (Or.inl rfl))
    exact ⟨⟨by decide, by decide⟩, by decide, by simp [Chunk.Fits, Chunk.Wanted], by decide,
      Or.inl rfl⟩
  · exact h.2 p1Silent 0x85 [44] [] ⟨by decide, by decide⟩ (by decide)
      (by unfold IsFormat; decide)

/-- A streamed message in `HEX` is refused, and a P2 of 5 exports a key. -/
theorem format_and_more_fails :
    (¬ StreamEncodes (.marking [] []) (boot (.zero _)) p2Hex
        [(p1Silent, [1, 0x80, 0, 0, 44]), (p1Silent, [7])] p1Silent) ∧
      ¬ RefusesParameters (.marking [] []) (boot (.zero _)) insGetPublicKey p1Silent 5
        (bufferFromBip32 [44]) := by
  constructor
  · rintro ⟨signature, -, -, ⟨d₁, d', hrun, hexchange, hwire⟩, -⟩
    have hreply : (((app (Suite.marking [] []).crypto).run (boot (.zero _))
        (List.map (Chunk.eventFor p2Hex)
          [(p1Silent, [1, 0x80, 0, 0, 44]), (p1Silent, [7])])).bind fun d₁ =>
        exchange (Suite.marking [] []).crypto d₁
          (command insSignMessage p1Silent (p2Hex ||| p2More) [])).map Device.wire =
        some [statusBytes swInvalidP1P2] := by
      decide +kernel
    rw [hrun, Option.bind_some, hexchange, Option.map_some, Option.some.injEq, hwire] at hreply
    exact statusBytes_ne_answer _ _ (List.cons.inj hreply).1.symm
  · rintro ⟨d', hstep, hwire⟩
    have hreply : (step (Suite.marking [] []).crypto (boot (.zero _))
        (.apdu (command insGetPublicKey p1Silent 5 (bufferFromBip32 [44])))).map Device.wire ≠
        some [statusBytes swInvalidP1P2] := by
      decide +kernel
    rw [hstep, Option.map_some, hwire] at hreply
    exact hreply rfl

end IostLedger
