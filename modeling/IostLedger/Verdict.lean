import IostLedger.Signing

/-! What a request to sign comes to: an account of `SIGN_MESSAGE` over the bytes collected
so far, and the device follows it. -/
namespace IostLedger
open Memory Exec Machine

/-- The first `count` words of a byte string, and the bytes behind them. -/
def takeWords : ℕ → Bytes → Option (List UInt32 × Bytes)
  | 0, rest => some ([], rest)
  | count + 1, a :: b :: c :: d :: rest =>
      (takeWords count rest).map fun (words, rest) => (beWord a b c d :: words, rest)
  | _ + 1, _ => none

/-- The path at the start of a byte string, and the message behind it. -/
def splitPath : Bytes → Option (List UInt32 × Bytes)
  | [] => none
  | count :: rest =>
      if 1 ≤ count.toNat ∧ count.toNat ≤ 5 then takeWords count.toNat rest else none

theorem takeWords_flatMap (path : List UInt32) (m : Bytes) :
    takeWords path.length (path.flatMap be32 ++ m) = some (path, m) := by
  induction path with
  | nil => rfl
  | cons w ws ih =>
    rw [List.flatMap_cons, List.append_assoc]
    simp only [be32, List.cons_append, List.nil_append, List.length_cons, takeWords, ih,
      Option.map_some, beWord_be32]

theorem takeWords_sound {count : ℕ} {l m : Bytes} {path : List UInt32}
    (h : takeWords count l = some (path, m)) :
    path.length = count ∧ l = path.flatMap be32 ++ m := by
  induction count generalizing l path with
  | zero =>
    simp only [takeWords, Option.some.injEq, Prod.mk.injEq] at h
    obtain ⟨rfl, rfl⟩ := h
    exact ⟨rfl, rfl⟩
  | succ count ih =>
    unfold takeWords at h
    split at h
    · omega
    · rename_i a b c d rest hcount
      obtain rfl := Nat.succ.inj hcount
      simp only [Option.map_eq_some_iff, Prod.mk.injEq] at h
      obtain ⟨⟨words, rest'⟩, hwords, rfl, rfl⟩ := h
      obtain ⟨hlen, hrest⟩ := ih hwords
      constructor
      · rw [List.length_cons, hlen]
      · rw [List.flatMap_cons, be32_beWord, List.append_assoc, ← hrest]
        rfl
    · cases h

theorem splitPath_eq_some {bytes m : Bytes} {path : List UInt32} :
    splitPath bytes = some (path, m) ↔ ValidPath path ∧ bytes = bufferFromBip32 path ++ m := by
  constructor
  · intro h
    cases bytes with
    | nil => cases h
    | cons count rest =>
      simp only [splitPath] at h
      split_ifs at h with hcount
      obtain ⟨hlen, hrest⟩ := takeWords_sound h
      constructor
      · constructor <;> omega
      · rw [bufferFromBip32, hlen, UInt8.ofNat_toNat, List.cons_append, ← hrest]
  · rintro ⟨hp, rfl⟩
    have hle := hp.le
    have hpos := hp.pos
    have hcount : (UInt8.ofNat path.length).toNat = path.length :=
      UInt8.toNat_ofNat_of_lt' (by simp only [UInt8.size]; omega)
    rw [bufferFromBip32, List.cons_append, splitPath, hcount, if_pos ⟨hpos, hle⟩,
      takeWords_flatMap]

theorem splitPath_eq_none {bytes : Bytes} :
    splitPath bytes = none ↔ ∀ path m, ValidPath path → bytes ≠ bufferFromBip32 path ++ m := by
  rw [Option.eq_none_iff_forall_ne_some]
  constructor
  · intro h path m hp hsplit
    exact h (path, m) (splitPath_eq_some.mpr ⟨hp, hsplit⟩)
  · rintro h ⟨path, m⟩ hsplit
    obtain ⟨hp, heq⟩ := splitPath_eq_some.mp hsplit
    exact h path m hp heq

instance (p1 p2 : UInt8) : Decidable (ValidP1P2 p1 p2) :=
  decidable_of_iff ((p1 = p1Confirm ∨ p1 = p1Silent) ∧ (p2 = p2More ∨ p2 &&& p2More = 0))
    ⟨fun h => ⟨h.1, h.2⟩, fun h => ⟨h.p1, h.p2⟩⟩

/-- What a request to sign comes to. -/
inductive Verdict where
  /-- The status alone is sent, and the collected bytes are dropped. -/
  | refused (sw : UInt16)
  /-- The collected bytes, after a status of success. -/
  | stored (acc : Bytes)
  /-- The message that reaches the signer. -/
  | signed (path : List UInt32) (message : Bytes)
  deriving DecidableEq

/-- Whether the second reading of a path of `n` words finds the length of the message. -/
def Rereads (n : ℕ) (message : Bytes) : Prop := message = [] ∨ 1 + 4 * n ≤ message.length

instance (n : ℕ) (message : Bytes) : Decidable (Rereads n message) :=
  inferInstanceAs (Decidable (_ ∨ _))

theorem rereads_iff {n : ℕ} {message : Bytes} :
    Rereads n message ↔ message.length = 0 ∨ 1 + 4 * n ≤ message.length := by
  rw [Rereads, List.length_eq_zero_iff]

/-- The verdict on the last request of a sequence that has collected `bytes` in all. -/
def Suite.finish (s : Suite) (hashBeforeSign : Bool) (bytes : Bytes) : Verdict :=
  match splitPath bytes with
  | none => .refused swWrongLength
  | some (path, m) =>
      if Rereads path.length (s.prepared hashBeforeSign m) then
        .signed path (s.prepared hashBeforeSign m)
      else .refused swWrongLength

/-- The verdict on a request when `acc` has been collected. -/
def Suite.verdict (s : Suite) (acc : Bytes) (p1 p2 : UInt8) (data : Bytes) : Verdict :=
  if data = [] ∧ p2 &&& p2More = 0 then .refused swWrongLength
  else if ¬ ValidP1P2 p1 p2 then .refused swInvalidP1P2
  else if maxMsgSize < acc.length + data.length then .refused swWrongLength
  else if p2 &&& p2More = p2More ∧ data ≠ [] then .stored (acc ++ data)
  else s.finish (data.length = 0) (acc ++ data)

/-- A device that has sent a reply and holds `acc`. -/
structure Replied (d : Device) (reply : Bytes) (acc : Bytes) : Prop extends Ready d where
  wire : d.wire = [reply]
  holds : d.sign.Holds acc

/-- The device answers a request as the verdict says. -/
def Follows (s : Suite) (d : Device) (p1 p2 : UInt8) (data : Bytes) : Verdict → Prop
  | .refused sw => ∃ d', step s.crypto d (.apdu (command insSignMessage p1 p2 data)) = some d' ∧
      Replied d' (statusBytes sw) []
  | .stored acc => ∃ d', step s.crypto d (.apdu (command insSignMessage p1 p2 data)) = some d' ∧
      Replied d' (statusBytes swOk) acc
  | .signed path message =>
      Exports s.crypto .signMessage d p2 data (s.signed path message) path

section Request
variable {d : Device} {p1 p2 : UInt8} {data acc : Bytes}

/-- A request to sign reaches its handler. -/
theorem processApdu_sign (crypto : Crypto) (d : Device) (p1 : UInt8) (hdata : data.length ≤ 255)
    (hsome : ¬ (data = [] ∧ p2 &&& p2More = 0)) :
    (processApdu crypto (5 + data.length)).run (received (command insSignMessage p1 p2 data) d) =
      (handleSignMessage crypto p1 p2 offsetCdata data.length).run
        (received (command insSignMessage p1 p2 data) d) := by
  rw [processApdu_command crypto d insSignMessage p1 p2 hdata, if_neg hsome]
  rfl

theorem untouched_received (hready : Ready d) (bytes : Bytes) :
    Untouched (received bytes d) (received bytes d) :=
  ⟨⟨rfl, rfl, rfl⟩, ⟨hready.inv.bounded.sign, hready.inv.bounded.pk⟩, rfl, rfl⟩

/-- A handler that only changes the sign context within its bounds. -/
theorem untouched_sign (hready : Ready d) (bytes : Bytes) {c : SignTxContext}
    (hlength : c.msgLength ≤ maxMsgSize) (hout : c.outputLength ≤ 128) (hui : c.ui = d.sign.ui) :
    Untouched (received bytes d) { received bytes d with sign := c } :=
  ⟨⟨rfl, rfl, rfl⟩, ⟨⟨hlength, hout, hui ▸ hready.inv.bounded.sign.ui⟩, hready.inv.bounded.pk⟩,
    rfl, rfl⟩

/-- A request to sign that is refused leaves an empty sign context. -/
theorem refused_follows (s : Suite) {d₁ : Device} {sw : UInt16} (hready : Ready d)
    (hdata : data.length ≤ 255) (hsw : sw = swWrongLength ∨ sw = swInvalidP1P2)
    (hrun : (processApdu s.crypto (5 + data.length)).run
      (received (command insSignMessage p1 p2 data) d) = .error (.thrown sw) d₁)
    (hsame : Untouched (received (command insSignMessage p1 p2 data) d) d₁) (htx : d₁.tx = 0) :
    Follows s d p1 p2 data (.refused sw) := by
  have hmem : sw ∈ [swWrongLength, swInvalidP1P2, swInsNotSupported, swInternalError] := by
    rcases hsw with rfl | rfl <;> simp
  obtain ⟨d', hstep, hready', hwire, hsign, -⟩ := step_refused hready hdata hrun hsame htx hmem
  exact ⟨d', hstep, hready', hwire, hsign ▸ SignTxContext.zero_holds⟩

theorem more_ne (h : p2 &&& p2More = p2More) : ¬ p2 &&& p2More = 0 := by
  rw [h]
  decide

/-- Every request to sign gets the reply of its verdict. -/
theorem sign_follows (s : Suite) (p1 p2 : UInt8) (hready : Ready d) (hacc : d.sign.Holds acc)
    (hdata : data.length ≤ 255) :
    Follows s d p1 p2 data (s.verdict acc p1 p2 data) := by
  have htx : (received (command insSignMessage p1 p2 data) d).tx = 0 := hready.inv.tx hready.phase
  have hsame := untouched_received hready (command insSignMessage p1 p2 data)
  have hread := received_command_read d insSignMessage p1 p2 hdata
  have hholds : (received (command insSignMessage p1 p2 data) d).sign.Holds acc := hacc
  have hout := hready.inv.bounded.sign.outputLength
  unfold Suite.verdict
  by_cases hempty : data = [] ∧ p2 &&& p2More = 0
  · rw [if_pos hempty]
    apply refused_follows s hready hdata (Or.inl rfl) _ hsame htx
    rw [processApdu_command s.crypto d insSignMessage p1 p2 hdata, if_pos hempty]
  rw [if_neg hempty]
  have hprocess := processApdu_sign s.crypto d p1 hdata hempty
  by_cases hvalid : ValidP1P2 p1 p2
  swap
  · rw [if_pos hvalid]
    apply refused_follows s hready hdata (Or.inr rfl) _ hsame htx
    rw [hprocess, handleSignMessage_invalid s.crypto _ hvalid]
  rw [if_neg (not_not.mpr hvalid)]
  by_cases hover : maxMsgSize < acc.length + data.length
  · rw [if_pos hover]
    apply refused_follows s hready hdata (Or.inl rfl) _ hsame htx
    rw [hprocess, handleSignMessage_overflow s.crypto hvalid hholds hover]
  rw [if_neg hover]
  have hfit : acc.length + data.length ≤ maxMsgSize := Nat.le_of_not_lt hover
  by_cases hmore : p2 &&& p2More = p2More ∧ data ≠ []
  · rw [if_pos hmore]
    obtain ⟨c, hc, hcout, hcui, hrun⟩ :=
      handleSignMessage_stored s.crypto hvalid hholds hread hfit hmore.1 hmore.2
    rw [← hprocess] at hrun
    have hlength := hc.length_le
    rw [← hc.length] at hlength
    have hstored := untouched_sign hready (command insSignMessage p1 p2 data) hlength
      (hcout.trans_le hout) hcui
    have hwide : (received (command insSignMessage p1 p2 data) d).tx + 2 ≤ ioApduBufferSize := by
      rw [htx]
      decide
    obtain ⟨d', hstep, hready', hwire, hsign, -⟩ :=
      step_thrown hready hdata hrun hstored hwide (by decide)
    have hstatus : statusOf swOk = swOk := by decide
    refine ⟨d', hstep, hready', ?_, hsign ▸ hc⟩
    rw [hwire, htx, List.take_zero, List.nil_append, hstatus]
  rw [if_neg hmore]
  have hlast : p2 &&& p2More ≠ p2More ∨ data.length = 0 := by
    rw [List.length_eq_zero_iff]
    tauto
  unfold Suite.finish
  cases hsplit : splitPath (acc ++ data) with
  | none =>
    obtain ⟨c, hc, hcout, hcui, hrun⟩ := handleSignMessage_malformed s.crypto hvalid hholds hread
      hfit hlast (splitPath_eq_none.mp hsplit)
    have hlength := hc.length_le
    rw [← hc.length] at hlength
    exact refused_follows s hready hdata (Or.inl rfl) (hprocess.trans hrun)
      (untouched_sign hready _ hlength (hcout.trans_le hout) hcui) htx
  | some split =>
    obtain ⟨path, m⟩ := split
    obtain ⟨hp, heq⟩ := splitPath_eq_some.mp hsplit
    have hrereads := @rereads_iff path.length (s.prepared (data.length = 0) m)
    simp only []
    split_ifs with haccept
    · intro p1' hp1'
      have hvalid' : ValidP1P2 p1' p2 := ⟨hp1', hvalid.p2⟩
      have hprocess' := processApdu_sign s.crypto d p1' hdata hempty
      have hread' := received_command_read d insSignMessage p1' p2 hdata
      obtain ⟨c, hlength, hcout, hcui, hrun⟩ := handleSignMessage_final
        (d := received (command insSignMessage p1' p2 data) d) s hvalid' htx hacc hread' hfit
        hlast hp heq
      rw [if_pos (hrereads.mp haccept)] at hrun
      exact ⟨_, untouched_sign hready _ hlength (hcout.trans (by decide)) hcui, htx,
        (fun h => by cases h), hprocess'.trans hrun⟩
    · obtain ⟨c, hlength, hcout, hcui, hrun⟩ :=
        handleSignMessage_final s hvalid htx hholds hread hfit hlast hp heq
      rw [if_neg (mt hrereads.mpr haccept)] at hrun
      exact refused_follows s hready hdata (Or.inl rfl) (hprocess.trans hrun)
        (untouched_sign hready _ hlength (hcout.trans (by decide)) hcui) htx

end Request
end IostLedger
