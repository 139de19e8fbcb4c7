import IostLedger.Invariant
import IostLedger.PathReader

/-! The bounds on the arrays of the application, in every state it reaches and while a
request is handled. -/
namespace IostLedger
open Memory Exec Machine

/-- Reading a path of any given length stays in the memory and in the array of the caller. -/
def ReadsInRange {n : ℕ} (mem : Buffer n) (buffer : ℕ) : Prop :=
  ∀ bufferLength before, Wp (ioReadBip32Into mem buffer bufferLength)
    (fun count _ => count ≤ apduMaxSize) (fun fault _ => fault ≠ .outOfRange) before

/-- The bounds on a context that holds a request: what `sign_message` subtracts from the
length is at most the length, and the length stays bounded however it is left. -/
structure SigningBounds (crypto : Crypto) (c : SignTxContext) : Prop where
  msgLength : c.msgLength ≤ maxMsgSize
  path : ReadsInRange c.msgBody 0
  offset : ∀ path, c.msgLength ≠ 0 → ioReadBip32 c.msgBody 0 c.msgLength = .ok path →
    1 + path.length * 4 ≤ c.msgLength
  signed : ∀ hashBeforeSign, Wp (signMessage crypto hashBeforeSign)
    (fun signature c' => signature.length ≤ 64 ∧ c'.msgLength ≤ maxMsgSize ∧
      ReadsInRange c'.msgBody 0)
    (fun fault c' => fault ≠ .outOfRange ∧ c'.msgLength ≤ maxMsgSize) c

/-- The bounds while an APDU of `rx` bytes is handled: of the chunk that is appended, of
the paths that are read, and of the reply with its status word. -/
structure RequestBounds (crypto : Crypto) (rx : ℕ) (d : Device) : Prop where
  path : ReadsInRange d.apdu offsetCdata
  appended : Wp (readMessage d.apdu offsetCdata (d.header offsetLc).toNat)
    (fun _ c => SigningBounds crypto c) (fun fault c => fault ≠ .outOfRange ∧ c = d.sign) d.sign
  handled : Wp (processApdu crypto rx) (fun _ d' => d'.tx + 2 ≤ ioApduBufferSize)
    (fun fault d' => fault ≠ .outOfRange ∧ d'.tx + 2 ≤ ioApduBufferSize) d

/-- The bounds between two events: no access was out of range, the accumulated message fits,
the base-58 text fits with its terminator, so does every window of it, and the payload
fits with its terminator and its status word. -/
structure Device.InBounds (crypto : Crypto) (d : Device) : Prop where
  inRange : d.phase ≠ .crashed
  msgLength : d.sign.msgLength ≤ maxMsgSize
  text : ∀ owner : Owner, (owner.ui d).msgLength + 1 ≤ displaySize * displaySize
  window : ∀ owner : Owner, (owner.ui d).displayIndex + displaySize ≤ displaySize * displaySize
  reply : ∀ owner : Owner, owner.outputLength d + 1 + 2 ≤ ioApduBufferSize
  request : d.phase = .waiting → ∀ bytes, Accepts d bytes →
    RequestBounds crypto bytes.length (received bytes d)

theorem Refusal.ne_outOfRange {crypto : Crypto} {fault : Fault} (h : Refusal crypto fault) :
    fault ≠ .outOfRange := by
  obtain ⟨e, rfl, -, -⟩ := h.cases
  simp

theorem readsInRange {n : ℕ} {mem : Buffer n} {buffer : ℕ} (hfit : buffer + 21 ≤ n) :
    ReadsInRange mem buffer := by
  intro bufferLength before
  apply (ioReadBip32Into_inRange hfit).mono
  · intro count after hcount
    exact hcount
  · rintro fault after rfl
    simp

section Bounds
variable {crypto : Crypto} {d : Device} {c : SignTxContext}

theorem signingBounds (hc : c.msgLength ≤ maxMsgSize) : SigningBounds crypto c := by
  have hreads (body : Buffer maxMsgSize) : ReadsInRange body 0 := readsInRange (by decide)
  constructor
  · exact hc
  · exact hreads c.msgBody
  · intro path hne hread
    rcases ioReadBip32_ok_or c.msgBody c.msgLength (show 0 + 21 ≤ maxMsgSize by decide) with
      ⟨path', -, hcap, hread'⟩ | hrefused
    · obtain rfl : path' = path := by simpa using hread'.symm.trans hread
      simp only [maxMsgSize] at hc
      have hwords := hcap (Nat.one_le_iff_ne_zero.mpr hne) (by omega)
      omega
    · simp [hrefused] at hread
  · intro hashBeforeSign
    apply (signMessage_wp crypto hashBeforeSign hc).mono
    · rintro signature c' ⟨hsignature, -, hlength, -⟩
      exact ⟨hsignature, hlength, hreads c'.msgBody⟩
    · rintro fault c' ⟨hrefusal, hlength⟩
      exact ⟨hrefusal.ne_outOfRange, hlength⟩

theorem requestBounds {rx : ℕ} (hd : d.Bounded) (htx : d.tx = 0) (hrx : 1 ≤ rx) :
    RequestBounds crypto rx d := by
  have hlc := (d.header offsetLc).toNat_lt
  constructor
  · exact readsInRange (by decide)
  · have hfit : offsetCdata + (d.header offsetLc).toNat ≤ ioApduBufferSize := by
      simp only [offsetCdata, ioApduBufferSize]
      omega
    have happend := @readMessage_wp crypto _ d.apdu _ _ hfit hd.sign.msgLength
    apply happend.mono
    · rintro - c ⟨-, hlength, -⟩
      exact signingBounds hlength
    · rintro fault c ⟨hrefusal, hsame⟩
      exact ⟨hrefusal.ne_outOfRange, hsame⟩
  · apply (processApdu_wp crypto hd htx hrx).mono
    · rintro - d' (⟨owner, hprompted⟩ | ⟨-, -, rfl⟩)
      · rw [hprompted.tx, htx]
        decide
      · simp [dashboard, htx, ioApduBufferSize]
    · rintro fault d' (hthrown | ⟨rfl, rfl⟩)
      · rcases hthrown.verdict with ⟨hrefusal, hsame⟩ | ⟨rfl, -, hle⟩
        · refine ⟨hrefusal.ne_outOfRange, ?_⟩
          rw [hsame, htx]
          decide
        · refine ⟨by simp, ?_⟩
          simp only [ioApduBufferSize]
          omega
      · simp [resetting, htx, ioApduBufferSize]

/-- Every state the application reaches is within all bounds. -/
theorem reachable_inBounds (h : (app crypto).Reachable d) : d.InBounds crypto := by
  have hinv : d.Inv := reachable_inv h
  constructor
  · exact hinv.inRange
  · exact hinv.bounded.sign.msgLength
  · intro owner
    have hlength := (hinv.bounded.ui owner).msgLength
    simp only [displaySize]
    omega
  · intro owner
    have hindex := (hinv.bounded.ui owner).displayIndex
    simp only [displaySize] at hindex ⊢
    omega
  · intro owner
    have hout := hinv.bounded.output owner
    simp only [ioApduBufferSize]
    omega
  · intro hphase bytes haccepts
    have hbounded : (received bytes d).Bounded := ⟨hinv.bounded.sign, hinv.bounded.pk⟩
    exact requestBounds hbounded (hinv.tx hphase) haccepts.2.1

theorem reachable_inBounds_boot :
    (app (Suite.marking [] []).crypto).Reachable (boot (.zero _)) ∧
      (boot (.zero _)).InBounds (Suite.marking [] []).crypto := by
  have hreach : (app (Suite.marking [] []).crypto).Reachable (boot (.zero _)) :=
    reachable_of_start ⟨_, rfl⟩
  exact ⟨hreach, reachable_inBounds hreach⟩

end Bounds

end IostLedger
