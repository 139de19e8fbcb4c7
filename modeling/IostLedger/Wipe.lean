import IostLedger.Iost

/-! The key material in the locals of `iost.c` when a key operation is left: which of it is
overwritten, for every way the calls of the operating system can end. -/
namespace IostLedger
open Memory Exec

/-- How the calls of a key operation end: with the value returned, or by an exception. -/
structure Outcomes where
  deriveNode : Except SdkException Unit
  initPrivateKey : Except SdkException ℤ
  initPublicKey : Except SdkException ℤ
  generatePair : Except SdkException ℤ
  eddsaSign : Except SdkException (Block (2 * ed25519KeySize))

/-- What the calls hand out: the node of a path, and the key and the point made from it. -/
structure Secrets where
  node : List UInt32 → Buffer ed25519KeySize
  key : Buffer ed25519KeySize → Buffer ed25519KeySize
  point : Buffer ed25519KeySize → Buffer 65

/-- The operating system with these outcomes. A call that returns has filled its area, also
when the value it returns is a failure. -/
def Outcomes.crypto (o : Outcomes) (secrets : Secrets) : Crypto where
  deriveNode path := o.deriveNode.map fun _ => secrets.node path
  initPrivateKey node := o.initPrivateKey.map fun result => (result, secrets.key node)
  initPublicKey := o.initPublicKey
  generatePair key := o.generatePair.map fun result => (result, secrets.point key)
  eddsaSign _ _ := o.eddsaSign
  sha3Init := .ok 0
  sha3Update _ := .ok 0
  sha3Final _ := .ok ⟨[], by simp⟩

/-- `private_key` and the local `s_k` hold zeros. -/
structure KeyFrame.Wiped (f : KeyFrame) : Prop where
  privateKey : f.privateKey = .zero _
  sK : f.sK = .zero _

/-- `sk` holds zeros, and so does what the callee has left. -/
structure SignFrame.Wiped (f : SignFrame) : Prop where
  sk : f.sk = .zero _
  callee : f.callee.Wiped

/-- `iost_derive_keypair` without a `secret_key` output leaves no key material, whatever the
path and the secrets. -/
def DeriveWipes (o : Outcomes) : Prop :=
  ∀ secrets path publicKey, Wp (iostDeriveKeypair (o.crypto secrets) path)
    (fun _ f => f.Wiped) (fun _ f => f.Wiped) (.enter none publicKey)

/-- `iost_sign` leaves no key material, whatever the path, the secrets and the bytes. -/
def SignWipes (o : Outcomes) (hashLength : UInt8) : Prop :=
  ∀ secrets path (n : ℕ) (body : Buffer n) trxHash, trxHash + hashLength.toNat ≤ n →
    Wp (iostSign (o.crypto secrets) path body trxHash hashLength)
      (fun _ f => f.Wiped) (fun _ f => f.Wiped) .enter

/-- The calls up to the generation of the pair: no node, or a pair. -/
def Outcomes.PairOrNothing (o : Outcomes) : Prop :=
  (∃ e, o.deriveNode = .error e) ∨
    (∃ k, o.initPrivateKey = .ok k ∧ 0 < k) ∧ o.initPublicKey = .ok 0 ∧
      ∃ r, o.generatePair = .ok r

/-- No node, or a pair and a signature, each with the value of a success. -/
def Outcomes.SignatureOrNothing (o : Outcomes) : Prop :=
  (∃ e, o.deriveNode = .error e) ∨
    (∃ k, o.initPrivateKey = .ok k ∧ 0 < k) ∧ o.initPublicKey = .ok 0 ∧
      (∃ r, o.generatePair = .ok r ∧ r % 2 ^ 16 = 0) ∧ ∃ signature, o.eddsaSign = .ok signature

section Derive
variable {o : Outcomes} {secrets : Secrets} {path : List UInt32} {f : KeyFrame}

/-- How `iost_derive_keypair` ends on the frame with the node and the key stored. -/
def stored (secrets : Secrets) (path : List UInt32) (f : KeyFrame) : KeyFrame :=
  { f with privateKey := secrets.node path }.setPsk (secrets.key (secrets.node path))

theorem derive_noNode {e : SdkException} (h : o.deriveNode = .error e) :
    (iostDeriveKeypair (o.crypto secrets) path).run f = .error (.thrown e.code) f := by
  simp [iostDeriveKeypair, Outcomes.crypto, h, Except.map, syscall, EStateM.run_bind]

/-- The pair has been generated: the locals are wiped. -/
theorem derive_pair {k r : ℤ} (hnode : o.deriveNode = .ok ()) (hkey : o.initPrivateKey = .ok k)
    (hk : 0 < k) (hpublic : o.initPublicKey = .ok 0) (hpair : o.generatePair = .ok r) :
    (iostDeriveKeypair (o.crypto secrets) path).run f =
      .ok (r % 2 ^ 16).toNat (((stored secrets path f).setPpk
        (secrets.point (stored secrets path f).psk)).wipe) := by
  simp only [iostDeriveKeypair, Outcomes.crypto, hnode, hkey, hpublic, hpair, Except.map,
    syscall_ok, EStateM.run_bind, run_ofChecked_ok, EStateM.run_modify, if_pos hk, if_true,
    EStateM.run_get, EStateM.run_pure, stored]

@[simp] theorem KeyFrame.setPsk_privateKey (key : Buffer ed25519KeySize) (f : KeyFrame) :
    (f.setPsk key).privateKey = f.privateKey := by
  unfold KeyFrame.setPsk
  split <;> rfl

/-- Between the node and the pair every way out leaves the node in `private_key`. -/
theorem derive_between (hnode : o.deriveNode = .ok ()) (hnot : ¬ o.PairOrNothing) :
    Wp (iostDeriveKeypair (o.crypto secrets) path)
      (fun result f' => result = 0xFFFF ∧ f'.privateKey = secrets.node path)
      (fun _ f' => f'.privateKey = secrets.node path) f := by
  simp only [iostDeriveKeypair, Outcomes.crypto, hnode, Except.map, syscall_ok, wp_bind,
    wp_ofChecked_ok, wp_modify]
  cases hkey : o.initPrivateKey with
  | error e => simp [syscall, wp_ofChecked]
  | ok k =>
    simp only [syscall_ok, wp_ofChecked_ok, wp_ite, wp_bind, wp_pure, wp_get,
      KeyFrame.setPsk_privateKey, and_self, implies_true, and_true]
    intro hk
    cases hpublic : o.initPublicKey with
    | error e => simp [syscall, wp_ofChecked]
    | ok p =>
      simp only [syscall_ok, wp_ofChecked_ok, KeyFrame.setPsk_privateKey, and_self, implies_true,
        and_true]
      rintro rfl
      cases hpair : o.generatePair with
      | error e => simp [syscall, wp_ofChecked]
      | ok r => exact absurd (Or.inr ⟨⟨k, hkey, hk⟩, hpublic, r, hpair⟩) hnot

/-- The pair leaves zeros in both locals, whichever areas the caller has given. -/
theorem wipe_enter (secretKey : Option (Buffer ed25519KeySize)) (point : Buffer 65)
    (publicKey : Option (Buffer 65)) :
    (((stored secrets path (.enter secretKey publicKey)).setPpk point).wipe).Wiped := by
  cases secretKey <;> cases publicKey <;>
    exact ⟨by simp [KeyFrame.wipe], by
      simp [stored, KeyFrame.enter, KeyFrame.setPsk, KeyFrame.setPpk, KeyFrame.wipe]⟩

theorem derive_wiped (h : o.PairOrNothing) : DeriveWipes o := by
  intro secrets path publicKey
  cases hnode : o.deriveNode with
  | error e =>
    rw [wp_of_run_error (derive_noNode hnode)]
    exact ⟨rfl, rfl⟩
  | ok u =>
    rcases h with ⟨e, herror⟩ | ⟨⟨k, hkey, hk⟩, hpublic, r, hpair⟩
    · rw [hnode] at herror
      cases herror
    · rw [wp_of_run_ok (derive_pair hnode hkey hk hpublic hpair)]
      exact wipe_enter none _ publicKey

end Derive

/-- Secrets that are not zero. -/
def Secrets.ones : Secrets where
  node _ := ⟨List.replicate ed25519KeySize 1, List.length_replicate⟩
  key node := node
  point _ := .zero _

theorem Secrets.ones_ne_zero (path : List UInt32) : Secrets.ones.node path ≠ .zero _ := by
  intro h
  have hbytes := congrArg Buffer.bytes h
  simp [Secrets.ones, ed25519KeySize] at hbytes

section Leftover
variable {o : Outcomes}

theorem deriveNode_ok (h : ¬ ∃ e, o.deriveNode = .error e) : o.deriveNode = .ok () := by
  cases hd : o.deriveNode with
  | ok u => rfl
  | error e => exact absurd ⟨e, hd⟩ h

theorem pairOrNothing_of_wipes (h : DeriveWipes o) : o.PairOrNothing := by
  by_contra hnot
  have hnode := deriveNode_ok fun hd => hnot (Or.inl hd)
  apply (derive_between hnode hnot).not_both (h Secrets.ones [] none)
  · rintro result f ⟨-, hleft⟩ hwiped
    exact Secrets.ones_ne_zero [] (hleft.symm.trans hwiped.privateKey)
  · rintro fault f hleft hwiped
    exact Secrets.ones_ne_zero [] (hleft.symm.trans hwiped.privateKey)

/-- The frame of `iost_sign` behind a generated pair: the key is in `sk`. -/
def paired (secrets : Secrets) (path : List UInt32) (f : SignFrame) : SignFrame :=
  let callee := stored secrets path (.enter (some f.sk) none)
  { f with
    sk := secrets.key (secrets.node path)
    callee := (callee.setPpk (secrets.point callee.psk)).wipe }

theorem signDerive_pair {secrets : Secrets} {path : List UInt32} {f : SignFrame} {k r : ℤ}
    (hnode : o.deriveNode = .ok ()) (hkey : o.initPrivateKey = .ok k) (hk : 0 < k)
    (hpublic : o.initPublicKey = .ok 0) (hpair : o.generatePair = .ok r) :
    (SignFrame.derive (o.crypto secrets) path).run f =
      .ok (r % 2 ^ 16).toNat (paired secrets path f) := by
  rw [SignFrame.derive, run_onPart, derive_pair hnode hkey hk hpublic hpair]
  rfl

theorem sign_wiped {hashLength : UInt8} (h : hashLength = 0 ∨ o.SignatureOrNothing) :
    SignWipes o hashLength := by
  intro secrets path n body trxHash hfit
  by_cases hzero : hashLength = 0
  · simp only [iostSign, if_pos hzero, wp_pure]
    exact ⟨rfl, rfl, rfl⟩
  have h := h.resolve_left hzero
  simp only [iostSign, if_neg hzero, wp_bind]
  cases hnode : o.deriveNode with
  | error e =>
    have hrun : (SignFrame.derive (o.crypto secrets) path).run .enter =
        .error (.thrown e.code) .enter := by
      rw [SignFrame.derive, run_onPart, derive_noNode hnode]
      rfl
    rw [wp_of_run_error hrun]
    exact ⟨rfl, rfl, rfl⟩
  | ok u =>
    rcases h with ⟨e, herror⟩ | ⟨⟨k, hkey, hk⟩, hpublic, ⟨r, hpair, hr⟩, signature, hsign⟩
    · rw [hnode] at herror
      cases herror
    · rw [wp_of_run_ok (signDerive_pair hnode hkey hk hpublic hpair), hr]
      have heddsa (key : Buffer ed25519KeySize) (data : Bytes) :
          (o.crypto secrets).eddsaSign key data = .ok signature := hsign
      simp only [Int.toNat_zero, if_true, wp_bind, wp_get, Buffer.read?_of_le hfit, inRange_some,
        wp_ofChecked_ok, heddsa, syscall_ok, wp_modify, wp_pure]
      exact ⟨rfl, wipe_enter (some _) _ none⟩

theorem signatureOrNothing_of_wipes {hashLength : UInt8} (hpos : hashLength ≠ 0)
    (h : SignWipes o hashLength) : o.SignatureOrNothing := by
  by_contra hnot
  have hnode := deriveNode_ok fun hd => hnot (Or.inl hd)
  have hwiped := h Secrets.ones [] hashLength.toNat (.zero _) 0 (by omega)
  simp only [iostSign, if_neg hpos, wp_bind] at hwiped
  by_cases hpairs : o.PairOrNothing
  · rcases hpairs with hd | ⟨⟨k, hkey, hk⟩, hpublic, r, hpair⟩
    · exact hnot (Or.inl hd)
    rw [wp_of_run_ok (signDerive_pair hnode hkey hk hpublic hpair)] at hwiped
    have hkept : ¬ (paired Secrets.ones [] .enter).Wiped := fun hw =>
      Secrets.ones_ne_zero [] hw.sk
    by_cases hr : r % 2 ^ 16 = 0
    · cases hsign : o.eddsaSign with
      | ok signature =>
        exact hnot (Or.inr ⟨⟨k, hkey, hk⟩, hpublic, ⟨r, hpair, hr⟩, signature, hsign⟩)
      | error e =>
        have heddsa (key : Buffer ed25519KeySize) (data : Bytes) :
            (o.crypto Secrets.ones).eddsaSign key data = .error e := hsign
        have hread : (Buffer.zero hashLength.toNat).read? 0 hashLength.toNat = some _ :=
          Buffer.read?_of_le (by omega)
        rw [hr] at hwiped
        simp only [Int.toNat_zero, if_true, wp_bind, wp_get, hread, inRange_some,
          wp_ofChecked_ok, heddsa] at hwiped
        exact hkept ((wp_ofChecked _).mp hwiped |>.2 _ rfl)
    · have hne : ¬ (r % 2 ^ 16).toNat = 0 := by omega
      rw [if_neg hne, wp_pure] at hwiped
      exact hkept hwiped
  · have hleft : Wp (SignFrame.derive (o.crypto Secrets.ones) [])
        (fun result f => result = 0xFFFF ∧ f.callee.privateKey = Secrets.ones.node [])
        (fun _ f => f.callee.privateKey = Secrets.ones.node []) .enter := by
      rw [SignFrame.derive, wp_onPart]
      exact derive_between hnode hpairs
    apply hleft.not_both hwiped
    · rintro result f ⟨rfl, hkey⟩ hw
      rw [if_neg (by decide), wp_pure] at hw
      exact Secrets.ones_ne_zero [] (hkey.symm.trans hw.callee.privateKey)
    · rintro fault f hkey hw
      exact Secrets.ones_ne_zero [] (hkey.symm.trans hw.callee.privateKey)

end Leftover

/-- Key material is wiped exactly where every call the operation reaches succeeds, or where
no node was derived at all: both functions wipe on their innermost path only. -/
theorem wipes_iff (o : Outcomes) (hashLength : UInt8) :
    (DeriveWipes o ↔ o.PairOrNothing) ∧
      (SignWipes o hashLength ↔ hashLength = 0 ∨ o.SignatureOrNothing) := by
  constructor
  · exact ⟨pairOrNothing_of_wipes, derive_wiped⟩
  · constructor
    · intro h
      by_cases hzero : hashLength = 0
      · exact Or.inl hzero
      · exact Or.inr (signatureOrNothing_of_wipes hzero h)
    · exact sign_wiped

/-- The signature call throws: the key stays in `sk`. -/
theorem wipes_fails : ¬ ∀ (o : Outcomes) (hashLength : UInt8),
    DeriveWipes o ∧ SignWipes o hashLength := by
  intro h
  let o : Outcomes := ⟨.ok (), .ok 1, .ok 0, .ok 0, .error .security⟩
  rcases signatureOrNothing_of_wipes (by decide) (h o 1).2 with ⟨e, he⟩ | ⟨-, -, -, signature, hs⟩
  · cases he
  · cases hs

end IostLedger
