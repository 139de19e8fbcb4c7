import IostLedger.Bip32

/-! `iost.c` over the cryptographic calls of the operating system. Each call returns a
value or throws an exception of the SDK; the memory areas that hold key material are
explicit parts of the frames. -/
namespace IostLedger
open Memory Exec

/-- The calls into the operating system. The areas a call fills are part of its result. -/
structure Crypto where
  /-- `os_perso_derive_node_bip32_seed_key`. -/
  deriveNode : List UInt32 → Except SdkException (Buffer ed25519KeySize)
  /-- `cx_ecfp_init_private_key`. -/
  initPrivateKey : Buffer ed25519KeySize → Except SdkException (ℤ × Buffer ed25519KeySize)
  /-- `cx_ecfp_init_public_key` without a raw key. -/
  initPublicKey : Except SdkException ℤ
  /-- `cx_ecfp_generate_pair` keeping the private key. -/
  generatePair : Buffer ed25519KeySize → Except SdkException (ℤ × Buffer 65)
  /-- `cx_eddsa_sign` into an area of 64 bytes. -/
  eddsaSign : Buffer ed25519KeySize → Bytes → Except SdkException (Block (2 * ed25519KeySize))
  /-- `cx_sha3_init` for 256 bits. -/
  sha3Init : Except SdkException ℤ
  /-- `cx_hash` without `CX_LAST`. -/
  sha3Update : Bytes → Except SdkException ℤ
  /-- `cx_hash` with `CX_LAST`, of all bytes hashed before. -/
  sha3Final : Bytes → Except SdkException (Block ed25519KeySize)

/-- The result of a call into the operating system. -/
def syscall {α : Type} : Except SdkException α → Checked α
  | .ok a => .ok a
  | .error e => .error (.thrown e.code)

@[simp] theorem syscall_ok {α : Type} (a : α) : syscall (.ok a) = .ok a := rfl

/-- The locals of `iost_derive_keypair` with its two optional outputs. -/
structure KeyFrame where
  privateKey : Buffer ed25519KeySize
  sK : Buffer ed25519KeySize
  pK : Buffer 65
  secretKey : Option (Buffer ed25519KeySize)
  publicKey : Option (Buffer 65)

/-- The locals on entry. -/
def KeyFrame.enter (secretKey : Option (Buffer ed25519KeySize)) (publicKey : Option (Buffer 65)) :
    KeyFrame := ⟨.zero _, .zero _, .zero _, secretKey, publicKey⟩

/-- `*psk`. -/
def KeyFrame.psk (f : KeyFrame) : Buffer ed25519KeySize := f.secretKey.getD f.sK

def KeyFrame.setPsk (key : Buffer ed25519KeySize) (f : KeyFrame) : KeyFrame :=
  if f.secretKey.isSome then { f with secretKey := some key } else { f with sK := key }

@[simp] theorem KeyFrame.psk_setPsk (key : Buffer ed25519KeySize) (f : KeyFrame) :
    (f.setPsk key).psk = key := by
  cases h : f.secretKey <;> simp [setPsk, psk, h]

/-- The point of `*ppk`. -/
def KeyFrame.setPpk (point : Buffer 65) (f : KeyFrame) : KeyFrame :=
  if f.publicKey.isSome then { f with publicKey := some point } else { f with pK := point }

/-- The three `os_memset` calls of the path that generates the pair. -/
def KeyFrame.wipe (f : KeyFrame) : KeyFrame :=
  { f with
    privateKey := .zero _
    sK := if f.secretKey.isNone then .zero _ else f.sK
    pK := if f.publicKey.isNone then .zero _ else f.pK }

/-- `iost_derive_keypair`; the result is a `uint16_t`. -/
def iostDeriveKeypair (crypto : Crypto) (bip32Path : List UInt32) : EStateM Fault KeyFrame ℕ := do
  let node ← ofChecked (syscall (crypto.deriveNode bip32Path))
  modify fun f => { f with privateKey := node }
  let (initialised, key) ← ofChecked (syscall (crypto.initPrivateKey node))
  modify (KeyFrame.setPsk key)
  if 0 < initialised then do
    let initialised ← ofChecked (syscall crypto.initPublicKey)
    if initialised = 0 then do
      let f ← get
      let (result, point) ← ofChecked (syscall (crypto.generatePair f.psk))
      modify (KeyFrame.setPpk point)
      modify KeyFrame.wipe
      pure (result % 2 ^ 16).toNat
    else pure 0xFFFF
  else pure 0xFFFF

/-- The local key of `iost_sign`, and the frame its callee leaves on the stack. -/
structure SignFrame where
  sk : Buffer ed25519KeySize
  callee : KeyFrame

def SignFrame.enter : SignFrame := ⟨.zero _, .enter (some (.zero _)) none⟩

/-- The call of `iost_derive_keypair` with `&sk` as its secret key. -/
def SignFrame.derive (crypto : Crypto) (bip32Path : List UInt32) : EStateM Fault SignFrame ℕ :=
  onPart (fun f => KeyFrame.enter (some f.sk) none)
    (fun callee f => { f with sk := callee.psk, callee := callee })
    (iostDeriveKeypair crypto bip32Path)

/-- `iost_sign` of the bytes from `trxHash` on, whose length arrives as a `uint8_t`. The
result is what `cx_eddsa_sign` writes to `signature`. -/
def iostSign {n : ℕ} (crypto : Crypto) (bip32Path : List UInt32) (body : Buffer n) (trxHash : ℕ)
    (hashLength : UInt8) : EStateM Fault SignFrame Bytes := do
  if hashLength = 0 then pure []
  else do
    let result ← SignFrame.derive crypto bip32Path
    if result = 0 then do
      let f ← get
      let data ← ofChecked (inRange (body.read? trxHash hashLength.toNat))
      let signature ← ofChecked (syscall (crypto.eddsaSign f.sk data))
      modify fun f => { f with sk := .zero _ }
      pure signature.val
    else pure []

/-- `iost_hash_bytes`; the bytes written to `hash_out`. -/
def iostHashBytes (crypto : Crypto) (inBytes : Bytes) : Checked Bytes := do
  if (← syscall crypto.sha3Init) ≠ 0 then do
    if (← syscall (crypto.sha3Update inBytes)) = 0 then do
      let hash ← syscall (crypto.sha3Final inBytes)
      pure hash.val
    else pure []
  else pure []

/-- `bytes_out[i]` before the sign bit is set. -/
def pointByte (w : Buffer 65) (i : ℕ) : UInt8 := w.bytes.getD (ed25519KeySize * 2 - i) 0

/-- `iost_extract_bytes_from_public_key`. -/
def iostExtractBytesFromPublicKey (w : Buffer 65) : Bytes :=
  let bytes := (List.range ed25519KeySize).map (pointByte w)
  if w.bytes.getD ed25519KeySize 0 &&& 1 = 1 then
    bytes.set (ed25519KeySize - 1) (pointByte w (ed25519KeySize - 1) ||| 0x80)
  else bytes

/-! The calls when they succeed: functions of their inputs. -/

/-- Cryptographic functions, and the success values the calls return. -/
structure Suite where
  node : List UInt32 → Buffer ed25519KeySize
  key : Buffer ed25519KeySize → Buffer ed25519KeySize
  point : Buffer ed25519KeySize → Buffer 65
  sign : Buffer ed25519KeySize → Bytes → { signature : Bytes // signature.length = 64 }
  sha3 : Bytes → { hash : Bytes // hash.length = 32 }
  initPrivateKeyResult : { result : ℤ // 0 < result }
  generatePairResult : { result : ℤ // result % 2 ^ 16 = 0 }
  sha3InitResult : { result : ℤ // result ≠ 0 }

namespace Suite

/-- The operating system that answers every call with the functions of the suite. -/
def crypto (s : Suite) : Crypto where
  deriveNode path := .ok (s.node path)
  initPrivateKey node := .ok (s.initPrivateKeyResult, s.key node)
  initPublicKey := .ok 0
  generatePair key := .ok (s.generatePairResult, s.point key)
  eddsaSign key data := .ok ⟨(s.sign key data).val, (s.sign key data).property.le⟩
  sha3Init := .ok s.sha3InitResult
  sha3Update _ := .ok 0
  sha3Final data := .ok ⟨(s.sha3 data).val, (s.sha3 data).property.le⟩

/-- The private key of a path. -/
def secret (s : Suite) (path : List UInt32) : Buffer ed25519KeySize := s.key (s.node path)

/-- The signature of `message` under the key of `path`. -/
def signature (s : Suite) (path : List UInt32) (message : Bytes) : Bytes :=
  (s.sign (s.secret path) message).val

/-- The point of the public key of `path`. -/
def publicPoint (s : Suite) (path : List UInt32) : Buffer 65 := s.point (s.secret path)

def hash (s : Suite) (message : Bytes) : Bytes := (s.sha3 message).val

variable (s : Suite)

@[simp] theorem signature_length (path : List UInt32) (message : Bytes) :
    (s.signature path message).length = 64 := (s.sign _ _).property

@[simp] theorem hash_length (message : Bytes) : (s.hash message).length = 32 :=
  (s.sha3 message).property

theorem iostDeriveKeypair_run (path : List UInt32) (f : KeyFrame) :
    (iostDeriveKeypair s.crypto path).run f =
      .ok 0 ((({ f with privateKey := s.node path }.setPsk (s.secret path)).setPpk
        (s.publicPoint path)).wipe) := by
  have hpair := s.generatePairResult.property
  simp only [iostDeriveKeypair, crypto, syscall_ok, EStateM.run_bind, run_ofChecked_ok,
    EStateM.run_modify, s.initPrivateKeyResult.property, if_true, EStateM.run_get,
    EStateM.run_pure, hpair, KeyFrame.psk_setPsk]
  rfl

/-- The frame `iost_sign` leaves when it signs. -/
theorem iostSign_run {n : ℕ} (path : List UInt32) (body : Buffer n) (trxHash : ℕ)
    (hashLength : UInt8) (f : SignFrame) (hbody : trxHash + hashLength.toNat ≤ n) :
    ∃ f', (iostSign s.crypto path body trxHash hashLength).run f =
      .ok (if hashLength = 0 then []
        else s.signature path ((body.bytes.drop trxHash).take hashLength.toNat)) f' := by
  by_cases h : hashLength = 0
  · exact ⟨f, by simp [iostSign, h]⟩
  · simp only [iostSign, if_neg h, SignFrame.derive, EStateM.run_bind, run_onPart,
      iostDeriveKeypair_run, Buffer.read?_of_le hbody, EStateM.run_get, if_true, inRange_some,
      run_ofChecked_ok]
    exact ⟨_, rfl⟩

theorem iostHashBytes_eq (message : Bytes) :
    iostHashBytes s.crypto message = .ok (s.hash message) := by
  have hinit := s.sha3InitResult.property
  simp only [iostHashBytes, crypto, syscall_ok, bind, Except.bind, if_pos hinit, if_true]
  rfl

/-! A suite that keeps the keys of different paths apart. -/

/-- The encoded path as its own node and key, a given signature, and the start of a message
as its hash. -/
def ofSign
    (sign : Buffer ed25519KeySize → Bytes → { signature : Bytes // signature.length = 64 }) :
    Suite where
  node path := (Buffer.zero _).splice 0 (bufferFromBip32 path)
  key node := node
  point key := ⟨4 :: key.bytes ++ key.bytes, by simp [ed25519KeySize]⟩
  sign := sign
  sha3 message := ⟨(message ++ List.replicate 32 0).take 32, by simp⟩
  initPrivateKeyResult := ⟨1, by decide⟩
  generatePairResult := ⟨0, by decide⟩
  sha3InitResult := ⟨1, by decide⟩

/-- Every signature is the same, but for the one of `message` under the key of `path`. -/
def marking (path : List UInt32) (message : Bytes) : Suite :=
  ofSign fun key data =>
    ⟨List.replicate 64 (if key = (Buffer.zero _).splice 0 (bufferFromBip32 path) ∧ data = message
      then 1 else 0), List.length_replicate⟩

theorem marking_secret_inj {path path' path₀ : List UInt32} {m : Bytes} (hp : ValidPath path)
    (hp' : ValidPath path')
    (h : (marking path₀ m).secret path = (marking path₀ m).secret path') : path = path' := by
  have hfit (q : List UInt32) (hq : ValidPath q) :
      0 + (bufferFromBip32 q).length ≤ ed25519KeySize := by
    have hle := hq.le
    rw [bufferFromBip32_length]
    simp only [ed25519KeySize]
    omega
  have hbytes := congrArg Buffer.bytes h
  change ((Buffer.zero _).splice 0 (bufferFromBip32 path)).bytes =
    ((Buffer.zero _).splice 0 (bufferFromBip32 path')).bytes at hbytes
  rw [Buffer.splice_bytes (hfit path hp), Buffer.splice_bytes (hfit path' hp'), List.take_zero,
    List.nil_append, List.nil_append] at hbytes
  exact (bufferFromBip32_append_inj hp hp' hbytes).1

/-- Abstract signatures under different keys or of different messages need not agree. -/
theorem exists_signature_ne {path path' : List UInt32} {m m' : Bytes} (hp : ValidPath path)
    (hp' : ValidPath path') (h : ¬ (path = path' ∧ m = m')) :
    ∃ s : Suite, s.signature path m ≠ s.signature path' m' := by
  refine ⟨marking path m, fun heq => h ?_⟩
  have hmark (q : List UInt32) (data : Bytes) : (marking path m).signature q data =
      List.replicate 64 (if (marking path m).secret q = (marking path m).secret path ∧ data = m
        then 1 else 0) := rfl
  rw [hmark path m, hmark path' m', if_pos ⟨rfl, rfl⟩, List.replicate_inj] at heq
  have hsame : (marking path m).secret path' = (marking path m).secret path ∧ m' = m := by
    by_contra hne
    rw [if_neg hne] at heq
    exact absurd (heq.2.resolve_left (by decide)) (by decide)
  exact ⟨(marking_secret_inj hp' hp hsame.1).symm, hsame.2.symm⟩

end Suite
end IostLedger
