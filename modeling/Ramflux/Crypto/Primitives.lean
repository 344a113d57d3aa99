import Ramflux.Protocol.Header

/-! Cryptographic primitives outside the repository, and derivations and commitments built on them. -/
namespace Ramflux

abbrev Key32 := Vector UInt8 32

abbrev Nonce12 := Vector UInt8 12

def sliceBytes (bytes : Bytes) (offset n : ℕ) : Vector UInt8 n :=
  Vector.ofFn fun i => bytes.getD (offset + i) 0

def zeroKey : Key32 := Vector.replicate 32 0

inductive CryptoError
  | protocol (source : ProtocolError)
  | randomUnavailable (detail : String)
  | hkdfFailed
  | aeadFailed
  | maxSkipExceeded
  | commitmentMismatch
  | keyCommitmentMismatch
  deriving DecidableEq

structure Primitives where
  x25519Public : Key32 → Key32
  diffieHellman : Key32 → Key32 → Key32
  hmacSha256 : Bytes → Bytes → Key32
  blake3 : Bytes → Key32
  blake3Keyed : Key32 → Bytes → Key32
  aeadEncrypt : Key32 → Nonce12 → Bytes → Bytes → Option Bytes
  aeadDecrypt : Key32 → Nonce12 → Bytes → Bytes → Option Bytes

/-- What the protocol relies on: both ends of an exchange compute one secret, and the cipher opens what
it sealed. -/
structure Primitives.Sound (P : Primitives) : Prop where
  diffieHellman_comm : ∀ a b,
    P.diffieHellman a (P.x25519Public b) = P.diffieHellman b (P.x25519Public a)
  aeadDecrypt_encrypt : ∀ key nonce aad msg sealed,
    P.aeadEncrypt key nonce aad msg = some sealed → P.aeadDecrypt key nonce aad sealed = some msg

def turned (key : Key32) : Key32 := key.set 0 (key[0] ^^^ 1)

/-- A toy instance for small inputs. The cipher writes its key in front of the message, and a
derivation gives the key and its first byte flipped. -/
def transparent : Primitives where
  x25519Public key := key
  diffieHellman a b := a.zipWith (· ^^^ ·) b
  hmacSha256 key msg :=
    if msg.length = 32 then sliceBytes msg 0 32
    else
      let key : Key32 := sliceBytes key 0 32
      if msg.getLast? = some 1 then turned key else key
  blake3 bytes := Vector.replicate 32 (UInt8.ofNat (bytes.map (·.toNat)).sum)
  blake3Keyed key _ := key
  aeadEncrypt key _ _ msg := some (key.toList ++ msg)
  aeadDecrypt key _ _ sealed := if sealed.take 32 = key.toList then some (sealed.drop 32) else none

theorem transparent_sound : transparent.Sound where
  diffieHellman_comm a b := by
    simp only [transparent]
    ext i hi
    simp [UInt8.xor_comm]
  aeadDecrypt_encrypt key nonce aad msg sealed h := by
    obtain rfl : key.toList ++ msg = sealed := by simpa [transparent] using h
    simp [transparent]

namespace Domain

def dmRatchetRoot := "ramflux.dm_ratchet.root.v1"
def dmRatchetChain := "ramflux.dm_ratchet.chain.v1"
def dmRatchetMessage := "ramflux.dm_ratchet.message.v1"
def committingAead := "ramflux.committing_aead.v1"
def committingAeadHeader := "ramflux.committing_aead.header.v1"
def committingAeadAd := "ramflux.committing_aead.ad.v1"
def frankingOpening := "ramflux.franking_opening.v1"

end Domain

structure X25519KeyPair where
  secret : Key32
  publicKey : Key32

namespace Primitives
variable (P : Primitives)

def keyPairFromSeed (seed : Key32) : X25519KeyPair := ⟨seed, P.x25519Public seed⟩

def blake3_256 (domainTag : String) (bytes : Bytes) : Key32 := P.blake3 (utf8 domainTag ++ bytes)

def blake3_256_base64url (domainTag : String) (bytes : Bytes) : String :=
  encodeBase64url (P.blake3_256 domainTag bytes).toList

def headerHashBase64url (kind : HeaderKind) (fields : List HeaderField) :
    Except ProtocolError String := do
  let bytes ← canonicalHeaderBytes kind fields
  pure (P.blake3_256_base64url Domain.committingAeadHeader bytes)

/-- The expand loop, one 32-byte block a round. The counter is a byte and must not run over. -/
def hkdfExpand (prk info : Bytes) : ℕ → Bytes → ℕ → Except CryptoError Bytes
  | 0, _, _ => .ok []
  | blocks + 1, previous, counter =>
    let block := (P.hmacSha256 prk (previous ++ info ++ [UInt8.ofNat counter])).toList
    if counter = 255 then .error .hkdfFailed
    else do
      let rest ← hkdfExpand prk info blocks block (counter + 1)
      pure (block ++ rest)

def hkdfSha256 (salt ikm info : Bytes) (length : ℕ) : Except CryptoError Bytes := do
  let prk := (P.hmacSha256 salt ikm).toList
  let blocks ← P.hkdfExpand prk info ((length + 31) / 32) [] 1
  pure (blocks.take length)

theorem hkdfExpand_isOk (prk info : Bytes) (blocks : ℕ) (previous : Bytes) (counter : ℕ)
    (h : counter + blocks ≤ 255) : ∃ out, P.hkdfExpand prk info blocks previous counter = .ok out := by
  induction blocks generalizing previous counter with
  | zero => exact ⟨[], rfl⟩
  | succ blocks ih =>
    let block := (P.hmacSha256 prk (previous ++ info ++ [UInt8.ofNat counter])).toList
    obtain ⟨out, hout⟩ := ih block (counter + 1) (by omega)
    refine ⟨block ++ out, ?_⟩
    simp only [hkdfExpand]
    rw [if_neg (by omega), hout]
    rfl

theorem hkdfSha256_isOk (salt ikm info : Bytes) {length : ℕ} (h : length ≤ 8128) :
    ∃ out, P.hkdfSha256 salt ikm info length = .ok out := by
  obtain ⟨out, hout⟩ := P.hkdfExpand_isOk (P.hmacSha256 salt ikm).toList info ((length + 31) / 32) [] 1
    (by omega)
  refine ⟨out.take length, ?_⟩
  simp only [hkdfSha256, hout]
  rfl

end Primitives

structure FrankingCommitmentInput where
  plaintext : Bytes
  senderDeviceIdHash : Bytes
  messageEventId : String
  canonicalHeaderBytes : Bytes
  associatedData : Bytes
  ciphertext : Bytes
  openingKey : Key32
  commitmentKey : Key32

structure FrankingCommitment where
  plaintextHash : String
  ciphertextHash : String
  headerHash : String
  associatedDataHash : String
  keyCommitment : String
  frankingCommitment : String
  commitment : String

def Primitives.frankingCommitment (P : Primitives) (input : FrankingCommitmentInput) :
    FrankingCommitment :=
  let ciphertextHash := P.blake3_256_base64url Domain.committingAead input.ciphertext
  let headerHash := P.blake3_256_base64url Domain.committingAeadHeader input.canonicalHeaderBytes
  let associatedDataHash := P.blake3_256_base64url Domain.committingAeadAd input.associatedData
  let keyCommitment := P.blake3Keyed input.commitmentKey
    (utf8 Domain.committingAead ++ input.senderDeviceIdHash ++ utf8 input.messageEventId ++
      utf8 headerHash ++ utf8 associatedDataHash ++ utf8 ciphertextHash)
  let frankingCommitment := P.blake3Keyed input.openingKey
    (utf8 Domain.frankingOpening ++ input.plaintext ++ input.senderDeviceIdHash ++
      utf8 input.messageEventId ++ utf8 headerHash ++ utf8 associatedDataHash)
  { plaintextHash := P.blake3_256_base64url Domain.committingAead input.plaintext
    ciphertextHash, headerHash, associatedDataHash
    keyCommitment := encodeBase64url keyCommitment.toList
    frankingCommitment := encodeBase64url frankingCommitment.toList
    commitment := P.blake3_256_base64url Domain.committingAead
      (utf8 Domain.committingAead ++ keyCommitment.toList ++ frankingCommitment.toList) }

end Ramflux
