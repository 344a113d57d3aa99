import Ramflux.Crypto.Primitives

/-! Direct-message sessions: key derivation, sending, and receiving with skipped keys. Counters are
saturating 64-bit values kept as `ℕ`. -/
namespace Ramflux
open OrdMap Std.ExtTreeMap Option Domain

def roleInitiatorSend : Bytes := utf8 "initiator_send"
def roleRecipientSend : Bytes := utf8 "recipient_send"
def directionSend : Bytes := utf8 "send"
def directionRecv : Bytes := utf8 "recv"

structure RatchetContextParts where
  sessionId : String
  localDeviceIdHash : Key32
  remoteDeviceIdHash : Key32
  deviceEpochLocal : ℕ
  deviceEpochRemote : ℕ
  dhRatchetStep : ℕ

structure MessageKeys where
  aeadKey : Key32
  nonce : Nonce12
  commitmentKey : Key32
  openingKey : Key32
  deriving DecidableEq

structure DmSession where
  sessionId : String
  bootstrapTranscriptHash : Key32
  rootKey : Key32
  sendingChainKey : Key32
  receivingChainKey : Key32
  sendCounter : ℕ
  receiveCounter : ℕ
  dhsPrivate : Option Key32
  dhsPublic : Option Key32
  dhrPublic : Option Key32
  senderDeviceIdHash : Key32
  recipientDeviceIdHash : Key32
  deviceEpochLocal : ℕ
  deviceEpochRemote : ℕ
  dhRatchetStep : ℕ
  isInitiatorSide : Bool
  previousSendingChainLength : ℕ
  maxSkip : ℕ
  skippedMessageKeys : OrdMap String MessageKeys
  skippedMessageSecrets : OrdMap String Key32
  skippedOrder : List String

structure DmCiphertext where
  sessionId : String
  counter : UInt64
  nonce : Nonce12
  ciphertext : Bytes
  ratchetPublicKey : Option Key32
  previousChainLength : UInt64
  senderDeviceIdHash : Key32
  recipientDeviceIdHash : Key32
  deviceEpoch : UInt64
  messageEventId : String
  canonicalHeaderBytes : Bytes
  headerHash : String
  keyCommitment : String
  frankingCommitment : String
  commitment : String
  ciphertextHash : String

structure DmDecryptionOutput where
  plaintext : Bytes
  openingKey : Key32
  commitmentKey : Key32
  deriving DecidableEq

structure DmHeader where
  ratchetSessionId : String
  senderDeviceIdHash : Key32
  recipientDeviceIdHash : Key32
  dhRatchetPublic : Key32
  pn : ℕ
  n : ℕ
  deviceEpoch : ℕ
  messageEventId : String

namespace DmHeader

def fields (h : DmHeader) : List HeaderField :=
  [⟨1, .string h.ratchetSessionId⟩, ⟨2, .bytes32 h.senderDeviceIdHash⟩,
    ⟨3, .bytes32 h.recipientDeviceIdHash⟩, ⟨4, .bytes32 h.dhRatchetPublic⟩, ⟨5, .u64 h.pn⟩,
    ⟨6, .u64 h.n⟩, ⟨7, .u64 h.deviceEpoch⟩, ⟨8, .string h.messageEventId⟩]

def canonicalHeaderBytes (h : DmHeader) : Except CryptoError Bytes :=
  (Ramflux.canonicalHeaderBytes .dmMessage h.fields).mapError .protocol

end DmHeader

/-- The header a receiver rebuilds from the fields of a message. -/
def DmCiphertext.header (c : DmCiphertext) : DmHeader where
  ratchetSessionId := c.sessionId
  senderDeviceIdHash := c.senderDeviceIdHash
  recipientDeviceIdHash := c.recipientDeviceIdHash
  dhRatchetPublic := c.ratchetPublicKey.getD zeroKey
  pn := c.previousChainLength.toNat
  n := c.counter.toNat
  deviceEpoch := c.deviceEpoch.toNat
  messageEventId := c.messageEventId

/-- Canonical bytes of the rebuilt header, once their hash is the one the message carries. -/
def DmCiphertext.checkedHeader (P : Primitives) (c : DmCiphertext) : Except CryptoError Bytes := do
  let canonical ← c.header.canonicalHeaderBytes
  let computed ← (P.headerHashBase64url .dmMessage c.header.fields).mapError CryptoError.protocol
  if computed ≠ c.headerHash then throw CryptoError.commitmentMismatch
  pure canonical

def skippedKeyId (ratchetPublicKey : Key32) (counter : ℕ) : String :=
  encodeBase64url ratchetPublicKey.toList ++ ":" ++ toString counter

def dmHeaderAssociatedData (associatedData canonicalHeader : Bytes) : Bytes :=
  associatedData ++ canonicalHeader

def transcriptContext (parts : RatchetContextParts) (roleTag : Bytes) : Bytes :=
  utf8 parts.sessionId ++ parts.localDeviceIdHash.toList ++ parts.remoteDeviceIdHash.toList ++
    bigEndian 8 parts.deviceEpochLocal ++ bigEndian 8 parts.deviceEpochRemote ++
    bigEndian 8 parts.dhRatchetStep ++ roleTag

def directionContext (sessionId : String) (directionTag : Bytes) (dhRatchetPublic : Key32)
    (chainIndex deviceEpochLocal deviceEpochRemote : ℕ) : Bytes :=
  utf8 sessionId ++ directionTag ++ dhRatchetPublic.toList ++ bigEndian 8 chainIndex ++
    bigEndian 8 deviceEpochLocal ++ bigEndian 8 deviceEpochRemote

namespace Primitives
variable (P : Primitives)

def ratchetSessionId (localHash remoteHash transcriptHash : Key32) : String :=
  encodeBase64url (P.blake3_256 dmRatchetRoot (utf8 dmRatchetRoot ++
    localHash.toList ++ remoteHash.toList ++ transcriptHash.toList)).toList

def deriveRootAndChain (rootKey dhOutput : Key32) (parts : RatchetContextParts) (roleTag : Bytes) :
    Except CryptoError (Key32 × Key32) := do
  let info := utf8 dmRatchetRoot ++ transcriptContext parts roleTag
  let output ← P.hkdfSha256 rootKey.toList dhOutput.toList info 64
  pure (sliceBytes output 0 32, sliceBytes output 32 32)

def deriveInitialChains (rootSeed : Key32) (parts : RatchetContextParts) :
    Except CryptoError (Key32 × Key32) := do
  let (_, initiatorSend) ← P.deriveRootAndChain rootSeed rootSeed parts roleInitiatorSend
  let (_, recipientSend) ← P.deriveRootAndChain rootSeed rootSeed parts roleRecipientSend
  pure (initiatorSend, recipientSend)

def kdfCk (chainKey : Key32) (context : Bytes) : Except CryptoError (Key32 × Key32) := do
  let salt := P.blake3_256 dmRatchetChain context
  let info := utf8 dmRatchetChain ++ context
  let output ← P.hkdfSha256 salt.toList chainKey.toList info 64
  pure (sliceBytes output 0 32, sliceBytes output 32 32)

def advanceChainKey (chainKey : Key32) (context : Bytes) : Except CryptoError Key32 := do
  let (next, _) ← P.kdfCk chainKey context
  pure next

def messageContext (sessionId : String) (directionTag : Bytes) (messageNumber : ℕ)
    (canonicalHeader associatedData : Bytes) : Bytes :=
  utf8 sessionId ++ directionTag ++ bigEndian 8 messageNumber ++
    (P.blake3_256 committingAeadHeader canonicalHeader).toList ++
    (P.blake3_256 dmRatchetMessage associatedData).toList

def deriveMessageKeys (messageSecret : Key32) (context : Bytes) : Except CryptoError MessageKeys := do
  let salt := P.blake3_256 dmRatchetMessage context
  let info := utf8 dmRatchetMessage ++ context
  let output ← P.hkdfSha256 salt.toList messageSecret.toList info 108
  pure ⟨sliceBytes output 0 32, sliceBytes output 32 12, sliceBytes output 44 32,
    sliceBytes output 76 32⟩

theorem kdfCk_isOk (chainKey : Key32) (context : Bytes) :
    ∃ next secret, P.kdfCk chainKey context = .ok (next, secret) := by
  obtain ⟨out, hout⟩ := P.hkdfSha256_isOk (P.blake3_256 dmRatchetChain context).toList
    chainKey.toList (utf8 dmRatchetChain ++ context) (show 64 ≤ 8128 by decide)
  exact ⟨sliceBytes out 0 32, sliceBytes out 32 32, by rw [kdfCk, hout]; rfl⟩

theorem deriveMessageKeys_isOk (messageSecret : Key32) (context : Bytes) :
    ∃ keys, P.deriveMessageKeys messageSecret context = .ok keys := by
  obtain ⟨out, hout⟩ := P.hkdfSha256_isOk (P.blake3_256 dmRatchetMessage context).toList
    messageSecret.toList (utf8 dmRatchetMessage ++ context) (show 108 ≤ 8128 by decide)
  exact ⟨⟨sliceBytes out 0 32, sliceBytes out 32 12, sliceBytes out 44 32, sliceBytes out 76 32⟩,
    by rw [deriveMessageKeys, hout]; rfl⟩

theorem advanceChainKey_eq {chainKey next secret : Key32} {context : Bytes}
    (h : P.kdfCk chainKey context = .ok (next, secret)) :
    P.advanceChainKey chainKey context = .ok next := by
  rw [advanceChainKey, h]
  rfl

def verifyCommitments (c : DmCiphertext) (plaintext associatedData canonicalHeader : Bytes)
    (keys : MessageKeys) : Except CryptoError Unit :=
  let commitments := P.frankingCommitment
    { plaintext, associatedData, canonicalHeaderBytes := canonicalHeader
      senderDeviceIdHash := c.senderDeviceIdHash.toList
      messageEventId := c.messageEventId
      ciphertext := c.ciphertext
      openingKey := keys.openingKey
      commitmentKey := keys.commitmentKey }
  if commitments.keyCommitment ≠ c.keyCommitment then .error .keyCommitmentMismatch
  else if commitments.frankingCommitment ≠ c.frankingCommitment then .error .commitmentMismatch
  else if commitments.commitment ≠ c.commitment then .error .commitmentMismatch
  else .ok ()

end Primitives

def defaultDmMaxSkip : ℕ := 1000

namespace DmSession

variable (P : Primitives) (random : Except CryptoError Key32) (s : DmSession)

def canonicalEpochPair (currentRemoteEpoch : ℕ) : ℕ × ℕ :=
  if s.isInitiatorSide then (s.deviceEpochLocal, currentRemoteEpoch)
  else (currentRemoteEpoch, s.deviceEpochLocal)

def canonicalDeviceHashPair : Key32 × Key32 :=
  if s.isInitiatorSide then (s.senderDeviceIdHash, s.recipientDeviceIdHash)
  else (s.recipientDeviceIdHash, s.senderDeviceIdHash)

def ratchetContextParts : RatchetContextParts where
  sessionId := s.sessionId
  localDeviceIdHash := s.canonicalDeviceHashPair.1
  remoteDeviceIdHash := s.canonicalDeviceHashPair.2
  deviceEpochLocal := (s.canonicalEpochPair s.deviceEpochRemote).1
  deviceEpochRemote := (s.canonicalEpochPair s.deviceEpochRemote).2
  dhRatchetStep := s.dhRatchetStep

def sendDirectionTag : Bytes :=
  if s.isInitiatorSide then directionSend else directionRecv

def recvDirectionTag : Bytes :=
  if s.isInitiatorSide then directionRecv else directionSend

def localSenderRoleTag : Bytes :=
  if s.isInitiatorSide then roleInitiatorSend else roleRecipientSend

def remoteSenderRoleTag : Bytes :=
  if s.isInitiatorSide then roleRecipientSend else roleInitiatorSend

def directionContext (s : DmSession) (directionTag : Bytes) (dhRatchetPublic : Key32)
    (chainIndex deviceEpochRemote : ℕ) : Bytes :=
  Ramflux.directionContext s.sessionId directionTag dhRatchetPublic chainIndex
    (s.canonicalEpochPair deviceEpochRemote).1 (s.canonicalEpochPair deviceEpochRemote).2

def new (sessionId : String) (transcriptHash rootKey sendingChainKey receivingChainKey : Key32)
    (dhsPrivate localPublic remotePublic : Option Key32)
    (senderDeviceIdHash recipientDeviceIdHash : Key32) (isInitiatorSide : Bool) : DmSession :=
  { sessionId, rootKey, sendingChainKey, receivingChainKey, dhsPrivate, senderDeviceIdHash
    recipientDeviceIdHash, isInitiatorSide
    bootstrapTranscriptHash := transcriptHash
    sendCounter := 0
    receiveCounter := 0
    dhsPublic := localPublic
    dhrPublic := remotePublic
    deviceEpochLocal := 0
    deviceEpochRemote := 0
    dhRatchetStep := 0
    previousSendingChainLength := 0
    maxSkip := defaultDmMaxSkip
    skippedMessageKeys := ∅
    skippedMessageSecrets := ∅
    skippedOrder := [] }

section
variable (rootSeed localHash remoteHash transcriptHash : Key32)

def initiatorWithRemoteRatchet (localRatchet : X25519KeyPair) (remoteRatchetPublic : Key32) :
    Except CryptoError DmSession := do
  let sessionId := P.ratchetSessionId localHash remoteHash transcriptHash
  let dh := P.diffieHellman localRatchet.secret remoteRatchetPublic
  let context : RatchetContextParts := ⟨sessionId, localHash, remoteHash, 0, 0, 0⟩
  let (rootKey, sendingChainKey) ← P.deriveRootAndChain rootSeed dh context roleInitiatorSend
  let (_, receivingChainKey) ← P.deriveInitialChains rootKey context
  pure { new sessionId transcriptHash rootKey sendingChainKey receivingChainKey
    (some localRatchet.secret) (some localRatchet.publicKey) (some remoteRatchetPublic)
    localHash remoteHash true with dhRatchetStep := 1 }

def recipientWithLocalRatchet (localRatchet : X25519KeyPair) : Except CryptoError DmSession := do
  let sessionId := P.ratchetSessionId remoteHash localHash transcriptHash
  let (receivingChainKey, sendingChainKey) ←
    P.deriveInitialChains rootSeed ⟨sessionId, remoteHash, localHash, 0, 0, 0⟩
  pure (new sessionId transcriptHash rootSeed sendingChainKey receivingChainKey
    (some localRatchet.secret) (some localRatchet.publicKey) none localHash remoteHash false)

end

def nextHeader : DmHeader where
  ratchetSessionId := s.sessionId
  senderDeviceIdHash := s.senderDeviceIdHash
  recipientDeviceIdHash := s.recipientDeviceIdHash
  dhRatchetPublic := s.dhsPublic.getD zeroKey
  pn := s.previousSendingChainLength
  n := s.sendCounter
  deviceEpoch := s.deviceEpochLocal
  messageEventId := s.sessionId ++ ":" ++ toString s.sendCounter

/-- Every error is returned before the session is touched. -/
def encrypt (plaintext associatedData : Bytes) : Except CryptoError (DmCiphertext × DmSession) := do
  let counter := s.sendCounter
  let context := s.directionContext s.sendDirectionTag (s.dhsPublic.getD zeroKey) counter
    s.deviceEpochRemote
  let (nextChain, messageSecret) ← P.kdfCk s.sendingChainKey context
  let header := s.nextHeader
  let canonical ← header.canonicalHeaderBytes
  let keys ← P.deriveMessageKeys messageSecret
    (P.messageContext s.sessionId s.sendDirectionTag counter canonical associatedData)
  let aad := dmHeaderAssociatedData associatedData canonical
  match P.aeadEncrypt keys.aeadKey keys.nonce aad plaintext with
  | none => throw .aeadFailed
  | some ciphertext =>
    let commitments := P.frankingCommitment
      { plaintext, associatedData, ciphertext, canonicalHeaderBytes := canonical
        senderDeviceIdHash := s.senderDeviceIdHash.toList
        messageEventId := header.messageEventId
        openingKey := keys.openingKey
        commitmentKey := keys.commitmentKey }
    pure (
      { sessionId := s.sessionId
        counter := UInt64.ofNat counter
        nonce := keys.nonce
        ciphertext
        ratchetPublicKey := s.dhsPublic
        previousChainLength := UInt64.ofNat s.previousSendingChainLength
        senderDeviceIdHash := s.senderDeviceIdHash
        recipientDeviceIdHash := s.recipientDeviceIdHash
        deviceEpoch := UInt64.ofNat s.deviceEpochLocal
        messageEventId := header.messageEventId
        canonicalHeaderBytes := canonical
        headerHash := commitments.headerHash
        keyCommitment := commitments.keyCommitment
        frankingCommitment := commitments.frankingCommitment
        commitment := commitments.commitment
        ciphertextHash := commitments.ciphertextHash },
      { s with sendingChainKey := nextChain, sendCounter := satAdd s.sendCounter 1 })

def storedCount : ℕ := s.skippedMessageKeys.size + s.skippedMessageSecrets.size

/-- The entry evicted next, with the order queue after taking it. -/
def oldestSkipped : Option (String × List String) :=
  match s.skippedOrder with
  | id :: rest => some (id, rest)
  | [] => ((first? s.skippedMessageKeys).map (·.1) <|>
      (first? s.skippedMessageSecrets).map (·.1)).map (·, [])

def evictLoop : ℕ → DmSession → DmSession
  | 0, s => s
  | fuel + 1, s =>
    if s.maxSkip ≤ s.storedCount then
      match s.oldestSkipped with
      | none => s
      | some (oldest, order) => evictLoop fuel
        { s with
          skippedOrder := order
          skippedMessageKeys := s.skippedMessageKeys.erase oldest
          skippedMessageSecrets := s.skippedMessageSecrets.erase oldest }
    else s

/-- Evict until one more secret fits. Every round shortens the queue or a map. -/
def evict : DmSession := evictLoop (s.skippedOrder.length + s.storedCount) s

theorem oldestSkipped_eq_none {s : DmSession} (h : s.skippedOrder.length + s.storedCount = 0) :
    s.oldestSkipped = none := by
  unfold storedCount at h
  have horder : s.skippedOrder = [] := List.length_eq_zero_iff.mp (by omega)
  have hkeys : s.skippedMessageKeys = ∅ :=
    eq_empty_iff_size_eq_zero.mpr (by omega)
  have hsecs : s.skippedMessageSecrets = ∅ :=
    eq_empty_iff_size_eq_zero.mpr (by omega)
  simp [oldestSkipped, horder, hkeys, hsecs, first?]

theorem oldestSkipped_decreases {s : DmSession} {oldest : String} {order : List String}
    (h : s.oldestSkipped = some (oldest, order)) :
    order.length + ((s.skippedMessageKeys.erase oldest).size +
      (s.skippedMessageSecrets.erase oldest).size) < s.skippedOrder.length + s.storedCount := by
  have hkeys : (s.skippedMessageKeys.erase oldest).size ≤ s.skippedMessageKeys.size :=
    size_erase_le
  have hsecs : (s.skippedMessageSecrets.erase oldest).size ≤ s.skippedMessageSecrets.size :=
    size_erase_le
  unfold oldestSkipped at h
  unfold storedCount
  cases horder : s.skippedOrder with
  | cons id rest =>
    simp only [horder, Option.some.injEq, Prod.mk.injEq] at h
    obtain ⟨rfl, rfl⟩ := h
    simp only [List.length_cons]
    omega
  | nil =>
    simp only [horder, map_eq_some_iff, Prod.mk.injEq] at h
    obtain ⟨id, hid, rfl, rfl⟩ := h
    -- With an empty queue the entry is a stored key of one of the maps.
    have hstored : id ∈ s.skippedMessageKeys ∨ id ∈ s.skippedMessageSecrets := by
      simp only [orElse_eq_orElse, orElse_eq_or, or_eq_some_iff, map_eq_some_iff] at hid
      rcases hid with ⟨e, he, rfl⟩ | ⟨-, e, he, rfl⟩
      · exact .inl (mem_of_first? _ he)
      · exact .inr (mem_of_first? _ he)
    rcases hstored with hmem | hmem
    · have := size_erase_lt _ hmem
      omega
    · have := size_erase_lt _ hmem
      omega

/-- Eviction ends with room for one more secret, or with nothing left to evict. -/
theorem evictLoop_done (fuel : ℕ) (s : DmSession) (h : s.skippedOrder.length + s.storedCount ≤ fuel) :
    (evictLoop fuel s).storedCount < (evictLoop fuel s).maxSkip ∨
      (evictLoop fuel s).oldestSkipped = none := by
  induction fuel generalizing s with
  | zero => exact .inr (oldestSkipped_eq_none (Nat.le_zero.mp h))
  | succ fuel ih =>
    rw [evictLoop]
    split_ifs with hfull
    · cases hold : s.oldestSkipped with
      | none => exact .inr hold
      | some entry =>
        have hlt := oldestSkipped_decreases hold
        exact ih _ (by simp only [storedCount] at hlt h ⊢; omega)
    · exact .inl (by omega)

/-- The skip loop; the counter reaches `until_counter` in exactly the rounds between them. -/
def skipLoop (P : Primitives) (remotePublic : Key32) : ℕ → DmSession →
    Except CryptoError Unit × DmSession
  | 0, s => (.ok (), s)
  | rounds + 1, s =>
    let context := s.directionContext s.recvDirectionTag remotePublic s.receiveCounter
      s.deviceEpochRemote
    match P.kdfCk s.receivingChainKey context with
    | .error e => (.error e, s)
    | .ok (_, messageSecret) =>
      let skippedId := skippedKeyId remotePublic s.receiveCounter
      let s := s.evict
      let s := { s with
        skippedOrder := s.skippedOrder ++ [skippedId]
        skippedMessageSecrets := s.skippedMessageSecrets.insert skippedId messageSecret }
      match P.advanceChainKey s.receivingChainKey context with
      | .error e => (.error e, s)
      | .ok next => skipLoop P remotePublic rounds
          { s with receivingChainKey := next, receiveCounter := satAdd s.receiveCounter 1 }

def skipMessageKeys (untilCounter : ℕ) : Except CryptoError Unit × DmSession :=
  if untilCounter < s.receiveCounter then (.ok (), s)
  else
    let skipped := untilCounter - s.receiveCounter
    if s.maxSkip < skipped then (.error .maxSkipExceeded, s)
    else skipLoop P (s.dhrPublic.getD zeroKey) skipped s

variable (header : DmHeader) (c : DmCiphertext) (associatedData canonical : Bytes)

def NeedsRatchet : Prop :=
  header.dhRatchetPublic ≠ zeroKey ∧ s.dhrPublic ≠ some header.dhRatchetPublic

instance : Decidable (s.NeedsRatchet header) :=
  inferInstanceAs (Decidable (_ ∧ _))

/-- Receiving half of a ratchet: remember the remote key and derive its chain. -/
def ratchetReceive : Except CryptoError Unit × DmSession :=
  let s := { s with dhrPublic := some header.dhRatchetPublic }
  match s.dhsPrivate with
  | none => (.error .aeadFailed, s)
  | some localPrivate =>
    let dh := P.diffieHellman localPrivate header.dhRatchetPublic
    let s := { s with deviceEpochRemote := header.deviceEpoch }
    match P.deriveRootAndChain s.rootKey dh s.ratchetContextParts s.remoteSenderRoleTag with
    | .error e => (.error e, s)
    | .ok (rootKey, receivingChainKey) => (.ok (), { s with
        rootKey, receivingChainKey
        dhRatchetStep := satAdd s.dhRatchetStep 1
        receiveCounter := 0 })

/-- Sending half of a ratchet: a new local key pair and its chain. -/
def ratchetSend : Except CryptoError Unit × DmSession :=
  let s := { s with previousSendingChainLength := s.sendCounter }
  match random with
  | .error e => (.error e, s)
  | .ok seed =>
    let newLocal := P.keyPairFromSeed seed
    let dh := P.diffieHellman newLocal.secret header.dhRatchetPublic
    match P.deriveRootAndChain s.rootKey dh s.ratchetContextParts s.localSenderRoleTag with
    | .error e => (.error e, s)
    | .ok (rootKey, sendingChainKey) => (.ok (), { s with
        rootKey, sendingChainKey
        dhRatchetStep := satAdd s.dhRatchetStep 1
        dhsPrivate := some newLocal.secret
        dhsPublic := some newLocal.publicKey
        sendCounter := 0 })

def ratchetForHeader : Except CryptoError Unit × DmSession :=
  if s.NeedsRatchet header then
    match s.skipMessageKeys P header.pn with
    | (.error e, s) => (.error e, s)
    | (.ok (), s) =>
      match s.ratchetReceive P header with
      | (.error e, s) => (.error e, s)
      | (.ok (), s) => s.ratchetSend P random header
  else (.ok (), s)

/-- Message keys from the receiving chain, after ratcheting and skipping up to the message. -/
def chainMessageKeys (associatedData : Bytes) : Except CryptoError MessageKeys × DmSession :=
  match s.ratchetForHeader P random header with
  | (.error e, s) => (.error e, s)
  | (.ok (), s) =>
    if header.n < s.receiveCounter then (.error .aeadFailed, s)
    else
      match s.skipMessageKeys P header.n with
      | (.error e, s) => (.error e, s)
      | (.ok (), s) =>
        let context := s.directionContext s.recvDirectionTag header.dhRatchetPublic header.n
          header.deviceEpoch
        (do
          let (_, messageSecret) ← P.kdfCk s.receivingChainKey context
          P.deriveMessageKeys messageSecret
            (P.messageContext s.sessionId s.recvDirectionTag header.n canonical associatedData), s)

/-- Open the sealed body and check the sender's commitments to it. -/
def openMessage (keys : MessageKeys) : Except CryptoError Bytes :=
  match P.aeadDecrypt keys.aeadKey c.nonce (dmHeaderAssociatedData associatedData canonical)
      c.ciphertext with
  | none => .error .aeadFailed
  | some plaintext => do
    P.verifyCommitments c plaintext associatedData canonical keys
    pure plaintext

def forgetSkipped (skippedId : String) : DmSession :=
  { s with
    skippedMessageSecrets := s.skippedMessageSecrets.erase skippedId
    skippedOrder := s.skippedOrder.filter (· ≠ skippedId)
    skippedMessageKeys := s.skippedMessageKeys.erase skippedId }

def advanceReceiving : Except CryptoError DmSession := do
  let context := s.directionContext s.recvDirectionTag header.dhRatchetPublic header.n
    header.deviceEpoch
  let next ← P.advanceChainKey s.receivingChainKey context
  pure { s with receivingChainKey := next, receiveCounter := satAdd s.receiveCounter 1 }

/-- A message whose secret was stored when it was skipped. -/
def decryptSkipped (keys : Except CryptoError MessageKeys) :
    Except CryptoError DmDecryptionOutput × DmSession :=
  match (do let keys ← keys; pure (← openMessage P c associatedData canonical keys, keys)) with
  | .error e => (.error e, s)
  | .ok (plaintext, keys) => (.ok ⟨plaintext, keys.openingKey, keys.commitmentKey⟩,
      s.forgetSkipped (skippedKeyId c.header.dhRatchetPublic c.header.n))

/-- A message on the receiving chain. Ratchet and skip stay in place when it does not open. -/
def decryptOnChain : Except CryptoError DmDecryptionOutput × DmSession :=
  match s.chainMessageKeys P random c.header canonical associatedData with
  | (.error e, s) => (.error e, s)
  | (.ok keys, s) =>
    match (do
        let plaintext ← openMessage P c associatedData canonical keys
        pure (plaintext, ← s.advanceReceiving P c.header)) with
    | .error e => (.error e, s)
    | .ok (plaintext, s) => (.ok ⟨plaintext, keys.openingKey, keys.commitmentKey⟩, s)

def decryptWithFrankingKeys : Except CryptoError DmDecryptionOutput × DmSession :=
  match c.checkedHeader P with
  | .error e => (.error e, s)
  | .ok canonical =>
    let header := c.header
    let skippedId := skippedKeyId header.dhRatchetPublic header.n
    match s.skippedMessageSecrets[skippedId]? with
    | some secret => s.decryptSkipped P c associatedData canonical
        (P.deriveMessageKeys secret
          (P.messageContext s.sessionId s.recvDirectionTag header.n canonical associatedData))
    | none =>
      match s.skippedMessageKeys[skippedId]? with
      | some keys => s.decryptSkipped P c associatedData canonical (.ok keys)
      | none => s.decryptOnChain P random c associatedData canonical

def decrypt : Except CryptoError Bytes × DmSession :=
  let (result, s) := s.decryptWithFrankingKeys P random c associatedData
  (result.map (·.plaintext), s)

end DmSession
end Ramflux
