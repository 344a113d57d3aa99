import Ramflux.Node.Inbox
import Ramflux.Node.SenderRetry

/-! Submission log of the router: payloads, their stored shapes, and the projection in memory. -/
namespace Ramflux.RouterWal
open SenderRetry (SenderAssignment)

inductive WalError
  | redb (detail : String)
  | snapshotSerialization (detail : String)
  | itestJson (detail : String)
  | segmentRequiresQuarantine (segment : ℕ) (cause : WalError)
  deriving DecidableEq

inductive SignatureAlg
  | ed25519
  deriving DecidableEq

structure SignedFields where
  signingKeyId : String
  signatureAlg : SignatureAlg
  signature : String
  deriving DecidableEq

inductive DeliveryClass
  | opaqueEvent
  | selfDeviceControl
  | notificationWake
  | objectManifest
  | objectChunk
  | federationControl
  deriving DecidableEq

inductive Priority
  | low
  | normal
  | high
  | urgent
  deriving DecidableEq

/-- Envelope with the fields that the log carries through unread. -/
structure FullEnvelope extends Envelope where
  schema : String
  version : UInt32
  domain : String
  signed : SignedFields
  sourcePrincipalId : String
  routingSetId : Option String
  deliveryClass : DeliveryClass
  priority : Priority
  encryptedPayload : String
  payloadHash : String
  deriving DecidableEq

/-- Inbox row as it is submitted to the log. -/
structure Entry where
  inboxSeq : ℕ
  target : String
  envelope : FullEnvelope
  deriving DecidableEq

structure LocalDelivery where
  senderRootCommitment : String
  envelopeId : String
  target : String
  deriving DecidableEq

/-- A submission; `acceptedAt` is absent only in records from before deadlines were logged. -/
structure Payload where
  replayKey : String
  replayExpiresAt : ℤ
  entry : Option Entry
  acceptedAt : Option ℤ
  localDelivery : Option LocalDelivery
  deriving DecidableEq

structure StoredEnvelope where
  schema : String
  version : UInt32
  domain : String
  extJson : Option Bytes
  signed : SignedFields
  envelopeId : String
  sourcePrincipalId : String
  sourceDeviceId : String
  target : String
  routingSetId : Option String
  deliveryClass : DeliveryClass
  priority : Priority
  ttl : UInt32
  createdAt : ℤ
  encryptedPayload : String
  payloadHash : String
  deriving DecidableEq

structure StoredEntry where
  inboxSeq : ℕ
  target : String
  envelope : StoredEnvelope
  deriving DecidableEq

/-- Shapes of a logged record, oldest first. -/
inductive StoredPayload
  | submission (replayKey : String) (replayExpiresAt : ℤ) (entry : Option StoredEntry)
  | submissionAccepted (replayKey : String) (replayExpiresAt acceptedAt : ℤ)
      (entry : Option StoredEntry)
  | submissionClassified (replayKey : String) (replayExpiresAt acceptedAt : ℤ)
      (entry : Option StoredEntry) (localDelivery : LocalDelivery)
  | incarnated (incarnationId : String) (payload : StoredPayload)
  | senderAssigned (payload : StoredPayload)
  deriving DecidableEq

/-- The log's serialisers with the round trips it assumes: postcard, and `serde_json` for extensions. -/
structure Codec where
  toAllocvec : StoredPayload → Except String Bytes
  fromBytes : Bytes → Except String StoredPayload
  toVec : Ext → Except String Bytes
  fromSlice : Bytes → Except String Ext
  fromBytes_toAllocvec : ∀ stored bytes, toAllocvec stored = .ok bytes → fromBytes bytes = .ok stored
  fromSlice_toVec : ∀ ext bytes, toVec ext = .ok bytes → fromSlice bytes = .ok ext

def StoredPayload.isSenderAssigned : StoredPayload → Bool
  | .senderAssigned _ => true
  | .incarnated _ payload => payload.isSenderAssigned
  | _ => false

section
variable (codec : Codec)

def Codec.storeEnvelope (envelope : FullEnvelope) : Except WalError StoredEnvelope := do
  let extJson ← if envelope.ext.isEmpty then pure none
    else (some <$> codec.toVec envelope.ext).mapError WalError.snapshotSerialization
  pure {
    schema := envelope.schema
    version := envelope.version
    domain := envelope.domain
    extJson := extJson
    signed := envelope.signed
    envelopeId := envelope.envelopeId
    sourcePrincipalId := envelope.sourcePrincipalId
    sourceDeviceId := envelope.sourceDeviceId
    target := envelope.target
    routingSetId := envelope.routingSetId
    deliveryClass := envelope.deliveryClass
    priority := envelope.priority
    ttl := envelope.ttl
    createdAt := envelope.createdAt
    encryptedPayload := envelope.encryptedPayload
    payloadHash := envelope.payloadHash }

def Codec.loadEnvelope (envelope : StoredEnvelope) : Except WalError FullEnvelope := do
  let ext ← match envelope.extJson with
    | some bytes => (codec.fromSlice bytes).mapError WalError.snapshotSerialization
    | none => pure ∅
  pure {
    schema := envelope.schema
    version := envelope.version
    domain := envelope.domain
    ext := ext
    signed := envelope.signed
    envelopeId := envelope.envelopeId
    sourcePrincipalId := envelope.sourcePrincipalId
    sourceDeviceId := envelope.sourceDeviceId
    target := envelope.target
    routingSetId := envelope.routingSetId
    deliveryClass := envelope.deliveryClass
    priority := envelope.priority
    ttl := envelope.ttl
    createdAt := envelope.createdAt
    encryptedPayload := envelope.encryptedPayload
    payloadHash := envelope.payloadHash }

def Codec.storeEntry (entry : Entry) : Except WalError StoredEntry := do
  let envelope ← codec.storeEnvelope entry.envelope
  pure ⟨entry.inboxSeq, entry.target, envelope⟩

def Codec.loadEntry (entry : StoredEntry) : Except WalError Entry := do
  let envelope ← codec.loadEnvelope entry.envelope
  pure ⟨entry.inboxSeq, entry.target, envelope⟩

def transposeMap {α β : Type} (f : α → Except WalError β) : Option α → Except WalError (Option β)
  | none => pure none
  | some a => some <$> f a

/-- Stored shape of a payload, before it is tagged with an incarnation. -/
def Codec.store (payload : Payload) : Except WalError StoredPayload := do
  let entry ← transposeMap codec.storeEntry payload.entry
  let stored := match payload.acceptedAt, payload.localDelivery with
    | some acceptedAt, some localDelivery =>
      StoredPayload.submissionClassified payload.replayKey payload.replayExpiresAt acceptedAt entry
        localDelivery
    | some acceptedAt, none =>
      .submissionAccepted payload.replayKey payload.replayExpiresAt acceptedAt entry
    | none, _ => .submission payload.replayKey payload.replayExpiresAt entry
  pure (if payload.localDelivery.isSome then .senderAssigned stored else stored)

def Codec.load : StoredPayload → Except WalError Payload
  | .incarnated _ payload => Codec.load payload
  | .senderAssigned payload =>
    match payload with
    | .submissionClassified .. => Codec.load payload
    | _ => .error (.redb "invalid sender assignment WAL wrapper")
  | .submission replayKey replayExpiresAt entry => do
    let entry ← transposeMap codec.loadEntry entry
    pure ⟨replayKey, replayExpiresAt, entry, none, none⟩
  | .submissionAccepted replayKey replayExpiresAt acceptedAt entry => do
    let entry ← transposeMap codec.loadEntry entry
    pure ⟨replayKey, replayExpiresAt, entry, some acceptedAt, none⟩
  | .submissionClassified replayKey replayExpiresAt acceptedAt entry localDelivery => do
    let entry ← transposeMap codec.loadEntry entry
    pure ⟨replayKey, replayExpiresAt, entry, some acceptedAt, some localDelivery⟩

end

structure Location where
  segmentId : ℕ
  offset : ℕ
  len : ℕ
  deriving DecidableEq

structure SubmissionRecord where
  replayKey : String
  replayExpiresAt : ℤ
  entry : Option Entry
  acceptedAt : Option ℤ
  localDelivery : Option LocalDelivery
  location : Location
  senderAssigned : Bool
  deriving DecidableEq

/-- Retention deadline of a logged delivery; only records without acceptance time use the clock. -/
def SubmissionRecord.retainUntil (now : ℤ) (record : SubmissionRecord) : ℤ :=
  match record.entry with
  | none => record.replayExpiresAt
  | some entry =>
    match record.acceptedAt with
    | none => inboxLegacyRetainUntil entry.envelope.toEnvelope now
    | some acceptedAt => inboxRetainUntil entry.envelope.toEnvelope acceptedAt

structure LocalDeliveryIndex where
  replayKey : String
  target : String
  replayExpiresAt : ℤ
  assignment : Option SenderAssignment
  deriving DecidableEq

abbrev TargetIndex := OrdMap String (OrdMap ℕ (OrdSet String))

abbrev SenderIndex := OrdMap String (OrdMap (String × String) LocalDeliveryIndex)

structure State where
  submissions : OrdMap String SubmissionRecord
  submissionsByTarget : TargetIndex
  localDeliveryBySenderEnvelope : SenderIndex
  issuedByTarget : OrdMap String ℕ
  incarnations : OrdMap String String
  incarnationConflict : Bool
  replayDue : OrdSet (ℤ × String)
  entryDue : OrdSet (ℤ × String)
  deriving DecidableEq

instance : Inhabited State := ⟨∅, ∅, ∅, ∅, ∅, false, ∅, ∅⟩

abbrev ContentDigest := FullEnvelope → Except String String

/-- A failing digest fences the process and leaves no assignment. -/
def senderAssignment (contentDigest : ContentDigest) (entry : Entry)
    (id : String) (retainUntil : ℤ) : Option SenderAssignment :=
  match contentDigest entry.envelope with
  | .error _ => none
  | .ok digest => some ⟨entry.target, id, entry.inboxSeq, retainUntil, digest⟩

def TargetIndex.add (index : TargetIndex) (entry : Entry) (key : String) : TargetIndex :=
  index.upsert entry.target fun sequences =>
    (sequences.getD ∅).upsert entry.inboxSeq fun keys => (keys.getD ∅).insert key

/-- Empty sequences and mailboxes are dropped. -/
def TargetIndex.remove (index : TargetIndex) (entry : Entry) (key : String) : TargetIndex :=
  match index[entry.target]? with
  | none => index
  | some sequences =>
    let sequences := match sequences[entry.inboxSeq]? with
      | none => sequences
      | some keys =>
        if (keys.erase key).isEmpty then sequences.erase entry.inboxSeq
        else sequences.insert entry.inboxSeq (keys.erase key)
    if sequences.isEmpty then index.erase entry.target
    else index.insert entry.target sequences

/-- Only the row of the record's own key is dropped: a later record may have taken its place. -/
def SenderIndex.remove (index : SenderIndex) (delivery : LocalDelivery) (key : String) : SenderIndex :=
  match index[delivery.senderRootCommitment]? with
  | none => index
  | some byEnvelope =>
    let row := (delivery.envelopeId, delivery.target)
    let byEnvelope :=
      if byEnvelope[row]?.any (·.replayKey == key) then byEnvelope.erase row else byEnvelope
    if byEnvelope.isEmpty then index.erase delivery.senderRootCommitment
    else index.insert delivery.senderRootCommitment byEnvelope

section
variable (contentDigest : ContentDigest) (now : ℤ) (s : State) (payload : Payload) (location : Location)

def State.index (record : SubmissionRecord) : State :=
  let key := record.replayKey
  let s := { s with replayDue := s.replayDue.insert (record.replayExpiresAt, key) }
  let s := match record.entry with
    | none => s
    | some entry => { s with
        submissionsByTarget := s.submissionsByTarget.add entry key
        entryDue := s.entryDue.insert (record.retainUntil now, key) }
  match record.localDelivery with
  | none => s
  | some delivery =>
    let assignment := (record.entry.filter fun _ => record.senderAssigned).bind fun entry =>
      s.incarnations[entry.target]?.bind fun id =>
        senderAssignment contentDigest entry id (record.retainUntil now)
    let row : LocalDeliveryIndex :=
      ⟨key, delivery.target, record.replayExpiresAt, assignment⟩
    { s with
      localDeliveryBySenderEnvelope := s.localDeliveryBySenderEnvelope.upsert
        delivery.senderRootCommitment fun byEnvelope =>
          (byEnvelope.getD ∅).insert (delivery.envelopeId, delivery.target) row }

def State.unindex (record : SubmissionRecord) : State :=
  let key := record.replayKey
  let s := { s with replayDue := s.replayDue.erase (record.replayExpiresAt, key) }
  let s := match record.entry with
    | none => s
    | some entry => { s with
        submissionsByTarget := s.submissionsByTarget.remove entry key
        entryDue := s.entryDue.erase (record.retainUntil now, key) }
  match record.localDelivery with
  | none => s
  | some delivery => { s with
      localDeliveryBySenderEnvelope := s.localDeliveryBySenderEnvelope.remove delivery key }

/-- Records of the second replay format are filed under the third, which names the mailbox. -/
def Payload.storedKey : String :=
  match payload.replayKey.toList.dropPrefix? "envelope/v2/".toList, payload.entry with
  | some tail, some entry =>
    "envelope/v3/" ++ String.ofList tail ++ "/" ++ encodeBase64url (utf8 entry.target)
  | _, _ => payload.replayKey

def State.issue : Option Entry → State
  | none => s
  | some entry => { s with
      issuedByTarget := s.issuedByTarget.upsert entry.target fun issued =>
        max (issued.getD 0) entry.inboxSeq }

def Payload.record (senderAssigned : Bool) : SubmissionRecord where
  replayKey := payload.storedKey
  replayExpiresAt := payload.replayExpiresAt
  entry := payload.entry
  acceptedAt := payload.acceptedAt
  localDelivery := payload.localDelivery
  location := location
  senderAssigned := senderAssigned

/-- File a record under its key, in the place of an earlier one. -/
def State.replace (record : SubmissionRecord) : State :=
  let s := match s.submissions[record.replayKey]? with
    | none => s
    | some previous => { s with
        submissions := s.submissions.erase record.replayKey }.unindex now previous
  let s := s.index contentDigest now record
  { s with submissions := s.submissions.insert record.replayKey record }

def State.applyWithSenderAssignment (senderAssigned : Bool) : State :=
  (s.issue payload.entry).replace contentDigest now (payload.record location senderAssigned)

/-- Projection of a record that was just made durable. -/
def State.apply : State :=
  s.applyWithSenderAssignment contentDigest now payload location true

end

/-- Check of a stored incarnation or directory identity: 32 lower-case hexadecimal digits. -/
def identityOk (id : String) : Bool :=
  (utf8 id).length == 32 &&
    (utf8 id).all fun byte => (48 ≤ byte && byte ≤ 57) || (97 ≤ byte && byte ≤ 102)

/-- Pairing of a log with its database: `reserve` is the incarnation handed out for each mailbox, `head`
the newest segment on record. -/
structure Association where
  directoryId : String
  head : Option ℕ
  reserve : String → String
  directoryId_ok : identityOk directoryId
  reserve_ok : ∀ target, identityOk (reserve target)

/-- Incarnation that a payload is logged under. -/
def incarnationOf (association : Option Association) (payload : Payload) : Option String :=
  match association, payload.entry with
  | some association, some entry => some (association.reserve entry.target)
  | _, _ => none

def Codec.encodePayload (codec : Codec) (association : Option Association) (payload : Payload) :
    Except WalError StoredPayload := do
  let stored ← codec.store payload
  match incarnationOf association payload with
  | some id => pure (.incarnated id stored)
  | none => pure stored

/-- Note the incarnation of a mailbox, and whether it differs from the one noted before. -/
def State.noteIncarnation (s : State) (entry : Entry) (id : String) : State :=
  { s with
    incarnations := s.incarnations.insert entry.target id
    incarnationConflict :=
      s.incarnationConflict || s.incarnations[entry.target]?.any (· != id) }

def Codec.decodePayload (codec : Codec) (stored : StoredPayload) (s : State) :
    Except WalError (Payload × State) :=
  match stored with
  | .incarnated incarnationId inner => do
    if ¬identityOk incarnationId then throw (.redb "invalid inbox incarnation in stored cursor")
    if let .incarnated .. := inner then throw (.redb "nested WAL incarnation record")
    let payload ← codec.load inner
    match payload.entry with
    | none => throw (.redb "WAL incarnation record without inbox counter")
    | some entry => pure (payload, s.noteIncarnation entry incarnationId)
  | stored => do
    let payload ← codec.load stored
    pure (payload, s)

/-- Mailbox identity noted before a submission is sent to the writer. -/
def State.prepareSenderIdentity (s : State) (incarnation : Option String) (payload : Payload) : State :=
  match incarnation, payload.entry with
  | some id, some entry =>
    { s with incarnations := s.incarnations.insert entry.target id }
  | _, _ => s

end Ramflux.RouterWal
