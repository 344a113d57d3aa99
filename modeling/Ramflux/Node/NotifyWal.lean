import Ramflux.Node.RouterWalSegments

/-! Wake log of the notify service: payloads and stored shapes, the projection in memory, segment files
with a writer that may fail half way, recovery, and compaction. File lengths and segment numbers are
below `2 ^ 64`. -/
namespace Ramflux.NotifyWal
open Fallible
open RouterWal (WalError Location SignedFields Segment crc32 bytesOf writeTo)

inductive NotificationDeliveryClass
  | selfDeviceControlNotification
  | userContentNotification
  | aiTaskNotification
  | a2uiSurfaceNotification
  | callWakeNotification
  | conferenceWakeNotification
  deriving DecidableEq

inductive PushPriority
  | low
  | normal
  | high
  deriving DecidableEq

inductive NotifyQueueStatus
  | pending
  | delivered
  | droppedExpired
  | providerRejected
  deriving DecidableEq

inductive PushProviderKind
  | apns
  | fcm
  | webPush
  deriving DecidableEq

inductive NotifyDeliveryAction
  | accept
  | collapse
  | deferWithRetryAfter
  | dropExpired
  | dropLowPriorityDueToDnd
  | nackRateLimited
  | providerRejected
  | staleToken
  deriving DecidableEq

structure NotificationWake where
  schema : String
  version : UInt32
  domain : String
  ext : Ext
  signed : SignedFields
  wakeId : String
  pushAlias : String
  deliveryClass : NotificationDeliveryClass
  priority : PushPriority
  ttl : UInt32
  collapseKey : Option String
  encryptedHint : Option String
  deriving DecidableEq

structure NotifyQueueEntry where
  queueId : String
  deviceDeliveryId : String
  wake : NotificationWake
  pushAliasHash : String
  queuedAt : ℕ
  expiresAt : ℕ
  attemptCount : UInt32
  status : NotifyQueueStatus
  dndActive : Bool
  deriving DecidableEq

structure ProviderPushAttempt where
  queueId : String
  deviceDeliveryId : String
  provider : PushProviderKind
  pushAliasHash : String
  collapseKeyHash : String
  deliveryClass : NotificationDeliveryClass
  action : NotifyDeliveryAction
  sentAt : ℕ
  accepted : Bool
  errorClass : Option String
  deriving DecidableEq

structure RawWake where
  queueId : String
  rawBody : Bytes
  queuedAt : ℕ
  deriving DecidableEq

inductive Payload
  | queueEntry (entry : NotifyQueueEntry)
  | rawWake (raw : RawWake)
  | providerAttempt (attempt : ProviderPushAttempt)
  | delivered (queueId : String)
  deriving DecidableEq

structure StoredWake where
  schema : String
  version : UInt32
  domain : String
  extJson : Option Bytes
  signed : SignedFields
  wakeId : String
  pushAlias : String
  deliveryClass : NotificationDeliveryClass
  priority : PushPriority
  ttl : UInt32
  collapseKey : Option String
  encryptedHint : Option String
  deriving DecidableEq

structure StoredQueueEntry where
  queueId : String
  deviceDeliveryId : String
  wake : StoredWake
  pushAliasHash : String
  queuedAt : ℕ
  expiresAt : ℕ
  attemptCount : UInt32
  status : NotifyQueueStatus
  dndActive : Bool
  deriving DecidableEq

inductive StoredPayload
  | queueEntry (entry : StoredQueueEntry)
  | rawWake (raw : RawWake)
  | providerAttempt (attempt : ProviderPushAttempt)
  | delivered (queueId : String)
  deriving DecidableEq

/-- The log's serialisers with the round trips it assumes: postcard, and `serde_json` for extensions. -/
structure Codec where
  toAllocvec : StoredPayload → Except String Bytes
  fromBytes : Bytes → Except String StoredPayload
  toVec : Ext → Except String Bytes
  fromSlice : Bytes → Except String Ext
  fromBytes_toAllocvec : ∀ stored bytes, toAllocvec stored = .ok bytes → fromBytes bytes = .ok stored
  fromSlice_toVec : ∀ ext bytes, toVec ext = .ok bytes → fromSlice bytes = .ok ext

namespace Codec
variable (codec : Codec)

def storeExt (ext : Ext) : Except WalError (Option Bytes) :=
  if ext.isEmpty then .ok none
  else (some <$> codec.toVec ext).mapError WalError.snapshotSerialization

def loadExt : Option Bytes → Except WalError Ext
  | some bytes => (codec.fromSlice bytes).mapError WalError.snapshotSerialization
  | none => .ok ∅

def storeWake (wake : NotificationWake) : Except WalError StoredWake := do
  let extJson ← codec.storeExt wake.ext
  pure {
    schema := wake.schema
    version := wake.version
    domain := wake.domain
    extJson
    signed := wake.signed
    wakeId := wake.wakeId
    pushAlias := wake.pushAlias
    deliveryClass := wake.deliveryClass
    priority := wake.priority
    ttl := wake.ttl
    collapseKey := wake.collapseKey
    encryptedHint := wake.encryptedHint }

def loadWake (wake : StoredWake) : Except WalError NotificationWake := do
  let ext ← codec.loadExt wake.extJson
  pure {
    schema := wake.schema
    version := wake.version
    domain := wake.domain
    ext
    signed := wake.signed
    wakeId := wake.wakeId
    pushAlias := wake.pushAlias
    deliveryClass := wake.deliveryClass
    priority := wake.priority
    ttl := wake.ttl
    collapseKey := wake.collapseKey
    encryptedHint := wake.encryptedHint }

def storeEntry (entry : NotifyQueueEntry) : Except WalError StoredQueueEntry := do
  let wake ← codec.storeWake entry.wake
  pure {
    queueId := entry.queueId
    deviceDeliveryId := entry.deviceDeliveryId
    wake
    pushAliasHash := entry.pushAliasHash
    queuedAt := entry.queuedAt
    expiresAt := entry.expiresAt
    attemptCount := entry.attemptCount
    status := entry.status
    dndActive := entry.dndActive }

def loadEntry (entry : StoredQueueEntry) : Except WalError NotifyQueueEntry := do
  let wake ← codec.loadWake entry.wake
  pure {
    queueId := entry.queueId
    deviceDeliveryId := entry.deviceDeliveryId
    wake
    pushAliasHash := entry.pushAliasHash
    queuedAt := entry.queuedAt
    expiresAt := entry.expiresAt
    attemptCount := entry.attemptCount
    status := entry.status
    dndActive := entry.dndActive }

def store : Payload → Except WalError StoredPayload
  | .queueEntry entry => .queueEntry <$> codec.storeEntry entry
  | .rawWake raw => .ok (.rawWake raw)
  | .providerAttempt attempt => .ok (.providerAttempt attempt)
  | .delivered queueId => .ok (.delivered queueId)

def load : StoredPayload → Except WalError Payload
  | .queueEntry entry => .queueEntry <$> codec.loadEntry entry
  | .rawWake raw => .ok (.rawWake raw)
  | .providerAttempt attempt => .ok (.providerAttempt attempt)
  | .delivered queueId => .ok (.delivered queueId)

def encode (payload : Payload) : Except WalError Bytes := do
  let stored ← codec.store payload
  (codec.toAllocvec stored).mapError WalError.snapshotSerialization

def decode (bytes : Bytes) : Except WalError Payload := do
  let stored ← (codec.fromBytes bytes).mapError WalError.snapshotSerialization
  codec.load stored

end Codec

structure RecoveredRecord where
  payload : Payload
  location : Location
  deriving DecidableEq

structure State where
  entriesById : OrdMap String RecoveredRecord
  rawWakesById : OrdMap String RecoveredRecord
  providerAttemptsByQueue : OrdMap String (List ProviderPushAttempt)
  deriving DecidableEq

namespace State

def empty : State := ⟨∅, ∅, ∅⟩

def apply (s : State) (payload : Payload) (location : Location) : State :=
  match payload with
  | .queueEntry entry => { s with
      rawWakesById := s.rawWakesById.erase entry.queueId
      entriesById := s.entriesById.insert entry.queueId ⟨payload, location⟩ }
  | .rawWake raw =>
    if raw.queueId ∈ s.entriesById then s
    else { s with rawWakesById := s.rawWakesById.insert raw.queueId ⟨payload, location⟩ }
  | .providerAttempt attempt =>
    let attempts := s.providerAttemptsByQueue[attempt.queueId]?.getD []
    let attempts := if attempt ∈ attempts then attempts else attempts ++ [attempt]
    { s with providerAttemptsByQueue := s.providerAttemptsByQueue.insert attempt.queueId attempts }
  | .delivered queueId => { s with
      entriesById := s.entriesById.erase queueId
      rawWakesById := s.rawWakesById.erase queueId }

def isQueueEntry : Payload → Bool
  | .queueEntry _ => true
  | _ => false

def isRawWake : Payload → Bool
  | .rawWake _ => true
  | _ => false

def compactedPayloads (s : State) : List Payload :=
  (s.entriesById.toList.map (·.2.payload)).filter isQueueEntry ++
    (s.rawWakesById.toList.map (·.2.payload)).filter isRawWake ++
    s.providerAttemptsByQueue.toList.flatMap fun e => e.2.map .providerAttempt

end State

def notifyWalMagic : Bytes := utf8 "ramflux-notify-wal-v1\n"

/-- Segment files by number, and temporary files of compactions, which no listing shows. -/
structure Directory where
  segments : List Segment
  tmp : List Segment

/-- `file` is the number of the open segment; it stays behind `segmentId` when a roll cannot open the next. -/
structure Writer where
  segmentBytes : ℕ
  segmentId : ℕ
  offset : ℕ
  file : ℕ
  directory : Directory

/-- Where a roll fails: in the sync before it, in opening the new file, or in its header. -/
inductive RollFault
  | sync
  | openFile
  | magic (written : ℕ)

/-- An error once the given number of record bytes reached the files. If a roll is due at that point, it
may be the roll that fails. -/
structure Fault where
  written : ℕ
  roll : Option RollFault := none

def ioError : WalError := .itestJson "input/output error"

namespace Writer

variable (w : Writer)

def put (bytes : Bytes) : Writer :=
  { w with directory := { w.directory with segments := writeTo w.directory.segments w.file bytes } }

/-- `roll_segment` and the sync before it. The offset moves only when all went well. -/
def rollSegment (fault : Option RollFault) : Writer × Except WalError Unit :=
  let next := { w with segmentId := w.segmentId + 1 }
  let opened := { next with file := next.segmentId }
  match fault with
  | none => ({ opened.put notifyWalMagic with offset := notifyWalMagic.length }, .ok ())
  | some .sync => (w, .error ioError)
  | some .openFile => (next, .error ioError)
  | some (.magic written) => (opened.put (notifyWalMagic.take written), .error ioError)

/-- A segment with records is left when the frame does not fit any more. -/
def rolls (frameLen : ℕ) : Bool :=
  notifyWalMagic.length < w.offset && w.segmentBytes < satAdd w.offset frameLen

def ready (frameLen : ℕ) (fault : Option Fault) : Writer × Except WalError Unit :=
  if w.rolls frameLen then
    w.rollSegment (fault.bind fun fault => if fault.written = 0 then fault.roll else none)
  else (w, .ok ())

/-- A whole record, and the offset moves behind it. -/
def wrote (encoded : Bytes) : Writer :=
  { w.put (frame crc32 encoded) with offset := w.offset + (8 + encoded.length) }

end Writer

/-- `append_batch` of the writer. The offset stays behind the last whole record. A fault after all
bytes strikes the final sync. -/
def appendBatch (codec : Codec) (w : Writer) :
    List Payload → Option Fault → Writer × Except WalError (List Location)
  | [], none => (w, .ok [])
  | [], some _ => (w, .error ioError)
  | payload :: payloads, fault =>
    match codec.encode payload with
    | .error e => (w, .error e)
    | .ok encoded =>
      match w.ready (8 + encoded.length) fault with
      | (w, .error e) => (w, .error e)
      | (w, .ok _) =>
        if u32Max < encoded.length then (w, .error (.itestJson "notify WAL record too large"))
        else
          let bytes := frame crc32 encoded
          match fault.filter (·.written < bytes.length) with
          | some fault => (w.put (bytes.take fault.written), .error ioError)
          | none =>
            let later := fault.map fun fault => { fault with written := fault.written - bytes.length }
            let (last, rest) := appendBatch codec (w.wrote encoded) payloads later
            (last, (⟨w.segmentId, w.offset, encoded.length⟩ :: ·) <$> rest)

/-- `read_notify_wal_record`: a torn or corrupt record ends the segment. -/
def readRecord (codec : Codec) (bytes : Bytes) : Except WalError (Option (Payload × ℕ)) :=
  match readFrame crc32 bytes with
  | none => .ok none
  | some encoded => do
    let payload ← codec.decode encoded
    pure (some (payload, encoded.length))

/-- Records of one segment. Records take more than one byte, so fuel above the bytes left suffices. -/
def readRecords (codec : Codec) (segmentId : ℕ) : ℕ → ℕ → Bytes → Except WalError (List RecoveredRecord × ℕ)
  | 0, offset, _ => .ok ([], offset)
  | fuel + 1, offset, bytes => do
    match ← readRecord codec bytes with
    | none => pure ([], offset)
    | some (payload, len) =>
      let (records, last) ← readRecords codec segmentId fuel (offset + (8 + len)) (bytes.drop (8 + len))
      pure (⟨payload, ⟨segmentId, offset, len⟩⟩ :: records, last)

/-- `read_notify_wal_magic`: an empty file gets its header. -/
def readMagic (bytes : Bytes) : Except WalError Bytes :=
  if bytes = [] then .ok notifyWalMagic
  else if bytes.take notifyWalMagic.length ≠ notifyWalMagic then
    .error (.itestJson "invalid notify WAL segment magic")
  else .ok bytes

/-- `recover_notify_wal_segment`: its records, and the file cut behind the last of them. -/
def recoverSegment (codec : Codec) (segment : Segment) :
    Except WalError (List RecoveredRecord × Segment × ℕ) := do
  let bytes ← readMagic segment.bytes
  let (records, offset) ← readRecords codec segment.id (bytes.length + 1) notifyWalMagic.length
    (bytes.drop notifyWalMagic.length)
  pure (records, ⟨segment.id, bytes.take offset⟩, offset)

structure Recovery where
  segments : List Segment
  records : List RecoveredRecord
  lastSegmentId : Option ℕ
  currentOffset : ℕ

def recoverNext (codec : Codec) (recovered : Recovery) (segment : Segment) : Except WalError Recovery := do
  let (records, segment, offset) ← recoverSegment codec segment
  pure ⟨recovered.segments ++ [segment], recovered.records ++ records, some segment.id, offset⟩

def recoverNotifyWal (codec : Codec) (directory : Directory) : Except WalError Recovery :=
  directory.segments.foldlM (recoverNext codec) ⟨[], [], none, 0⟩

def replay (s : State) (records : List RecoveredRecord) : State :=
  records.foldl (fun s r => s.apply r.payload r.location) s

def Recovery.state (r : Recovery) : State := replay .empty r.records

def Writer.open (directory : Directory) (segmentId offset segmentBytes : ℕ) : Writer :=
  let segments :=
    if offset = 0 ∧ bytesOf directory.segments segmentId = [] then
      writeTo directory.segments segmentId notifyWalMagic
    else writeTo directory.segments segmentId []
  ⟨segmentBytes, segmentId, (bytesOf segments segmentId).length, segmentId, { directory with segments }⟩

def openWal (codec : Codec) (directory : Directory) (segmentBytes : ℕ) :
    Except WalError (Writer × State) := do
  let recovered ← recoverNotifyWal codec directory
  pure (.open { directory with segments := recovered.segments } (recovered.lastSegmentId.getD 0)
    recovered.currentOffset (max segmentBytes (1024 * 1024)), recovered.state)

def compactedBytes (codec : Codec) (payloads : List Payload) : Except WalError Bytes :=
  payloads.foldlM (fun bytes payload => do
    let encoded ← codec.encode payload
    refuseWhen (u32Max < encoded.length) (.itestJson "notify WAL record too large")
    pure (bytes ++ frame crc32 encoded)) notifyWalMagic

/-- Number of the compacted segment: above all segments there are. -/
def Writer.compactedId (w : Writer) : ℕ :=
  ((w.directory.segments.map (·.id)).max?.getD w.segmentId) + 1

/-- A compaction is cut off in the temporary file, or after the rename with some old segments removed. -/
inductive CompactionCrash
  | writing (written : ℕ)
  | renamed (removed : ℕ)

/-- Directory that a crash leaves. -/
def Writer.crashed (w : Writer) (bytes : Bytes) : CompactionCrash → Directory
  | .writing written => { w.directory with tmp := [⟨w.compactedId, bytes.take written⟩] }
  | .renamed removed => ⟨w.directory.segments.drop removed ++ [⟨w.compactedId, bytes⟩], []⟩

/-- `compact` of the writer, finished. -/
def Writer.compact (codec : Codec) (w : Writer) (payloads : List Payload) : Except WalError Writer := do
  let bytes ← compactedBytes codec payloads
  let kept := w.directory.segments.filter fun segment => w.compactedId ≤ segment.id
  pure {
    segmentBytes := w.segmentBytes
    segmentId := w.compactedId
    offset := bytes.length
    file := w.compactedId
    directory := ⟨kept ++ [⟨w.compactedId, bytes⟩], []⟩ }

end Ramflux.NotifyWal
