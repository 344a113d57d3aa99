import Ramflux.Node.RouterWal
import Ramflux.Lib.Framing

/-! Segment files of one shard of the router log: writer, recovery, and the shard as a system of appends,
crashes and reopenings. File lengths and segment numbers are below `2 ^ 64`. -/
namespace Ramflux.RouterWal

def crc32Step (crc : UInt32) : UInt32 :=
  if crc &&& 1 = 1 then (crc >>> 1) ^^^ 0xEDB88320 else crc >>> 1

def crc32 (bytes : Bytes) : UInt32 :=
  (bytes.foldl (fun crc byte => crc32Step^[8] (crc ^^^ byte.toUInt32)) 0xFFFFFFFF) ^^^ 0xFFFFFFFF

example : crc32 (utf8 "123456789") = 0xCBF43926 := by decide +kernel

def routerWalMagic : Bytes := utf8 "ramflux-router-wal-v1\n"

def chainedMagic : Bytes := utf8 "ramflux-router-wal-v2\n"

def chainedHeaderLen : ℕ := chainedMagic.length + 32 + 16

def headerBytes (id : String) (segment previous : ℕ) : Bytes :=
  chainedMagic ++ utf8 id ++ littleEndian 8 segment ++ littleEndian 8 previous

def header (association : Option Association) (segment : ℕ) : Bytes :=
  match association with
  | none => routerWalMagic
  | some association =>
    let previous := match association.head with
      | none => u64Max
      | some head =>
        if head = segment then (if segment = 0 then u64Max else segment - 1) else head
    headerBytes association.directoryId segment previous

/-- Length of the header of a segment, and what a chained one says. -/
def readHeader (bytes : Bytes) : Except WalError (ℕ × Option (String × ℕ × ℕ)) :=
  let magic := bytes.take chainedMagic.length
  if magic.length < chainedMagic.length then .error (.redb "failed to fill whole buffer")
  else if magic = routerWalMagic then .ok (routerWalMagic.length, none)
  else if magic ≠ chainedMagic then
    .error (.redb ("invalid router WAL segment magic; stop router and gateways and use " ++
      "--rotate-inbox-incarnations --quarantine-wal-segment"))
  else if bytes.length < chainedHeaderLen then .error (.redb "failed to fill whole buffer")
  else
    let rest := bytes.drop chainedMagic.length
    match String.fromUTF8? ⟨(rest.take 32).toArray⟩ with
    | none => .error (.redb "invalid utf-8 sequence")
    | some id =>
      if identityOk id then
        .ok (chainedHeaderLen, some (id, ofLittleEndian ((rest.drop 32).take 8),
          ofLittleEndian ((rest.drop 40).take 8)))
      else .error (.redb "invalid inbox incarnation in stored cursor")

structure Segment where
  id : ℕ
  bytes : Bytes
  deriving DecidableEq

/-- Record at the front of the bytes; a torn or corrupt one ends the log. -/
def readRouterWalRecord (codec : Codec) (bytes : Bytes) :
    Except WalError (Option (StoredPayload × ℕ)) :=
  match readFrame crc32 bytes with
  | none => .ok none
  | some payload =>
    match codec.fromBytes payload with
    | .error detail => .error (.snapshotSerialization detail)
    | .ok stored => .ok (some (stored, payload.length))

/-- A newest segment of at most the first magic's length is replaced by an empty one. -/
def replaceEmptyHeader (newest : Bool) (bytes : Bytes) : Bytes :=
  if newest ∧ bytes.length ≤ routerWalMagic.length ∧ bytes ≠ routerWalMagic then routerWalMagic
  else bytes

/-- A newest segment that ends inside a chained header is refused. -/
def repairEmptyHeader (newest : Bool) (bytes : Bytes) : Except WalError Unit :=
  if newest ∧ ¬(bytes.length > chainedHeaderLen ∨ bytes.length ≤ routerWalMagic.length) ∧
      chainedMagic.isPrefixOf bytes ∧ bytes.length < chainedHeaderLen then
    .error (.redb "incomplete chained WAL header")
  else .ok ()

structure Recovery where
  segments : List Segment
  state : State
  lastSegmentId : Option ℕ
  currentOffset : ℕ
  deriving DecidableEq

section
variable (codec : Codec) (contentDigest : ContentDigest) (now : ℤ)

/-- The record loop. Records take more than one byte, so fuel above the bytes left suffices. -/
def recoverRecords (segmentId : ℕ) : ℕ → ℕ → Bytes → State → Except WalError (ℕ × State)
  | 0, offset, _, s => .ok (offset, s)
  | fuel + 1, offset, bytes, s =>
    match readRouterWalRecord codec bytes with
    | .error e => .error e
    | .ok none => .ok (offset, s)
    | .ok (some (stored, len)) =>
      match codec.decodePayload stored s with
      | .error e => .error e
      | .ok (payload, s) =>
        recoverRecords segmentId fuel (offset + (8 + len)) (bytes.drop (8 + len))
          (s.applyWithSenderAssignment contentDigest now payload ⟨segmentId, offset, len⟩
            stored.isSenderAssigned)

/-- Replay one segment and cut it behind its last whole record. -/
def recoverRouterWalSegment (segment : Segment) (newest : Bool) (s : State) :
    Except WalError (Segment × ℕ × State) := do
  let bytes := replaceEmptyHeader newest segment.bytes
  (repairEmptyHeader newest bytes).mapError (WalError.segmentRequiresQuarantine segment.id)
  let (headerLen, _) ← (readHeader bytes).mapError (WalError.segmentRequiresQuarantine segment.id)
  let (offset, s) ← recoverRecords codec contentDigest now segment.id (bytes.length + 1) headerLen
    (bytes.drop headerLen) s
  pure (⟨segment.id, bytes.take offset⟩, offset, s)

def recoverNext (newest : Option Segment) (recovered : Recovery) (segment : Segment) :
    Except WalError Recovery := do
  let (segment, offset, s) ← recoverRouterWalSegment codec contentDigest now segment
    (newest.any (·.id == segment.id)) recovered.state
  pure ⟨recovered.segments ++ [segment], s, some segment.id, offset⟩

/-- Replay the segments of a shard in ascending order. -/
def recoverRouterWalDirectory (segments : List Segment) : Except WalError Recovery :=
  segments.foldlM (recoverNext codec contentDigest now segments.getLast?) ⟨[], default, none, 0⟩

end

structure Writer where
  segmentBytes : ℕ
  segmentId : ℕ
  offset : ℕ
  headerLen : ℕ
  association : Option Association

def bytesOf (segments : List Segment) (id : ℕ) : Bytes :=
  ((segments.find? (·.id == id)).map Segment.bytes).getD []

def writeTo (segments : List Segment) (id : ℕ) (bytes : Bytes) : List Segment :=
  if segments.any (·.id == id) then
    segments.map fun segment =>
      if segment.id = id then { segment with bytes := segment.bytes ++ bytes } else segment
  else segments ++ [⟨id, bytes⟩]

/-- The association's record of the newest segment. -/
def recordHead (association : Option Association) (segment : ℕ) : Option Association :=
  association.map fun association => { association with head := some segment }

def Writer.openAssociated (segments : List Segment) (segmentId offset segmentBytes : ℕ)
    (association : Option Association) : Except WalError (Writer × List Segment) := do
  let segments :=
    if offset = 0 ∧ bytesOf segments segmentId = [] then
      writeTo segments segmentId (header association segmentId)
    else writeTo segments segmentId []
  let (headerLen, _) ← readHeader (bytesOf segments segmentId)
  pure (⟨segmentBytes, segmentId, (bytesOf segments segmentId).length, headerLen,
    recordHead association segmentId⟩, segments)

def Writer.rollSegment (w : Writer) (segments : List Segment) : Writer × List Segment :=
  let segmentId := w.segmentId + 1
  let header := header w.association segmentId
  ({ w with
      segmentId := segmentId
      offset := header.length
      headerLen := header.length
      association := recordHead w.association segmentId },
    writeTo segments segmentId header)

def Writer.writeRecord (w : Writer) (encoded : Bytes) (segments : List Segment) :
    Except WalError (Location × Writer × List Segment) :=
  if encoded.length > u32Max then .error (.itestJson "router WAL record too large")
  else .ok (⟨w.segmentId, w.offset, encoded.length⟩,
    { w with offset := w.offset + (8 + encoded.length) },
    writeTo segments w.segmentId (frame crc32 encoded))

/-- A segment with records is left when the frame does not fit, or after an hour. -/
def Writer.rolls (w : Writer) (frameLen : ℕ) (aged : Bool) : Bool :=
  w.headerLen < w.offset && (w.segmentBytes < satAdd w.offset frameLen || aged)

def Codec.encode (codec : Codec) (association : Option Association) (payload : Payload) :
    Except WalError Bytes := do
  let stored ← codec.encodePayload association payload
  (codec.toAllocvec stored).mapError WalError.snapshotSerialization

/-- One round of the batch loop. -/
def Writer.append (codec : Codec) (aged : Bool) (w : Writer) (segments : List Segment)
    (payload : Payload) : Except WalError (Location × Writer × List Segment) := do
  let encoded ← codec.encode w.association payload
  let (w, segments) :=
    if w.rolls (8 + encoded.length) aged then w.rollSegment segments else (w, segments)
  w.writeRecord encoded segments

/-- A fully written record, with the incarnation it was logged under. -/
structure LogRecord where
  payload : Payload
  incarnation : Option String
  location : Location
  deriving DecidableEq

def LogRecord.stop (r : LogRecord) : ℕ := r.location.offset + (8 + r.location.len)

structure Shard where
  segments : List Segment
  writer : Option Writer
  state : State

def Shard.empty : Shard := ⟨[], none, default⟩

inductive Event
  | append (record : LogRecord)
  | crash (newest keep : ℕ)
  | reopen

/-- What is left of the segments when only the first `keep` bytes of the newest survive. -/
def cutNewest (keep : ℕ) (segments : List Segment) : List Segment :=
  segments.dropLast ++ (segments.getLast?.map fun segment =>
    { segment with bytes := segment.bytes.take keep }).toList

/-- The reopened association knows the log's incarnations; otherwise the store rewrites the log. -/
def Agrees (association : Option Association) (s : State) : Prop :=
  ∀ a ∈ association, ∀ (target id : String), s.incarnations[target]? = some id → a.reserve target = id

/-- Live projection of one more durable record. -/
def State.live (contentDigest : ContentDigest) (now : ℤ) (s : State) (r : LogRecord) : State :=
  (s.prepareSenderIdentity r.incarnation r.payload).apply contentDigest now r.payload r.location

def liveProjection (contentDigest : ContentDigest) (now : ℤ) (records : List LogRecord) : State :=
  records.foldl (State.live contentDigest now) default

section
variable (codec : Codec) (contentDigest : ContentDigest)

inductive Step : Shard → Event → Shard → Prop
  | append {s : Shard} {w w' : Writer} {payload : Payload} {location : Location}
      {segments : List Segment} (now : ℤ) (aged : Bool) :
      s.writer = some w →
      payload.acceptedAt.isSome →
      w.append codec aged s.segments payload = .ok (location, w', segments) →
      Step s (.append ⟨payload, incarnationOf w.association payload, location⟩)
        ⟨segments, some w', s.state.live contentDigest now
          ⟨payload, incarnationOf w.association payload, location⟩⟩
  | crash {s : Shard} {older : List Segment} {segment : Segment}
      {header : ℕ × Option (String × ℕ × ℕ)} (keep : ℕ) :
      s.segments = older ++ [segment] →
      readHeader segment.bytes = .ok header →
      header.1 ≤ keep →
      Step s (.crash segment.id keep) ⟨cutNewest keep s.segments, none, default⟩
  | reopen {s : Shard} {recovered : Recovery} {association : Option Association} {w : Writer}
      {segments : List Segment} (now : ℤ) (segmentBytes : ℕ) :
      s.writer = none →
      recoverRouterWalDirectory codec contentDigest now s.segments = .ok recovered →
      Agrees association recovered.state →
      Writer.openAssociated recovered.segments (recovered.lastSegmentId.getD 0)
        recovered.currentOffset segmentBytes association = .ok (w, segments) →
      Step s .reopen ⟨segments, some w, recovered.state⟩

end

/-- A record survives a crash when it is in an older segment, or ends within the bytes kept. -/
def LogRecord.survives (newest keep : ℕ) (r : LogRecord) : Bool :=
  r.location.segmentId != newest || r.stop ≤ keep

/-- Fully written records that no crash has cut off, in the order they were written. -/
def survivors (events : List Event) : List LogRecord :=
  events.foldl (fun records event =>
    match event with
    | .append record => records ++ [record]
    | .crash newest keep => records.filter (LogRecord.survives newest keep)
    | .reopen => records) []

/-- End of the records in the newest segment: behind the last one, or behind the header. -/
def writtenEnd (headerLen newest : ℕ) (records : List LogRecord) : ℕ :=
  ((records.filter (·.location.segmentId == newest)).getLast?.map LogRecord.stop).getD headerLen

end Ramflux.RouterWal
