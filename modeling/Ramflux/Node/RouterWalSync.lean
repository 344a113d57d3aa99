import Ramflux.Node.RouterWalSegments
import Mathlib.Logic.Relation

/-! Writer threads of one shard of the router log. A batch is written and synced by one thread or by two;
each write and sync can fail, which fences the process. A sync has a beginning and an end, so that writes of
the other thread can fall in between. -/
namespace Ramflux.RouterWal

structure Request where
  id : ℕ
  payload : Payload

structure Reply where
  request : Request
  location : Location

/-- What a thread does to the files or to its callers. -/
inductive IoEvent
  /-- The first bytes of a record may be in the file. -/
  | begun (request : Request) (location : Location)
  /-- All bytes of a record are in the file. -/
  | wrote (request : Request) (location : Location)
  /-- A sync of a file succeeded that began when `since` events had happened. -/
  | synced (file since : ℕ)
  | acked (request : Request) (location : Location)
  | refused (request : Request)

/-- Progress of one batch: requests to write, replies to give, and the files to sync for them. -/
structure Batch where
  todo : List Request
  done : List Reply
  files : List ℕ

def Batch.requests (batch : Batch) : List Request := batch.done.map Reply.request ++ batch.todo

/-- A segment's file is listed once. -/
def pushUniqueRouterWalFile (files : List ℕ) (file : ℕ) : List ℕ :=
  if files.contains file then files else files ++ [file]

/-- Place of the writer thread in its loop. A request is encoded before its segment is chosen, so the
bytes are carried along. -/
inductive Phase
  | idle
  | next (batch : Batch)
  /-- Sync of the segment that is about to be left. -/
  | leave (batch : Batch) (encoded : Bytes) (since : ℕ)
  | roll (batch : Batch) (encoded : Bytes)
  /-- Sync of a new segment that has only its header. -/
  | header (batch : Batch) (encoded : Bytes) (since : ℕ)
  | write (batch : Batch) (encoded : Bytes)
  | writing (batch : Batch) (encoded : Bytes)
  /-- A write has failed and left some of its bytes. -/
  | torn (batch : Batch)
  | sync (batch : Batch) (since : ℕ)
  | index (replies : List Reply)
  | reply (replies : List Reply)
  | stopped

/-- Batch that an error of this phase fails. -/
def Phase.batch? : Phase → Option Batch
  | .next batch | .leave batch _ _ | .roll batch _ | .header batch _ _ | .write batch _
  | .writing batch _ | .torn batch | .sync batch _ => some batch
  | .idle | .index _ | .reply _ | .stopped => none

/-- Place of the sync thread in its loop. -/
inductive SyncPhase
  | idle
  | sync (groups : List Batch) (files : List ℕ)
  | syncing (groups : List Batch) (file : ℕ) (files : List ℕ) (since : ℕ)
  | index (groups : List Batch)
  | reply (replies : List Reply) (groups : List Batch)
  | stopped

/-- Groups that an error of this phase fails. -/
def SyncPhase.groups? : SyncPhase → Option (List Batch)
  | .sync groups _ | .syncing groups _ _ _ => some groups
  | .idle | .index _ | .reply _ _ | .stopped => none

/-- Files of several groups, each once, in order of first use. -/
def collectFiles (groups : List Batch) : List ℕ :=
  groups.foldl (fun files group => group.files.foldl pushUniqueRouterWalFile files) []

structure Sys where
  pipeline : Bool
  writer : Writer
  poisoned : Bool
  segments : List Segment
  fenced : Bool
  phase : Phase
  queue : List Batch
  syncer : SyncPhase
  trace : List IoEvent

def Sys.place (s : Sys) (encoded : Bytes) : Location :=
  ⟨s.writer.segmentId, s.writer.offset, encoded.length⟩

/-- Batch with the writer's file listed for its sync; only the pipelined path keeps that list. -/
def Sys.listFile (s : Sys) (batch : Batch) : Batch :=
  if s.pipeline then
    { batch with files := pushUniqueRouterWalFile batch.files s.writer.segmentId }
  else batch

def refusals (requests : List Request) : List IoEvent := requests.map IoEvent.refused

section
variable (codec : Codec)

/-- Steps of the two threads and of the rest of the process. A thread first finds the process not fenced;
an error takes it to `stopped`. -/
inductive ThreadStep : Sys → Sys → Prop
  /-- Another component fences the process. -/
  | fence (s : Sys) : ThreadStep s { s with fenced := true }
  | start {s : Sys} (requests : List Request) : s.phase = .idle → s.fenced = false →
      ThreadStep s { s with phase := .next ⟨requests, [], []⟩ }
  | close {s : Sys} : s.phase = .idle → ThreadStep s { s with phase := .stopped }
  | leaveSegment {s : Sys} {batch : Batch} {request : Request} {rest : List Request} {encoded : Bytes}
      (aged : Bool) : s.phase = .next batch → batch.todo = request :: rest → s.fenced = false →
      s.poisoned = false → codec.encode s.writer.association request.payload = .ok encoded →
      s.writer.rolls (8 + encoded.length) aged →
      ThreadStep s { s with
        phase := if s.pipeline then .roll batch encoded else .leave batch encoded s.trace.length }
  | keepSegment {s : Sys} {batch : Batch} {request : Request} {rest : List Request} {encoded : Bytes}
      (aged : Bool) : s.phase = .next batch → batch.todo = request :: rest → s.fenced = false →
      s.poisoned = false → codec.encode s.writer.association request.payload = .ok encoded →
      s.writer.rolls (8 + encoded.length) aged = false →
      ThreadStep s { s with phase := .write (s.listFile batch) encoded }
  | left {s : Sys} {batch : Batch} {encoded : Bytes} {since : ℕ} :
      s.phase = .leave batch encoded since → s.fenced = false →
      ThreadStep s { s with
        trace := s.trace ++ [.synced s.writer.segmentId since]
        phase := .roll batch encoded }
  | openSegment {s : Sys} {batch : Batch} {encoded : Bytes} : s.phase = .roll batch encoded →
      s.fenced = false →
      ThreadStep s { s with
        segments := (s.writer.rollSegment s.segments).2
        phase := .header batch encoded s.trace.length }
  | rolled {s : Sys} {batch : Batch} {encoded : Bytes} {since : ℕ} :
      s.phase = .header batch encoded since → s.fenced = false →
      ThreadStep s { s with
        trace := s.trace ++ [.synced (s.writer.segmentId + 1) since]
        writer := (s.writer.rollSegment s.segments).1
        phase := .write ({ s with writer := (s.writer.rollSegment s.segments).1 }.listFile batch)
          encoded }
  | beginRecord {s : Sys} {batch : Batch} {request : Request} {rest : List Request} {encoded : Bytes} :
      s.phase = .write batch encoded → batch.todo = request :: rest → s.fenced = false →
      encoded.length ≤ u32Max →
      ThreadStep s { s with
        trace := s.trace ++ [.begun request (s.place encoded)]
        phase := .writing batch encoded }
  | writeRecord {s : Sys} {batch : Batch} {request : Request} {rest : List Request} {encoded : Bytes}
      {location : Location} {writer : Writer} {segments : List Segment} :
      s.phase = .writing batch encoded → batch.todo = request :: rest → s.fenced = false →
      s.writer.writeRecord encoded s.segments = .ok (location, writer, segments) →
      ThreadStep s { s with
        trace := s.trace ++ [.wrote request location]
        writer := writer
        segments := segments
        phase := .next { batch with todo := rest, done := batch.done ++ [⟨request, location⟩] } }
  /-- A failing write leaves a beginning of the frame. -/
  | tearRecord {s : Sys} {batch : Batch} {encoded : Bytes} (n : ℕ) :
      s.phase = .writing batch encoded →
      ThreadStep s { s with
        segments := writeTo s.segments s.writer.segmentId ((frame crc32 encoded).take n)
        phase := .torn batch }
  | beginSync {s : Sys} {batch : Batch} : s.phase = .next batch → batch.todo = [] →
      s.pipeline = false → s.fenced = false →
      ThreadStep s { s with phase := .sync batch s.trace.length }
  | endSync {s : Sys} {batch : Batch} {since : ℕ} : s.phase = .sync batch since →
      s.fenced = false →
      ThreadStep s { s with
        trace := s.trace ++ [.synced s.writer.segmentId since]
        phase := .index batch.done }
  | enqueue {s : Sys} {batch : Batch} : s.phase = .next batch → batch.todo = [] →
      s.pipeline = true → s.fenced = false →
      ThreadStep s { s with queue := s.queue ++ [batch], phase := .idle }
  /-- The projection is updated before the first reply. -/
  | updateIndex {s : Sys} {replies : List Reply} : s.phase = .index replies → s.fenced = false →
      ThreadStep s { s with phase := .reply replies }
  | indexFails {s : Sys} {replies : List Reply} : s.phase = .index replies →
      ThreadStep s { s with
        fenced := true
        trace := s.trace ++ refusals (replies.map Reply.request)
        phase := .stopped }
  | reply {s : Sys} {request : Request} {location : Location} {rest : List Reply} :
      s.phase = .reply (⟨request, location⟩ :: rest) → s.fenced = false →
      ThreadStep s { s with
        trace := s.trace ++ [.acked request location]
        phase := .reply rest }
  | replied {s : Sys} : s.phase = .reply [] → ThreadStep s { s with phase := .idle }
  | abandon {s : Sys} {replies : List Reply} :
      s.phase = .index replies ∨ s.phase = .reply replies → s.fenced →
      ThreadStep s { s with phase := .stopped }
  /-- An error of a batch fences the process, answers every request with it and ends the loop. -/
  | fail {s : Sys} {batch : Batch} (poisoned : Bool) : s.phase.batch? = some batch →
      ThreadStep s { s with
        fenced := true
        poisoned := s.poisoned || poisoned
        trace := s.trace ++ refusals batch.requests
        phase := .stopped }
  | take {s : Sys} {groups rest : List Batch} : s.syncer = .idle → s.fenced = false →
      s.queue = groups ++ rest → groups ≠ [] →
      ThreadStep s { s with queue := rest, syncer := .sync groups (collectFiles groups) }
  | closeSyncer {s : Sys} : s.syncer = .idle → ThreadStep s { s with syncer := .stopped }
  | beginFileSync {s : Sys} {groups : List Batch} {file : ℕ} {files : List ℕ} :
      s.syncer = .sync groups (file :: files) → s.fenced = false →
      ThreadStep s { s with syncer := .syncing groups file files s.trace.length }
  | endFileSync {s : Sys} {groups : List Batch} {file : ℕ} {files : List ℕ} {since : ℕ} :
      s.syncer = .syncing groups file files since → s.fenced = false →
      ThreadStep s { s with
        trace := s.trace ++ [.synced file since]
        syncer := .sync groups files }
  | filesSynced {s : Sys} {groups : List Batch} : s.syncer = .sync groups [] → s.fenced = false →
      ThreadStep s { s with syncer := .index groups }
  | syncFails {s : Sys} {groups : List Batch} : s.syncer.groups? = some groups →
      ThreadStep s { s with
        fenced := true
        trace := s.trace ++ refusals (groups.flatMap Batch.requests)
        syncer := .stopped }
  | updateGroupIndex {s : Sys} {group : Batch} {groups : List Batch} :
      s.syncer = .index (group :: groups) → s.fenced = false →
      ThreadStep s { s with syncer := .reply group.done groups }
  | groupIndexFails {s : Sys} {group : Batch} {groups : List Batch} :
      s.syncer = .index (group :: groups) →
      ThreadStep s { s with
        fenced := true
        trace := s.trace ++ refusals group.requests
        syncer := .stopped }
  | groupReply {s : Sys} {request : Request} {location : Location} {rest : List Reply}
      {groups : List Batch} : s.syncer = .reply (⟨request, location⟩ :: rest) groups →
      s.fenced = false →
      ThreadStep s { s with
        trace := s.trace ++ [.acked request location]
        syncer := .reply rest groups }
  | groupReplied {s : Sys} {groups : List Batch} : s.syncer = .reply [] groups →
      ThreadStep s { s with syncer := .index groups }
  | groupsReplied {s : Sys} : s.syncer = .index [] → ThreadStep s { s with syncer := .idle }
  | abandonGroups {s : Sys} {replies : List Reply} {groups : List Batch} :
      s.syncer = .index groups ∨ s.syncer = .reply replies groups → s.fenced →
      ThreadStep s { s with syncer := .stopped }

end

structure Sys.Fresh (s : Sys) : Prop where
  phase : s.phase = .idle
  queue : s.queue = []
  syncer : s.syncer = .idle
  trace : s.trace = []

end Ramflux.RouterWal
