import Ramflux.Lib.OrdCount
import Ramflux.Node.Inbox
import Ramflux.Protocol.HomeMigration

/-! Drain obligations of a committed migration: deliveries left in a mailbox are captured as rows, and
settled by the new home or by the receiver. -/
namespace Ramflux.Home
open Fallible Custody

inductive MigrationDrainState
  | pending
  | held
  | rejected
  deriving DecidableEq

structure MigrationDrainEntry where
  anchor : String
  migrationId : String
  entry : InboxEntry
  retainUntil : ℤ
  state : MigrationDrainState
  attempts : ℕ
  nextAttempt : ℕ
  deriving DecidableEq

inductive MigrationDrainOutcome
  | bAck
  | held
  | rejected
  | expired
  deriving DecidableEq

structure BacklogProgress where
  scheduled : ℕ
  forwarded : ℕ
  receiverAcked : ℕ
  expired : ℕ
  rejected : ℕ
  evidenceRequired : ℕ
  remaining : ℕ
  deriving DecidableEq

structure MigrationBacklogCursor where
  anchor : String
  migrationId : String
  target : String
  highWater : ℕ
  nextSeq : ℕ
  progress : BacklogProgress
  deriving DecidableEq

inductive DrainError
  | refusal (code : Refusal)
  | storage (text : String)
  | migrationDrainCorrupt (text : String)
  deriving DecidableEq

/-- Storage key of a delivery: mailbox and sequence. -/
abbrev DrainKey := String × ℕ

abbrev CursorKey := String × (String × String)

structure DrainStore where
  floor : ℕ
  entries : OrdMap DrainKey MigrationDrainEntry
  backlog : OrdMap CursorKey MigrationBacklogCursor
  cursors : OrdMap String CursorAckState
  inboxRows : OrdMap DrainKey (InboxEntry × ℤ)

def MigrationDrainEntry.key (row : MigrationDrainEntry) : DrainKey :=
  (row.entry.target, row.entry.inboxSeq)

def MigrationDrainEntry.cursorKey (row : MigrationDrainEntry) : CursorKey :=
  (row.anchor, row.migrationId, row.entry.target)

def MigrationBacklogCursor.key (cursor : MigrationBacklogCursor) : CursorKey :=
  (cursor.anchor, cursor.migrationId, cursor.target)

/-- A mailbox's cursor as the cutover view writes it, with nothing settled. -/
def MigrationBacklogCursor.start (anchor migrationId target : String) (highWater pending : ℕ) :
    MigrationBacklogCursor where
  anchor := anchor
  migrationId := migrationId
  target := target
  highWater := highWater
  nextSeq := 0
  progress :=
    { scheduled := pending
      forwarded := 0
      receiverAcked := 0
      expired := 0
      rejected := 0
      evidenceRequired := 0
      remaining := pending }

namespace DrainStore

variable (s : DrainStore) (row : MigrationDrainEntry) (outcome : MigrationDrainOutcome)
  (wal : String → Except DrainError (List (InboxEntry × ℤ))) (cursors : List MigrationBacklogCursor)
  (now : ℕ) (state : MigrationDrainState) (cursor : CursorAckState)

def clock : Except DrainError ℕ :=
  if maxSafeJsonInteger < now then .error (.refusal .commitExpired) else .ok (max now s.floor)

/-- Deliveries of a mailbox with their deadlines: logged ones, and stored rows, which win. -/
def captureEntries (logged : List (InboxEntry × ℤ)) (cursor : MigrationBacklogCursor) :
    OrdMap ℕ (InboxEntry × ℤ) :=
  let rows := s.inboxRows.toList.filter fun row =>
    row.1.1 = cursor.target ∧ row.1.2 ≤ cursor.highWater
  (logged ++ rows.map (·.2)).foldl (fun m item => m.insert item.1.inboxSeq item) ∅

/-- One delivery: left out, or written as a pending row. -/
def captureRow (cursor : MigrationBacklogCursor) (settled : CursorAckState) (now : ℕ)
    (acc : DrainStore × ℕ) (item : ℕ × (InboxEntry × ℤ)) : Except DrainError (DrainStore × ℕ) :=
  let (s, count) := acc
  let (seq, (entry, retainUntil)) := item
  if cursor.highWater < seq then .ok acc
  else if i64Max < now then .error (.storage "out of range integral type conversion attempted")
  else if retainUntil ≤ now ∨ seq ≤ settled.settledInboxSeq ∨ seq ∈ settled.ackedInboxSeqs then .ok acc
  else do
    let row : MigrationDrainEntry :=
      { anchor := cursor.anchor
        migrationId := cursor.migrationId
        entry
        retainUntil
        state := .pending
        attempts := 0
        nextAttempt := now }
    let key := (cursor.target, seq)
    refuseWhen (s.entries[key]?.isSome) (.storage "overlapping migration drain obligation")
    pure ({ s with entries := s.entries.insert key row }, count + 1)

/-- One mailbox. The log's view of it may be missing a deadline. -/
def captureCursor (s : DrainStore)
    (cursor : MigrationBacklogCursor) : Except DrainError DrainStore := do
  let logged ← wal cursor.target
  let settled := s.cursors[cursor.target]?.getD (.new "")
  let (s, count) ← (s.captureEntries logged cursor).toList.foldlM (captureRow cursor settled now) (s, 0)
  refuseWhen (count ≠ cursor.progress.remaining) (.storage "migration drain snapshot count changed")
  pure s

def capture : Except DrainError DrainStore :=
  cursors.foldlM (captureCursor wal now) s

def scheduleBacklog : DrainStore :=
  { s with backlog := cursors.foldl (fun m cursor => m.insert cursor.key cursor) s.backlog }

/-- The part of a commit that captures its backlog. -/
def captureBacklog : Except DrainError DrainStore := do
  let now ← s.clock now
  let s ← { s with floor := now }.capture wal cursors now
  pure (s.scheduleBacklog cursors)

def sub (value : ℕ) : Except DrainError ℕ :=
  if value = 0 then .error (.migrationDrainCorrupt "migration counter underflow") else .ok (value - 1)

def add (value : ℕ) : Except DrainError ℕ :=
  if u64Max ≤ value then .error (.migrationDrainCorrupt "migration counter overflow") else .ok (value + 1)

variable (receiver : Bool) (p : BacklogProgress)

def leaveState : Except DrainError BacklogProgress :=
  match state with
  | .held => return { p with evidenceRequired := ← sub p.evidenceRequired }
  | .rejected => return { p with rejected := ← sub p.rejected }
  | .pending => .ok p

def enterState : Except DrainError BacklogProgress :=
  match state with
  | .held => return { p with evidenceRequired := ← add p.evidenceRequired }
  | .rejected => return { p with rejected := ← add p.rejected }
  | .pending => .ok p

/-- A row leaves the remaining ones for the counter of its settlement. -/
def finishRow : Except DrainError BacklogProgress := do
  let remaining ← sub p.remaining
  let p := { p with remaining }
  if receiver then return { p with receiverAcked := ← add p.receiverAcked }
  else if outcome = .bAck then return { p with forwarded := ← add p.forwarded }
  else return { p with expired := ← add p.expired }

def conserved : Except DrainError Unit := do
  refuseWhen (u64Max < p.remaining + p.forwarded + p.receiverAcked + p.expired)
    (.migrationDrainCorrupt "migration counter overflow")
  refuseWhen (p.scheduled ≠ p.remaining + p.forwarded + p.receiverAcked + p.expired ∨
      u64Max < p.rejected + p.evidenceRequired ∨ p.remaining < p.rejected + p.evidenceRequired)
    (.migrationDrainCorrupt "migration counters do not conserve")

def firstOutstanding (target : String) : Option ℕ :=
  (s.entries.toList.find? fun e => e.1.1 = target).map (·.2.entry.inboxSeq)

def acknowledge (highWater : ℕ) : CursorAckState :=
  let target := row.entry.target
  let settled := s.cursors[target]?.getD (.new target)
  { settled with
    issuedInboxSeq := max settled.issuedInboxSeq highWater
    ackedInboxSeqs := settled.ackedInboxSeqs.insert row.entry.inboxSeq }

def terminal : Bool :=
  receiver || outcome = .bAck || outcome = .expired

def settleRow (highWater : ℕ) : DrainStore :=
  { s with
    entries := s.entries.erase row.key
    inboxRows := s.inboxRows.erase row.key
    cursors := s.cursors.insert row.entry.target (s.acknowledge row highWater) }

/-- State of a row that was held or refused once more. -/
def retryState (outcome : MigrationDrainOutcome) : MigrationDrainState :=
  if state = .rejected ∨ outcome = .rejected then .rejected else .held

def retryRow : MigrationDrainEntry :=
  let attempts := satAdd row.attempts 1
  { row with
    state := retryState row.state outcome
    attempts
    nextAttempt := satAdd now (2 ^ min attempts 8) }

/-- `apply` to an outstanding row whose cursor was found. -/
def applyCursor (cursor : MigrationBacklogCursor)
    (outcome : MigrationDrainOutcome) (now : ℕ) (receiver : Bool) : Except DrainError DrainStore := do
  refuseWhen (outcome = .expired ∧ receiver = false ∧ i64Max < now)
    (.storage "out of range integral type conversion attempted")
  refuseWhen (outcome = .expired ∧ receiver = false ∧ now < row.retainUntil)
    (.storage "premature drain expiry")
  let progress ← leaveState row.state cursor.progress
  if terminal outcome receiver then do
    let progress ← finishRow outcome receiver progress
    let s := s.settleRow row cursor.highWater
    let nextSeq := (s.firstOutstanding row.entry.target).getD (satAdd cursor.highWater 1)
    conserved progress
    pure { s with backlog := s.backlog.insert row.cursorKey { cursor with nextSeq, progress } }
  else do
    let row := retryRow row outcome now
    let progress ← enterState row.state progress
    conserved progress
    pure { s with
      entries := s.entries.insert row.key row
      backlog := s.backlog.insert row.cursorKey { cursor with progress } }

def apply : Except DrainError DrainStore :=
  match s.backlog[row.cursorKey]? with
  | none => .error (.migrationDrainCorrupt "missing drain cursor")
  | some cursor => s.applyCursor row cursor outcome now receiver

/-- `settle_drain_inner`; lease and checkpoint may fail, and a row that is gone is no error. -/
def settleMigrationDrain (lease checkpoint : Option String) : Except DrainError DrainStore := do
  refuseWhen (terminal outcome false ∧ lease.isSome) (.storage (lease.getD ""))
  let now ← s.clock now
  match s.entries[row.key]? with
  | none => pure s
  | some current => do
    refuseWhen (current.anchor ≠ row.anchor ∨ current.migrationId ≠ row.migrationId ∨
        current.entry ≠ row.entry) (.migrationDrainCorrupt "stale migration drain obligation")
    refuseWhen (terminal outcome false ∧ checkpoint.isSome) (.storage (checkpoint.getD ""))
    { s with floor := now }.apply current outcome now false

def receiverAck (target : String) (seq : ℕ) : Except DrainError DrainStore :=
  match s.entries[(target, seq)]? with
  | none => .ok s
  | some row => s.apply row .bAck 0 true

/-- Stored cursor with the sequences that the given one retires; its own are not stored. -/
def mergeRetired : CursorAckState :=
  let stored := s.cursors[cursor.target]?.map fun c => { c with retiredInboxSeqs := [] }
  let merged := stored.getD cursor
  { merged with retiredInboxSeqs := merged.retiredInboxSeqs ++ cursor.retiredInboxSeqs }

/-- A sequence the receiver is done with. -/
def receiverDone (seq : ℕ) : Bool :=
  seq ≤ cursor.settledInboxSeq ∨ seq ∈ cursor.ackedInboxSeqs ∨ seq ∈ cursor.retiredInboxSeqs ∨
    cursor.lastAcknowledgedInboxSeq = some seq

def receiverSettled : Except DrainError DrainStore :=
  let cursor := s.mergeRetired cursor
  let rows := (s.entries.toList.filter fun e => e.1.1 = cursor.target).map (·.2)
  let done := (rows.map (·.entry.inboxSeq)).filter (receiverDone cursor)
  done.foldlM (fun s seq => s.receiverAck cursor.target seq) s

end DrainStore

end Ramflux.Home
