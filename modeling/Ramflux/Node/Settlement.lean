import Ramflux.Node.RouterWal
import Ramflux.Node.Publication
import Ramflux.Lib.Watermark

/-! Durable settlement of a router store: transactions that move a cursor, and rows they may pass. -/
namespace Ramflux

def OrdSet.extend {κ : Type*} [Ord κ] [Std.TransOrd κ] (s : OrdSet κ) (items : List κ) : OrdSet κ :=
  items.foldl (fun s k => s.insert k) s

theorem OrdSet.mem_extend_iff {κ : Type*} [Ord κ] [Std.TransOrd κ] [Std.LawfulEqOrd κ] (s : OrdSet κ)
    (items : List κ) (k : κ) : k ∈ s.extend items ↔ k ∈ s ∨ k ∈ items := by
  have h := OrdSet.mem_foldl_insert (fun k : κ => k) items s k
  simpa [OrdSet.extend] using h

namespace RouterWal.State

variable (s : State) (serverNow : ℤ)

/-- A sweep at `walExpiredAt` leaves out a logged row if all its records are past their deadline. -/
def expired (walExpiredAt : Option ℤ) (keys : OrdSet String) : Bool :=
  walExpiredAt.any fun now => keys.toList.all fun key =>
    s.submissions[key]?.any fun record => record.retainUntil serverNow ≤ now

def issuedSequence (target : String) : ℕ := s.issuedByTarget[target]?.getD 0

def takeEntry (s : State) (key : String) : State :=
  match s.submissions[key]? with
  | none => s
  | some record =>
    match record.entry with
    | none => s
    | some entry => { s with
        submissions := s.submissions.insert key { record with entry := none }
        entryDue := s.entryDue.erase (record.retainUntil serverNow, key)
        submissionsByTarget := s.submissionsByTarget.remove entry key }

def observeSettlement (cursor : CursorAckState) : State :=
  match s.submissionsByTarget[cursor.target]? with
  | none => s
  | some sequences =>
    let settled := (sequences.toList.filter (·.1 ≤ cursor.settledInboxSeq)).flatMap (·.2.toList)
    let named := (cursor.ackedInboxSeqs.toList ++ cursor.retiredInboxSeqs).flatMap fun seq =>
      (sequences[seq]?.getD ∅).toList
    let keys := OrdSet.extend ∅ (settled ++ named)
    keys.toList.foldl (takeEntry serverNow) s

def pruneReplay (s : State) (due : ℤ × String) : State :=
  let s := { s with replayDue := s.replayDue.erase due }
  match s.submissions[due.2]? with
  | none => s
  | some record => { s with
      submissions := s.submissions.erase due.2 }.unindex serverNow record

def pruneEntry (due : ℤ × String) : State :=
  let s := { s with entryDue := s.entryDue.erase due }
  match s.submissions[due.2]? with
  | none => s
  | some record =>
    match record.entry with
    | none => s
    | some entry => { s with
        submissions := s.submissions.insert due.2 { record with entry := none }
        submissionsByTarget := s.submissionsByTarget.remove entry due.2 }

/-- The due indexes are popped in order; neither loop adds to the index it pops. -/
def prune (now : ℤ) : State :=
  let s := (s.replayDue.toList.takeWhile (·.1 < now)).foldl (pruneReplay serverNow) s
  (s.entryDue.toList.takeWhile (·.1 ≤ now)).foldl pruneEntry s

def retentionTargets (now : ℤ) : List String :=
  (s.entryDue.toList.takeWhile (·.1 ≤ now)).filterMap fun due =>
    s.submissions[due.2]?.bind fun record => record.entry.map (·.target)

end RouterWal.State

/-- Published sequence of an inbox, and the settled one below it. -/
def Publication.Shared.settledView (s : Publication.Shared) (target incarnation : String) : ℕ × ℕ :=
  match s.registry.inboxes[(⟨target, incarnation⟩ : Publication.Key)]? with
  | none => (0, 0)
  | some inbox => (inbox.published, min inbox.committedSettled inbox.published)

namespace RouterStore
open RouterWal (Association identityOk)

inductive StoreError
  | redb (detail : String)
  | inboxIncarnationMissing
  deriving DecidableEq

/-- Identity row of a mailbox: its incarnation and the highest sequence issued. -/
structure Identity where
  id : String
  issued : ℕ
  id_ok : identityOk id
  deriving DecidableEq

/-- Cursor row with its incarnation; rows from before incarnations have none. -/
structure StoredCursor where
  cursor : CursorAckState
  inboxIncarnationId : Option String
  deriving DecidableEq

/-- Mailbox row: the entry and the deadline assigned when the router accepted it. -/
structure StoredInboxEntry where
  entry : InboxEntry
  retainUntil : ℤ
  deriving DecidableEq

/-- Cursor rows, each under its own mailbox. -/
structure CursorTable where
  rows : OrdMap String StoredCursor
  filed : ∀ (target : String) (stored : StoredCursor), rows[target]? = some stored →
    stored.cursor.target = target

def CursorTable.empty : CursorTable where
  rows := ∅
  filed := by simp

def CursorTable.insert (table : CursorTable) (stored : StoredCursor) : CursorTable where
  rows := table.rows.insert stored.cursor.target stored
  filed := by
    intro target other h
    rw [OrdMap.getElem?_insert_eq] at h
    split_ifs at h with heq
    · rw [← Option.some.inj h, heq]
    · exact table.filed target other h

/-- Mailbox rows, each under its delivery coordinates. -/
structure MailboxTable where
  rows : OrdMap (String × ℕ) StoredInboxEntry
  filed : ∀ (key : String × ℕ) (row : StoredInboxEntry), rows[key]? = some row →
    key = (row.entry.target, row.entry.inboxSeq) ∧ key.2 ≤ u64Max

namespace MailboxTable

def empty : MailboxTable where
  rows := ∅
  filed := by simp

def insert (table : MailboxTable) (row : StoredInboxEntry) (h : row.entry.inboxSeq ≤ u64Max) :
    MailboxTable where
  rows := table.rows.insert (row.entry.target, row.entry.inboxSeq) row
  filed := by
    intro key other hget
    rw [OrdMap.getElem?_insert_eq] at hget
    split_ifs at hget with heq
    · rw [← Option.some.inj hget, ← heq]
      exact ⟨rfl, h⟩
    · exact table.filed key other hget

variable (table : MailboxTable)

def remove (target : String) (seq : ℕ) : MailboxTable where
  rows := table.rows.erase (target, seq)
  filed := by
    intro key row h
    exact table.filed key row (OrdMap.eq_some_of_erase h).2

def range (target : String) (first last : ℕ) : List StoredInboxEntry :=
  (table.rows.toList.filter fun row => row.1.1 = target ∧ first ≤ row.1.2 ∧ row.1.2 ≤ last).map (·.2)

/-- Whether a sweep removes a row. Keys are cut off at the second after `now`, deadlines before the epoch
are filed under zero, and the row's own deadline is checked again. -/
def isDue (now : ℤ) (row : StoredInboxEntry) : Bool :=
  row.retainUntil.toNat < (satAddI now 1).toNat && row.retainUntil ≤ now

def sweep (now : ℤ) : MailboxTable where
  rows := table.rows.filter fun _ row => !isDue now row
  filed := by
    intro key row h
    rw [OrdMap.getElem?_filter_eq] at h
    exact table.filed key row (Option.filter_eq_some_iff.mp h).1

def dueTargets (now : ℤ) : List String :=
  (table.rows.toList.filter fun row => isDue now row.2).map fun row => row.2.entry.target

end MailboxTable

structure Wal where
  state : RouterWal.State
  association : Option Association

def Wal.reserveIncarnation (wal : Wal) (target : String) : Except StoreError String :=
  match wal.association with
  | none => .error (.redb "WAL has no redb association")
  | some association => .ok (association.reserve target)

def Wal.committedInbox (wal : Wal) (target : String) : Except StoreError (Option (String × ℕ)) := do
  match wal.state.issuedByTarget[target]? with
  | none => pure none
  | some issued => pure (some (← wal.reserveIncarnation target, issued))

/-- Tables, log and publication core that a settlement reads. -/
structure Store where
  identities : OrdMap String Identity
  cursors : CursorTable
  mailboxes : MailboxTable
  wal : Option Wal
  core : Option Publication.Shared

def retires (cursor : CursorAckState) (seq : ℕ) : Prop :=
  cursor.lastAcknowledgedInboxSeq = some seq ∨ seq ∈ cursor.ackedInboxSeqs ∨
    seq ∈ cursor.retiredInboxSeqs

instance (cursor : CursorAckState) (seq : ℕ) : Decidable (retires cursor seq) :=
  inferInstanceAs (Decidable (_ ∨ _ ∨ _))

/-- First live row of the log after the committed floor. -/
def Wal.settlementHead (wal : Wal) (serverNow : ℤ) (cursor : CursorAckState) (previous : ℕ)
    (walExpiredAt : Option ℤ) : Option ℕ :=
  wal.state.submissionsByTarget[cursor.target]?.bind fun sequences =>
    (((sequences.toList.filter (previous < ·.1)).filter fun row =>
      !wal.state.expired serverNow walExpiredAt row.2).map (·.1)).find? fun seq => ¬retires cursor seq

namespace Store

def issued (s : Store) (target : String) (identity : Identity) : ℕ :=
  match s.wal with
  | none => identity.issued
  | some wal => max identity.issued (wal.state.issuedSequence target)

def previousSettled (previous : Option CursorAckState) : ℕ :=
  (previous.map (·.settledInboxSeq)).getD 0

variable (s : Store) (serverNow : ℤ) (cursor incoming : CursorAckState) (target : String) (sequences : List ℕ)

/-- First row of the table after the committed floor that the cursor does not retire. -/
def durableHead (previous : ℕ) : Option ℕ :=
  ((s.mailboxes.range cursor.target (satAdd previous 1) u64Max).map
    (·.entry.inboxSeq)).find? fun seq => ¬retires cursor seq

/-- Receiver commits see every logged row; sweeps and the start-up leave out the expired ones. -/
def checkpointSettlement
    (previous : Option CursorAckState) (walExpiredAt : Option ℤ) : CursorAckState × Option String :=
  match s.identities[incoming.target]? with
  | none => (incoming, none)
  | some identity =>
    let issued := s.issued incoming.target identity
    let floor := previousSettled previous
    let acked := incoming.ackedInboxSeqs.extend
      ((previous.map (·.ackedInboxSeqs.toList)).getD [])
    let cursor := { incoming with
      issuedInboxSeq := max incoming.issuedInboxSeq issued
      ackedInboxSeqs := acked }
    let settled := match s.core with
      | none => issued
      | some core => (core.settledView incoming.target identity.id).1
    let settled := Watermark.cap settled (s.durableHead cursor floor)
    let settled := Watermark.cap settled
      (s.wal.bind fun wal => wal.settlementHead serverNow cursor floor walExpiredAt)
    ({ cursor with
      settledInboxSeq := settled
      ackedInboxSeqs := acked.filter (settled < ·) }, some identity.id)

def receiverSettlement (previous : Option CursorAckState) : CursorAckState × Option String :=
  s.checkpointSettlement serverNow incoming previous none

def setIdentity (issued : ℕ) (id : String) : Except StoreError Store :=
  if s.identities[target]?.any (·.id ≠ id) then
    .error (.redb "inbox incarnation mismatch during persistence")
  else if hid : identityOk id then
    let known := (s.identities[target]?.map (·.issued)).getD 0
    .ok { s with identities := s.identities.insert target ⟨id, max issued known, hid⟩ }
  else .error (.redb "invalid inbox incarnation in stored cursor")

def checkpointIncarnation : Except StoreError Store := do
  match s.wal with
  | none => pure s
  | some wal =>
    match ← wal.committedInbox target with
    | none => pure s
    | some (id, issued) => s.setIdentity target issued id

/-- The cursor row of a mailbox, checked against its identity. -/
def previous : Except StoreError (Option CursorAckState) :=
  match s.cursors.rows[target]? with
  | none => .ok none
  | some stored =>
    if stored.inboxIncarnationId.any fun id => s.identities[target]?.any (·.id ≠ id) then
      .error (.redb "cursor checkpoint incarnation mismatch")
    else .ok (some stored.cursor)

def mergeCursor (previous : Option CursorAckState) (incoming : CursorAckState) : CursorAckState :=
  let result := match previous with
    | none => incoming
    | some old => { incoming with
        settledInboxSeq := max incoming.settledInboxSeq old.settledInboxSeq
        issuedInboxSeq := max incoming.issuedInboxSeq old.issuedInboxSeq
        inboxSeq := max incoming.inboxSeq old.inboxSeq
        lastEnvelopeId :=
          if incoming.inboxSeq < old.inboxSeq then old.lastEnvelopeId else incoming.lastEnvelopeId
        ackedInboxSeqs := incoming.ackedInboxSeqs.extend old.ackedInboxSeqs.toList }
  { result with ackedInboxSeqs := result.ackedInboxSeqs.filter (result.settledInboxSeq < ·) }

def highWater : ℕ :=
  max (max cursor.issuedInboxSeq cursor.inboxSeq) cursor.settledInboxSeq

/-- Retired sequences are never written. -/
def encodeCursor (id : Option String) : StoredCursor :=
  ⟨{ cursor with retiredInboxSeqs := [] }, id⟩

/-- Row for a settled cursor; it may raise the identity's counter. -/
def mergedBytes (previous : Option CursorAckState) : Except StoreError (StoredCursor × Store) := do
  let merged := mergeCursor previous cursor
  match s.identities[cursor.target]? with
  | none => pure (encodeCursor merged none, s)
  | some identity =>
    let merged := { merged with issuedInboxSeq := max merged.issuedInboxSeq identity.issued }
    let s ← if identity.issued < highWater merged then
        s.setIdentity cursor.target (highWater merged) identity.id
      else pure s
    pure (encodeCursor merged (some identity.id), s)

/-- Without an identity an ACK has no effect, and is an error if there is a cursor or a row. -/
def ackCursorBytes (previous : Option CursorAckState) :
    Except StoreError (Option (StoredCursor × Store)) := do
  if s.identities[cursor.target]?.isNone then
    if previous.isSome ∨ s.mailboxes.range cursor.target 0 u64Max ≠ [] then
      throw .inboxIncarnationMissing
    return none
  some <$> s.mergedBytes cursor previous

def insertCursor (stored : StoredCursor) : Store :=
  { s with cursors := s.cursors.insert stored }

def removeRows : Store :=
  { s with mailboxes := sequences.foldl (fun table seq => table.remove target seq) s.mailboxes }

/-- After the commit: the log drops what the cursor settles. -/
def observeSettlement (s : Store) (serverNow : ℤ) (cursor : CursorAckState) : Store :=
  { s with wal := s.wal.map fun wal =>
      { wal with state := wal.state.observeSettlement serverNow cursor } }

def commitSettled (s : Store) (cursor : CursorAckState) (incarnation : Option String) : Store :=
  { s with core := s.core.map fun core =>
      match incarnation with
      | none => core
      | some id => core.commitSettled cursor.target id cursor.settledInboxSeq }

/-- Shared by `record_leased_ack_batch` and `record_leased_nack`: `sequences` are removed as well. -/
def recordReceiver : Except StoreError Store := do
  let txn ← s.checkpointIncarnation cursor.target
  let previous ← txn.previous cursor.target
  let (settled, incarnation) := txn.receiverSettlement serverNow cursor previous
  match ← txn.ackCursorBytes settled previous with
  | none => pure s
  | some (stored, txn) =>
    let txn := (txn.insertCursor stored).removeRows cursor.target
      (sequences ++ settled.retiredInboxSeqs)
    pure ((txn.observeSettlement serverNow settled).commitSettled settled incarnation)

def recordLeasedAckBatch : Except StoreError Store :=
  s.recordReceiver serverNow
    { cursor with retiredInboxSeqs := cursor.retiredInboxSeqs ++ sequences } sequences

def recordLeasedNack : Except StoreError Store :=
  s.recordReceiver serverNow cursor []

/-- Sequences whose rows a retention checkpoint removes. -/
def checkpointRetired (previous : Option CursorAckState) : List ℕ :=
  incoming.retiredInboxSeqs ++ incoming.ackedInboxSeqs.toList ++
    incoming.lastAcknowledgedInboxSeq.toList ++ (previous.map (·.ackedInboxSeqs.toList)).getD []

def writeRetentionCheckpoint
    (walExpiredAt : Option ℤ) : Except StoreError (CursorAckState × Store) := do
  let previous ← s.previous incoming.target
  let (cursor, _) := s.checkpointSettlement serverNow incoming previous walExpiredAt
  let (stored, s) ← s.mergedBytes cursor previous
  pure (cursor, (s.insertCursor stored).removeRows cursor.target
    (checkpointRetired incoming previous))

def publishRetentionCheckpoints (committed : List CursorAckState) : Store :=
  committed.foldl (fun s cursor =>
    (s.observeSettlement serverNow cursor).commitSettled cursor
      (s.core.bind (·.currentIncarnation cursor.target))) s

def retainCursorCheckpointsAt (cursors : List CursorAckState)
    (walExpiredAt : Option ℤ) : Except StoreError Store := do
  let (txn, committed) ← cursors.foldlM (fun (acc : Store × List CursorAckState) cursor => do
    let txn ← acc.1.checkpointIncarnation cursor.target
    let (cursor, txn) ← txn.writeRetentionCheckpoint serverNow cursor walExpiredAt
    pure (txn, acc.2 ++ [cursor])) (s, [])
  pure (txn.publishRetentionCheckpoints serverNow committed)

/-- Mailboxes a sweep checkpoints, in order. -/
def sweepTargets (now : ℤ) : List String :=
  (OrdSet.extend ∅ (s.mailboxes.dueTargets now ++
    ((s.wal.map (·.state.retentionTargets now)).getD []))).toList

def pruneExpired (now : ℤ) : Store :=
  { s with wal := s.wal.map fun wal => { wal with state := wal.state.prune serverNow now } }

def sweepDeliveryRetention (now : ℤ) : Except StoreError Store := do
  let swept := { s with mailboxes := s.mailboxes.sweep now }
  let (txn, committed) ← (s.sweepTargets now).foldlM
    (fun (acc : Store × List CursorAckState) target => do
      let candidate := (← acc.1.previous target).getD (.new target)
      let (cursor, txn) ← acc.1.writeRetentionCheckpoint serverNow candidate (some now)
      pure (txn, acc.2 ++ [cursor])) (swept, [])
  pure ((txn.pruneExpired serverNow now).publishRetentionCheckpoints serverNow committed)

end Store
end RouterStore
end Ramflux
