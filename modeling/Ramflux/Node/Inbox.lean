import Ramflux.Protocol.Types
import Ramflux.Lib.Run

/-! Mailboxes of a router shard, for an inbox without a publication core: pending deliveries, cursors,
dead letters and the expiry index. A missing inner map reads as empty. -/
namespace Ramflux

def routerAckWindow : ℕ := 1024

/-- NACKs accepted for one delivery before it leaves the redelivery window. -/
def routerNackRetryLimit : ℕ := 3
def routerDeadLetterLimit : ℕ := 128

inductive NodeCoreError
  | envelopeNotFound (envelopeId : String)
  | ambiguousEnvelopeId (envelopeId : String)
  | itestHttp (detail : String)
  deriving DecidableEq

structure InboxEntry where
  inboxSeq : ℕ
  target : String
  envelope : Envelope
  deriving DecidableEq

inductive DeadLetterReason
  | nacked (reason : NackReason)
  | ackWindowOverflow
  deriving DecidableEq

structure DeadLetterRecord where
  inboxSeq : ℕ
  envelopeId : String
  reason : DeadLetterReason
  retainUntil : ℤ
  deriving DecidableEq

structure CursorAckState where
  target : String
  inboxSeq : ℕ
  lastEnvelopeId : Option String
  settledInboxSeq : ℕ
  issuedInboxSeq : ℕ
  recentAckIds : List String
  ackedEnvelopeIds : OrdSet String
  ackedInboxSeqs : OrdSet ℕ
  lastAcknowledgedInboxSeq : Option ℕ
  nackedEnvelopeIds : OrdMap String NackReason
  nackAttempts : OrdMap ℕ ℕ
  deadLetters : List DeadLetterRecord
  retiredInboxSeqs : List ℕ
  deriving DecidableEq

def CursorAckState.new (target : String) : CursorAckState where
  target := target
  inboxSeq := 0
  lastEnvelopeId := none
  settledInboxSeq := 0
  issuedInboxSeq := 0
  recentAckIds := []
  ackedEnvelopeIds := ∅
  ackedInboxSeqs := ∅
  lastAcknowledgedInboxSeq := none
  nackedEnvelopeIds := ∅
  nackAttempts := ∅
  deadLetters := []
  retiredInboxSeqs := []

def boundQueue {α : Type} (limit : ℕ) (queue : List α) : List α := queue.drop (queue.length - limit)

namespace CursorAckState
variable (cursor : CursorAckState)

/-- What a dead-lettered delivery leaves in the cursor. -/
def recordDeadLetter (record : DeadLetterRecord) : CursorAckState :=
  { cursor with
    nackAttempts := cursor.nackAttempts.erase record.inboxSeq
    ackedInboxSeqs := if cursor.settledInboxSeq < record.inboxSeq then
        cursor.ackedInboxSeqs.insert record.inboxSeq
      else cursor.ackedInboxSeqs
    retiredInboxSeqs := cursor.retiredInboxSeqs ++ [record.inboxSeq]
    deadLetters := boundQueue routerDeadLetterLimit (cursor.deadLetters ++ [record]) }

def acknowledge (entrySeq : ℕ) (envelopeId : String) : CursorAckState :=
  let recent := if envelopeId ∈ cursor.ackedEnvelopeIds then cursor.recentAckIds
    else cursor.recentAckIds ++ [envelopeId]
  let evicted := recent.take (recent.length - routerAckWindow)
  { cursor with
    inboxSeq := max cursor.inboxSeq entrySeq
    lastEnvelopeId := some envelopeId
    lastAcknowledgedInboxSeq := some entrySeq
    ackedEnvelopeIds := evicted.foldl (fun ids old => ids.erase old)
      (cursor.ackedEnvelopeIds.insert envelopeId)
    recentAckIds := boundQueue routerAckWindow recent
    ackedInboxSeqs := cursor.ackedInboxSeqs.insert entrySeq
    nackAttempts := cursor.nackAttempts.erase entrySeq }

def recordNack (nack : Nack) : CursorAckState :=
  { cursor with
    retiredInboxSeqs := []
    nackedEnvelopeIds :=
      OrdMap.dropFirst (cursor.nackedEnvelopeIds.insert nack.envelopeId nack.reason) routerAckWindow }

def countNack (seq attempts : ℕ) : CursorAckState :=
  { cursor with nackAttempts := cursor.nackAttempts.insert seq attempts }

/-- Raise the watermarks of a cursor and drop what they cover. -/
def settle (issued settled : ℕ) (rows : OrdMap ℕ InboxEntry) : CursorAckState :=
  let settled := max cursor.settledInboxSeq settled
  { cursor with
    issuedInboxSeq := max cursor.issuedInboxSeq issued
    settledInboxSeq := settled
    ackedInboxSeqs := cursor.ackedInboxSeqs.filter fun seq => settled < seq
    nackAttempts := cursor.nackAttempts.filter fun seq _ => seq ∈ rows
    ackedEnvelopeIds := cursor.ackedEnvelopeIds.dropFirst routerAckWindow
    nackedEnvelopeIds := cursor.nackedEnvelopeIds.dropFirst routerAckWindow }

end CursorAckState

def inboxRetainUntil (envelope : Envelope) (acceptedAt : ℤ) : ℤ :=
  min (satAddI envelope.createdAt (min envelope.ttl.toNat maxEnvelopeTtlSeconds))
    (satAddI acceptedAt maxEnvelopeTtlSeconds)

/-- Deadline of a delivery stored before acceptance times were recorded. -/
def inboxLegacyRetainUntil (envelope : Envelope) (migratedAt : ℤ) : ℤ :=
  inboxRetainUntil envelope (min envelope.createdAt migratedAt)

/-- Entry of the expiry index, ordered by deadline, then target, then sequence. -/
structure Due where
  deadline : ℤ
  target : String
  seq : ℕ
  deriving DecidableEq

instance : Ord Due :=
  ⟨compareLex (compareOn Due.deadline) (compareLex (compareOn Due.target) (compareOn Due.seq))⟩

instance : Std.TransOrd Due :=
  inferInstanceAs (Std.TransCmp (compareLex (compareOn Due.deadline)
    (compareLex (compareOn Due.target) (compareOn Due.seq))))

instance : Std.LawfulEqOrd Due where
  eq_of_compare {a b} h := by
    obtain ⟨d, t, s⟩ := a
    obtain ⟨d', t', s'⟩ := b
    change ((compare d d').then ((compare t t').then (compare s s'))) = .eq at h
    rw [Ordering.then_eq_eq, Ordering.then_eq_eq] at h
    rw [Std.LawfulEqOrd.eq_of_compare h.1, Std.LawfulEqOrd.eq_of_compare h.2.1,
      Std.LawfulEqOrd.eq_of_compare h.2.2]

structure InboxExpiryIndex where
  ready : Bool
  due : OrdSet Due
  deriving DecidableEq

structure OpaqueDeviceInbox where
  nextSeq : OrdMap String ℕ
  pending : OrdMap String (OrdMap ℕ InboxEntry)
  cursors : OrdMap String CursorAckState
  deadLetterIndex : OrdMap String (OrdMap ℕ DeadLetterRecord)
  retainUntil : OrdMap String (OrdMap ℕ ℤ)
  expiry : InboxExpiryIndex
  checkpointDue : OrdSet String
  deriving DecidableEq

namespace OpaqueDeviceInbox

def new : OpaqueDeviceInbox where
  nextSeq := ∅
  pending := ∅
  cursors := ∅
  deadLetterIndex := ∅
  retainUntil := ∅
  expiry := ⟨false, ∅⟩
  checkpointDue := ∅

section
variable (ib : OpaqueDeviceInbox) (target : String)

def next : ℕ := ib.nextSeq[target]?.getD 1

def rows : OrdMap ℕ InboxEntry := ib.pending.submap target

def deadlines : OrdMap ℕ ℤ := ib.retainUntil.submap target

/-- Stored cursor of a target, or the default one `or_insert` would store. -/
def cursor : CursorAckState :=
  ib.cursors[target]?.getD (.new target)

/-- Change a cursor in place, storing the default one first if there is none. -/
def modifyCursor (f : CursorAckState → CursorAckState) : OpaqueDeviceInbox :=
  { ib with cursors := ib.cursors.insert target (f (ib.cursor target)) }

def setDeadline (seq : ℕ) (deadline : ℤ) : OpaqueDeviceInbox :=
  let previous := (ib.deadlines target)[seq]?
  let ib := { ib with
    retainUntil := ib.retainUntil.insert target ((ib.deadlines target).insert seq deadline) }
  if ib.expiry.ready then
    let due := match previous with
      | some previous => ib.expiry.due.erase ⟨previous, target, seq⟩
      | none => ib.expiry.due
    { ib with expiry := { ib.expiry with due := due.insert ⟨deadline, target, seq⟩ } }
  else ib

def appendAt (envelope : Envelope) (now : ℤ) : InboxEntry × OpaqueDeviceInbox :=
  let target := envelope.target
  let deadline := inboxRetainUntil envelope now
  let entry : InboxEntry := ⟨ib.next target, target, envelope⟩
  let ib := { ib with nextSeq := ib.nextSeq.insert target (satAdd (ib.next target) 1) }
  let ib := { ib with
    pending := ib.pending.insert target ((ib.rows target).insert entry.inboxSeq entry) }
  let ib := ib.modifyCursor target fun cursor => { cursor with issuedInboxSeq := entry.inboxSeq }
  (entry, ib.setDeadline target entry.inboxSeq deadline)

end

section
variable (serverNow : ℤ) (ib : OpaqueDeviceInbox) (target : String)

/-- Retention deadline of a pending delivery; `serverNow` is the clock for one that has none stored. -/
def retainUntilOf (entry : InboxEntry) : ℤ :=
  (ib.deadlines entry.target)[entry.inboxSeq]?.getD
    (inboxLegacyRetainUntil entry.envelope serverNow)

def pendingEntries : List InboxEntry :=
  ib.pending.toList.flatMap fun target => target.2.toList.map (·.2)

/-- Deadline written once for a delivery that has none. -/
def fixDeadline (deadlines : OrdMap String (OrdMap ℕ ℤ)) (entry : InboxEntry) :
    OrdMap String (OrdMap ℕ ℤ) :=
  deadlines.insert entry.target ((deadlines.submap entry.target).insert
    entry.inboxSeq (inboxLegacyRetainUntil entry.envelope serverNow))

def dueOf (entry : InboxEntry) : Due :=
  ⟨ib.retainUntilOf serverNow entry, entry.target, entry.inboxSeq⟩

/-- Build the expiry index on first use, fixing missing deadlines. -/
def ensureExpiryIndex : OpaqueDeviceInbox :=
  if ib.expiry.ready then ib
  else
    let missing := ib.pendingEntries.filter fun entry =>
      entry.inboxSeq ∉ ib.deadlines entry.target
    let ib := { ib with retainUntil := missing.foldl (fixDeadline serverNow) ib.retainUntil }
    let due := ib.pendingEntries.foldl (fun due entry => due.insert (ib.dueOf serverNow entry)) ∅
    { ib with expiry := ⟨true, due⟩ }

def retirePending (seq : ℕ) : Option InboxEntry × OpaqueDeviceInbox :=
  match (ib.rows target)[seq]? with
  | none => (none, ib)
  | some entry =>
    let ib := { ib with pending := ib.pending.setSubmap target ((ib.rows target).erase seq) }
    let deadline := ib.retainUntilOf serverNow entry
    let ib := { ib with
      retainUntil := match ib.retainUntil[target]? with
        | none => ib.retainUntil
        | some deadlines => ib.retainUntil.setSubmap target (deadlines.erase seq) }
    let ib := if ib.expiry.ready then
        { ib with expiry := { ib.expiry with due := ib.expiry.due.erase ⟨deadline, target, seq⟩ } }
      else ib
    (some entry, ib)

def rebuildDeadLetterIndex : OpaqueDeviceInbox :=
  let records := (ib.cursors[target]?.map (·.deadLetters)).getD []
  let rows : OrdMap ℕ DeadLetterRecord :=
    records.foldl (fun rows record => rows.insert record.inboxSeq record) ∅
  { ib with deadLetterIndex := ib.deadLetterIndex.setSubmap target rows }

def issuedSequence : ℕ :=
  max (ib.next target - 1) (match ib.cursors[target]? with
    | none => 0
    | some cursor => max (max cursor.issuedInboxSeq cursor.inboxSeq) cursor.settledInboxSeq)

def settlementBoundary : ℕ := ib.next target - 1

def advanceSettled : OpaqueDeviceInbox :=
  let boundary := ib.settlementBoundary target
  let issued := ib.issuedSequence target
  let settled := match (ib.rows target).first? with
    | none => boundary
    | some (first, _) => min boundary (first - 1)
  match ib.cursors[target]? with
  | none => ib
  | some cursor => { ib with
      cursors := ib.cursors.insert target (cursor.settle issued settled (ib.rows target)) }

/-- Drop the ciphertext of a delivery and keep its metadata only. -/
def deadLetter (seq : ℕ) (reason : DeadLetterReason) : OpaqueDeviceInbox :=
  match (ib.rows target)[seq]? with
  | none => ib
  | some row =>
    let retainUntil := ib.retainUntilOf serverNow row
    match ib.retirePending serverNow target seq with
    | (none, ib) => ib
    | (some entry, ib) =>
      let ib := ib.modifyCursor target fun cursor =>
        cursor.recordDeadLetter ⟨seq, entry.envelope.envelopeId, reason, retainUntil⟩
      let ib := ib.rebuildDeadLetterIndex target
      { ib with checkpointDue := ib.checkpointDue.insert target }

/-- The oldest delivery, which gives way when the ACK window is full and `entrySeq` would extend it. -/
def roomHead (entrySeq : ℕ) : Option ℕ :=
  match ib.cursors[target]? with
  | none => none
  | some cursor =>
    if cursor.ackedInboxSeqs.size < routerAckWindow ∨ entrySeq ≤ satAdd cursor.settledInboxSeq 1 ∨
        entrySeq ∈ cursor.ackedInboxSeqs then none
    else ((ib.rows target).first?.filter (·.1 < entrySeq)).map (·.1)

/-- One round of `make_ack_window_room`. -/
def overflowHead (head : ℕ) : OpaqueDeviceInbox :=
  (ib.deadLetter serverNow target head .ackWindowOverflow).advanceSettled target

/-- The loop of `make_ack_window_room`; every round removes a pending delivery. -/
def roomLoop (target : String) (entrySeq : ℕ) : ℕ → OpaqueDeviceInbox → OpaqueDeviceInbox
  | 0, ib => ib
  | rounds + 1, ib =>
    match ib.roomHead target entrySeq with
    | none => ib
    | some head => roomLoop target entrySeq rounds (ib.overflowHead serverNow target head)

def makeAckWindowRoom (entrySeq : ℕ) : OpaqueDeviceInbox :=
  roomLoop serverNow target entrySeq (ib.rows target).size ib

def legacySeqForEnvelope (envelopeId : String) : Except NodeCoreError (Option ℕ) :=
  match (ib.rows target).toList.filter (·.2.envelope.envelopeId = envelopeId) with
  | [] => .ok none
  | [(_, entry)] => .ok (some entry.inboxSeq)
  | _ => .error (.ambiguousEnvelopeId envelopeId)

def ackSeq (ack : Ack) : Except NodeCoreError ℕ :=
  match ack.ext["inbox_seq"]? with
  | some value =>
    match value.asU64.filter (0 < ·) with
    | some seq => .ok seq
    | none => .error (.itestHttp "invalid ACK inbox sequence")
  | none => do
    match ← ib.legacySeqForEnvelope target ack.envelopeId with
    | some seq => .ok seq
    | none => .error (.envelopeNotFound ack.envelopeId)

/-- Checks made before an ACK touches the cursor. -/
def checkAck (ack : Ack) : Except NodeCoreError ℕ := do
  let entrySeq ← ib.ackSeq target ack
  if "inbox_seq" ∉ ack.ext ∧ target ∈ ib.cursors ∧
      ack.envelopeId ∈ (ib.cursor target).ackedEnvelopeIds ∧
      entrySeq ∉ (ib.cursor target).ackedInboxSeqs then
    throw (.ambiguousEnvelopeId ack.envelopeId)
  match (ib.rows target)[entrySeq]? with
  | some entry =>
    if entry.envelope.envelopeId ≠ ack.envelopeId then throw (.envelopeNotFound ack.envelopeId)
  | none =>
    if ¬ (target ∈ ib.cursors ∧ (entrySeq ∈ (ib.cursor target).ackedInboxSeqs ∨
        entrySeq ≤ (ib.cursor target).settledInboxSeq)) then
      throw (.envelopeNotFound ack.envelopeId)
  pure entrySeq

def applyAckForTarget (ack : Ack) : Except NodeCoreError CursorAckState × OpaqueDeviceInbox :=
  match ib.checkAck target ack with
  | .error e => (.error e, ib)
  | .ok entrySeq =>
    let ib := ib.modifyCursor target fun cursor => { cursor with retiredInboxSeqs := [] }
    let ib := ib.makeAckWindowRoom serverNow target entrySeq
    let ib := ib.modifyCursor target (·.acknowledge entrySeq ack.envelopeId)
    let ib := (ib.retirePending serverNow target entrySeq).2
    let ib := ib.advanceSettled target
    (.ok (ib.cursor target), ib)

def nackSelector (nack : Nack) : Except NodeCoreError (Option ℕ) :=
  match nack.ext["inbox_seq"]? with
  | some value =>
    match value.asU64.filter (0 < ·) with
    | some seq => .ok (some seq)
    | none => .error (.itestHttp "invalid NACK inbox sequence")
  | none => ib.legacySeqForEnvelope target nack.envelopeId

/-- Delivery a NACK counts against: its selector, if that delivery is pending under its id. -/
def nackSeq (nack : Nack) : Except NodeCoreError (Option ℕ) := do
  let seq ← ib.nackSelector target nack
  pure (seq.filter fun seq =>
    (ib.rows target)[seq]?.any (·.envelope.envelopeId = nack.envelopeId))

def applyNackForTarget (nack : Nack) : Except NodeCoreError CursorAckState × OpaqueDeviceInbox :=
  match ib.nackSeq target nack with
  | .error e => (.error e, ib)
  | .ok seq =>
    let ib := ib.modifyCursor target (·.recordNack nack)
    let ib := match seq with
      | none => ib
      | some seq =>
        let attempts := min ((ib.cursor target).nackAttempts[seq]?.getD 0 + 1) u32Max
        let ib := ib.modifyCursor target (·.countNack seq attempts)
        if routerNackRetryLimit ≤ attempts then
          (ib.deadLetter serverNow target seq (.nacked nack.reason)).advanceSettled target
        else ib
    (.ok (ib.cursor target), ib)

/-- The loop of `expire_entries`; every round removes the first entry of the index. -/
def expireLoop (now : ℤ) : ℕ → OpaqueDeviceInbox → List InboxEntry → OrdSet String →
    List InboxEntry × OrdSet String × OpaqueDeviceInbox
  | 0, ib, removed, touched => (removed, touched, ib)
  | rounds + 1, ib, removed, touched =>
    match ib.expiry.due.first? with
    | none => (removed, touched, ib)
    | some due =>
      if now < due.deadline then (removed, touched, ib)
      else
        let ib := { ib with expiry := { ib.expiry with due := ib.expiry.due.erase due } }
        let (entry, ib) := ib.retirePending serverNow due.target due.seq
        expireLoop now rounds ib (removed ++ entry.toList) (touched.insert due.target)

/-- What expiry does to a mailbox it removed deliveries from. -/
def settleExpired (now : ℤ) (ib : OpaqueDeviceInbox) (target : String) : OpaqueDeviceInbox :=
  let ib := ib.advanceSettled target
  let ib := match ib.cursors[target]? with
    | none => ib
    | some cursor => { ib with
        cursors := ib.cursors.insert target { cursor with
          deadLetters := cursor.deadLetters.filter fun record => now < record.retainUntil } }
  let ib := ib.rebuildDeadLetterIndex target
  { ib with checkpointDue := ib.checkpointDue.insert target }

def expireEntries (now : ℤ) : List InboxEntry × OpaqueDeviceInbox :=
  let ib := ib.ensureExpiryIndex serverNow
  let (removed, touched, ib) := expireLoop serverNow now ib.expiry.due.size ib [] ∅
  (removed, touched.toList.foldl (settleExpired now) ib)

end

end OpaqueDeviceInbox

inductive InboxCall
  | append (envelope : Envelope) (now : ℤ)
  | ack (serverNow : ℤ) (target : String) (ack : Ack)
  | nack (serverNow : ℤ) (target : String) (nack : Nack)
  | expire (serverNow now : ℤ)

def OpaqueDeviceInbox.exec (ib : OpaqueDeviceInbox) : InboxCall → OpaqueDeviceInbox
  | .append envelope now => (ib.appendAt envelope now).2
  | .ack serverNow target ack => (ib.applyAckForTarget serverNow target ack).2
  | .nack serverNow target nack => (ib.applyNackForTarget serverNow target nack).2
  | .expire serverNow now => (ib.expireEntries serverNow now).2

/-- A call with the inbox before and after it. -/
structure InboxMove where
  before : OpaqueDeviceInbox
  call : InboxCall
  after : OpaqueDeviceInbox

/-- Calls that meet `ok` in the state they are made in. -/
def InboxStep (ok : OpaqueDeviceInbox → InboxCall → Prop) (ib : OpaqueDeviceInbox) (m : InboxMove)
    (ib' : OpaqueDeviceInbox) : Prop :=
  m.before = ib ∧ m.after = ib' ∧ ib' = ib.exec m.call ∧ ok ib m.call

/-- A delivery is only appended while its sequence is below the largest one. -/
def InboxCall.InRange (ib : OpaqueDeviceInbox) : InboxCall → Prop
  | .append envelope _ => ib.next envelope.target < u64Max
  | _ => True

instance (ib : OpaqueDeviceInbox) : ∀ call : InboxCall, Decidable (call.InRange ib)
  | .append envelope _ => inferInstanceAs (Decidable (ib.next envelope.target < u64Max))
  | .ack .. | .nack .. | .expire .. => isTrue trivial

end Ramflux
