import Ramflux.Lib.Json
import Ramflux.Node.Inbox
import Ramflux.Node.Publication

/-! Resume pages: bounded coverage of the published mailbox by live rows and known losses. -/
namespace Ramflux
open Json

/-- Ranges a page may walk: the one that reaches over `start`, and those after it. -/
def Publication.Shared.pageView (s : Publication.Shared) (target incarnation : String) (after : ℕ)
    (visitCap : ℕ) : ℕ × ℕ × List (ℕ × ℕ) :=
  match s.registry.inboxes[(⟨target, incarnation⟩ : Publication.Key)]? with
  | none => (0, 0, [])
  | some inbox =>
    let settled := min inbox.committedSettled inbox.published
    let start := max after settled
    let lower := (inbox.aborted.lastUpTo? start).filter fun row => start < row.2
    let ranges := inbox.aborted.toList.filter fun row =>
      match lower with
      | some range => range.1 ≤ row.1
      | none => start < row.1
    (inbox.published, settled, ranges.take visitCap)

namespace InboxPage

def pageByteCap : ℕ := 1048576 - 65536
def visitCap : ℕ := 512
def headerCap : ℕ := 16 * 1024
def lossCap : ℕ := 64
def entryCap : ℕ := 256

structure PageEntryRecord where
  entry : InboxEntry
  retainUntil : ℤ
  deriving DecidableEq

inductive PageReason
  | expired
  | ackWindowOverflow
  | nacked
  | aborted
  deriving DecidableEq

structure KnownLoss where
  fromSeq : ℕ
  toSeq : ℕ
  reason : PageReason
  deriving DecidableEq

structure ResumePage where
  frameType : String
  target : String
  incarnationId : Option String
  afterInboxSeq : ℕ
  coveredThroughSeq : ℕ
  issuedInboxSeq : ℕ
  settledThroughSeq : ℕ
  entries : List PageEntryRecord
  knownLosses : List KnownLoss
  oversizeNext : Option ℕ
  more : Bool
  deriving DecidableEq

inductive PageError
  | invalidLimit
  | cursorAhead
  | headerTooLarge
  | serialization
  deriving DecidableEq

def PageReason.name : PageReason → String
  | .expired => "expired"
  | .ackWindowOverflow => "ack_window_overflow"
  | .nacked => "nacked"
  | .aborted => "aborted"

def KnownLoss.json (loss : KnownLoss) : Bytes :=
  object [("from_seq", number loss.fromSeq), ("to_seq", number loss.toSeq),
    ("reason", text loss.reason.name)]

/-- Text of a page; `record` writes an entry, whose envelope carries fields that no page reads. -/
def ResumePage.json (record : PageEntryRecord → Bytes) (page : ResumePage) : Bytes :=
  object [
    ("frame_type", text page.frameType),
    ("target_delivery_id", text page.target),
    ("incarnation_id", option text page.incarnationId),
    ("after_inbox_seq", number page.afterInboxSeq),
    ("covered_through_seq", number page.coveredThroughSeq),
    ("issued_inbox_seq", number page.issuedInboxSeq),
    ("settled_through_seq", number page.settledThroughSeq),
    ("entries", array (page.entries.map record)),
    ("known_losses", array (page.knownLosses.map KnownLoss.json)),
    ("oversize_next", option number page.oversizeNext),
    ("more", bool page.more)]

structure PageRequest where
  target : String
  after : ℕ
  limit : ℕ
  now : ℤ

def ResumePage.empty (request : PageRequest) (id : Option String) (issued settled : ℕ) :
    ResumePage where
  frameType := "resume_page"
  target := request.target
  incarnationId := id
  afterInboxSeq := request.after
  coveredThroughSeq := max request.after settled
  issuedInboxSeq := issued
  settledThroughSeq := settled
  entries := []
  knownLosses := []
  oversizeNext := none
  more := false

/-- `checked_add(1) == Some(from)` and the same reason. -/
def KnownLoss.mergesWith (last : KnownLoss) (fromSeq : ℕ) (reason : PageReason) : Bool :=
  last.toSeq < u64Max && last.toSeq + 1 == fromSeq && last.reason == reason

def addLoss (losses : List KnownLoss) (fromSeq toSeq : ℕ) (reason : PageReason) : List KnownLoss :=
  match losses.getLast? with
  | none => [⟨fromSeq, toSeq, reason⟩]
  | some last =>
    if last.mergesWith fromSeq reason then losses.dropLast ++ [{ last with toSeq }]
    else losses ++ [⟨fromSeq, toSeq, reason⟩]

/-- Page and size with one more loss, or `none` when the page is full. -/
def ResumePage.pushLoss (page : ResumePage) (fromSeq toSeq : ℕ) (reason : PageReason) (size : ℕ) :
    Option (ResumePage × ℕ) :=
  let page' := { page with knownLosses := addLoss page.knownLosses fromSeq toSeq reason }
  if page.knownLosses.getLast?.any (·.mergesWith fromSeq reason) then some (page', size)
  else if page.knownLosses.length = lossCap then none
  else
    let added := (KnownLoss.json ⟨u64Max, u64Max, reason⟩).length +
      if page.knownLosses.isEmpty then 0 else 1
    if pageByteCap < size + added then none else some (page', size + added)

/-- Page and size with one more entry, or the page that stops before it. -/
def ResumePage.pushEntry (record : PageEntryRecord → Bytes) (page : ResumePage) (entry : InboxEntry)
    (deadline : ℤ) (header size : ℕ) : Except ResumePage (ResumePage × ℕ) :=
  let recordSize := (record ⟨entry, deadline⟩).length
  if pageByteCap < header + recordSize then .error { page with oversizeNext := some entry.inboxSeq }
  else
    let added := recordSize + if page.entries.isEmpty then 0 else 1
    if pageByteCap < size + added then .error page
    else .ok ({ page with entries := page.entries ++ [⟨entry, deadline⟩] }, size + added)

/-- Size of the header with all its numbers at their greatest width. -/
def ResumePage.worstHeaderSize (record : PageEntryRecord → Bytes) (page : ResumePage) : ℕ :=
  ({ page with
    afterInboxSeq := u64Max
    coveredThroughSeq := u64Max
    issuedInboxSeq := u64Max
    settledThroughSeq := u64Max
    oversizeNext := some u64Max
    more := false }.json record).length

inductive Counted (α : Type)
  | item (a : α)
  | exhausted
  | budgetSpent

/-- An iterator and the item last taken from it. -/
structure Source (α : Type) where
  head : Counted α
  rest : List α

def Counted.item? {α : Type} : Counted α → Option α
  | .item a => some a
  | _ => none

def Counted.isSpent {α : Type} : Counted α → Bool
  | .budgetSpent => true
  | _ => false

def nextCounted {α : Type} (rest : List α) (visits : ℕ) : Source α × ℕ :=
  if visitCap ≤ visits then (⟨.budgetSpent, rest⟩, visits)
  else
    match rest with
    | [] => (⟨.exhausted, []⟩, visits)
    | a :: rest => (⟨.item a, rest⟩, visits + 1)

/-- Take the next item where the last one satisfies `p`. -/
def Source.advance {α : Type} (source : Source α) (p : α → Bool) (visits : ℕ) : Source α × ℕ :=
  if source.head.item?.any p then nextCounted source.rest visits else (source, visits)

structure Walk where
  page : ResumePage
  size : ℕ
  pending : Source (ℕ × InboxEntry)
  dead : Source (ℕ × DeadLetterRecord)
  aborted : Source (ℕ × ℕ)
  visits : ℕ

/-- What the walk does at its next position. -/
inductive Find
  | live (entry : InboxEntry) (deadline : ℤ)
  | loss (toSeq : ℕ) (reason : PageReason)
  | nothing
  deriving DecidableEq

def lossOf : DeadLetterReason → PageReason
  | .ackWindowOverflow => .ackWindowOverflow
  | .nacked _ => .nacked

section
variable (record : PageEntryRecord → Bytes) (deadlineOf : InboxEntry → ℤ) (request : PageRequest)
  (issued start header : ℕ)

def Walk.nextSeq (w : Walk) : Option ℕ :=
  ([w.pending.head.item?.map (·.1), w.dead.head.item?.map (·.1),
    w.aborted.head.item?.map fun range => max range.1 (satAdd start 1)].filterMap id).min?

/-- A pending row goes before a dead letter, and both before an aborted range. -/
def Walk.find (w : Walk) (seq : ℕ) : Find :=
  match w.pending.head.item?.filter (·.1 = seq) with
  | some (_, entry) =>
    if request.now < deadlineOf entry then .live entry (deadlineOf entry) else .loss seq .expired
  | none =>
    match w.dead.head.item?.filter (·.1 = seq) with
    | some (_, row) =>
      if request.now < row.retainUntil then .loss seq (lossOf row.reason) else .nothing
    | none =>
      match w.aborted.head.item? with
      | some (_, last) => .loss (min last issued) .aborted
      | none => .nothing

def Walk.cover (w : Walk) (page : ResumePage) (size last : ℕ) : Walk :=
  let (pending, visits) := w.pending.advance (·.1 ≤ last) w.visits
  let (dead, visits) := w.dead.advance (·.1 ≤ last) visits
  let (aborted, visits) := w.aborted.advance (·.2 ≤ last) visits
  ⟨{ page with coveredThroughSeq := last }, size, pending, dead, aborted, visits⟩

/-- One round of the loop; an error is the page on which it stops. -/
def Walk.round (w : Walk) : Except ResumePage Walk :=
  if w.pending.head.isSpent || w.dead.head.isSpent || w.aborted.head.isSpent then .error w.page
  else
    match (w.nextSeq start).filter (· ≤ issued) with
    | none => .error { w.page with coveredThroughSeq := issued }
    | some seq =>
      let page := { w.page with coveredThroughSeq := max w.page.coveredThroughSeq (seq - 1) }
      match w.find deadlineOf request issued seq with
      | .live entry deadline =>
        if page.entries.length = min request.limit entryCap then .error page
        else (page.pushEntry record entry deadline header w.size).map fun pushed =>
          w.cover pushed.1 pushed.2 seq
      | .loss toSeq reason =>
        match page.pushLoss seq toSeq reason w.size with
        | none => .error page
        | some pushed => .ok (w.cover pushed.1 pushed.2 toSeq)
      | .nothing => .ok (w.cover page w.size seq)

def Walk.run : ℕ → Walk → ResumePage
  | 0, w => w.page
  | rounds + 1, w =>
    match w.round record deadlineOf request issued start header with
    | .error page => page
    | .ok w => Walk.run rounds w

end

/-- An inbox with its publication core, incarnations and recovered aborted ranges. -/
structure PublishedInbox extends OpaqueDeviceInbox where
  publication : Option Publication.Shared
  incarnations : OrdMap String String
  abortedRanges : OrdMap String (List (ℕ × ℕ))

def seekRows {ν : Type} (rows : OrdMap ℕ ν) (start : ℕ) : List (ℕ × ν) :=
  rows.toList.filter (start < ·.1)

def startWalk (page : ResumePage) (size : ℕ) (pending : List (ℕ × InboxEntry))
    (dead : List (ℕ × DeadLetterRecord)) (aborted : List (ℕ × ℕ)) : Walk :=
  let (pending, visits) := nextCounted pending 0
  let (dead, visits) := nextCounted dead visits
  let (aborted, visits) := nextCounted aborted visits
  ⟨page, size, pending, dead, aborted, visits⟩

/-- Every round takes an item or adds a loss, so that these rounds are never used up. -/
def roundCap : ℕ := visitCap + lossCap + 4

namespace PublishedInbox
variable (record : PageEntryRecord → Bytes) (serverNow : ℤ)

def buildPage (ib : PublishedInbox) (request : PageRequest) (issued settled : ℕ)
    (aborted : List (ℕ × ℕ)) : Except PageError ResumePage :=
  if issued < request.after then .error .cursorAhead
  else
    let page := ResumePage.empty request ib.incarnations[request.target]? issued settled
    let header := page.worstHeaderSize record
    if headerCap < header then .error .headerTooLarge
    else
      let start := page.coveredThroughSeq
      let walk := startWalk page header (seekRows (ib.rows request.target) start)
        (seekRows (ib.deadLetterIndex.submap request.target) start) aborted
      let page := walk.run record (ib.retainUntilOf serverNow) request issued start header roundCap
      let page := { page with more := page.coveredThroughSeq < issued }
      if pageByteCap < (page.json record).length then .error .serialization else .ok page

/-- Issued and settled sequence of a mailbox, and the aborted ranges handed to a page. -/
def view (ib : PublishedInbox) (target : String) (after : ℕ) : ℕ × ℕ × List (ℕ × ℕ) :=
  match ib.publication, ib.incarnations[target]? with
  | some core, some id => core.pageView target id after visitCap
  | _, _ =>
    let issued := ib.issuedSequence target
    let settled := (ib.cursors[target]?.map fun cursor => min cursor.settledInboxSeq issued).getD 0
    (issued, settled, (ib.abortedRanges[target]?.getD []).dropWhile (·.2 ≤ max after settled))

def resumePage (ib : PublishedInbox) (request : PageRequest) : Except PageError ResumePage :=
  if request.limit = 0 then .error .invalidLimit
  else
    let (issued, settled, aborted) := ib.view request.target request.after
    ib.buildPage record serverNow request issued settled aborted

end PublishedInbox
end InboxPage
end Ramflux
