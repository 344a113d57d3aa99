import Ramflux.Lib.OrdMap
import Ramflux.Lib.Word

/-! Publication registry of a router store: sequences are reserved in order, finish in any order, and
become visible as a prefix. -/
namespace Ramflux.Publication
open Std.LawfulEqCmp

/-- Most aborted ranges plus reserved assignments of one inbox. -/
def abortedRangeCapacity : ℕ := 4096

inductive PersistenceState
  | reservedNoWrite
  | definiteNonWrite
  | handedOff
  | acceptedDurable
  | abortedDurable
  | fatalUncertain
  deriving DecidableEq

/-- A descriptor's state byte: a persistence state, or `DefiniteNonWrite` with the claim bit set. -/
inductive StateByte
  | plain (state : PersistenceState)
  | abortClaim
  deriving DecidableEq

def StateByte.state : StateByte → PersistenceState
  | .plain state => state
  | .abortClaim => .definiteNonWrite

inductive PublicationRefusal
  | capacityRetryAfter (retryAfterMs : ℕ)
  | incarnationMismatch
  | sequenceExhausted
  | storeClosed
  | fatalUncertain
  deriving DecidableEq

/-- Inbox of one incarnation of a target, ordered by target, then incarnation. -/
structure Key where
  target : String
  incarnation : String
  deriving DecidableEq

instance : Ord Key := ⟨compareLex (compareOn Key.target) (compareOn Key.incarnation)⟩

instance : Std.TransOrd Key :=
  inferInstanceAs (Std.TransCmp (compareLex (compareOn Key.target) (compareOn Key.incarnation)))

instance : Std.LawfulEqOrd Key where
  eq_of_compare {a b} h := by
    obtain ⟨t, i⟩ := a
    obtain ⟨t', i'⟩ := b
    change ((compare t t').then (compare i i')) = .eq at h
    rw [Ordering.then_eq_eq] at h
    obtain ⟨ht, hi⟩ := h
    rw [eq_of_compare ht, eq_of_compare hi]

structure Child where
  key : Key
  seq : ℕ
  deriving DecidableEq

instance : Ord Child := ⟨compareLex (compareOn Child.key) (compareOn Child.seq)⟩

instance : Std.TransOrd Child :=
  inferInstanceAs (Std.TransCmp (compareLex (compareOn Child.key) (compareOn Child.seq)))

instance : Std.LawfulEqOrd Child where
  eq_of_compare {a b} h := by
    obtain ⟨k, s⟩ := a
    obtain ⟨k', s'⟩ := b
    change ((compare k k').then (compare s s')) = .eq at h
    rw [Ordering.then_eq_eq] at h
    obtain ⟨hk, hs⟩ := h
    rw [eq_of_compare hk, eq_of_compare hs]

/-- Assignment shared by its guard, its writer and the resolver. -/
structure Descriptor where
  key : Key
  seq : ℕ
  state : StateByte
  detached : Bool
  resources : List String
  deriving DecidableEq

def Descriptor.child (d : Descriptor) : Child := ⟨d.key, d.seq⟩

/-- Live state of one inbox. Assignments in flight point to their descriptors. -/
structure Inbox where
  retired : Bool
  identityDurable : Bool
  allocated : ℕ
  published : ℕ
  committedSettled : ℕ
  inFlight : OrdMap ℕ ℕ
  accepted : OrdMap ℕ (List String)
  aborted : OrdMap ℕ ℕ
  reservations : ℕ
  deriving DecidableEq

def Inbox.new : Inbox where
  retired := false
  identityDurable := false
  allocated := 0
  published := 0
  committedSettled := 0
  inFlight := ∅
  accepted := ∅
  aborted := ∅
  reservations := 0

structure Registry where
  inboxes : OrdMap Key Inbox
  resources : OrdMap String (OrdSet Child)
  resourcesSeen : OrdMap String ℕ
  resourcesPublished : OrdSet String

/-- State shared by all users of a core: `descriptors` are all ever made, `fenced` is the fatal fence, and
the last two fields record the calls of the cleanup hooks, newest last. -/
structure Shared where
  registry : Registry
  descriptors : List Descriptor
  stopping : Bool
  fenced : Bool
  entryCleanups : List (String × ℕ)
  replayCleanups : List String

structure AssignmentReservation where
  target : String
  incarnation : String
  resources : List String

def AssignmentReservation.key (r : AssignmentReservation) : Key := ⟨r.target, r.incarnation⟩

section

/-- Remove the ranges that start in or right after the range `start..=last`, extending it. -/
def absorbRanges (start : ℕ) : ℕ → OrdMap ℕ ℕ → ℕ → OrdMap ℕ ℕ × ℕ
  | 0, ranges, last => (ranges, last)
  | rounds + 1, ranges, last =>
    match ranges.firstFrom? start with
    | none => (ranges, last)
    | some (right, rightLast) =>
      if right ≤ satAdd last 1 then
        absorbRanges start rounds (ranges.erase right) (max last rightLast)
      else (ranges, last)

/-- Add a range to disjoint ranges, merging it with those it touches. -/
def coalesce (ranges : OrdMap ℕ ℕ) (start last : ℕ) : OrdMap ℕ ℕ :=
  let (ranges, start, last) := match ranges.lastUpTo? start with
    | none => (ranges, start, last)
    | some (left, right) =>
      if start ≤ satAdd right 1 then (ranges.erase left, left, max last right)
      else (ranges, start, last)
  let (ranges, last) := absorbRanges start ranges.size ranges last
  ranges.insert start last

end

namespace Shared

variable (s : Shared) (target resource : String)

def setInbox (key : Key) (inbox : Inbox) : Shared :=
  { s with registry := { s.registry with inboxes := s.registry.inboxes.insert key inbox } }

def current : Option (Key × Inbox) :=
  (s.registry.inboxes.firstFrom? ⟨target, ""⟩).filter (·.1.target = target)

def register (incarnation : String) (issued : ℕ) : Except PublicationRefusal Unit × Shared :=
  if s.stopping then (.error .storeClosed, s)
  else if (s.current target).any fun row => row.2.retired ∨ row.1.incarnation ≠ incarnation then
    (.error .incarnationMismatch, s)
  else
    let key : Key := ⟨target, incarnation⟩
    let inbox := s.registry.inboxes[key]?.getD .new
    let inbox := { inbox with identityDurable := true, allocated := max inbox.allocated issued }
    let inbox := if inbox.inFlight.isEmpty then { inbox with published := inbox.allocated } else inbox
    (.ok (), s.setInbox key inbox)

def currentIncarnation : Option String :=
  (s.current target).map (·.1.incarnation)

def provisionalIncarnation (candidate : String) : Except PublicationRefusal String × Shared :=
  match s.current target with
  | some (key, inbox) =>
    if inbox.retired then (.error .incarnationMismatch, s) else (.ok key.incarnation, s)
  | none => (.ok candidate, s.setInbox ⟨target, candidate⟩ .new)

def needed (requests : List AssignmentReservation) : OrdMap Key ℕ :=
  requests.foldl (fun needed r => needed.upsert r.key fun count => count.getD 0 + 1) ∅

def checkNeeded (key : Key) (count : ℕ) : Except PublicationRefusal Unit :=
  match s.registry.inboxes[key]? with
  | none => .error .incarnationMismatch
  | some inbox =>
    if inbox.retired then .error .incarnationMismatch
    else if abortedRangeCapacity - (inbox.aborted.size + inbox.reservations) < count then
      .error (.capacityRetryAfter 1000)
    else if u64Max < inbox.allocated + count then .error .sequenceExhausted
    else .ok ()

def setState (id : ℕ) (state : StateByte) : Shared :=
  { s with descriptors := s.descriptors.modify id fun d => { d with state } }

def detach (id : ℕ) : Shared :=
  { s with descriptors := s.descriptors.modify id fun d => { d with detached := true } }

def ownResource (child : Child) (registry : Registry) (resource : String) : Registry :=
  { registry with
    resourcesSeen :=
      registry.resourcesSeen.insert resource (registry.resourcesSeen[resource]?.getD 0)
    resources := registry.resources.insert resource
      ((registry.resources[resource]?.getD ∅).insert child) }

/-- Allocate the next sequence of an inbox; the new descriptor is the last one. -/
def allocate (request : AssignmentReservation) (inbox : Inbox) : Shared :=
  let seq := inbox.allocated + 1
  let id := s.descriptors.length
  let descriptor : Descriptor :=
    ⟨request.key, seq, .plain .reservedNoWrite, false, request.resources⟩
  let s := { s with descriptors := s.descriptors ++ [descriptor] }
  let s := s.setInbox request.key { inbox with
    allocated := seq
    reservations := inbox.reservations + 1
    inFlight := inbox.inFlight.insert seq id }
  { s with registry := request.resources.foldl (ownResource descriptor.child) s.registry }

/-- The allocation loop of `reserve_batch`. A guard, a descriptor number, is detached on the way out. -/
def allocateLoop : List AssignmentReservation → Shared → List ℕ →
    Except PublicationRefusal (List ℕ) × Shared
  | [], s, guards => (.ok guards, s)
  | request :: rest, s, guards =>
    match s.registry.inboxes[request.key]? with
    | none => (.error .incarnationMismatch, guards.foldl detach s)
    | some inbox => allocateLoop rest (s.allocate request inbox) (guards ++ [s.descriptors.length])

/-- Reserve all assignments of a batch before any sequence is allocated. -/
def reserveBatch (requests : List AssignmentReservation) :
    Except PublicationRefusal (List ℕ) × Shared :=
  if s.stopping then (.error .storeClosed, s)
  else if s.fenced then (.error .fatalUncertain, s)
  else
    match (needed requests).toList.forM fun row => s.checkNeeded row.1 row.2 with
    | .error e => (.error e, s)
    | .ok () => allocateLoop requests s []

def commitSettled (incarnation : String) (settled : ℕ) : Shared :=
  match s.registry.inboxes[(⟨target, incarnation⟩ : Key)]? with
  | none => s
  | some inbox => s.setInbox ⟨target, incarnation⟩ { inbox with
      committedSettled := max inbox.committedSettled settled
      aborted := inbox.aborted.toList.foldl (fun ranges row =>
        if settled < row.2 then ranges.insert (max row.1 (satAdd settled 1)) row.2 else ranges) ∅ }

def referenceResource (held : Bool) : Shared :=
  let published := held ∧ (resource ∉ s.registry.resourcesSeen ∨
    resource ∈ s.registry.resourcesPublished)
  { s with registry := { s.registry with
      resourcesSeen := s.registry.resourcesSeen.insert resource
        (s.registry.resourcesSeen[resource]?.getD 0 + 1)
      resourcesPublished := if published then s.registry.resourcesPublished.insert resource
        else s.registry.resourcesPublished } }

def markResourceIfNew (held : Bool) : Bool × Shared :=
  if held then (false, s)
  else (true, { s with registry := { s.registry with
    resourcesSeen := s.registry.resourcesSeen.insert resource
      (s.registry.resourcesSeen[resource]?.getD 0 + 1) } })

def completeResource : Shared :=
  if resource ∈ s.registry.resources ∨ resource ∈ s.registry.resourcesSeen then
    { s with registry := { s.registry with
      resourcesPublished := s.registry.resourcesPublished.insert resource } }
  else s

def completeUnassigned (resources : List String) : Shared :=
  resources.foldl completeResource s

def releaseHold : Shared :=
  let seen := match s.registry.resourcesSeen[resource]? with
    | none => s.registry.resourcesSeen
    | some count => s.registry.resourcesSeen.insert resource (count - 1)
  let s := { s with registry := { s.registry with resourcesSeen := seen } }
  if resource ∉ s.registry.resources ∧ (s.registry.resourcesSeen[resource]?.getD 0) = 0 then
    let marked := resource ∈ s.registry.resourcesSeen
    let published := resource ∈ s.registry.resourcesPublished
    let s' := { s with registry := { s.registry with
      resourcesSeen := s.registry.resourcesSeen.erase resource
      resourcesPublished := s.registry.resourcesPublished.erase resource } }
    if marked ∧ ¬ published then { s' with replayCleanups := s'.replayCleanups ++ [resource] } else s'
  else s

def releaseUnallocated (resources : List String) : Shared :=
  resources.foldl releaseHold s

/-- Give up a child's reference to a resource. -/
def releaseResource (child : Child) (accepted : Bool) (s : Shared) (resource : String) : Shared :=
  match s.registry.resources[resource]? with
  | none => s
  | some owners =>
    let owners := owners.erase child
    let publishedSet := if accepted then s.registry.resourcesPublished.insert resource
      else s.registry.resourcesPublished
    if owners.isEmpty then
      let forget := s.registry.resourcesSeen[resource]?.getD 0 = 0
      let s' := { s with registry := { s.registry with
        resources := s.registry.resources.erase resource
        resourcesSeen := if forget then s.registry.resourcesSeen.erase resource
          else s.registry.resourcesSeen
        resourcesPublished := if forget then publishedSet.erase resource else publishedSet } }
      if ¬ accepted ∧ resource ∉ publishedSet then
        { s' with replayCleanups := s'.replayCleanups ++ [resource] }
      else s'
    else { s with registry := { s.registry with
      resources := s.registry.resources.insert resource owners
      resourcesPublished := publishedSet } }

/-- Inbox after an assignment finished, and the accepted assignments this made visible. -/
def finishInbox (inbox : Inbox) (d : Descriptor) (aborted : Bool) : Inbox × List (ℕ × List String) :=
  let inbox := { inbox with
    identityDurable := true
    aborted := if aborted then coalesce inbox.aborted d.seq d.seq else inbox.aborted
    accepted := if aborted then inbox.accepted else inbox.accepted.insert d.seq d.resources
    reservations := inbox.reservations - 1
    inFlight := inbox.inFlight.erase d.seq }
  let inbox := { inbox with published := match inbox.inFlight.first? with
    | none => inbox.allocated
    | some (seq, _) => seq - 1 }
  ({ inbox with accepted := inbox.accepted.filter fun seq _ => inbox.published < seq },
    inbox.accepted.toList.filter (·.1 ≤ inbox.published))

def finishLocked (d : Descriptor) (aborted : Bool) : Shared :=
  let s := if aborted then d.resources.foldl (releaseResource d.child false) s else s
  match s.registry.inboxes[d.key]? with
  | none => s
  | some inbox =>
    let (inbox, published) := finishInbox inbox d aborted
    published.foldl (fun s entry => entry.2.foldl (releaseResource ⟨d.key, entry.1⟩ true) s)
      (s.setInbox d.key inbox)

def finish (d : Descriptor) (aborted : Bool) : Shared :=
  let s := if aborted then { s with entryCleanups := s.entryCleanups ++ [(d.key.target, d.seq)] }
    else s
  if s.fenced then s else s.finishLocked d aborted

end Shared

end Ramflux.Publication
