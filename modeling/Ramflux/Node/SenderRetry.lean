import Ramflux.Lib.OrdMap
import Ramflux.Lib.Run

/-! The sender retry registry: submissions with one retry key share a slot until the original is resolved.
Every locked section and atomic access is one step. -/
namespace Ramflux.SenderRetry

structure SenderAssignment where
  target : String
  inboxIncarnationId : String
  inboxSeq : ℕ
  retainUntil : ℤ
  digest : String
  deriving DecidableEq

inductive SenderRetryRefusal
  | abortedRetrySafe
  | forwardInProgress
  | idempotencyConflict
  deriving DecidableEq

inductive Resolution
  | pending
  | accepted (assignment : SenderAssignment)
  | aborted
  | recheck
  | closed
  | forwarded
  deriving DecidableEq

/-- Shared memory of a slot. `bound` is shared by its owner and all handles made by `bind`. -/
structure Slot where
  key : String
  digest : String
  durable : Bool
  ownerAlive : Bool
  bound : Bool
  result : Resolution
  deriving DecidableEq

def Slot.new (key digest : String) : Slot where
  key
  digest
  durable := false
  ownerAlive := true
  bound := false
  result := .pending

def Slot.finish (slot : Slot) (resolution : Resolution) : Slot :=
  if slot.result = .pending then { slot with result := resolution } else slot

/-- Where the owner of a slot stands. -/
inductive OwnerPhase
  | held
  /-- `accepted` or `forwarded` was called and is about to finish the slot. -/
  | resolving (resolution : Resolution)
  | dropping
  /-- `owner_alive` is cleared and `bound` is loaded next. -/
  | dead
  /-- The slot was found bound and `durable` is loaded next. -/
  | loaded
  | finishing (resolution : Resolution)
  | gone
  deriving DecidableEq

/-- Where the descriptor that a slot was bound to stands. -/
inductive DescriptorPhase
  | unbound
  | reserved (scope : ℕ)
  | nonWrite
  | handedOff
  /-- The write is durable and lookups do not find its assignment yet. -/
  | committed (assignment : SenderAssignment)
  | visible
  /-- `accepted_durable` was called; the callback `durable` comes next. -/
  | accepted
  /-- `durable` is set and `owner_alive` is loaded next. -/
  | stored
  | rechecking
  /-- The resolver has aborted the descriptor; the callback `aborted` comes next. -/
  | aborting
  | finished (aborted : Bool)
  deriving DecidableEq

structure Request where
  slot : Slot
  owner : OwnerPhase
  descriptor : DescriptorPhase
  deriving DecidableEq

inductive RequestEvent
  /-- A reservation in a scope found the slot's handle for its target unbound. -/
  | attach (scope : ℕ) (target : String)
  | endScope (scope : ℕ)
  | handOff
  | commit (assignment : SenderAssignment)
  | show
  | accept
  | storeDurable
  | loadAlive
  | recheck
  | claim
  | abort
  | accepted (assignment : SenderAssignment)
  | forwarded
  | drop
  | resolve
  | storeDead
  | loadBound
  | loadDurable
  | finish
  | close
  deriving DecidableEq

/-- A write that was handed off and whose assignment is not visible yet. -/
def DescriptorPhase.InFlight (phase : DescriptorPhase) : Prop :=
  phase = .handedOff ∨ ∃ assignment, phase = .committed assignment

/-- What one step does to one request. -/
inductive Move : Request → RequestEvent → Request → Prop
  -- `bind` and `attach_retry`.
  | attach {q : Request} (scope : ℕ) (target : String) (h : q.slot.bound = false) :
      Move q (.attach scope target)
        { q with slot := { q.slot with bound := true }, descriptor := .reserved scope }
  -- The write and the callbacks of its descriptor.
  | endScope {q : Request} {scope : ℕ} (h : q.descriptor = .reserved scope) :
      Move q (.endScope scope) { q with descriptor := .nonWrite }
  | handOff {q : Request} {scope : ℕ} (h : q.descriptor = .reserved scope) :
      Move q .handOff { q with descriptor := .handedOff }
  | commit {q : Request} (assignment : SenderAssignment) (h : q.descriptor = .handedOff) :
      Move q (.commit assignment) { q with descriptor := .committed assignment }
  | show {q : Request} {assignment : SenderAssignment} (h : q.descriptor = .committed assignment) :
      Move q .show { q with descriptor := .visible }
  | accept {q : Request} (h : q.descriptor = .visible) :
      Move q .accept { q with descriptor := .accepted }
  | storeDurable {q : Request} (h : q.descriptor = .accepted) :
      Move q .storeDurable { q with slot := { q.slot with durable := true }, descriptor := .stored }
  | loadAlive {q : Request} (h : q.descriptor = .stored) :
      Move q .loadAlive
        { q with descriptor := if q.slot.ownerAlive then .finished false else .rechecking }
  | recheck {q : Request} (h : q.descriptor = .rechecking) :
      Move q .recheck { q with slot := q.slot.finish .recheck, descriptor := .finished false }
  | claim {q : Request} (h : (∃ scope, q.descriptor = .reserved scope) ∨ q.descriptor = .nonWrite) :
      Move q .claim { q with descriptor := .aborting }
  | abort {q : Request} (h : q.descriptor = .aborting) :
      Move q .abort { q with slot := q.slot.finish .aborted, descriptor := .finished true }
  -- The owner. Its own thread made the write, so no write is in flight when it calls these two.
  | accepted {q : Request} (assignment : SenderAssignment) (h : q.owner = .held)
      (hflight : ¬ q.descriptor.InFlight) :
      Move q (.accepted assignment) { q with owner := .resolving (.accepted assignment) }
  | forwarded {q : Request} (h : q.owner = .held) (hflight : ¬ q.descriptor.InFlight) :
      Move q .forwarded { q with owner := .resolving .forwarded }
  | resolve {q : Request} {resolution : Resolution} (h : q.owner = .resolving resolution) :
      Move q .resolve { q with slot := q.slot.finish resolution, owner := .dropping }
  | drop {q : Request} (h : q.owner = .held) : Move q .drop { q with owner := .dropping }
  | storeDead {q : Request} (h : q.owner = .dropping) :
      Move q .storeDead { q with slot := { q.slot with ownerAlive := false }, owner := .dead }
  | loadBound {q : Request} (h : q.owner = .dead) :
      Move q .loadBound { q with owner := if q.slot.bound then .loaded else .finishing .aborted }
  | loadDurable {q : Request} (h : q.owner = .loaded) :
      Move q .loadDurable { q with owner := if q.slot.durable then .finishing .recheck else .gone }
  | finish {q : Request} {resolution : Resolution} (h : q.owner = .finishing resolution) :
      Move q .finish { q with slot := q.slot.finish resolution, owner := .gone }
  -- The registry is destroyed.
  | close {q : Request} : Move q .close { q with slot := q.slot.finish .closed }

/-- Handle to a slot for one target. -/
structure RetryAbort where
  slot : ℕ
  target : String
  deriving DecidableEq

structure Scope where
  isOpen : Bool
  retryOwners : List RetryAbort
  deriving DecidableEq

/-- `admitting` is the key and digest of a caller that holds the lock and found no assignment. -/
structure System where
  requests : List Request
  entries : OrdMap String ℕ
  assignments : OrdMap String SenderAssignment
  scopes : List Scope
  admitting : Option (String × String)
  destroyed : Bool

inductive RetryAdmission
  | owner (id : ℕ)
  | waiting (id : ℕ)
  | accepted (assignment : SenderAssignment)
  deriving DecidableEq

inductive Event
  | admitRetry (key digest : String) (result : Except SenderRetryRefusal RetryAdmission)
  | lookup (key digest : String)
  | record (key : String) (assignment : SenderAssignment)
  | expire (key : String)
  | openScope
  | bind (scope id : ℕ) (target : String)
  | endScope (scope : ℕ)
  /-- A move of one request, with the resolution it gave to its slot. -/
  | request (id : ℕ) (event : RequestEvent) (resolution : Option Resolution)
  /-- The registry was destroyed and these slots were still pending. -/
  | close (ids : List ℕ)

namespace System

variable (s : System)

def admitSenderRetry (key digest : String) : Except SenderRetryRefusal RetryAdmission :=
  match s.entries[key]? with
  | some id =>
    if s.requests[id]?.map (·.slot.digest) ≠ some digest then .error .idempotencyConflict
    else .ok (.waiting id)
  | none =>
    match s.assignments[key]? with
    | some assignment =>
      if assignment.digest ≠ digest then .error .idempotencyConflict else .ok (.accepted assignment)
    | none => .ok (.owner s.requests.length)

def register (key digest : String) : System :=
  { s with
    requests := s.requests ++ [⟨.new key digest, .held, .unbound⟩]
    entries := s.entries.insert key s.requests.length
    admitting := none }

/-- The slot `attach_retry` binds: the first handle whose exchange on `bound` succeeds. -/
def attachRetry (scope : Scope) (target : String) : Option ℕ :=
  (scope.retryOwners.find? fun owner =>
    owner.target = target ∧ s.requests[owner.slot]?.map (·.slot.bound) = some false).map (·.slot)

/-- No open scope holds a handle to the slot: the owner outlives its preparation scope. -/
def Released (id : ℕ) : Prop :=
  ∀ scope ∈ s.scopes, scope.isOpen = true → ∀ owner ∈ scope.retryOwners, owner.slot ≠ id

/-- What a move needs from the rest of the system. -/
def Allows (id : ℕ) (q : Request) : RequestEvent → Prop
  | .attach k target => ∃ scope, s.scopes[k]? = some scope ∧ scope.isOpen = true ∧
      s.attachRetry scope target = some id
  | .handOff => ∃ k scope, q.descriptor = .reserved k ∧ s.scopes[k]? = some scope ∧
      scope.isOpen = true
  | .accepted assignment => s.Released id ∧ s.assignments[q.slot.key]? = some assignment
  | .forwarded | .drop => s.Released id
  -- These hold the registry lock.
  | .recheck | .abort | .resolve | .finish => s.admitting = none
  | .endScope _ | .close => False
  | _ => True

/-- The registry part of `finish`: a slot that takes its resolution leaves the registry. -/
def remove (id : ℕ) (q q' : Request) : OrdMap String ℕ :=
  if q.slot.result = .pending ∧ q'.slot.result ≠ .pending ∧ s.entries[q.slot.key]? = some id then
    s.entries.erase q.slot.key
  else s.entries

def put (id : ℕ) (q q' : Request) : System :=
  { s with
    requests := s.requests.set id q'
    entries := s.remove id q q'
    assignments := match q.descriptor, q'.descriptor with
      | .committed assignment, .visible => s.assignments.insert q.slot.key assignment
      | _, _ => s.assignments }

/-- Reservations of a scope that were not handed off are definite non-writes when it ends. -/
def endScope (k : ℕ) : System :=
  { s with
    requests := s.requests.map fun q =>
      if q.descriptor = .reserved k then { q with descriptor := .nonWrite } else q
    scopes := s.scopes.modify k fun scope => { scope with isOpen := false } }

def bind (k id : ℕ) (target : String) : System :=
  { s with scopes := s.scopes.modify k fun scope =>
      { scope with retryOwners := scope.retryOwners ++ [⟨id, target⟩] } }

def registered : List ℕ := s.entries.toList.map (·.2)

def close : System :=
  { s with
    requests := s.registered.foldl
      (fun requests id => requests.modify id fun q => { q with slot := q.slot.finish .closed }) s.requests
    entries := ∅
    destroyed := true }

end System

def Request.resolution (q q' : Request) : Option Resolution :=
  if q.slot.result = .pending ∧ q'.slot.result ≠ .pending then some q'.slot.result else none

/-- One step of one thread. -/
inductive Step : System → Event → System → Prop
  | admitRetry {s : System} {key digest : String} {result : Except SenderRetryRefusal RetryAdmission}
      (hlock : s.admitting = none) (hopen : s.destroyed = false)
      (h : s.admitSenderRetry key digest = result) (hres : ∀ id, result ≠ .ok (.owner id)) :
      Step s (.admitRetry key digest result) s
  | lookup {s : System} {key digest : String} {id : ℕ} (hlock : s.admitting = none)
      (hopen : s.destroyed = false) (h : s.admitSenderRetry key digest = .ok (.owner id)) :
      Step s (.lookup key digest) { s with admitting := some (key, digest) }
  | register {s : System} {key digest : String} (h : s.admitting = some (key, digest)) :
      Step s (.admitRetry key digest (.ok (.owner s.requests.length))) (s.register key digest)
  -- Other writers, and the expiry of what was written.
  | record (s : System) (key : String) (assignment : SenderAssignment) :
      Step s (.record key assignment)
        { s with assignments := s.assignments.insert key assignment }
  | expire (s : System) (key : String) :
      Step s (.expire key) { s with assignments := s.assignments.erase key }
  | openScope (s : System) : Step s .openScope { s with scopes := s.scopes ++ [⟨true, []⟩] }
  | bind {s : System} {k id : ℕ} {scope : Scope} {q : Request} (target : String)
      (hscope : s.scopes[k]? = some scope) (hopen : scope.isOpen = true)
      (hq : s.requests[id]? = some q) (howner : q.owner = .held) :
      Step s (.bind k id target) (s.bind k id target)
  | endScope {s : System} {k : ℕ} {scope : Scope} (hscope : s.scopes[k]? = some scope)
      (hopen : scope.isOpen = true) : Step s (.endScope k) (s.endScope k)
  | request {s : System} {id : ℕ} {q q' : Request} {event : RequestEvent}
      (hq : s.requests[id]? = some q) (hmove : Move q event q') (hallows : s.Allows id q event) :
      Step s (.request id event (q.resolution q')) (s.put id q q')
  | close {s : System} (hlock : s.admitting = none) (hopen : s.destroyed = false) :
      Step s (.close s.registered) s.close

/-- A registry just opened over any stored assignments. -/
structure System.Opened (s : System) : Prop where
  requests : s.requests = []
  entries : s.entries = ∅
  scopes : s.scopes = []
  admitting : s.admitting = none
  destroyed : s.destroyed = false

end Ramflux.SenderRetry
