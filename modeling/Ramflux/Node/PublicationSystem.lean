import Ramflux.Lib.Run
import Ramflux.Node.Publication

/-! The threads of a publication core. Every locked section and every atomic access is one step;
request guards, writers and the resolver interleave freely. -/
namespace Ramflux.Publication

/-- Where a writer stands with an assignment that was handed off to it. -/
inductive WritePhase
  | held
  /-- `accepted_durable` has passed its fence check. -/
  | accepting
  /-- `accepted_durable` has stored the new state and not yet called `finish`. -/
  | stored
  /-- The handle was dropped without acceptance and has not yet raised the fence. -/
  | fencing
  deriving DecidableEq

def StateByte.Claimable (byte : StateByte) : Prop :=
  byte = .plain .reservedNoWrite ∨ byte = .plain .definiteNonWrite

instance (byte : StateByte) : Decidable byte.Claimable :=
  inferInstanceAs (Decidable (byte = .plain .reservedNoWrite ∨ byte = .plain .definiteNonWrite))

/-- Where the resolver loop stands; `stopping` is the flag it read with its snapshot. -/
inductive Resolver
  | idle
  | scanning (stopping : Bool) (todo claimed : List ℕ)
  /-- The state byte of descriptor `id` was loaded and is about to be exchanged. -/
  | loaded (stopping : Bool) (id : ℕ) (byte : { byte : StateByte // byte.Claimable })
      (todo claimed : List ℕ)
  /-- The aborted checkpoint of all remaining descriptors is durable. -/
  | storing (stopping : Bool) (todo : List ℕ)
  | finishing (stopping : Bool) (id : ℕ) (todo : List ℕ)
  | stopped
  deriving DecidableEq

structure System where
  shared : Shared
  writes : List (ℕ × WritePhase)
  resolver : Resolver

/-- Calls of one locked section that make no descriptor. -/
inductive RegistryCall
  | register (target incarnation : String) (issued : ℕ)
  | provisionalIncarnation (target candidate : String)
  | commitSettled (target incarnation : String) (settled : ℕ)
  | referenceResource (resource : String) (held : Bool)
  | markResourceIfNew (resource : String) (held : Bool)
  | completeUnassigned (resources : List String)
  | releaseUnallocated (resources : List String)

def Shared.exec (s : Shared) : RegistryCall → Shared
  | .register target incarnation issued => (s.register target incarnation issued).2
  | .provisionalIncarnation target candidate => (s.provisionalIncarnation target candidate).2
  | .commitSettled target incarnation settled => s.commitSettled target incarnation settled
  | .referenceResource resource held => s.referenceResource resource held
  | .markResourceIfNew resource held => (s.markResourceIfNew resource held).2
  | .completeUnassigned resources => s.completeUnassigned resources
  | .releaseUnallocated resources => s.releaseUnallocated resources

/-- What happens to one descriptor. -/
inductive DescriptorEvent
  | created
  /-- A call of `hand_off`, and whether it returned a write handle. -/
  | handOff (given : Bool)
  | definiteNonWrite
  | accept
  | storeAccepted
  | finish (aborted : Bool)
  | drop
  | fence
  | claim
  | storeAborted
  deriving DecidableEq

inductive Event
  | call (call : RegistryCall)
  | reserveBatch (requests : List AssignmentReservation) (guards : List ℕ)
  | detach (id : ℕ)
  | shutdown
  /-- Some other operation of the process raised the fatal fence. -/
  | fence
  | descriptor (id : ℕ) (event : DescriptorEvent)
  /-- A step of the resolver that changes no descriptor. -/
  | resolve

namespace Shared

def inFlightIds (s : Shared) : List ℕ :=
  s.registry.inboxes.toList.flatMap fun row => row.2.inFlight.toList.map (·.2)

def state? (s : Shared) (id : ℕ) : Option StateByte := s.descriptors[id]?.map (·.state)

end Shared

open DescriptorEvent in
/-- One step of one thread. -/
inductive Step : System → Event → System → Prop
  | call (s : System) (c : RegistryCall) : Step s (.call c) { s with shared := s.shared.exec c }
  | reserveBatch {s : System} {requests : List AssignmentReservation} {guards : List ℕ}
      {shared : Shared} (h : s.shared.reserveBatch requests = (.ok guards, shared)) :
      Step s (.reserveBatch requests guards) { s with shared }
  | detach (s : System) (id : ℕ) : Step s (.detach id) { s with shared := s.shared.detach id }
  | shutdown (s : System) : Step s .shutdown { s with shared := { s.shared with stopping := true } }
  | raise (s : System) : Step s .fence { s with shared := { s.shared with fenced := true } }
  -- Request guards. `hand_off` checks the fence first, so an exchange may come after a fence.
  | handOff {s : System} {id : ℕ} (h : s.shared.state? id = some (.plain .reservedNoWrite)) :
      Step s (.descriptor id (handOff true)) { s with
        shared := s.shared.setState id (.plain .handedOff)
        writes := s.writes ++ [(id, .held)] }
  | handOffRefused {s : System} {id : ℕ}
      (h : s.shared.state? id ≠ some (.plain .reservedNoWrite) ∨ s.shared.fenced = true) :
      Step s (.descriptor id (handOff false)) s
  | definiteNonWrite {s : System} {id : ℕ}
      (h : s.shared.state? id = some (.plain .reservedNoWrite)) :
      Step s (.descriptor id definiteNonWrite)
        { s with shared := s.shared.setState id (.plain .definiteNonWrite) }
  -- Writers.
  | accept {s : System} {id : ℕ} {before after : List (ℕ × WritePhase)}
      (h : s.writes = before ++ (id, .held) :: after) (hfence : s.shared.fenced = false) :
      Step s (.descriptor id accept) { s with writes := before ++ (id, .accepting) :: after }
  | storeAccepted {s : System} {id : ℕ} {before after : List (ℕ × WritePhase)}
      (h : s.writes = before ++ (id, .accepting) :: after) :
      Step s (.descriptor id storeAccepted) { s with
        shared := s.shared.setState id (.plain .acceptedDurable)
        writes := before ++ (id, .stored) :: after }
  | finishAccepted {s : System} {id : ℕ} {d : Descriptor} {before after : List (ℕ × WritePhase)}
      (h : s.writes = before ++ (id, .stored) :: after) (hd : s.shared.descriptors[id]? = some d) :
      Step s (.descriptor id (finish false)) { s with
        shared := s.shared.finish d false
        writes := before ++ after }
  | drop {s : System} {id : ℕ} {before after : List (ℕ × WritePhase)}
      (h : s.writes = before ++ (id, .held) :: after)
      (hstate : s.shared.state? id = some (.plain .handedOff)) :
      Step s (.descriptor id drop) { s with
        shared := s.shared.setState id (.plain .fatalUncertain)
        writes := before ++ (id, .fencing) :: after }
  | fence {s : System} {id : ℕ} {before after : List (ℕ × WritePhase)}
      (h : s.writes = before ++ (id, .fencing) :: after) :
      Step s (.descriptor id fence) { s with
        shared := { s.shared with fenced := true }
        writes := before ++ after }
  -- The resolver thread.
  | halt {s : System} (h : s.resolver = .idle) (hfence : s.shared.fenced = true) :
      Step s .resolve { s with resolver := .stopped }
  | snapshot {s : System} (h : s.resolver = .idle) (hfence : s.shared.fenced = false) :
      Step s .resolve { s with resolver := .scanning s.shared.stopping s.shared.inFlightIds [] }
  | skip {s : System} {id : ℕ} {d : Descriptor} {stopping : Bool} {todo claimed : List ℕ}
      (h : s.resolver = .scanning stopping (id :: todo) claimed)
      (hd : s.shared.descriptors[id]? = some d)
      (hskip : (stopping = false ∧ d.detached = false) ∨ ¬ d.state.Claimable) :
      Step s .resolve { s with resolver := .scanning stopping todo claimed }
  | load {s : System} {id : ℕ} {d : Descriptor} {stopping : Bool} {todo claimed : List ℕ}
      (h : s.resolver = .scanning stopping (id :: todo) claimed)
      (hd : s.shared.descriptors[id]? = some d) (hdetached : stopping = true ∨ d.detached = true)
      (hclaimable : d.state.Claimable) :
      Step s .resolve { s with resolver := .loaded stopping id ⟨d.state, hclaimable⟩ todo claimed }
  | claim {s : System} {id : ℕ} {byte : { byte : StateByte // byte.Claimable }} {stopping : Bool}
      {todo claimed : List ℕ}
      (h : s.resolver = .loaded stopping id byte todo claimed)
      (hstate : s.shared.state? id = some byte.1) :
      Step s (.descriptor id claim) { s with
        shared := s.shared.setState id .abortClaim
        resolver := .scanning stopping todo (claimed ++ [id]) }
  | lose {s : System} {id : ℕ} {byte : { byte : StateByte // byte.Claimable }} {stopping : Bool}
      {todo claimed : List ℕ}
      (h : s.resolver = .loaded stopping id byte todo claimed)
      (hstate : s.shared.state? id ≠ some byte.1) :
      Step s .resolve { s with resolver := .scanning stopping todo claimed }
  | abortBatch {s : System} {stopping : Bool} {claimed : List ℕ}
      (h : s.resolver = .scanning stopping [] claimed)
      (hfence : claimed = [] ∨ s.shared.fenced = false) :
      Step s .resolve { s with resolver := .storing stopping claimed }
  | abortFailed {s : System} {stopping : Bool} {claimed : List ℕ}
      (h : s.resolver = .scanning stopping [] claimed) (hclaimed : claimed ≠ []) :
      Step s .resolve { s with shared := { s.shared with fenced := true }, resolver := .stopped }
  | storeAborted {s : System} {id : ℕ} {stopping : Bool} {todo : List ℕ}
      (h : s.resolver = .storing stopping (id :: todo)) :
      Step s (.descriptor id storeAborted) { s with
        shared := s.shared.setState id (.plain .abortedDurable)
        resolver := .finishing stopping id todo }
  | finishAborted {s : System} {id : ℕ} {d : Descriptor} {stopping : Bool} {todo : List ℕ}
      (h : s.resolver = .finishing stopping id todo) (hd : s.shared.descriptors[id]? = some d) :
      Step s (.descriptor id (finish true)) { s with
        shared := s.shared.finish d true
        resolver := .storing stopping todo }
  | park {s : System} (h : s.resolver = .storing false []) :
      Step s .resolve { s with resolver := .idle }
  | stop {s : System} (h : s.resolver = .storing true []) :
      Step s .resolve { s with
        shared := { s.shared with fenced := s.shared.fenced || !s.shared.inFlightIds.isEmpty }
        resolver := .stopped }

/-- A core opened on recovered inboxes: nothing is live, and all that was issued is published. -/
structure System.Recovered (s : System) : Prop where
  inboxes : ∀ (key : Key) (inbox : Inbox), s.shared.registry.inboxes[key]? = some inbox →
    inbox.inFlight = ∅ ∧ inbox.accepted = ∅ ∧ inbox.reservations = 0 ∧
      inbox.published = inbox.allocated ∧ inbox.retired = false
  incarnation : ∀ key key' : Key, key ∈ s.shared.registry.inboxes →
    key' ∈ s.shared.registry.inboxes → key.target = key'.target → key = key'
  resources : s.shared.registry.resources = ∅ ∧ s.shared.registry.resourcesSeen = ∅ ∧
    s.shared.registry.resourcesPublished = ∅
  descriptors : s.shared.descriptors = []
  writes : s.writes = []
  resolver : s.resolver = .idle

namespace Shared

/-- A change of resource bookkeeping only. -/
structure SameInboxes (s s' : Shared) : Prop where
  inboxes : s'.registry.inboxes = s.registry.inboxes
  descriptors : s'.descriptors = s.descriptors
  stopping : s'.stopping = s.stopping
  fenced : s'.fenced = s.fenced

namespace SameInboxes

theorem refl (s : Shared) : SameInboxes s s := ⟨rfl, rfl, rfl, rfl⟩

theorem trans {s t u : Shared} (h : SameInboxes s t) (h' : SameInboxes t u) : SameInboxes s u :=
  ⟨h'.inboxes.trans h.inboxes, h'.descriptors.trans h.descriptors, h'.stopping.trans h.stopping,
    h'.fenced.trans h.fenced⟩

theorem foldl {α : Type} {f : Shared → α → Shared} (hf : ∀ s a, SameInboxes s (f s a)) (s : Shared)
    (l : List α) : SameInboxes s (l.foldl f s) :=
  List.foldlRecOn l f (refl s) fun b h a _ => h.trans (hf b a)

end SameInboxes

section
variable (s : Shared) (resource : String)

theorem sameInboxes_referenceResource (held : Bool) :
    SameInboxes s (s.referenceResource resource held) := ⟨rfl, rfl, rfl, rfl⟩

theorem sameInboxes_markResourceIfNew (held : Bool) :
    SameInboxes s (s.markResourceIfNew resource held).2 := by
  cases held <;> exact ⟨rfl, rfl, rfl, rfl⟩

theorem sameInboxes_completeResource : SameInboxes s (s.completeResource resource) := by
  unfold completeResource
  split_ifs <;> exact ⟨rfl, rfl, rfl, rfl⟩

theorem sameInboxes_releaseHold : SameInboxes s (s.releaseHold resource) := by
  unfold releaseHold
  dsimp only
  split_ifs <;> exact ⟨rfl, rfl, rfl, rfl⟩

theorem sameInboxes_releaseResource (child : Child) (accepted : Bool) :
    SameInboxes s (releaseResource child accepted s resource) := by
  unfold releaseResource
  cases s.registry.resources[resource]? with
  | none => exact .refl s
  | some owners =>
    dsimp only
    split_ifs <;> exact ⟨rfl, rfl, rfl, rfl⟩

end

theorem exec_frame (s : Shared) (c : RegistryCall) : (s.exec c).descriptors = s.descriptors ∧
    (s.exec c).stopping = s.stopping ∧ (s.exec c).fenced = s.fenced := by
  have hsame : ∀ {s' : Shared}, SameInboxes s s' →
      s'.descriptors = s.descriptors ∧ s'.stopping = s.stopping ∧ s'.fenced = s.fenced :=
    fun h => ⟨h.descriptors, h.stopping, h.fenced⟩
  cases c with
  | register target incarnation issued =>
    rw [show s.exec (.register target incarnation issued) =
      (s.register target incarnation issued).2 from rfl]
    unfold register
    split_ifs <;> exact ⟨rfl, rfl, rfl⟩
  | provisionalIncarnation target candidate =>
    rw [show s.exec (.provisionalIncarnation target candidate) =
      (s.provisionalIncarnation target candidate).2 from rfl]
    unfold provisionalIncarnation
    rcases s.current target with _ | ⟨key, inbox⟩
    · exact ⟨rfl, rfl, rfl⟩
    · dsimp only
      split_ifs <;> exact ⟨rfl, rfl, rfl⟩
  | commitSettled target incarnation settled =>
    rw [show s.exec (.commitSettled target incarnation settled) =
      s.commitSettled target incarnation settled from rfl]
    unfold commitSettled
    cases s.registry.inboxes[(⟨target, incarnation⟩ : Key)]? <;> exact ⟨rfl, rfl, rfl⟩
  | referenceResource resource held => exact hsame (s.sameInboxes_referenceResource resource held)
  | markResourceIfNew resource held => exact hsame (s.sameInboxes_markResourceIfNew resource held)
  | completeUnassigned resources => exact hsame (.foldl sameInboxes_completeResource s resources)
  | releaseUnallocated resources => exact hsame (.foldl sameInboxes_releaseHold s resources)

section
variable (s : Shared) (d : Descriptor) (aborted : Bool)

/-- Accepted assignments give up their resources once they are published. -/
theorem sameInboxes_releasePublished (key : Key) (published : List (ℕ × List String)) : SameInboxes s
    (published.foldl (fun s entry => entry.2.foldl (releaseResource ⟨key, entry.1⟩ true) s) s) :=
  .foldl (fun s _ => .foldl (fun s resource => s.sameInboxes_releaseResource resource _ _) s _) s _

/-- What `finish` does to the inboxes, and all that it leaves alone. -/
theorem finish_frame : (s.finish d aborted).descriptors = s.descriptors ∧
    (s.finish d aborted).stopping = s.stopping ∧ (s.finish d aborted).fenced = s.fenced ∧
    (s.finish d aborted).registry.inboxes = if s.fenced then s.registry.inboxes else
      match s.registry.inboxes[d.key]? with
      | none => s.registry.inboxes
      | some inbox => s.registry.inboxes.insert d.key (finishInbox inbox d aborted).1 := by
  unfold finish
  have hcleanup : SameInboxes s (if aborted then
      { s with entryCleanups := s.entryCleanups ++ [(d.key.target, d.seq)] } else s) := by
    split_ifs <;> exact ⟨rfl, rfl, rfl, rfl⟩
  generalize (if aborted then _ else s) = s₁ at hcleanup ⊢
  dsimp only
  rw [hcleanup.fenced]
  split_ifs with hfenced
  · exact ⟨hcleanup.descriptors, hcleanup.stopping, hcleanup.fenced, hcleanup.inboxes⟩
  · unfold finishLocked
    have hrelease : SameInboxes s (if aborted then
        d.resources.foldl (releaseResource d.child false) s₁ else s₁) := by
      split_ifs
      · exact hcleanup.trans (.foldl (fun s resource => s.sameInboxes_releaseResource resource _ _) _ _)
      · exact hcleanup
    generalize (if aborted then _ else s₁) = s₂ at hrelease ⊢
    rw [← hrelease.inboxes]
    dsimp only
    cases hinbox : s₂.registry.inboxes[d.key]? with
    | none => exact ⟨hrelease.descriptors, hrelease.stopping, hrelease.fenced, rfl⟩
    | some inbox =>
      have hpub := sameInboxes_releasePublished (s₂.setInbox d.key (finishInbox inbox d aborted).1)
        d.key (finishInbox inbox d aborted).2
      exact ⟨hpub.descriptors.trans hrelease.descriptors, hpub.stopping.trans hrelease.stopping,
        hpub.fenced.trans hrelease.fenced, hpub.inboxes⟩

end

end Shared

end Ramflux.Publication
