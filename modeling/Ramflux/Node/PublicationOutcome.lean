import Ramflux.Node.PublicationReserve
import Ramflux.Node.PublicationSystem

/-! One descriptor among all threads moves through a fixed automaton, and so has one outcome. -/
namespace Ramflux.Publication
open List Resolver Event

/-- Who owns a descriptor, and what has happened to it. -/
inductive Life
  | absent
  | reserved
  | nonWrite
  | writing
  | accepting
  | accepted
  | acceptedFinished
  | uncertain
  | uncertainFenced
  | claimed
  | aborting
  | abortedFinished
  deriving DecidableEq

namespace Life

def next? : Life → DescriptorEvent → Option Life
  | .absent, .created => some .reserved
  | life, .handOff false => some life
  | .reserved, .handOff true => some .writing
  | .reserved, .definiteNonWrite => some .nonWrite
  | .writing, .accept => some .accepting
  | .accepting, .storeAccepted => some .accepted
  | .accepted, .finish false => some .acceptedFinished
  | .writing, .drop => some .uncertain
  | .uncertain, .fence => some .uncertainFenced
  | .reserved, .claim => some .claimed
  | .nonWrite, .claim => some .claimed
  | .claimed, .storeAborted => some .aborting
  | .aborting, .finish true => some .abortedFinished
  | _, _ => none

def Step (life : Life) (event : DescriptorEvent) (life' : Life) : Prop :=
  life.next? event = some life'

def byte? : Life → Option StateByte
  | .absent => none
  | .reserved => some (.plain .reservedNoWrite)
  | .nonWrite => some (.plain .definiteNonWrite)
  | .writing | .accepting => some (.plain .handedOff)
  | .accepted | .acceptedFinished => some (.plain .acceptedDurable)
  | .uncertain | .uncertainFenced => some (.plain .fatalUncertain)
  | .claimed => some .abortClaim
  | .aborting | .abortedFinished => some (.plain .abortedDurable)

def phases : Life → List WritePhase
  | .writing => [.held]
  | .accepting => [.accepting]
  | .accepted => [.stored]
  | .uncertain => [.fencing]
  | _ => []

/-- What the events so far say about the current owner. -/
structure Explains (events : List DescriptorEvent) (life : Life) : Prop where
  finishes : (events.filter fun e => e = .finish true ∨ e = .finish false).length =
    if life = .acceptedFinished ∨ life = .abortedFinished then 1 else 0
  given : .handOff true ∈ events → life = .writing ∨ life = .accepting ∨ life = .accepted ∨
    life = .acceptedFinished ∨ life = .uncertain ∨ life = .uncertainFenced
  accepted : .storeAccepted ∈ events ∨ .finish false ∈ events →
    life = .accepted ∨ life = .acceptedFinished
  claimed : .claim ∈ events ∨ .storeAborted ∈ events ∨ .finish true ∈ events →
    life = .claimed ∨ life = .aborting ∨ life = .abortedFinished

variable {events : List DescriptorEvent}

theorem explains_of_run {life : Life}
    (hrun : Run Step .absent events life) : Explains events life := by
  apply hrun.invariant (P := Explains)
  · constructor <;> simp
  · intro events life event life' _ h hstep
    obtain ⟨hfinishes, hgiven, hacc, hclaimed⟩ := h
    unfold Step next? at hstep
    split at hstep
    all_goals cases hstep
    all_goals constructor <;> simp_all

theorem Explains.of_finish {life : Life} (h : Explains events life)
    (hpos : 0 < (events.filter fun e => e = .finish true ∨ e = .finish false).length) :
    life = .acceptedFinished ∨ life = .abortedFinished := by
  rw [h.finishes] at hpos
  by_contra hne
  rw [if_neg hne] at hpos
  exact absurd hpos (lt_irrefl 0)

theorem phases_eq_singleton {life : Life} {before after : List WritePhase} {phase : WritePhase}
    (h : life.phases = before ++ phase :: after) :
    before = [] ∧ after = [] ∧ life.phases = [phase] := by
  have hlen : life.phases.length ≤ 1 := by cases life <;> decide
  have hbefore : before = [] := by
    rw [h] at hlen
    apply eq_nil_of_length_eq_zero
    simp at hlen
    omega
  have hafter : after = [] := by
    rw [h] at hlen
    apply eq_nil_of_length_eq_zero
    simp at hlen
    omega
  subst hbefore hafter
  exact ⟨rfl, rfl, h⟩

end Life

/-- Events of one descriptor in a step. -/
def Event.about (id : ℕ) : Event → List DescriptorEvent
  | .reserveBatch _ guards => if id ∈ guards then [.created] else []
  | .descriptor id' event => if id' = id then [event] else []
  | _ => []

def history (events : List Event) (id : ℕ) : List DescriptorEvent := events.flatMap (about id)

def phasesOf (writes : List (ℕ × WritePhase)) (id : ℕ) : List WritePhase :=
  (writes.filter (·.1 = id)).map (·.2)

def Resolver.claims : Resolver → List ℕ
  | .scanning _ _ claimed => claimed
  | .loaded _ _ _ _ claimed => claimed
  | .storing _ todo => todo
  | .finishing _ _ todo => todo
  | _ => []

def Resolver.finishes : Resolver → List ℕ
  | .finishing _ id _ => [id]
  | _ => []

/-- The threads own a descriptor as its life says. -/
structure Shows (life : Life) (s : System) (id : ℕ) : Prop where
  byte : s.shared.state? id = life.byte?
  phases : phasesOf s.writes id = life.phases
  claims : s.resolver.claims.count id ≤ if life = .claimed then 1 else 0
  finishes : id ∈ s.resolver.finishes → life = .aborting

section
variable (id id' : ℕ) (phase : WritePhase) (before after : List (ℕ × WritePhase))

theorem phasesOf_append (writes writes' : List (ℕ × WritePhase)) :
    phasesOf (writes ++ writes') id = phasesOf writes id ++ phasesOf writes' id := by
  simp [phasesOf]

theorem phasesOf_cons_self (writes : List (ℕ × WritePhase)) :
    phasesOf ((id, phase) :: writes) id = phase :: phasesOf writes id := by
  simp [phasesOf]

variable {id id'}

variable (s : Shared) (byte : StateByte)

theorem Shared.state?_setState_self {old : StateByte} (h : s.state? id = some old) :
    (s.setState id byte).state? id = some byte := by
  unfold state? setState at *
  rw [getElem?_modify]
  cases hd : s.descriptors[id]? with
  | none => simp [hd] at h
  | some d => simp

theorem Shared.state?_setState_of_ne (hne : id' ≠ id) :
    (s.setState id' byte).state? id = s.state? id := by
  unfold state? setState
  simp [hne]

theorem Shared.state?_detach : (s.detach id').state? id = s.state? id := by
  unfold state? detach
  rw [getElem?_modify]
  cases s.descriptors[id]? with
  | none => rfl
  | some d => split_ifs <;> rfl

theorem Shared.state?_finish (d : Descriptor) (aborted : Bool) :
    (s.finish d aborted).state? id = s.state? id := by
  unfold state?
  rw [(s.finish_frame d aborted).1]

end

namespace Shows
variable {life life' : Life} {s s' : System} {id : ℕ}

/-- A step that takes nothing from the owners of a descriptor and gives nothing to them. -/
theorem quiet (h : Shows life s id) (hbyte : s'.shared.state? id = s.shared.state? id)
    (hphases : phasesOf s'.writes id = phasesOf s.writes id)
    (hclaims : s'.resolver.claims.count id ≤ s.resolver.claims.count id)
    (hfinishes : id ∈ s'.resolver.finishes → id ∈ s.resolver.finishes) : Shows life s' id where
  byte := hbyte.trans h.byte
  phases := hphases.trans h.phases
  claims := hclaims.trans h.claims
  finishes hmem := h.finishes (hfinishes hmem)

theorem resolve (h : Shows life s id) {shared : Shared} {resolver : Resolver}
    (hbyte : shared.state? id = s.shared.state? id)
    (hclaims : resolver.claims.count id ≤ s.resolver.claims.count id)
    (hfinishes : resolver.finishes = []) : Shows life ⟨shared, s.writes, resolver⟩ id := by
  refine h.quiet hbyte rfl hclaims ?_
  rw [hfinishes]
  exact fun hmem => absurd hmem not_mem_nil

/-- The handle of a writer fixes the owner. -/
theorem of_write (h : Shows life s id) {before after : List (ℕ × WritePhase)} {phase : WritePhase}
    (hwrites : s.writes = before ++ (id, phase) :: after) :
    life.phases = [phase] ∧ phasesOf before id = [] ∧ phasesOf after id = [] := by
  have hphases := h.phases
  rw [hwrites, phasesOf_append, phasesOf_cons_self] at hphases
  obtain ⟨hbefore, hafter, hlife⟩ := Life.phases_eq_singleton hphases.symm
  exact ⟨hlife, hbefore, hafter⟩

theorem eq_claimed (h : Shows life s id) (hmem : id ∈ s.resolver.claims) :
    life = .claimed ∧ s.resolver.claims.count id = 1 := by
  have hpos : 0 < s.resolver.claims.count id := count_pos_iff.mpr hmem
  have hle := h.claims
  split_ifs at hle with hlife
  · exact ⟨hlife, by omega⟩
  · omega

end Shows

def WritePhase.life : WritePhase → Life
  | .held => .writing
  | .accepting => .accepting
  | .stored => .accepted
  | .fencing => .uncertain

theorem Life.eq_of_phases {life : Life} {phase : WritePhase} (h : life.phases = [phase]) :
    life = phase.life := by
  cases life <;> cases phase <;> first | rfl | simp [phases] at h

theorem Event.about_descriptor_self (id : ℕ) (event : DescriptorEvent) :
    (descriptor id event).about id = [event] :=
  if_pos rfl

theorem Event.about_descriptor_of_ne {id id' : ℕ} (hne : id' ≠ id) (event : DescriptorEvent) :
    (descriptor id' event).about id = [] :=
  if_neg hne

theorem WritePhase.life_ne (phase : WritePhase) : phase.life ≠ .claimed ∧ phase.life ≠ .aborting := by
  cases phase <;> decide

section
variable {life : Life} (life' : Life) {s : System} {id id' : ℕ} {event : DescriptorEvent}
  {shared : Shared}

/-- A writer moved on with its handle: its descriptor took a step, and no other one did. -/
theorem Shows.write (h : Shows life s id) {phase : WritePhase}
    {before after writes : List (ℕ × WritePhase)}
    (hwrites : s.writes = before ++ (id', phase) :: after)
    (hwrites' : writes = before ++ life'.phases.map (id', ·) ++ after)
    (hnext : phase.life.next? event = some life')
    (hself : s.shared.state? id' = phase.life.byte? → shared.state? id' = life'.byte?)
    (hother : ∀ id, id' ≠ id → shared.state? id = s.shared.state? id) :
    ∃ life'', Run Life.Step life ((descriptor id' event).about id) life'' ∧
      Shows life'' { s with shared, writes } id := by
  subst hwrites'
  by_cases heq : id' = id
  · subst heq
    obtain ⟨hlife, hbefore, hafter⟩ := h.of_write hwrites
    obtain rfl := Life.eq_of_phases hlife
    obtain ⟨hclaims, hfinish⟩ := phase.life_ne
    rw [about_descriptor_self]
    refine ⟨life', Run.single hnext, hself h.byte, ?_, ?_, ?_⟩
    · rw [phasesOf_append, phasesOf_append, hbefore, hafter]
      cases life' <;> simp [phasesOf, Life.phases]
    · have hzero := h.claims
      rw [if_neg hclaims] at hzero
      exact hzero.trans (Nat.zero_le _)
    · intro hmem
      exact absurd (h.finishes hmem) hfinish
  · rw [about_descriptor_of_ne heq]
    refine ⟨life, .nil, h.quiet (hother id heq) ?_ le_rfl fun hmem => hmem⟩
    rw [hwrites]
    simp [phasesOf, heq]

/-- A step of a thread without a write handle, on one descriptor. -/
theorem Shows.move {writes : List (ℕ × WritePhase)} {resolver : Resolver}
    (hself : id' = id → life.next? event = some life' ∧ Shows life' ⟨shared, writes, resolver⟩ id)
    (hother : id' ≠ id → Shows life ⟨shared, writes, resolver⟩ id) :
    ∃ life'', Run Life.Step life ((descriptor id' event).about id) life'' ∧
      Shows life'' ⟨shared, writes, resolver⟩ id := by
  by_cases heq : id' = id
  · obtain ⟨hnext, hshows⟩ := hself heq
    rw [heq, about_descriptor_self]
    exact ⟨life', Run.single hnext, hshows⟩
  · rw [about_descriptor_of_ne heq]
    exact ⟨life, .nil, hother heq⟩

end

theorem Life.eq_reserved {life : Life} (h : some (.plain .reservedNoWrite) = life.byte?) :
    life = .reserved := by
  cases life <;> first | rfl | simp [byte?] at h

theorem Life.eq_of_claimable {life : Life} {byte : StateByte} (hbyte : byte.Claimable)
    (h : some byte = life.byte?) : life = .reserved ∨ life = .nonWrite := by
  rcases hbyte with rfl | rfl <;> cases life <;> simp [byte?] at h ⊢

variable {requests : List AssignmentReservation} {guards : List ℕ}

theorem Shared.state?_reserveBatch {s s' : Shared} (h : s.reserveBatch requests = (.ok guards, s'))
    (id : ℕ) :
    s'.state? id = if id ∈ guards then some (.plain .reservedNoWrite) else s.state? id := by
  rcases s.reserveBatch_cases requests with ⟨e, he⟩ | ⟨s'', new, -, -, -, hbatch, hresv⟩
  · rw [he] at h
    simp at h
  · rw [hbatch] at h
    obtain ⟨rfl, rfl⟩ := h
    have hlen : new.length = requests.length := by simpa using congrArg List.length hresv.owners
    unfold state?
    rw [hresv.descriptors]
    rcases lt_or_ge id s.descriptors.length with hlt | hge
    · rw [getElem?_append_left hlt, if_neg]
      simp [hlt]
    · rw [getElem?_append_right hge]
      by_cases hnew : id - s.descriptors.length < new.length
      · have hstate := (hresv.fresh _ (getElem_mem hnew)).1
        rw [getElem?_eq_getElem hnew, Option.map_some, hstate, if_pos]
        simp only [mem_range'_1]
        omega
      · rw [getElem?_eq_none (by omega), if_neg, getElem?_eq_none hge]
        simp only [mem_range'_1]
        omega

theorem Shared.state?_of_mem_guards {s s' : Shared} (h : s.reserveBatch requests =
    (.ok guards, s')) {id : ℕ} (hmem : id ∈ guards) : s.state? id = none := by
  rcases s.reserveBatch_cases requests with ⟨e, he⟩ | ⟨s'', new, -, -, -, hbatch, -⟩
  · rw [he] at h
    simp at h
  · rw [hbatch] at h
    simp only [Prod.mk.injEq, Except.ok.injEq] at h
    rw [← h.1, mem_range'_1] at hmem
    unfold state?
    rw [getElem?_eq_none hmem.1]
    rfl

/-- Simulation: a step of the system is a step of each descriptor's life, or none. -/
theorem Step.shows {s s' : System} {event : Event} (hstep : Step s event s') {life : Life} {id : ℕ}
    (h : Shows life s id) : ∃ life', Run Life.Step life (event.about id) life' ∧ Shows life' s' id := by
  have hquiet : event.about id = [] → Shows life s' id →
      ∃ life', Run Life.Step life (event.about id) life' ∧ Shows life' s' id := by
    intro habout hshows
    rw [habout]
    exact ⟨life, .nil, hshows⟩
  cases hstep with
  | call c =>
    apply hquiet rfl
    refine h.quiet ?_ rfl le_rfl fun hmem => hmem
    unfold Shared.state?
    rw [(s.shared.exec_frame c).1]
  | reserveBatch hbatch =>
    by_cases hmem : id ∈ ‹List ℕ›
    · have habsent : life = .absent := by
        have hbyte := h.byte
        rw [Shared.state?_of_mem_guards hbatch hmem] at hbyte
        cases life <;> first | rfl | simp [Life.byte?] at hbyte
      subst habsent
      refine ⟨.reserved, ?_, ?_, h.phases, h.claims, fun hmem => absurd (h.finishes hmem) (by decide)⟩
      · rw [about, if_pos hmem]
        exact Run.single rfl
      · exact (Shared.state?_reserveBatch hbatch id).trans (if_pos hmem)
    · apply hquiet (if_neg hmem)
      refine h.quiet ?_ rfl le_rfl fun hmem => hmem
      exact (Shared.state?_reserveBatch hbatch id).trans (if_neg hmem)
  | detach id' => exact hquiet rfl (h.quiet s.shared.state?_detach rfl le_rfl fun hmem => hmem)
  | shutdown | raise => exact hquiet rfl (h.quiet rfl rfl le_rfl fun hmem => hmem)
  | handOff hstate =>
    apply Shows.move .writing
    · rintro rfl
      obtain rfl := Life.eq_reserved (hstate.symm.trans h.byte)
      refine ⟨rfl, s.shared.state?_setState_self _ hstate, ?_, h.claims,
        fun hmem => absurd (h.finishes hmem) (by decide)⟩
      rw [phasesOf_append, h.phases]
      simp [phasesOf, Life.phases]
    · intro hne
      refine h.quiet (s.shared.state?_setState_of_ne _ hne) ?_ le_rfl fun hmem => hmem
      simp [phasesOf, hne]
  | handOffRefused hstate => exact Shows.move life (fun _ => ⟨by cases life <;> rfl, h⟩) fun _ => h
  | definiteNonWrite hstate =>
    apply Shows.move .nonWrite
    · rintro rfl
      obtain rfl := Life.eq_reserved (hstate.symm.trans h.byte)
      exact ⟨rfl, s.shared.state?_setState_self _ hstate, h.phases, h.claims,
        fun hmem => absurd (h.finishes hmem) (by decide)⟩
    · intro hne
      exact h.quiet (s.shared.state?_setState_of_ne _ hne) rfl le_rfl fun hmem => hmem
  | accept hwrites _ =>
    exact h.write .accepting hwrites (by simp [Life.phases]) rfl (fun hbyte => hbyte)
      fun _ _ => rfl
  | storeAccepted hwrites =>
    exact h.write .accepted hwrites (by simp [Life.phases]) rfl
      (fun hbyte => s.shared.state?_setState_self _ hbyte)
      fun id hne => s.shared.state?_setState_of_ne _ hne
  | finishAccepted hwrites hd =>
    exact h.write .acceptedFinished hwrites (by simp [Life.phases]) rfl
      (fun hbyte => (s.shared.state?_finish _ _).trans hbyte) fun id _ => s.shared.state?_finish _ _
  | drop hwrites hstate =>
    exact h.write .uncertain hwrites (by simp [Life.phases]) rfl
      (fun hbyte => s.shared.state?_setState_self _ hbyte)
      fun id hne => s.shared.state?_setState_of_ne _ hne
  | fence hwrites =>
    exact h.write .uncertainFenced hwrites (by simp [Life.phases]) rfl
      (fun hbyte => hbyte) fun _ _ => rfl
  | halt _ _ | snapshot _ _ | abortFailed _ _ | park _ | stop _ =>
    exact hquiet rfl (h.resolve rfl (by simp [claims]) rfl)
  | skip hresolver _ _ | load hresolver _ _ _ | lose hresolver _ | abortBatch hresolver _ =>
    exact hquiet rfl (h.resolve rfl (by simp [claims, hresolver]) rfl)
  | @claim id' byte stopping todo claimed hresolver hstate =>
    have hclaims := h.claims
    rw [hresolver] at hclaims
    apply Shows.move .claimed
    · rintro rfl
      refine ⟨?_, s.shared.state?_setState_self _ hstate, ?_, ?_, ?_⟩
      · rcases Life.eq_of_claimable byte.2 (hstate.symm.trans h.byte) with rfl | rfl <;> rfl
      · rcases Life.eq_of_claimable byte.2 (hstate.symm.trans h.byte) with rfl | rfl <;>
          exact h.phases
      · rcases Life.eq_of_claimable byte.2 (hstate.symm.trans h.byte) with rfl | rfl <;>
          simpa [claims] using hclaims
      · simp [finishes]
    · intro hne
      refine h.quiet (s.shared.state?_setState_of_ne _ hne) rfl ?_ (by simp [finishes])
      simp [claims, hresolver, hne]
  | @storeAborted id' stopping todo hresolver =>
    apply Shows.move .aborting
    · rintro rfl
      obtain ⟨rfl, hcount⟩ := h.eq_claimed (by simp [hresolver, claims])
      refine ⟨rfl, s.shared.state?_setState_self _ h.byte, h.phases, ?_, fun _ => rfl⟩
      rw [hresolver] at hcount
      simpa [claims] using hcount
    · intro hne
      refine h.quiet (s.shared.state?_setState_of_ne _ hne) rfl ?_ ?_
      · simp [claims, hresolver, count_cons_of_ne hne]
      · simp [finishes, Ne.symm hne]
  | @finishAborted id' d stopping todo hresolver hd =>
    have hsame : (s.shared.finish d true).state? id = s.shared.state? id := s.shared.state?_finish _ _
    apply Shows.move .abortedFinished
    · rintro rfl
      obtain rfl := h.finishes (by simp [hresolver, finishes])
      refine ⟨rfl, hsame.trans h.byte, h.phases, ?_, by simp [finishes]⟩
      have hclaims := h.claims
      rw [hresolver] at hclaims
      simpa [claims] using hclaims
    · intro hne
      exact h.quiet hsame rfl (by simp [claims, hresolver]) (by simp [finishes])

theorem history_append_singleton (events : List Event) (event : Event) (id : ℕ) :
    history (events ++ [event]) id = history events id ++ event.about id := by
  simp [history]

/-- Every descriptor of a core lives a life of the automaton. -/
theorem exists_life {s t : System} {events : List Event} (hs : s.Recovered)
    (hrun : Run Step s events t) (id : ℕ) :
    ∃ life, Run Life.Step .absent (history events id) life ∧ Shows life t id := by
  apply hrun.invariant
    (P := fun events t => ∃ life, Run Life.Step .absent (history events id) life ∧ Shows life t id)
  · refine ⟨.absent, .nil, ?_, ?_, ?_, ?_⟩
    · simp [Shared.state?, hs.descriptors, Life.byte?]
    · simp [hs.writes, phasesOf, Life.phases]
    · simp [hs.resolver, claims]
    · simp [hs.resolver, finishes]
  · rintro events t event u _ ⟨life, hlife, hshows⟩ hstep
    obtain ⟨life', hnext, hshows'⟩ := hstep.shows hshows
    rw [history_append_singleton]
    exact ⟨life', hlife.append hnext, hshows'⟩

/-- A descriptor is finished at most once, not both accepted and aborted, and never handed to a writer
after the resolver claimed it. -/
theorem descriptor_one_outcome {s t : System} {events : List Event} (hs : s.Recovered)
    (hrun : Run Step s events t) (id : ℕ) :
    ((history events id).filter fun e => e = .finish true ∨ e = .finish false).length ≤ 1 ∧
      ¬ ((.storeAccepted ∈ history events id ∨ .finish false ∈ history events id) ∧
        (.claim ∈ history events id ∨ .storeAborted ∈ history events id ∨
          .finish true ∈ history events id)) ∧
      (.claim ∈ history events id → .handOff true ∉ history events id) := by
  obtain ⟨life, hlife, -⟩ := exists_life hs hrun id
  obtain ⟨hfinishes, hgiven, hacc, hclaimed⟩ := Life.explains_of_run hlife
  refine ⟨?_, ?_, ?_⟩
  · rw [hfinishes]
    split_ifs <;> decide
  · rintro ⟨ha, hc⟩
    rcases hacc ha with rfl | rfl <;> simpa using hclaimed hc
  · intro hc hg
    rcases hclaimed (.inl hc) with rfl | rfl | rfl <;> simpa using hgiven hg

def emptyCore : System where
  shared := ⟨⟨∅, ∅, ∅, ∅⟩, [], false, false, [], []⟩
  writes := []
  resolver := .idle

theorem emptyCore_recovered : emptyCore.Recovered where
  inboxes key inbox h := by simp [emptyCore] at h
  incarnation key key' h := by simp [emptyCore] at h
  resources := ⟨rfl, rfl, rfl⟩
  descriptors := rfl
  writes := rfl
  resolver := rfl

/-- Two reservations: the first is accepted while the resolver aborts the second. -/
def acceptAndAbort : List Event :=
  [.call (.provisionalIncarnation "t" "i"),
    .reserveBatch [⟨"t", "i", []⟩, ⟨"t", "i", []⟩] [0, 1],
    .descriptor 0 (.handOff true), .detach 1, .resolve, .resolve, .resolve, .descriptor 1 .claim,
    .descriptor 1 (.handOff false), .descriptor 0 .accept, .resolve, .descriptor 0 .storeAccepted,
    .descriptor 1 .storeAborted, .descriptor 0 (.finish false), .descriptor 1 (.finish true)]

theorem exists_run_acceptAndAbort : ∃ t, Run Step emptyCore acceptAndAbort t ∧
    t.shared.fenced = false ∧
    t.shared.registry.inboxes[(⟨"t", "i"⟩ : Key)]?.map (·.published) = some 2 := by
  apply Exists.intro
  constructor
  · exact .cons (.call _ _) <| .cons (.reserveBatch (Prod.ext (by decide +kernel) rfl)) <|
      .cons (.handOff (by decide +kernel)) <| .cons (.detach _ _) <|
      .cons (.snapshot rfl (by decide +kernel)) <|
      .cons (@Step.skip _ 0 ⟨⟨"t", "i"⟩, 1, .plain .handedOff, false, []⟩ false [1] []
        (by decide +kernel) (by decide +kernel) (by decide)) <|
      .cons (@Step.load _ 1 ⟨⟨"t", "i"⟩, 2, .plain .reservedNoWrite, true, []⟩ false [] []
        rfl (by decide +kernel) (by decide) (by decide)) <|
      .cons (.claim rfl (by decide +kernel)) <| .cons (.handOffRefused (by decide +kernel)) <|
      .cons (@Step.accept _ 0 [] [] rfl (by decide +kernel)) <|
      .cons (.abortBatch rfl (by decide +kernel)) <| .cons (@Step.storeAccepted _ 0 [] [] rfl) <|
      .cons (.storeAborted rfl) <|
      .cons (@Step.finishAccepted _ 0 ⟨⟨"t", "i"⟩, 1, .plain .acceptedDurable, false, []⟩ [] []
        rfl (by decide +kernel)) <|
      .cons (@Step.finishAborted _ 1 ⟨⟨"t", "i"⟩, 2, .plain .abortedDurable, true, []⟩ false []
        rfl (by decide +kernel)) .nil
  · constructor <;> decide +kernel

theorem handOff_refused_acceptAndAbort :
    .claim ∈ history acceptAndAbort 1 ∧ .handOff true ∉ history acceptAndAbort 1 := by
  obtain ⟨t, hrun, -⟩ := exists_run_acceptAndAbort
  have hclaim : .claim ∈ history acceptAndAbort 1 := by decide
  exact ⟨hclaim, (descriptor_one_outcome emptyCore_recovered hrun 1).2.2 hclaim⟩

end Ramflux.Publication
