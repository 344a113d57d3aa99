import Ramflux.Node.PublicationResources

/-! A replay resource is cleaned up only when nothing that used it was delivered. -/
namespace Ramflux.Publication
open OrdMap List Option Shared Tracked

/-- Effect of an event on the number of scopes that hold a resource. -/
def scopeChange (r : String) : Event → ℕ → ℕ
  | .call (.referenceResource resource _), scopes => if resource = r then scopes + 1 else scopes
  | .call (.markResourceIfNew resource held), scopes =>
    if resource = r ∧ held = false then scopes + 1 else scopes
  | .call (.releaseUnallocated resources), scopes => scopes - resources.count r
  | _, scopes => scopes

def openScopes (events : List Event) (r : String) : ℕ :=
  events.foldl (fun scopes event => scopeChange r event scopes) 0

variable {c : RegistryCall} {resources : List String}

section
variable {r : String} {s s' : Shared}

variable {op : CustodyOp Child}

theorem mem_ownOps {new : List Descriptor} :
    op ∈ ownOps r new ↔ ∃ d ∈ new, r ∈ d.resources ∧ op = .own d.child := by
  unfold ownOps
  simp only [mem_flatMap, mem_replicate, ne_eq, List.count_eq_zero, not_not]

theorem mem_publishOps {key : Key} {published : List (ℕ × List String)} :
    op ∈ publishOps r key published ↔
      ∃ entry ∈ published, r ∈ entry.2 ∧ op = .give ⟨key, entry.1⟩ true := by
  unfold publishOps
  simp only [mem_flatMap, mem_replicate, ne_eq, List.count_eq_zero, not_not]

theorem mem_finishOps {d : Descriptor} {aborted : Bool} {inbox : Inbox}
    (hget : s.registry.inboxes[d.key]? = some inbox) : op ∈ s.finishOps r d aborted ↔
      (aborted = true ∧ r ∈ d.resources ∧ op = .give d.child false) ∨
        ∃ entry ∈ (finishInbox inbox d aborted).2, r ∈ entry.2 ∧
          op = .give ⟨d.key, entry.1⟩ true := by
  unfold finishOps
  rw [hget, mem_append, mem_publishOps]
  cases aborted with
  | true => simp [mem_replicate, List.count_eq_zero]
  | false => simp

theorem give_of_mem_stepOps {id : ℕ} {aborted : Bool} (hop : op ∈ stepOps r s s' (.descriptor id
    (.finish aborted))) : ∃ a delivered, op = .give a delivered := by
  cases hd : s.descriptors[id]? with
  | none =>
    have hnil : stepOps r s s' (.descriptor id (.finish aborted)) = [] := by
      unfold stepOps
      dsimp only
      rw [hd]
    rw [hnil] at hop
    exact absurd hop not_mem_nil
  | some d =>
    rw [stepOps_finish hd, finishOps, mem_append] at hop
    rcases hop with hop | hop
    · split_ifs at hop
      · exact ⟨_, _, eq_of_mem_replicate hop⟩
      · exact absurd hop not_mem_nil
    · cases hget : s.registry.inboxes[d.key]? with
      | none =>
        rw [hget] at hop
        exact absurd hop not_mem_nil
      | some inbox =>
        rw [hget] at hop
        obtain ⟨entry, -, -, rfl⟩ := mem_publishOps.mp hop
        exact ⟨_, _, rfl⟩

theorem mem_callOps : op ∈ callOps r c ↔
      (∃ held, c = .referenceResource r held ∧ op = .refer held) ∨
      (c = .markResourceIfNew r false ∧ op = .hold) ∨
      (∃ resources, c = .completeUnassigned resources ∧ r ∈ resources ∧ op = .attest) ∨
      ∃ resources, c = .releaseUnallocated resources ∧ r ∈ resources ∧ op = .release := by
  unfold callOps
  cases c with
  | referenceResource resource held =>
    by_cases heq : resource = r <;> simp [heq]
  | markResourceIfNew resource held =>
    by_cases heq : resource = r ∧ held = false <;> simp [heq]
  | completeUnassigned resources | releaseUnallocated resources =>
    simp [mem_replicate, List.count_eq_zero]
  | _ => simp

theorem mem_stepOps {event : Event} (hop : op ∈ stepOps r s s' event) :
    (∃ c, event = .call c ∧ op ∈ callOps r c) ∨
      (∃ requests guards a, event = .reserveBatch requests guards ∧ op = .own a) ∨
      ∃ id aborted a delivered, event = .descriptor id (.finish aborted) ∧ op = .give a delivered := by
  cases event with
  | call c => exact .inl ⟨c, rfl, hop⟩
  | reserveBatch requests guards =>
    obtain ⟨d, -, -, rfl⟩ := mem_ownOps.mp hop
    exact .inr (.inl ⟨requests, guards, d.child, rfl, rfl⟩)
  | descriptor id e =>
    cases e with
    | finish aborted =>
      obtain ⟨a, delivered, rfl⟩ := give_of_mem_stepOps hop
      exact .inr (.inr ⟨id, aborted, a, delivered, rfl, rfl⟩)
    | _ => exact absurd hop not_mem_nil
  | _ => exact absurd hop not_mem_nil

theorem holds_step (c : Custody Child) (event : Event) :
    (c.run (stepOps r s s' event)).holds.getD 0 = scopeChange r event (c.holds.getD 0) := by
  cases event with
  | call call =>
    cases call with
    | referenceResource resource held =>
      show (c.run (if resource = r then [.refer held] else [])).holds.getD 0 =
        if resource = r then c.holds.getD 0 + 1 else c.holds.getD 0
      split_ifs
      · exact c.holds_exec (.refer held)
      · rfl
    | markResourceIfNew resource held =>
      show (c.run (if resource = r ∧ held = false then [.hold] else [])).holds.getD 0 =
        if resource = r ∧ held = false then c.holds.getD 0 + 1 else c.holds.getD 0
      split_ifs
      · exact c.holds_exec .hold
      · rfl
    | completeUnassigned resources =>
      apply c.holds_run_of_ne
      intro op hop
      rw [eq_of_mem_replicate hop]
      simp
    | releaseUnallocated resources => exact c.holds_run_replicate_release _
    | _ => rfl
  | reserveBatch requests guards =>
    apply c.holds_run_of_ne
    intro op hop
    obtain ⟨d, -, -, rfl⟩ := mem_ownOps.mp hop
    simp
  | descriptor id event =>
    cases event with
    | finish aborted =>
      apply c.holds_run_of_ne
      intro op hop
      obtain ⟨a, delivered, rfl⟩ := give_of_mem_stepOps hop
      simp
    | _ => rfl
  | _ => rfl

end

variable {events : List Event} {id : ℕ} {s s' : Shared} {start : System} {event : Event} {r : String}

variable {requests : List AssignmentReservation}

theorem Shared.children_of_assignments {child : Child}
    (h : s.assignments[id]? = some (child, resources)) : s.children[id]? = some child := by
  rw [children_eq, getElem?_map, h]
  rfl

/-- The inboxes list exactly the accepted assignments that are not published yet. -/
structure Accepting (events : List Event) (s : Shared) : Prop where
  listed : ∀ (key : Key) (inbox : Inbox) (seq : ℕ) (resources : List String),
    s.registry.inboxes[key]? = some inbox → inbox.accepted[seq]? = some resources →
      inbox.published < seq ∧ ∃ id, s.assignments[id]? = some (⟨key, seq⟩, resources) ∧
        .finish false ∈ history events id
  waiting : ∀ (id : ℕ) (child : Child) (resources : List String) (inbox : Inbox),
    s.assignments[id]? = some (child, resources) → .finish false ∈ history events id →
      s.registry.inboxes[child.key]? = some inbox → inbox.published < child.seq →
        inbox.accepted[child.seq]? = some resources

/-- A step that publishes nothing. -/
structure Calm (s s' : Shared) : Prop where
  kept : ∀ (key : Key) (inbox : Inbox), s.registry.inboxes[key]? = some inbox →
    ∃ inbox', s'.registry.inboxes[key]? = some inbox' ∧ inbox'.accepted = inbox.accepted ∧
      ∀ seq, (⟨key, seq⟩ : Child) ∈ s.children → (inbox'.published < seq ↔ inbox.published < seq)
  new : ∀ (key : Key) (inbox' : Inbox), s.registry.inboxes[key]? = none →
    s'.registry.inboxes[key]? = some inbox' → inbox'.accepted = ∅

theorem Calm.of_eq (h : s'.registry.inboxes = s.registry.inboxes) : Calm s s' where
  kept key inbox hget := ⟨inbox, by rw [h, hget], rfl, fun _ _ => Iff.rfl⟩
  new key inbox' hnone hsome := by
    rw [h, hnone] at hsome
    exact absurd hsome (by simp)

theorem Calm.of_insert {key : Key} {inbox' : Inbox}
    (hinboxes : s'.registry.inboxes = s.registry.inboxes.insert key inbox')
    (hacc : inbox'.accepted = (s.registry.inboxes[key]?.getD .new).accepted)
    (hpublished : ∀ inbox, s.registry.inboxes[key]? = some inbox → ∀ seq,
      (⟨key, seq⟩ : Child) ∈ s.children → (inbox'.published < seq ↔ inbox.published < seq)) :
    Calm s s' where
  kept key' inbox hget := by
    rw [hinboxes, getElem?_insert_eq]
    split_ifs with heq
    · subst heq
      rw [hget] at hacc
      exact ⟨inbox', rfl, hacc, hpublished inbox hget⟩
    · exact ⟨inbox, hget, rfl, fun _ _ => Iff.rfl⟩
  new key' inbox'' hnone hsome := by
    rw [hinboxes, getElem?_insert_eq] at hsome
    split_ifs at hsome with heq
    · subst heq
      cases hsome
      rw [hnone] at hacc
      exact hacc
    · rw [hnone] at hsome
      exact absurd hsome (by simp)

theorem Tracked.calm_exec (h : Tracked start events s) (c : RegistryCall) : Calm s (s.exec c) := by
  rcases s.exec_inboxes c with hsame | ⟨target, incarnation, issued, rfl, hkey, hinboxes⟩ |
    ⟨target, incarnation, hnew, hinboxes⟩ | ⟨key, inbox, settled, hget, hinboxes⟩
  · exact .of_eq hsame
  · apply Calm.of_insert hinboxes
    · unfold Inbox.registered
      dsimp only
      split_ifs <;> rfl
    · intro inbox hget seq hchild
      obtain ⟨inbox', hget', hle, -⟩ := h.known _ hchild
      cases hget.symm.trans hget'
      rw [hget, getD_some, (inbox.registered_fields issued).2.2.2.2.2]
      split_ifs with hempty
      · have hall := (h.sound _ inbox hget).all hempty
        have hle : seq ≤ inbox.allocated := hle
        omega
      · exact Iff.rfl
  · apply Calm.of_insert hinboxes
    · have habsent : s.registry.inboxes[(⟨target, incarnation⟩ : Key)]? = none := by
        by_contra hsome
        obtain ⟨inbox, hinbox⟩ := ne_none_iff_exists'.mp hsome
        exact hnew _ (mem_of_eq_some hinbox) rfl
      rw [habsent]
      rfl
    · intro inbox hget
      exact absurd rfl (hnew _ (mem_of_eq_some hget))
  · apply Calm.of_insert hinboxes
    · rw [hget]
      rfl
    · intro inbox' hget' seq _
      cases hget.symm.trans hget'
      exact Iff.rfl

theorem Calm.of_reserved {new : List Descriptor} (h : Reserved requests s s' new) : Calm s s' where
  kept key inbox hget := by
    obtain ⟨inbox', hget', hresv⟩ := h.present key inbox hget
    refine ⟨inbox', hget', ?_, fun seq _ => ?_⟩
    · rw [hresv.unchanged]
    · rw [hresv.unchanged]
  new key inbox' hnone hsome := by
    rw [h.absent key hnone] at hsome
    exact absurd hsome (by simp)

theorem Tracked.calm_or_finish {s s' : System}
    (h : Tracked start events s.shared) (hstep : Step s event s') :
    (Calm s.shared s'.shared ∧ (∃ new, s'.shared.assignments = s.shared.assignments ++ new) ∧
      ∀ id b, .finish b ∈ history (events ++ [event]) id ↔ .finish b ∈ history events id) ∨
    ∃ id d aborted, event = .descriptor id (.finish aborted) ∧
      s.shared.descriptors[id]? = some d ∧ s'.shared = s.shared.finish d aborted := by
  cases hstep.effect with
  | quiet hevent hinboxes hassigned =>
    refine .inl ⟨.of_eq hinboxes, ⟨[], by rw [hassigned, append_nil]⟩, ?_⟩
    intro id b
    rw [history_append_singleton, mem_append, or_iff_left (hevent.not_finish id b)]
  | call c heq =>
    rw [heq]
    refine .inl ⟨h.calm_exec c, ⟨[], ?_⟩, fun id b => mem_history_call c id _⟩
    unfold assignments
    rw [(s.shared.exec_frame c).1, append_nil]
  | @reserve requests guards new hadmits hres =>
    refine .inl ⟨.of_reserved hres, ⟨new.map fun d => (d.child, d.resources), ?_⟩,
      fun _ _ => mem_history_reserve⟩
    unfold assignments
    rw [hres.descriptors, map_append]
  | finish hd heq => exact .inr ⟨_, _, _, rfl, hd, heq⟩

theorem Accepting.calm (h : Accepting events s)
    (hcalm : Calm s s') (hassigned : ∃ new, s'.assignments = s.assignments ++ new)
    (hhist : ∀ id, .finish false ∈ history (events ++ [event]) id ↔ .finish false ∈ history events id)
    (hfresh : ∀ id, s.assignments.length ≤ id → .finish false ∉ history events id)
    (hknown : ∀ child ∈ s.children, child.key ∈ s.registry.inboxes) :
    Accepting (events ++ [event]) s' := by
  obtain ⟨new, hassigned⟩ := hassigned
  have hold : ∀ (id : ℕ) (a : Child × List String), s.assignments[id]? = some a →
      s'.assignments[id]? = some a := by
    intro id a hid
    rw [hassigned, List.getElem?_append_left (List.getElem?_eq_some_iff.mp hid).1, hid]
  constructor
  · intro key inbox' seq resources hget' hacc
    cases hget : s.registry.inboxes[key]? with
    | none =>
      rw [hcalm.new key inbox' hget hget'] at hacc
      exact absurd hacc (by simp)
    | some inbox =>
      obtain ⟨inbox'', hget'', hsame, hpub⟩ := hcalm.kept key inbox hget
      cases hget'.symm.trans hget''
      rw [hsame] at hacc
      obtain ⟨hlt, id, hid, hfin⟩ := h.listed key inbox seq resources hget hacc
      have hchild := mem_of_getElem? (children_of_assignments hid)
      exact ⟨(hpub seq hchild).mpr hlt, id, hold id _ hid, (hhist id).mpr hfin⟩
  · intro id child resources inbox' hid hfin hget' hlt
    rw [hhist] at hfin
    have hlen : id < s.assignments.length := by
      by_contra hge
      exact hfresh id (by omega) hfin
    rw [hassigned, getElem?_append_left hlen] at hid
    have hchild := mem_of_getElem? (children_of_assignments hid)
    obtain ⟨inbox, hget⟩ := mem_iff_exists.mp (hknown child hchild)
    obtain ⟨inbox'', hget'', hsame, hpub⟩ := hcalm.kept child.key inbox hget
    cases hget'.symm.trans hget''
    rw [hsame]
    exact h.waiting id child resources inbox hid hfin hget ((hpub child.seq hchild).mp hlt)

section
variable (inbox : Inbox) (d : Descriptor) (aborted : Bool)

def acceptedWith (seq : ℕ) : Option (List String) :=
  if aborted = false ∧ d.seq = seq then some d.resources else inbox.accepted[seq]?

section
variable (seq : ℕ)

theorem getElem?_acceptedWith :
    (if aborted then inbox.accepted else inbox.accepted.insert d.seq d.resources)[seq]? =
      acceptedWith inbox d aborted seq := by
  unfold acceptedWith
  cases aborted with
  | true => simp
  | false =>
    rw [if_neg (by decide), getElem?_insert_eq]
    simp

theorem getElem?_accepted_finishInbox :
    (finishInbox inbox d aborted).1.accepted[seq]? = (acceptedWith inbox d aborted seq).filter
        fun _ => (finishInbox inbox d aborted).1.published < seq := by
  rw [← getElem?_acceptedWith]
  exact getElem?_filter_eq _ _ _

theorem mem_published_finishInbox (resources : List String) :
    (seq, resources) ∈ (finishInbox inbox d aborted).2 ↔
      acceptedWith inbox d aborted seq = some resources ∧
        seq ≤ (finishInbox inbox d aborted).1.published := by
  rw [← getElem?_acceptedWith, ← mem_toList_iff]
  show (seq, resources) ∈ List.filter _ _ ↔ _
  rw [mem_filter]
  simp only [decide_eq_true_eq]
  exact Iff.rfl

end

end

theorem Shared.assignments_finish (s : Shared) (d : Descriptor) (aborted : Bool) :
    (s.finish d aborted).assignments = s.assignments := by
  unfold assignments
  rw [(s.finish_frame d aborted).1]

theorem Shared.assignments_of_descriptor {d : Descriptor}
    (hd : s.descriptors[id]? = some d) : s.assignments[id]? = some (d.child, d.resources) := by
  unfold assignments
  rw [getElem?_map, hd]
  rfl

section
variable {start : System} {events : List Event} {s : Shared} {id : ℕ} {d : Descriptor} {aborted : Bool}
  (htracked : Tracked start events s) (hd : s.descriptors[id]? = some d) (hfence : s.fenced = false)
  (hnew : ¬ Finished events id)
include htracked hd hfence hnew

theorem Accepting.finish (h : Accepting events s) :
    Accepting (events ++ [.descriptor id (.finish aborted)]) (s.finish d aborted) := by
  obtain ⟨inbox, hget, -, -, hle, hinboxes⟩ := htracked.finish_inbox aborted hd hfence hnew
  constructor
  · intro key inbox' seq resources hinbox' hacc
    rw [s.assignments_finish]
    rw [hinboxes, getElem?_insert_eq] at hinbox'
    split_ifs at hinbox' with heq
    · cases hinbox'
      rw [getElem?_accepted_finishInbox, filter_eq_some_iff] at hacc
      obtain ⟨hwith, hlt⟩ := hacc
      refine ⟨by simpa using hlt, ?_⟩
      unfold acceptedWith at hwith
      split_ifs at hwith with hself
      · obtain ⟨rfl, rfl⟩ := hself
        cases hwith
        refine ⟨id, ?_, mem_history_finish.mpr (.inr ⟨rfl, rfl⟩)⟩
        rw [assignments_of_descriptor hd, ← heq]
        rfl
      · rw [← heq]
        obtain ⟨-, id', hid', hfin⟩ := h.listed d.key inbox seq resources hget hwith
        exact ⟨id', hid', mem_history_finish.mpr (.inl hfin)⟩
    · obtain ⟨hlt, id', hid', hfin⟩ := h.listed key inbox' seq resources hinbox' hacc
      exact ⟨hlt, id', hid', mem_history_finish.mpr (.inl hfin)⟩
  · intro id' child resources inbox' hid' hfin hinbox' hlt
    rw [s.assignments_finish] at hid'
    rw [hinboxes, getElem?_insert_eq] at hinbox'
    rw [mem_history_finish] at hfin
    split_ifs at hinbox' with heq
    · cases hinbox'
      rw [getElem?_accepted_finishInbox, filter_eq_some_iff]
      refine ⟨?_, by simpa using hlt⟩
      unfold acceptedWith
      rcases hfin with hfin | ⟨rfl, rfl⟩
      · have hne : id ≠ id' := by
          rintro rfl
          exact hnew (.inr hfin)
        have hseq := seq_ne hd htracked (children_of_assignments hid') hne heq.symm
        rw [if_neg fun hself => hseq hself.2.symm]
        apply h.waiting id' child resources inbox hid' hfin
        · rw [← heq]
          exact hget
        · exact hle.trans_lt hlt
      · cases (assignments_of_descriptor hd).symm.trans hid'
        exact if_pos ⟨rfl, rfl⟩
    · rcases hfin with hfin | ⟨rfl, rfl⟩
      · exact h.waiting id' child resources inbox' hid' hfin hinbox' hlt
      · cases (assignments_of_descriptor hd).symm.trans hid'
        exact absurd rfl heq

end

/-- The assignment is not finished, or it was accepted and is not published yet. -/
def Unresolved (events : List Event) (s : Shared) (id : ℕ) (child : Child) : Prop :=
  ¬ Finished events id ∨ .finish false ∈ history events id ∧
    ∃ inbox, s.registry.inboxes[child.key]? = some inbox ∧ inbox.published < child.seq

def Published (events : List Event) (s : Shared) (id : ℕ) (child : Child) : Prop :=
  .finish false ∈ history events id ∧
    ∃ inbox, s.registry.inboxes[child.key]? = some inbox ∧ child.seq ≤ inbox.published

/-- A resource is owned by its unresolved assignments. -/
def OwnersTrack (events : List Event) (s : Shared) (r : String) : Prop :=
  ∀ child, (s.custody r).Owns child ↔ ∃ id resources,
    s.assignments[id]? = some (child, resources) ∧ r ∈ resources ∧ Unresolved events s id child

section
variable {events : List Event} {event : Event} {s s' : Shared} {r : String}

theorem unresolved_iff {id : ℕ} {child : Child} (hknown : child.key ∈ s.registry.inboxes) :
    Unresolved events s id child ↔
      ¬ Finished events id ∨ .finish false ∈ history events id ∧ ¬ Published events s id child := by
  obtain ⟨inbox, hget⟩ := mem_iff_exists.mp hknown
  unfold Unresolved Published
  simp only [hget, Option.some.injEq, exists_eq_left']
  apply or_congr_right
  apply and_congr_right
  intro hfinish
  rw [not_and, forall_prop_of_true hfinish, not_le]

variable (hcalm : Calm s s')
  (hhist : ∀ id b, .finish b ∈ history (events ++ [event]) id ↔ .finish b ∈ history events id)
  (hknown : ∀ child ∈ s.children, child.key ∈ s.registry.inboxes)
include hcalm hhist hknown

theorem published_calm {id : ℕ} {child : Child} (hchild : child ∈ s.children) :
    Published (events ++ [event]) s' id child ↔ Published events s id child := by
  obtain ⟨inbox, hget⟩ := mem_iff_exists.mp (hknown child hchild)
  obtain ⟨inbox', hget', -, hpub⟩ := hcalm.kept child.key inbox hget
  unfold Published
  rw [hhist, hget, hget']
  simp only [Option.some.injEq, exists_eq_left']
  rw [← not_lt, ← not_lt, hpub child.seq hchild]

theorem unresolved_calm {id : ℕ} {child : Child} (hchild : child ∈ s.children) :
    Unresolved (events ++ [event]) s' id child ↔ Unresolved events s id child := by
  obtain ⟨inbox, hget⟩ := mem_iff_exists.mp (hknown child hchild)
  obtain ⟨inbox', hget', -⟩ := hcalm.kept child.key inbox hget
  rw [unresolved_iff (mem_of_eq_some hget'), unresolved_iff (mem_of_eq_some hget),
    published_calm hcalm hhist hknown hchild, Finished, Finished, hhist, hhist]

theorem OwnersTrack.calm (h : OwnersTrack events s r) (new : List Descriptor)
    (hassigned : s'.assignments = s.assignments ++ new.map fun d => (d.child, d.resources))
    (howns : ∀ child, (s'.custody r).Owns child ↔
      (∃ d ∈ new, r ∈ d.resources ∧ child = d.child) ∨ (s.custody r).Owns child)
    (hfresh : ∀ id, s.assignments.length ≤ id → ¬ Finished events id) :
    OwnersTrack (events ++ [event]) s' r := by
  intro child
  have hunfinished : ∀ id, s.assignments.length ≤ id → ¬ Finished (events ++ [event]) id := by
    intro id hid
    unfold Finished
    rw [hhist, hhist]
    exact hfresh id hid
  rw [howns, h child, hassigned]
  constructor
  · rintro (⟨d, hd, hr, rfl⟩ | ⟨id, resources, hid, hr, hun⟩)
    · obtain ⟨i, hi⟩ := getElem?_of_mem hd
      refine ⟨s.assignments.length + i, d.resources, ?_, hr, .inl (hunfinished _ (by omega))⟩
      rw [getElem?_append_right (Nat.le_add_right _ _), Nat.add_sub_cancel_left, getElem?_map, hi]
      rfl
    · have hchild := mem_of_getElem? (children_of_assignments hid)
      refine ⟨id, resources, ?_, hr, (unresolved_calm hcalm hhist hknown hchild).mpr hun⟩
      rw [List.getElem?_append_left (List.getElem?_eq_some_iff.mp hid).1, hid]
  · rintro ⟨id, resources, hid, hr, hun⟩
    rcases lt_or_ge id s.assignments.length with hlt | hge
    · rw [getElem?_append_left hlt] at hid
      have hchild := mem_of_getElem? (children_of_assignments hid)
      exact .inr ⟨id, resources, hid, hr, (unresolved_calm hcalm hhist hknown hchild).mp hun⟩
    · rw [getElem?_append_right hge, getElem?_map] at hid
      obtain ⟨d, hd, heq⟩ := map_eq_some_iff.mp hid
      cases heq
      exact .inl ⟨d, mem_of_getElem? hd, hr, rfl⟩

end

section
variable {start : System} {events : List Event} {s : Shared} {id : ℕ} {d : Descriptor} {aborted : Bool}
  {child : Child} {r : String}
  (htracked : Tracked start events s) (hd : s.descriptors[id]? = some d) (hfence : s.fenced = false)
  (hnew : ¬ Finished events id)
include htracked hd hfence hnew

/-- Owners leave with a delivery exactly when their assignments become published. -/
theorem give_true_mem_finishOps (h : Accepting events s) : .give child true ∈ s.finishOps r d aborted ↔
    ∃ id' resources, s.assignments[id']? = some (child, resources) ∧ r ∈ resources ∧
      ¬ Published events s id' child ∧
      Published (events ++ [.descriptor id (.finish aborted)]) (s.finish d aborted) id' child := by
  obtain ⟨inbox, hget, -, -, hle, hinboxes⟩ := htracked.finish_inbox aborted hd hfence hnew
  have hself := assignments_of_descriptor hd
  rw [mem_finishOps hget]
  constructor
  · rintro (⟨-, -, hfalse⟩ | ⟨⟨seq, resources⟩, hentry, hr, hchild⟩)
    · cases hfalse
    · obtain ⟨rfl, -⟩ := CustodyOp.give.inj hchild
      obtain ⟨hwith, hreach⟩ := (mem_published_finishInbox inbox d aborted seq resources).mp hentry
      have hvisible : ∃ inbox', (s.finish d aborted).registry.inboxes[d.key]? = some inbox' ∧
          seq ≤ inbox'.published := by
        rw [hinboxes]
        exact ⟨_, Std.ExtTreeMap.getElem?_insert_self, hreach⟩
      unfold acceptedWith at hwith
      split_ifs at hwith with hd'
      · obtain ⟨rfl, rfl⟩ := hd'
        cases hwith
        exact ⟨id, d.resources, hself, hr, fun h => hnew (.inr h.1),
          mem_history_finish.mpr (.inr ⟨rfl, rfl⟩), hvisible⟩
      · obtain ⟨hlt, id', hid', hfin⟩ := h.listed d.key inbox seq resources hget hwith
        refine ⟨id', resources, hid', hr, ?_, mem_history_finish.mpr (.inl hfin), hvisible⟩
        rintro ⟨-, inbox', hinbox', hseq⟩
        cases hget.symm.trans hinbox'
        exact absurd hlt (not_lt.mpr hseq)
  · rintro ⟨id', resources, hid', hr, hnot, hfin, inbox', hinbox', hseq⟩
    rw [hinboxes, getElem?_insert_eq] at hinbox'
    right
    rcases mem_history_finish.mp hfin with hfin | ⟨rfl, rfl⟩
    · have hne : id ≠ id' := by
        rintro rfl
        exact hnew (.inr hfin)
      split_ifs at hinbox' with hkey
      · cases hinbox'
        have hseq' := seq_ne hd htracked (children_of_assignments hid') hne hkey.symm
        refine ⟨(child.seq, resources), ?_, hr, by rw [hkey]⟩
        rw [mem_published_finishInbox, acceptedWith, if_neg fun hself => hseq' hself.2.symm]
        refine ⟨h.waiting id' child resources inbox hid' hfin (hkey ▸ hget) ?_, hseq⟩
        by_contra hge
        exact hnot ⟨hfin, inbox, hkey ▸ hget, by omega⟩
      · exact absurd ⟨hfin, inbox', hinbox', hseq⟩ hnot
    · cases hself.symm.trans hid'
      rw [if_pos (show d.key = d.child.key from rfl)] at hinbox'
      cases hinbox'
      exact ⟨(d.seq, d.resources), (mem_published_finishInbox _ _ _ _ _).mpr
        ⟨if_pos ⟨rfl, rfl⟩, hseq⟩, hr, rfl⟩

/-- Owners leave without a delivery only when their assignments are aborted. -/
theorem give_false_mem_finishOps {id' : ℕ}
    (hid : s.assignments[id']? = some (child, resources)) (hr : r ∈ resources) :
    .give child false ∈ s.finishOps r d aborted ↔ id = id' ∧ aborted = true := by
  obtain ⟨inbox, hget, -⟩ := htracked.finish_inbox aborted hd hfence hnew
  rw [mem_finishOps hget]
  constructor
  · rintro (⟨hab, -, heq⟩ | ⟨entry, -, -, heq⟩)
    · obtain ⟨rfl, -⟩ := CustodyOp.give.inj heq
      exact ⟨htracked.index_unique (children_of_descriptor hd) (children_of_assignments hid), hab⟩
    · cases heq
  · rintro ⟨rfl, hab⟩
    cases (assignments_of_descriptor hd).symm.trans hid
    exact .inl ⟨hab, hr, rfl⟩

theorem OwnersTrack.finish (h : OwnersTrack events s r) (haccepting : Accepting events s) :
    OwnersTrack (events ++ [.descriptor id (.finish aborted)]) (s.finish d aborted) r := by
  obtain ⟨inbox, hget, -, -, hle, hinboxes⟩ := htracked.finish_inbox aborted hd hfence hnew
  have hgive : ∀ op ∈ s.finishOps r d aborted, ∃ a delivered, op = .give a delivered := by
    intro op hop
    rcases (mem_finishOps hget).mp hop with ⟨-, -, rfl⟩ | ⟨entry, -, -, rfl⟩ <;> exact ⟨_, _, rfl⟩
  intro child
  rw [s.custody_finish r d aborted hfence, Custody.owns_run_give hgive, h child, s.assignments_finish]
  simp only [← exists_and_right, and_assoc]
  refine exists_congr fun id' => exists_congr fun resources => and_congr_right fun hid =>
    and_congr_right fun hr => ?_
  have hchild := children_of_assignments hid
  obtain ⟨inbox₀, hget₀, -⟩ := htracked.known child (mem_of_getElem? hchild)
  have hknown' : child.key ∈ (s.finish d aborted).registry.inboxes := by
    rw [hinboxes]
    exact mem_insert_iff.mpr (.inr (mem_of_eq_some hget₀))
  have hmono : Published events s id' child →
      Published (events ++ [.descriptor id (.finish aborted)]) (s.finish d aborted) id' child := by
    rintro ⟨hfin, inbox', hget', hseq⟩
    refine ⟨mem_history_finish.mpr (.inl hfin), ?_⟩
    rw [hinboxes, getElem?_insert_eq]
    split_ifs with hkey
    · rw [← hkey, hget] at hget'
      cases hget'
      exact ⟨_, rfl, hseq.trans hle⟩
    · exact ⟨inbox', hget', hseq⟩
  have hpublished : .give child true ∈ s.finishOps r d aborted ↔ ¬ Published events s id' child ∧
      Published (events ++ [.descriptor id (.finish aborted)]) (s.finish d aborted) id' child := by
    rw [give_true_mem_finishOps htracked hd hfence hnew haccepting]
    constructor
    · rintro ⟨id'', resources', hid', -, hpub⟩
      rwa [htracked.index_unique hchild (children_of_assignments hid')]
    · exact fun hpub => ⟨id', resources, hid, hr, hpub⟩
  rw [Bool.forall_bool, give_false_mem_finishOps htracked hd hfence hnew hid hr, hpublished,
    unresolved_iff (mem_of_eq_some hget₀), unresolved_iff hknown', finished_finish,
    mem_history_finish]
  have hfin : Published events s id' child → Finished events id' := fun hpub => .inr hpub.1
  have hfin' : Published (events ++ [.descriptor id (.finish aborted)]) (s.finish d aborted) id' child →
      .finish false ∈ history events id' ∨ id = id' ∧ false = aborted :=
    fun hpub => mem_history_finish.mp hpub.1
  have hor : .finish false ∈ history events id' → Finished events id' := .inr
  by_cases heq : id = id'
  · cases aborted <;> simp_all
  · simp only [heq, false_and, or_false, not_false_eq_true, true_and] at hfin' ⊢
    by_cases hdone : Finished events id'
    · by_cases hpub : Published events s id' child
      · simp [hdone, hpub, hmono hpub]
      · simp [hdone, hpub]
    · have hnot := mt hor hdone
      simp [hdone, mt hfin' hnot]

end

/-- Custody of a resource agrees with the scopes and the assignments that use it. -/
structure Guarded (start : System) (events : List Event) (s : Shared) (r : String) : Prop where
  tracked : Tracked start events s
  accepting : Accepting events s
  ok : (s.custody r).Ok
  scopes : (s.custody r).holds.getD 0 = openScopes events r
  owners : OwnersTrack events s r

theorem stepOps_of_quiet (h : event.Quiet) : stepOps r s s' event = [] := by
  cases event with
  | descriptor id e =>
    cases e with
    | finish aborted => exact h.elim
    | _ => rfl
  | call c | reserveBatch requests guards => exact h.elim
  | _ => rfl

theorem own_notMem_callOps :
    (∀ a, .own a ∉ callOps r c) ∧ ∀ a delivered, .give a delivered ∉ callOps r c := by
  simp [mem_callOps]

theorem Guarded.init (h : start.Recovered) (r : String) : Guarded start [] start.shared r := by
  obtain ⟨hres, hseen, hpub⟩ := h.resources
  have hcust : start.shared.custody r = ⟨none, none, false, start.shared.replayCleanups.count r⟩ := by
    ext1 <;> simp [custody, hres, hseen, hpub]
  refine ⟨.init h, ⟨?_, ?_⟩, ?_, ?_, ?_⟩
  · intro key inbox seq resources hget hacc
    rw [(h.inboxes key inbox hget).2.1] at hacc
    simp at hacc
  · intro id child resources inbox hid
    simp [assignments, h.descriptors] at hid
  · rw [hcust]
    constructor <;> simp
  · rw [hcust]
    rfl
  · intro child
    rw [hcust]
    simp [Custody.Owns, assignments, h.descriptors]

theorem Guarded.step {s s' : System} (hstart : start.Recovered) (hrun : Run Step start events s)
    (hstep : Step s event s') (hfence : s'.shared.fenced = false)
    (h : Guarded start events s.shared r) : Guarded start (events ++ [event]) s'.shared r := by
  have hbefore := hstep.not_fenced hfence
  have hcust := hstep.custody hbefore r
  have hknown := h.tracked.key_mem
  have hfresh : ∀ id, s.shared.assignments.length ≤ id → ¬ Finished events id := by
    intro id hid
    apply not_finished_of_length_le hstart hrun
    rwa [assignments, length_map] at hid
  refine ⟨tracked_of_run hstart (hrun.snoc hstep) hfence, ?_, ?_, ?_, ?_⟩
  · rcases h.tracked.calm_or_finish hstep with ⟨hcalm, hassigned, hhist⟩ | ⟨id, d, aborted, rfl, hd, heq⟩
    · exact h.accepting.calm hcalm hassigned (fun id => hhist id false)
        (fun id hid hfin => hfresh id hid (.inr hfin)) hknown
    · rw [heq]
      exact h.accepting.finish h.tracked hd hbefore (not_finished_of_finish hstart (hrun.snoc hstep))
  · rw [hcust]
    exact h.ok.run _
  · rw [hcust, holds_step, h.scopes, openScopes, openScopes, foldl_append]
    rfl
  · cases hstep.effect with
    | quiet hevent hinboxes hassigned =>
      rw [stepOps_of_quiet hevent] at hcust
      refine h.owners.calm (.of_eq hinboxes) ?_ hknown [] (by simpa using hassigned) ?_ hfresh
      · intro id b
        rw [history_append_singleton, mem_append, or_iff_left (hevent.not_finish id b)]
      · rw [hcust]
        simp [Custody.run]
    | call c heq =>
      have howners : (s'.shared.custody r).owners = (s.shared.custody r).owners := by
        rw [hcust]
        exact Custody.owners_run own_notMem_callOps.1 own_notMem_callOps.2
      rw [heq] at howners ⊢
      refine h.owners.calm (h.tracked.calm_exec c) (fun id b => mem_history_call c id _)
        hknown [] ?_ ?_ hfresh
      · unfold assignments
        rw [(s.shared.exec_frame c).1, map_nil, append_nil]
      · simp [Custody.Owns, howners]
    | @reserve requests guards new hadmits hres =>
      have hown : ∀ op ∈ ownOps r new, ∃ a, op = .own a := by
        intro op hop
        obtain ⟨d, -, -, rfl⟩ := mem_ownOps.mp hop
        exact ⟨_, rfl⟩
      refine h.owners.calm (.of_reserved hres) (fun _ _ => mem_history_reserve) hknown new ?_ ?_ hfresh
      · unfold assignments
        rw [hres.descriptors, map_append]
      · intro child
        rw [hcust]
        unfold stepOps
        rw [hres.descriptors, drop_left, Custody.owns_run_own hown, mem_ownOps]
        simp only [CustodyOp.own.injEq]
    | finish hd heq =>
      rw [heq]
      exact h.owners.finish h.tracked hd hbefore (not_finished_of_finish hstart (hrun.snoc hstep))
        h.accepting

theorem guarded_of_run {t : System} (hstart : start.Recovered) (hrun : Run Step start events t)
    (hfence : t.shared.fenced = false) (r : String) : Guarded start events t.shared r := by
  apply hrun.invariant (P := fun events t => t.shared.fenced = false → Guarded start events t.shared r)
    _ _ hfence
  · intro _
    exact .init hstart r
  · intro events t event u hrun ih hstep hfence
    exact (ih (hstep.not_fenced hfence)).step hstart hrun hstep hfence

end Ramflux.Publication
