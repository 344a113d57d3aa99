import Ramflux.Node.PublicationReplay

/-! When the replay cleanup of a resource is invoked. A resource, and what is known of its delivery, is
tracked while a scope holds it or one of its assignments is unresolved. -/
namespace Ramflux.Publication
open List Std.ExtTreeMap Option

def Publishes (r : String) (events : List Event) (s : Shared) (event : Event) (s' : Shared)
    (child : Child) : Prop :=
  ∃ id resources, s'.assignments[id]? = some (child, resources) ∧ r ∈ resources ∧
    ¬ Published events s id child ∧ Published (events ++ [event]) s' id child

/-- A step that shows a resource to be delivered: an assignment with it is published, its scope completes
without any, or it is found held when tracking begins. -/
def Delivers (r : String) (events : List Event) (s : Shared) (event : Event) (s' : Shared) : Prop :=
  (∃ child, Publishes r events s event s' child) ∨
  (∃ resources, event = .call (.completeUnassigned resources) ∧ r ∈ resources) ∨
  (event = .call (.referenceResource r true) ∧ r ∉ s.registry.resourcesSeen)

/-- Since the resource was last untracked some step of the run delivered it. -/
inductive Delivered (r : String) (start : System) : List Event → System → Prop
  | now {events : List Event} {s s' : System} {event : Event} (hrun : Run Step start events s)
      (hstep : Step s event s') (h : Delivers r events s.shared event s'.shared)
      (htracked : r ∈ s'.shared.registry.resourcesSeen) : Delivered r start (events ++ [event]) s'
  | later {events : List Event} {s s' : System} {event : Event} (h : Delivered r start events s)
      (hstep : Step s event s') (htracked : r ∈ s'.shared.registry.resourcesSeen) :
      Delivered r start (events ++ [event]) s'

variable {r : String} {s start : System} {events : List Event}

theorem Delivered.run (h : Delivered r start events s) : Run Step start events s := by
  induction h with
  | now hrun hstep => exact hrun.snoc hstep
  | later _ hstep _ ih => exact ih.snoc hstep

/-- A step either only takes custody away or only gives it. -/
theorem departs_or_not (r : String) (s s' : Shared) (event : Event) :
    (∀ op ∈ stepOps r s s' event, Custody.Departs op) ∨
      ∀ op ∈ stepOps r s s' event, ¬ Custody.Departs op := by
  by_cases hcall : (∃ resources, event = .call (.completeUnassigned resources)) ∨
      (∃ resources, event = .call (.releaseUnallocated resources)) ∨
      ∃ id aborted, event = .descriptor id (.finish aborted)
  · left
    intro op hop
    rcases mem_stepOps hop with ⟨c, rfl, hop⟩ | ⟨requests, guards, a, rfl, -⟩ | ⟨id, aborted, a, delivered, -, rfl⟩
    · rcases mem_callOps.mp hop with ⟨held, rfl, -⟩ | ⟨rfl, -⟩ | ⟨resources, -, -, rfl⟩ | ⟨resources, -, -, rfl⟩
      · simp at hcall
      · simp at hcall
      · trivial
      · trivial
    · simp at hcall
    · trivial
  · right
    intro op hop
    rw [not_or, not_or] at hcall
    obtain ⟨hcomplete, hrelease, hfinish⟩ := hcall
    rcases mem_stepOps hop with ⟨c, rfl, hop⟩ | ⟨requests, guards, a, -, rfl⟩ | ⟨id, aborted, a, delivered, rfl, -⟩
    · rcases mem_callOps.mp hop with ⟨held, -, rfl⟩ | ⟨-, rfl⟩ | ⟨resources, rfl, -⟩ | ⟨resources, rfl, -⟩
      · exact fun h => h
      · exact fun h => h
      · exact absurd ⟨resources, rfl⟩ hcomplete
      · exact absurd ⟨resources, rfl⟩ hrelease
    · exact fun h => h
    · exact absurd ⟨id, aborted, rfl⟩ hfinish

theorem stepOps_refer (r : String) (s s' : Shared) (held : Bool) :
    stepOps r s s' (.call (.referenceResource r held)) = [.refer held] :=
  if_pos rfl

variable {aborted : Bool} {resources : List String}

section
variable {r : String} {start s s' : System} {events : List Event} {event : Event}

variable {id : ℕ} {child : Child}

theorem aborts_of_give {id' : ℕ} (hstart : start.Recovered)
    (hrun : Run Step start events s) (hstep : Step s (.descriptor id' (.finish aborted)) s')
    (hfence : s'.shared.fenced = false)
    (hgive : .give child false ∈ stepOps r s.shared s'.shared (.descriptor id' (.finish aborted)))
    (hid : s.shared.assignments[id]? = some (child, resources)) (hr : r ∈ resources) : id' = id ∧ aborted = true := by
  have hbefore := hstep.not_fenced hfence
  have hnew := not_finished_of_finish hstart (hrun.snoc hstep)
  cases hstep.effect with
  | quiet hevent => exact hevent.elim
  | finish hd heq =>
    rw [stepOps_finish hd] at hgive
    exact (give_false_mem_finishOps (tracked_of_run hstart hrun hbefore) hd hbefore hnew hid hr).mp hgive

theorem Publishes.owns (hstart : start.Recovered) (hrun : Run Step start events s)
    (hstep : Step s (.descriptor id (.finish aborted)) s') (hfence : s'.shared.fenced = false)
    (h : Publishes r events s.shared (.descriptor id (.finish aborted)) s'.shared child) :
    (s.shared.custody r).Owns child ∧
      .give child false ∉ stepOps r s.shared s'.shared (.descriptor id (.finish aborted)) := by
  have hbefore := hstep.not_fenced hfence
  have hguard := guarded_of_run hstart hrun hbefore r
  have hnew := not_finished_of_finish hstart (hrun.snoc hstep)
  obtain ⟨id', resources, hid', hr, hnot, hpub⟩ := h
  cases hstep.effect with
  | quiet hevent => exact hevent.elim
  | @finish _ d _ hd heq =>
    rw [heq, s.shared.assignments_finish] at hid'
    have hchild := Shared.children_of_assignments hid'
    obtain ⟨inbox, hget, -⟩ := hguard.tracked.known child (mem_of_getElem? hchild)
    constructor
    · refine (hguard.owners child).mpr ⟨id', resources, hid', hr, ?_⟩
      rcases Tracked.mem_history_finish.mp hpub.1 with hfin | ⟨rfl, -⟩
      · refine .inr ⟨hfin, inbox, hget, ?_⟩
        by_contra hge
        exact hnot ⟨hfin, inbox, hget, not_lt.mp hge⟩
      · exact .inl hnew
    · intro hgive
      obtain ⟨rfl, rfl⟩ := aborts_of_give hstart hrun hstep hfence hgive hid' hr
      rcases Tracked.mem_history_finish.mp hpub.1 with hfin | ⟨-, hab⟩
      · exact hnew (.inr hfin)
      · exact absurd hab (by decide)

variable (hstart : start.Recovered) (hrun : Run Step start events s) (hstep : Step s event s')
  (hfence : s'.shared.fenced = false)
include hstart hrun hstep hfence

/-- Owners leave with a delivery exactly when they are published. -/
theorem publishes_iff : Publishes r events s.shared event s'.shared child ↔
      .give child true ∈ stepOps r s.shared s'.shared event := by
  have hbefore := hstep.not_fenced hfence
  have hguard := guarded_of_run hstart hrun hbefore r
  have hlast := hrun.snoc hstep
  rcases hguard.tracked.calm_or_finish hstep with
    ⟨hcalm, ⟨new, hassigned⟩, hhist⟩ | ⟨id, d, aborted, rfl, hd, heq⟩
  · constructor
    · rintro ⟨id, resources, hid, -, hnot, hpub⟩
      have hlen : id < s.shared.assignments.length := by
        by_contra hge
        rw [Shared.assignments, length_map] at hge
        exact not_finished_of_length_le hstart hrun (by omega) (.inr ((hhist id false).mp hpub.1))
      rw [hassigned, getElem?_append_left hlen] at hid
      have hchild := mem_of_getElem? (Shared.children_of_assignments hid)
      have hknown := hguard.tracked.key_mem
      exact absurd ((published_calm hcalm hhist hknown hchild).mp hpub) hnot
    · intro hgive
      cases hstep.effect with
      | quiet hevent =>
        rw [stepOps_of_quiet hevent] at hgive
        exact absurd hgive not_mem_nil
      | call c => exact absurd hgive (own_notMem_callOps.2 child true)
      | reserve =>
        obtain ⟨d, -, -, hown⟩ := mem_ownOps.mp hgive
        exact absurd hown (by simp)
      | @finish id d aborted =>
        have hfin : .finish aborted ∈ history (events ++ [.descriptor id (.finish aborted)]) id :=
          Tracked.mem_history_finish.mpr (.inr ⟨rfl, rfl⟩)
        have hfin : Finished events id := by
          have := (hhist id aborted).mp hfin
          cases aborted with
          | true => exact .inl this
          | false => exact .inr this
        exact absurd hfin (not_finished_of_finish hstart hlast)
  · unfold Publishes
    rw [stepOps_finish hd, heq, s.shared.assignments_finish]
    exact (give_true_mem_finishOps hguard.tracked hd hbefore (not_finished_of_finish hstart hlast)
      hguard.accepting).symm

theorem delivers_of_shows {op : CustodyOp Child} (hop : op ∈ stepOps r s.shared s'.shared event)
    (hshows : Custody.Shows op) (hdeparts : Custody.Departs op) :
    Delivers r events s.shared event s'.shared := by
  rcases mem_stepOps hop with ⟨c, rfl, hcall⟩ | ⟨requests, guards, a, -, rfl⟩ | ⟨id, aborted, a, delivered, -, rfl⟩
  · rcases mem_callOps.mp hcall with ⟨held, -, rfl⟩ | ⟨-, rfl⟩ | ⟨resources, rfl, hr, -⟩ | ⟨resources, -, -, rfl⟩
    · exact hdeparts.elim
    · exact hdeparts.elim
    · exact .inr (.inl ⟨resources, rfl, hr⟩)
    · exact hshows.elim
  · exact hdeparts.elim
  · cases delivered with
    | false => exact hshows.elim
    | true => exact .inl ⟨a, (publishes_iff hstart hrun hstep hfence).mpr hop⟩

/-- What is known of a delivery was shown by the step. -/
theorem delivers_of_delivered (hbefore : (s.shared.custody r).delivered = false)
    (hafter : (s'.shared.custody r).delivered = true) :
    Delivers r events s.shared event s'.shared := by
  have hcust := hstep.custody (hstep.not_fenced hfence) r
  obtain ⟨op, hop, hshows⟩ := Custody.shows_of_run hbefore (hcust ▸ hafter)
  cases op with
  | refer known =>
    cases known with
    | false => exact hshows.elim
    | true =>
      rcases mem_stepOps hop with ⟨c, rfl, hcall⟩ | ⟨_, _, a, -, hown⟩ | ⟨_, _, a, delivered, -, hgive⟩
      · obtain rfl : c = .referenceResource r true := by simpa [mem_callOps] using hcall
        refine .inr (.inr ⟨rfl, fun hseen => ?_⟩)
        rw [hcust, stepOps_refer, Custody.run_singleton, Custody.delivered_exec_refer, hbefore] at hafter
        have hheld : (s.shared.custody r).holds.isNone = false := by
          rw [isNone_eq_false_iff]
          exact mem_iff_isSome_getElem?.mp hseen
        simp [hheld] at hafter
      · exact absurd hown (by simp)
      · exact absurd hgive (by simp)
  | hold | own a | release => exact hshows.elim
  | attest | give a delivered => exact delivers_of_shows hstart hrun hstep hfence hop hshows trivial

/-- A step that delivers a resource makes it known, unless it ends the tracking. -/
theorem delivered_of_delivers (h : Delivers r events s.shared event s'.shared)
    (htracked : r ∈ s'.shared.registry.resourcesSeen) : (s'.shared.custody r).delivered = true := by
  have hcust := hstep.custody (hstep.not_fenced hfence) r
  have hguard := guarded_of_run hstart hrun (hstep.not_fenced hfence) r
  have hheld : (s'.shared.custody r).holds ≠ none := by
    rw [← isSome_iff_ne_none]
    exact mem_iff_isSome_getElem?.mp htracked
  rcases h with ⟨child, hpub⟩ | ⟨resources, rfl, hr⟩ | ⟨rfl, hseen⟩
  · have hgive := (publishes_iff hstart hrun hstep hfence).mp hpub
    rw [hcust] at hheld ⊢
    rcases mem_stepOps hgive with ⟨c, rfl, hop⟩ | ⟨requests, guards, a, -, hop⟩ | ⟨id, aborted, a, delivered, rfl, -⟩
    · exact absurd hop (own_notMem_callOps.2 child true)
    · exact absurd hop (by simp)
    · obtain ⟨howns, hfalse⟩ := hpub.owns hstart hrun hstep hfence
      exact (hguard.ok.run_of_give_true howns (fun op hop => give_of_mem_stepOps hop) hgive
        hfalse).resolve_right hheld
  · have hops : stepOps r s.shared s'.shared (.call (.completeUnassigned resources)) =
        List.replicate (resources.count r) .attest := rfl
    rw [hcust, hops] at hheld ⊢
    exact hguard.ok.delivered_run_replicate_attest (count_pos_iff.mpr hr) hheld
  · have hnone : (s.shared.custody r).holds.isNone = true := by
      rw [isNone_iff_eq_none]
      exact getElem?_eq_none hseen
    rw [hcust, stepOps_refer, Custody.run_singleton, Custody.delivered_exec_refer, hnone,
      Bool.and_self, Bool.or_true]

/-- What the core knows of a delivery is what happened since tracking began. -/
theorem delivered_step (h : (s.shared.custody r).delivered = true)
    (htracked : r ∈ s'.shared.registry.resourcesSeen) : (s'.shared.custody r).delivered = true := by
  have hcust := hstep.custody (hstep.not_fenced hfence) r
  have hguard := guarded_of_run hstart hrun (hstep.not_fenced hfence) r
  have hheld : (s'.shared.custody r).holds ≠ none := by
    rw [← isSome_iff_ne_none]
    exact mem_iff_isSome_getElem?.mp htracked
  rw [hcust] at hheld ⊢
  rcases departs_or_not r s.shared s'.shared event with hdeparts | hgrows
  · exact (hguard.ok.run_of_delivered (.inl h) hdeparts).1.resolve_right hheld
  · exact (Custody.run_of_not_departs hgrows).1 h

end

section
variable (hstart : start.Recovered)
include hstart

theorem delivered_iff (hrun : Run Step start events s) (hfence : s.shared.fenced = false) :
    (s.shared.custody r).delivered = true ↔ Delivered r start events s := by
  constructor
  · intro h
    apply hrun.invariant (P := fun events s => s.shared.fenced = false →
      (s.shared.custody r).delivered = true → Delivered r start events s) _ _ hfence h
    · intro hfence h
      have hheld := (Guarded.init hstart r).ok.known h
      have hnone : (start.shared.custody r).holds = none := by
        show start.shared.registry.resourcesSeen[r]? = none
        rw [hstart.resources.2.1]
        rfl
      rw [hnone] at hheld
      exact absurd hheld (by decide)
    · intro events s event s' hrun ih hstep hfence h
      have htracked : r ∈ s'.shared.registry.resourcesSeen :=
        mem_iff_isSome_getElem?.mpr
          ((guarded_of_run hstart (hrun.snoc hstep) hfence r).ok.known h)
      cases hbefore : (s.shared.custody r).delivered with
      | true => exact .later (ih (hstep.not_fenced hfence) hbefore) hstep htracked
      | false =>
        exact .now hrun hstep (delivers_of_delivered hstart hrun hstep hfence hbefore h) htracked
  · intro h
    clear hrun
    induction h with
    | now hrun hstep h htracked => exact delivered_of_delivers hstart hrun hstep hfence h htracked
    | later h hstep htracked ih =>
      exact delivered_step hstart h.run hstep hfence (ih (hstep.not_fenced hfence)) htracked

theorem not_finish_of_handOff {id : ℕ} (hgiven : .handOff true ∈ history events id) :
    ¬ Run Step start (events ++ [.descriptor id (.finish true)]) s := by
  intro hrun
  obtain ⟨life, hlife, -⟩ := exists_life hstart hrun id
  have hexplains := Life.explains_of_run hlife
  rw [history_append_singleton, Event.about_descriptor_self] at hexplains
  have hclaimed := hexplains.claimed (by simp)
  have hgiven := hexplains.given (by simp [hgiven])
  rcases hclaimed with rfl | rfl | rfl <;> simp at hgiven

theorem cleanups_of_handOff {s' : System} {event : Event} {id : ℕ} {child : Child}
    (hrun : Run Step start events s) (hstep : Step s event s') (hfence : s'.shared.fenced = false)
    (hid : s.shared.assignments[id]? = some (child, resources)) (hr : r ∈ resources)
    (hgiven : .handOff true ∈ history events id) (hnot : ¬ Published events s.shared id child) :
    s'.shared.replayCleanups.count r = s.shared.replayCleanups.count r := by
  have hguard := guarded_of_run hstart hrun (hstep.not_fenced hfence) r
  have hchild := Shared.children_of_assignments hid
  have howns : (s.shared.custody r).Owns child := by
    refine (hguard.owners child).mpr ⟨id, resources, hid, hr, ?_⟩
    by_cases hfin : Finished events id
    · rcases hfin with hfin | hfin
      · obtain ⟨life, hlife, -⟩ := exists_life hstart hrun id
        have hexplains := Life.explains_of_run hlife
        have hclaimed := hexplains.claimed (by simp [hfin])
        have hgiven := hexplains.given hgiven
        rcases hclaimed with rfl | rfl | rfl <;> simp at hgiven
      · obtain ⟨inbox, hget, -⟩ := hguard.tracked.known child (mem_of_getElem? hchild)
        refine .inr ⟨hfin, inbox, hget, ?_⟩
        by_contra hge
        exact hnot ⟨hfin, inbox, hget, not_lt.mp hge⟩
    · exact .inl hfin
  have hcust := hstep.custody (hstep.not_fenced hfence) r
  show (s'.shared.custody r).cleanups = (s.shared.custody r).cleanups
  rw [hcust]
  rcases departs_or_not r s.shared s'.shared event with hdeparts | hgrows
  · apply hguard.ok.cleanups_of_owns howns
    intro op hop
    refine ⟨hdeparts op hop, ?_⟩
    rintro rfl
    rcases mem_stepOps hop with ⟨c, rfl, hop⟩ | ⟨requests, guards, a, -, hop⟩ | ⟨id', aborted, a, delivered, rfl, -⟩
    · exact own_notMem_callOps.2 child false hop
    · exact absurd hop (by simp)
    · obtain ⟨rfl, rfl⟩ := aborts_of_give hstart hrun hstep hfence hop hid hr
      exact not_finish_of_handOff hstart hgiven (hrun.snoc hstep)
  · exact (Custody.run_of_not_departs hgrows).2.1

end

/-- Without a fatal fence, a resource is tracked as long as a scope holds it or one of its assignments is
unresolved. It is not cleaned up once it was delivered in that time, nor while an assignment with it waits
for publication; if nothing delivered it, the step that ends the time cleans it up. -/
theorem replayCleanup_undelivered {r : String} {start s s' : System} {events : List Event}
    {event : Event} (hstart : start.Recovered) (hrun : Run Step start events s)
    (hstep : Step s event s') (hfence : s'.shared.fenced = false) :
    (r ∈ s'.shared.registry.resourcesSeen ↔ 0 < openScopes (events ++ [event]) r ∨
      ∃ id child resources, s'.shared.assignments[id]? = some (child, resources) ∧ r ∈ resources ∧
        Unresolved (events ++ [event]) s'.shared id child) ∧
    (s.shared.replayCleanups.count r < s'.shared.replayCleanups.count r →
      ¬ Delivered r start events s ∧
      ∀ id child resources, s.shared.assignments[id]? = some (child, resources) → r ∈ resources →
        .handOff true ∈ history events id → Published events s.shared id child) ∧
    (r ∈ s.shared.registry.resourcesSeen → r ∉ s'.shared.registry.resourcesSeen →
      ¬ Delivered r start events s → ¬ Delivers r events s.shared event s'.shared →
      s.shared.replayCleanups.count r < s'.shared.replayCleanups.count r) := by
  have hbefore := hstep.not_fenced hfence
  have hguard := guarded_of_run hstart hrun hbefore r
  have hguard' := guarded_of_run hstart (hrun.snoc hstep) hfence r
  have hcust := hstep.custody hbefore r
  have hseen : ∀ s : System, r ∈ s.shared.registry.resourcesSeen ↔ (s.shared.custody r).holds.isSome :=
    fun _ => mem_iff_isSome_getElem?
  refine ⟨?_, ?_, ?_⟩
  · rw [hseen, hguard'.ok.isSome_holds_iff, hguard'.scopes]
    apply or_congr_right
    rw [exists_congr hguard'.owners, exists_comm]
  · intro hcleanup
    constructor
    · rw [← delivered_iff hstart hrun hbefore]
      intro hdeliv
      have hsame : (s'.shared.custody r).cleanups = (s.shared.custody r).cleanups := by
        rw [hcust]
        rcases departs_or_not r s.shared s'.shared event with hdeparts | hgrows
        · exact (hguard.ok.run_of_delivered (.inl hdeliv) hdeparts).2
        · exact (Custody.run_of_not_departs hgrows).2.1
      exact absurd hsame (Nat.ne_of_gt hcleanup)
    · intro id child resources hid hr hgiven
      by_contra hnot
      exact absurd (cleanups_of_handOff hstart hrun hstep hfence hid hr hgiven hnot)
        (Nat.ne_of_gt hcleanup)
  · intro htracked hend hnever hnow
    rw [hseen] at htracked hend
    rw [← delivered_iff hstart hrun hbefore, Bool.not_eq_true] at hnever
    show (s.shared.custody r).cleanups < (s'.shared.custody r).cleanups
    rw [hcust] at hend ⊢
    rcases departs_or_not r s.shared s'.shared event with hdeparts | hgrows
    · apply Custody.cleanups_of_end htracked hnever
      · intro op hop hshows
        exact hnow (delivers_of_shows hstart hrun hstep hfence hop hshows (hdeparts op hop))
      · simpa using hend
    · exact absurd ((Custody.run_of_not_departs hgrows).2.2 htracked) hend

/-- A scope takes a resource, which is new or found held, reserves one assignment with it and ends; the
resolver is about to finish it. -/
def reserveAndAbort (held : Bool) : List Event :=
  [.call (.provisionalIncarnation "t" "i"),
    .call (if held then .referenceResource "r" true else .markResourceIfNew "r" false),
    .reserveBatch [⟨"t", "i", ["r"]⟩] [0], .call (.releaseUnallocated ["r"]), .detach 0, .resolve,
    .resolve, .descriptor 0 .claim, .resolve, .descriptor 0 .storeAborted]

theorem exists_run_reserveAndAbort (held : Bool) : ∃ s s', Run Step emptyCore (reserveAndAbort held) s ∧
    Step s (.descriptor 0 (.finish true)) s' ∧ s'.shared.fenced = false ∧
    s.shared.replayCleanups = [] ∧ s'.shared.replayCleanups = (if held then [] else ["r"]) ∧
    s'.shared.assignments = [(⟨⟨"t", "i"⟩, 1⟩, ["r"])] := by
  cases held <;>
  · apply Exists.intro
    apply Exists.intro
    constructor
    · exact .cons (.call _ _) <| .cons (.call _ _) <|
        .cons (.reserveBatch (Prod.ext (by decide +kernel) rfl)) <| .cons (.call _ _) <|
        .cons (.detach _ _) <| .cons (.snapshot rfl (by decide +kernel)) <|
        .cons (@Step.load _ 0 ⟨⟨"t", "i"⟩, 1, .plain .reservedNoWrite, true, ["r"]⟩ false [] []
          (by decide +kernel) (by decide +kernel) (by decide) (by decide)) <|
        .cons (.claim rfl (by decide +kernel)) <| .cons (.abortBatch rfl (by decide +kernel)) <|
        .cons (.storeAborted rfl) .nil
    · constructor
      · exact @Step.finishAborted _ 0 ⟨⟨"t", "i"⟩, 1, .plain .abortedDurable, true, ["r"]⟩ false [] rfl
          (by decide +kernel)
      · refine ⟨?_, ?_, ?_, ?_⟩ <;> decide +kernel

theorem replayCleanup_markAndAbort : ∃ s s', Run Step emptyCore (reserveAndAbort false) s ∧
    Step s (.descriptor 0 (.finish true)) s' ∧ ¬ Delivered "r" emptyCore (reserveAndAbort false) s := by
  obtain ⟨s, s', hrun, hstep, hfence, hbefore, hafter, -⟩ := exists_run_reserveAndAbort false
  refine ⟨s, s', hrun, hstep, ?_⟩
  refine ((replayCleanup_undelivered emptyCore_recovered hrun hstep hfence).2.1 ?_).1
  rw [hbefore, hafter]
  decide

/-- A resource is marked, its only assignment is published, and it is marked once more. -/
def markTwice : List Event :=
  [.call (.provisionalIncarnation "t" "i"), .call (.markResourceIfNew "r" false),
    .reserveBatch [⟨"t", "i", ["r"]⟩] [0], .call (.releaseUnallocated ["r"]),
    .descriptor 0 (.handOff true), .descriptor 0 .accept, .descriptor 0 .storeAccepted,
    .descriptor 0 (.finish false), .call (.markResourceIfNew "r" false)]

/-- A delivery is forgotten with the last scope and assignment, so a later scope cleans up a resource
with a published assignment. One found held is never cleaned up. -/
theorem replayCleanup_markTwice :
    (∃ s s', Run Step emptyCore markTwice s ∧ Step s (.call (.releaseUnallocated ["r"])) s' ∧
      s'.shared.fenced = false ∧ s.shared.assignments[0]? = some (⟨⟨"t", "i"⟩, 1⟩, ["r"]) ∧
      Published markTwice s.shared 0 ⟨⟨"t", "i"⟩, 1⟩ ∧ "r" ∉ s.shared.replayCleanups ∧
      "r" ∈ s'.shared.replayCleanups) ∧
    ∃ s, Run Step emptyCore (reserveAndAbort true ++ [.descriptor 0 (.finish true)]) s ∧
      s.shared.fenced = false ∧ s.shared.assignments = [(⟨⟨"t", "i"⟩, 1⟩, ["r"])] ∧
      .finish true ∈ history (reserveAndAbort true ++ [.descriptor 0 (.finish true)]) 0 ∧
      openScopes (reserveAndAbort true ++ [.descriptor 0 (.finish true)]) "r" = 0 ∧
      "r" ∉ s.shared.replayCleanups := by
  constructor
  · apply Exists.intro
    apply Exists.intro
    constructor
    · exact .cons (.call _ _) <| .cons (.call _ _) <|
        .cons (.reserveBatch (Prod.ext (by decide +kernel) rfl)) <| .cons (.call _ _) <|
        .cons (.handOff (by decide +kernel)) <|
        .cons (@Step.accept _ 0 [] [] rfl (by decide +kernel)) <|
        .cons (@Step.storeAccepted _ 0 [] [] rfl) <|
        .cons (@Step.finishAccepted _ 0 ⟨⟨"t", "i"⟩, 1, .plain .acceptedDurable, false, ["r"]⟩ [] []
          rfl (by decide +kernel)) <| .cons (.call _ _) .nil
    · refine ⟨.call _ _, by decide +kernel, by decide +kernel, ⟨by decide, ?_⟩, by decide +kernel,
        by decide +kernel⟩
      exact ⟨⟨false, true, 1, 1, 0, ∅, ∅, ∅, 0⟩, by decide +kernel, by decide⟩
  · obtain ⟨s, s', hrun, hstep, hfence, -, hcleanups, hassignments⟩ := exists_run_reserveAndAbort true
    refine ⟨s', hrun.snoc hstep, hfence, hassignments, by decide, by decide, ?_⟩
    rw [hcleanups]
    exact not_mem_nil

end Ramflux.Publication
