import Ramflux.Lib.Run
import Ramflux.Protocol.Tasks

/-! Safety of the task reducer: what every accepted event keeps, and what interventions, terminal steps
and proposals are protected from. -/
namespace Ramflux.Tasks
open Fallible List Option Except TaskState

variable {rules : TaskRules}

def pending (steps : List TaskStep) : ℕ := steps.countP (·.needsMe.isSome)

def Open (steps : List TaskStep) (id : String) : Prop := ∃ step ∈ steps, step.id = id ∧ step.needsMe.isSome

variable {α : Type}

theorem find?_of_countP_le_one {p : α → Bool} {l : List α} (h : l.countP p ≤ 1) {a : α}
    (ha : a ∈ l) (hp : p a) : l.find? p = some a := by
  induction l with
  | nil => cases ha
  | cons b l ih =>
    rw [countP_cons] at h
    obtain rfl | ha := mem_cons.mp ha
    · rw [find?_cons, hp]
    · have hpos : 0 < l.countP p := countP_pos_iff.mpr ⟨a, ha, hp⟩
      have hb : ¬ p b := by
        intro hb
        rw [if_pos hb] at h
        omega
      rw [if_neg hb] at h
      rw [find?_cons_of_neg hb]
      exact ih h ha

theorem modifyFirst_eq_some {p : α → Bool} {f : α → α} {l l' : List α}
    (h : modifyFirst p f l = some l') :
    ∃ before a after, l = before ++ a :: after ∧ p a ∧ l' = before ++ f a :: after := by
  induction l generalizing l' with
  | nil => cases h
  | cons b l ih =>
    unfold modifyFirst at h
    split_ifs at h with hb
    · exact ⟨[], b, l, rfl, hb, (some.inj h).symm⟩
    · obtain ⟨rest, hrest, rfl⟩ := map_eq_some_iff.mp h
      obtain ⟨before, a, after, rfl, ha, rfl⟩ := ih hrest
      exact ⟨b :: before, a, after, rfl, ha, rfl⟩

structure Shaped (steps : List TaskStep) : Prop where
  ids : (steps.map (·.id)).Nodup
  shape : ∀ step ∈ steps, step.state = .needsMe ↔ step.needsMe.isSome
  single : pending steps ≤ 1

variable {step : TaskStep} {event : TaskEvent} {signer : TaskSigner} {id conversationId : String}
  {next task : Task} {approvals : OrdSet String} {s s' : TaskState} {labels : List Label}
  {label : Label}

variable {seen : OrdSet String × ℕ}

theorem checkStep_ok {next : OrdSet String × ℕ} (h : checkStep rules seen step = .ok next) :
    step.id ∉ seen.1 ∧ (step.state = .needsMe ↔ step.needsMe.isSome) ∧
      next = (seen.1.insert step.id, seen.2 + if step.needsMe.isSome then 1 else 0) := by
  iterate 2 replace h := ok_after h
  obtain ⟨hnew, h⟩ := not_refused h
  obtain ⟨hshape, h⟩ := not_refused h
  refine ⟨hnew, not_not.mp hshape, ?_⟩
  cases hneeds : step.needsMe with
  | none =>
    rw [hneeds] at h
    exact (ok.inj h).symm
  | some target =>
    rw [hneeds] at h
    replace h := ok_after h
    exact (ok.inj h).symm

variable {values : List TaskStep}

theorem checkSteps_ok {last : OrdSet String × ℕ}
    (h : values.foldlM (checkStep rules) seen = .ok last) : (values.map (·.id)).Nodup ∧
      (∀ step ∈ values, step.id ∉ seen.1 ∧ (step.state = .needsMe ↔ step.needsMe.isSome)) ∧
      last.2 = seen.2 + pending values := by
  induction values generalizing seen with
  | nil =>
    cases h
    exact ⟨nodup_nil, nofun, rfl⟩
  | cons step values ih =>
    obtain ⟨mid, hstep, hrest⟩ := bind_eq_ok.mp h
    obtain ⟨hnew, hshape, rfl⟩ := checkStep_ok hstep
    obtain ⟨hids, hall, hcount⟩ := ih hrest
    refine ⟨?_, fun other hother => ?_, ?_⟩
    · refine nodup_cons.mpr ⟨fun hmem => ?_, hids⟩
      obtain ⟨other, hother, hid⟩ := mem_map.mp hmem
      exact (hall other hother).1 (OrdSet.mem_insert_iff.mpr (.inl hid))
    · obtain rfl | hother := mem_cons.mp hother
      · exact ⟨hnew, hshape⟩
      · refine ⟨fun hmem => ?_, (hall other hother).2⟩
        exact (hall other hother).1 (OrdSet.mem_insert_iff.mpr (.inr hmem))
    · unfold pending at hcount ⊢
      rw [hcount, countP_cons]
      omega

theorem steps_ok (h : steps rules values = .ok ()) : Shaped values := by
  replace h := ok_after h
  obtain ⟨⟨ids, count⟩, hfold, h⟩ := bind_eq_ok.mp h
  obtain ⟨hids, hall, hcount⟩ := checkSteps_ok hfold
  have hsingle := refuseWhen_eq_ok.mp h
  refine ⟨hids, fun step hstep => (hall step hstep).2, ?_⟩
  omega

theorem verify_ok (h : event.verify rules signer = .ok ()) :
    validateBody rules event.conversationId event.event = .ok () := by
  obtain ⟨_, h, -⟩ := bind_eq_ok.mp h
  iterate 6 replace h := ok_after h
  obtain ⟨_, hbody, -⟩ := bind_eq_ok.mp h
  exact hbody

variable {v : TaskProposal}

theorem validateBody_proposal (h : validateBody rules conversationId (.proposal v) = .ok ()) :
    Shaped v.steps := by
  iterate 4 replace h := ok_after h
  exact steps_ok h

theorem validateBody_update {v : TaskUpdate}
    (h : validateBody rules conversationId (.update v) = .ok ()) : Shaped v.steps := by
  obtain ⟨_, h, -⟩ := bind_eq_ok.mp h
  exact steps_ok h

variable {steps : List TaskStep}

theorem mem_cancelUnfinished (h : step ∈ cancelUnfinished steps) :
    step.state.isTerminal ∧ step.needsMe = none := by
  obtain ⟨old, -, rfl⟩ := mem_map.mp h
  refine ⟨?_, rfl⟩
  split_ifs with hterm
  · exact hterm
  · rfl

theorem map_id_cancelUnfinished (steps : List TaskStep) :
    (cancelUnfinished steps).map (·.id) = steps.map (·.id) := by
  unfold cancelUnfinished
  rw [List.map_map]
  rfl

theorem Shaped.cancelUnfinished (hids : (steps.map (·.id)).Nodup) :
    Shaped (cancelUnfinished steps) ∧ pending (cancelUnfinished steps) = 0 := by
  have hzero : pending (Tasks.cancelUnfinished steps) = 0 := by
    refine countP_eq_zero.mpr fun step hstep => ?_
    rw [(mem_cancelUnfinished hstep).2]
    exact Bool.false_ne_true
  refine ⟨⟨?_, fun step hstep => ?_, ?_⟩, hzero⟩
  · rw [map_id_cancelUnfinished]
    exact hids
  · obtain ⟨hterm, hnone⟩ := mem_cancelUnfinished hstep
    rw [hnone]
    refine ⟨fun hstate => ?_, nofun⟩
    rw [hstate] at hterm
    cases hterm
  · omega

theorem exists_cancelUnfinished (hshape : ∀ step ∈ steps, step.state = .needsMe ↔ step.needsMe.isSome)
    (hstep : step ∈ steps) : ∃ step' ∈ cancelUnfinished steps, step'.id = step.id ∧
      (step.state.isTerminal → step' = step) := by
  refine ⟨_, mem_map_of_mem hstep, rfl, fun hterm => ?_⟩
  have hnone : step.needsMe = none := by
    refine not_isSome_iff_eq_none.mp fun hopen => ?_
    rw [(hshape step hstep).mpr hopen] at hterm
    cases hterm
  rw [if_pos hterm, ← hnone]

/-- Invariant of a task, with the grants that were used. -/
structure Sound (task : Task) (approvals : OrdSet String) : Prop where
  shaped : Shaped task.steps
  needsMe : task.state = .needsMe ↔ pending task.steps = 1
  terminal : task.state.isTerminal → ∀ step ∈ task.steps, step.state.isTerminal
  unused : ∀ step ∈ task.steps, ∀ grantId, step.needsMe = some (.approval grantId) → grantId ∉ approvals
  proposed : task.state = .proposed → task.accepted = false ∧ task.requester = none
  unaccepted : task.accepted = false → task.state = .proposed ∨ task.state = .cancelled

theorem Sound.closed (h : Sound task approvals)
    (hstate : task.state ≠ .needsMe) : pending task.steps = 0 := by
  have hne : pending task.steps ≠ 1 := fun hone => hstate (h.needsMe.mpr hone)
  have hle := h.shaped.single
  omega

theorem needsMe_eq_none (h : pending steps = 0) (hstep : step ∈ steps) : step.needsMe = none := by
  refine not_isSome_iff_eq_none.mp fun hopen => ?_
  exact countP_eq_zero.mp h step hstep hopen

theorem Sound.of_cancelled (hids : (steps.map (·.id)).Nodup)
    (hsteps : next.steps = cancelUnfinished steps) (hstate : next.state.isTerminal)
    (hacc : next.accepted = false → next.state = .cancelled) (approvals : OrdSet String) :
    Sound next approvals := by
  obtain ⟨hshaped, hzero⟩ := Shaped.cancelUnfinished hids
  rw [← hsteps] at hshaped hzero
  refine ⟨hshaped, ?_, fun _ step hstep => ?_, fun step hstep grantId hneeds => ?_, fun hproposed => ?_,
    fun hfalse => .inr (hacc hfalse)⟩
  · constructor
    · intro hneeds
      rw [hneeds] at hstate
      cases hstate
    · omega
  · rw [hsteps] at hstep
    exact (mem_cancelUnfinished hstep).1
  · rw [needsMe_eq_none hzero hstep] at hneeds
    cases hneeds
  · rw [hproposed] at hstate
    cases hstate

theorem human_ok (h : human signer = .ok ()) : signer.actorType = .human :=
  not_not.mp (refuseWhen_eq_ok.mp h)

theorem requester_ok (h : requester task signer = .ok ()) :
    signer.actorType = .human ∧ task.requester = some signer.principalId := by
  obtain ⟨_, hhuman, h⟩ := bind_eq_ok.mp h
  exact ⟨human_ok hhuman, not_not.mp (refuseWhen_eq_ok.mp h)⟩

/-- Old steps are in the new list, terminal ones as they were, open ones too unless released. -/
def Kept (released : TaskStep → Prop) (old new : List TaskStep) : Prop :=
  ∀ step ∈ old, ∃ step' ∈ new, step'.id = step.id ∧ (step.state.isTerminal → step' = step) ∧
    (step.needsMe.isSome → step' = step ∨ released step)

theorem answer_ok {accepted : Bool}
    (hsound : Sound task approvals) (h : answer task signer accepted = .ok next) :
    Sound next approvals ∧ (∀ released, Kept released task.steps next.steps) ∧
      signer.actorType = .human ∧ task.proposer ≠ some signer.principalId := by
  obtain ⟨_, hhuman, h⟩ := bind_eq_ok.mp h
  obtain ⟨hstate, h⟩ := not_refused h
  obtain ⟨hproposer, h⟩ := not_refused h
  cases h
  have hstate : task.state = .proposed := not_not.mp hstate
  have hzero := hsound.closed (hstate ▸ nofun)
  refine ⟨?_, fun released step hstep => ?_, human_ok hhuman, hproposer⟩
  · cases accepted with
    | true =>
      refine ⟨hsound.shaped, ⟨nofun, fun hone => ?_⟩, nofun, hsound.unused, nofun, nofun⟩
      exact absurd (hzero.symm.trans hone) nofun
    | false => exact Sound.of_cancelled hsound.shaped.ids rfl rfl (fun _ => rfl) approvals
  · have hnone := needsMe_eq_none hzero hstep
    have hclosed : ∀ P : Prop, step.needsMe.isSome → P := by
      intro P hopen
      rw [hnone] at hopen
      cases hopen
    cases accepted with
    | true => exact ⟨step, hstep, rfl, fun _ => rfl, hclosed _⟩
    | false =>
      obtain ⟨step', hmem, hid, hterm⟩ := exists_cancelUnfinished hsound.shaped.shape hstep
      exact ⟨step', hmem, hid, hterm, hclosed _⟩

theorem cancel_ok (hsound : Sound task approvals) (h : cancel task signer = .ok next) :
    Sound next approvals ∧ signer.actorType = .human ∧ task.requester = some signer.principalId ∧
      Kept (fun _ => True) task.steps next.steps := by
  obtain ⟨_, hreq, h⟩ := bind_eq_ok.mp h
  cases h
  obtain ⟨hhuman, hreq⟩ := requester_ok hreq
  refine ⟨Sound.of_cancelled hsound.shaped.ids rfl rfl (fun _ => rfl) approvals, hhuman, hreq, fun step hstep => ?_⟩
  obtain ⟨step', hmem, hid, hterm⟩ := exists_cancelUnfinished hsound.shaped.shape hstep
  exact ⟨step', hmem, hid, hterm, fun _ => .inr trivial⟩

variable {update : TaskUpdate}

theorem checkUpdated_ok {old : TaskStep} (h : checkUpdated update old = .ok ()) :
    ∃ new ∈ update.steps, new.id = old.id ∧ (old.state.isTerminal → new = old) ∧
      (old.needsMe.isSome → new = old) := by
  unfold checkUpdated at h
  split at h
  · cases h
  · next new hfind =>
    obtain ⟨hopen, h⟩ := not_refused h
    obtain ⟨_, hterm, -⟩ := bind_eq_ok.mp h
    have hfound := find?_some hfind
    have hid : new.id = old.id := beq_iff_eq.mp hfound
    refine ⟨new, mem_of_find?_eq_some hfind, hid, fun hold => ?_, fun hold => ?_⟩
    · exact (not_not.mp fun hne => refuseWhen_eq_ok.mp hterm ⟨hold, hne⟩).symm
    · exact (not_not.mp fun hne => hopen ⟨hold, hne⟩).symm

theorem updateTask_ok (hsteps : Shaped update.steps) (hacc : task.accepted = true)
    (h : updateTask task update approvals = .ok next) :
    Sound next approvals ∧ ∀ released, Kept released task.steps next.steps := by
  obtain ⟨hstate, h⟩ := not_refused h
  obtain ⟨hpending, h⟩ := not_refused h
  obtain ⟨_, hold, h⟩ := bind_eq_ok.mp h
  obtain ⟨hreplay, h⟩ := not_refused h
  obtain ⟨hdone, h⟩ := not_refused h
  obtain ⟨hfailed, h⟩ := not_refused h
  replace h := ok_after h
  cases h
  have hpending := not_not.mp hpending
  have hcount : (update.steps.find? (·.needsMe.isSome)).isSome ↔ pending update.steps = 1 := by
    have hle := hsteps.single
    rw [find?_isSome]
    constructor
    · rintro ⟨step, hstep, hopen⟩
      have hpos : 0 < pending update.steps := countP_pos_iff.mpr ⟨step, hstep, hopen⟩
      omega
    · intro hone
      exact countP_pos_iff.mp (by unfold pending at hone; omega)
  refine ⟨⟨hsteps, hpending.trans hcount, fun hterm step hstep => ?_, fun step hstep grantId hneeds => ?_,
    fun hproposed => ?_, fun hfalse => ?_⟩, fun released step hstep => ?_⟩
  · cases hupdate : update.state with
    | done =>
      have hall : ¬ update.steps.any (·.state ≠ .done) := fun hany =>
        hdone ⟨hupdate, hany⟩
      have hthis : step.state = .done := by
        refine not_not.mp fun hne => hall (any_eq_true.mpr ⟨step, hstep, ?_⟩)
        exact decide_eq_true hne
      rw [hthis]
      rfl
    | failed =>
      have hall : ¬ update.steps.any (¬ ·.state.isTerminal) := fun hany =>
        hfailed ⟨hupdate, hany⟩
      refine not_not.mp fun hne => hall (any_eq_true.mpr ⟨step, hstep, ?_⟩)
      exact decide_eq_true hne
    | proposed | cancelled =>
      rw [hupdate] at hstate
      exact absurd hstate (by decide)
    | running | needsMe =>
      rw [hupdate] at hterm
      cases hterm
  · have hopen : step.needsMe.isSome := hneeds ▸ rfl
    have hfirst := find?_of_countP_le_one hsteps.single hstep hopen
    have hunused := hreplay
    rw [hfirst, bind_some, hneeds] at hunused
    exact fun hmem => hunused (decide_eq_true hmem)
  · dsimp only at hproposed
    rw [hproposed] at hstate
    exact absurd hstate (by decide)
  · exact absurd (hacc.symm.trans hfalse) nofun
  · obtain ⟨new, hmem, hid, hterm, hopen⟩ := checkUpdated_ok (forM_eq_ok.mp hold step hstep)
    exact ⟨new, hmem, hid, hterm, fun h => .inl (hopen h)⟩

/-- A receipt matches the intervention of a step. -/
def Matches (resolution : TaskResolve) (step : TaskStep) : Prop :=
  step.id = resolution.stepId ∧ step.needsMe = some resolution.target

variable {resolution : TaskResolve} {pendingSince : OrdMap String ℕ}

theorem validateResolution_ok (h : validateResolution task resolution pendingSince = .ok ()) :
    (∃ step ∈ task.steps, Matches resolution step) ∧
      ∃ opened, pendingSince[resolution.stepId]? = some opened ∧ opened ≤ resolution.baseRevision := by
  unfold validateResolution at h
  split at h
  · cases h
  · next step hfind =>
    split_ifs at h with hclosed htgt hnewer
    have hfound := find?_some hfind
    refine ⟨⟨step, mem_of_find?_eq_some hfind, beq_iff_eq.mp hfound, not_not.mp htgt⟩, ?_⟩
    cases hsince : pendingSince[resolution.stepId]? with
    | none =>
      rw [hsince] at hnewer
      exact absurd rfl hnewer
    | some opened =>
      rw [hsince] at hnewer
      exact ⟨opened, rfl, not_lt.mp fun hlt => hnewer (decide_eq_true hlt)⟩

def TaskResolve.grant (resolution : TaskResolve) : Option String :=
  match resolution.target with
  | .approval grantId => some grantId
  | _ => none

theorem pending_append_cons (before after : List TaskStep) (step : TaskStep) :
    pending (before ++ step :: after) =
      pending before + pending after + if step.needsMe.isSome then 1 else 0 := by
  unfold pending
  rw [countP_append, countP_cons]
  omega

theorem Shaped.decided {before after : List TaskStep}
    (h : Shaped (before ++ step :: after)) (hopen : step.needsMe.isSome) (decision : TaskDecision) :
    Shaped (before ++ step.decided decision :: after) ∧
      pending (before ++ step.decided decision :: after) = 0 := by
  have hsingle := h.single
  rw [pending_append_cons, if_pos hopen] at hsingle
  have hzero : pending (before ++ step.decided decision :: after) = 0 := by
    rw [pending_append_cons]
    change pending before + pending after + 0 = 0
    omega
  refine ⟨⟨?_, fun other hother => ?_, hzero.trans_le (Nat.zero_le 1)⟩, hzero⟩
  · have hids := h.ids
    rw [map_append, map_cons] at hids ⊢
    exact hids
  · obtain hother | hother := mem_append.mp hother
    · exact h.shape other (mem_append_left _ hother)
    · obtain rfl | hother := mem_cons.mp hother
      · refine ⟨fun hneeds => ?_, nofun⟩
        cases decision with
        | resume | deny => cases hneeds
      · exact h.shape other (mem_append_right _ (.tail _ hother))

variable {released : TaskStep → Prop}

theorem Kept.decided {before after : List TaskStep} (h : Shaped (before ++ step :: after))
    (hopen : step.needsMe.isSome) (decision : TaskDecision) (hreleased : released step) :
    Kept released (before ++ step :: after) (before ++ step.decided decision :: after) := by
  intro other hother
  obtain hother | hother := mem_append.mp hother
  · exact ⟨other, mem_append_left _ hother, rfl, fun _ => rfl, fun _ => .inl rfl⟩
  · obtain rfl | hother := mem_cons.mp hother
    · refine ⟨_, mem_append_right _ (.head _), rfl, fun hterm => ?_, fun _ => .inr hreleased⟩
      have hneeds := (h.shape other (mem_append_right _ (.head _))).mpr hopen
      rw [hneeds] at hterm
      cases hterm
    · exact ⟨other, mem_append_right _ (.tail _ hother), rfl, fun _ => rfl, fun _ => .inl rfl⟩

theorem Kept.cancelUnfinished {old new : List TaskStep} (h : Kept released old new)
    (hnew : ∀ step ∈ new, step.state = .needsMe ↔ step.needsMe.isSome)
    (hzero : pending new = 0) : Kept released old (cancelUnfinished new) := by
  intro step hstep
  obtain ⟨step', hmem, hid, hterm, hopen⟩ := h step hstep
  obtain ⟨last, hlast, hid', hterm'⟩ := exists_cancelUnfinished hnew hmem
  refine ⟨last, hlast, hid'.trans hid, fun hold => ?_, fun hold => ?_⟩
  · obtain rfl := hterm hold
    exact hterm' hold
  · obtain rfl | hreleased := hopen hold
    · rw [needsMe_eq_none hzero hmem] at hold
      cases hold
    · exact .inr hreleased

theorem resolve_ok (hsound : Sound task approvals) (h : resolve task resolution = .ok next)
    (approvals' : OrdSet String) :
    Sound next approvals' ∧ Kept (Matches resolution) task.steps next.steps := by
  unfold resolve at h
  by_cases hstate : task.state = .needsMe
  swap
  · rw [if_pos hstate] at h
    cases h
  rw [if_neg (not_not.mpr hstate)] at h
  have hacc : ∀ P : Prop, task.accepted = false → P := by
    intro P hfalse
    obtain hother | hother := hsound.unaccepted hfalse
    · exact absurd (hstate.symm.trans hother) nofun
    · exact absurd (hstate.symm.trans hother) nofun
  cases hmodify : modifyFirst (fun step => step.id = resolution.stepId ∧
      step.needsMe = some resolution.target) (·.decided resolution.decision) task.steps with
  | none =>
    rw [hmodify] at h
    cases h
  | some steps =>
    rw [hmodify] at h
    cases h
    obtain ⟨before, step, after, hsteps, hmatch, rfl⟩ := modifyFirst_eq_some hmodify
    have hmatch : step.id = resolution.stepId ∧ step.needsMe = some resolution.target :=
      of_decide_eq_true hmatch
    have hopen : step.needsMe.isSome := hmatch.2 ▸ rfl
    have hshaped := hsound.shaped
    rw [hsteps] at hshaped ⊢
    obtain ⟨hdecided, hzero⟩ := hshaped.decided hopen resolution.decision
    have hkept : Kept (Matches resolution) (before ++ step :: after)
        (before ++ step.decided resolution.decision :: after) :=
      Kept.decided hshaped hopen resolution.decision hmatch
    cases hdecision : resolution.decision with
    | resume =>
      rw [hdecision] at hdecided hzero hkept
      refine ⟨⟨hdecided, ⟨nofun, fun hone => ?_⟩, nofun, fun other hmem grantId hneeds => ?_, nofun,
        hacc _⟩, hkept⟩
      · exact absurd (hzero.symm.trans hone) nofun
      · rw [needsMe_eq_none hzero hmem] at hneeds
        cases hneeds
    | deny =>
      rw [hdecision] at hdecided hzero hkept
      refine ⟨Sound.of_cancelled hdecided.ids rfl rfl ?_ approvals',
        hkept.cancelUnfinished hdecided.shape hzero⟩
      exact hacc _

variable {expected : ℕ}

theorem getElem?_insertNew {m : OrdMap String ℕ} (id : String) :
    (steps.foldl (fun m step => m.insertIfNew step.id expected) m)[id]? =
      m[id]?.or (if id ∈ steps.map (·.id) then some expected else none) := by
  induction steps generalizing m with
  | nil => exact or_none.symm
  | cons step steps ih =>
    rw [foldl_cons, ih, Std.ExtTreeMap.getElem?_insertIfNew, map_cons]
    by_cases hid : step.id = id
    · have hcompare : compare step.id id = .eq := Std.LawfulEqCmp.compare_eq_iff_eq.mpr hid
      rw [if_pos (mem_cons.mpr (.inl hid.symm))]
      by_cases hmem : step.id ∈ m
      · rw [if_neg fun h => h.2 hmem]
        obtain ⟨since, hsince⟩ := OrdMap.mem_iff_exists.mp hmem
        rw [hid] at hsince
        rw [hsince]
        rfl
      · rw [if_pos ⟨hcompare, hmem⟩]
        have hnone : m[id]? = none := Std.ExtTreeMap.getElem?_eq_none (hid ▸ hmem)
        rw [hnone]
        rfl
    · have hcompare : ¬ compare step.id id = .eq := fun h => hid (Std.LawfulEqCmp.compare_eq_iff_eq.mp h)
      rw [if_neg fun h => hcompare h.1]
      congr 2
      exact propext ⟨fun h => .tail _ h, fun h => (mem_cons.mp h).resolve_left (Ne.symm hid)⟩

theorem trackPending_eq [Decidable (Open steps id)] :
    (trackPending pendingSince steps expected)[id]? =
      if Open steps id then some (pendingSince[id]?.getD expected) else none := by
  have hkept : (steps.any fun step => step.id == id && step.needsMe.isSome) = decide (Open steps id) := by
    rw [Bool.eq_iff_iff, decide_eq_true_iff]
    simp [Open]
  have hmem : id ∈ (steps.filter (·.needsMe.isSome)).map (·.id) ↔ Open steps id := by
    simp only [List.mem_map, mem_filter, Open, and_assoc, and_comm (a := _ = id)]
  unfold trackPending
  rw [getElem?_insertNew, OrdMap.getElem?_filter_eq]
  simp only [hmem, hkept]
  cases pendingSince[id]? with
  | none => rfl
  | some since => split_ifs with h <;> simp [h, filter_some]

/-- The event releases the intervention of a step: the requesting human cancels the task, or their
receipt matches and is not older than the revision kept for it. -/
def Released (s : TaskState) (task : Task) (body : TaskEventBody) (signer : TaskSigner) (step : TaskStep) : Prop :=
  signer.actorType = .human ∧ task.requester = some signer.principalId ∧
    ((∃ v, body = .cancel v) ∨ ∃ v, body = .resolve v ∧ Matches v step ∧
      ∃ opened, s.pendingSince[step.id]? = some opened ∧ opened ≤ v.baseRevision)

/-- The event answers a proposal, for a human who did not make it. -/
def Answered (task : Task) (body : TaskEventBody) (signer : TaskSigner) : Prop :=
  ((∃ v, body = .accept v) ∨ ∃ v, body = .decline v) ∧ signer.actorType = .human ∧
    task.proposer ≠ some signer.principalId

def TaskEventBody.decision : TaskEventBody → Option String
  | .resolve v => some v.decisionId
  | _ => none

def TaskEventBody.grant : TaskEventBody → Option String
  | .resolve v => v.grant
  | _ => none

/-- Identifiers used up by an event are new and are remembered. -/
def Consumes (used used' : OrdSet String) (item : Option String) : Prop :=
  (∀ id, item = some id → id ∉ used) ∧ ∀ id, id ∈ used' ↔ id ∈ used ∨ item = some id

theorem Consumes.none (used : OrdSet String) : Consumes used used none :=
  ⟨nofun, fun _ => (or_iff_left nofun).symm⟩

variable {used : OrdSet String}

theorem Consumes.insert (h : id ∉ used) : Consumes used (used.insert id) (some id) := by
  refine ⟨fun other hother => some.inj hother ▸ h, fun other => ?_⟩
  rw [OrdSet.mem_insert_iff, or_comm, Option.some.injEq, @eq_comm _ id]

theorem react_ok {body : TaskEventBody} {decisions : OrdSet String} (hsound : Sound task s.approvals)
    (hvalid : validateBody rules conversationId body = .ok ())
    (h : s.react task signer body = .ok (next, decisions, approvals)) :
    Sound next approvals ∧ Kept (Released s task body signer) task.steps next.steps ∧
      (task.accepted = false → task.requester = none → Answered task body signer) ∧
      Consumes s.decisions decisions body.decision ∧ Consumes s.approvals approvals body.grant := by
  cases body with
  | start v | proposal v => cases h
  | accept v =>
    obtain ⟨_, hanswer, h⟩ := bind_eq_ok.mp h
    cases h
    obtain ⟨hnext, hkept, hhuman, hproposer⟩ := answer_ok hsound hanswer
    exact ⟨hnext, hkept _, fun _ _ => ⟨.inl ⟨v, rfl⟩, hhuman, hproposer⟩, .none _, .none _⟩
  | decline v =>
    obtain ⟨_, hanswer, h⟩ := bind_eq_ok.mp h
    cases h
    obtain ⟨hnext, hkept, hhuman, hproposer⟩ := answer_ok hsound hanswer
    exact ⟨hnext, hkept _, fun _ _ => ⟨.inr ⟨v, rfl⟩, hhuman, hproposer⟩, .none _, .none _⟩
  | cancel v =>
    obtain ⟨_, hcancel, h⟩ := bind_eq_ok.mp h
    cases h
    obtain ⟨hnext, hhuman, hreq, hkept⟩ := cancel_ok hsound hcancel
    refine ⟨hnext, fun step hstep => ?_, fun _ hnone => ?_, .none _, .none _⟩
    · obtain ⟨step', hmem, hid, hterm, -⟩ := hkept step hstep
      exact ⟨step', hmem, hid, hterm, fun _ => .inr ⟨hhuman, hreq, .inl ⟨v, rfl⟩⟩⟩
    · exact absurd (hnone.symm.trans hreq) nofun
  | update v =>
    replace h := ok_after h
    obtain ⟨hacc, h⟩ := not_refused h
    obtain ⟨_, hupdate, h⟩ := bind_eq_ok.mp h
    cases h
    have hacc : task.accepted = true := not_not.mp hacc
    obtain ⟨hnext, hkept⟩ := updateTask_ok (validateBody_update hvalid) hacc hupdate
    exact ⟨hnext, hkept _, fun hfalse => absurd (hacc.symm.trans hfalse) nofun, .none _, .none _⟩
  | resolve v =>
    obtain ⟨_, hreq, h⟩ := bind_eq_ok.mp h
    obtain ⟨hnew, h⟩ := not_refused h
    obtain ⟨_, hvalidated, h⟩ := bind_eq_ok.mp h
    obtain ⟨_, hresolve, h⟩ := bind_eq_ok.mp h
    cases h
    obtain ⟨hhuman, hreq⟩ := requester_ok hreq
    obtain ⟨⟨asked, hasked, hmatch⟩, opened, hopened, hle⟩ := validateResolution_ok hvalidated
    obtain ⟨hnext, hkept⟩ := resolve_ok hsound hresolve _
    refine ⟨hnext, fun step hstep => ?_, fun _ hnone => ?_, .insert hnew, ?_⟩
    · obtain ⟨step', hmem, hid, hterm, hopen⟩ := hkept step hstep
      refine ⟨step', hmem, hid, hterm, fun hold => (hopen hold).imp_right fun hmatch => ?_⟩
      exact ⟨hhuman, hreq, .inr ⟨v, rfl, hmatch, opened, hmatch.1 ▸ hopened, hle⟩⟩
    · exact absurd (hnone.symm.trans hreq) nofun
    · change Consumes s.approvals _ v.grant
      unfold TaskResolve.grant
      cases htgt : v.target with
      | approval grantId =>
        exact .insert (hsound.unused asked hasked grantId (hmatch.2.trans (congrArg some htgt)))
      | choice surfaceId | input surfaceId => exact .none s.approvals

/-- An event of a task that exists. -/
structure Advances (s : TaskState) (event : TaskEvent) (signer : TaskSigner) (s' : TaskState)
    (task next : Task) : Prop where
  current : s.task = some task
  live : task.state.isTerminal = false
  reacts : s.react task signer event.event = .ok (next, s'.decisions, s'.approvals)
  settled : s'.task = some { next with version := task.version + 1 }
  tracked : s'.pendingSince = trackPending s.pendingSince next.steps (task.version + 1)

/-- The first event: a task without an intervention. -/
structure Begins (s : TaskState) (event : TaskEvent) (s' : TaskState) (task : Task) : Prop where
  unset : s.task = none
  next : s' = { s with task := some task }
  version : task.version = 1
  sound : Sound task s.approvals
  closed : pending task.steps = 0
  decision : event.event.decision = none
  grant : event.event.grant = none

theorem advance_ok
    (h : s.advance event signer = .ok s') : ∃ task next, Advances s event signer s' task next := by
  unfold advance at h
  split at h
  · cases h
  · next task htask =>
    replace h := ok_after h
    obtain ⟨hlive, h⟩ := not_refused h
    iterate 2 replace h := ok_after h
    obtain ⟨⟨next, decisions, approvals⟩, hreact, h⟩ := bind_eq_ok.mp h
    cases h
    exact ⟨task, next, htask, Bool.eq_false_iff.mpr hlive, hreact, rfl, rfl⟩

theorem initializeStart_ok {v : TaskStart} (hunset : s.task = none) (hevent : event.event = .start v)
    (h : initializeStart rules s signer v = .ok s') : ∃ task, Begins s event s' task := by
  iterate 2 replace h := ok_after h
  cases h
  refine ⟨_, hunset, rfl, rfl, ⟨⟨nodup_nil, nofun, Nat.zero_le 1⟩, ⟨nofun, nofun⟩, nofun, nofun, nofun,
    nofun⟩, rfl, ?_, ?_⟩
  · rw [hevent]
    rfl
  · rw [hevent]
    rfl

theorem initializeProposal_ok (hunset : s.task = none) (hevent : event.event = .proposal v)
    (hshaped : Shaped v.steps)
    (h : initializeProposal s signer v = .ok s') : ∃ task, Begins s event s' task := by
  iterate 2 replace h := ok_after h
  obtain ⟨_, hproposed, h⟩ := bind_eq_ok.mp h
  cases h
  have hproposed : ∀ step ∈ v.steps, step.state = .proposed := by
    intro step hstep
    refine not_not.mp fun hne => refuseWhen_eq_ok.mp hproposed ?_
    exact any_eq_true.mpr ⟨step, hstep, decide_eq_true hne⟩
  have hclosed : pending v.steps = 0 := by
    refine countP_eq_zero.mpr fun step hstep hopen => ?_
    exact absurd ((hproposed step hstep).symm.trans ((hshaped.shape step hstep).mpr hopen)) nofun
  refine ⟨_, hunset, rfl, rfl, ⟨hshaped, ⟨nofun, fun hone => ?_⟩, nofun, fun step hstep grantId hneeds => ?_,
    fun _ => ⟨rfl, rfl⟩, fun _ => .inl rfl⟩, hclosed, ?_, ?_⟩
  · exact absurd (hclosed.symm.trans hone) nofun
  · rw [needsMe_eq_none hclosed hstep] at hneeds
    cases hneeds
  · rw [hevent]
    rfl
  · rw [hevent]
    rfl

/-- Every accepted event. -/
theorem apply_ok (h : s.apply rules event signer = .ok s') :
    validateBody rules event.conversationId event.event = .ok () ∧
      ((∃ task, Begins s event s' task) ∨ ∃ task next, Advances s event signer s' task next) := by
  obtain ⟨_, hverify, h⟩ := bind_eq_ok.mp h
  obtain ⟨next, hreduce, h⟩ := bind_eq_ok.mp h
  replace h := ok_after h
  cases h
  have hvalid := verify_ok hverify
  refine ⟨hvalid, ?_⟩
  unfold reduce at hreduce
  cases hevent : event.event with
  | start v =>
    rw [hevent] at hreduce
    split_ifs at hreduce with hset
    exact .inl (initializeStart_ok (not_isSome_iff_eq_none.mp hset) hevent hreduce)
  | proposal v =>
    rw [hevent] at hreduce hvalid
    split_ifs at hreduce with hset
    exact .inl (initializeProposal_ok (not_isSome_iff_eq_none.mp hset) hevent
      (validateBody_proposal hvalid) hreduce)
  | accept v | decline v | update v | cancel v | resolve v =>
    rw [hevent] at hreduce
    exact .inr (advance_ok hreduce)

def TaskState.version (s : TaskState) : ℕ := (s.task.map (·.version)).getD 0

def TaskState.Open (s : TaskState) (id : String) : Prop := ∃ task, s.task = some task ∧ Tasks.Open task.steps id

abbrev Label := TaskEvent × TaskSigner

def Accepts (rules : TaskRules) (s : TaskState) (label : Label) (s' : TaskState) : Prop :=
  s.apply rules label.1 label.2 = .ok s'

/-- The open intervention was opened by an event that led to the given revision, and stayed open. -/
def OpenSince (rules : TaskRules) (labels : List Label) (s : TaskState) (id : String) (opened : ℕ) : Prop :=
  ∃ before label during s₁ s₂, labels = before ++ [label] ++ during ∧
    Run (Accepts rules) .default before s₁ ∧ ¬ s₁.Open id ∧ Accepts rules s₁ label s₂ ∧ s₂.Open id ∧
    s₂.version = opened ∧ Run (fun t label t' => Accepts rules t label t' ∧ t'.Open id) s₂ during s

/-- Identifiers used up along a run: each once, and all of them remembered. -/
structure Used (ids : List String) (used : OrdSet String) : Prop where
  nodup : ids.Nodup
  mem : ∀ id, id ∈ ids ↔ id ∈ used

theorem Used.extend {ids : List String} {used' : OrdSet String} {item : Option String}
    (h : Used ids used) (hitem : Consumes used used' item) : Used (ids ++ item.toList) used' := by
  refine ⟨nodup_append.mpr ⟨h.nodup, ?_, fun id hid other hother => ?_⟩, fun id => ?_⟩
  · cases item with
    | none => exact nodup_nil
    | some id => exact nodup_singleton id
  · have hnew := hitem.1 other (mem_toList.mp hother)
    rintro rfl
    exact hnew ((h.mem id).mp hid)
  · rw [mem_append, mem_toList, h.mem, hitem.2]

/-- Invariant of runs. -/
structure Inv (rules : TaskRules) (labels : List Label) (s : TaskState) : Prop where
  version : s.version = labels.length
  sound : ∀ task, s.task = some task → Sound task s.approvals
  since : ∀ id, s.Open id → ∃ opened, s.pendingSince[id]? = some opened ∧ OpenSince rules labels s id opened
  closed : ∀ id, ¬ s.Open id → s.pendingSince[id]? = none
  decisions : Used (labels.filterMap (·.1.event.decision)) s.decisions
  grants : Used (labels.filterMap (·.1.event.grant)) s.approvals

theorem filterMap_concat {f : Label → Option String} (labels : List Label) (label : Label) :
    (labels ++ [label]).filterMap f = labels.filterMap f ++ (f label).toList := by
  rw [filterMap_append]
  cases hf : f label with
  | none => rw [filterMap_cons_none hf]; rfl
  | some id => rw [filterMap_cons_some hf]; rfl

theorem Inv.default : Inv rules [] .default := by
  refine ⟨rfl, fun task htask => absurd htask.symm (some_ne_none task), fun id hopen => ?_, fun id _ => ?_,
    ⟨nodup_nil, ?_⟩, ⟨nodup_nil, ?_⟩⟩
  · obtain ⟨task, htask, -⟩ := hopen
    cases htask
  · exact Std.ExtTreeMap.getElem?_empty
  · intro id
    exact ⟨nofun, fun h => absurd h Std.ExtTreeSet.not_mem_empty⟩
  · intro id
    exact ⟨nofun, fun h => absurd h Std.ExtTreeSet.not_mem_empty⟩

theorem Inv.begins (h : Inv rules labels s) (hbegins : Begins s label.1 s' task) : Inv rules
    (labels ++ [label]) s' := by
  obtain rfl := hbegins.next
  have hclosed : ∀ id, ¬ TaskState.Open { s with task := some task } id := by
    rintro id ⟨other, hother, step, hstep, -, hopen⟩
    cases hother
    rw [needsMe_eq_none hbegins.closed hstep] at hopen
    cases hopen
  have hunset : ∀ id, ¬ s.Open id := by
    rintro id ⟨other, hother, -⟩
    exact absurd (hbegins.unset.symm.trans hother) nofun
  have hzero : labels.length = 0 := by
    rw [← h.version]
    unfold TaskState.version
    rw [hbegins.unset]
    rfl
  refine ⟨?_, fun other hother => ?_, fun id hopen => absurd hopen (hclosed id), fun id _ => h.closed id (hunset id),
    ?_, ?_⟩
  · rw [length_append, hzero]
    exact hbegins.version
  · cases hother
    exact hbegins.sound
  · rw [filterMap_concat, hbegins.decision]
    exact h.decisions.extend (.none _)
  · rw [filterMap_concat, hbegins.grant]
    exact h.grants.extend (.none _)

theorem Sound.withVersion (h : Sound task approvals) (version : ℕ) :
    Sound { task with version } approvals :=
  ⟨h.shaped, h.needsMe, h.terminal, h.unused, h.proposed, h.unaccepted⟩

theorem Advances.open_iff (h : Advances s event signer s' task next)
    (id : String) : s'.Open id ↔ Tasks.Open next.steps id := by
  constructor
  · rintro ⟨other, hother, hopen⟩
    cases h.settled.symm.trans hother
    exact hopen
  · intro hopen
    exact ⟨_, h.settled, hopen⟩

open Classical in
theorem Inv.advances (h : Inv rules labels s) (hrun : Run (Accepts rules) .default labels s)
    (hstep : Accepts rules s label s')
    (hvalid : validateBody rules label.1.conversationId label.1.event = .ok ())
    (hadv : Advances s label.1 label.2 s' task next) : Inv rules (labels ++ [label]) s' := by
  obtain ⟨hsound, -, -, hdecision, hgrant⟩ :=
    react_ok (h.sound task hadv.current) hvalid hadv.reacts
  have hbefore : task.version = labels.length := by
    rw [← h.version]
    unfold TaskState.version
    rw [hadv.current]
    rfl
  have hvers : s'.version = task.version + 1 := by
    unfold TaskState.version
    rw [hadv.settled]
    rfl
  refine ⟨?_, fun other hother => ?_, fun id hopen => ?_, fun id hclosed => ?_, ?_, ?_⟩
  · rw [hvers, hbefore, length_append]
    rfl
  · cases hadv.settled.symm.trans hother
    exact hsound.withVersion _
  · have hnow : s'.pendingSince[id]? = some (s.pendingSince[id]?.getD (task.version + 1)) := by
      rw [hadv.tracked, trackPending_eq, if_pos ((hadv.open_iff id).mp hopen)]
    by_cases hold : s.Open id
    · -- still open: the revision is kept
      obtain ⟨opened, hsince, before, first, during, s₁, s₂, rfl, hbefore, hclosed, hfirst, hopened, hvers,
        hduring⟩ := h.since id hold
      rw [hsince] at hnow
      refine ⟨opened, hnow, before, first, during ++ [label], s₁, s₂, ?_, hbefore, hclosed, hfirst, hopened,
        hvers, hduring.snoc ⟨hstep, hopen⟩⟩
      rw [append_assoc (before ++ [first])]
    · rw [h.closed id hold] at hnow
      refine ⟨task.version + 1, hnow, labels, label, [], s, s', ?_, hrun, hold, hstep, hopen, hvers, .nil⟩
      rw [append_nil]
  · rw [hadv.tracked, trackPending_eq, if_neg fun hopen => hclosed ((hadv.open_iff id).mpr hopen)]
  · rw [filterMap_concat]
    exact h.decisions.extend hdecision
  · rw [filterMap_concat]
    exact h.grants.extend hgrant

theorem inv_of_run (hrun : Run (Accepts rules) .default labels s) : Inv rules labels s := by
  refine hrun.invariant (P := Inv rules) .default fun labels s label s' hrun hinv hstep => ?_
  obtain ⟨hvalid, ⟨task, hbegins⟩ | ⟨task, next, hadv⟩⟩ := apply_ok hstep
  · exact hinv.begins hbegins
  · exact hinv.advances hrun hstep hvalid hadv

/-- What an accepted event may do from a state that a run has reached. -/
structure SafeEvent (rules : TaskRules) (labels : List Label) (s : TaskState) (label : Label) (s' : TaskState) :
    Prop where
  version : s'.version = s.version + 1
  live : ∀ task, s.task = some task → task.state.isTerminal = false
  steps : ∀ task, s.task = some task → ∃ task', s'.task = some task' ∧
    ∀ step ∈ task.steps, ∃ step' ∈ task'.steps, step'.id = step.id ∧
      (step.state.isTerminal → step' = step) ∧
      (step.needsMe.isSome → step' ≠ step → label.2.actorType = .human ∧
        task.requester = some label.2.principalId ∧
        ((∃ v, label.1.event = .cancel v) ∨ ∃ v, label.1.event = .resolve v ∧ v.stepId = step.id ∧
          step.needsMe = some v.target ∧
          ∃ opened, OpenSince rules labels s step.id opened ∧ opened ≤ v.baseRevision))
  proposal : ∀ task, s.task = some task → task.accepted = false →
    ((∃ v, label.1.event = .accept v) ∨ ∃ v, label.1.event = .decline v) ∧ label.2.actorType = .human ∧
      task.proposer ≠ some label.2.principalId

theorem Inv.safeEvent (h : Inv rules labels s)
    (hstep : Accepts rules s label s') : SafeEvent rules labels s label s' := by
  obtain ⟨hvalid, ⟨task, hbegins⟩ | ⟨task, next, hadv⟩⟩ := apply_ok hstep
  · have hnone : ∀ (P : Task → Prop) task, s.task = some task → P task := by
      intro P task htask
      exact absurd (hbegins.unset.symm.trans htask) nofun
    refine ⟨?_, hnone _, hnone _, hnone _⟩
    unfold TaskState.version
    rw [hbegins.unset, hbegins.next]
    exact hbegins.version
  · have hsound := h.sound task hadv.current
    obtain ⟨-, hkept, hproposal, -, -⟩ := react_ok hsound hvalid hadv.reacts
    have honly : ∀ {P : Task → Prop}, P task → ∀ other, s.task = some other → P other := by
      intro P hP other hother
      cases hadv.current.symm.trans hother
      exact hP
    refine ⟨?_, honly hadv.live, honly ⟨_, hadv.settled, fun step hmem => ?_⟩, honly fun hfalse => ?_⟩
    · unfold TaskState.version
      rw [hadv.current, hadv.settled]
      rfl
    · obtain ⟨step', hmem', hid, hterm, hopen⟩ := hkept step hmem
      refine ⟨step', hmem', hid, hterm, fun hold hne => ?_⟩
      obtain ⟨hhuman, hreq, hcancel | ⟨v, hevent, hmatch, opened, hsince, hle⟩⟩ :=
        (hopen hold).resolve_left hne
      · exact ⟨hhuman, hreq, .inl hcancel⟩
      · obtain ⟨since, hsince', hopenSince⟩ := h.since step.id ⟨task, hadv.current, step, hmem, rfl, hold⟩
        cases hsince.symm.trans hsince'
        exact ⟨hhuman, hreq, .inr ⟨v, hevent, hmatch.1.symm, hmatch.2, opened, hopenSince, hle⟩⟩
    · obtain hproposed | hcancelled := hsound.unaccepted hfalse
      · exact hproposal hfalse (hsound.proposed hproposed).2
      · have hlive := hadv.live
        rw [hcancelled] at hlive
        cases hlive

/-- One revision for each event, an open intervention exactly when the task waits for one, no work left
in a terminal task, identifiers used once, and events that keep to their rules. -/
structure SafeRun (rules : TaskRules) (labels : List Label) (s : TaskState) : Prop where
  version : s.version = labels.length
  ids : ∀ task, s.task = some task → (task.steps.map (·.id)).Nodup
  needsMe : ∀ task, s.task = some task → (task.state = .needsMe ↔ pending task.steps = 1)
  terminal : ∀ task, s.task = some task → task.state.isTerminal →
    ∀ step ∈ task.steps, step.state.isTerminal ∧ step.needsMe = none
  decisions : (labels.filterMap (·.1.event.decision)).Nodup
  grants : (labels.filterMap (·.1.event.grant)).Nodup
  events : ∀ label s', Accepts rules s label s' → SafeEvent rules labels s label s'

/-- Every sequence of accepted events is safe. -/
theorem task_safety (rules : TaskRules) {labels : List Label} {s : TaskState}
    (hrun : Run (Accepts rules) .default labels s) : SafeRun rules labels s := by
  have hinv := inv_of_run hrun
  refine ⟨hinv.version, fun task htask => (hinv.sound task htask).shaped.ids,
    fun task htask => (hinv.sound task htask).needsMe, fun task htask hterm step hstep => ?_,
    hinv.decisions.nodup, hinv.grants.nodup, fun label s' => hinv.safeEvent⟩
  have hsound := hinv.sound task htask
  refine ⟨hsound.terminal hterm step hstep, needsMe_eq_none (hsound.closed fun hneeds => ?_) hstep⟩
  rw [hneeds] at hterm
  cases hterm

def applyAll (rules : TaskRules) (s : TaskState) (labels : List Label) : Except TaskReject TaskState :=
  labels.foldlM (fun s label => s.apply rules label.1 label.2) s

def lenient : TaskRules where
  blank _ := false
  firstLine text := text
  singleLineIsSafe _ := true
  freeTextIsSafe _ := true
  canonicalJsonBytes _ := .ok []
  signedBytes _ := .ok []
  verifySignedFields _ _ _ := .ok ()

def chatEvent (body : TaskEventBody) : TaskEvent :=
  ⟨taskEventSchema, 1, taskEventDomain, ∅, ⟨"key", ""⟩, "chat", body⟩

/-- A task that asks for an approval, gets it and goes on. -/
def approvedTask : List Label :=
  let person : TaskSigner := ⟨"person", .human, "key", ""⟩
  let agent : TaskSigner := ⟨"agent", .bot, "key", ""⟩
  [(chatEvent (.start ⟨"task", "chat", "person", "agent", "work", none⟩), person),
    (chatEvent (.update ⟨"task", 2, .needsMe, [⟨"step", "ask", .needsMe, some (.approval "grant")⟩], none, none⟩),
      agent),
    (chatEvent (.resolve ⟨"task", 2, "step", .approval "grant", "decision", .resume⟩), person)]

theorem approvedTask_isSome : (applyAll lenient .default approvedTask).toOption.isSome := by
  decide +kernel

theorem task_safety_approved : (approvedTask.filterMap (·.1.event.grant)) = ["grant"] ∧
    SafeRun lenient approvedTask ((applyAll lenient .default approvedTask).toOption.get approvedTask_isSome) :=
  ⟨rfl, task_safety lenient (.of_foldlM (eq_ok_get approvedTask_isSome))⟩

end Ramflux.Tasks
