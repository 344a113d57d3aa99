import Ramflux.Lib.Custody
import Ramflux.Node.PublicationPrefix

/-! Replay resources of a publication core: what each step does to the custody of one. -/
namespace Ramflux.Publication
open OrdMap List Std.ExtTreeMap Option Custody

namespace Shared

def custody (s : Shared) (r : String) : Custody Child where
  holds := s.registry.resourcesSeen[r]?
  owners := s.registry.resources[r]?
  delivered := decide (r ∈ s.registry.resourcesPublished)
  cleanups := s.replayCleanups.count r

section
variable (s : Shared) (resource r : String)

theorem custody_referenceResource (held : Bool) : (s.referenceResource resource held).custody r =
    if resource = r then (s.custody r).exec (.refer held) else s.custody r := by
  unfold custody referenceResource Custody.exec
  rw [getElem?_insert_eq]
  by_cases heq : resource = r
  · subst heq
    simp only [if_true]
    cases held with
    | false => simp
    | true =>
      by_cases hpub : resource ∈ s.registry.resourcesPublished
      · simp [hpub]
      · by_cases hseen : resource ∈ s.registry.resourcesSeen
        · simp [hpub, hseen]
        · simp [hseen]
  · simp only [if_neg heq]
    split_ifs <;> simp [heq]

theorem custody_markResourceIfNew (held : Bool) : (s.markResourceIfNew resource held).2.custody r =
    if resource = r ∧ held = false then (s.custody r).exec .hold else s.custody r := by
  cases held with
  | true => simp [markResourceIfNew]
  | false =>
    simp only [markResourceIfNew, custody, Custody.exec, and_true]
    rw [if_neg (by decide)]
    rw [getElem?_insert_eq]
    by_cases heq : resource = r
    · subst heq
      simp
    · simp [heq]

theorem custody_completeResource : (s.completeResource resource).custody r =
    if resource = r then (s.custody r).exec .attest else s.custody r := by
  unfold completeResource custody Custody.exec
  by_cases heq : resource = r
  · subst heq
    simp only [mem_iff_isSome_getElem?, if_true]
    split_ifs <;> simp
  · split_ifs <;> simp [heq]

def releaseWith (seen : OrdMap String ℕ) : Shared :=
  let s := { s with registry := { s.registry with resourcesSeen := seen } }
  if resource ∉ s.registry.resources ∧ (s.registry.resourcesSeen[resource]?.getD 0) = 0 then
    let s' := { s with registry := { s.registry with
      resourcesSeen := s.registry.resourcesSeen.erase resource
      resourcesPublished := s.registry.resourcesPublished.erase resource } }
    if resource ∈ s.registry.resourcesSeen ∧ resource ∉ s.registry.resourcesPublished then
      { s' with replayCleanups := s'.replayCleanups ++ [resource] }
    else s'
  else s

theorem exists_releaseWith : ∃ seen : OrdMap String ℕ, s.releaseHold resource = s.releaseWith resource seen ∧
    ∀ a : String, seen[a]? = if resource = a then s.registry.resourcesSeen[a]?.map (· - 1)
      else s.registry.resourcesSeen[a]? := by
  refine ⟨_, rfl, ?_⟩
  intro a
  cases hget : s.registry.resourcesSeen[resource]? with
  | none =>
    split_ifs with heq
    · subst heq
      simp [hget]
    · rfl
  | some count =>
    rw [getElem?_insert_eq]
    split_ifs with heq
    · subst heq
      simp [hget]
    · rfl

theorem custody_releaseHold : (s.releaseHold resource).custody r =
    if resource = r then (s.custody r).exec .release else s.custody r := by
  obtain ⟨seen, hrelease, hseen⟩ := s.exists_releaseWith resource
  have hlast : (resource ∉ s.registry.resources ∧ seen[resource]?.getD 0 = 0) ↔
      (s.custody resource).owners.isNone ∧ (s.custody resource).holds.getD 0 ≤ 1 := by
    rw [hseen, if_pos rfl]
    unfold custody
    cases s.registry.resourcesSeen[resource]? <;> simp [Nat.sub_eq_zero_iff_le]
  rw [hrelease]
  unfold releaseWith
  by_cases heq : resource = r
  · subst heq
    rw [if_pos rfl]
    by_cases hone : (s.custody resource).owners.isNone ∧ (s.custody resource).holds.getD 0 ≤ 1
    · rw [if_pos (hlast.mpr hone), exec_release_of_last hone]
      have hmarked : resource ∈ seen ↔ (s.custody resource).holds.isSome := by
        rw [mem_iff_isSome_getElem?, hseen, if_pos rfl, isSome_map]
        rfl
      by_cases hclean : resource ∈ seen ∧ resource ∉ s.registry.resourcesPublished
      · rw [if_pos hclean, if_pos ⟨hmarked.mp hclean.1, by simpa [custody] using hclean.2⟩]
        ext1 <;> simp [custody]
      · rw [if_neg hclean, if_neg]
        · ext1 <;> simp [custody]
        · rintro ⟨hheld, hpub⟩
          exact hclean ⟨hmarked.mpr hheld, by simpa [custody] using hpub⟩
    · rw [if_neg (mt hlast.mp hone), exec_release_of_more hone]
      ext1 <;> simp [custody, hseen]
  · have hkept : (seen.erase resource)[r]? = s.registry.resourcesSeen[r]? := by
      rw [getElem?_erase_of_ne _ heq, hseen, if_neg heq]
    dsimp only
    split_ifs <;> ext1 <;> simp [custody, hseen, heq, hkept]

theorem custody_cleanup (clean : Prop) [Decidable clean] :
    (if clean then { s with replayCleanups := s.replayCleanups ++ [resource] } else s).custody r =
      { s.custody r with
        cleanups := if clean ∧ resource = r then (s.custody r).cleanups + 1
          else (s.custody r).cleanups } := by
  by_cases hclean : clean
  · rw [if_pos hclean]
    by_cases heq : resource = r
    · rw [if_pos ⟨hclean, heq⟩]
      ext1 <;> simp [custody, heq]
    · ext1 <;> simp [custody, heq]
  · rw [if_neg hclean, if_neg fun h => hclean h.1]

/-- Resources that count as delivered once an owner leaves. -/
theorem mem_publishedSet (accepted : Bool) (published : OrdSet String) :
    r ∈ (if accepted then published.insert resource else published) ↔
      (accepted = true ∧ resource = r) ∨ r ∈ published := by
  cases accepted with
  | false | true => simp

theorem custody_releaseResource (child : Child) (accepted : Bool) :
    (releaseResource child accepted s resource).custody r =
      if resource = r then (s.custody r).exec (.give child accepted) else s.custody r := by
  unfold releaseResource
  cases hown : s.registry.resources[resource]? with
  | none =>
    by_cases heq : resource = r
    · subst heq
      rw [if_pos rfl, exec_give_of_none hown]
    · rw [if_neg heq]
  | some owners =>
    dsimp only
    by_cases hlast : (owners.erase child).isEmpty = true
    · rw [if_pos hlast]
      refine (custody_cleanup _ resource r _).trans ?_
      by_cases heq : resource = r
      · subst heq
        rw [if_pos rfl, exec_give_of_last (c := s.custody resource) hown hlast]
        unfold custody
        ext1
        · dsimp only
          split_ifs
          · exact getElem?_erase_self
          · rfl
        · exact getElem?_erase_self
        · by_cases hcount : s.registry.resourcesSeen[resource]?.getD 0 = 0
          · simp [hcount]
          · simp only [if_neg hcount]
            rw [Bool.eq_iff_iff]
            simp [mem_publishedSet, or_comm]
        · cases accepted <;> simp
      · rw [if_neg heq]
        unfold custody
        ext1
        · dsimp only
          split_ifs
          · exact getElem?_erase_of_ne _ heq
          · rfl
        · exact getElem?_erase_of_ne _ heq
        · split_ifs <;> simp [heq]
        · exact if_neg fun h => heq h.2
    · rw [if_neg hlast]
      by_cases heq : resource = r
      · subst heq
        rw [if_pos rfl, exec_give_of_more (c := s.custody resource) hown (by simpa using hlast)]
        ext1
        · rfl
        · exact getElem?_insert_self
        · rw [Bool.eq_iff_iff]
          simp [custody, mem_publishedSet, or_comm]
        · rfl
      · rw [if_neg heq]
        ext1
        · rfl
        · exact getElem?_insert_of_ne _ _ heq
        · simp [custody, mem_publishedSet, heq]
        · rfl

theorem custody_ownResource (child : Child) (registry : Registry) :
    { s with registry := ownResource child registry resource }.custody r =
      if resource = r then ({ s with registry }.custody r).exec (.own child)
      else { s with registry }.custody r := by
  unfold custody ownResource Custody.exec
  rw [getElem?_insert_eq, getElem?_insert_eq]
  by_cases heq : resource = r
  · subst heq
    simp
  · simp [heq]

end

section
variable (r : String)

/-- A loop over resources whose rounds are operations on the custody of each. -/
theorem custody_foldl {σ : Type} (view : σ → Custody Child) {f : σ → String → σ} {op : CustodyOp Child}
    (hf : ∀ s resource, view (f s resource) = if resource = r then (view s).exec op else view s) (s : σ)
    (resources : List String) :
    view (resources.foldl f s) = (view s).run (List.replicate (resources.count r) op) := by
  induction resources generalizing s with
  | nil => rfl
  | cons resource rest ih =>
    rw [foldl_cons, ih, hf]
    by_cases heq : resource = r
    · rw [if_pos heq, heq, count_cons_self, replicate_succ, run_cons]
    · rw [if_neg heq, count_cons_of_ne heq]

def ownOps (new : List Descriptor) : List (CustodyOp Child) :=
  new.flatMap fun d => List.replicate (d.resources.count r) (.own d.child)

theorem custody_allocateLoop (requests : List AssignmentReservation) {s s' : Shared}
    {guards guards' : List ℕ} (h : allocateLoop requests s guards = (.ok guards', s')) :
    ∃ new, s'.descriptors = s.descriptors ++ new ∧
      s'.custody r = (s.custody r).run (ownOps r new) := by
  induction requests generalizing s guards with
  | nil =>
    obtain ⟨-, rfl⟩ := Prod.mk.inj h
    exact ⟨[], by simp, rfl⟩
  | cons request rest ih =>
    unfold allocateLoop at h
    cases hinbox : s.registry.inboxes[request.key]? with
    | none => simp [hinbox] at h
    | some inbox =>
      rw [hinbox] at h
      obtain ⟨new, hdesc, hcust⟩ := ih h
      refine ⟨_, by rw [hdesc, descriptors_allocate, append_assoc], ?_⟩
      rw [hcust]
      have hfirst : (s.allocate request inbox).custody r = (s.custody r).run
          (List.replicate (request.resources.count r) (.own ⟨request.key, inbox.allocated + 1⟩)) :=
        custody_foldl r (fun registry => custody { s with registry } r)
          (fun registry resource => s.custody_ownResource resource r _ registry) _ _
      rw [hfirst, ← run_append]
      rfl

def publishOps (key : Key) (published : List (ℕ × List String)) : List (CustodyOp Child) :=
  published.flatMap fun entry => List.replicate (entry.2.count r) (.give ⟨key, entry.1⟩ true)

theorem custody_releasePublished (key : Key) (published : List (ℕ × List String)) (s : Shared) :
    (published.foldl (fun s entry => entry.2.foldl (releaseResource ⟨key, entry.1⟩ true) s) s).custody r =
      (s.custody r).run (publishOps r key published) := by
  induction published generalizing s with
  | nil => rfl
  | cons entry rest ih =>
    rw [foldl_cons, ih, custody_foldl r (custody · r) fun s resource => s.custody_releaseResource resource r _ _,
      ← run_append]
    rfl

def finishOps (s : Shared) (d : Descriptor) (aborted : Bool) : List (CustodyOp Child) :=
  (if aborted then List.replicate (d.resources.count r) (.give d.child false) else []) ++
    match s.registry.inboxes[d.key]? with
    | none => []
    | some inbox => publishOps r d.key (finishInbox inbox d aborted).2

theorem custody_finish (s : Shared) (d : Descriptor) (aborted : Bool) (hfence : s.fenced = false) :
    (s.finish d aborted).custody r = (s.custody r).run (s.finishOps r d aborted) := by
  unfold finish
  have hcleanup : (if aborted then
      { s with entryCleanups := s.entryCleanups ++ [(d.key.target, d.seq)] } else s).custody r =
        s.custody r ∧ SameInboxes s (if aborted then
      { s with entryCleanups := s.entryCleanups ++ [(d.key.target, d.seq)] } else s) := by
    split_ifs <;> exact ⟨rfl, rfl, rfl, rfl, rfl⟩
  generalize (if aborted then _ else s) = s₁ at hcleanup ⊢
  obtain ⟨hcust, hsame⟩ := hcleanup
  dsimp only
  rw [hsame.fenced, hfence, if_neg (by decide)]
  unfold finishLocked finishOps
  rw [run_append, ← hcust, ← hsame.inboxes]
  have hrelease : (if aborted then d.resources.foldl (releaseResource d.child false) s₁ else s₁).custody r =
      (s₁.custody r).run (if aborted then
        List.replicate (d.resources.count r) (.give d.child false) else []) ∧ SameInboxes s₁
      (if aborted then d.resources.foldl (releaseResource d.child false) s₁ else s₁) := by
    split_ifs
    · exact ⟨custody_foldl r (custody · r) (fun s resource => s.custody_releaseResource resource r _ _) _ _,
        .foldl (fun s resource => s.sameInboxes_releaseResource resource _ _) _ _⟩
    · exact ⟨rfl, .refl _⟩
  generalize (if aborted then d.resources.foldl (releaseResource d.child false) s₁ else s₁) = s₂
    at hrelease ⊢
  obtain ⟨hcustody₂, hsame₂⟩ := hrelease
  rw [← hcustody₂, ← hsame₂.inboxes]
  dsimp only
  cases s₂.registry.inboxes[d.key]? with
  | none => rfl
  | some inbox => exact custody_releasePublished r d.key _ _

def callOps : RegistryCall → List (CustodyOp Child)
  | .referenceResource resource held => if resource = r then [.refer held] else []
  | .markResourceIfNew resource held => if resource = r ∧ held = false then [.hold] else []
  | .completeUnassigned resources => List.replicate (resources.count r) .attest
  | .releaseUnallocated resources => List.replicate (resources.count r) .release
  | _ => []

theorem custody_exec (s : Shared) (c : RegistryCall) :
    (s.exec c).custody r = (s.custody r).run (callOps r c) := by
  cases c with
  | register target incarnation issued =>
    unfold Shared.exec
    dsimp only
    unfold register
    split_ifs <;> rfl
  | provisionalIncarnation target candidate =>
    unfold Shared.exec
    dsimp only
    unfold provisionalIncarnation
    cases s.current target with
    | none => rfl
    | some row =>
      dsimp only
      split_ifs <;> rfl
  | commitSettled target incarnation settled =>
    unfold Shared.exec
    dsimp only
    unfold commitSettled
    cases s.registry.inboxes[(⟨target, incarnation⟩ : Key)]? <;> rfl
  | referenceResource resource held =>
    refine (s.custody_referenceResource resource r held).trans ?_
    unfold callOps
    dsimp only
    split_ifs <;> rfl
  | markResourceIfNew resource held =>
    refine (s.custody_markResourceIfNew resource r held).trans ?_
    unfold callOps
    dsimp only
    split_ifs <;> rfl
  | completeUnassigned resources =>
    exact custody_foldl r (custody · r) (fun s resource => s.custody_completeResource resource r) s resources
  | releaseUnallocated resources =>
    exact custody_foldl r (custody · r) (fun s resource => s.custody_releaseHold resource r) s resources

end
end Shared

def stepOps (r : String) (s s' : Shared) : Event → List (CustodyOp Child)
  | .call c => Shared.callOps r c
  | .reserveBatch _ _ => Shared.ownOps r (s'.descriptors.drop s.descriptors.length)
  | .descriptor id (.finish aborted) =>
    match s.descriptors[id]? with
    | none => []
    | some d => s.finishOps r d aborted
  | _ => []

theorem stepOps_finish {r : String} {s s' : Shared} {id : ℕ} {d : Descriptor} {aborted : Bool}
    (hd : s.descriptors[id]? = some d) :
    stepOps r s s' (.descriptor id (.finish aborted)) = s.finishOps r d aborted := by
  unfold stepOps
  dsimp only
  rw [hd]

theorem Step.custody {s s' : System} {event : Event} (h : Step s event s')
    (hfence : s.shared.fenced = false) (r : String) :
    s'.shared.custody r = (s.shared.custody r).run (stepOps r s.shared s'.shared event) := by
  cases h with
  | call c => exact s.shared.custody_exec r c
  | @reserveBatch requests guards shared hbatch =>
    have hloop : ∃ new, shared.descriptors = s.shared.descriptors ++ new ∧
        shared.custody r = (s.shared.custody r).run (Shared.ownOps r new) := by
      unfold Shared.reserveBatch at hbatch
      split_ifs at hbatch with hstopping hfenced
      · simp at hbatch
      · simp at hbatch
      · cases hcheck : (Shared.needed requests).toList.forM
          (fun row => s.shared.checkNeeded row.1 row.2) with
        | error e => simp [hcheck] at hbatch
        | ok u =>
          rw [hcheck] at hbatch
          exact Shared.custody_allocateLoop r requests hbatch
    obtain ⟨new, hdesc, hcust⟩ := hloop
    unfold stepOps
    rw [hdesc, drop_left, hcust]
  | finishAccepted _ hd | finishAborted _ hd =>
    rw [stepOps_finish hd]
    exact s.shared.custody_finish r _ _ hfence
  | _ => rfl

end Ramflux.Publication
