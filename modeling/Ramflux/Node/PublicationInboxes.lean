import Mathlib.Data.String.Basic
import Mathlib.Order.Interval.Finset.Nat
import Ramflux.Node.PublicationOutcome
import Ramflux.Node.PublicationRanges

/-! What the steps of a core do to its inboxes, and the invariant of a single inbox. -/
namespace Ramflux.Publication
open OrdMap List Std.ExtTreeMap Shared

theorem isLE_compare_empty (name : String) : (compare "" name).isLE := by
  show (compareOfLessAndEq "" name).isLE
  unfold compareOfLessAndEq
  split_ifs with hlt heq
  · rfl
  · rfl
  · rw [String.lt_iff_toList_lt] at hlt
    cases hname : name.toList with
    | nil => exact absurd (String.toList_inj.mp ((rfl : "".toList = []).trans hname.symm)) heq
    | cons c cs =>
      rw [hname] at hlt
      exact absurd List.Lex.nil hlt

theorem Key.isLE_target {a b : Key} (h : (compare a b).isLE) : (compare a.target b.target).isLE := by
  change ((compare a.target b.target).then (compare a.incarnation b.incarnation)).isLE at h
  cases hcmp : compare a.target b.target <;> simp_all

namespace Shared

variable {s : Shared} {target : String}

theorem current_eq_some {key : Key} {inbox : Inbox} (h : s.current target = some (key, inbox)) :
    s.registry.inboxes[key]? = some inbox ∧ key.target = target := by
  unfold current at h
  rw [Option.filter_eq_some_iff] at h
  exact ⟨(firstFrom?_eq_some _ h.1).1, by simpa using h.2⟩

/-- The search from the empty incarnation finds every target that has an inbox. -/
theorem current_eq_none (h : s.current target = none) :
    ∀ key ∈ s.registry.inboxes, key.target ≠ target := by
  rintro key hkey rfl
  have hle : (compare (⟨key.target, ""⟩ : Key) key).isLE := by
    change ((compare key.target key.target).then (compare "" key.incarnation)).isLE
    rw [show compare key.target key.target = .eq from Std.ReflCmp.compare_self]
    exact isLE_compare_empty _
  unfold current at h
  cases hfirst : s.registry.inboxes.firstFrom? ⟨key.target, ""⟩ with
  | none => exact firstFrom?_eq_none _ hfirst key hkey hle
  | some row =>
    obtain ⟨found, inbox⟩ := row
    obtain ⟨-, hfrom, hmin⟩ := firstFrom?_eq_some _ hfirst
    have hge := Key.isLE_target hfrom
    have hfound : compare found.target key.target = .eq :=
      Std.OrientedCmp.isLE_antisymm (Key.isLE_target (hmin key hkey hle)) hge
    have hfound := Std.LawfulEqCmp.eq_of_compare hfound
    rw [hfirst] at h
    simp [hfound] at h

end Shared

/-- Numbers of an inbox agree with its assignments in flight. -/
structure Inbox.Sound (inbox : Inbox) : Prop where
  reservations : inbox.reservations = inbox.inFlight.size
  above : ∀ seq ∈ inbox.inFlight, inbox.published < seq ∧ seq ≤ inbox.allocated
  next : inbox.inFlight ≠ ∅ → inbox.published + 1 ∈ inbox.inFlight
  all : inbox.inFlight = ∅ → inbox.published = inbox.allocated

namespace Inbox
variable {inbox inbox' : Inbox}

theorem Sound.le (h : inbox.Sound) : inbox.published ≤ inbox.allocated := by
  by_cases hempty : inbox.inFlight = ∅
  · exact (h.all hempty).le
  · have := (h.above _ (h.next hempty)).2
    omega

def registered (inbox : Inbox) (issued : ℕ) : Inbox :=
  let inbox := { inbox with identityDurable := true, allocated := max inbox.allocated issued }
  if inbox.inFlight.isEmpty then { inbox with published := inbox.allocated } else inbox

def settle (inbox : Inbox) (settled : ℕ) : Inbox :=
  { inbox with
    committedSettled := max inbox.committedSettled settled
    aborted := trimRanges settled inbox.aborted }

section
variable (inbox) (issued : ℕ)

theorem registered_fields : (inbox.registered issued).inFlight = inbox.inFlight ∧
    (inbox.registered issued).aborted = inbox.aborted ∧
    (inbox.registered issued).committedSettled = inbox.committedSettled ∧
    (inbox.registered issued).reservations = inbox.reservations ∧
    (inbox.registered issued).allocated = max inbox.allocated issued ∧
    (inbox.registered issued).published =
      if inbox.inFlight = ∅ then max inbox.allocated issued else inbox.published := by
  unfold registered
  by_cases hempty : inbox.inFlight = ∅
  · simp [hempty]
  · have : inbox.inFlight.isEmpty = false := by
      rw [Bool.eq_false_iff, ne_eq, Std.ExtTreeMap.isEmpty_iff]
      exact hempty
    simp [hempty, this]

end

theorem Sound.registered (h : inbox.Sound) (issued : ℕ) : (inbox.registered issued).Sound := by
  obtain ⟨hflight, -, -, hres, halloc, hpub⟩ := inbox.registered_fields issued
  constructor
  · rw [hres, hflight, h.reservations]
  · intro seq hseq
    rw [hflight] at hseq
    have habove := h.above seq hseq
    have hne : inbox.inFlight ≠ ∅ := by
      intro hempty
      simp [hempty] at hseq
    rw [hpub, halloc, if_neg hne]
    omega
  · intro hne
    rw [hflight] at hne
    rw [hflight, hpub, if_neg hne]
    exact h.next hne
  · intro hempty
    rw [hflight] at hempty
    rw [hpub, halloc, if_pos hempty]

theorem Sound.settle (h : inbox.Sound) (settled : ℕ) : (inbox.settle settled).Sound :=
  ⟨h.reservations, h.above, h.next, h.all⟩

theorem sound_new : Inbox.new.Sound := by
  constructor <;> simp [Inbox.new]

theorem Sound.reserved (h : inbox.Sound) {key : Key} {count base : ℕ} {new : List Descriptor}
    (hres : InboxReserved key count base new inbox inbox') : inbox'.Sound := by
  have hmem : ∀ seq, seq ∈ inbox'.inFlight ↔
      seq ∈ inbox.inFlight ∨ inbox.allocated < seq ∧ seq ≤ inbox.allocated + count := by
    intro seq
    rw [mem_iff_exists, mem_iff_exists]
    by_cases hnew : inbox.allocated < seq ∧ seq ≤ inbox.allocated + count
    · obtain ⟨i, d, hget, -⟩ := hres.added seq hnew.1 hnew.2
      simp [hget, hnew]
    · rw [hres.old seq (by omega)]
      simp [hnew]
  have hpub : inbox'.published = inbox.published := by rw [hres.unchanged]
  have halloc : inbox'.allocated = inbox.allocated + count := by rw [hres.unchanged]
  constructor
  · have hold : inbox.inFlight.size = inbox.inFlight.keys.toFinset.card :=
      size_eq_card fun seq => by simp
    have hsize : inbox'.inFlight.size = (inbox.inFlight.keys.toFinset ∪
        Finset.Ioc inbox.allocated (inbox.allocated + count)).card :=
      size_eq_card fun seq => by simp [hmem]
    rw [hres.unchanged]
    rw [hsize, Finset.card_union_of_disjoint, ← hold, h.reservations, Nat.card_Ioc,
      Nat.add_sub_cancel_left]
    rw [Finset.disjoint_left]
    intro seq hseq hnew
    have hle := (h.above seq (by simpa using hseq)).2
    rw [Finset.mem_Ioc] at hnew
    omega
  · intro seq hseq
    have hle := h.le
    rcases (hmem seq).mp hseq with hold | hnew
    · have := h.above seq hold
      omega
    · omega
  · intro hne
    rw [hmem, hpub]
    by_cases hempty : inbox.inFlight = ∅
    · have hall := h.all hempty
      have hpos : 0 < count := by
        by_contra hzero
        apply hne
        apply Std.ExtTreeMap.ext_getElem?
        intro seq
        rw [hres.old seq (by omega), hempty]
      omega
    · exact .inl (h.next hempty)
  · intro hempty
    have hzero : count = 0 := by
      by_contra hpos
      have := (hmem (inbox.allocated + 1)).mpr (.inr (by omega))
      simp [hempty] at this
    have hold : inbox.inFlight = ∅ := by
      by_contra hne
      have := (hmem _).mpr (.inl (h.next hne))
      simp [hempty] at this
    rw [hpub, halloc, h.all hold, hzero]
    rfl

section
variable (inbox) (d : Descriptor) (aborted : Bool)

theorem finishInbox_fields : (finishInbox inbox d aborted).1.inFlight = inbox.inFlight.erase d.seq ∧
    (finishInbox inbox d aborted).1.allocated = inbox.allocated ∧
    (finishInbox inbox d aborted).1.committedSettled = inbox.committedSettled ∧
    (finishInbox inbox d aborted).1.reservations = inbox.reservations - 1 ∧
    (finishInbox inbox d aborted).1.aborted =
      (if aborted then coalesce inbox.aborted d.seq d.seq else inbox.aborted) ∧
    (finishInbox inbox d aborted).1.published = match first? (inbox.inFlight.erase d.seq) with
      | none => inbox.allocated
      | some (seq, _) => seq - 1 :=
  ⟨rfl, rfl, rfl, rfl, rfl, rfl⟩

variable {inbox}

/-- Finishing an assignment in flight keeps the prefix contiguous and never takes it back. -/
theorem Sound.finish (h : inbox.Sound) (hmem : d.seq ∈ inbox.inFlight) :
    (finishInbox inbox d aborted).1.Sound ∧
      inbox.published ≤ (finishInbox inbox d aborted).1.published := by
  obtain ⟨hflight, halloc, -, hres, -, hpub⟩ := finishInbox_fields inbox d aborted
  generalize (finishInbox inbox d aborted).1 = inbox' at *
  have hsub : ∀ seq ∈ inbox.inFlight.erase d.seq, seq ∈ inbox.inFlight :=
    fun seq hseq => mem_of_mem_erase hseq
  have hsize : inbox'.reservations = inbox'.inFlight.size := by
    rw [hres, hflight, h.reservations, size_erase, if_pos (contains_iff_mem.mpr hmem)]
  cases hfirst : first? (inbox.inFlight.erase d.seq) with
  | none =>
    have hempty := (first?_eq_none_iff _).mp hfirst
    rw [hfirst] at hpub
    rw [hempty] at hflight
    refine ⟨⟨hsize, ?_, ?_, ?_⟩, ?_⟩
    · intro seq hseq
      simp [hflight] at hseq
    · intro hne
      exact absurd hflight hne
    · intro _
      rw [hpub, halloc]
    · rw [hpub]
      exact h.le
  | some row =>
    obtain ⟨seq, id⟩ := row
    rw [hfirst] at hpub
    have hpub : inbox'.published = seq - 1 := hpub
    obtain ⟨hget, hmin⟩ := (first?_eq_some_iff _ _ _).mp hfirst
    simp only [Nat.isLE_compare] at hmin
    have hin : seq ∈ inbox.inFlight.erase d.seq := mem_of_eq_some hget
    have habove := h.above seq (hsub seq hin)
    refine ⟨⟨hsize, ?_, ?_, ?_⟩, by omega⟩
    · intro seq' hseq'
      rw [hflight] at hseq'
      have hle := hmin seq' hseq'
      have hup := h.above seq' (hsub seq' hseq')
      omega
    · intro _
      rw [hflight, hpub, Nat.sub_add_cancel (by omega)]
      exact hin
    · intro hempty
      rw [← hflight, hempty] at hin
      simp at hin

end

end Inbox

namespace Shared

def assignments (s : Shared) : List (Child × List String) :=
  s.descriptors.map fun d => (d.child, d.resources)

def children (s : Shared) : List Child := s.descriptors.map Descriptor.child

theorem children_eq (s : Shared) : s.children = s.assignments.map (·.1) := by
  unfold children assignments
  rw [List.map_map]
  rfl

theorem assignments_modify (descriptors : List Descriptor) (id : ℕ) {f : Descriptor → Descriptor}
    (hf : ∀ d, ((f d).child, (f d).resources) = (d.child, d.resources)) :
    (descriptors.modify id f).map (fun d => (d.child, d.resources)) =
      descriptors.map fun d => (d.child, d.resources) := by
  apply List.ext_getElem?
  intro i
  rw [getElem?_map, getElem?_map, getElem?_modify]
  cases descriptors[i]? with
  | none => rfl
  | some d =>
    simp only [Option.map_eq_map, Option.map_some]
    split_ifs
    · rw [hf]
    · rfl

theorem exec_inboxes (s : Shared) (c : RegistryCall) :
    (s.exec c).registry.inboxes = s.registry.inboxes ∨
      (∃ target incarnation issued, c = .register target incarnation issued ∧
        ((⟨target, incarnation⟩ : Key) ∈ s.registry.inboxes ∨
          ∀ key ∈ s.registry.inboxes, key.target ≠ target) ∧
        (s.exec c).registry.inboxes = s.registry.inboxes.insert ⟨target, incarnation⟩
          ((s.registry.inboxes[(⟨target, incarnation⟩ : Key)]?.getD .new).registered issued)) ∨
      (∃ target incarnation, (∀ key ∈ s.registry.inboxes, key.target ≠ target) ∧
        (s.exec c).registry.inboxes = s.registry.inboxes.insert ⟨target, incarnation⟩ .new) ∨
      ∃ key inbox settled, s.registry.inboxes[key]? = some inbox ∧
        (s.exec c).registry.inboxes = s.registry.inboxes.insert key (inbox.settle settled) := by
  cases c with
  | register target incarnation issued =>
    have hexec : s.exec (.register target incarnation issued) =
      (s.register target incarnation issued).2 := rfl
    rw [hexec]
    unfold register
    split_ifs with hstopping hmismatch
    · exact .inl rfl
    · exact .inl rfl
    · refine .inr (.inl ⟨target, incarnation, issued, rfl, ?_, rfl⟩)
      cases hcur : s.current target with
      | none => exact .inr (current_eq_none hcur)
      | some row =>
        obtain ⟨key, inbox⟩ := row
        obtain ⟨hget, htgt⟩ := current_eq_some hcur
        rw [hcur] at hmismatch
        have hkey : key.incarnation = incarnation := by
          by_contra hne
          simp [hne] at hmismatch
        left
        rw [← htgt, ← hkey]
        exact mem_of_eq_some hget
  | provisionalIncarnation target candidate =>
    have hexec : s.exec (.provisionalIncarnation target candidate) =
      (s.provisionalIncarnation target candidate).2 := rfl
    rw [hexec]
    unfold provisionalIncarnation
    cases hcur : s.current target with
    | none => exact .inr (.inr (.inl ⟨target, candidate, current_eq_none hcur, rfl⟩))
    | some row =>
      left
      dsimp only
      split_ifs <;> rfl
  | commitSettled target incarnation settled =>
    have hexec : s.exec (.commitSettled target incarnation settled) =
      s.commitSettled target incarnation settled := rfl
    rw [hexec]
    unfold commitSettled
    cases hinbox : s.registry.inboxes[(⟨target, incarnation⟩ : Key)]? with
    | none => exact .inl rfl
    | some inbox => exact .inr (.inr (.inr ⟨_, inbox, settled, hinbox, rfl⟩))
  | referenceResource resource held =>
    exact .inl (s.sameInboxes_referenceResource resource held).inboxes
  | markResourceIfNew resource held =>
    exact .inl (s.sameInboxes_markResourceIfNew resource held).inboxes
  | completeUnassigned resources =>
    exact .inl (SameInboxes.foldl sameInboxes_completeResource s resources).inboxes
  | releaseUnallocated resources =>
    exact .inl (SameInboxes.foldl sameInboxes_releaseHold s resources).inboxes

end Shared

/-- Events that leave the inboxes, the assignments and the resources alone. -/
def Event.Quiet : Event → Prop
  | .call _ | .reserveBatch _ _ | .descriptor _ (.finish _) => False
  | _ => True

variable {event : Event}

theorem Event.Quiet.not_finish (h : event.Quiet) (id : ℕ) (aborted : Bool) :
    .finish aborted ∉ event.about id := by
  cases event with
  | descriptor id' e =>
    intro hmem
    by_cases heq : id' = id
    · rw [heq, Event.about_descriptor_self, mem_singleton] at hmem
      subst hmem
      exact h
    · rw [Event.about_descriptor_of_ne heq] at hmem
      exact not_mem_nil hmem
  | call c | reserveBatch requests guards => exact h.elim
  | _ => exact not_mem_nil

/-- What a step does to the inboxes and to the assignments. -/
inductive Effect (s s' : Shared) : Event → Prop
  | quiet {event : Event} (hevent : event.Quiet) (hinboxes : s'.registry.inboxes = s.registry.inboxes)
      (hassigned : s'.assignments = s.assignments) : Effect s s' event
  | call (c : RegistryCall) (h : s' = s.exec c) : Effect s s' (.call c)
  | reserve {requests : List AssignmentReservation} {guards : List ℕ} {new : List Descriptor}
      (hadmits : s.Admits requests) (h : Reserved requests s s' new) :
      Effect s s' (.reserveBatch requests guards)
  | finish {id : ℕ} {d : Descriptor} {aborted : Bool} (hd : s.descriptors[id]? = some d)
      (h : s' = s.finish d aborted) : Effect s s' (.descriptor id (.finish aborted))

theorem Step.effect {s s' : System} (h : Step s event s') : Effect s.shared s'.shared event := by
  have hstate : ∀ (id : ℕ) (byte : StateByte),
      (s.shared.setState id byte).assignments = s.shared.assignments :=
    fun id _ => assignments_modify _ id fun _ => rfl
  cases h with
  | call c => exact .call c rfl
  | @reserveBatch requests guards shared hbatch =>
    rcases s.shared.reserveBatch_cases requests with ⟨e, he⟩ | ⟨s', new, hadmits, -, -, hok, hres⟩
    · rw [he] at hbatch
      simp at hbatch
    · rw [hok] at hbatch
      obtain rfl : s' = shared := (Prod.mk.inj hbatch).2
      exact .reserve hadmits hres
  | detach id => exact .quiet trivial rfl (assignments_modify _ id fun _ => rfl)
  | handOff _ | definiteNonWrite _ | storeAccepted _ | drop _ _ | claim _ _ | storeAborted _ =>
    exact .quiet trivial rfl (hstate _ _)
  | finishAccepted _ hd | finishAborted _ hd => exact .finish hd rfl
  | _ => exact .quiet trivial rfl rfl

end Ramflux.Publication
