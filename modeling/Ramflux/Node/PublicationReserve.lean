import Ramflux.Node.Publication
import Ramflux.Lib.Fallible

/-! A batch reservation changes nothing when refused, and otherwise gives inboxes their next sequences
in the order of the requests. -/
namespace Ramflux.Publication
open OrdMap List Option

def requested (requests : List AssignmentReservation) (key : Key) : ℕ :=
  requests.countP (·.key = key)

def sequences (descriptors : List Descriptor) (key : Key) : List ℕ :=
  (descriptors.filter (·.key = key)).map (·.seq)

section
variable (request : AssignmentReservation) (requests : List AssignmentReservation) (key : Key)

theorem requested_cons :
    requested (request :: requests) key = requested requests key + if request.key = key then 1 else 0 := by
  simp [requested, countP_cons]

theorem sequences_cons (d : Descriptor) (ds : List Descriptor) : sequences (d :: ds) key =
    if d.key = key then d.seq :: sequences ds key else sequences ds key := by
  unfold sequences
  by_cases heq : d.key = key
  · rw [filter_cons_of_pos (by simpa using heq), map_cons, if_pos heq]
  · rw [filter_cons_of_neg (by simpa using heq), if_neg heq]

end

namespace Shared

variable (requests : List AssignmentReservation) {new : List Descriptor}

theorem getElem?_needed (key : Key) : (needed requests)[key]? =
    if requested requests key = 0 then none else some (requested requests key) := by
  have hfold : ∀ (requests : List AssignmentReservation) (m : OrdMap Key ℕ),
      (requests.foldl (fun needed r => needed.upsert r.key fun count => count.getD 0 + 1) m)[key]? =
        if requested requests key = 0 then m[key]?
        else some (m[key]?.getD 0 + requested requests key) := by
    intro requests
    induction requests with
    | nil =>
      simp [requested]
    | cons request rest ih =>
      intro m
      rw [foldl_cons, ih, requested_cons, upsert, getElem?_insert_eq]
      by_cases heq : request.key = key
      · subst heq
        by_cases hzero : requested rest request.key = 0
        · simp [hzero]
        · simp [hzero]
          omega
      · simp [heq]
  rw [needed, hfold]
  simp

/-- A batch is admitted if every inbox passes the check for all its requests at once. -/
def Admits (s : Shared) (requests : List AssignmentReservation) : Prop :=
  ∀ key, 0 < requested requests key → s.checkNeeded key (requested requests key) = .ok ()

theorem admits_iff (s : Shared) (requests : List AssignmentReservation) :
    (needed requests).toList.forM (fun row => s.checkNeeded row.1 row.2) = .ok () ↔
      s.Admits requests := by
  rw [Fallible.forM_eq_ok]
  constructor
  · intro h key hpos
    have hrow : (needed requests)[key]? = some (requested requests key) := by
      rw [getElem?_needed, if_neg hpos.ne']
    exact h (key, requested requests key) (mem_toList_iff.mpr hrow)
  · rintro h ⟨key, count⟩ hrow
    rw [mem_toList_iff, getElem?_needed] at hrow
    split_ifs at hrow with hzero
    cases hrow
    exact h key (Nat.pos_of_ne_zero hzero)

/-- What an admitted inbox has room for. -/
theorem checkNeeded_ok {s : Shared} {key : Key} {count : ℕ} (h : s.checkNeeded key count = .ok ())
    (hpos : 0 < count) : ∃ inbox, s.registry.inboxes[key]? = some inbox ∧ inbox.retired = false ∧
      inbox.aborted.size + inbox.reservations + count ≤ abortedRangeCapacity ∧
      inbox.allocated + count ≤ u64Max := by
  unfold checkNeeded at h
  cases hinbox : s.registry.inboxes[key]? with
  | none => simp [hinbox] at h
  | some inbox =>
    rw [hinbox] at h
    dsimp only at h
    split_ifs at h with hretired hfull hover
    refine ⟨inbox, rfl, by simpa using hretired, by omega, by omega⟩

/-- The inbox after `count` allocations, with descriptors of `new` from number `base` on. -/
structure InboxReserved (key : Key) (count base : ℕ) (new : List Descriptor) (inbox inbox' : Inbox) :
    Prop where
  unchanged : inbox' = { inbox with
    allocated := inbox.allocated + count
    reservations := inbox.reservations + count
    inFlight := inbox'.inFlight }
  old : ∀ seq, seq ≤ inbox.allocated ∨ inbox.allocated + count < seq →
    inbox'.inFlight[seq]? = inbox.inFlight[seq]?
  added : ∀ seq, inbox.allocated < seq → seq ≤ inbox.allocated + count → ∃ i d,
    inbox'.inFlight[seq]? = some (base + i) ∧ new[i]? = some d ∧ d.key = key ∧ d.seq = seq

/-- Effect of the allocations of a batch; `new` are their descriptors. -/
structure Reserved (requests : List AssignmentReservation) (s s' : Shared) (new : List Descriptor) :
    Prop where
  descriptors : s'.descriptors = s.descriptors ++ new
  owners : new.map (fun d => (d.key, d.resources)) = requests.map fun r => (r.key, r.resources)
  fresh : ∀ d ∈ new, d.state = .plain .reservedNoWrite ∧ d.detached = false
  consecutive : ∀ (key : Key) (inbox : Inbox), s.registry.inboxes[key]? = some inbox →
    sequences new key = List.range' (inbox.allocated + 1) (requested requests key)
  present : ∀ (key : Key) (inbox : Inbox), s.registry.inboxes[key]? = some inbox → ∃ inbox',
    s'.registry.inboxes[key]? = some inbox' ∧
      InboxReserved key (requested requests key) s.descriptors.length new inbox inbox'
  absent : ∀ key : Key, s.registry.inboxes[key]? = none → s'.registry.inboxes[key]? = none
  flags : s'.stopping = s.stopping ∧ s'.fenced = s.fenced ∧ s'.entryCleanups = s.entryCleanups ∧
    s'.replayCleanups = s.replayCleanups

section
variable (s : Shared) (request : AssignmentReservation) (inbox : Inbox)

theorem inboxes_foldl_ownResource (child : Child) (resources : List String) (registry : Registry) :
    (resources.foldl (ownResource child) registry).inboxes = registry.inboxes :=
  foldlRecOn resources _ (motive := fun r : Registry => r.inboxes = _) rfl fun _ h _ _ => h

theorem getElem?_allocate (key : Key) : (s.allocate request inbox).registry.inboxes[key]? =
    if request.key = key then some { inbox with
      allocated := inbox.allocated + 1
      reservations := inbox.reservations + 1
      inFlight := inbox.inFlight.insert (inbox.allocated + 1) s.descriptors.length }
    else s.registry.inboxes[key]? := by
  unfold allocate
  rw [inboxes_foldl_ownResource, setInbox]
  exact getElem?_insert_eq _ _ _ _

theorem descriptors_allocate : (s.allocate request inbox).descriptors = s.descriptors ++
    [⟨request.key, inbox.allocated + 1, .plain .reservedNoWrite, false, request.resources⟩] := rfl

end

theorem Reserved.nil (s : Shared) : Reserved [] s s [] where
  descriptors := (append_nil _).symm
  owners := rfl
  fresh d hd := absurd hd not_mem_nil
  consecutive key inbox _ := rfl
  present key inbox h := by
    refine ⟨inbox, h, rfl, fun _ _ => rfl, ?_⟩
    intro seq hlt hle
    simp [requested] at hle
    omega
  absent key h := h
  flags := ⟨rfl, rfl, rfl, rfl⟩

/-- Allocations of a batch are those of its first request followed by the others. -/
theorem Reserved.cons {s s' : Shared} {request : AssignmentReservation}
    {rest : List AssignmentReservation} {inbox : Inbox}
    (hinbox : s.registry.inboxes[request.key]? = some inbox)
    (h : Reserved rest (s.allocate request inbox) s' new) : Reserved (request :: rest) s s'
      (⟨request.key, inbox.allocated + 1, .plain .reservedNoWrite, false, request.resources⟩ :: new) := by
  have hget := s.getElem?_allocate request inbox
  have hlen : (s.allocate request inbox).descriptors.length = s.descriptors.length + 1 := by
    rw [descriptors_allocate, length_append, length_singleton]
  constructor
  · rw [h.descriptors, descriptors_allocate, append_assoc]
    rfl
  · rw [map_cons, map_cons, h.owners]
  · intro d hd
    rcases mem_cons.mp hd with rfl | hd
    · exact ⟨rfl, rfl⟩
    · exact h.fresh d hd
  · intro key inbox₀ hkey
    rw [sequences_cons, requested_cons]
    by_cases heq : request.key = key
    · subst heq
      cases hinbox.symm.trans hkey
      rw [if_pos rfl, if_pos rfl, h.consecutive _ _ (by rw [hget, if_pos rfl]), range'_succ]
    · rw [if_neg heq, if_neg heq, h.consecutive key inbox₀ (by rw [hget, if_neg heq, hkey])]
      rfl
  · intro key inbox₀ hkey
    rw [requested_cons]
    by_cases heq : request.key = key
    · subst heq
      cases hinbox.symm.trans hkey
      obtain ⟨inbox', hinbox', hresv⟩ := h.present request.key _ (by rw [hget, if_pos rfl])
      rw [if_pos rfl]
      refine ⟨inbox', hinbox', ?_, ?_, ?_⟩
      · rw [hresv.unchanged]
        rw [Nat.add_right_comm, Nat.add_right_comm inbox.reservations]
        rfl
      · intro seq hseq
        rw [hresv.old seq (by dsimp only; omega), getElem?_insert_of_ne _ _ (by omega)]
      · intro seq hlt hle
        by_cases hfirst : seq = inbox.allocated + 1
        · refine ⟨0, _, ?_, rfl, rfl, hfirst.symm⟩
          rw [hresv.old seq (.inl hfirst.le), hfirst]
          exact Std.ExtTreeMap.getElem?_insert_self
        · obtain ⟨i, d, hid, hd, hdkey, hdseq⟩ :=
            hresv.added seq (by dsimp only; omega) (by dsimp only; omega)
          refine ⟨i + 1, d, ?_, hd, hdkey, hdseq⟩
          rw [hid, hlen, Nat.add_right_comm, Nat.add_assoc]
    · obtain ⟨inbox', hinbox', hresv⟩ :=
        h.present key inbox₀ (by rw [hget, if_neg heq, hkey])
      rw [if_neg heq]
      refine ⟨inbox', hinbox', hresv.unchanged, hresv.old, ?_⟩
      intro seq hlt hle
      obtain ⟨i, d, hid, hd, hdkey, hdseq⟩ := hresv.added seq hlt hle
      refine ⟨i + 1, d, ?_, hd, hdkey, hdseq⟩
      rw [hid, hlen, Nat.add_right_comm, Nat.add_assoc]
  · intro key hkey
    apply h.absent
    rw [hget, if_neg]
    · exact hkey
    · rintro rfl
      exact absurd (hinbox.symm.trans hkey) (some_ne_none inbox)
  · exact h.flags

theorem allocateLoop_ok (s : Shared) (guards : List ℕ)
    (h : ∀ r ∈ requests, r.key ∈ s.registry.inboxes) : ∃ s' new, allocateLoop requests s guards =
        (.ok (guards ++ List.range' s.descriptors.length requests.length), s') ∧
      Reserved requests s s' new := by
  induction requests generalizing s guards with
  | nil => exact ⟨s, [], by simp [allocateLoop], .nil s⟩
  | cons request rest ih =>
    obtain ⟨inbox, hinbox⟩ := mem_iff_exists.mp (h request mem_cons_self)
    have hrest : ∀ r ∈ rest, r.key ∈ (s.allocate request inbox).registry.inboxes := by
      intro r hr
      obtain ⟨inbox', hinbox'⟩ := mem_iff_exists.mp (h r (mem_cons_of_mem _ hr))
      rw [mem_iff_exists, getElem?_allocate]
      split_ifs
      · exact ⟨_, rfl⟩
      · exact ⟨inbox', hinbox'⟩
    obtain ⟨s', new, hloop, hresv⟩ :=
      ih (s.allocate request inbox) (guards ++ [s.descriptors.length]) hrest
    refine ⟨s', _, ?_, hresv.cons hinbox⟩
    rw [allocateLoop, hinbox]
    dsimp only
    rw [hloop, descriptors_allocate, length_append, length_singleton, append_assoc,
      length_cons, range'_succ]
    rfl

/-- A batch that is not refused passed every check. -/
theorem reserveBatch_cases (s : Shared) (requests : List AssignmentReservation) :
    (∃ e, s.reserveBatch requests = (.error e, s)) ∨
      ∃ s' new, s.Admits requests ∧ s.stopping = false ∧ s.fenced = false ∧
        s.reserveBatch requests = (.ok (List.range' s.descriptors.length requests.length), s') ∧
        Reserved requests s s' new := by
  unfold reserveBatch
  split_ifs with hstopping hfenced
  · exact .inl ⟨_, rfl⟩
  · exact .inl ⟨_, rfl⟩
  · cases hcheck : (needed requests).toList.forM (fun row => s.checkNeeded row.1 row.2) with
    | error e => exact .inl ⟨e, rfl⟩
    | ok u =>
      have hadmits := (s.admits_iff requests).mp hcheck
      have hknown : ∀ r ∈ requests, r.key ∈ s.registry.inboxes := by
        intro r hr
        have hpos : 0 < requested requests r.key :=
          countP_pos_iff.mpr ⟨r, hr, decide_eq_true rfl⟩
        obtain ⟨inbox, hinbox, -⟩ := checkNeeded_ok (hadmits r.key hpos) hpos
        exact mem_of_eq_some hinbox
      obtain ⟨s', new, hloop, hresv⟩ := allocateLoop_ok requests s [] hknown
      exact .inr ⟨s', new, hadmits, by simpa using hstopping, by simpa using hfenced,
        by rw [hloop, nil_append], hresv⟩

theorem Reserved.guards {requests : List AssignmentReservation} {s s' : Shared} (h : Reserved requests s s' new) :
    (List.range' s.descriptors.length requests.length).map (s'.descriptors[·]?) = new.map some := by
  have hlen : new.length = requests.length := by simpa using congrArg List.length h.owners
  apply ext_getElem?
  intro i
  rw [getElem?_map, getElem?_map, h.descriptors]
  by_cases hi : i < requests.length
  · rw [getElem?_range' hi, map_some, Nat.one_mul,
      getElem?_append_right (Nat.le_add_right _ _), Nat.add_sub_cancel_left,
      getElem?_eq_getElem (hlen ▸ hi)]
    rfl
  · rw [getElem?_eq_none (by simpa using hi), getElem?_eq_none (by omega)]
    rfl

/-- The inboxes a batch was reserved in stay within their capacity. -/
theorem Reserved.capacity {requests : List AssignmentReservation} {s s' : Shared} (h : Reserved requests s s' new)
    (hadmits : s.Admits requests) {key : Key} (hpos : 0 < requested requests key) {inbox' : Inbox}
    (hinbox' : s'.registry.inboxes[key]? = some inbox') :
    inbox'.aborted.size + inbox'.reservations ≤ abortedRangeCapacity ∧ inbox'.allocated ≤ u64Max := by
  obtain ⟨inbox, hinbox, -, hroom, hrange⟩ := checkNeeded_ok (hadmits key hpos) hpos
  obtain ⟨inbox'', hinbox'', hresv⟩ := h.present key inbox hinbox
  cases hinbox'.symm.trans hinbox''
  rw [hresv.unchanged]
  dsimp only
  omega

/-- A refused batch changes nothing. Any other gives each inbox the sequences after its last one, in the
order of the requests, within its capacity and the counter's range. -/
theorem reserveBatch_all_or_nothing (s : Shared) (requests : List AssignmentReservation) :
    (∃ refusal, s.reserveBatch requests = (.error refusal, s)) ∨
      ∃ guards s' new, s.reserveBatch requests = (.ok guards, s') ∧
        guards.map (s'.descriptors[·]?) = new.map some ∧ Reserved requests s s' new ∧
        ∀ (key : Key) (inbox' : Inbox), 0 < requested requests key →
          s'.registry.inboxes[key]? = some inbox' →
            inbox'.aborted.size + inbox'.reservations ≤ abortedRangeCapacity ∧ inbox'.allocated ≤ u64Max := by
  rcases s.reserveBatch_cases requests with hrefused | ⟨s', new, hadmits, -, -, hbatch, hresv⟩
  · exact .inl hrefused
  · refine .inr ⟨_, s', new, hbatch, hresv.guards, hresv, ?_⟩
    intro key inbox' hpos hinbox'
    exact hresv.capacity hadmits hpos hinbox'

end Shared

end Ramflux.Publication
