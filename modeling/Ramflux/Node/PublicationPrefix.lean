import Ramflux.Node.PublicationInboxes

/-! The published prefix of an inbox: contiguous, growing, and without an unfinished sequence. -/
namespace Ramflux.Publication
open OrdMap List Descriptor Shared

/-- Highest sequence the core was told is issued: by inboxes it was opened on, or by `register`. -/
def recoveredBase (s : System) (events : List Event) (key : Key) : ℕ :=
  events.foldl (fun base event => match event with
    | .call (.register target incarnation issued) =>
      if (⟨target, incarnation⟩ : Key) = key then max base issued else base
    | _ => base) ((s.shared.registry.inboxes[key]?.map (·.allocated)).getD 0)

theorem recoveredBase_le_snoc (s : System) (events : List Event) (event : Event) (key : Key) :
    recoveredBase s events key ≤ recoveredBase s (events ++ [event]) key := by
  unfold recoveredBase
  rw [foldl_append, foldl_cons, foldl_nil]
  split
  · split_ifs
    · exact le_max_left _ _
    · exact le_rfl
  · exact le_rfl

theorem issued_le_recoveredBase (s : System) (events : List Event) (target incarnation : String)
    (issued : ℕ) : issued ≤
      recoveredBase s (events ++ [.call (.register target incarnation issued)]) ⟨target, incarnation⟩ := by
  unfold recoveredBase
  rw [foldl_append, foldl_cons, foldl_nil]
  dsimp only
  rw [if_pos rfl]
  exact le_max_right _ _

def Finished (events : List Event) (id : ℕ) : Prop :=
  .finish true ∈ history events id ∨ .finish false ∈ history events id

variable {events : List Event} {id : ℕ} {t start : System}

theorem Finished.length_pos (h : Finished events id) :
    0 < ((history events id).filter fun e => e = .finish true ∨ e = .finish false).length := by
  rw [length_pos_iff_exists_mem]
  rcases h with hmem | hmem
  · exact ⟨_, mem_filter.mpr ⟨hmem, by decide⟩⟩
  · exact ⟨_, mem_filter.mpr ⟨hmem, by decide⟩⟩

/-- Registry of a core that was opened on `start` and has seen `events`. -/
structure Tracked (start : System) (events : List Event) (s : Shared) : Prop where
  incarnation : ∀ key key' : Key, key ∈ s.registry.inboxes → key' ∈ s.registry.inboxes →
    key.target = key'.target → key = key'
  sound : ∀ (key : Key) (inbox : Inbox), s.registry.inboxes[key]? = some inbox → inbox.Sound
  base : ∀ (key : Key) (inbox : Inbox) (seq : ℕ), s.registry.inboxes[key]? = some inbox → 0 < seq →
    seq ≤ inbox.allocated → ⟨key, seq⟩ ∈ s.children ∨ seq ≤ recoveredBase start events key
  known : ∀ child ∈ s.children, ∃ inbox, s.registry.inboxes[child.key]? = some inbox ∧
    child.seq ≤ inbox.allocated ∧ child.seq ≤ u64Max
  distinct : s.children.Nodup
  grown : ∀ (key : Key) (inbox₀ : Inbox), start.shared.registry.inboxes[key]? = some inbox₀ →
    ∃ inbox, s.registry.inboxes[key]? = some inbox ∧ inbox₀.allocated ≤ inbox.allocated
  fresh : ∀ child ∈ s.children, ∀ inbox₀ : Inbox,
    start.shared.registry.inboxes[child.key]? = some inbox₀ → inbox₀.allocated < child.seq
  live : ∀ (id : ℕ) (child : Child) (inbox : Inbox), s.children[id]? = some child →
    ¬ Finished events id → s.registry.inboxes[child.key]? = some inbox →
      inbox.inFlight[child.seq]? = some id
  aborted : ∀ (id : ℕ) (child : Child) (inbox : Inbox), s.children[id]? = some child →
    .finish true ∈ history events id → s.registry.inboxes[child.key]? = some inbox →
      Aborts inbox.aborted child.seq ∨ child.seq ≤ inbox.committedSettled
  capacity : ∀ (key : Key) (inbox : Inbox), s.registry.inboxes[key]? = some inbox →
    (∀ inbox₀ : Inbox, start.shared.registry.inboxes[key]? = some inbox₀ →
      inbox₀.aborted.size ≤ abortedRangeCapacity) →
    inbox.aborted.size + inbox.reservations ≤ abortedRangeCapacity

variable {guards : List ℕ} {inbox : Inbox} {requests : List AssignmentReservation} {event : Event}

namespace Tracked
variable {start : System} {events : List Event} {s s' : Shared}

theorem init {start : System} (h : start.Recovered) : Tracked start [] start.shared where
  incarnation := h.incarnation
  sound key inbox hget := by
    obtain ⟨hflight, -, hres, hpub, -⟩ := h.inboxes key inbox hget
    constructor <;> simp [hflight, hres, hpub]
  base key inbox seq hget _ hle := by
    right
    simpa [recoveredBase, hget] using hle
  known child hmem := by simp [children, h.descriptors] at hmem
  distinct := by simp [children, h.descriptors]
  grown key inbox₀ hget := ⟨inbox₀, hget, le_rfl⟩
  fresh child hmem := by simp [children, h.descriptors] at hmem
  live id child inbox hget := by simp [children, h.descriptors] at hget
  aborted id child inbox hget := by simp [children, h.descriptors] at hget
  capacity key inbox hget hstart := by
    rw [(h.inboxes key inbox hget).2.2.1]
    exact hstart inbox hget

theorem quiet (h : Tracked start events s) (hinboxes : s'.registry.inboxes = s.registry.inboxes)
    (hchildren : s'.children = s.children) (hevent : ∀ id aborted, .finish aborted ∉ event.about id) :
    Tracked start (events ++ [event]) s' := by
  have hmem : ∀ id aborted, .finish aborted ∈ history (events ++ [event]) id ↔
      .finish aborted ∈ history events id := by
    intro id aborted
    rw [history_append_singleton, mem_append, or_iff_left (hevent id aborted)]
  constructor
  · rw [hinboxes]
    exact h.incarnation
  · rw [hinboxes]
    exact h.sound
  · intro key inbox seq hget hpos hle
    rw [hinboxes] at hget
    rw [hchildren]
    exact (h.base key inbox seq hget hpos hle).imp_right
      fun hbase => hbase.trans (recoveredBase_le_snoc _ _ _ _)
  · rw [hinboxes, hchildren]
    exact h.known
  · rw [hchildren]
    exact h.distinct
  · rw [hinboxes]
    exact h.grown
  · rw [hchildren]
    exact h.fresh
  · unfold Finished
    simp only [hmem, hinboxes, hchildren]
    exact h.live
  · simp only [hmem, hinboxes, hchildren]
    exact h.aborted
  · rw [hinboxes]
    exact h.capacity

/-- One inbox moved on while no assignment was made or, but for `gone`, finished. -/
structure Evolves (gone : ℕ → Prop) (inbox inbox' : Inbox) : Prop where
  sound : inbox'.Sound
  allocated : inbox.allocated ≤ inbox'.allocated
  inFlight : ∀ seq, ¬ gone seq → inbox'.inFlight[seq]? = inbox.inFlight[seq]?
  aborted : ∀ seq ≤ u64Max, Aborts inbox.aborted seq ∨ seq ≤ inbox.committedSettled →
    Aborts inbox'.aborted seq ∨ seq ≤ inbox'.committedSettled
  capacity : inbox'.aborted.size + inbox'.reservations ≤ inbox.aborted.size + inbox.reservations

/-- Replacing one inbox. A finished assignment must be `gone`, and recorded if it was aborted. -/
theorem update (h : Tracked start events s) {key : Key} {inbox' : Inbox}
    {gone : ℕ → Prop} (hkey : key ∈ s.registry.inboxes ∨
      ∀ key' ∈ s.registry.inboxes, key'.target ≠ key.target)
    (hinboxes : s'.registry.inboxes = s.registry.inboxes.insert key inbox')
    (hchildren : s'.children = s.children)
    (hevolves : Evolves gone (s.registry.inboxes[key]?.getD .new) inbox')
    (hbase : inbox'.allocated ≤ max (s.registry.inboxes[key]?.getD .new).allocated
      (recoveredBase start (events ++ [event]) key))
    (hlive : ∀ (id : ℕ) (child : Child), s.children[id]? = some child →
      ¬ Finished (events ++ [event]) id → ¬ Finished events id ∧ (child.key = key → ¬ gone child.seq))
    (habort : ∀ (id : ℕ) (child : Child), s.children[id]? = some child →
      .finish true ∈ history (events ++ [event]) id → .finish true ∈ history events id ∨
        child.key = key ∧ Aborts inbox'.aborted child.seq) :
    Tracked start (events ++ [event]) s' := by
  have hget' : ∀ key' : Key, s'.registry.inboxes[key']? =
      if key = key' then some inbox' else s.registry.inboxes[key']? := by
    intro key'
    rw [hinboxes, getElem?_insert_eq]
  have hmem : ∀ key' ∈ s'.registry.inboxes, key' = key ∨ key' ∈ s.registry.inboxes := by
    intro key' hmem
    rw [hinboxes, Std.ExtTreeMap.mem_insert] at hmem
    exact hmem.imp_left fun heq => (Std.LawfulEqCmp.eq_of_compare heq).symm
  -- An assignment of the changed inbox means that the inbox was there before.
  have hold : ∀ (child : Child), child ∈ s.children → child.key = key →
      s.registry.inboxes[key]? = some (s.registry.inboxes[key]?.getD .new) ∧
        child.seq ≤ (s.registry.inboxes[key]?.getD .new).allocated ∧ child.seq ≤ u64Max := by
    rintro child hchild rfl
    obtain ⟨inbox, hinbox, hle, hmax⟩ := h.known child hchild
    rw [hinbox]
    exact ⟨rfl, hle, hmax⟩
  constructor
  · intro a b ha hb hab
    rcases hmem a ha with rfl | ha' <;> rcases hmem b hb with rfl | hb'
    · rfl
    · rcases hkey with hkey | hkey
      · exact h.incarnation a b hkey hb' hab
      · exact absurd hab.symm (hkey b hb')
    · rcases hkey with hkey | hkey
      · exact h.incarnation a b ha' hkey hab
      · exact absurd hab (hkey a ha')
    · exact h.incarnation a b ha' hb' hab
  · intro key' inbox hget
    rw [hget'] at hget
    split_ifs at hget
    · cases hget
      exact hevolves.sound
    · exact h.sound key' inbox hget
  · intro key' inbox seq hget hpos hle
    rw [hget'] at hget
    rw [hchildren]
    split_ifs at hget with heq
    · cases hget
      subst heq
      rcases lt_or_ge (recoveredBase start (events ++ [event]) key) seq with hlt | hge
      · have hle' : seq ≤ (s.registry.inboxes[key]?.getD .new).allocated := by omega
        cases hinbox : s.registry.inboxes[key]? with
        | none =>
          rw [hinbox] at hle'
          exact absurd (hpos.trans_le hle') (lt_irrefl 0)
        | some inbox =>
          rw [hinbox] at hle'
          exact (h.base key inbox seq hinbox hpos hle').imp_right
            fun hb => hb.trans (recoveredBase_le_snoc _ _ _ _)
      · exact .inr hge
    · exact (h.base key' inbox seq hget hpos hle).imp_right
        fun hb => hb.trans (recoveredBase_le_snoc _ _ _ _)
  · rw [hchildren]
    intro child hchild
    rw [hget']
    split_ifs with heq
    · obtain ⟨-, hle, hmax⟩ := hold child hchild heq.symm
      exact ⟨inbox', rfl, hle.trans hevolves.allocated, hmax⟩
    · exact h.known child hchild
  · rw [hchildren]
    exact h.distinct
  · intro key' inbox₀ hstart
    obtain ⟨inbox, hget, hle⟩ := h.grown key' inbox₀ hstart
    rw [hget']
    split_ifs with heq
    · subst heq
      have hle' := hevolves.allocated
      rw [hget] at hle'
      exact ⟨inbox', rfl, hle.trans hle'⟩
    · exact ⟨inbox, hget, hle⟩
  · rw [hchildren]
    exact h.fresh
  · intro id child inbox hchild hfin hget
    rw [hchildren] at hchild
    rw [hget'] at hget
    obtain ⟨hfin', hgone⟩ := hlive id child hchild hfin
    split_ifs at hget with heq
    · cases hget
      obtain ⟨hinbox, -⟩ := hold child (mem_of_getElem? hchild) heq.symm
      rw [hevolves.inFlight _ (hgone heq.symm)]
      rw [heq] at hinbox
      rw [heq]
      exact h.live id child _ hchild hfin' hinbox
    · exact h.live id child inbox hchild hfin' hget
  · intro id child inbox hchild hfin hget
    rw [hchildren] at hchild
    rw [hget'] at hget
    have hrec := habort id child hchild hfin
    split_ifs at hget with heq
    · cases hget
      rcases hrec with hfin' | ⟨-, haborts⟩
      · obtain ⟨hinbox, -, hmax⟩ := hold child (mem_of_getElem? hchild) heq.symm
        apply hevolves.aborted _ hmax
        apply h.aborted id child _ hchild hfin'
        rw [← heq]
        exact hinbox
      · exact .inl haborts
    · rcases hrec with hfin' | ⟨hkey', -⟩
      · exact h.aborted id child inbox hchild hfin' hget
      · exact absurd hkey'.symm heq
  · intro key' inbox hget hstart
    rw [hget'] at hget
    split_ifs at hget with heq
    · cases hget
      subst heq
      apply hevolves.capacity.trans
      cases hinbox : s.registry.inboxes[key]? with
      | none => decide
      | some inbox => exact h.capacity key inbox hinbox hstart
    · exact h.capacity key' inbox hget hstart

theorem sound_getD (h : Tracked start events s) (key : Key) :
    (s.registry.inboxes[key]?.getD .new).Sound := by
  cases hinbox : s.registry.inboxes[key]? with
  | none => exact Inbox.sound_new
  | some inbox => exact h.sound key inbox hinbox

theorem Evolves.registered (h : inbox.Sound) (issued : ℕ) :
    Evolves (fun _ => False) inbox (inbox.registered issued) := by
  obtain ⟨hflight, habort, hsett, hres, halloc, -⟩ := inbox.registered_fields issued
  constructor
  · exact h.registered issued
  · rw [halloc]
    exact le_max_left _ _
  · intro seq _
    rw [hflight]
  · intro seq _ hseq
    rwa [habort, hsett]
  · rw [habort, hres]

theorem Evolves.settle (h : inbox.Sound) (settled : ℕ) :
    Evolves (fun _ => False) inbox (inbox.settle settled) where
  sound := h.settle settled
  allocated := le_rfl
  inFlight _ _ := rfl
  aborted seq _ hseq := by
    rcases lt_or_ge settled seq with hlt | hge
    · exact hseq.imp (fun haborts => haborts.trimRanges settled hlt)
        fun hle => hle.trans (le_max_left _ _)
    · exact .inr (hge.trans (le_max_right _ _))
  capacity := Nat.add_le_add_right (size_trimRanges_le settled inbox.aborted) _

theorem Evolves.finish (h : inbox.Sound) {d : Descriptor} (aborted : Bool)
    (hmem : d.seq ∈ inbox.inFlight) (hmax : d.seq ≤ u64Max) :
    Evolves (· = d.seq) inbox (finishInbox inbox d aborted).1 ∧
      (aborted = true → Aborts (finishInbox inbox d aborted).1.aborted d.seq) := by
  obtain ⟨hflight, halloc, hsett, hres, habort, -⟩ := Inbox.finishInbox_fields inbox d aborted
  have hpos : 0 < inbox.reservations := by
    rw [h.reservations]
    have := size_erase_lt inbox.inFlight hmem
    omega
  obtain ⟨first, end', hco⟩ := coalesce_spec inbox.aborted (le_refl d.seq) hmax
  refine ⟨⟨(h.finish d aborted hmem).1, halloc.ge, ?_, ?_, ?_⟩, ?_⟩
  · intro seq hne
    rw [hflight, getElem?_erase_of_ne _ (Ne.symm hne)]
  · intro seq hseq
    rw [habort, hsett]
    split_ifs
    · exact Or.imp_left (hco.aborts hmax hseq)
    · exact fun hseq => hseq
  · rw [habort, hres]
    have := hco.size
    split_ifs <;> omega
  · rintro rfl
    exact hco.aborts_merged hco.first_le hco.le_end hmax

theorem mem_history_call (c : RegistryCall) (id : ℕ) (e : DescriptorEvent) :
    e ∈ history (events ++ [.call c]) id ↔ e ∈ history events id := by
  rw [history_append_singleton]
  simp [Event.about]

theorem call (h : Tracked start events s) (c : RegistryCall) :
    Tracked start (events ++ [.call c]) (s.exec c) := by
  have hchildren : (s.exec c).children = s.children := by
    unfold children
    rw [(s.exec_frame c).1]
  have hfin : ∀ id, Finished (events ++ [.call c]) id ↔ Finished events id := by
    intro id
    unfold Finished
    rw [mem_history_call, mem_history_call]
  have hlive : ∀ (key : Key) (id : ℕ) (child : Child), s.children[id]? = some child →
      ¬ Finished (events ++ [.call c]) id →
        ¬ Finished events id ∧ (child.key = key → ¬ (fun _ : ℕ => False) child.seq) :=
    fun _ id _ _ hnot => ⟨fun hf => hnot ((hfin id).mpr hf), fun _ hfalse => hfalse⟩
  have habort : ∀ (key : Key) (inbox' : Inbox) (id : ℕ) (child : Child), s.children[id]? = some child →
      .finish true ∈ history (events ++ [.call c]) id → .finish true ∈ history events id ∨
        child.key = key ∧ Aborts inbox'.aborted child.seq :=
    fun _ _ id _ _ hmem => .inl ((mem_history_call c id _).mp hmem)
  rcases s.exec_inboxes c with hsame | ⟨target, incarnation, issued, rfl, hkey, hinboxes⟩ |
    ⟨target, incarnation, hnew, hinboxes⟩ | ⟨key, inbox, settled, hget, hinboxes⟩
  · exact h.quiet hsame hchildren fun _ _ => not_mem_nil
  · refine h.update hkey hinboxes hchildren (.registered (h.sound_getD _) issued) ?_ (hlive _)
      (habort _ _)
    rw [(Inbox.registered_fields _ issued).2.2.2.2.1]
    have hissued := issued_le_recoveredBase start events target incarnation issued
    omega
  · have habsent : s.registry.inboxes[(⟨target, incarnation⟩ : Key)]? = none := by
      by_contra hsome
      obtain ⟨inbox, hinbox⟩ := Option.ne_none_iff_exists'.mp hsome
      exact hnew ⟨target, incarnation⟩ (mem_of_eq_some hinbox) rfl
    have hevolves : Evolves (fun _ => False)
        (s.registry.inboxes[(⟨target, incarnation⟩ : Key)]?.getD .new) .new := by
      rw [habsent]
      exact ⟨Inbox.sound_new, le_rfl, fun _ _ => rfl, fun _ _ hseq => hseq, le_rfl⟩
    exact h.update (.inr hnew) hinboxes hchildren hevolves (Nat.zero_le _) (hlive _) (habort _ _)
  · have hmem : key ∈ s.registry.inboxes := mem_of_eq_some hget
    have hevolves : Evolves (fun _ => False) (s.registry.inboxes[key]?.getD .new)
        (inbox.settle settled) := by
      rw [hget]
      exact .settle (h.sound key inbox hget) settled
    refine h.update (.inl hmem) hinboxes hchildren hevolves ?_ (hlive _) (habort _ _)
    rw [hget]
    exact le_max_left _ _

theorem mem_history_finish {id id' : ℕ} {aborted b : Bool} :
    .finish b ∈ history (events ++ [.descriptor id (.finish aborted)]) id' ↔
      .finish b ∈ history events id' ∨ id = id' ∧ b = aborted := by
  rw [history_append_singleton, mem_append]
  by_cases heq : id = id'
  · rw [heq, Event.about_descriptor_self]
    simp
  · rw [Event.about_descriptor_of_ne heq]
    simp [heq]

theorem finished_finish {id id' : ℕ} {aborted : Bool} :
    Finished (events ++ [.descriptor id (.finish aborted)]) id' ↔ Finished events id' ∨ id = id' := by
  unfold Finished
  rw [mem_history_finish, mem_history_finish]
  cases aborted <;> simp <;> tauto

theorem key_mem (h : Tracked start events s) : ∀ child ∈ s.children, child.key ∈ s.registry.inboxes := by
  intro child hchild
  obtain ⟨inbox, hget, -⟩ := h.known child hchild
  exact mem_of_eq_some hget

theorem index_unique (h : Tracked start events s) {i j : ℕ} {child : Child}
    (hi : s.children[i]? = some child) (hj : s.children[j]? = some child) : i = j :=
  (List.getElem?_inj (List.getElem?_eq_some_iff.mp hi).1 h.distinct).mp (hi.trans hj.symm)

section
variable {id : ℕ} {d : Descriptor} (aborted : Bool) (hd : s.descriptors[id]? = some d)
  (hfence : s.fenced = false) (hnew : ¬ Finished events id)
include hd

omit hd in
theorem children_finish : (s.finish d aborted).children = s.children := by
  unfold children
  rw [(s.finish_frame d aborted).1]

theorem children_of_descriptor : s.children[id]? = some d.child := by
  unfold children
  rw [getElem?_map, hd]
  rfl

theorem seq_ne (h : Tracked start events s) {id' : ℕ} {child : Child}
    (hchild : s.children[id']? = some child) (hne : id ≠ id') (hkey : child.key = d.key) :
    child.seq ≠ d.seq := by
  intro hseq
  have hsame : child = d.child := by
    rw [show child = ⟨child.key, child.seq⟩ from rfl, hkey, hseq]
    rfl
  rw [hsame] at hchild
  exact hne (h.index_unique (children_of_descriptor hd) hchild)

include hfence hnew

/-- The inbox of an assignment that is finished for the first time. -/
theorem finish_inbox (h : Tracked start events s) : ∃ inbox,
    s.registry.inboxes[d.key]? = some inbox ∧ inbox.inFlight[d.seq]? = some id ∧ d.seq ≤ u64Max ∧
      inbox.published ≤ (finishInbox inbox d aborted).1.published ∧
      (s.finish d aborted).registry.inboxes =
        s.registry.inboxes.insert d.key (finishInbox inbox d aborted).1 := by
  have hchild := children_of_descriptor hd
  obtain ⟨inbox, hget, -, hmax⟩ := h.known d.child (mem_of_getElem? hchild)
  have hflight := h.live id d.child inbox hchild hnew hget
  have hget : s.registry.inboxes[d.key]? = some inbox := hget
  have hinboxes := (s.finish_frame d aborted).2.2.2
  rw [hfence, hget] at hinboxes
  exact ⟨inbox, hget, hflight, hmax, ((h.sound d.key inbox hget).finish d aborted
    (mem_of_eq_some hflight)).2, hinboxes⟩

theorem finish (h : Tracked start events s) :
    Tracked start (events ++ [.descriptor id (.finish aborted)]) (s.finish d aborted) := by
  have hchild := children_of_descriptor hd
  obtain ⟨inbox, hget, hflight, hmax, -, hinboxes⟩ := h.finish_inbox aborted hd hfence hnew
  obtain ⟨hevolves, haborts⟩ := Evolves.finish (h.sound d.key inbox hget) aborted
    (mem_of_eq_some hflight) hmax
  refine h.update (.inl (mem_of_eq_some hget)) hinboxes
    (children_finish aborted) (by rw [hget]; exact hevolves) ?_ ?_ ?_
  · rw [hget]
    exact le_max_left _ _
  · intro id' child hchild' hnot
    rw [finished_finish, not_or] at hnot
    exact ⟨hnot.1, fun hkey => seq_ne hd h hchild' hnot.2 hkey⟩
  · intro id' child hchild' hmem
    rcases mem_history_finish.mp hmem with hold | ⟨rfl, hab⟩
    · exact .inl hold
    · cases hchild.symm.trans hchild'
      exact .inr ⟨rfl, haborts hab.symm⟩

end

theorem nodup_children {descriptors : List Descriptor}
    (h : ∀ d ∈ descriptors, (sequences descriptors d.key).Nodup) : (descriptors.map child).Nodup := by
  induction descriptors with
  | nil => simp
  | cons d rest ih =>
    rw [map_cons, nodup_cons]
    have hself := h d (by simp)
    rw [sequences_cons, if_pos rfl, nodup_cons] at hself
    constructor
    · rw [mem_map]
      rintro ⟨d', hd', heq⟩
      obtain ⟨hkey, hseq⟩ := Child.mk.inj heq
      apply hself.1
      unfold sequences
      rw [mem_map]
      exact ⟨d', by simp [hd', hkey], hseq⟩
    · apply ih
      intro d' hd'
      have htail := h d' (by simp [hd'])
      rw [sequences_cons] at htail
      split_ifs at htail
      · exact (nodup_cons.mp htail).2
      · exact htail

theorem mem_history_reserve {id : ℕ} {b : Bool} :
    .finish b ∈ history (events ++ [.reserveBatch requests guards]) id ↔
      .finish b ∈ history events id := by
  rw [history_append_singleton, mem_append, or_iff_left]
  unfold Event.about
  dsimp only
  split_ifs <;> simp

theorem reserve (h : Tracked start events s)
    {new : List Descriptor} (hadmits : s.Admits requests) (hres : Reserved requests s s' new)
    (hfresh : ∀ id, s.descriptors.length ≤ id → ¬ Finished events id) :
    Tracked start (events ++ [.reserveBatch requests guards]) s' := by
  have hchildren : s'.children = s.children ++ new.map child := by
    unfold children
    rw [hres.descriptors, map_append]
  -- Every inbox that is there after the batch was there before.
  have hback : ∀ (key : Key) (inbox' : Inbox), s'.registry.inboxes[key]? = some inbox' →
      ∃ inbox, s.registry.inboxes[key]? = some inbox ∧
        InboxReserved key (requested requests key) s.descriptors.length new inbox inbox' := by
    intro key inbox' hget'
    cases hget : s.registry.inboxes[key]? with
    | none => simp [hres.absent key hget] at hget'
    | some inbox =>
      obtain ⟨inbox'', hget'', hresv⟩ := hres.present key inbox hget
      cases hget'.symm.trans hget''
      exact ⟨inbox, rfl, hresv⟩
  have hmem : ∀ key ∈ s'.registry.inboxes, key ∈ s.registry.inboxes := by
    intro key hkey
    obtain ⟨inbox', hget'⟩ := mem_iff_exists.mp hkey
    obtain ⟨inbox, hget, -⟩ := hback key inbox' hget'
    exact mem_of_eq_some hget
  -- New assignments continue the numbers of their inboxes.
  have hnew : ∀ d ∈ new, ∃ inbox inbox', s.registry.inboxes[d.key]? = some inbox ∧
      s'.registry.inboxes[d.key]? = some inbox' ∧
      InboxReserved d.key (requested requests d.key) s.descriptors.length new inbox inbox' ∧
      inbox.allocated < d.seq ∧ d.seq ≤ inbox.allocated + requested requests d.key ∧
      d.seq ≤ u64Max := by
    intro d hd
    have hreq : (d.key, d.resources) ∈ requests.map fun r => (r.key, r.resources) := by
      rw [← hres.owners]
      exact mem_map_of_mem hd
    obtain ⟨r, hr, heq⟩ := mem_map.mp hreq
    have hpos : 0 < requested requests d.key :=
      countP_pos_iff.mpr ⟨r, hr, decide_eq_true (Prod.mk.inj heq).1⟩
    obtain ⟨inbox, hget, -, -, hrange⟩ := checkNeeded_ok (hadmits d.key hpos) hpos
    obtain ⟨inbox', hget', hresv⟩ := hres.present d.key inbox hget
    have hseq : d.seq ∈ sequences new d.key := by
      unfold sequences
      rw [mem_map]
      exact ⟨d, by simp [hd], rfl⟩
    rw [hres.consecutive d.key inbox hget, mem_range'_1] at hseq
    exact ⟨inbox, inbox', hget, hget', hresv, by omega, by omega, by omega⟩
  have hnodup : (new.map child).Nodup := by
    apply nodup_children
    intro d hd
    obtain ⟨inbox, -, hget, -⟩ := hnew d hd
    rw [hres.consecutive d.key inbox hget]
    exact nodup_range'
  constructor
  · intro a b ha hb
    exact h.incarnation a b (hmem a ha) (hmem b hb)
  · intro key inbox' hget'
    obtain ⟨inbox, hget, hresv⟩ := hback key inbox' hget'
    exact (h.sound key inbox hget).reserved hresv
  · intro key inbox' seq hget' hpos hle
    obtain ⟨inbox, hget, hresv⟩ := hback key inbox' hget'
    rw [hchildren, mem_append]
    rcases lt_or_ge inbox.allocated seq with hlt | hge
    · have hle' : seq ≤ inbox.allocated + requested requests key := by
        rw [hresv.unchanged] at hle
        exact hle
      obtain ⟨i, d, -, hd, rfl, rfl⟩ := hresv.added seq hlt hle'
      exact .inl (.inr (mem_map_of_mem (mem_of_getElem? hd)))
    · exact (h.base key inbox seq hget hpos hge).imp .inl
        fun hb => hb.trans (recoveredBase_le_snoc _ _ _ _)
  · intro child hchild
    rw [hchildren, mem_append] at hchild
    rcases hchild with hold | hadded
    · obtain ⟨inbox, hget, hle, hmax⟩ := h.known child hold
      obtain ⟨inbox', hget', hresv⟩ := hres.present child.key inbox hget
      refine ⟨inbox', hget', ?_, hmax⟩
      rw [hresv.unchanged]
      exact hle.trans (Nat.le_add_right _ _)
    · obtain ⟨d, hd, rfl⟩ := mem_map.mp hadded
      obtain ⟨inbox, inbox', -, hget', hresv, -, hle, hmax⟩ := hnew d hd
      refine ⟨inbox', hget', ?_, hmax⟩
      rw [hresv.unchanged]
      exact hle
  · rw [hchildren, nodup_append]
    refine ⟨h.distinct, hnodup, ?_⟩
    intro child hold child' hadded heq
    obtain ⟨d, hd, rfl⟩ := mem_map.mp hadded
    obtain ⟨inbox, -, hget, -, -, hlt, -⟩ := hnew d hd
    obtain ⟨inbox', hget', hle, -⟩ := h.known child hold
    rw [heq] at hget' hle
    cases hget.symm.trans hget'
    exact absurd hle (not_le.mpr hlt)
  · intro key inbox₀ hstart
    obtain ⟨inbox, hget, hle⟩ := h.grown key inbox₀ hstart
    obtain ⟨inbox', hget', hresv⟩ := hres.present key inbox hget
    refine ⟨inbox', hget', ?_⟩
    rw [hresv.unchanged]
    exact hle.trans (Nat.le_add_right _ _)
  · intro child hchild inbox₀ hstart
    rw [hchildren, mem_append] at hchild
    rcases hchild with hold | hadded
    · exact h.fresh child hold inbox₀ hstart
    · obtain ⟨d, hd, rfl⟩ := mem_map.mp hadded
      obtain ⟨inbox, -, hget, -, -, hlt, -⟩ := hnew d hd
      obtain ⟨inbox'', hget'', hle⟩ := h.grown d.child.key inbox₀ hstart
      cases hget.symm.trans hget''
      exact hle.trans_lt hlt
  · intro id child inbox' hchild hnot hget'
    rw [Finished, mem_history_reserve, mem_history_reserve] at hnot
    obtain ⟨inbox, hget, hresv⟩ := hback child.key inbox' hget'
    rw [hchildren] at hchild
    rcases lt_or_ge id s.children.length with hlt | hge
    · rw [getElem?_append_left hlt] at hchild
      obtain ⟨inbox₀, hget₀, hle, -⟩ := h.known child (mem_of_getElem? hchild)
      cases hget.symm.trans hget₀
      rw [hresv.old child.seq (.inl hle)]
      exact h.live id child inbox hchild hnot hget
    · rw [getElem?_append_right hge] at hchild
      obtain ⟨d, hd, rfl⟩ : ∃ d, new[id - s.children.length]? = some d ∧ d.child = child := by
        simpa [getElem?_map] using hchild
      obtain ⟨inbox₀, -, hget₀, -, -, hlt, hle, -⟩ := hnew d (mem_of_getElem? hd)
      cases hget.symm.trans hget₀
      obtain ⟨i, d', hflight, hd', hkey, hseq⟩ := hresv.added d.seq hlt hle
      have hi : i = id - s.children.length := by
        have hsame : (new.map child)[i]? = (new.map child)[id - s.children.length]? := by
          rw [getElem?_map, getElem?_map, hd, hd', Option.map_some, Option.map_some]
          unfold child
          rw [hkey, hseq]
          rfl
        refine (getElem?_inj ?_ hnodup).mp hsame
        rw [length_map]
        exact (List.getElem?_eq_some_iff.mp hd').1
      have hlen : s.children.length = s.descriptors.length := length_map _
      show inbox'.inFlight[d.seq]? = some id
      rw [hflight, hi, ← hlen, Nat.add_sub_cancel' hge]
  · intro id child inbox' hchild hab hget'
    rw [mem_history_reserve] at hab
    obtain ⟨inbox, hget, hresv⟩ := hback child.key inbox' hget'
    rw [hchildren] at hchild
    have hlt : id < s.children.length := by
      by_contra hge
      have hlen : s.children.length = s.descriptors.length := length_map _
      exact hfresh id (by omega) (.inl hab)
    rw [getElem?_append_left hlt] at hchild
    have hold := h.aborted id child inbox hchild hab hget
    rw [hresv.unchanged]
    exact hold
  · intro key inbox' hget' hstart
    obtain ⟨inbox, hget, hresv⟩ := hback key inbox' hget'
    rcases Nat.eq_zero_or_pos (requested requests key) with hzero | hpos
    · rw [hresv.unchanged, hzero]
      exact h.capacity key inbox hget hstart
    · exact (hres.capacity hadmits hpos hget').1

end Tracked

theorem Step.fenced {s s' : System} (h : Step s event s')
    (hfenced : s.shared.fenced = true) : s'.shared.fenced = true := by
  cases h with
  | call c => exact (s.shared.exec_frame c).2.2.trans hfenced
  | @reserveBatch requests guards shared hbatch =>
    unfold Shared.reserveBatch at hbatch
    split_ifs at hbatch <;> simp at hbatch
  | finishAccepted _ _ | finishAborted _ _ => exact (s.shared.finish_frame _ _).2.2.1.trans hfenced
  | fence _ | raise | abortFailed _ _ => rfl
  | stop _ =>
    rw [hfenced]
    rfl
  | _ => exact hfenced

theorem Step.not_fenced {s s' : System} (h : Step s event s')
    (hfence : s'.shared.fenced = false) : s.shared.fenced = false := by
  rw [← Bool.not_eq_true]
  intro hfenced
  rw [h.fenced hfenced] at hfence
  exact absurd hfence (by decide)

theorem not_finished_of_finish (hstart : start.Recovered) {aborted : Bool}
    (hrun : Run Step start (events ++ [.descriptor id (.finish aborted)]) t) : ¬ Finished events id := by
  obtain ⟨life, hlife, -⟩ := exists_life hstart hrun id
  have hfinishes := (Life.explains_of_run hlife).finishes
  rw [history_append_singleton, Event.about_descriptor_self, filter_append, length_append] at hfinishes
  have hone : 0 < ([.finish aborted].filter fun e : DescriptorEvent =>
      e = .finish true ∨ e = .finish false).length := by
    cases aborted <;> decide
  intro hfin
  have hpos := hfin.length_pos
  split_ifs at hfinishes <;> omega

theorem not_finished_of_length_le (hstart : start.Recovered) (hrun : Run Step start events t)
    (hid : t.shared.descriptors.length ≤ id) : ¬ Finished events id := by
  intro hfin
  obtain ⟨life, hlife, hshows⟩ := exists_life hstart hrun id
  have hbyte := hshows.byte
  unfold state? at hbyte
  rw [getElem?_eq_none hid] at hbyte
  rcases (Life.explains_of_run hlife).of_finish hfin.length_pos with rfl | rfl <;>
    simp [Life.byte?] at hbyte

/-- The registry of a core that was not fenced, after any run. -/
theorem tracked_of_run (hstart : start.Recovered) (hrun : Run Step start events t)
    (hfence : t.shared.fenced = false) : Tracked start events t.shared := by
  apply hrun.invariant (P := fun events t => t.shared.fenced = false → Tracked start events t.shared) _
    _ hfence
  · intro _
    exact .init hstart
  · intro events t event u hrun ih hstep hfence
    have hbefore := hstep.not_fenced hfence
    have h := ih hbefore
    cases hstep.effect with
    | quiet hevent hinboxes hassigned =>
      apply h.quiet hinboxes _ hevent.not_finish
      rw [children_eq, children_eq, hassigned]
    | call c heq =>
      rw [heq]
      exact h.call c
    | reserve hadmits hres =>
      apply h.reserve hadmits hres
      intro id hid
      exact not_finished_of_length_le hstart hrun hid
    | finish hd heq =>
      rw [heq]
      exact h.finish _ hd hbefore (not_finished_of_finish hstart (hrun.snoc hstep))

/-- Every inbox stays and publishes no less. -/
def Shared.Publishes (s s' : Shared) : Prop :=
  ∀ (key : Key) (inbox : Inbox), s.registry.inboxes[key]? = some inbox →
    ∃ inbox', s'.registry.inboxes[key]? = some inbox' ∧ inbox.published ≤ inbox'.published

theorem Shared.publishes_of_insert {s s' : Shared} (key : Key) (inbox' : Inbox)
    (hinboxes : s'.registry.inboxes = s.registry.inboxes.insert key inbox')
    (hle : ∀ inbox, s.registry.inboxes[key]? = some inbox → inbox.published ≤ inbox'.published) :
    s.Publishes s' := by
  intro key' inbox hget
  rw [hinboxes, getElem?_insert_eq]
  split_ifs with heq
  · subst heq
    exact ⟨inbox', rfl, hle inbox hget⟩
  · exact ⟨inbox, hget, le_rfl⟩

theorem Tracked.publishes_exec {s : Shared}
    (h : Tracked start events s) (c : RegistryCall) : s.Publishes (s.exec c) := by
  rcases s.exec_inboxes c with hsame | ⟨target, incarnation, issued, rfl, hkey, hinboxes⟩ |
    ⟨target, incarnation, hnew, hinboxes⟩ | ⟨key, inbox, settled, hget, hinboxes⟩
  · intro key inbox hget
    exact ⟨inbox, by rw [hsame, hget], le_rfl⟩
  · apply publishes_of_insert _ _ hinboxes
    intro inbox hget
    rw [hget, Option.getD_some, (inbox.registered_fields issued).2.2.2.2.2]
    have hle := (h.sound _ inbox hget).le
    split_ifs
    · exact hle.trans (le_max_left _ _)
    · exact le_rfl
  · apply publishes_of_insert _ _ hinboxes
    intro inbox hget
    exact absurd rfl (hnew ⟨target, incarnation⟩ (mem_of_eq_some hget))
  · apply publishes_of_insert _ _ hinboxes
    intro inbox' hget'
    cases hget.symm.trans hget'
    exact le_rfl

theorem publishes_of_run {u : System} {events' : List Event}
    (hstart : start.Recovered) (hrun : Run Step start events t) (hrun' : Run Step t events' u)
    (hfence : u.shared.fenced = false) : t.shared.Publishes u.shared := by
  apply hrun'.invariant
    (P := fun events' u => u.shared.fenced = false → t.shared.Publishes u.shared) _ _ hfence
  · intro _ key inbox hget
    exact ⟨inbox, hget, le_rfl⟩
  · intro events' u event v hrun' ih hstep hfence
    have hbefore := hstep.not_fenced hfence
    have hreached := hrun.append hrun'
    have h := tracked_of_run hstart hreached hbefore
    have hlast : u.shared.Publishes v.shared := by
      cases hstep.effect with
      | quiet _ hinboxes _ =>
        intro key inbox hget
        exact ⟨inbox, by rw [hinboxes, hget], le_rfl⟩
      | call c heq =>
        rw [heq]
        exact h.publishes_exec c
      | reserve _ hres =>
        intro key inbox hget
        obtain ⟨inbox', hget', hresv⟩ := hres.present key inbox hget
        refine ⟨inbox', hget', ?_⟩
        rw [hresv.unchanged]
      | @finish id d aborted hd heq =>
        have hnew := not_finished_of_finish hstart (hreached.snoc hstep)
        obtain ⟨inbox, hget, -, -, hle, hinboxes⟩ := h.finish_inbox aborted hd hbefore hnew
        rw [← heq] at hinboxes
        apply publishes_of_insert d.key _ hinboxes
        intro inbox' hget'
        cases hget.symm.trans hget'
        exact hle
    intro key inbox hget
    obtain ⟨inbox', hget', hle⟩ := ih hbefore key inbox hget
    obtain ⟨inbox'', hget'', hle'⟩ := hlast key inbox' hget'
    exact ⟨inbox'', hget'', hle.trans hle'⟩

/-- The published sequences of every inbox are a contiguous prefix of finished ones. -/
structure PublishedPrefix (start : System) (events : List Event) (s : Shared) : Prop where
  incarnation : ∀ key key' : Key, key ∈ s.registry.inboxes → key' ∈ s.registry.inboxes →
    key.target = key'.target → key = key'
  first : ∀ (key : Key) (inbox : Inbox), s.registry.inboxes[key]? = some inbox →
    match inbox.inFlight.first? with
    | none => inbox.published = inbox.allocated
    | some (seq, _) => inbox.published + 1 = seq
  outcome : ∀ (key : Key) (inbox : Inbox) (seq : ℕ), s.registry.inboxes[key]? = some inbox → 0 < seq →
    seq ≤ inbox.published →
      (⟨key, seq⟩ ∉ s.children ∧ seq ≤ recoveredBase start events key) ∨
      ∃ (id : ℕ) (d : Descriptor), s.descriptors[id]? = some d ∧ d.child = ⟨key, seq⟩ ∧
        (d.state = .plain .acceptedDurable ∨ d.state = .plain .abortedDurable ∧
          (Aborts inbox.aborted seq ∨ seq ≤ inbox.committedSettled))
  reservations : ∀ (key : Key) (inbox : Inbox), s.registry.inboxes[key]? = some inbox →
    inbox.reservations = inbox.inFlight.size
  capacity : ∀ (key : Key) (inbox : Inbox), s.registry.inboxes[key]? = some inbox →
    (∀ inbox₀ : Inbox, start.shared.registry.inboxes[key]? = some inbox₀ →
      inbox₀.aborted.size ≤ abortedRangeCapacity) →
    inbox.aborted.size + inbox.reservations ≤ abortedRangeCapacity
  distinct : s.children.Nodup
  fresh : ∀ child ∈ s.children, ∀ inbox₀ : Inbox,
    start.shared.registry.inboxes[child.key]? = some inbox₀ → inbox₀.allocated < child.seq

/-- Without a fence, the published prefix is contiguous, of finished sequences, and never shrinks. -/
theorem published_contiguous {start t u : System} {events events' : List Event}
    (hstart : start.Recovered) (hrun : Run Step start events t) (hrun' : Run Step t events' u)
    (hfence : u.shared.fenced = false) :
    PublishedPrefix start (events ++ events') u.shared ∧ t.shared.Publishes u.shared := by
  have hreached := hrun.append hrun'
  have h := tracked_of_run hstart hreached hfence
  refine ⟨⟨h.incarnation, ?_, ?_, fun key inbox hget => (h.sound key inbox hget).reservations,
    h.capacity, h.distinct, h.fresh⟩, publishes_of_run hstart hrun hrun' hfence⟩
  · intro key inbox hget
    have hsound := h.sound key inbox hget
    cases hfirst : inbox.inFlight.first? with
    | none => exact hsound.all ((first?_eq_none_iff _).mp hfirst)
    | some row =>
      obtain ⟨seq, id⟩ := row
      obtain ⟨hseq, hmin⟩ := (first?_eq_some_iff _ _ _).mp hfirst
      simp only [Nat.isLE_compare] at hmin
      have hmem : seq ∈ inbox.inFlight := mem_of_eq_some hseq
      have hne : inbox.inFlight ≠ ∅ := by
        intro hempty
        simp [hempty] at hmem
      have hle := hmin _ (hsound.next hne)
      have hlt := (hsound.above seq hmem).1
      omega
  · intro key inbox seq hget hpos hle
    have hsound := h.sound key inbox hget
    by_cases hchild : (⟨key, seq⟩ : Child) ∈ u.shared.children
    · right
      obtain ⟨id, hid⟩ := getElem?_of_mem hchild
      obtain ⟨d, hd, hdchild⟩ : ∃ d, u.shared.descriptors[id]? = some d ∧ d.child = ⟨key, seq⟩ := by
        simpa [children, getElem?_map] using hid
      have hfin : Finished (events ++ events') id := by
        by_contra hnot
        have hflight := h.live id _ inbox hid hnot hget
        have hlt := (hsound.above seq (mem_of_eq_some hflight)).1
        omega
      obtain ⟨life, hlife, hshows⟩ := exists_life hstart hreached id
      have hexplains := Life.explains_of_run hlife
      have hbyte := hshows.byte
      unfold state? at hbyte
      rw [hd] at hbyte
      have hstate : some d.state = life.byte? := hbyte
      refine ⟨id, d, hd, hdchild, ?_⟩
      rcases hexplains.of_finish hfin.length_pos with rfl | rfl
      · exact .inl (Option.some.inj hstate)
      · refine .inr ⟨Option.some.inj hstate, h.aborted id _ inbox hid ?_ hget⟩
        apply hfin.resolve_right
        intro hmem
        simpa using hexplains.accepted (.inr hmem)
    · left
      exact ⟨hchild, (h.base key inbox seq hget hpos (hle.trans hsound.le)).resolve_left hchild⟩

theorem published_contiguous_acceptAndAbort : ∃ t, Run Step emptyCore acceptAndAbort t ∧
    t.shared.registry.inboxes[(⟨"t", "i"⟩ : Key)]?.map (·.published) = some 2 ∧
    PublishedPrefix emptyCore acceptAndAbort t.shared := by
  obtain ⟨t, hrun, hfence, hpublished⟩ := exists_run_acceptAndAbort
  exact ⟨t, hrun, hpublished, (published_contiguous emptyCore_recovered .nil hrun hfence).1⟩

end Ramflux.Publication
