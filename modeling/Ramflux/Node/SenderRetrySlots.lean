import Ramflux.Node.SenderRetryRequest

/-! Slots of the sender retry registry resolve exactly once, and a key has one unresolved slot at most. -/
namespace Ramflux.SenderRetry
open OrdMap List

def Event.resolves (id : ℕ) : Event → List Resolution
  | .request id' _ (some r) => if id' = id then [r] else []
  | .close ids => if id ∈ ids then [.closed] else []
  | _ => []

def resolutions (events : List Event) (id : ℕ) : List Resolution := events.flatMap (Event.resolves id)

theorem resolutions_append_singleton (events : List Event) (event : Event) (id : ℕ) :
    resolutions (events ++ [event]) id = resolutions events id ++ event.resolves id := by
  simp [resolutions]

theorem resolutions_of_silent {events : List Event} {event : Event} {id : ℕ}
    (h : event.resolves id = []) : resolutions (events ++ [event]) id = resolutions events id := by
  rw [resolutions_append_singleton, h, append_nil]

/-- The registry lists the pending slots, and open scopes only have handles of held owners. -/
structure Inv (events : List Event) (s : System) : Prop where
  ok : ∀ (id : ℕ) (q : Request), s.requests[id]? = some q → q.Ok
  listed : ∀ (key : String) (id : ℕ), s.entries[key]? = some id →
    ∃ q, s.requests[id]? = some q ∧ q.slot.key = key ∧ q.slot.result = .pending
  pending : ∀ (id : ℕ) (q : Request), s.requests[id]? = some q → q.slot.result = .pending →
    s.entries[q.slot.key]? = some id
  admitting : ∀ key digest, s.admitting = some (key, digest) →
    s.entries[key]? = none ∧ s.destroyed = false
  closed : ∀ (id : ℕ) (q : Request), s.requests[id]? = some q → q.slot.result = .closed →
    s.destroyed = true
  destroyed : s.destroyed = true → s.entries = ∅
  scopes : ∀ scope ∈ s.scopes, scope.isOpen = true → ∀ owner ∈ scope.retryOwners,
    ∃ q, s.requests[owner.slot]? = some q ∧ q.owner = .held
  reserved : ∀ (id : ℕ) (q : Request) (k : ℕ), s.requests[id]? = some q → q.descriptor = .reserved k →
    ∃ scope, s.scopes[k]? = some scope ∧ scope.isOpen = true ∧
      ∃ owner ∈ scope.retryOwners, owner.slot = id
  resolved : ∀ (id : ℕ) (q : Request), s.requests[id]? = some q →
    resolutions events id = if q.slot.result = .pending then [] else [q.slot.result]
  fresh : ∀ id, s.requests.length ≤ id → resolutions events id = []

namespace Inv
variable {events : List Event} {event : Event} {s s' : System}

theorem init (h : s.Opened) : Inv [] s := by
  constructor <;> simp [h.requests, h.entries, h.scopes, h.admitting, h.destroyed, resolutions]

/-- What a step does to one request. -/
structure Moves (s s' : System) (event : Event) (i : ℕ) (q q' : Request) : Prop where
  ok : q'.Ok
  key : q'.slot.key = q.slot.key
  result : q.slot.result ≠ .pending → q'.slot.result = q.slot.result
  resolves : event.resolves i = (q.resolution q').toList
  closed : q'.slot.result = .closed → s'.destroyed = true
  listed : ∀ key : String, s.entries[key]? = some i →
    (s'.entries[key]? = some i ↔ q'.slot.result = .pending)
  reserved : ∀ k, q'.descriptor = .reserved k → ∃ scope, s'.scopes[k]? = some scope ∧
    scope.isOpen = true ∧ ∃ owner ∈ scope.retryOwners, owner.slot = i

/-- Steps that change every request on its own. -/
theorem pointwise (h : Inv events s) (f : ℕ → Request → Request)
    (hreqs : ∀ i : ℕ, s'.requests[i]? = s.requests[i]?.map (f i))
    (hf : ∀ (i : ℕ) (q : Request), s.requests[i]? = some q → Moves s s' event i q (f i q))
    (hents : ∀ (key : String) (i : ℕ), s'.entries[key]? = some i → s.entries[key]? = some i)
    (hadmitting : ∀ key digest, s'.admitting = some (key, digest) →
      s'.entries[key]? = none ∧ s'.destroyed = false)
    (hdestroyed : s'.destroyed = true → s'.entries = ∅)
    (hscopes : ∀ scope ∈ s'.scopes, scope.isOpen = true → ∀ owner ∈ scope.retryOwners,
      ∃ q, s.requests[owner.slot]? = some q ∧ (f owner.slot q).owner = .held)
    (hfresh : ∀ i, s.requests.length ≤ i → event.resolves i = []) : Inv (events ++ [event]) s' := by
  have hget : ∀ (i : ℕ) (q' : Request), s'.requests[i]? = some q' →
      ∃ q, s.requests[i]? = some q ∧ f i q = q' := by
    intro i q' hi
    rw [hreqs] at hi
    exact Option.map_eq_some_iff.mp hi
  have hput : ∀ (i : ℕ) (q : Request), s.requests[i]? = some q →
      s'.requests[i]? = some (f i q) := by
    intro i q hq
    rw [hreqs, hq, Option.map_some]
  constructor
  · intro i q' hi
    obtain ⟨q, hq, rfl⟩ := hget i q' hi
    exact (hf i q hq).ok
  · intro key i hentry
    have hold := hents key i hentry
    obtain ⟨q, hq, hkey, -⟩ := h.listed key i hold
    have hmove := hf i q hq
    exact ⟨f i q, hput i q hq, hmove.key.trans hkey, (hmove.listed key hold).mp hentry⟩
  · intro i q' hi hp
    obtain ⟨q, hq, rfl⟩ := hget i q' hi
    have hmove := hf i q hq
    have hpending : q.slot.result = .pending := by
      by_contra hne
      exact hne ((hmove.result hne).symm.trans hp)
    rw [hmove.key]
    exact (hmove.listed _ (h.pending i q hq hpending)).mpr hp
  · exact hadmitting
  · intro i q' hi hc
    obtain ⟨q, hq, rfl⟩ := hget i q' hi
    exact (hf i q hq).closed hc
  · exact hdestroyed
  · intro scope hscope ho owner howner
    obtain ⟨q, hq, hheld⟩ := hscopes scope hscope ho owner howner
    exact ⟨_, hput _ q hq, hheld⟩
  · intro i q' k hi hd
    obtain ⟨q, hq, rfl⟩ := hget i q' hi
    exact (hf i q hq).reserved k hd
  · intro i q' hi
    obtain ⟨q, hq, rfl⟩ := hget i q' hi
    have hmove := hf i q hq
    rw [resolutions_append_singleton, h.resolved i q hq, hmove.resolves]
    unfold Request.resolution
    by_cases hp : q.slot.result = .pending
    · by_cases hp' : (f i q).slot.result = .pending <;> simp [hp, hp']
    · simp [hp, hmove.result hp]
  · intro i hi
    have hnone := hreqs i
    rw [getElem?_eq_none hi] at hnone
    have hlen := getElem?_eq_none_iff.mp (Option.map_eq_none_iff.mp hnone.symm)
    rw [resolutions_append_singleton, h.fresh i hlen, hfresh i hlen, append_nil]

theorem moves_of_slot (h : Inv events s) {i : ℕ} {q q' : Request} (hq : s.requests[i]? = some q)
    (hok : q'.Ok) (hslot : q'.slot = q.slot) (hevent : event.resolves i = [])
    (hdestroyed : s'.destroyed = s.destroyed)
    (hlisted : ∀ key : String, s.entries[key]? = some i → s'.entries[key]? = some i)
    (hresv : ∀ k, q'.descriptor = .reserved k → ∃ scope, s'.scopes[k]? = some scope ∧
      scope.isOpen = true ∧ ∃ owner ∈ scope.retryOwners, owner.slot = i) :
    Moves s s' event i q q' where
  ok := hok
  key := by rw [hslot]
  result _ := by rw [hslot]
  resolves := by
    rw [hevent, Request.resolution, hslot, if_neg fun hr => hr.2 hr.1]
    rfl
  closed hc := by
    rw [hdestroyed]
    rw [hslot] at hc
    exact h.closed i q hq hc
  listed key hentry := by
    obtain ⟨q₁, hq₁, -, hp⟩ := h.listed key i hentry
    obtain rfl := Option.mem_unique hq hq₁
    rw [hslot]
    exact iff_of_true (hlisted key hentry) hp
  reserved := hresv

theorem frame (h : Inv events s) (hreqs : s'.requests = s.requests)
    (hents : s'.entries = s.entries) (hdestroyed : s'.destroyed = s.destroyed)
    (hadmitting : ∀ key digest, s'.admitting = some (key, digest) →
      s.entries[key]? = none ∧ s.destroyed = false)
    (hscopes : ∀ scope ∈ s'.scopes, scope.isOpen = true → ∀ owner ∈ scope.retryOwners,
      ∃ q, s.requests[owner.slot]? = some q ∧ q.owner = .held)
    (hkept : ∀ (k : ℕ) (scope : Scope), s.scopes[k]? = some scope → scope.isOpen = true →
      ∃ scope', s'.scopes[k]? = some scope' ∧ scope'.isOpen = true ∧
        scope.retryOwners ⊆ scope'.retryOwners)
    (hevent : ∀ id, event.resolves id = []) : Inv (events ++ [event]) s' := by
  refine h.pointwise (fun _ q => q) ?_ ?_ ?_ ?_ ?_ hscopes fun i _ => hevent i
  · intro i
    rw [hreqs, Option.map_id']
  · intro i q hq
    refine h.moves_of_slot hq (h.ok i q hq) rfl (hevent i) hdestroyed ?_ ?_
    · rw [hents]
      exact fun _ hentry => hentry
    · intro k hd
      obtain ⟨scope, hscope, hopen, owner, howner, hid⟩ := h.reserved i q k hq hd
      obtain ⟨scope', hscope', hopen', hsub⟩ := hkept k scope hscope hopen
      exact ⟨scope', hscope', hopen', owner, hsub howner, hid⟩
  · rw [hents]
    exact fun _ _ hentry => hentry
  · rw [hents, hdestroyed]
    exact hadmitting
  · rw [hents, hdestroyed]
    exact h.destroyed

theorem lookup (h : Inv events s) {key digest : String} {id : ℕ} (hopen : s.destroyed = false)
    (hadmits : s.admitSenderRetry key digest = .ok (.owner id)) :
    Inv (events ++ [.lookup key digest]) { s with admitting := some (key, digest) } := by
  refine h.frame rfl rfl rfl ?_ h.scopes (fun k scope hscope ho => ⟨scope, hscope, ho, fun _ ho => ho⟩)
    fun _ => rfl
  intro key' digest' heq
  cases heq
  refine ⟨?_, hopen⟩
  unfold System.admitSenderRetry at hadmits
  cases hentry : s.entries[key]? with
  | none => rfl
  | some id' =>
    rw [hentry] at hadmits
    dsimp only at hadmits
    split_ifs at hadmits
    simp at hadmits

section
variable (h : Inv events s)
include h

theorem register {key digest : String} (hlock : s.admitting = some (key, digest)) :
    Inv (events ++ [.admitRetry key digest (.ok (.owner s.requests.length))])
    (s.register key digest) := by
  obtain ⟨hnone, hopen⟩ := h.admitting key digest hlock
  have hget : ∀ (id : ℕ) (q : Request), (s.register key digest).requests[id]? = some q →
      s.requests[id]? = some q ∨ id = s.requests.length ∧ q = ⟨.new key digest, .held, .unbound⟩ := by
    intro id q hq
    have hq : (s.requests ++ [⟨.new key digest, .held, .unbound⟩])[id]? = some q := hq
    rcases lt_or_ge id s.requests.length with hlt | hge
    · rw [getElem?_append_left hlt] at hq
      exact .inl hq
    · rw [getElem?_append_right hge, getElem?_singleton] at hq
      split_ifs at hq with hid
      exact .inr ⟨by omega, (Option.some.inj hq).symm⟩
  have hold : ∀ (id : ℕ) (q : Request), s.requests[id]? = some q →
      (s.register key digest).requests[id]? = some q := by
    intro id q hq
    exact (List.getElem?_append_left (List.getElem?_eq_some_iff.mp hq).1).trans hq
  have hnew : (s.register key digest).requests[s.requests.length]? =
      some ⟨.new key digest, .held, .unbound⟩ := by
    show (s.requests ++ [_])[s.requests.length]? = _
    simp
  have hents : ∀ key' : String, (s.register key digest).entries[key']? =
      if key = key' then some s.requests.length else s.entries[key']? :=
    fun key' => getElem?_insert_eq _ _ _ _
  constructor
  · intro id q hq
    rcases hget id q hq with hq | ⟨-, rfl⟩
    · exact h.ok id q hq
    · constructor <;> simp [Slot.new, OwnerPhase.alive, DescriptorPhase.durable, DescriptorPhase.InFlight]
  · intro key' id hentry
    rw [hents] at hentry
    split_ifs at hentry with heq
    · cases hentry
      exact ⟨_, hnew, heq, rfl⟩
    · obtain ⟨q, hq, hrest⟩ := h.listed key' id hentry
      exact ⟨q, hold id q hq, hrest⟩
  · intro id q hq hp
    rw [hents]
    rcases hget id q hq with hq | ⟨rfl, rfl⟩
    · have hentry := h.pending id q hq hp
      rw [if_neg]
      · exact hentry
      · rintro rfl
        exact absurd (hnone.symm.trans hentry) (by simp)
    · exact if_pos rfl
  · intro key' digest' hadmits
    exact absurd (show none = some (key', digest') from hadmits) (by simp)
  · intro id q hq hc
    rcases hget id q hq with hq | ⟨-, rfl⟩
    · exact h.closed id q hq hc
    · exact absurd hc (by simp [Slot.new])
  · intro hdestroyed
    exact absurd (hopen.symm.trans hdestroyed) (by decide)
  · intro scope hscope ho owner howner
    obtain ⟨q, hq, hheld⟩ := h.scopes scope hscope ho owner howner
    exact ⟨q, hold _ q hq, hheld⟩
  · intro id q k hq hd
    rcases hget id q hq with hq | ⟨-, rfl⟩
    · exact h.reserved id q k hq hd
    · exact absurd hd (by simp)
  · intro id q hq
    rw [resolutions_of_silent rfl]
    rcases hget id q hq with hq | ⟨rfl, rfl⟩
    · exact h.resolved id q hq
    · exact h.fresh _ le_rfl
  · intro id hid
    rw [resolutions_of_silent rfl]
    have hlen : (s.register key digest).requests.length = s.requests.length + 1 := length_append
    exact h.fresh id (by omega)

theorem bind {k id : ℕ} {q : Request} (target : String) (hq : s.requests[id]? = some q)
    (howner : q.owner = .held) : Inv (events ++ [.bind k id target]) (s.bind k id target) := by
  refine h.frame rfl rfl rfl h.admitting ?_ ?_ fun _ => rfl
  · intro scope hscope ho owner hmem
    obtain ⟨i, hi⟩ := getElem?_of_mem hscope
    have hi : (s.scopes.modify k _)[i]? = some scope := hi
    rw [getElem?_modify] at hi
    obtain ⟨scope₀, hscope₀, heq⟩ := Option.map_eq_some_iff.mp hi
    have hopen : scope₀.isOpen = true := by
      rw [← heq] at ho
      split_ifs at ho <;> exact ho
    have hmem : owner ∈ scope₀.retryOwners ∨ owner = ⟨id, target⟩ := by
      rw [← heq] at hmem
      split_ifs at hmem
      · simpa using hmem
      · exact .inl hmem
    rcases hmem with hmem | rfl
    · exact h.scopes scope₀ (mem_of_getElem? hscope₀) hopen owner hmem
    · exact ⟨q, hq, howner⟩
  · intro i scope hscope ho
    have hget : (s.bind k id target).scopes[i]? = (if k = i then some { scope with
        retryOwners := scope.retryOwners ++ [⟨id, target⟩] } else some scope) := by
      show (s.scopes.modify k _)[i]? = _
      rw [getElem?_modify, hscope]
      split_ifs <;> rfl
    rw [hget]
    split_ifs
    · exact ⟨_, rfl, ho, subset_append_left _ _⟩
    · exact ⟨scope, rfl, ho, fun _ hmem => hmem⟩

theorem endScope {k : ℕ} : Inv (events ++ [.endScope k]) (s.endScope k) := by
  have hscopes : ∀ i : ℕ, (s.endScope k).scopes[i]? =
      s.scopes[i]?.map fun scope => if k = i then { scope with isOpen := false } else scope :=
    fun i => getElem?_modify ..
  refine h.pointwise (fun _ q => if q.descriptor = .reserved k then { q with descriptor := .nonWrite } else q)
    (fun i => getElem?_map) ?_ (fun _ _ hentry => hentry) h.admitting h.destroyed ?_ fun _ _ => rfl
  · intro i q hq
    have hok := h.ok i q hq
    split_ifs with hd
    · exact h.moves_of_slot hq ((Move.endScope hd).ok hok fun hin => hin.elim) rfl rfl rfl
        (fun _ hentry => hentry) fun _ hd => by cases hd
    · refine h.moves_of_slot hq hok rfl rfl rfl (fun _ hentry => hentry) ?_
      intro j hj
      obtain ⟨scope, hscope, ho, hrest⟩ := h.reserved i q j hq hj
      refine ⟨scope, ?_, ho, hrest⟩
      rw [hscopes, hscope, Option.map_some, if_neg]
      rintro rfl
      exact hd hj
  · intro scope hscope ho owner howner
    obtain ⟨i, hi⟩ := getElem?_of_mem hscope
    rw [hscopes] at hi
    obtain ⟨scope₀, hscope₀, heq⟩ := Option.map_eq_some_iff.mp hi
    split_ifs at heq
    · rw [← heq] at ho
      cases ho
    · subst heq
      obtain ⟨q, hq, hheld⟩ := h.scopes scope₀ (mem_of_getElem? hscope₀) ho owner howner
      refine ⟨q, hq, ?_⟩
      split_ifs <;> exact hheld

end

section
variable {id : ℕ} {q q' : Request} {e : RequestEvent}

/-- Handles of open scopes are of held owners, so moves inside a scope are too. -/
theorem held_of_inScope (h : Inv events s) (hq : s.requests[id]? = some q)
    (hallows : s.Allows id q e) (hin : e.InScope) : q.owner = .held := by
  have hheld : ∀ scope ∈ s.scopes, scope.isOpen = true → ∀ owner ∈ scope.retryOwners,
      owner.slot = id → q.owner = .held := by
    intro scope hscope ho owner howner hid
    obtain ⟨q₀, hq₀, hheld⟩ := h.scopes scope hscope ho owner howner
    rw [hid, hq] at hq₀
    rw [Option.some.inj hq₀]
    exact hheld
  cases e with
  | attach k target =>
    obtain ⟨scope, hscope, ho, hattach⟩ := hallows
    obtain ⟨owner, hfind, hid⟩ := Option.map_eq_some_iff.mp hattach
    exact hheld scope (mem_of_getElem? hscope) ho owner (mem_of_find?_eq_some hfind) hid
  | handOff =>
    obtain ⟨k, scope, hd, hscope, ho⟩ := hallows
    obtain ⟨scope', hscope', ho', owner, howner, hid⟩ := h.reserved id q k hq hd
    exact hheld scope' (mem_of_getElem? hscope') ho' owner howner hid
  | _ => exact hin.elim

theorem remove_cases (h : Inv events s) (hq : s.requests[id]? = some q) (hmove : Move q e q') :
    (q.slot.result = .pending ∧ q'.slot.result ≠ .pending ∧
      s.remove id q q' = s.entries.erase q.slot.key) ∨
    (q'.slot.result = q.slot.result ∧ s.remove id q q' = s.entries) := by
  by_cases hp : q.slot.result = .pending
  · by_cases hp' : q'.slot.result = .pending
    · refine .inr ⟨hp'.trans hp.symm, if_neg ?_⟩
      exact fun hr => hr.2.1 hp'
    · exact .inl ⟨hp, hp', if_pos ⟨hp, hp', h.pending id q hq hp⟩⟩
  · exact .inr ⟨hmove.result_of_resolved hp, if_neg fun hr => hp hr.1⟩

theorem put (h : Inv events s) (hq : s.requests[id]? = some q) (hmove : Move q e q')
    (hallows : s.Allows id q e) :
    Inv (events ++ [.request id e (q.resolution q')]) (s.put id q q') := by
  have hok := h.ok id q hq
  have hcases := h.remove_cases hq hmove
  -- The registry only loses the entry of a slot that this move resolves.
  have hents : ∀ (key : String) (i : ℕ), (s.remove id q q')[key]? = some i →
      s.entries[key]? = some i := by
    intro key i hentry
    rcases hcases with ⟨-, -, herase⟩ | ⟨-, hkept⟩
    · rw [herase] at hentry
      exact (eq_some_of_erase hentry).2
    · rwa [hkept] at hentry
  have hsilent : ∀ i, id ≠ i → (Event.request id e (q.resolution q')).resolves i = [] := by
    intro i hne
    cases q.resolution q' with
    | none => rfl
    | some r => exact if_neg hne
  refine h.pointwise (fun i q₁ => if id = i then q' else q₁) ?_ ?_ hents ?_ ?_ ?_ ?_
  · intro i
    by_cases heq : id = i
    · subst heq
      simp [System.put, (List.getElem?_eq_some_iff.mp hq).1]
    · simp [System.put, heq]
  · intro i q₁ hq₁
    split_ifs with heq
    · subst heq
      obtain rfl := Option.mem_unique hq hq₁
      refine ⟨hmove.ok hok (h.held_of_inScope hq hallows), hmove.key, hmove.result_of_resolved, ?_, ?_, ?_, ?_⟩
      · cases q.resolution q' with
        | none => rfl
        | some r => exact if_pos rfl
      · intro hc
        refine h.closed id q hq (hmove.closed ?_ hok hc)
        rintro rfl
        exact hallows.elim
      · intro key hentry
        obtain ⟨q₁, hq₁, hkey, hp⟩ := h.listed key id hentry
        obtain rfl := Option.mem_unique hq hq₁
        show (s.remove id q q')[key]? = some id ↔ _
        rcases hcases with ⟨-, hp', herase⟩ | ⟨hsame, hkept⟩
        · rw [herase, hkey, getElem?_erase_eq, if_pos rfl]
          exact iff_of_false (by simp) hp'
        · rw [hkept]
          exact iff_of_true hentry (hsame.trans hp)
      · intro k hd
        rcases hmove.reserved hd with hd | ⟨target, rfl⟩
        · exact h.reserved id q k hq hd
        · obtain ⟨scope, hscope, ho, hattach⟩ := hallows
          obtain ⟨owner, hfind, hid⟩ := Option.map_eq_some_iff.mp hattach
          exact ⟨scope, hscope, ho, owner, mem_of_find?_eq_some hfind, hid⟩
    · refine h.moves_of_slot hq₁ (h.ok i q₁ hq₁) rfl (hsilent i heq) rfl ?_ fun k hd => h.reserved i q₁ k hq₁ hd
      intro key hentry
      show (s.remove id q q')[key]? = some i
      rcases hcases with ⟨hpending, -, herase⟩ | ⟨-, hkept⟩
      · rw [herase, getElem?_erase_of_ne]
        · exact hentry
        · rintro rfl
          exact heq (Option.some.inj ((h.pending id q hq hpending).symm.trans hentry))
      · rwa [hkept]
  · intro key digest hadmits
    obtain ⟨hnone, hopen⟩ := h.admitting key digest hadmits
    refine ⟨?_, hopen⟩
    by_contra hsome
    obtain ⟨i, hi⟩ := Option.ne_none_iff_exists'.mp hsome
    cases hnone.symm.trans (hents key i hi)
  · intro hdestroyed
    have hempty := h.destroyed hdestroyed
    show s.remove id q q' = ∅
    rcases hcases with ⟨-, -, herase⟩ | ⟨-, hkept⟩
    · rw [herase, hempty]
      rfl
    · rw [hkept, hempty]
  · intro scope hscope ho owner howner
    obtain ⟨q₁, hq₁, hheld⟩ := h.scopes scope hscope ho owner howner
    refine ⟨q₁, hq₁, ?_⟩
    split_ifs with heq
    · rw [← heq, hq] at hq₁
      cases hq₁
      have hreleased : ¬ s.Released id := fun hr => hr scope hscope ho owner howner heq.symm
      rcases hmove.held hheld with hheld | ⟨assignment, rfl⟩ | rfl | rfl
      · exact hheld
      · exact absurd hallows.1 hreleased
      · exact absurd hallows hreleased
      · exact absurd hallows hreleased
    · exact hheld
  · intro i hi
    apply hsilent
    rintro rfl
    exact absurd (List.getElem?_eq_some_iff.mp hq).1 (not_lt.mpr hi)

end

theorem getElem?_foldl_finish (ids : List ℕ) (requests : List Request) (i : ℕ) :
    (ids.foldl (fun requests id => requests.modify id fun q =>
      { q with slot := q.slot.finish .closed }) requests)[i]? =
      requests[i]?.map fun q => if i ∈ ids then { q with slot := q.slot.finish .closed } else q := by
  induction ids generalizing requests with
  | nil => simp
  | cons id ids ih =>
    rw [foldl_cons, ih, getElem?_modify]
    cases requests[i]? with
    | none => rfl
    | some q =>
      -- A slot that is closed twice is closed once.
      have htwice : (q.slot.finish .closed).finish .closed = q.slot.finish .closed :=
        Slot.finish_of_resolved _ _ (q.slot.finish_ne_pending (by simp))
      by_cases heq : id = i
      · subst heq
        by_cases hmem : id ∈ ids <;> simp [hmem, htwice]
      · have hne : i ≠ id := fun h => heq h.symm
        by_cases hmem : i ∈ ids <;> simp [hmem, heq, hne]

theorem close (h : Inv events s) (hlock : s.admitting = none) :
    Inv (events ++ [.close s.registered]) s.close := by
  have hregistered : ∀ i, i ∈ s.registered ↔
      ∃ q, s.requests[i]? = some q ∧ q.slot.result = .pending := by
    intro i
    unfold System.registered
    rw [mem_map]
    constructor
    · rintro ⟨⟨key, id⟩, hrow, rfl⟩
      obtain ⟨q, hq, -, hp⟩ := h.listed key id (mem_toList_iff.mp hrow)
      exact ⟨q, hq, hp⟩
    · rintro ⟨q, hq, hp⟩
      exact ⟨(q.slot.key, i), mem_toList_iff.mpr (h.pending i q hq hp), rfl⟩
  have hnone : ∀ (key : String) (i : ℕ), s.close.entries[key]? ≠ some i := by simp [System.close]
  have hsilent : ∀ i, i ∉ s.registered → (Event.close s.registered).resolves i = [] :=
    fun _ hnot => if_neg hnot
  refine h.pointwise _ (getElem?_foldl_finish s.registered s.requests) ?_ ?_ ?_ (fun _ => rfl) ?_ ?_
  · intro i q hq
    have hok := h.ok i q hq
    split_ifs with hmem
    · obtain ⟨q₁, hq₁, hp⟩ := (hregistered i).mp hmem
      obtain rfl := Option.mem_unique hq hq₁
      have hp' := q.slot.finish_ne_pending (r := .closed) (by simp)
      refine ⟨Move.close.ok hok fun hin => hin.elim, q.slot.finish_key _, fun hne => absurd hp hne, ?_,
        fun _ => rfl, fun key _ => iff_of_false (hnone key i) hp', fun k hd => h.reserved i q k hq hd⟩
      rw [Request.resolution, if_pos ⟨hp, hp'⟩, Slot.finish_result, if_pos hp]
      exact if_pos hmem
    · have hp : q.slot.result ≠ .pending := fun hp => hmem ((hregistered i).mpr ⟨q, hq, hp⟩)
      refine ⟨hok, rfl, fun _ => rfl, ?_, fun _ => rfl, fun key _ => iff_of_false (hnone key i) hp,
        fun k hd => h.reserved i q k hq hd⟩
      rw [hsilent i hmem, Request.resolution, if_neg fun hr => hp hr.1]
      rfl
  · exact fun key i hentry => absurd hentry (hnone key i)
  · intro key digest hadmits
    cases hlock.symm.trans hadmits
  · intro scope hscope ho owner howner
    obtain ⟨q, hq, hheld⟩ := h.scopes scope hscope ho owner howner
    refine ⟨q, hq, ?_⟩
    split_ifs <;> exact hheld
  · intro i hi
    apply hsilent
    rw [hregistered]
    rintro ⟨q, hq, -⟩
    exact absurd (List.getElem?_eq_some_iff.mp hq).1 (not_lt.mpr hi)

theorem step (h : Inv events s) (hstep : Step s event s') : Inv (events ++ [event]) s' := by
  have hkept : ∀ (k : ℕ) (scope : Scope), s.scopes[k]? = some scope → scope.isOpen = true →
      ∃ scope', s.scopes[k]? = some scope' ∧ scope'.isOpen = true ∧
        scope.retryOwners ⊆ scope'.retryOwners :=
    fun k scope hscope ho => ⟨scope, hscope, ho, fun _ hmem => hmem⟩
  cases hstep with
  | admitRetry | record key assignment | expire key =>
    exact h.frame rfl rfl rfl h.admitting h.scopes hkept fun _ => rfl
  | lookup hlock hopen hadmits => exact h.lookup hopen hadmits
  | register hlock => exact h.register hlock
  | openScope =>
    refine h.frame rfl rfl rfl h.admitting ?_ ?_ fun _ => rfl
    · intro scope hscope ho owner howner
      rcases mem_append.mp hscope with hscope | hscope
      · exact h.scopes scope hscope ho owner howner
      · rw [mem_singleton.mp hscope] at howner
        exact absurd howner not_mem_nil
    · intro k scope hscope ho
      refine ⟨scope, ?_, ho, fun _ hmem => hmem⟩
      exact (List.getElem?_append_left (List.getElem?_eq_some_iff.mp hscope).1).trans hscope
  | bind target hscope hopen hq howner => exact h.bind target hq howner
  | endScope hscope hopen => exact h.endScope
  | request hq hmove hallows => exact h.put hq hmove hallows
  | close hlock hopen => exact h.close hlock

end Inv

theorem inv_of_run {start s : System} {events : List Event} (hstart : start.Opened)
    (hrun : Run Step start events s) : Inv events s :=
  hrun.invariant (.init hstart) fun _ _ _ _ _ h hstep => h.step hstep

/-- In every reachable state a key has at most one unresolved slot, a slot has taken exactly the resolution
it shows, a slot whose write is in storage is not aborted, nobody becomes a new owner between a write of the
key and its assignment being visible, and once owner and descriptor are done the slot is resolved. -/
theorem retries_linearized {start s : System} {events : List Event} (hstart : start.Opened)
    (hrun : Run Step start events s) :
    (∀ (i j : ℕ) (q q' : Request), s.requests[i]? = some q → s.requests[j]? = some q' →
      q.slot.key = q'.slot.key → q.slot.result = .pending → q'.slot.result = .pending → i = j) ∧
    (∀ (id : ℕ) (q : Request), s.requests[id]? = some q →
      resolutions events id = if q.slot.result = .pending then [] else [q.slot.result]) ∧
    (∀ (id : ℕ) (q : Request), s.requests[id]? = some q →
      q.descriptor.Written ∨ q.slot.durable = true → q.slot.result ≠ .aborted) ∧
    (∀ (key digest : String) (n : ℕ) (s' : System),
      Step s (.admitRetry key digest (.ok (.owner n))) s' →
      ∀ (id : ℕ) (q : Request) (assignment : SenderAssignment), s.requests[id]? = some q →
        q.slot.key = key → q.descriptor ≠ .committed assignment) ∧
    (∀ (id : ℕ) (q : Request), s.requests[id]? = some q → q.owner = .gone →
      (q.descriptor = .unbound ∨ ∃ aborted, q.descriptor = .finished aborted) →
      q.slot.result ≠ .pending ∧ ∀ key : String, s.entries[key]? ≠ some id) := by
  have hinv := inv_of_run hstart hrun
  refine ⟨?_, hinv.resolved, fun id q hq => (hinv.ok id q hq).result_of_written, ?_, ?_⟩
  · intro i j q q' hq hq' hkey hp hp'
    have hi := hinv.pending i q hq hp
    rw [hkey, hinv.pending j q' hq' hp'] at hi
    exact (Option.some.inj hi).symm
  · intro key digest n s' hstep id q assignment hq hkey hd
    cases hstep with
    | admitRetry hlock hopen hadmits hres => exact hres n rfl
    | register hlock =>
      obtain ⟨hnone, hopen⟩ := hinv.admitting key digest hlock
      rcases (hinv.ok id q hq).inFlight (.inr ⟨assignment, hd⟩) with hp | hc
      · have hentry := hinv.pending id q hq hp
        rw [hkey, hnone] at hentry
        exact absurd hentry (by simp)
      · exact absurd (hopen.symm.trans (hinv.closed id q hq hc)) (by decide)
  · intro id q hq ho hd
    have hres := (hinv.ok id q hq).gone ho hd
    refine ⟨hres, ?_⟩
    intro key hentry
    obtain ⟨q', hq', -, hp⟩ := hinv.listed key id hentry
    obtain rfl := Option.mem_unique hq hq'
    exact hres hp

def emptyRegistry : System where
  requests := []
  entries := ∅
  assignments := ∅
  scopes := []
  admitting := none
  destroyed := false

theorem Step.move {s : System} {id : ℕ} {q q' : Request} {event : RequestEvent} {r : Option Resolution}
    (hq : s.requests[id]? = some q) (hmove : Move q event q') (hr : q.resolution q' = r)
    (hallows : s.Allows id q event) : Step s (.request id event r) (s.put id q q') :=
  hr ▸ .request hq hmove hallows

/-- The owner is dropped while its write completes; a duplicate waits meanwhile. -/
def dropWhileWriting : List Event :=
  [.lookup "k" "d", .admitRetry "k" "d" (.ok (.owner 0)), .openScope, .bind 0 0 "t",
    .request 0 (.attach 0 "t") none, .request 0 .handOff none, .endScope 0,
    .request 0 (.commit ⟨"t", "i", 1, 0, "d"⟩) none, .admitRetry "k" "d" (.ok (.waiting 0)),
    .request 0 .drop none, .request 0 .show none, .request 0 .accept none,
    .request 0 .storeDead none, .request 0 .loadBound none, .request 0 .storeDurable none,
    .request 0 .loadDurable none, .request 0 .loadAlive none, .request 0 .recheck (some .recheck),
    .request 0 .finish none]

theorem dropWhileWriting_resolved : ∃ s q, Run Step emptyRegistry dropWhileWriting s ∧
    s.requests[0]? = some q ∧ q.slot.durable = true ∧ q.slot.result ≠ .aborted ∧
    q.slot.result ≠ .pending ∧ s.entries["k"]? ≠ some 0 := by
  have hrun : ∃ s, Run Step emptyRegistry dropWhileWriting s ∧
      s.requests[0]? = some ⟨⟨"k", "d", true, false, true, .recheck⟩, .gone, .finished false⟩ := by
    apply Exists.intro
    constructor
    · exact .cons (@Step.lookup _ "k" "d" 0 rfl rfl (by decide +kernel)) <| .cons (.register rfl) <|
        .cons (.openScope _) <| .cons (.bind "t" rfl rfl rfl rfl) <|
        .cons (.move rfl (.attach 0 "t" rfl) rfl ⟨_, rfl, rfl, by decide +kernel⟩) <|
        .cons (.move rfl (.handOff rfl) rfl ⟨0, _, rfl, rfl, rfl⟩) <| .cons (.endScope rfl rfl) <|
        .cons (.move rfl (.commit _ rfl) rfl trivial) <|
        .cons (.admitRetry rfl rfl (by decide +kernel) (by simp)) <|
        .cons (.move rfl (.drop rfl) rfl (by unfold System.Allows System.Released; decide +kernel)) <|
        .cons (.move rfl (.show rfl) rfl trivial) <| .cons (.move rfl (.accept rfl) rfl trivial) <|
        .cons (.move rfl (.storeDead rfl) rfl trivial) <| .cons (.move rfl (.loadBound rfl) rfl trivial) <|
        .cons (.move rfl (.storeDurable rfl) rfl trivial) <|
        .cons (.move rfl (.loadDurable rfl) rfl trivial) <|
        .cons (.move rfl (.loadAlive rfl) rfl trivial) <|
        .cons (.move rfl (.recheck rfl) rfl (by exact rfl)) <|
        .cons (.move rfl (.finish rfl) rfl (by exact rfl)) .nil
    · decide +kernel
  obtain ⟨s, hrun, hq⟩ := hrun
  obtain ⟨-, -, hwritten, -, hgone⟩ := retries_linearized ⟨rfl, rfl, rfl, rfl, rfl⟩ hrun
  have hend := hgone 0 _ hq rfl (.inr ⟨false, rfl⟩)
  exact ⟨s, _, hrun, hq, rfl, hwritten 0 _ hq (.inr rfl), hend.1, hend.2 "k"⟩

end Ramflux.SenderRetry
