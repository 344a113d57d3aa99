import Ramflux.Node.SenderRetry

/-! One request of the sender retry registry: its flags, its owner and its descriptor along every move. -/
namespace Ramflux.SenderRetry
open OwnerPhase Slot DescriptorPhase

def OwnerPhase.alive : OwnerPhase → Bool
  | .held | .resolving _ | .dropping => true
  | _ => false

def DescriptorPhase.durable : DescriptorPhase → Bool
  | .stored | .rechecking | .finished false => true
  | _ => false

def DescriptorPhase.Written : DescriptorPhase → Prop
  | .committed _ | .visible | .accepted | .stored | .rechecking | .finished false => True
  | _ => False

def RequestEvent.InScope : RequestEvent → Prop
  | .attach _ _ | .handOff => True
  | _ => False

section
variable (slot : Slot) (r : Resolution)

theorem Slot.finish_of_pending (h : slot.result = .pending) :
    slot.finish r = { slot with result := r } := if_pos h

theorem Slot.finish_of_resolved (h : slot.result ≠ .pending) : slot.finish r = slot := if_neg h

@[simp] theorem Slot.finish_key : (slot.finish r).key = slot.key := by
  unfold finish
  split_ifs <;> rfl

@[simp] theorem Slot.finish_bound : (slot.finish r).bound = slot.bound := by
  unfold finish
  split_ifs <;> rfl

@[simp] theorem Slot.finish_durable : (slot.finish r).durable = slot.durable := by
  unfold finish
  split_ifs <;> rfl

@[simp] theorem Slot.finish_ownerAlive : (slot.finish r).ownerAlive = slot.ownerAlive := by
  unfold finish
  split_ifs <;> rfl

theorem Slot.finish_result :
    (slot.finish r).result = if slot.result = .pending then r else slot.result := by
  unfold finish
  split_ifs <;> rfl

theorem Slot.finish_ne_pending {r : Resolution} (hr : r ≠ .pending) : (slot.finish r).result ≠ .pending := by
  rw [finish_result]
  split_ifs with hp
  · exact hr
  · exact hp

end

/-- How a slot's flags agree with its owner and descriptor, and what a result says of them. -/
structure Request.Ok (q : Request) : Prop where
  bound : q.slot.bound = true ↔ q.descriptor ≠ .unbound
  alive : q.slot.ownerAlive = q.owner.alive
  durable : q.slot.durable = q.descriptor.durable
  rechecking : q.descriptor = .rechecking → q.slot.ownerAlive = false
  resolving : ∀ r, q.owner = .resolving r →
    ¬ q.descriptor.InFlight ∧ (r = .forwarded ∨ ∃ assignment, r = .accepted assignment)
  loaded : q.owner = .loaded → q.slot.bound = true
  finishing : ∀ r, q.owner = .finishing r →
    (r = .aborted ∧ q.descriptor = .unbound) ∨ (r = .recheck ∧ q.slot.durable = true)
  held : q.owner = .held → q.slot.result = .pending ∨ q.slot.result = .closed ∨
    q.descriptor = .finished true
  inFlight : q.descriptor.InFlight → q.slot.result = .pending ∨ q.slot.result = .closed
  aborted : q.slot.result = .aborted →
    q.descriptor = .finished true ∨ (q.descriptor = .unbound ∧ q.owner = .gone)
  aborting : q.descriptor = .finished true → q.slot.result ≠ .pending
  gone : q.owner = .gone → (q.descriptor = .unbound ∨ ∃ aborted, q.descriptor = .finished aborted) →
    q.slot.result ≠ .pending

section
variable {q q' : Request}

theorem Request.Ok.setDescriptor (h : q.Ok) (howner : q'.owner = q.owner)
    (hbound : q'.slot.bound = q.slot.bound) (halive : q'.slot.ownerAlive = q.slot.ownerAlive)
    (hres : q'.slot.result = q.slot.result) (hdurable : q'.slot.durable = q'.descriptor.durable)
    (hkept : q.slot.durable = true → q'.slot.durable = true)
    (hold : q.descriptor ≠ .unbound ∧ ∀ aborted, q.descriptor ≠ .finished aborted)
    (hnew : q'.descriptor ≠ .unbound ∧ ∀ aborted, q'.descriptor ≠ .finished aborted)
    (hrechecking : q'.descriptor = .rechecking → q.slot.ownerAlive = false)
    (hflight : q'.descriptor.InFlight → q.descriptor.InFlight ∨ q.owner = .held) : q'.Ok where
  bound := by
    rw [hbound]
    exact iff_of_true (h.bound.mpr hold.1) hnew.1
  alive := by rw [halive, howner, h.alive]
  durable := hdurable
  rechecking hd := halive.trans (hrechecking hd)
  resolving r hr := by
    rw [howner] at hr
    refine ⟨fun hf => ?_, (h.resolving r hr).2⟩
    rcases hflight hf with hf | ho
    · exact (h.resolving r hr).1 hf
    · exact absurd (ho.symm.trans hr) (by simp)
  loaded ho := hbound.trans (h.loaded (howner.symm.trans ho))
  finishing r hr := by
    rcases h.finishing r (howner.symm.trans hr) with ⟨-, hu⟩ | ⟨hr, hd⟩
    · exact absurd hu hold.1
    · exact .inr ⟨hr, hkept hd⟩
  held ho := by
    rw [hres]
    rcases h.held (howner.symm.trans ho) with hp | hc | hd
    · exact .inl hp
    · exact .inr (.inl hc)
    · exact absurd hd (hold.2 true)
  inFlight hf := by
    rw [hres]
    rcases hflight hf with hf | ho
    · exact h.inFlight hf
    · rcases h.held ho with hp | hc | hd
      · exact .inl hp
      · exact .inr hc
      · exact absurd hd (hold.2 true)
  aborted ha := by
    rcases h.aborted (hres.symm.trans ha) with hd | ⟨hd, -⟩
    · exact absurd hd (hold.2 true)
    · exact absurd hd hold.1
  aborting hd := absurd hd (hnew.2 true)
  gone _ hd := by
    rcases hd with hd | ⟨aborted, hd⟩
    · exact absurd hd hnew.1
    · exact absurd hd (hnew.2 aborted)

theorem Request.Ok.setOwner (h : q.Ok) (hdesc : q'.descriptor = q.descriptor)
    (hbound : q'.slot.bound = q.slot.bound) (hdurable : q'.slot.durable = q.slot.durable)
    (hres : q'.slot.result = q.slot.result) (halive : q'.slot.ownerAlive = q'.owner.alive)
    (hdead : q.slot.ownerAlive = false → q'.slot.ownerAlive = false) (hold : q.owner ≠ .gone)
    (hresolving : ∀ r, q'.owner = .resolving r →
      ¬ q.descriptor.InFlight ∧ (r = .forwarded ∨ ∃ assignment, r = .accepted assignment))
    (hloaded : q'.owner = .loaded → q.slot.bound = true) (hfinishing : ∀ r, q'.owner = .finishing r →
      (r = .aborted ∧ q.descriptor = .unbound) ∨ (r = .recheck ∧ q.slot.durable = true))
    (hheld : q'.owner ≠ .held)
    (hgone : q'.owner = .gone → q.slot.bound = true ∧ q.slot.durable = false) : q'.Ok where
  bound := by rw [hbound, hdesc, h.bound]
  alive := halive
  durable := by rw [hdurable, hdesc, h.durable]
  rechecking hd := hdead (h.rechecking (hdesc.symm.trans hd))
  resolving r hr := by
    rw [hdesc]
    exact hresolving r hr
  loaded ho := hbound.trans (hloaded ho)
  finishing r hr := by
    rw [hdesc, hdurable]
    exact hfinishing r hr
  held ho := absurd ho hheld
  inFlight hf := by
    rw [hdesc] at hf
    rw [hres]
    exact h.inFlight hf
  aborted ha := by
    rw [hdesc]
    rcases h.aborted (hres.symm.trans ha) with hd | ⟨-, ho⟩
    · exact .inl hd
    · exact absurd ho hold
  aborting hd := by
    rw [hres]
    exact h.aborting (hdesc.symm.trans hd)
  gone ho hd := by
    rw [hdesc] at hd
    rw [hres]
    obtain ⟨hb, hdur⟩ := hgone ho
    rw [h.durable] at hdur
    rcases hd with hd | ⟨aborted, hd⟩
    · exact absurd hd (h.bound.mp hb)
    · cases aborted with
      | true => exact h.aborting hd
      | false =>
        rw [hd] at hdur
        exact absurd hdur (by decide)

theorem Request.Ok.finishDescriptor (h : q.Ok) (aborted : Bool)
    (hdesc : q'.descriptor = .finished aborted) (howner : q'.owner = q.owner)
    (hbound : q'.slot.bound = q.slot.bound) (halive : q'.slot.ownerAlive = q.slot.ownerAlive)
    (hdurable : q'.slot.durable = q.slot.durable) (hphase : q.descriptor.durable = !aborted)
    (hold : q.descriptor ≠ .unbound ∧ ∀ aborted, q.descriptor ≠ .finished aborted)
    (hheld : q.owner = .held → q'.slot.result = q.slot.result ∨ aborted = true)
    (haborted : q'.slot.result = .aborted → aborted = true ∨ q.slot.result = .aborted)
    (hpending : q'.slot.result = .pending → aborted = false ∧ q.owner ≠ .gone) : q'.Ok where
  bound := by
    rw [hbound, hdesc]
    exact iff_of_true (h.bound.mpr hold.1) (by simp)
  alive := by rw [halive, howner, h.alive]
  durable := by
    rw [hdurable, h.durable, hphase, hdesc]
    cases aborted <;> rfl
  rechecking hd := by simp [hdesc] at hd
  resolving r hr := by
    refine ⟨?_, (h.resolving r (howner.symm.trans hr)).2⟩
    simp [InFlight, hdesc]
  loaded ho := hbound.trans (h.loaded (howner.symm.trans ho))
  finishing r hr := by
    rw [hdurable]
    rcases h.finishing r (howner.symm.trans hr) with ⟨-, hu⟩ | hr
    · exact absurd hu hold.1
    · exact .inr hr
  held ho := by
    rw [howner] at ho
    rcases hheld ho with hsame | rfl
    · rw [hsame]
      rcases h.held ho with hp | hc | hd
      · exact .inl hp
      · exact .inr (.inl hc)
      · exact absurd hd (hold.2 true)
    · exact .inr (.inr hdesc)
  inFlight hf := by simp [InFlight, hdesc] at hf
  aborted ha := by
    rcases haborted ha with rfl | ha
    · exact .inl hdesc
    · rcases h.aborted ha with hd | ⟨hd, -⟩
      · exact absurd hd (hold.2 true)
      · exact absurd hd hold.1
  aborting hd hp := by
    rw [hdesc, (hpending hp).1] at hd
    exact absurd hd (by simp)
  gone ho _ hp := (hpending hp).2 (howner.symm.trans ho)

/-- A resolution that an owner or the end of the registry gives to a slot. -/
theorem Request.Ok.finishSlot (h : q.Ok) {r : Resolution} (hr : r ≠ .pending)
    (hslot : q'.slot = q.slot.finish r) (hdesc : q'.descriptor = q.descriptor)
    (halive : q.owner.alive = q'.owner.alive) (howner : q'.owner = q.owner ∨ q'.owner = .dropping ∨ q'.owner = .gone)
    (hflight : q.descriptor.InFlight → r = .closed) (hheld : q'.owner = .held → r = .closed)
    (haborted : r = .aborted → q.descriptor = .unbound ∧ q'.owner = .gone)
    (hgone : q.owner = .gone → q'.owner = .gone) : q'.Ok := by
  have hres : q'.slot.result ≠ .pending := by
    rw [hslot]
    exact q.slot.finish_ne_pending hr
  have hphase : ∀ phase, q'.owner = phase → phase ≠ .dropping → phase ≠ .gone → q.owner = phase := by
    intro phase hp hdropping hgone
    rcases howner with ho | ho | ho
    · exact ho.symm.trans hp
    · exact absurd (hp.symm.trans ho) hdropping
    · exact absurd (hp.symm.trans ho) hgone
  constructor
  · rw [hslot, finish_bound, hdesc, h.bound]
  · rw [hslot, finish_ownerAlive, h.alive, halive]
  · rw [hslot, finish_durable, hdesc, h.durable]
  · intro hd
    rw [hslot, finish_ownerAlive]
    exact h.rechecking (hdesc.symm.trans hd)
  · intro r' hr'
    rw [hdesc]
    exact h.resolving r' (hphase _ hr' (by simp) (by simp))
  · intro ho
    rw [hslot, finish_bound]
    exact h.loaded (hphase _ ho (by simp) (by simp))
  · intro r' hr'
    rw [hslot, finish_durable, hdesc]
    exact h.finishing r' (hphase _ hr' (by simp) (by simp))
  · intro ho
    rw [hslot, finish_result, hdesc]
    rcases h.held (hphase _ ho (by simp) (by simp)) with hp | hc | hd
    · rw [if_pos hp]
      exact .inr (.inl (hheld ho))
    · rw [hc, if_neg (by simp)]
      exact .inr (.inl rfl)
    · exact .inr (.inr hd)
  · intro hf
    rw [hdesc] at hf
    rw [hslot, finish_result]
    rcases h.inFlight hf with hp | hc
    · rw [if_pos hp]
      exact .inr (hflight hf)
    · rw [hc, if_neg (by simp)]
      exact .inr rfl
  · intro ha
    rw [hslot, finish_result] at ha
    rw [hdesc]
    split_ifs at ha
    · exact .inr (haborted ha)
    · rcases h.aborted ha with hd | ⟨hd, ho⟩
      · exact .inl hd
      · exact .inr ⟨hd, hgone ho⟩
  · intro _
    exact hres
  · intro _ _
    exact hres

end

theorem Move.ok {q q' : Request} {event : RequestEvent} (hmove : Move q event q') (h : q.Ok)
    (hscope : event.InScope → q.owner = .held) : q'.Ok := by
  cases hmove with
  | attach scope target hb =>
    have ho := hscope trivial
    have hd : q.descriptor = .unbound := by
      by_contra hne
      rw [h.bound.mpr hne] at hb
      exact absurd hb (by decide)
    have hdurable := h.durable
    rw [hd] at hdurable
    have hres : q.slot.result = .pending ∨ q.slot.result = .closed := by
      have hheld := h.held ho
      rw [hd] at hheld
      simpa using hheld
    refine ⟨by simp, h.alive, hdurable, by simp, by simp [ho], by simp [ho], by simp [ho], ?_,
      by simp [DescriptorPhase.InFlight], ?_, by simp, by simp⟩
    · intro _
      exact hres.imp_right .inl
    · intro ha
      rcases hres with hp | hc
      · exact absurd (hp.symm.trans ha) (by simp)
      · exact absurd (hc.symm.trans ha) (by simp)
  | endScope hd | commit assignment hd | «show» hd | accept hd =>
    apply h.setDescriptor <;> simp [DescriptorPhase.InFlight, DescriptorPhase.durable, h.durable, hd]
  | handOff hd =>
    have ho := hscope trivial
    apply h.setDescriptor <;> simp [DescriptorPhase.InFlight, DescriptorPhase.durable, h.durable, hd, ho]
  | storeDurable hd =>
    apply h.setDescriptor <;> simp [DescriptorPhase.InFlight, DescriptorPhase.durable, hd]
  | claim hd =>
    rcases hd with ⟨scope, hd⟩ | hd <;> apply h.setDescriptor <;>
      simp [DescriptorPhase.InFlight, DescriptorPhase.durable, h.durable, hd]
  | loadAlive hd =>
    cases ha : q.slot.ownerAlive with
    | false =>
      apply h.setDescriptor <;> simp [DescriptorPhase.InFlight, DescriptorPhase.durable, h.durable, hd, ha]
    | true =>
      have hgone : q.owner ≠ .gone := by
        intro ho
        rw [h.alive, ho] at ha
        exact absurd ha (by decide)
      refine h.finishDescriptor false rfl rfl rfl rfl rfl ?_ ?_ (fun _ => .inl rfl) .inr
        fun _ => ⟨rfl, hgone⟩
      · rw [hd]
        rfl
      · simp [hd]
  | recheck hd =>
    have hheld : q.owner ≠ .held := by
      intro ho
      have hdead := h.rechecking hd
      rw [h.alive, ho] at hdead
      exact absurd hdead (by decide)
    refine h.finishDescriptor false rfl rfl (q.slot.finish_bound _)
      (q.slot.finish_ownerAlive _) (q.slot.finish_durable _) ?_ ?_ (fun ho => absurd ho hheld) ?_
      fun hp => absurd hp (q.slot.finish_ne_pending (by simp))
    · rw [hd]
      rfl
    · simp [hd]
    · intro ha
      rw [finish_result] at ha
      split_ifs at ha
      exact .inr ha
  | abort hd =>
    refine h.finishDescriptor true rfl rfl (q.slot.finish_bound _)
      (q.slot.finish_ownerAlive _) (q.slot.finish_durable _) ?_ ?_ (fun _ => .inr rfl)
      (fun _ => .inl rfl) fun hp => absurd hp (q.slot.finish_ne_pending (by simp))
    · rw [hd]
      rfl
    · simp [hd]
  | accepted assignment ho hf | forwarded ho hf =>
    apply h.setOwner <;> simp [h.alive, ho, alive, hf]
  | drop ho =>
    apply h.setOwner <;> simp [h.alive, ho, alive]
  | storeDead ho =>
    apply h.setOwner <;> simp [ho, alive]
  | loadBound ho =>
    cases hb : q.slot.bound with
    | true => apply h.setOwner <;> simp [h.alive, ho, alive, hb]
    | false =>
      have hd : q.descriptor = .unbound := by
        by_contra hne
        rw [h.bound.mpr hne] at hb
        exact absurd hb (by decide)
      apply h.setOwner <;> simp [h.alive, ho, alive, hb, hd]
  | loadDurable ho =>
    have hb := h.loaded ho
    cases hdurable : q.slot.durable with
    | true => apply h.setOwner <;> simp [h.alive, ho, alive, hdurable]
    | false => apply h.setOwner <;> simp [h.alive, ho, alive, hb, hdurable]
  | @resolve r ho =>
    obtain ⟨hflight, hr⟩ := h.resolving r ho
    refine h.finishSlot (r := r) ?_ rfl rfl ?_ (.inr (.inl rfl)) (fun hf => absurd hf hflight)
      (fun ho => absurd ho (by simp)) ?_ fun hgone => absurd (ho.symm.trans hgone) (by simp)
    · rcases hr with rfl | ⟨assignment, rfl⟩ <;> simp
    · rw [ho]
      rfl
    · rcases hr with rfl | ⟨assignment, rfl⟩ <;> simp
  | @finish r ho =>
    have hr := h.finishing r ho
    refine h.finishSlot (r := r) ?_ rfl rfl ?_ (.inr (.inr rfl)) ?_ (fun ho => absurd ho (by simp)) ?_
      fun _ => rfl
    · rcases hr with ⟨rfl, -⟩ | ⟨rfl, -⟩ <;> simp
    · rw [ho]
      rfl
    · rintro (hd | ⟨assignment, hd⟩)
      · rcases hr with ⟨-, hu⟩ | ⟨-, hdurable⟩
        · exact absurd (hd.symm.trans hu) (by simp)
        · rw [h.durable, hd] at hdurable
          exact absurd hdurable (by decide)
      · rcases hr with ⟨-, hu⟩ | ⟨-, hdurable⟩
        · exact absurd (hd.symm.trans hu) (by simp)
        · rw [h.durable, hd] at hdurable
          exact absurd hdurable (by simp [DescriptorPhase.durable])
    · rintro rfl
      rcases hr with ⟨-, hu⟩ | ⟨hr, -⟩
      · exact ⟨hu, rfl⟩
      · exact absurd hr (by simp)
  | close =>
    exact h.finishSlot (r := .closed) (by simp) rfl rfl rfl (.inl rfl) (fun _ => rfl) (fun _ => rfl)
      (fun ha => absurd ha (by simp)) fun ho => ho

section
variable {q q' : Request} {event : RequestEvent} (hmove : Move q event q')
include hmove

theorem Move.key : q'.slot.key = q.slot.key := by
  cases hmove <;> first | rfl | exact q.slot.finish_key _

theorem Move.result_of_resolved (h : q.slot.result ≠ .pending) : q'.slot.result = q.slot.result := by
  cases hmove <;> first | rfl | rw [q.slot.finish_of_resolved _ h]

theorem Move.closed (hevent : event ≠ .close) (hok : q.Ok) (h : q'.slot.result = .closed) :
    q.slot.result = .closed := by
  by_contra hne
  by_cases hp : q.slot.result = .pending
  · cases hmove with
    | recheck hd | abort hd => simp [finish_of_pending _ _ hp] at h
    | @resolve r ho =>
      rw [finish_of_pending _ _ hp] at h
      have hr := (hok.resolving r ho).2
      rw [show r = .closed from h] at hr
      simp at hr
    | @finish r ho =>
      rw [finish_of_pending _ _ hp] at h
      have hr := hok.finishing r ho
      rw [show r = .closed from h] at hr
      simp at hr
    | close => exact hevent rfl
    | _ => exact hne h
  · exact hne ((hmove.result_of_resolved hp).symm.trans h)

theorem Move.held (h : q.owner = .held) :
    q'.owner = .held ∨ (∃ assignment, event = .accepted assignment) ∨ event = .forwarded ∨
      event = .drop := by
  cases hmove with
  | accepted assignment => exact .inr (.inl ⟨assignment, rfl⟩)
  | forwarded => exact .inr (.inr (.inl rfl))
  | drop => exact .inr (.inr (.inr rfl))
  | resolve ho | storeDead ho | loadBound ho | loadDurable ho | finish ho =>
    exact absurd (h.symm.trans ho) (by simp)
  | _ => exact .inl h

theorem Move.reserved {k : ℕ} (h : q'.descriptor = .reserved k) :
    q.descriptor = .reserved k ∨ ∃ target, event = .attach k target := by
  cases hmove with
  | attach scope target =>
    obtain rfl := reserved.inj h
    exact .inr ⟨target, rfl⟩
  | loadAlive hd =>
    split_ifs at h
  | accepted | forwarded | resolve | drop | storeDead | loadBound | loadDurable | finish | close =>
    exact .inl h
  | _ => exact absurd h (by simp)

end

/-- What a slot with a written descriptor cannot resolve to. -/
theorem Request.Ok.result_of_written {q : Request} (h : q.Ok)
    (hwritten : q.descriptor.Written ∨ q.slot.durable = true) : q.slot.result ≠ .aborted := by
  intro ha
  rw [h.durable] at hwritten
  rcases h.aborted ha with hd | ⟨hd, -⟩ <;> rw [hd] at hwritten <;>
    simp [DescriptorPhase.Written, DescriptorPhase.durable] at hwritten

end Ramflux.SenderRetry
