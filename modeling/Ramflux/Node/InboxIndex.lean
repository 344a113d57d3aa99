import Ramflux.Node.InboxViews

/-! Rows, deadlines and expiry index of an inbox describe the same deliveries, and its loops run to
their end. -/
namespace Ramflux.OpaqueDeviceInbox
open OrdMap Std.ExtTreeMap Option

/-- Rows are stored under their own names, and they, the deadlines and a built index agree. -/
structure Consistent (ib : OpaqueDeviceInbox) : Prop where
  entry : ∀ (target : String) (seq : ℕ) (entry : InboxEntry),
    (ib.rows target)[seq]? = some entry → entry.inboxSeq = seq ∧ entry.target = target
  deadline : ∀ (target : String) (seq : ℕ), seq ∈ ib.deadlines target ↔ seq ∈ ib.rows target
  due : ib.expiry.ready = true → ∀ d : Due,
    d ∈ ib.expiry.due ↔ (ib.deadlines d.target)[d.seq]? = some d.deadline

variable {d : Due}

namespace Consistent
variable {ib : OpaqueDeviceInbox} (h : ib.Consistent) (clock : ℤ) {target : String} {seq : ℕ}

theorem of_new : Consistent .new where
  entry target seq entry hrow := by simp [new, rows, submap] at hrow
  deadline target seq := by simp [new, rows, deadlines, submap]
  due hready := by simp [new] at hready

include h

theorem deadline_eq_none (hrow : (ib.rows target)[seq]? = none) :
    (ib.deadlines target)[seq]? = none := by
  rw [← not_isSome_iff_eq_none, ← mem_iff_isSome_getElem?] at hrow ⊢
  rwa [h.deadline]

theorem retainUntilOf_eq {entry : InboxEntry} (hrow : (ib.rows target)[seq]? = some entry) :
    (ib.deadlines target)[seq]? = some (ib.retainUntilOf clock entry) := by
  obtain ⟨hseq, htgt⟩ := h.entry _ _ _ hrow
  have hmem : seq ∈ ib.deadlines target := by
    rw [h.deadline, mem_iff_exists]
    exact ⟨entry, hrow⟩
  obtain ⟨deadline, hdeadline⟩ := mem_iff_exists.mp hmem
  rw [retainUntilOf, htgt, hseq, hdeadline]
  rfl

theorem modifyCursor (target : String) (f : CursorAckState → CursorAckState) :
    (ib.modifyCursor target f).Consistent :=
  ⟨h.entry, h.deadline, h.due⟩

theorem retirePending (target : String) (seq : ℕ) :
    (ib.retirePending clock target seq).2.Consistent := by
  cases hrow : (ib.rows target)[seq]? with
  | none =>
    rw [retirePending_of_none clock ib target seq hrow]
    exact h
  | some entry =>
    have hdeadline := h.retainUntilOf_eq clock hrow
    refine ⟨?_, ?_, ?_⟩
    · intro other q e he
      rw [rows_retirePending] at he
      split_ifs at he with heq
      · exact heq ▸ h.entry _ _ _ (eq_some_of_erase he).2
      · exact h.entry _ _ _ he
    · intro other q
      rw [rows_retirePending, deadlines_retirePending clock ib target seq hrow]
      split_ifs with heq
      · simp only [mem_erase, h.deadline]
      · exact h.deadline other q
    · intro hready d
      rw [ready_retirePending] at hready
      rw [due_retirePending clock ib target seq hrow, if_pos hready, OrdSet.mem_erase_iff,
        h.due hready, deadlines_retirePending clock ib target seq hrow]
      obtain ⟨deadline, other, q⟩ := d
      by_cases heq : target = other
      · subst heq
        rw [if_pos rfl, getElem?_erase_eq]
        by_cases hq : seq = q
        · subst hq
          rw [if_pos rfl, hdeadline]
          simp [eq_comm]
        · rw [if_neg hq]
          refine and_iff_right ?_
          intro hsame
          exact hq (congrArg Due.seq hsame).symm
      · rw [if_neg heq]
        refine and_iff_right ?_
        intro hsame
        exact heq (congrArg Due.target hsame).symm

theorem appendAt (envelope : Envelope) (now : ℤ)
    (hfresh : (ib.rows envelope.target)[ib.next envelope.target]? = none) :
    (ib.appendAt envelope now).2.Consistent := by
  refine ⟨?_, ?_, ?_⟩
  · intro other q e he
    rw [rows_appendAt] at he
    split_ifs at he with heq
    · obtain ⟨hq, rfl⟩ | ⟨-, he⟩ := eq_some_of_insert he
      · exact ⟨hq, rfl⟩
      · exact h.entry _ _ _ he
    · exact h.entry _ _ _ he
  · intro other q
    rw [rows_appendAt, deadlines_appendAt]
    split_ifs with heq
    · simp only [mem_insert, h.deadline]
    · exact h.deadline other q
  · intro hready d
    rw [ready_appendAt] at hready
    have hnone := h.deadline_eq_none hfresh
    rw [due_appendAt ib envelope now hready hnone, OrdSet.mem_insert_iff, h.due hready,
      deadlines_appendAt]
    obtain ⟨deadline, other, q⟩ := d
    by_cases heq : envelope.target = other
    · subst heq
      rw [if_pos rfl, getElem?_insert_eq]
      by_cases hq : ib.next envelope.target = q
      · subst hq
        rw [if_pos rfl, hnone]
        simp [eq_comm]
      · rw [if_neg hq]
        refine or_iff_right ?_
        intro hsame
        exact hq (congrArg Due.seq hsame).symm
    · rw [if_neg heq]
      refine or_iff_right ?_
      intro hsame
      exact heq (congrArg Due.target hsame).symm

omit h in
theorem mem_pendingEntries (ib : OpaqueDeviceInbox) (entry : InboxEntry) :
    entry ∈ ib.pendingEntries ↔
      ∃ (target : String) (seq : ℕ), (ib.rows target)[seq]? = some entry := by
  unfold pendingEntries
  simp only [List.mem_flatMap, List.mem_map, Prod.exists, exists_eq_right, mem_toList_iff]
  constructor
  · rintro ⟨target, stored, hstored, seq, hrow⟩
    refine ⟨target, seq, ?_⟩
    rw [rows, submap, hstored]
    exact hrow
  · rintro ⟨target, seq, hrow⟩
    cases hstored : ib.pending[target]? with
    | none =>
      rw [rows, submap, hstored] at hrow
      simp at hrow
    | some stored =>
      rw [rows, submap, hstored] at hrow
      exact ⟨target, stored, hstored, seq, hrow⟩

theorem ensureExpiryIndex : (ib.ensureExpiryIndex clock).Consistent ∧
    ∃ due, ib.ensureExpiryIndex clock = { ib with expiry := ⟨true, due⟩ } := by
  unfold OpaqueDeviceInbox.ensureExpiryIndex
  split_ifs with hready
  · refine ⟨h, ib.expiry.due, ?_⟩
    rw [← hready]
  · have hmissing : ib.pendingEntries.filter (fun entry =>
        entry.inboxSeq ∉ ib.deadlines entry.target) = [] := by
      rw [List.filter_eq_nil_iff]
      intro entry hentry
      obtain ⟨target, seq, hrow⟩ := (mem_pendingEntries ib entry).mp hentry
      obtain ⟨hseq, htgt⟩ := h.entry _ _ _ hrow
      have hmem : seq ∈ ib.deadlines target :=
        (h.deadline _ _).mpr (mem_of_eq_some hrow)
      simpa [hseq, htgt] using hmem
    rw [hmissing]
    refine ⟨⟨h.entry, h.deadline, ?_⟩, _, rfl⟩
    intro _ d
    change d ∈ ib.pendingEntries.foldl
      (fun (due : OrdSet Due) entry => due.insert (ib.dueOf clock entry)) ∅ ↔
      (ib.deadlines d.target)[d.seq]? = some d.deadline
    rw [OrdSet.mem_foldl_insert (ib.dueOf clock)]
    constructor
    · rintro (hempty | ⟨entry, hentry, rfl⟩)
      · simp at hempty
      · obtain ⟨target, seq, hrow⟩ := (mem_pendingEntries ib entry).mp hentry
        obtain ⟨hseq, htgt⟩ := h.entry _ _ _ hrow
        have hdeadline := h.retainUntilOf_eq clock hrow
        rw [← hseq, ← htgt] at hdeadline
        exact hdeadline
    · intro hdeadline
      have hmem : d.seq ∈ ib.rows d.target := by
        rw [← h.deadline, mem_iff_exists]
        exact ⟨_, hdeadline⟩
      obtain ⟨entry, hrow⟩ := mem_iff_exists.mp hmem
      obtain ⟨hseq, htgt⟩ := h.entry _ _ _ hrow
      have hstored := h.retainUntilOf_eq clock hrow
      refine .inr ⟨entry, (mem_pendingEntries ib entry).mpr ⟨_, _, hrow⟩, ?_⟩
      have hsame : ib.retainUntilOf clock entry = d.deadline :=
        some.inj (hstored.symm.trans hdeadline)
      rw [dueOf, hsame, hseq, htgt]

theorem expire_round (hready : ib.expiry.ready = true) (hd : d ∈ ib.expiry.due) :
    d.seq ∈ ib.rows d.target ∧
    OpaqueDeviceInbox.retirePending clock
        { ib with expiry := { ib.expiry with due := ib.expiry.due.erase d } } d.target d.seq =
      ib.retirePending clock d.target d.seq := by
  have hdeadline := (h.due hready d).mp hd
  have hmem : d.seq ∈ ib.rows d.target := by
    rw [← h.deadline, mem_iff_exists]
    exact ⟨_, hdeadline⟩
  refine ⟨hmem, ?_⟩
  obtain ⟨entry, hrow⟩ := mem_iff_exists.mp hmem
  have hsame : ib.retainUntilOf clock entry = d.deadline :=
    some.inj ((h.retainUntilOf_eq clock hrow).symm.trans hdeadline)
  have herase : (ib.expiry.due.erase d).erase d = ib.expiry.due.erase d := by
    refine Std.ExtTreeSet.ext_mem fun a => ?_
    simp only [OrdSet.mem_erase_iff]
    tauto
  generalize hpopped : { ib with expiry := { ib.expiry with due := ib.expiry.due.erase d } } = popped
  have hrow' : (popped.rows d.target)[d.seq]? = some entry := by
    rw [← hpopped]
    exact hrow
  have hsame' : popped.retainUntilOf clock entry = d.deadline := by
    rw [← hpopped]
    exact hsame
  have hready' : popped.expiry.ready = true := by
    rw [← hpopped]
    exact hready
  unfold OpaqueDeviceInbox.retirePending
  rw [hrow, hrow']
  simp only [retainUntilOf, deadlines] at hsame hsame' ⊢
  rw [hsame, hsame', if_pos hready, if_pos hready', ← hpopped]
  simp only [herase]
  rfl

end Consistent

section
variable (clock now : ℤ)

variable {ib : OpaqueDeviceInbox} {target : String} {entrySeq : ℕ}

theorem expireLoop_succ (h : ib.Consistent) (hready : ib.expiry.ready = true)
    (rounds : ℕ) (removed : List InboxEntry) (touched : OrdSet String)
    (hfirst : ib.expiry.due.first? = some d) (hdue : d.deadline ≤ now) :
    expireLoop clock now (rounds + 1) ib removed touched =
      expireLoop clock now rounds (ib.retirePending clock d.target d.seq).2
        (removed ++ (ib.retirePending clock d.target d.seq).1.toList) (touched.insert d.target) := by
  have hround := (h.expire_round clock hready (OrdSet.mem_of_first? _ hfirst)).2
  rw [expireLoop, hfirst]
  dsimp only
  rw [if_neg (by omega), hround]

theorem due_retire (h : ib.Consistent) (hready : ib.expiry.ready = true) (hd : d ∈ ib.expiry.due) :
    (ib.retirePending clock d.target d.seq).2.expiry.due = ib.expiry.due.erase d := by
  obtain ⟨hmem, -⟩ := h.expire_round clock hready hd
  obtain ⟨entry, hrow⟩ := mem_iff_exists.mp hmem
  have hsame : ib.retainUntilOf clock entry = d.deadline :=
    some.inj ((h.retainUntilOf_eq clock hrow).symm.trans ((h.due hready d).mp hd))
  rw [due_retirePending clock ib _ _ hrow, if_pos hready, hsame]

/-- What the retirement of a due delivery keeps holds at the end of the expiry loop. -/
theorem expireLoop_induct {P : OpaqueDeviceInbox → OrdSet String → Prop}
    (hstep : ∀ ib touched d, ib.Consistent → ib.expiry.ready = true → P ib touched →
      d ∈ ib.expiry.due → d.deadline ≤ now →
      P (ib.retirePending clock d.target d.seq).2 (touched.insert d.target))
    (rounds : ℕ) (h : ib.Consistent) (hready : ib.expiry.ready = true)
    (removed : List InboxEntry) (touched : OrdSet String) (hP : P ib touched) :
    (expireLoop clock now rounds ib removed touched).2.2.Consistent ∧
      (expireLoop clock now rounds ib removed touched).2.2.expiry.ready = true ∧
      P (expireLoop clock now rounds ib removed touched).2.2
        (expireLoop clock now rounds ib removed touched).2.1 := by
  induction rounds generalizing ib removed touched with
  | zero => exact ⟨h, hready, hP⟩
  | succ rounds ih =>
    cases hfirst : ib.expiry.due.first? with
    | none =>
      rw [expireLoop, hfirst]
      exact ⟨h, hready, hP⟩
    | some d =>
      by_cases hdue : d.deadline ≤ now
      · rw [expireLoop_succ clock now h hready rounds removed touched hfirst hdue]
        refine ih (h.retirePending clock _ _) ?_ _ _ ?_
        · rw [ready_retirePending]
          exact hready
        · exact hstep _ _ _ h hready hP (OrdSet.mem_of_first? _ hfirst) hdue
      · rw [expireLoop, hfirst]
        dsimp only
        rw [if_pos (by omega)]
        exact ⟨h, hready, hP⟩

theorem Due.deadline_le_of_compare {a b : Due} (h : (compare a b).isLE) : a.deadline ≤ b.deadline := by
  obtain ⟨d, t, s⟩ := a
  obtain ⟨d', t', s'⟩ := b
  change ((compare d d').then ((compare t t').then (compare s s'))).isLE at h
  by_contra hlt
  have hgt : compare d d' = .gt := by
    rw [Int.compare_eq_gt]
    exact not_le.mp hlt
  rw [hgt] at h
  simp at h

/-- The loop ends because nothing is due any more. -/
theorem expireLoop_done (rounds : ℕ) (h : ib.Consistent) (hready : ib.expiry.ready = true)
    (removed : List InboxEntry) (touched : OrdSet String) (hrounds : ib.expiry.due.size ≤ rounds) :
    ∀ d ∈ (expireLoop clock now rounds ib removed touched).2.2.expiry.due, now < d.deadline := by
  induction rounds generalizing ib removed touched with
  | zero =>
    have hempty : ib.expiry.due = ∅ := Std.ExtTreeSet.eq_empty_iff_size_eq_zero.mpr (by omega)
    intro d hd
    rw [expireLoop, hempty] at hd
    simp at hd
  | succ rounds ih =>
    cases hfirst : ib.expiry.due.first? with
    | none =>
      intro d hd
      rw [expireLoop, hfirst] at hd
      rw [(OrdSet.first?_eq_none_iff _).mp hfirst] at hd
      simp at hd
    | some d =>
      have hmem := OrdSet.mem_of_first? _ hfirst
      by_cases hdue : d.deadline ≤ now
      · rw [expireLoop_succ clock now h hready rounds removed touched hfirst hdue]
        refine ih (h.retirePending clock _ _) ?_ _ _ ?_
        · rw [ready_retirePending]
          exact hready
        · rw [due_retire clock h hready hmem, Std.ExtTreeSet.size_erase,
            if_pos (Std.ExtTreeSet.contains_iff_mem.mpr hmem)]
          omega
      · intro a ha
        rw [expireLoop, hfirst] at ha
        dsimp only at ha
        rw [if_pos (by omega)] at ha
        have hle := Due.deadline_le_of_compare (OrdSet.first?_le _ hfirst ha)
        omega

theorem roomHead_eq_some {head : ℕ} (h : ib.roomHead target entrySeq = some head) :
    target ∈ ib.cursors ∧ routerAckWindow ≤ (ib.cursor target).ackedInboxSeqs.size ∧
      satAdd (ib.cursor target).settledInboxSeq 1 < entrySeq ∧
      entrySeq ∉ (ib.cursor target).ackedInboxSeqs ∧
      (∃ entry, (ib.rows target).first? = some (head, entry)) ∧ head < entrySeq := by
  unfold roomHead at h
  by_cases hmem : target ∈ ib.cursors
  · rw [(ib.mem_cursors_iff target).mp hmem] at h
    dsimp only at h
    split_ifs at h with hroom
    simp only [not_or, not_lt, not_le] at hroom
    obtain ⟨⟨first, entry⟩, hfirst, rfl⟩ := map_eq_some_iff.mp h
    obtain ⟨hrow, hlt⟩ := filter_eq_some_iff.mp hfirst
    exact ⟨hmem, hroom.1, hroom.2.1, hroom.2.2, ⟨entry, hrow⟩, by simpa using hlt⟩
  · rw [ib.cursors_eq_none hmem] at h
    simp at h

theorem roomHead_eq_none (h : ib.roomHead target entrySeq = none) (hmem : target ∈ ib.cursors) :
    (ib.cursor target).ackedInboxSeqs.size < routerAckWindow ∨
      entrySeq ≤ satAdd (ib.cursor target).settledInboxSeq 1 ∨
      entrySeq ∈ (ib.cursor target).ackedInboxSeqs ∨ ∀ q ∈ ib.rows target, entrySeq ≤ q := by
  unfold roomHead at h
  rw [(ib.mem_cursors_iff target).mp hmem] at h
  dsimp only at h
  split_ifs at h with hroom
  · tauto
  · refine .inr (.inr (.inr ?_))
    intro q hq
    cases hfirst : (ib.rows target).first? with
    | none =>
      rw [(first?_eq_none_iff _).mp hfirst] at hq
      simp at hq
    | some e =>
      rw [hfirst] at h
      have hle := ((first?_eq_some_iff _ _ _).mp hfirst).2 q hq
      rw [Nat.isLE_compare] at hle
      have hge : ¬ e.1 < entrySeq := by simpa [filter_some] using h
      omega

theorem roomLoop_induct {P : OpaqueDeviceInbox → Prop} (target : String) (entrySeq : ℕ)
    (hstep : ∀ ib head, P ib → ib.roomHead target entrySeq = some head →
      P (ib.overflowHead clock target head)) (rounds : ℕ) (hP : P ib) :
    P (roomLoop clock target entrySeq rounds ib) := by
  induction rounds generalizing ib with
  | zero => exact hP
  | succ rounds ih =>
    rw [roomLoop]
    cases hhead : ib.roomHead target entrySeq with
    | none => exact hP
    | some head => exact ih (hstep ib head hP hhead)

theorem rows_overflowHead (ib : OpaqueDeviceInbox) (target other : String) (head : ℕ) :
    (ib.overflowHead clock target head).rows other =
      if target = other then (ib.rows target).erase head else ib.rows other := by
  unfold overflowHead
  rw [rows_advanceSettled, rows_deadLetter]

/-- The loop ends because there is room or nothing is left to give up. -/
theorem roomLoop_done (rounds : ℕ) (hrounds : (ib.rows target).size ≤ rounds) :
    (roomLoop clock target entrySeq rounds ib).roomHead target entrySeq = none := by
  induction rounds generalizing ib with
  | zero =>
    have hempty : ib.rows target = ∅ := eq_empty_iff_size_eq_zero.mpr (by omega)
    rw [roomLoop]
    by_contra hsome
    obtain ⟨head, hhead⟩ := ne_none_iff_exists'.mp hsome
    obtain ⟨-, -, -, -, ⟨entry, hfirst⟩, -⟩ := roomHead_eq_some hhead
    rw [(first?_eq_none_iff _).mpr hempty] at hfirst
    simp at hfirst
  | succ rounds ih =>
    rw [roomLoop]
    cases hhead : ib.roomHead target entrySeq with
    | none => exact hhead
    | some head =>
      refine ih ?_
      obtain ⟨-, -, -, -, ⟨entry, hfirst⟩, -⟩ := roomHead_eq_some hhead
      have hmem : head ∈ ib.rows target := mem_of_first? _ hfirst
      have hlt := size_erase_lt _ hmem
      rw [rows_overflowHead, if_pos rfl]
      omega

@[simp] theorem next_makeAckWindowRoom (ib : OpaqueDeviceInbox) (target : String) (entrySeq : ℕ) :
    (ib.makeAckWindowRoom clock target entrySeq).next = ib.next := by
  refine roomLoop_induct clock target entrySeq (P := fun ib' => ib'.next = ib.next) ?_ _ rfl
  intro ib' head hnext _
  rw [overflowHead, next_advanceSettled, next_deadLetter, hnext]

theorem next_expireLoop (rounds : ℕ) (ib : OpaqueDeviceInbox) (removed : List InboxEntry)
    (touched : OrdSet String) :
    (expireLoop clock now rounds ib removed touched).2.2.next = ib.next := by
  induction rounds generalizing ib removed touched with
  | zero => rfl
  | succ rounds ih =>
    rw [expireLoop]
    cases ib.expiry.due.first? with
    | none => rfl
    | some due =>
      dsimp only
      split_ifs
      · rfl
      · rw [ih, next_retirePending]
        rfl

theorem next_settleExpired (ib : OpaqueDeviceInbox) (target : String) :
    (settleExpired now ib target).next = ib.next := by
  obtain ⟨index, marks, heq⟩ := settleExpired_eq now ib target
  rw [heq, ← next_advanceSettled ib target]
  split_ifs <;> rfl

end

section
variable (clock : ℤ) (ib : OpaqueDeviceInbox) (target : String)

theorem next_applyAckForTarget (ack : Ack) :
    (ib.applyAckForTarget clock target ack).2.next = ib.next := by
  rcases applyAckForTarget_cases clock ib target ack with heq | ⟨entrySeq, hcheck⟩
  · rw [heq]
  · rw [applyAckForTarget_of_ok clock hcheck, next_finishAck, next_makeAckWindowRoom, next_startAck]

theorem next_applyNackForTarget (nack : Nack) :
    (ib.applyNackForTarget clock target nack).2.next = ib.next := by
  rcases applyNackForTarget_cases clock ib target nack with heq | heq | ⟨seq, hseq⟩
  · rw [heq]
  · rw [heq, next_modifyCursor]
  · rw [applyNackForTarget_of_some clock _ hseq rfl]
    split_ifs
    · rw [next_advanceSettled, next_deadLetter, next_noteNack]
    · rw [next_noteNack]

theorem next_expireEntries (now : ℤ) : (ib.expireEntries clock now).2.next = ib.next := by
  have hfold : ∀ (targets : List String) (ib : OpaqueDeviceInbox),
      (targets.foldl (settleExpired now) ib).next = ib.next := by
    intro targets ib
    refine List.foldlRecOn targets _ (motive := fun ib' => next ib' = ib.next) rfl fun ib' h target _ => ?_
    exact (next_settleExpired now ib' target).trans h
  unfold expireEntries
  rw [hfold, next_expireLoop]
  unfold ensureExpiryIndex
  split_ifs <;> rfl

theorem next_exec (call : InboxCall) :
    (∃ envelope now, call = .append envelope now) ∨ (ib.exec call).next = ib.next := by
  cases call with
  | append envelope now => exact .inl ⟨envelope, now, rfl⟩
  | ack clock target ack => exact .inr (next_applyAckForTarget clock ib target ack)
  | nack clock target nack => exact .inr (next_applyNackForTarget clock ib target nack)
  | expire clock now => exact .inr (next_expireEntries clock ib now)

end

theorem next_le_exec (ib : OpaqueDeviceInbox) {call : InboxCall} (hrange : call.InRange ib)
    (target : String) : ib.next target ≤ (ib.exec call).next target := by
  rcases ib.next_exec call with ⟨envelope, now, rfl⟩ | hnext
  · rw [exec, next_appendAt]
    split_ifs with heq
    · rw [← heq, satAdd_one_of_lt hrange]
      exact Nat.le_succ _
    · exact le_rfl
  · rw [hnext]

end Ramflux.OpaqueDeviceInbox
