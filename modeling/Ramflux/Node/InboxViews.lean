import Ramflux.Node.Inbox

/-! What each inbox operation does to the counters, rows, deadlines and cursor of every target. -/
namespace Ramflux.OpaqueDeviceInbox
open OrdMap

theorem mem_cursors_iff (ib : OpaqueDeviceInbox) (target : String) :
    target ∈ ib.cursors ↔ ib.cursors[target]? = some (ib.cursor target) := by
  rw [mem_iff_exists]
  constructor
  · rintro ⟨c, hc⟩
    rw [cursor, hc]
    rfl
  · intro h
    exact ⟨_, h⟩

variable {target : String}

theorem cursors_eq_none (ib : OpaqueDeviceInbox) (h : target ∉ ib.cursors) :
    ib.cursors[target]? = none := by
  rwa [← Option.not_isSome_iff_eq_none, ← Std.ExtTreeMap.mem_iff_isSome_getElem?]

section
variable (ib : OpaqueDeviceInbox) (target : String) (f : CursorAckState → CursorAckState)

@[simp] theorem next_modifyCursor : (ib.modifyCursor target f).next = ib.next := rfl
@[simp] theorem rows_modifyCursor : (ib.modifyCursor target f).rows = ib.rows := rfl
@[simp] theorem expiry_modifyCursor : (ib.modifyCursor target f).expiry = ib.expiry := rfl

theorem cursor_modifyCursor (other : String) : (ib.modifyCursor target f).cursor other =
    if target = other then f (ib.cursor target) else ib.cursor other := by
  simp only [modifyCursor, cursor]
  rw [getElem?_insert_eq]
  split_ifs <;> rfl

@[simp] theorem cursor_modifyCursor_self :
    (ib.modifyCursor target f).cursor target = f (ib.cursor target) := by
  rw [cursor_modifyCursor, if_pos rfl]

theorem cursor_modifyCursor_of_ne {other : String} (h : target ≠ other) :
    (ib.modifyCursor target f).cursor other = ib.cursor other := by
  rw [cursor_modifyCursor, if_neg h]

theorem mem_cursors_modifyCursor (other : String) :
    other ∈ (ib.modifyCursor target f).cursors ↔ target = other ∨ other ∈ ib.cursors := by
  simp [modifyCursor]

end

section
variable (ib : OpaqueDeviceInbox) (target : String)

/-- Watermark `advance_settled` aims at. -/
def settlementGoal (next : ℕ) (rows : OrdMap ℕ InboxEntry) : ℕ :=
  match rows.first? with
  | none => next - 1
  | some (first, _) => min (next - 1) (first - 1)

theorem advanceSettled_eq (h : target ∈ ib.cursors) : ib.advanceSettled target =
    ib.modifyCursor target fun cursor => cursor.settle (ib.issuedSequence target)
      (settlementGoal (ib.next target) (ib.rows target)) (ib.rows target) := by
  unfold advanceSettled
  rw [(ib.mem_cursors_iff target).mp h]
  rfl

theorem advanceSettled_of_notMem (h : target ∉ ib.cursors) : ib.advanceSettled target = ib := by
  unfold advanceSettled
  rw [ib.cursors_eq_none h]

theorem advanceSettled_cases : ib.advanceSettled target = ib ∨
    ∃ f, ib.advanceSettled target = ib.modifyCursor target f := by
  by_cases h : target ∈ ib.cursors
  · exact .inr ⟨_, ib.advanceSettled_eq target h⟩
  · exact .inl (ib.advanceSettled_of_notMem target h)

@[simp] theorem next_advanceSettled : (ib.advanceSettled target).next = ib.next := by
  rcases ib.advanceSettled_cases target with h | ⟨f, h⟩ <;> rw [h]
  rfl

@[simp] theorem rows_advanceSettled : (ib.advanceSettled target).rows = ib.rows := by
  rcases ib.advanceSettled_cases target with h | ⟨f, h⟩ <;> rw [h]
  rfl

theorem mem_cursors_advanceSettled (other : String) :
    other ∈ (ib.advanceSettled target).cursors ↔ other ∈ ib.cursors := by
  by_cases hmem : target ∈ ib.cursors
  · rw [ib.advanceSettled_eq target hmem, mem_cursors_modifyCursor]
    constructor
    · rintro (rfl | h)
      · exact hmem
      · exact h
    · exact .inr
  · rw [ib.advanceSettled_of_notMem target hmem]

end

section
variable (clock : ℤ) (ib : OpaqueDeviceInbox) (target : String) (seq : ℕ)

@[simp] theorem next_retirePending : (ib.retirePending clock target seq).2.next = ib.next := by
  unfold retirePending
  cases (ib.rows target)[seq]? with
  | none => rfl
  | some entry =>
    dsimp only
    split_ifs <;> rfl

@[simp] theorem cursors_retirePending :
    (ib.retirePending clock target seq).2.cursors = ib.cursors := by
  unfold retirePending
  cases (ib.rows target)[seq]? with
  | none => rfl
  | some entry =>
    dsimp only
    split_ifs <;> rfl

@[simp] theorem cursor_retirePending : (ib.retirePending clock target seq).2.cursor = ib.cursor := by
  unfold cursor
  rw [cursors_retirePending]

@[simp] theorem ready_retirePending :
    (ib.retirePending clock target seq).2.expiry.ready = ib.expiry.ready := by
  unfold retirePending
  cases (ib.rows target)[seq]? with
  | none => rfl
  | some entry =>
    dsimp only
    split_ifs <;> rfl

theorem rows_retirePending (other : String) : (ib.retirePending clock target seq).2.rows other =
      if target = other then (ib.rows target).erase seq else ib.rows other := by
  unfold retirePending
  cases h : (ib.rows target)[seq]? with
  | none =>
    split_ifs with heq
    · subst heq
      refine (Std.ExtTreeMap.ext_getElem? fun q => ?_).symm
      rw [getElem?_erase_eq]
      split_ifs with hq
      · rw [← hq, h]
      · rfl
    · rfl
  | some entry =>
    have hset := submap_setSubmap ib.pending target other ((ib.rows target).erase seq)
    dsimp only
    split_ifs at hset ⊢ <;> exact hset

/-- Retirement and cursor changes do not interfere. -/
theorem retirePending_modifyCursor (other : String) (f : CursorAckState → CursorAckState) :
    (ib.modifyCursor other f).retirePending clock target seq = ((ib.retirePending clock target seq).1,
        (ib.retirePending clock target seq).2.modifyCursor other f) := by
  unfold retirePending
  rw [rows_modifyCursor]
  cases (ib.rows target)[seq]? with
  | none => rfl
  | some entry =>
    dsimp only
    rw [expiry_modifyCursor]
    split_ifs <;> rfl

theorem retirePending_of_none (h : (ib.rows target)[seq]? = none) :
    ib.retirePending clock target seq = (none, ib) := by
  unfold retirePending
  rw [h]

variable {entry : InboxEntry} (h : (ib.rows target)[seq]? = some entry)
include h

theorem fst_retirePending : (ib.retirePending clock target seq).1 = some entry := by
  unfold retirePending
  rw [h]

theorem deadlines_retirePending (other : String) :
    (ib.retirePending clock target seq).2.deadlines other =
      if target = other then (ib.deadlines target).erase seq else ib.deadlines other := by
  unfold retirePending
  rw [h]
  have hset := submap_setSubmap ib.retainUntil target other ((ib.deadlines target).erase seq)
  cases hd : ib.retainUntil[target]? with
  | none =>
    have hempty : ib.deadlines target = ∅ := by
      rw [deadlines, submap, hd]
      rfl
    have herase : (ib.deadlines target).erase seq = ib.deadlines target := by
      rw [hempty]
      exact Std.ExtTreeMap.erase_empty
    dsimp only
    rw [herase]
    split_ifs with hready heq heq
    · rw [← heq]
      simp only [deadlines, hd]
    · simp only [deadlines, hd]
    · rw [← heq]
      simp only [deadlines, hd]
    · simp only [deadlines, hd]
  | some stored =>
    have hstored : ib.deadlines target = stored := by
      rw [deadlines, submap, hd]
      rfl
    rw [hstored] at hset ⊢
    dsimp only
    split_ifs at hset ⊢ <;> simpa only [deadlines, hd] using hset

theorem due_retirePending : (ib.retirePending clock target seq).2.expiry.due =
    if ib.expiry.ready then ib.expiry.due.erase ⟨ib.retainUntilOf clock entry, target, seq⟩
    else ib.expiry.due := by
  unfold retirePending
  rw [h]
  dsimp only
  split_ifs <;> rfl

/-- Dead-lettering retires the delivery and records its metadata in the cursor. -/
theorem deadLetter_eq (reason : DeadLetterReason) : ∃ index marks,
    ib.deadLetter clock target seq reason =
      { (ib.retirePending clock target seq).2.modifyCursor target
          (·.recordDeadLetter ⟨seq, entry.envelope.envelopeId, reason, ib.retainUntilOf clock entry⟩)
        with deadLetterIndex := index, checkpointDue := marks } := by
  have hfst := fst_retirePending clock ib target seq h
  unfold deadLetter
  rw [h]
  cases hr : ib.retirePending clock target seq with
  | mk result ib' =>
    rw [hr] at hfst
    obtain rfl : result = some entry := hfst
    exact ⟨_, _, rfl⟩

end

section
variable (clock : ℤ) (ib : OpaqueDeviceInbox) (target : String) (seq : ℕ) (reason : DeadLetterReason)

theorem deadLetter_of_none (h : (ib.rows target)[seq]? = none) :
    ib.deadLetter clock target seq reason = ib := by
  unfold deadLetter
  rw [h]

@[simp] theorem next_deadLetter : (ib.deadLetter clock target seq reason).next = ib.next := by
  cases hrow : (ib.rows target)[seq]? with
  | none => rw [deadLetter_of_none clock ib target seq reason hrow]
  | some entry =>
    obtain ⟨index, marks, heq⟩ := deadLetter_eq clock ib target seq hrow reason
    rw [heq]
    exact next_retirePending clock ib target seq

theorem rows_deadLetter (other : String) : (ib.deadLetter clock target seq reason).rows other =
      if target = other then (ib.rows target).erase seq else ib.rows other := by
  rw [← rows_retirePending clock]
  cases hrow : (ib.rows target)[seq]? with
  | none =>
    rw [deadLetter_of_none clock ib target seq reason hrow,
      retirePending_of_none clock ib target seq hrow]
  | some entry =>
    obtain ⟨index, marks, heq⟩ := deadLetter_eq clock ib target seq hrow reason
    rw [heq]
    rfl

variable {entry : InboxEntry}

theorem cursors_deadLetter (hrow : (ib.rows target)[seq]? = some entry) :
    (ib.deadLetter clock target seq reason).cursors =
      ((ib.retirePending clock target seq).2.modifyCursor target (·.recordDeadLetter
        ⟨seq, entry.envelope.envelopeId, reason, ib.retainUntilOf clock entry⟩)).cursors := by
  obtain ⟨index, marks, heq⟩ := deadLetter_eq clock ib target seq hrow reason
  rw [heq]

theorem cursor_deadLetter_of_ne {other : String} (hne : target ≠ other) :
    (ib.deadLetter clock target seq reason).cursor other = ib.cursor other := by
  cases hrow : (ib.rows target)[seq]? with
  | none => rw [deadLetter_of_none clock ib target seq reason hrow]
  | some entry =>
    rw [cursor, cursors_deadLetter clock ib target seq reason hrow, ← cursor,
      cursor_modifyCursor_of_ne _ _ _ hne, cursor_retirePending]

theorem cursor_deadLetter (hrow : (ib.rows target)[seq]? = some entry) :
    (ib.deadLetter clock target seq reason).cursor target = (ib.cursor target).recordDeadLetter
        ⟨seq, entry.envelope.envelopeId, reason, ib.retainUntilOf clock entry⟩ := by
  rw [cursor, cursors_deadLetter clock ib target seq reason hrow, ← cursor,
    cursor_modifyCursor_self, cursor_retirePending]

theorem mem_cursors_deadLetter (hrow : (ib.rows target)[seq]? = some entry) :
    target ∈ (ib.deadLetter clock target seq reason).cursors := by
  rw [cursors_deadLetter clock ib target seq reason hrow, mem_cursors_modifyCursor]
  exact .inl rfl

end

/-- An accepted ACK names a pending delivery by its id, or one that is already settled. -/
theorem checkAck_ok {ib : OpaqueDeviceInbox} {ack : Ack} {entrySeq : ℕ}
    (h : ib.checkAck target ack = .ok entrySeq) : ib.ackSeq target ack = .ok entrySeq ∧
      ((∃ entry, (ib.rows target)[entrySeq]? = some entry ∧
          entry.envelope.envelopeId = ack.envelopeId) ∨
        ((ib.rows target)[entrySeq]? = none ∧ target ∈ ib.cursors ∧
          (entrySeq ∈ (ib.cursor target).ackedInboxSeqs ∨
            entrySeq ≤ (ib.cursor target).settledInboxSeq))) := by
  obtain ⟨seq, hseq, h⟩ := Fallible.bind_eq_ok.mp h
  simp only [Bind.bind, Except.bind, Pure.pure, Except.pure, throw, throwThe, MonadExceptOf.throw] at h
  cases hrow : (ib.rows target)[seq]? with
  | none =>
    simp only [hrow] at h
    split_ifs at h with hambiguous hsett
    cases h
    exact ⟨hseq, .inr ⟨hrow, hsett⟩⟩
  | some entry =>
    simp only [hrow] at h
    split_ifs at h with hambiguous hid
    cases h
    exact ⟨hseq, .inl ⟨entry, hrow, not_not.mp hid⟩⟩

theorem nackSeq_ok {ib : OpaqueDeviceInbox} {nack : Nack} {seq : ℕ}
    (h : ib.nackSeq target nack = .ok (some seq)) :
    ib.nackSelector target nack = .ok (some seq) ∧ ∃ entry, (ib.rows target)[seq]? = some entry ∧
      entry.envelope.envelopeId = nack.envelopeId := by
  obtain ⟨found, hsel, h⟩ := Fallible.bind_eq_ok.mp h
  obtain ⟨hfound, hany⟩ := Option.filter_eq_some_iff.mp (Except.ok.inj h)
  obtain ⟨entry, hrow, hid⟩ := Option.any_eq_true _ _ |>.mp hany
  exact ⟨by rw [hsel, hfound], entry, hrow, of_decide_eq_true hid⟩

def startAck (ib : OpaqueDeviceInbox) (target : String) : OpaqueDeviceInbox :=
  ib.modifyCursor target fun cursor => { cursor with retiredInboxSeqs := [] }

def finishAck (clock : ℤ) (ib : OpaqueDeviceInbox) (target : String) (entrySeq : ℕ)
    (envelopeId : String) : OpaqueDeviceInbox :=
  ((ib.modifyCursor target (·.acknowledge entrySeq envelopeId)).retirePending clock target
    entrySeq).2.advanceSettled target

def noteNack (ib : OpaqueDeviceInbox) (target : String) (nack : Nack) (seq attempts : ℕ) :
    OpaqueDeviceInbox :=
  (ib.modifyCursor target (·.recordNack nack)).modifyCursor target (·.countNack seq attempts)

section
variable (clock : ℤ) (ib : OpaqueDeviceInbox) (target : String)

@[simp] theorem next_startAck : (ib.startAck target).next = ib.next := rfl
@[simp] theorem rows_startAck : (ib.startAck target).rows = ib.rows := rfl

theorem cursor_startAck (other : String) : ∃ retired,
    (ib.startAck target).cursor other = { ib.cursor other with retiredInboxSeqs := retired } := by
  unfold startAck
  rw [cursor_modifyCursor]
  split_ifs with heq
  · subst heq
    exact ⟨[], rfl⟩
  · exact ⟨_, rfl⟩

theorem mem_cursors_startAck : target ∈ (ib.startAck target).cursors := by
  rw [startAck, mem_cursors_modifyCursor]
  exact .inl rfl

theorem next_finishAck (entrySeq : ℕ) (envelopeId : String) :
    (finishAck clock ib target entrySeq envelopeId).next = ib.next := by
  rw [finishAck, next_advanceSettled, next_retirePending, next_modifyCursor]

theorem rows_finishAck (entrySeq : ℕ) (envelopeId : String) (other : String) :
    (finishAck clock ib target entrySeq envelopeId).rows other =
      if target = other then (ib.rows target).erase entrySeq else ib.rows other := by
  rw [finishAck, rows_advanceSettled, rows_retirePending, rows_modifyCursor]

section
variable (nack : Nack)

@[simp] theorem next_noteNack (seq attempts : ℕ) :
    (ib.noteNack target nack seq attempts).next = ib.next := rfl

@[simp] theorem rows_noteNack (seq attempts : ℕ) :
    (ib.noteNack target nack seq attempts).rows = ib.rows := rfl

theorem cursor_noteNack (seq attempts : ℕ) :
    ∃ ids, (ib.noteNack target nack seq attempts).cursor target = { ib.cursor target with
        retiredInboxSeqs := []
        nackedEnvelopeIds := ids
        nackAttempts := (ib.cursor target).nackAttempts.insert seq attempts } := by
  rw [noteNack, cursor_modifyCursor_self, cursor_modifyCursor_self, CursorAckState.countNack,
    CursorAckState.recordNack]
  exact ⟨_, rfl⟩

end

end

section
variable (clock : ℤ) {ib : OpaqueDeviceInbox} {target : String}

variable {ack : Ack}

theorem applyAckForTarget_of_ok {entrySeq : ℕ} (hcheck : ib.checkAck target ack = .ok entrySeq) :
    (ib.applyAckForTarget clock target ack).2 =
      finishAck clock ((ib.startAck target).makeAckWindowRoom clock target entrySeq) target
        entrySeq ack.envelopeId := by
  unfold applyAckForTarget
  rw [hcheck]
  rfl

variable (ib target ack) in
/-- An ACK that is refused changes nothing. -/
theorem applyAckForTarget_cases : (ib.applyAckForTarget clock target ack).2 = ib ∨
    ∃ entrySeq, ib.checkAck target ack = .ok entrySeq := by
  cases hcheck : ib.checkAck target ack with
  | error e =>
    unfold applyAckForTarget
    rw [hcheck]
    exact .inl rfl
  | ok entrySeq => exact .inr ⟨entrySeq, rfl⟩

variable {nack : Nack}

variable (ib target nack) in
/-- A NACK is refused, recorded only, or counted against a pending delivery. -/
theorem applyNackForTarget_cases : (ib.applyNackForTarget clock target nack).2 = ib ∨
    (ib.applyNackForTarget clock target nack).2 = ib.modifyCursor target (·.recordNack nack) ∨
      ∃ seq, ib.nackSeq target nack = .ok (some seq) := by
  unfold applyNackForTarget
  match ib.nackSeq target nack with
  | .error e => exact .inl rfl
  | .ok none => exact .inr (.inl rfl)
  | .ok (some seq) => exact .inr (.inr ⟨seq, rfl⟩)

/-- A NACK that matches a pending delivery is counted, and retires the delivery at the limit. -/
theorem applyNackForTarget_of_some {seq : ℕ} (attempts : ℕ)
    (hseq : ib.nackSeq target nack = .ok (some seq))
    (hatts : min ((ib.cursor target).nackAttempts[seq]?.getD 0 + 1) u32Max = attempts) :
    (ib.applyNackForTarget clock target nack).2 = if routerNackRetryLimit ≤ attempts then
        ((ib.noteNack target nack seq attempts).deadLetter clock target seq
          (.nacked nack.reason)).advanceSettled target else ib.noteNack target nack seq attempts := by
  have hrecorded : ((ib.modifyCursor target (·.recordNack nack)).cursor target).nackAttempts =
      (ib.cursor target).nackAttempts := by
    rw [cursor_modifyCursor_self, CursorAckState.recordNack]
  unfold applyNackForTarget noteNack
  rw [hseq]
  dsimp only
  rw [hrecorded, hatts]

end

section
variable (ib : OpaqueDeviceInbox) (target : String) (seq : ℕ) (deadline : ℤ)

@[simp] theorem next_setDeadline : (ib.setDeadline target seq deadline).next = ib.next := by
  unfold setDeadline
  dsimp only
  split_ifs <;> rfl

@[simp] theorem rows_setDeadline : (ib.setDeadline target seq deadline).rows = ib.rows := by
  unfold setDeadline
  dsimp only
  split_ifs <;> rfl

@[simp] theorem cursors_setDeadline : (ib.setDeadline target seq deadline).cursors = ib.cursors := by
  unfold setDeadline
  dsimp only
  split_ifs <;> rfl

@[simp] theorem ready_setDeadline :
    (ib.setDeadline target seq deadline).expiry.ready = ib.expiry.ready := by
  unfold setDeadline
  dsimp only
  split_ifs <;> rfl

theorem deadlines_setDeadline (other : String) :
    (ib.setDeadline target seq deadline).deadlines other =
      if target = other then (ib.deadlines target).insert seq deadline else ib.deadlines other := by
  have hset := submap_insert ib.retainUntil target other
    ((ib.deadlines target).insert seq deadline)
  unfold setDeadline
  dsimp only
  split_ifs at hset ⊢ <;> exact hset

theorem due_setDeadline (hready : ib.expiry.ready = true) (h : (ib.deadlines target)[seq]? = none) :
    (ib.setDeadline target seq deadline).expiry.due =
      ib.expiry.due.insert ⟨deadline, target, seq⟩ := by
  unfold setDeadline
  rw [h]
  rw [if_pos hready]

end

section
variable (ib : OpaqueDeviceInbox) (envelope : Envelope) (now : ℤ)

section
variable (other : String)

theorem next_appendAt : (ib.appendAt envelope now).2.next other =
    if envelope.target = other then satAdd (ib.next envelope.target) 1 else ib.next other := by
  unfold appendAt
  rw [next_setDeadline, next_modifyCursor, next, getElem?_insert_eq]
  split_ifs <;> rfl

theorem rows_appendAt : (ib.appendAt envelope now).2.rows other = if envelope.target = other then
      (ib.rows other).insert (ib.next other) ⟨ib.next other, other, envelope⟩ else ib.rows other := by
  unfold appendAt
  rw [rows_setDeadline, rows_modifyCursor, rows]
  rw [submap_insert]
  split_ifs with h
  · rw [← h]
    rfl
  · rfl

theorem cursor_appendAt : (ib.appendAt envelope now).2.cursor other =
    if envelope.target = other then { ib.cursor other with issuedInboxSeq := ib.next other }
    else ib.cursor other := by
  unfold appendAt
  rw [cursor, cursors_setDeadline, ← cursor, cursor_modifyCursor]
  split_ifs with h
  · rw [← h]
    rfl
  · rfl

theorem mem_cursors_appendAt : other ∈ (ib.appendAt envelope now).2.cursors ↔
    envelope.target = other ∨ other ∈ ib.cursors := by
  unfold appendAt
  rw [cursors_setDeadline, mem_cursors_modifyCursor]

theorem deadlines_appendAt : (ib.appendAt envelope now).2.deadlines other =
    if envelope.target = other then
      (ib.deadlines other).insert (ib.next other) (inboxRetainUntil envelope now)
    else ib.deadlines other := by
  unfold appendAt
  rw [deadlines_setDeadline]
  split_ifs with h
  · rw [← h]
    rfl
  · rfl

end

@[simp] theorem ready_appendAt : (ib.appendAt envelope now).2.expiry.ready = ib.expiry.ready := by
  unfold appendAt
  rw [ready_setDeadline, expiry_modifyCursor]

theorem due_appendAt (hready : ib.expiry.ready = true)
    (h : (ib.deadlines envelope.target)[ib.next envelope.target]? = none) :
    (ib.appendAt envelope now).2.expiry.due = ib.expiry.due.insert
      ⟨inboxRetainUntil envelope now, envelope.target, ib.next envelope.target⟩ := by
  unfold appendAt
  rw [due_setDeadline]
  · rfl
  · exact hready
  · exact h

end

/-- Settling an expired mailbox changes its cursor only: watermarks first, then dead letters. -/
theorem settleExpired_eq (now : ℤ) (ib : OpaqueDeviceInbox) (target : String) : ∃ index marks,
    settleExpired now ib target = { (if target ∈ ib.cursors then
        (ib.advanceSettled target).modifyCursor target fun cursor => { cursor with
          deadLetters := cursor.deadLetters.filter fun record => now < record.retainUntil }
      else ib.advanceSettled target) with deadLetterIndex := index, checkpointDue := marks } := by
  unfold settleExpired
  dsimp only
  by_cases hmem : target ∈ ib.cursors
  · have hmem' := (ib.mem_cursors_advanceSettled target target).mpr hmem
    rw [if_pos hmem, ((ib.advanceSettled target).mem_cursors_iff target).mp hmem']
    exact ⟨_, _, rfl⟩
  · have hmem' : target ∉ (ib.advanceSettled target).cursors := by
      rwa [mem_cursors_advanceSettled]
    rw [if_neg hmem, (ib.advanceSettled target).cursors_eq_none hmem']
    exact ⟨_, _, rfl⟩

end Ramflux.OpaqueDeviceInbox
