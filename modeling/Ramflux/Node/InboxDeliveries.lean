import Ramflux.Node.InboxWindow

/-! Every appended delivery is pending until exactly one call retires it: an ACK, its third matching
NACK, the overflow of the ACK window, or expiry at its deadline. -/
namespace Ramflux
open OpaqueDeviceInbox OrdMap List Std.ExtTreeMap Option InboxMove CursorAckState OpaqueDeviceInbox

/-- A selector names one pending delivery: by sequence and envelope id or, without a sequence, by an
envelope id no other pending delivery has. -/
def names (ext : Ext) (envelopeId : String) (rows : OrdMap ℕ InboxEntry) (seq : ℕ) : Bool :=
  rows[seq]?.any (·.envelope.envelopeId = envelopeId) &&
    match ext["inbox_seq"]? with
    | some value => decide (value.asU64 = some seq)
    | none => rows.toList.all fun row => row.2.envelope.envelopeId ≠ envelopeId ∨ row.1 = seq

section
variable {ext : Ext} {envelopeId : String} {rows : OrdMap ℕ InboxEntry} {seq other : ℕ}

theorem names_iff : names ext envelopeId rows seq ↔
    (∃ entry, rows[seq]? = some entry ∧ entry.envelope.envelopeId = envelopeId) ∧
      ((∃ value, ext["inbox_seq"]? = some value ∧ value.asU64 = some seq) ∨
        ext["inbox_seq"]? = none ∧
          ∀ row ∈ rows.toList, row.2.envelope.envelopeId = envelopeId → row.1 = seq) := by
  unfold names
  rw [Bool.and_eq_true, Option.any_eq_true]
  cases ext["inbox_seq"]? with
  | some value => simp
  | none => simp [imp_iff_not_or]

theorem names_unique (h : names ext envelopeId rows seq) (h' : names ext envelopeId rows other) :
    seq = other := by
  obtain ⟨⟨entry, hrow, hid⟩, hsel⟩ := names_iff.mp h
  obtain ⟨-, ⟨value, hext, hvalue⟩ | ⟨hext, hall⟩⟩ := names_iff.mp h'
  · rcases hsel with ⟨value', hext', hvalue'⟩ | ⟨hnone, -⟩
    · cases hext'.symm.trans hext
      exact some.inj (hvalue'.symm.trans hvalue)
    · rw [hnone] at hext
      exact absurd hext.symm (some_ne_none value)
  · exact hall (seq, entry) (mem_toList_iff.mpr hrow) hid

end

/-- The envelope id selects the one pending delivery that has it. -/
theorem legacySeqForEnvelope_eq_some {ib : OpaqueDeviceInbox} (h : ib.Consistent) {target : String}
    {envelopeId : String} {seq : ℕ} : ib.legacySeqForEnvelope target envelopeId = .ok (some seq) ↔
      (∃ entry, (ib.rows target)[seq]? = some entry ∧ entry.envelope.envelopeId = envelopeId) ∧
        ∀ row ∈ (ib.rows target).toList, row.2.envelope.envelopeId = envelopeId → row.1 = seq := by
  have hsingle := (ib.rows target).filter_toList_eq_singleton (·.2.envelope.envelopeId = envelopeId)
  simp only [decide_eq_true_iff] at hsingle
  unfold legacySeqForEnvelope
  constructor
  · intro hseq
    split at hseq
    · simp at hseq
    · rename_i key entry hlist
      obtain ⟨⟨hrow, hid⟩, hall⟩ := (hsingle key entry).mp hlist
      obtain rfl : key = seq := by
        rw [← (h.entry _ _ _ hrow).1]
        exact some.inj (Except.ok.inj hseq)
      exact ⟨⟨entry, hrow, hid⟩, hall⟩
    · simp at hseq
  · rintro ⟨⟨entry, hrow, hid⟩, hall⟩
    rw [(hsingle seq entry).mpr ⟨⟨hrow, hid⟩, hall⟩]
    dsimp only
    rw [(h.entry _ _ _ hrow).1]

section
variable {ib : OpaqueDeviceInbox} (h : ib.Consistent) {target : String} {seq : ℕ}
include h

theorem nackSeq_eq_some_iff (hpos : 0 < seq) {nack : Nack} :
    ib.nackSeq target nack = .ok (some seq) ↔ names nack.ext nack.envelopeId (ib.rows target) seq := by
  have hselector : ib.nackSelector target nack = .ok (some seq) ↔
      (∃ value, nack.ext["inbox_seq"]? = some value ∧ value.asU64 = some seq) ∨
        nack.ext["inbox_seq"]? = none ∧
          ib.legacySeqForEnvelope target nack.envelopeId = .ok (some seq) := by
    unfold nackSelector
    cases nack.ext["inbox_seq"]? with
    | none => simp
    | some value =>
      have hfilter : value.asU64.filter (0 < ·) = some seq ↔ value.asU64 = some seq := by
        rw [filter_eq_some_iff]
        exact and_iff_left (decide_eq_true hpos)
      cases hvalue : value.asU64.filter (0 < ·) with
      | none | some n => simpa [hvalue] using hfilter
  have hseq : ib.nackSeq target nack = .ok (some seq) ↔
      ib.nackSelector target nack = .ok (some seq) ∧
        ∃ entry, (ib.rows target)[seq]? = some entry ∧
          entry.envelope.envelopeId = nack.envelopeId := by
    constructor
    · exact nackSeq_ok
    · rintro ⟨hsel, entry, hrow, hid⟩
      unfold nackSeq
      rw [hsel]
      simp only [bind, Except.bind, Option.filter, hrow, hid, any_some, decide_true, if_true]
      rfl
  rw [hseq, hselector, legacySeqForEnvelope_eq_some h, names_iff, and_comm]
  refine and_congr_right fun hrow => or_congr_right (and_congr_right fun _ => ?_)
  exact and_iff_right hrow

theorem names_of_checkAck {ack : Ack} (hcheck : ib.checkAck target ack = .ok seq)
    (hmem : seq ∈ ib.rows target) : names ack.ext ack.envelopeId (ib.rows target) seq := by
  obtain ⟨entry, hrow⟩ := mem_iff_exists.mp hmem
  obtain ⟨hseq, ⟨entry', hrow', hid⟩ | ⟨hnone, -⟩⟩ := checkAck_ok hcheck
  · refine names_iff.mpr ⟨⟨entry', hrow', hid⟩, ?_⟩
    unfold ackSeq at hseq
    cases hext : ack.ext["inbox_seq"]? with
    | some value =>
      rw [hext] at hseq
      dsimp only at hseq
      cases hvalue : value.asU64.filter (0 < ·) with
      | none =>
        rw [hvalue] at hseq
        simp at hseq
      | some n =>
        rw [hvalue] at hseq
        cases hseq
        exact .inl ⟨value, rfl, (filter_eq_some_iff.mp hvalue).1⟩
    | none =>
      rw [hext] at hseq
      obtain ⟨found, hlegacy, hseq⟩ := Fallible.bind_eq_ok.mp hseq
      cases found with
      | none => cases hseq
      | some n =>
        cases hseq
        exact .inr ⟨rfl, ((legacySeqForEnvelope_eq_some h).mp hlegacy).2⟩
  · rw [hrow] at hnone
    exact absurd hnone (some_ne_none entry)

end

/-- An appended delivery with the deadline computed when it was appended. -/
structure Delivery where
  entry : InboxEntry
  deadline : ℤ

namespace Delivery

def target (d : Delivery) : String := d.entry.target

def seq (d : Delivery) : ℕ := d.entry.inboxSeq

def record (d : Delivery) (reason : DeadLetterReason) : DeadLetterRecord :=
  ⟨d.seq, d.entry.envelope.envelopeId, reason, d.deadline⟩

structure Pending (d : Delivery) (ib : OpaqueDeviceInbox) : Prop where
  row : (ib.rows d.target)[d.seq]? = some d.entry
  deadline : (ib.deadlines d.target)[d.seq]? = some d.deadline

/-- The delivery is pending and was refused `attempts` times. -/
structure Held (d : Delivery) (attempts : ℕ) (ib : OpaqueDeviceInbox) : Prop
    extends Pending d ib where
  attempts : (ib.cursor d.target).nackAttempts[d.seq]?.getD 0 = attempts

def Gone (d : Delivery) (ib : OpaqueDeviceInbox) : Prop := d.seq ∉ ib.rows d.target

section
variable {d : Delivery} {attempts : ℕ} {ib : OpaqueDeviceInbox}

theorem Pending.mem (h : d.Pending ib) : d.seq ∈ ib.rows d.target :=
  mem_of_eq_some h.row

section
variable (h : d.Held attempts ib)
include h

theorem Held.modifyCursor (target : String)
    (f : CursorAckState → CursorAckState) (hf : target = d.target →
      (f (ib.cursor target)).nackAttempts[d.seq]? = (ib.cursor target).nackAttempts[d.seq]?) :
    d.Held attempts (ib.modifyCursor target f) := by
  refine ⟨⟨h.row, h.deadline⟩, ?_⟩
  rw [cursor_modifyCursor]
  split_ifs with heq
  · rw [hf heq, heq, h.attempts]
  · exact h.attempts

theorem Held.advanceSettled (target : String) : d.Held attempts (ib.advanceSettled target) := by
  by_cases hmem : target ∈ ib.cursors
  · rw [ib.advanceSettled_eq target hmem]
    refine h.modifyCursor target _ ?_
    rintro rfl
    -- Settlement drops the attempts of retired deliveries only.
    rw [settle, getElem?_filter_eq, decide_eq_true h.mem]
    cases (ib.cursor d.target).nackAttempts[d.seq]? <;> rfl
  · rwa [ib.advanceSettled_of_notMem target hmem]

theorem Held.retirePending (clock : ℤ) {target : String} {seq : ℕ}
    (hne : target = d.target → seq ≠ d.seq) :
    d.Held attempts (ib.retirePending clock target seq).2 := by
  cases hrow : (ib.rows target)[seq]? with
  | none => rwa [retirePending_of_none clock ib target seq hrow]
  | some entry =>
    refine ⟨⟨?_, ?_⟩, ?_⟩
    · rw [rows_retirePending]
      split_ifs with heq
      · rw [getElem?_erase_of_ne _ (hne heq), heq, h.row]
      · exact h.row
    · rw [deadlines_retirePending clock ib target seq hrow]
      split_ifs with heq
      · rw [getElem?_erase_of_ne _ (hne heq), heq, h.deadline]
      · exact h.deadline
    · rw [cursor_retirePending]
      exact h.attempts

theorem Held.deadLetter (clock : ℤ) {target : String} {seq : ℕ}
    (hne : target = d.target → seq ≠ d.seq) (reason : DeadLetterReason) :
    d.Held attempts (ib.deadLetter clock target seq reason) := by
  cases hrow : (ib.rows target)[seq]? with
  | none => rwa [deadLetter_of_none clock ib target seq reason hrow]
  | some entry =>
    obtain ⟨index, marks, heq⟩ := deadLetter_eq clock ib target seq hrow reason
    have hheld := (h.retirePending clock hne).modifyCursor target
      (·.recordDeadLetter ⟨seq, entry.envelope.envelopeId, reason, ib.retainUntilOf clock entry⟩)
      fun heq => by
        exact getElem?_erase_of_ne _ (hne heq)
    rw [heq]
    exact ⟨⟨hheld.row, hheld.deadline⟩, hheld.attempts⟩

theorem Held.settleExpired (now : ℤ) (target : String) :
    d.Held attempts (settleExpired now ib target) := by
  obtain ⟨index, marks, heq⟩ := settleExpired_eq now ib target
  have hadvanced := h.advanceSettled target
  rw [heq]
  split_ifs
  · have hheld := hadvanced.modifyCursor target (fun cursor => { cursor with
      deadLetters := cursor.deadLetters.filter fun record => now < record.retainUntil }) fun _ => rfl
    exact ⟨⟨hheld.row, hheld.deadline⟩, hheld.attempts⟩
  · exact ⟨⟨hadvanced.row, hadvanced.deadline⟩, hadvanced.attempts⟩

theorem Held.appendAt (hlt : d.seq < ib.next d.target) (envelope : Envelope)
    (now : ℤ) : d.Held attempts (ib.appendAt envelope now).2 := by
  refine ⟨⟨?_, ?_⟩, ?_⟩
  · rw [rows_appendAt]
    split_ifs
    · rw [getElem?_insert_of_ne _ _ hlt.ne', h.row]
    · exact h.row
  · rw [deadlines_appendAt]
    split_ifs
    · rw [getElem?_insert_of_ne _ _ hlt.ne', h.deadline]
    · exact h.deadline
  · rw [cursor_appendAt]
    split_ifs <;> exact h.attempts

end

end
end Delivery

/-- No delivery becomes pending. -/
def Shrinks (ib ib' : OpaqueDeviceInbox) : Prop :=
  ∀ target seq, seq ∈ ib'.rows target → seq ∈ ib.rows target

namespace Shrinks
variable {ib ib' ib'' : OpaqueDeviceInbox}

theorem of_rows_eq (h : ib'.rows = ib.rows) : Shrinks ib ib' := by
  intro target seq hmem
  rwa [← h]

theorem trans (h : Shrinks ib ib') (h' : Shrinks ib' ib'') : Shrinks ib ib'' :=
  fun target seq hmem => h target seq (h' target seq hmem)

theorem of_erase (target : String) (seq : ℕ) (h : ∀ other, ib'.rows other =
    if target = other then (ib.rows target).erase seq else ib.rows other) : Shrinks ib ib' := by
  intro other q hmem
  rw [h] at hmem
  split_ifs at hmem with heq
  · exact heq ▸ mem_of_mem_erase hmem
  · exact hmem

theorem makeAckWindowRoom (clock : ℤ) (ib : OpaqueDeviceInbox) (target : String) (entrySeq : ℕ) :
    Shrinks ib (ib.makeAckWindowRoom clock target entrySeq) :=
  roomLoop_induct clock target entrySeq (P := Shrinks ib)
    (fun ib' head h _ => h.trans (.of_erase target head fun other =>
      rows_overflowHead clock ib' target other head))
    _ (.of_rows_eq rfl)

theorem settleExpired (now : ℤ) (ib : OpaqueDeviceInbox) (target : String) :
    Shrinks ib (settleExpired now ib target) := by
  obtain ⟨index, marks, heq⟩ := settleExpired_eq now ib target
  have hadvanced : (ib.advanceSettled target).rows = ib.rows := ib.rows_advanceSettled target
  apply of_rows_eq
  rw [heq]
  split_ifs
  · exact hadvanced
  · exact hadvanced

theorem settleAll (now : ℤ) (targets : List String) (ib : OpaqueDeviceInbox) :
    Shrinks ib (targets.foldl (OpaqueDeviceInbox.settleExpired now) ib) :=
  foldlRecOn targets _ (.of_rows_eq rfl) fun ib' h target _ => h.trans (settleExpired now ib' target)

theorem applyAckForTarget (clock : ℤ) (ib : OpaqueDeviceInbox) (target : String) (ack : Ack) :
    Shrinks ib (ib.applyAckForTarget clock target ack).2 := by
  rcases applyAckForTarget_cases clock ib target ack with heq | ⟨entrySeq, hcheck⟩
  · exact .of_rows_eq (by rw [heq])
  · rw [applyAckForTarget_of_ok clock hcheck]
    exact (makeAckWindowRoom clock (ib.startAck target) target entrySeq).trans
      (.of_erase target entrySeq (rows_finishAck clock _ target entrySeq ack.envelopeId))

theorem applyNackForTarget (clock : ℤ) (ib : OpaqueDeviceInbox) (target : String) (nack : Nack) :
    Shrinks ib (ib.applyNackForTarget clock target nack).2 := by
  rcases applyNackForTarget_cases clock ib target nack with heq | heq | ⟨seq, hseq⟩
  · exact .of_rows_eq (by rw [heq])
  · exact .of_rows_eq (by rw [heq]; rfl)
  · rw [applyNackForTarget_of_some clock _ hseq rfl]
    split_ifs
    · refine .of_erase target seq fun other => ?_
      rw [rows_advanceSettled, rows_deadLetter, rows_noteNack]
    · exact .of_rows_eq rfl

theorem expireEntries (h : ib.Consistent) (clock now : ℤ) :
    Shrinks ib (ib.expireEntries clock now).2 := by
  obtain ⟨hidx, due, heq⟩ := h.ensureExpiryIndex clock
  unfold OpaqueDeviceInbox.expireEntries
  rw [heq] at hidx ⊢
  have hloop := expireLoop_induct clock now (P := fun ib' _ => Shrinks ib ib') (by
      intro ib' touched due _ _ hshrinks _ _
      exact hshrinks.trans (.of_erase due.target due.seq
        (rows_retirePending clock ib' due.target due.seq)))
    due.size hidx rfl [] ∅ (.of_rows_eq rfl)
  exact hloop.2.2.trans (settleAll now _ _)

/-- Only an append makes a delivery pending, and it takes the next sequence. -/
theorem exec (h : Settling ∅ ib) (call : InboxCall) {target : String} {seq : ℕ}
    (hlt : seq < ib.next target) (hmem : seq ∈ (ib.exec call).rows target) :
    seq ∈ ib.rows target := by
  cases call with
  | append envelope now =>
    rw [OpaqueDeviceInbox.exec, rows_appendAt] at hmem
    split_ifs at hmem
    · rw [mem_insert, Std.LawfulEqCmp.compare_eq_iff_eq] at hmem
      exact hmem.resolve_left hlt.ne'
    · exact hmem
  | ack clock target' ack => exact applyAckForTarget clock ib target' ack target seq hmem
  | nack clock target' nack => exact applyNackForTarget clock ib target' nack target seq hmem
  | expire clock now => exact expireEntries h.consistent clock now target seq hmem

end Shrinks

theorem boundQueue_of_length_le {α : Type} {limit : ℕ} {queue : List α} (h : queue.length ≤ limit) :
    boundQueue limit queue = queue := by
  rw [boundQueue, Nat.sub_eq_zero_of_le h, drop_zero]

theorem boundQueue_append {α : Type} (limit : ℕ) (queue items : List α) :
    boundQueue limit (boundQueue limit queue ++ items) = boundQueue limit (queue ++ items) := by
  have hlen : (boundQueue limit queue).length = min queue.length limit := by
    rw [boundQueue, length_drop]
    omega
  have hdrop : boundQueue limit queue ++ items = (queue ++ items).drop (queue.length - limit) :=
    (drop_append_of_le_length (Nat.sub_le _ _)).symm
  rw [boundQueue, length_append, hlen, hdrop, drop_drop, boundQueue, length_append]
  congr 1
  omega

/-- The dead-letter queue took in `records`, keeping the newest ones. -/
def Delivery.DeadLettered (d : Delivery) (reason : DeadLetterReason) (ib ib' : OpaqueDeviceInbox) :
    Prop :=
  ∃ records, d.record reason ∈ records ∧ (ib'.cursor d.target).deadLetters =
    boundQueue routerDeadLetterLimit ((ib.cursor d.target).deadLetters ++ records)

section
variable (clock : ℤ) (ib : OpaqueDeviceInbox) (target : String)

@[simp] theorem deadLetters_advanceSettled (other : String) :
    ((ib.advanceSettled target).cursor other).deadLetters = (ib.cursor other).deadLetters := by
  by_cases hmem : target ∈ ib.cursors
  · rw [ib.advanceSettled_eq target hmem, cursor_modifyCursor]
    split_ifs with heq
    · rw [settle, heq]
    · rfl
  · rw [ib.advanceSettled_of_notMem target hmem]

theorem deadLetters_deadLetter {seq : ℕ} {entry : InboxEntry}
    (hrow : (ib.rows target)[seq]? = some entry) (reason : DeadLetterReason) :
    ((ib.deadLetter clock target seq reason).cursor target).deadLetters =
      boundQueue routerDeadLetterLimit ((ib.cursor target).deadLetters ++
        [⟨seq, entry.envelope.envelopeId, reason, ib.retainUntilOf clock entry⟩]) := by
  rw [cursor_deadLetter clock ib target seq reason hrow, recordDeadLetter]

end

namespace Delivery
variable {d : Delivery} {attempts : ℕ} {ib : OpaqueDeviceInbox}

theorem Pending.retainUntilOf_eq (h : d.Pending ib) (hc : ib.Consistent) (clock : ℤ) :
    ib.retainUntilOf clock d.entry = d.deadline :=
  some.inj ((hc.retainUntilOf_eq clock h.row).symm.trans h.deadline)

theorem Gone.shrinks {ib' : OpaqueDeviceInbox} (h : d.Gone ib) (hshrinks : Shrinks ib ib') :
    d.Gone ib' :=
  fun hmem => h (hshrinks _ _ hmem)

theorem DeadLettered.trans {reason : DeadLetterReason} {ib' ib'' : OpaqueDeviceInbox}
    (h : d.DeadLettered reason ib ib') (more : List DeadLetterRecord)
    (hmore : (ib''.cursor d.target).deadLetters =
      boundQueue routerDeadLetterLimit ((ib'.cursor d.target).deadLetters ++ more)) :
    d.DeadLettered reason ib ib'' := by
  obtain ⟨records, hmem, hqueue⟩ := h
  refine ⟨records ++ more, mem_append_left _ hmem, ?_⟩
  rw [hmore, hqueue, boundQueue_append, append_assoc]

/-- A round of `make_ack_window_room` adds at most one dead letter, that of its head. -/
theorem deadLetters_overflowHead (hs : Settling ∅ ib) (clock : ℤ) {target : String}
    {entrySeq head : ℕ} (other : String) (hhead : ib.roomHead target entrySeq = some head) :
    ∃ more, ((ib.overflowHead clock target head).cursor other).deadLetters =
        boundQueue routerDeadLetterLimit ((ib.cursor other).deadLetters ++ more) ∧
      ∀ entry, target = other → (ib.rows target)[head]? = some entry →
        ⟨head, entry.envelope.envelopeId, .ackWindowOverflow, ib.retainUntilOf clock entry⟩ ∈
          more := by
  obtain ⟨-, -, -, -, ⟨entry, hfirst⟩, -⟩ := roomHead_eq_some hhead
  have hrow := ((first?_eq_some_iff _ _ _).mp hfirst).1
  unfold overflowHead
  rw [deadLetters_advanceSettled]
  by_cases heq : target = other
  · subst heq
    refine ⟨_, deadLetters_deadLetter clock ib target hrow .ackWindowOverflow, ?_⟩
    intro entry' _ hrow'
    cases hrow.symm.trans hrow'
    exact mem_singleton_self _
  · refine ⟨[], ?_, fun _ hsame => absurd hsame heq⟩
    rw [cursor_deadLetter_of_ne clock ib target head _ heq, append_nil,
      boundQueue_of_length_le (hs.loose other).deadLetters]

theorem Held.makeAckWindowRoom (h : d.Held attempts ib) (hs : Settling ∅ ib) (clock : ℤ)
    (target : String) (entrySeq : ℕ) :
    d.Held attempts (ib.makeAckWindowRoom clock target entrySeq) ∨
      target = d.target ∧ d.seq < entrySeq ∧
        d.Gone (ib.makeAckWindowRoom clock target entrySeq) ∧
        d.DeadLettered .ackWindowOverflow ib (ib.makeAckWindowRoom clock target entrySeq) := by
  have hloop := roomLoop_induct clock target entrySeq (P := fun ib' => Settling ∅ ib' ∧
      ((d.Held attempts ib' ∧ ∃ records, (ib'.cursor d.target).deadLetters =
          boundQueue routerDeadLetterLimit ((ib.cursor d.target).deadLetters ++ records)) ∨
        target = d.target ∧ d.seq < entrySeq ∧ d.Gone ib' ∧
          d.DeadLettered .ackWindowOverflow ib ib')) ?_ (ib.rows target).size ⟨hs, .inl ⟨h, [], ?_⟩⟩
  · rcases hloop.2 with ⟨hheld, -⟩ | hgone
    · exact .inl hheld
    · exact .inr hgone
  · rintro ib' head ⟨hs', hstate⟩ hhead
    refine ⟨hs'.overflowHead clock target head, ?_⟩
    obtain ⟨more, hmore, hrec⟩ := deadLetters_overflowHead hs' clock d.target hhead
    have herase := fun other => rows_overflowHead clock ib' target other head
    rcases hstate with ⟨hheld, records, hqueue⟩ | ⟨htgt, hlt, hgone, hletter⟩
    · have hmore' : ((ib'.overflowHead clock target head).cursor d.target).deadLetters =
          boundQueue routerDeadLetterLimit
            ((ib.cursor d.target).deadLetters ++ (records ++ more)) := by
        rw [hmore, hqueue, boundQueue_append, append_assoc]
      by_cases heq : target = d.target ∧ head = d.seq
      · obtain ⟨htgt, hseq⟩ := heq
        refine .inr ⟨htgt, hseq ▸ (roomHead_eq_some hhead).2.2.2.2.2, ?_, _, ?_, hmore'⟩
        · intro hmem
          rw [herase, if_pos htgt, hseq] at hmem
          simp at hmem
        · have := hrec d.entry htgt (by rw [htgt, hseq]; exact hheld.row)
          rw [hheld.retainUntilOf_eq hs'.consistent, hseq] at this
          exact mem_append_right _ this
      · refine .inl ⟨?_, _, hmore'⟩
        exact (hheld.deadLetter clock (fun htgt hseq => heq ⟨htgt, hseq⟩) _).advanceSettled _
    · exact .inr ⟨htgt, hlt, hgone.shrinks (.of_erase target head herase), hletter.trans more hmore⟩
  · rw [append_nil, boundQueue_of_length_le (hs.loose d.target).deadLetters]

end Delivery

inductive Exit
  | acknowledged
  | refused
  | overflowed
  | expired
  deriving DecidableEq

namespace InboxMove

def refuses (m : InboxMove) (d : Delivery) : Bool :=
  match m.call with
  | .nack _ target nack =>
    target = d.target ∧ names nack.ext nack.envelopeId (m.before.rows d.target) d.seq
  | _ => false

def Retires (m : InboxMove) (d : Delivery) : Prop :=
  d.seq ∈ m.before.rows d.target ∧ d.seq ∉ m.after.rows d.target

/-- Reason for which a call retires a delivery that `refusals` calls refused before. -/
def Exits (m : InboxMove) (d : Delivery) (refusals : ℕ) : Exit → Prop
  | .acknowledged => ∃ clock ack, m.call = .ack clock d.target ack ∧
      names ack.ext ack.envelopeId (m.before.rows d.target) d.seq
  | .refused => ∃ clock nack, m.call = .nack clock d.target nack ∧
      names nack.ext nack.envelopeId (m.before.rows d.target) d.seq ∧
      refusals + 1 = routerNackRetryLimit ∧ d.DeadLettered (.nacked nack.reason) m.before m.after
  | .overflowed => ∃ clock ack seq, m.call = .ack clock d.target ack ∧
      names ack.ext ack.envelopeId (m.before.rows d.target) seq ∧ d.seq < seq ∧
      routerAckWindow ≤ (m.before.cursor d.target).ackedInboxSeqs.size ∧
      d.DeadLettered .ackWindowOverflow m.before m.after
  | .expired => ∃ clock now, m.call = .expire clock now ∧ d.deadline ≤ now

theorem Exits.unique {m : InboxMove} {d : Delivery} {refusals : ℕ} {exit exit' : Exit}
    (h : m.Exits d refusals exit) (h' : m.Exits d refusals exit') : exit = exit' := by
  -- Only an ACK has two ways to retire a delivery, and it names one sequence.
  have hack : ∀ {m : InboxMove}, m.Exits d refusals .acknowledged →
      ¬ m.Exits d refusals .overflowed := by
    rintro m ⟨clock, ack, hcall, hnames⟩ ⟨clock', ack', seq, hcall', hnames', hlt, -⟩
    obtain ⟨-, -, rfl⟩ := InboxCall.ack.inj (hcall.symm.trans hcall')
    exact hlt.ne (names_unique hnames hnames')
  cases exit <;> cases exit' <;> first
    | rfl
    | exact absurd h' (hack h)
    | exact absurd h (hack h')
    | (simp only [Exits] at h h'; grind)

end InboxMove

/-- A call keeps a delivery refused `attempts` times, counting its own refusal, or retires it. -/
def InboxMove.Treats (m : InboxMove) (d : Delivery) (attempts : ℕ) : Prop :=
  (d.Held (attempts + (m.refuses d).toNat) m.after ∧
      attempts + (m.refuses d).toNat < routerNackRetryLimit) ∨
    d.Gone m.after ∧ ∃ exit, m.Exits d attempts exit

namespace Delivery
variable {d : Delivery} {attempts : ℕ} {ib : OpaqueDeviceInbox} (h : d.Held attempts ib) (clock : ℤ)

theorem deadLetters_finishAck (ib : OpaqueDeviceInbox) (target : String) (entrySeq : ℕ)
    (envelopeId : String) (other : String) :
    ((ib.finishAck clock target entrySeq envelopeId).cursor other).deadLetters =
      (ib.cursor other).deadLetters := by
  rw [finishAck, deadLetters_advanceSettled, cursor_retirePending, cursor_modifyCursor]
  split_ifs with heq
  · rw [acknowledge, heq]
  · rfl

variable {target : String}

theorem names_of_roomHead (hs : Settling ∅ ib) {ack : Ack} {entrySeq head : ℕ}
    (hcheck : ib.checkAck target ack = .ok entrySeq)
    (hhead : (ib.startAck target).roomHead target entrySeq = some head) :
    names ack.ext ack.envelopeId (ib.rows target) entrySeq ∧
      routerAckWindow ≤ (ib.cursor target).ackedInboxSeqs.size := by
  obtain ⟨retired, hcurs⟩ := ib.cursor_startAck target target
  obtain ⟨-, hfull, hsett, hacked, -⟩ := roomHead_eq_some hhead
  rw [hcurs] at hfull hsett hacked
  refine ⟨names_of_checkAck hs.consistent hcheck ?_, hfull⟩
  obtain ⟨-, ⟨entry, hrow, -⟩ | ⟨-, -, hin | hle⟩⟩ := checkAck_ok hcheck
  · exact mem_of_eq_some hrow
  · exact absurd hin hacked
  · have hloose := hs.loose target
    have hnext := le_satAdd_one (hloose.settled_lt.le.trans hloose.next_le)
    exact absurd hle (not_le.mpr (hnext.trans_lt hsett))

include h

theorem Held.finishAck {entrySeq : ℕ} (envelopeId : String)
    (hne : target = d.target → entrySeq ≠ d.seq) :
    d.Held attempts (ib.finishAck clock target entrySeq envelopeId) := by
  have hacked := h.modifyCursor target (·.acknowledge entrySeq envelopeId) fun heq => by
    exact getElem?_erase_of_ne _ (hne heq)
  exact (hacked.retirePending clock hne).advanceSettled target

theorem Held.noteNack_of_ne {seq : ℕ} (nack : Nack) (count : ℕ)
    (hne : target = d.target → seq ≠ d.seq) : d.Held attempts (ib.noteNack target nack seq count) := by
  have hrecorded := h.modifyCursor target (·.recordNack nack) fun _ => by
    rw [recordNack]
  refine hrecorded.modifyCursor target (·.countNack seq count) fun heq => ?_
  rw [countNack, getElem?_insert_of_ne _ _ (hne heq)]

variable (hs : Settling ∅ ib) (hbelow : attempts < routerNackRetryLimit)
include hs hbelow

theorem Held.ack (target : String) (ack : Ack) :
    (ib.move (.ack clock target ack)).1.Treats d attempts := by
  unfold Treats move exec refuses
  dsimp only
  rcases applyAckForTarget_cases clock ib target ack with heq | ⟨entrySeq, hcheck⟩
  · rw [heq]
    exact .inl ⟨h, hbelow⟩
  · have hstart : d.Held attempts (ib.startAck target) := h.modifyCursor target _ fun _ => rfl
    have hroom := hstart.makeAckWindowRoom (hs.startAck target) clock target entrySeq
    have herase := rows_finishAck clock
      ((ib.startAck target).makeAckWindowRoom clock target entrySeq) target entrySeq ack.envelopeId
    rw [applyAckForTarget_of_ok clock hcheck]
    rcases hroom with hheld | ⟨rfl, hlt, hgone, records, hmem, hqueue⟩
    · by_cases heq : target = d.target ∧ entrySeq = d.seq
      · obtain ⟨rfl, rfl⟩ := heq
        refine .inr ⟨?_, .acknowledged, clock, ack, rfl, names_of_checkAck hs.consistent hcheck h.mem⟩
        intro hmem
        rw [herase, if_pos rfl] at hmem
        simp at hmem
      · refine .inl ⟨hheld.finishAck clock ack.envelopeId ?_, hbelow⟩
        exact fun htgt hseq => heq ⟨htgt, hseq⟩
    · refine .inr ⟨hgone.shrinks (.of_erase d.target entrySeq herase), .overflowed, ?_⟩
      cases hhead : (ib.startAck d.target).roomHead d.target entrySeq with
      | none =>
        -- Without a head to give up nothing was retired.
        rw [makeAckWindowRoom_of_none clock hhead] at hgone
        exact absurd hstart.mem hgone
      | some head =>
        obtain ⟨hnames, hfull⟩ := names_of_roomHead hs hcheck hhead
        obtain ⟨retired, hcurs⟩ := ib.cursor_startAck d.target d.target
        refine ⟨clock, ack, entrySeq, rfl, hnames, hlt, hfull, records, hmem, ?_⟩
        rw [hcurs] at hqueue
        exact (deadLetters_finishAck clock _ d.target entrySeq ack.envelopeId d.target).trans hqueue

/-- A NACK that names the delivery is counted, and retires it at the limit. -/
theorem Held.nack_self {nack : Nack} (hseq : ib.nackSeq d.target nack = .ok (some d.seq)) :
    d.Held (attempts + 1) (ib.applyNackForTarget clock d.target nack).2 ∧
        attempts + 1 < routerNackRetryLimit ∨
      d.Gone (ib.applyNackForTarget clock d.target nack).2 ∧
        attempts + 1 = routerNackRetryLimit ∧
        d.DeadLettered (.nacked nack.reason) ib (ib.applyNackForTarget clock d.target nack).2 := by
  obtain ⟨ids, hcurs⟩ := ib.cursor_noteNack d.target nack d.seq (attempts + 1)
  rw [applyNackForTarget_of_some clock (attempts + 1) hseq]
  · split_ifs with hlimit
    · refine .inr ⟨?_, by omega, [d.record (.nacked nack.reason)], mem_singleton_self _, ?_⟩
      · intro hmem
        rw [rows_advanceSettled, rows_deadLetter, if_pos rfl] at hmem
        simp at hmem
      · have hrow : ((ib.noteNack d.target nack d.seq (attempts + 1)).rows d.target)[d.seq]? =
            some d.entry := h.row
        rw [deadLetters_advanceSettled, deadLetters_deadLetter clock _ d.target hrow, hcurs]
        have hdeadline : (ib.noteNack d.target nack d.seq (attempts + 1)).retainUntilOf clock
            d.entry = d.deadline :=
          h.retainUntilOf_eq hs.consistent clock
        rw [hdeadline]
        rfl
    · refine .inl ⟨⟨⟨h.row, h.deadline⟩, ?_⟩, by omega⟩
      rw [hcurs]
      rw [getElem?_insert_self]
      rfl
  · rw [h.attempts]
    exact min_eq_left ((Nat.succ_le_of_lt hbelow).trans (by decide))

theorem Held.nack (target : String) (nack : Nack) :
    (ib.move (.nack clock target nack)).1.Treats d attempts := by
  have hpos : 0 < d.seq := (Nat.zero_le _).trans_lt ((hs.loose d.target).pending d.seq h.mem).1
  have hrefuses : (ib.move (.nack clock target nack)).1.refuses d ↔
      target = d.target ∧ ib.nackSeq d.target nack = .ok (some d.seq) := by
    rw [move, refuses, nackSeq_eq_some_iff hs.consistent hpos, decide_eq_true_iff]
  unfold Treats
  by_cases hself : target = d.target ∧ ib.nackSeq d.target nack = .ok (some d.seq)
  · rw [hrefuses.mpr hself]
    obtain ⟨rfl, hseq⟩ := hself
    rcases h.nack_self clock hs hbelow hseq with hheld | ⟨hgone, hlimit, hletter⟩
    · exact .inl hheld
    · exact .inr ⟨hgone, .refused, clock, nack, rfl,
        (nackSeq_eq_some_iff hs.consistent hpos).mp hseq, hlimit, hletter⟩
  · rw [Bool.eq_false_iff.mpr (mt hrefuses.mp hself)]
    refine .inl ⟨?_, hbelow⟩
    change d.Held attempts (ib.applyNackForTarget clock target nack).2
    rcases applyNackForTarget_cases clock ib target nack with heq | heq | ⟨seq, hseq⟩
    · rwa [heq]
    · rw [heq]
      refine h.modifyCursor target (·.recordNack nack) fun _ => ?_
      rw [recordNack]
    · have hne : target = d.target → seq ≠ d.seq := by
        rintro rfl rfl
        exact hself ⟨rfl, hseq⟩
      have hnoted := h.noteNack_of_ne nack
        (min ((ib.cursor target).nackAttempts[seq]?.getD 0 + 1) u32Max) hne
      rw [applyNackForTarget_of_some clock _ hseq rfl]
      split_ifs
      · exact (hnoted.deadLetter clock hne _).advanceSettled target
      · exact hnoted

theorem Held.expire (now : ℤ) : (ib.move (.expire clock now)).1.Treats d attempts := by
  unfold Treats OpaqueDeviceInbox.move OpaqueDeviceInbox.exec refuses
  dsimp only
  obtain ⟨hidx, due, heq⟩ := hs.consistent.ensureExpiryIndex clock
  unfold OpaqueDeviceInbox.expireEntries
  rw [heq] at hidx ⊢
  have hloop := expireLoop_induct clock now
    (P := fun ib' _ => d.Held attempts ib' ∨ d.Gone ib' ∧ d.deadline ≤ now) (by
      intro ib' touched due hc hready hstate hdue hle
      have herase := rows_retirePending clock ib' due.target due.seq
      rcases hstate with hheld | ⟨hgone, hdeadline⟩
      · by_cases hself : due.target = d.target ∧ due.seq = d.seq
        · obtain ⟨htgt, hseq⟩ := hself
          refine .inr ⟨?_, ?_⟩
          · intro hmem
            rw [herase, if_pos htgt, hseq] at hmem
            simp at hmem
          · have hsame := (hc.due hready due).mp hdue
            rw [htgt, hseq, hheld.deadline] at hsame
            exact (some.inj hsame).le.trans hle
        · exact .inl (hheld.retirePending clock fun htgt hseq => hself ⟨htgt, hseq⟩)
      · exact .inr ⟨hgone.shrinks (.of_erase due.target due.seq herase), hdeadline⟩)
    due.size hidx rfl [] ∅ (.inl ⟨⟨h.row, h.deadline⟩, h.attempts⟩)
  rcases hloop.2.2 with hheld | ⟨hgone, hdeadline⟩
  · exact .inl ⟨foldlRecOn _ _ hheld fun _ hheld target _ => hheld.settleExpired now target, hbelow⟩
  · exact .inr ⟨hgone.shrinks (Shrinks.settleAll now _ _), .expired, clock, now, rfl, hdeadline⟩

theorem Held.exec (call : InboxCall) : (ib.move call).1.Treats d attempts := by
  cases call with
  | append envelope now =>
    exact .inl ⟨h.appendAt ((hs.loose d.target).pending d.seq h.mem).2 envelope now, hbelow⟩
  | ack clock target ack => exact h.ack clock hs hbelow target ack
  | nack clock target nack => exact h.nack clock hs hbelow target nack
  | expire clock now => exact h.expire clock hs hbelow now

end Delivery

/-- A delivery is pending, or left at the call with number `index` after its append. -/
inductive Fate
  | pending
  | left (index : ℕ) (exit : Exit)

/-- Fate of a delivery in state `ib`, after the calls `later` that followed its append. -/
def Delivery.HasFate (d : Delivery) (later : List InboxMove) (ib : OpaqueDeviceInbox) : Fate → Prop
  | .pending => d.Pending ib
  | .left index exit => ∃ m, later[index]? = some m ∧ m.Retires d ∧
      m.Exits d ((later.take index).countP (·.refuses d)) exit

/-- What holds of a delivery after every call that follows its append. -/
structure Delivery.Tracked (d : Delivery) (later : List InboxMove) (ib : OpaqueDeviceInbox) : Prop where
  settling : Settling ∅ ib
  issued : d.seq < ib.next d.target
  state : (d.Held (later.countP (·.refuses d)) ib ∧
        later.countP (·.refuses d) < routerNackRetryLimit ∧ ∀ m ∈ later, ¬ m.Retires d) ∨
      d.Gone ib ∧ ∃ index exit, d.HasFate later ib (.left index exit) ∧
        ∀ i m, later[i]? = some m → m.Retires d → i = index

namespace Delivery.Tracked
variable {d : Delivery} {later : List InboxMove} {ib ib' : OpaqueDeviceInbox} {m : InboxMove}

theorem of_append (hs : Settling ∅ ib) {envelope : Envelope} {now : ℤ}
    (hrange : ib.next envelope.target < u64Max) :
    Tracked ⟨(ib.appendAt envelope now).1, inboxRetainUntil envelope now⟩ [] (ib.appendAt envelope now).2 := by
  refine ⟨hs.exec (.append envelope now) hrange, ?_, .inl ⟨⟨⟨?_, ?_⟩, ?_⟩, Nat.succ_pos 2, by simp⟩⟩
  · change ib.next envelope.target < (ib.appendAt envelope now).2.next envelope.target
    rw [next_appendAt, if_pos rfl, satAdd_one_of_lt hrange]
    exact Nat.lt_succ_self _
  · change ((ib.appendAt envelope now).2.rows envelope.target)[ib.next envelope.target]? = _
    rw [rows_appendAt, if_pos rfl, getElem?_insert_self]
    rfl
  · change ((ib.appendAt envelope now).2.deadlines envelope.target)[ib.next envelope.target]? = _
    rw [deadlines_appendAt, if_pos rfl, getElem?_insert_self]
  · change ((ib.appendAt envelope now).2.cursor envelope.target).nackAttempts[
      ib.next envelope.target]?.getD 0 = 0
    rw [cursor_appendAt, if_pos rfl]
    have hsett := hs.settled envelope.target (Set.notMem_empty _)
    have hnone : ib.next envelope.target ∉
        (ib.cursor envelope.target).nackAttempts := by
      intro hmem
      exact lt_irrefl _ (hsett.pending _ (hsett.attempts _ hmem)).2
    rw [Std.ExtTreeMap.getElem?_eq_none hnone]
    rfl

theorem step (h : d.Tracked later ib)
    (hstep : InboxStep (fun ib call => call.InRange ib) ib m ib') : d.Tracked (later ++ [m]) ib' := by
  obtain ⟨hbefore, hafter, hexec, hrange⟩ := hstep
  have hmove : m = (ib.move m.call).1 := by
    rw [move, ← hexec, ← hafter, ← hbefore]
  have hissued : d.seq < ib'.next d.target := by
    rw [hexec]
    exact h.issued.trans_le (next_le_exec ib hrange d.target)
  have hsettling : Settling ∅ ib' := by
    rw [hexec]
    exact h.settling.exec m.call hrange
  refine ⟨hsettling, hissued, ?_⟩
  -- A call at a position of the longer list is the last one or an earlier one.
  have hcases : ∀ i m', (later ++ [m])[i]? = some m' → i = later.length ∧ m' = m ∨
      later[i]? = some m' := by
    intro i m' hget
    rcases lt_or_ge i later.length with hlt | hge
    · rw [getElem?_append_left hlt] at hget
      exact .inr hget
    · rw [getElem?_append_right hge, getElem?_singleton] at hget
      split_ifs at hget with hi
      cases hget
      exact .inl ⟨by omega, rfl⟩
  rcases h.state with ⟨hheld, hbelow, hnone⟩ | ⟨hgone, index, exit, ⟨m', hget, hretires, hexits⟩, honly⟩
  · have htreats := hheld.exec h.settling hbelow m.call
    rw [← hmove, Treats, hafter] at htreats
    rcases htreats with ⟨hkept, hlimit⟩ | ⟨hgone, exit, hexits⟩
    · have hcount : (later ++ [m]).countP (·.refuses d) =
          later.countP (·.refuses d) + (m.refuses d).toNat := by
        rw [countP_append, countP_singleton]
        cases m.refuses d <;> rfl
      rw [hcount]
      refine .inl ⟨hkept, hlimit, ?_⟩
      intro m' hm' hretires
      rcases mem_append.mp hm' with hold | hlast
      · exact hnone m' hold hretires
      · obtain rfl := mem_singleton.mp hlast
        exact hretires.2 (hafter ▸ hkept.mem)
    · refine .inr ⟨hgone, later.length, exit, ⟨m, by simp, ⟨hbefore ▸ hheld.mem, hafter ▸ hgone⟩, ?_⟩, ?_⟩
      · rwa [take_left]
      · intro i m' hget hretires
        rcases hcases i m' hget with ⟨hi, -⟩ | hold
        · exact hi
        · exact absurd hretires (hnone m' (mem_of_getElem? hold))
  · have hlt : index < later.length := (List.getElem?_eq_some_iff.mp hget).1
    refine .inr ⟨?_, index, exit, ⟨m', ?_, hretires, ?_⟩, ?_⟩
    · intro hmem
      rw [hexec] at hmem
      exact hgone (Shrinks.exec h.settling m.call h.issued hmem)
    · rwa [getElem?_append_left hlt]
    · rwa [take_append_of_le_length hlt.le]
    · intro i m'' hget'' hretires''
      rcases hcases i m'' hget'' with ⟨-, rfl⟩ | hold
      · exact absurd (hbefore ▸ hretires''.1) hgone
      · exact honly i m'' hold hretires''

/-- A tracked delivery has exactly one fate. -/
theorem existsUnique_fate (h : d.Tracked later ib) : ∃! fate, d.HasFate later ib fate := by
  rcases h.state with ⟨hheld, -, hnone⟩ | ⟨hgone, index, exit, hfate, honly⟩
  · refine ⟨.pending, hheld.toPending, ?_⟩
    rintro (_ | ⟨index, exit⟩) hfate
    · rfl
    · obtain ⟨m, hget, hretires, -⟩ := hfate
      exact absurd hretires (hnone m (mem_of_getElem? hget))
  · refine ⟨.left index exit, hfate, ?_⟩
    rintro (_ | ⟨index', exit'⟩) hfate'
    · exact absurd hfate'.mem hgone
    · obtain ⟨m, hget, -, hexits⟩ := hfate
      obtain ⟨m', hget', hretires', hexits'⟩ := hfate'
      obtain rfl := honly index' m' hget' hretires'
      cases hget.symm.trans hget'
      rw [hexits.unique hexits']

end Delivery.Tracked

def InboxMove.appended (m : InboxMove) (envelope : Envelope) (now : ℤ) : Delivery :=
  ⟨(m.before.appendAt envelope now).1, inboxRetainUntil envelope now⟩

/-- The deadline map and, once built, the expiry index list exactly the pending deliveries. -/
structure Indexed (ib : OpaqueDeviceInbox) : Prop where
  deadlines : ∀ (target : String) (seq : ℕ), seq ∈ ib.deadlines target ↔ seq ∈ ib.rows target
  due : ib.expiry.ready = true → ∀ due : Due, due ∈ ib.expiry.due ↔
    due.seq ∈ ib.rows due.target ∧ (ib.deadlines due.target)[due.seq]? = some due.deadline

theorem Indexed.of_consistent {ib : OpaqueDeviceInbox} (h : ib.Consistent) : Indexed ib := by
  refine ⟨h.deadline, fun hready due => ?_⟩
  rw [h.due hready, ← h.deadline, mem_iff_exists]
  exact ⟨fun hdue => ⟨⟨_, hdue⟩, hdue⟩, And.right⟩

/-- Every delivery appended in a run has exactly one fate at its end. -/
theorem delivery_existsUnique_fate {moves : List InboxMove} {ib : OpaqueDeviceInbox}
    (hrun : Run (InboxStep fun ib call => call.InRange ib) .new moves ib) :
    (∀ earlier m later envelope now, moves = earlier ++ m :: later →
      m.call = .append envelope now → ∃! fate, (m.appended envelope now).HasFate later ib fate) ∧
    Indexed ib := by
  have hsettling : ∀ {moves : List InboxMove} {ib : OpaqueDeviceInbox},
      Run (InboxStep fun ib call => call.InRange ib) .new moves ib → Settling ∅ ib := by
    intro moves ib hrun
    refine hrun.preserves .of_new ?_
    rintro ib m ib' h ⟨-, -, rfl, hrange⟩
    exact h.exec m.call hrange
  refine ⟨?_, .of_consistent (hsettling hrun).consistent⟩
  rintro earlier m later envelope now rfl hcall
  rw [append_cons] at hrun
  obtain ⟨ib₁, hfirst, hlater⟩ := hrun.append_inv
  obtain ⟨ib₀, hearlier, hbefore, -, hexec, hrange⟩ := hfirst.snoc_inv
  rw [hcall] at hexec hrange
  have hstart : (m.appended envelope now).Tracked [] ib₁ := by
    rw [hexec, appended, hbefore]
    exact .of_append (hsettling hearlier) hrange
  exact (hlater.invariant (P := (m.appended envelope now).Tracked) hstart
    fun _ _ _ _ _ h hstep => h.step hstep).existsUnique_fate

/-- The first delivery of the run is refused and expires, the second is acknowledged. -/
theorem delivery_existsUnique_fate_two : ∃ (moves : List InboxMove) (ib : OpaqueDeviceInbox),
    moves.map call = settlingCalls ∧
    Run (InboxStep fun ib call => call.InRange ib) .new moves ib ∧
    (∀ earlier m later envelope now, moves = earlier ++ m :: later →
      m.call = .append envelope now → ∃! fate, (m.appended envelope now).HasFate later ib fate) ∧
    Indexed ib := by
  have hok : Run.Along move (fun ib call => call.InRange ib) .new settlingCalls := by
    decide +kernel
  have hrun : Run (InboxStep fun ib call => call.InRange ib) .new _ _ :=
    Run.of_trace_along _ (fun ib call hok => ⟨rfl, rfl, rfl, hok⟩) hok
  exact ⟨_, _, rfl, hrun, delivery_existsUnique_fate hrun⟩

theorem run_appends (envelope : Envelope) (count : ℕ) (hcount : count < u64Max) :
    ∃ (moves : List InboxMove) (ib : OpaqueDeviceInbox),
      moves.map call = List.replicate count (.append envelope 0) ∧
      Run (InboxStep fun _ _ => True) .new moves ib ∧ ib.next envelope.target = count + 1 := by
  induction count with
  | zero => exact ⟨[], .new, rfl, .nil, rfl⟩
  | succ count ih =>
    obtain ⟨moves, ib, hcalls, hrun, hnext⟩ := ih (by omega)
    have hstep : InboxStep (fun _ _ => True) ib (ib.move (.append envelope 0)).1
        (ib.appendAt envelope 0).2 := ⟨rfl, rfl, rfl, trivial⟩
    refine ⟨_, _, ?_, hrun.snoc hstep, ?_⟩
    · rw [map_append, hcalls, replicate_succ']
      rfl
    · rw [next_appendAt, if_pos rfl, hnext, satAdd_one_of_lt hcount]

/-- Once sequences are used up, an append overwrites the last delivery, which has no fate. -/
theorem not_hasFate_of_full {ib : OpaqueDeviceInbox} {first second : Envelope}
    (htgt : second.target = first.target) (hne : first ≠ second)
    (hnext : ib.next first.target = u64Max) (fate : Fate) :
    ¬ ((ib.move (.append first 0)).1.appended first 0).HasFate
      [((ib.appendAt first 0).2.move (.append second 0)).1]
      ((ib.appendAt first 0).2.appendAt second 0).2 fate := by
  have hnext' : (ib.appendAt first 0).2.next first.target = u64Max := by
    rw [next_appendAt, if_pos rfl, hnext]
    exact min_eq_right (Nat.le_succ _)
  have hrow : (((ib.appendAt first 0).2.appendAt second 0).2.rows first.target)[
      ib.next first.target]? = some ⟨u64Max, first.target, second⟩ := by
    rw [rows_appendAt, if_pos htgt, hnext', hnext, getElem?_insert_self]
  cases fate with
  | pending =>
    intro hpending
    have hsame := hrow.symm.trans hpending.row
    exact hne (congrArg InboxEntry.envelope (some.inj hsame)).symm
  | left index exit =>
    rintro ⟨m, hget, hretires, -⟩
    obtain rfl := mem_singleton.mp (mem_of_getElem? hget)
    exact hretires.2 (mem_of_eq_some hrow)

theorem append_overwrites_last : ∃ (moves : List InboxMove) (ib : OpaqueDeviceInbox)
    (earlier : List InboxMove) (m m' : InboxMove),
    Run (InboxStep fun _ _ => True) .new moves ib ∧ moves = earlier ++ [m, m'] ∧
    moves.map call = List.replicate (u64Max - 1) (.append ⟨∅, "a", "s", "d", 0, 0⟩ 0) ++
      [.append ⟨∅, "b", "s", "d", 0, 0⟩ 0, .append ⟨∅, "c", "s", "d", 0, 0⟩ 0] ∧
    ∀ fate, ¬ (m.appended ⟨∅, "b", "s", "d", 0, 0⟩ 0).HasFate [m'] ib fate := by
  obtain ⟨earlier, ib, hcalls, hrun, hnext⟩ :=
    run_appends ⟨∅, "a", "s", "d", 0, 0⟩ (u64Max - 1) (by decide)
  have hstep : ∀ (ib : OpaqueDeviceInbox) (call : InboxCall),
      InboxStep (fun _ _ => True) ib (ib.move call).1 (ib.exec call) :=
    fun ib call => ⟨rfl, rfl, rfl, trivial⟩
  have hruns := (hrun.snoc (hstep ib (.append ⟨∅, "b", "s", "d", 0, 0⟩ 0))).snoc
    (hstep _ (.append ⟨∅, "c", "s", "d", 0, 0⟩ 0))
  refine ⟨_, _, earlier, _, _, hruns, append_assoc _ _ _, ?_,
    not_hasFate_of_full rfl (by decide +kernel) hnext⟩
  rw [append_assoc, map_append, hcalls]
  rfl

end Ramflux
