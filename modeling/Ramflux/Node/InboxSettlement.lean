import Ramflux.Node.InboxIndex
import Mathlib.Data.Set.Insert

/-! The settlement watermark of a mailbox stands right below its first pending delivery. -/
namespace Ramflux
open OpaqueDeviceInbox OrdMap List Std.ExtTreeMap

/-- A mailbox between the retirement of deliveries and its next settlement. -/
structure Loose (next : ℕ) (rows : OrdMap ℕ InboxEntry) (c : CursorAckState) : Prop where
  next_le : next ≤ u64Max
  settled_lt : c.settledInboxSeq < next
  issued_lt : c.issuedInboxSeq < next
  cursor_lt : c.inboxSeq < next
  pending : ∀ q ∈ rows, c.settledInboxSeq < q ∧ q < next
  acked : ∀ q ∈ c.ackedInboxSeqs, q < next ∧ q ∉ rows
  deadLetters : c.deadLetters.length ≤ routerDeadLetterLimit

/-- A mailbox after settlement. -/
structure Settled (next : ℕ) (rows : OrdMap ℕ InboxEntry) (c : CursorAckState) : Prop
    extends Loose next rows c where
  head : c.settledInboxSeq + 1 = next ∨ c.settledInboxSeq + 1 ∈ rows
  acked_gt : ∀ q ∈ c.ackedInboxSeqs, c.settledInboxSeq < q
  attempts : ∀ q ∈ c.nackAttempts, q ∈ rows

theorem length_boundQueue {α : Type} (limit : ℕ) (queue : List α) :
    (boundQueue limit queue).length ≤ limit := by
  rw [boundQueue, length_drop]
  omega

variable {seq : ℕ} (clock : ℤ)

namespace Loose
variable {next : ℕ} {rows : OrdMap ℕ InboxEntry} {c : CursorAckState} (h : Loose next rows c)

theorem of_new (target : String) : Loose 1 ∅ (.new target) where
  next_le := by decide
  settled_lt := Nat.one_pos
  issued_lt := Nat.one_pos
  cursor_lt := Nat.one_pos
  pending q hq := by simp at hq
  acked q hq := by simp [CursorAckState.new] at hq
  deadLetters := Nat.zero_le _

include h

theorem goal : c.settledInboxSeq ≤ settlementGoal next rows ∧ settlementGoal next rows < next ∧
    (∀ q ∈ rows, settlementGoal next rows < q) ∧
    (settlementGoal next rows + 1 = next ∨ settlementGoal next rows + 1 ∈ rows) := by
  have hlt := h.settled_lt
  unfold settlementGoal
  cases hfirst : rows.first? with
  | none =>
    have hempty := (first?_eq_none_iff rows).mp hfirst
    refine ⟨by dsimp only; omega, by dsimp only; omega, ?_, .inl (by dsimp only; omega)⟩
    intro q hq
    rw [hempty] at hq
    simp at hq
  | some e =>
    obtain ⟨first, entry⟩ := e
    obtain ⟨hrow, hmin⟩ := (first?_eq_some_iff rows first entry).mp hfirst
    have hmem : first ∈ rows := mem_of_eq_some hrow
    obtain ⟨hgt, hbelow⟩ := h.pending first hmem
    have hgoal : min (next - 1) (first - 1) = first - 1 := by omega
    dsimp only
    rw [hgoal]
    refine ⟨by omega, by omega, ?_, .inr ?_⟩
    · intro q hq
      have hle := hmin q hq
      rw [Nat.isLE_compare] at hle
      omega
    · rwa [Nat.sub_add_cancel (by omega)]

theorem goal_eq (hhead : c.settledInboxSeq + 1 ∈ rows) :
    settlementGoal next rows = c.settledInboxSeq := by
  obtain ⟨hle, -, hrows, -⟩ := h.goal
  have hgoal := hrows _ hhead
  omega

theorem settle {issued : ℕ} (hissued : issued < next) :
    Settled next rows (c.settle issued (settlementGoal next rows) rows) := by
  obtain ⟨hle, hlt, hrows, hhead⟩ := h.goal
  have hmax : max c.settledInboxSeq (settlementGoal next rows) = settlementGoal next rows :=
    max_eq_right hle
  have hacked : ∀ q ∈ (c.settle issued (settlementGoal next rows) rows).ackedInboxSeqs,
      q ∈ c.ackedInboxSeqs ∧ settlementGoal next rows < q := by
    intro q hq
    rw [CursorAckState.settle, OrdSet.mem_filter_iff, hmax] at hq
    exact ⟨hq.1, of_decide_eq_true hq.2⟩
  constructor
  · constructor
    · exact h.next_le
    · rw [CursorAckState.settle, hmax]
      exact hlt
    · exact max_lt h.issued_lt hissued
    · exact h.cursor_lt
    · intro q hq
      rw [CursorAckState.settle, hmax]
      exact ⟨hrows q hq, (h.pending q hq).2⟩
    · intro q hq
      exact h.acked q (hacked q hq).1
    · exact h.deadLetters
  · rw [CursorAckState.settle, hmax]
    exact hhead
  · intro q hq
    have := (hacked q hq).2
    rwa [CursorAckState.settle, hmax]
  · intro q hq
    rw [CursorAckState.settle, Std.ExtTreeMap.mem_filter] at hq
    obtain ⟨hmem, hp⟩ := hq
    simpa using hp

theorem retire (seq : ℕ) : Loose next (rows.erase seq) c where
  next_le := h.next_le
  settled_lt := h.settled_lt
  issued_lt := h.issued_lt
  cursor_lt := h.cursor_lt
  pending q hq := h.pending q (mem_of_mem_erase hq)
  acked q hq := ⟨(h.acked q hq).1, fun hmem => (h.acked q hq).2 (mem_of_mem_erase hmem)⟩
  deadLetters := h.deadLetters

theorem recordDeadLetter {record : DeadLetterRecord} (hlt : record.inboxSeq < next)
    (hnot : record.inboxSeq ∉ rows) : Loose next rows (c.recordDeadLetter record) := by
  unfold CursorAckState.recordDeadLetter
  refine ⟨h.next_le, h.settled_lt, h.issued_lt, h.cursor_lt, h.pending, ?_, ?_⟩
  · intro q hq
    split_ifs at hq with hsett
    · rcases OrdSet.mem_insert_iff.mp hq with rfl | hq
      · exact ⟨hlt, hnot⟩
      · exact h.acked q hq
    · exact h.acked q hq
  · dsimp only
    exact length_boundQueue _ _

theorem acknowledge (hlt : seq < next) (hnot : seq ∉ rows) (envelopeId : String) :
    Loose next rows (c.acknowledge seq envelopeId) where
  next_le := h.next_le
  settled_lt := h.settled_lt
  issued_lt := h.issued_lt
  cursor_lt := max_lt h.cursor_lt hlt
  pending := h.pending
  acked q hq := by
    rcases OrdSet.mem_insert_iff.mp hq with rfl | hq
    · exact ⟨hlt, hnot⟩
    · exact h.acked q hq
  deadLetters := h.deadLetters

end Loose

namespace Settled
variable {next : ℕ} {rows : OrdMap ℕ InboxEntry} {c : CursorAckState} (h : Settled next rows c)

theorem of_new (target : String) : Settled 1 ∅ (.new target) where
  toLoose := .of_new target
  head := .inl rfl
  acked_gt q hq := by simp [CursorAckState.new] at hq
  attempts q hq := by simp [CursorAckState.new] at hq

include h

theorem append (hlt : next < u64Max) (entry : InboxEntry) :
    Settled (next + 1) (rows.insert next entry) { c with issuedInboxSeq := next } := by
  have hsett := h.settled_lt
  have hmem : ∀ q, q ∈ rows.insert next entry ↔ q = next ∨ q ∈ rows := by
    intro q
    rw [mem_insert, Std.LawfulEqCmp.compare_eq_iff_eq, eq_comm]
  constructor
  · refine ⟨hlt, Nat.lt_succ_of_lt hsett, Nat.lt_succ_self _, Nat.lt_succ_of_lt h.cursor_lt, ?_, ?_,
      h.deadLetters⟩
    · intro q hq
      rcases (hmem q).mp hq with rfl | hq
      · exact ⟨hsett, Nat.lt_succ_self _⟩
      · obtain ⟨hgt, hbelow⟩ := h.pending q hq
        exact ⟨hgt, Nat.lt_succ_of_lt hbelow⟩
    · intro q hq
      obtain ⟨hbelow, hnot⟩ := h.acked q hq
      refine ⟨Nat.lt_succ_of_lt hbelow, fun hin => ?_⟩
      rcases (hmem q).mp hin with rfl | hin
      · exact lt_irrefl _ hbelow
      · exact hnot hin
  · rcases h.head with hhead | hhead
    · exact .inr ((hmem _).mpr (.inl hhead))
    · exact .inr ((hmem _).mpr (.inr hhead))
  · exact h.acked_gt
  · intro q hq
    exact (hmem q).mpr (.inr (h.attempts q hq))

theorem recordNack (nack : Nack) : Settled next rows (c.recordNack nack) := by
  unfold CursorAckState.recordNack
  exact ⟨⟨h.next_le, h.settled_lt, h.issued_lt, h.cursor_lt, h.pending, h.acked, h.deadLetters⟩, h.head,
    h.acked_gt, h.attempts⟩

theorem countNack (hmem : seq ∈ rows) (attempts : ℕ) :
    Settled next rows (c.countNack seq attempts) := by
  refine ⟨⟨h.next_le, h.settled_lt, h.issued_lt, h.cursor_lt, h.pending, h.acked, h.deadLetters⟩,
    h.head, h.acked_gt, ?_⟩
  intro q hq
  rw [CursorAckState.countNack, mem_insert, Std.LawfulEqCmp.compare_eq_iff_eq] at hq
  rcases hq with rfl | hq
  · exact hmem
  · exact h.attempts q hq

theorem dropDeadLetters (p : DeadLetterRecord → Bool) :
    Settled next rows { c with deadLetters := c.deadLetters.filter p } :=
  ⟨⟨h.next_le, h.settled_lt, h.issued_lt, h.cursor_lt, h.pending, h.acked,
    (length_filter_le _ _).trans h.deadLetters⟩, h.head, h.acked_gt, h.attempts⟩

theorem clearRetired : Settled next rows { c with retiredInboxSeqs := [] } :=
  ⟨⟨h.next_le, h.settled_lt, h.issued_lt, h.cursor_lt, h.pending, h.acked, h.deadLetters⟩, h.head,
    h.acked_gt, h.attempts⟩

theorem first_eq {first : ℕ} {entry : InboxEntry} (hfirst : rows.first? = some (first, entry)) :
    first = c.settledInboxSeq + 1 := by
  obtain ⟨hrow, hmin⟩ := (first?_eq_some_iff rows first entry).mp hfirst
  have hmem : first ∈ rows := mem_of_eq_some hrow
  obtain ⟨hgt, hbelow⟩ := h.pending first hmem
  rcases h.head with hhead | hhead
  · omega
  · have hle := hmin _ hhead
    rw [Nat.isLE_compare] at hle
    omega

end Settled

/-- Every mailbox outside `dirty` is settled; those in `dirty` have lost deliveries since. -/
structure Settling (dirty : Set String) (ib : OpaqueDeviceInbox) : Prop where
  consistent : ib.Consistent
  known : ∀ target ∉ ib.cursors, ib.rows target = ∅ ∧ ib.next target = 1
  loose : ∀ target, Loose (ib.next target) (ib.rows target) (ib.cursor target)
  settled : ∀ target ∉ dirty, Settled (ib.next target) (ib.rows target) (ib.cursor target)

namespace Settling
variable {dirty : Set String} {ib : OpaqueDeviceInbox}

theorem of_new : Settling ∅ .new where
  consistent := .of_new
  known _ _ := ⟨rfl, rfl⟩
  loose target := .of_new target
  settled target _ := .of_new target

theorem retirePending (h : Settling dirty ib) (clock : ℤ) (target : String) (seq : ℕ) :
    Settling (insert target dirty) (ib.retirePending clock target seq).2 := by
  constructor
  · exact h.consistent.retirePending clock target seq
  · intro other hother
    rw [cursors_retirePending] at hother
    obtain ⟨hrows, hnext⟩ := h.known other hother
    rw [rows_retirePending, next_retirePending]
    refine ⟨?_, hnext⟩
    split_ifs with heq
    · rw [heq, hrows]
      exact erase_empty
    · exact hrows
  · intro other
    rw [rows_retirePending, next_retirePending, cursor_retirePending]
    split_ifs with heq
    · subst heq
      exact (h.loose target).retire seq
    · exact h.loose other
  · intro other hother
    rw [Set.mem_insert_iff, not_or] at hother
    rw [rows_retirePending, next_retirePending, cursor_retirePending, if_neg (Ne.symm hother.1)]
    exact h.settled other hother.2

variable {target : String}

theorem modifyCursor (h : Settling dirty ib) (f : CursorAckState → CursorAckState)
    (hf : Loose (ib.next target) (ib.rows target) (f (ib.cursor target))) :
    Settling (insert target dirty) (ib.modifyCursor target f) := by
  constructor
  · exact h.consistent.modifyCursor target f
  · intro other hother
    rw [mem_cursors_modifyCursor, not_or] at hother
    exact h.known other hother.2
  · intro other
    by_cases heq : target = other
    · subst heq
      rw [cursor_modifyCursor_self]
      exact hf
    · rw [cursor_modifyCursor_of_ne _ _ _ heq]
      exact h.loose other
  · intro other hother
    rw [Set.mem_insert_iff, not_or] at hother
    rw [cursor_modifyCursor_of_ne _ _ _ (Ne.symm hother.1)]
    exact h.settled other hother.2

theorem clean (h : Settling (insert target dirty) ib)
    (hs : Settled (ib.next target) (ib.rows target) (ib.cursor target)) :
    Settling (dirty \ {target}) ib := by
  refine ⟨h.consistent, h.known, h.loose, ?_⟩
  intro other hother
  by_cases heq : other = target
  · rw [heq]
    exact hs
  · refine h.settled other fun hmem => ?_
    rcases hmem with hmem | hmem
    · exact heq hmem
    · exact hother ⟨hmem, heq⟩

theorem setCursor (h : Settling dirty ib) (f : CursorAckState → CursorAckState)
    (hf : Settled (ib.next target) (ib.rows target) (f (ib.cursor target))) :
    Settling (dirty \ {target}) (ib.modifyCursor target f) := by
  refine (h.modifyCursor f hf.toLoose).clean ?_
  rw [cursor_modifyCursor_self]
  exact hf

theorem cursor_eq_new (hmem : target ∉ ib.cursors) : ib.cursor target = .new target := by
  rw [cursor, ib.cursors_eq_none hmem]
  rfl

section
variable (h : Settling dirty ib)
include h

theorem issuedSequence_lt (target : String) : ib.issuedSequence target < ib.next target := by
  have hloose := h.loose target
  have hnext := hloose.settled_lt
  unfold issuedSequence
  by_cases hmem : target ∈ ib.cursors
  · rw [(ib.mem_cursors_iff target).mp hmem]
    have hissued := hloose.issued_lt
    have hcurs := hloose.cursor_lt
    dsimp only
    omega
  · rw [ib.cursors_eq_none hmem]
    dsimp only
    omega

theorem advanceSettled (target : String) :
    Settling (dirty \ {target}) (ib.advanceSettled target) := by
  by_cases hmem : target ∈ ib.cursors
  · rw [ib.advanceSettled_eq target hmem]
    exact h.setCursor _ ((h.loose target).settle (h.issuedSequence_lt target))
  · rw [ib.advanceSettled_of_notMem target hmem]
    refine ⟨h.consistent, h.known, h.loose, ?_⟩
    intro other hother
    by_cases heq : other = target
    · obtain ⟨hrows, hnext⟩ := h.known target hmem
      rw [heq, hrows, hnext, cursor_eq_new hmem]
      exact .of_new target
    · exact h.settled other fun hdirty => hother ⟨hdirty, heq⟩

theorem mono {dirty' : Set String} (hsub : dirty ⊆ dirty') : Settling dirty' ib :=
  ⟨h.consistent, h.known, h.loose, fun target hnot => h.settled target fun hmem => hnot (hsub hmem)⟩

theorem deadLetter (target : String) (seq : ℕ) (reason : DeadLetterReason) :
    Settling (insert target dirty) (ib.deadLetter clock target seq reason) := by
  cases hrow : (ib.rows target)[seq]? with
  | none =>
    unfold OpaqueDeviceInbox.deadLetter
    rw [hrow]
    exact h.mono (Set.subset_insert _ _)
  | some entry =>
    have hmem : seq ∈ ib.rows target := mem_of_eq_some hrow
    obtain ⟨index, marks, heq⟩ := deadLetter_eq clock ib target seq hrow reason
    generalize hrec : DeadLetterRecord.mk seq entry.envelope.envelopeId reason
      (ib.retainUntilOf clock entry) = record at heq
    have hseq : record.inboxSeq = seq := by rw [← hrec]
    have hretired := h.retirePending clock target seq
    have hlt : record.inboxSeq < (ib.retirePending clock target seq).2.next target := by
      rw [next_retirePending, hseq]
      exact ((h.loose target).pending seq hmem).2
    have hnot : record.inboxSeq ∉ (ib.retirePending clock target seq).2.rows target := by
      rw [rows_retirePending, hseq]
      simp
    have hrecorded := hretired.modifyCursor (·.recordDeadLetter record)
      ((hretired.loose target).recordDeadLetter hlt hnot)
    rw [Set.insert_eq_of_mem (Set.mem_insert _ _)] at hrecorded
    rw [heq]
    exact ⟨⟨hrecorded.consistent.entry, hrecorded.consistent.deadline, hrecorded.consistent.due⟩,
      hrecorded.known, hrecorded.loose, hrecorded.settled⟩

end

theorem overflowHead (h : Settling ∅ ib) (clock : ℤ) (target : String) (head : ℕ) :
    Settling ∅ (ib.overflowHead clock target head) := by
  have hstep := (h.deadLetter clock target head .ackWindowOverflow).advanceSettled target
  exact hstep.mono fun other hother => absurd hother.1 (by simpa using hother.2)

theorem appendAt (h : Settling ∅ ib) (envelope : Envelope) (now : ℤ)
    (hlt : ib.next envelope.target < u64Max) : Settling ∅ (ib.appendAt envelope now).2 := by
  have hsett : ∀ target, Settled ((ib.appendAt envelope now).2.next target)
      ((ib.appendAt envelope now).2.rows target) ((ib.appendAt envelope now).2.cursor target) := by
    intro target
    rw [next_appendAt, rows_appendAt, cursor_appendAt]
    split_ifs with heq
    · subst heq
      rw [satAdd_one_of_lt hlt]
      exact (h.settled _ (Set.notMem_empty _)).append hlt _
    · exact h.settled target (Set.notMem_empty _)
  refine ⟨h.consistent.appendAt envelope now ?_, ?_, fun target => (hsett target).toLoose,
    fun target _ => hsett target⟩
  · rw [← Option.not_isSome_iff_eq_none, ← mem_iff_isSome_getElem?]
    intro hmem
    exact lt_irrefl _ ((h.loose _).pending _ hmem).2
  · intro target hmem
    rw [mem_cursors_appendAt, not_or] at hmem
    rw [rows_appendAt, next_appendAt, if_neg hmem.1, if_neg hmem.1]
    exact h.known target hmem.2

theorem diff_singleton (h : Settling (insert target ∅ \ {target}) ib) : Settling ∅ ib := by
  refine h.mono ?_
  intro other hother
  exact absurd hother.1 (by simpa using hother.2)

section
variable (h : Settling ∅ ib)
include h

theorem setCursor_empty (f : CursorAckState → CursorAckState)
    (hf : Settled (ib.next target) (ib.rows target) (f (ib.cursor target))) :
    Settling ∅ (ib.modifyCursor target f) :=
  (h.setCursor f hf).mono fun _ hother => hother.1

theorem makeAckWindowRoom (target : String) (entrySeq : ℕ) :
    Settling ∅ (ib.makeAckWindowRoom clock target entrySeq) :=
  roomLoop_induct clock target entrySeq (P := Settling ∅)
    (fun _ head h' _ => h'.overflowHead clock target head) _ h

theorem finishAck (clock : ℤ) {entrySeq : ℕ} (hlt : entrySeq < ib.next target) (envelopeId : String) :
    Settling ∅ (finishAck clock ib target entrySeq envelopeId) := by
  rw [OpaqueDeviceInbox.finishAck, retirePending_modifyCursor]
  have hretired := h.retirePending clock target entrySeq
  have hlt' : entrySeq < (ib.retirePending clock target entrySeq).2.next target := by
    rwa [next_retirePending]
  have hnot : entrySeq ∉ (ib.retirePending clock target entrySeq).2.rows target := by
    rw [rows_retirePending]
    simp
  have hacked := hretired.modifyCursor (·.acknowledge entrySeq envelopeId)
    ((hretired.loose target).acknowledge hlt' hnot envelopeId)
  rw [Set.insert_eq_of_mem (Set.mem_insert _ _)] at hacked
  exact (hacked.advanceSettled target).diff_singleton

theorem checkAck_lt {ack : Ack} {entrySeq : ℕ}
    (hcheck : ib.checkAck target ack = .ok entrySeq) : entrySeq < ib.next target := by
  have hloose := h.loose target
  obtain ⟨-, ⟨entry, hrow, -⟩ | ⟨-, -, hacked | hsett⟩⟩ := checkAck_ok hcheck
  · exact (hloose.pending _ (mem_of_eq_some hrow)).2
  · exact (hloose.acked _ hacked).1
  · exact lt_of_le_of_lt hsett hloose.settled_lt

theorem startAck (target : String) : Settling ∅ (ib.startAck target) :=
  h.setCursor_empty (fun cursor => { cursor with retiredInboxSeqs := [] })
    (h.settled target (Set.notMem_empty _)).clearRetired

theorem applyAckForTarget (target : String) (ack : Ack) :
    Settling ∅ (ib.applyAckForTarget clock target ack).2 := by
  rcases applyAckForTarget_cases clock ib target ack with heq | ⟨entrySeq, hcheck⟩
  · rwa [heq]
  · have hlt := h.checkAck_lt hcheck
    have hroom := (h.startAck target).makeAckWindowRoom clock target entrySeq
    rw [applyAckForTarget_of_ok clock hcheck]
    apply hroom.finishAck clock
    rwa [next_makeAckWindowRoom, next_startAck]

theorem noteNack {nack : Nack} (hseq : ib.nackSeq target nack = .ok (some seq))
    (attempts : ℕ) : Settling ∅ (ib.noteNack target nack seq attempts) := by
  obtain ⟨-, entry, hrow, -⟩ := nackSeq_ok hseq
  have hmem : seq ∈ ib.rows target := mem_of_eq_some hrow
  have hnacked := h.setCursor_empty (·.recordNack nack)
    ((h.settled target (Set.notMem_empty _)).recordNack nack)
  exact hnacked.setCursor_empty (·.countNack seq attempts)
    ((hnacked.settled target (Set.notMem_empty _)).countNack hmem attempts)

theorem applyNackForTarget (target : String) (nack : Nack) :
    Settling ∅ (ib.applyNackForTarget clock target nack).2 := by
  rcases applyNackForTarget_cases clock ib target nack with heq | heq | ⟨seq, hseq⟩
  · rwa [heq]
  · rw [heq]
    exact h.setCursor_empty (·.recordNack nack)
      ((h.settled target (Set.notMem_empty _)).recordNack nack)
  · rw [applyNackForTarget_of_some clock _ hseq rfl]
    have hcounted := h.noteNack hseq (min ((ib.cursor target).nackAttempts[seq]?.getD 0 + 1) u32Max)
    split_ifs
    · exact ((hcounted.deadLetter clock target seq (.nacked nack.reason)).advanceSettled
        target).diff_singleton
    · exact hcounted

end

theorem settleExpired (h : Settling dirty ib) (now : ℤ) (target : String) :
    Settling (dirty \ {target}) (settleExpired now ib target) := by
  obtain ⟨index, marks, heq⟩ := settleExpired_eq now ib target
  have hadvanced := h.advanceSettled target
  rw [heq]
  split_ifs
  · have hclean := hadvanced.setCursor (fun cursor => { cursor with
      deadLetters := cursor.deadLetters.filter fun record => now < record.retainUntil })
      ((hadvanced.settled target fun hmem => hmem.2 rfl).dropDeadLetters _)
    replace hclean := hclean.mono fun _ hmem => hmem.1
    exact ⟨⟨hclean.consistent.entry, hclean.consistent.deadline, hclean.consistent.due⟩, hclean.known,
      hclean.loose, hclean.settled⟩
  · exact ⟨⟨hadvanced.consistent.entry, hadvanced.consistent.deadline, hadvanced.consistent.due⟩,
      hadvanced.known, hadvanced.loose, hadvanced.settled⟩

theorem settleAll (now : ℤ) (targets : List String) (h : Settling dirty ib)
    (hdirty : ∀ target ∈ dirty, target ∈ targets) :
    Settling ∅ (targets.foldl (OpaqueDeviceInbox.settleExpired now) ib) := by
  induction targets generalizing dirty ib with
  | nil =>
    refine h.mono fun target hmem => ?_
    exact absurd (hdirty target hmem) not_mem_nil
  | cons first rest ih =>
    refine ih (h.settleExpired now first) ?_
    intro target hmem
    rcases mem_cons.mp (hdirty target hmem.1) with heq | hrest
    · exact absurd heq hmem.2
    · exact hrest

theorem ensureExpiryIndex (h : Settling dirty ib) (clock : ℤ) :
    Settling dirty (ib.ensureExpiryIndex clock) := by
  obtain ⟨hconsistent, due, heq⟩ := h.consistent.ensureExpiryIndex clock
  rw [heq] at hconsistent ⊢
  exact ⟨hconsistent, h.known, h.loose, h.settled⟩

theorem expireEntries (h : Settling ∅ ib) (clock now : ℤ) :
    Settling ∅ (ib.expireEntries clock now).2 := by
  have hidx := h.ensureExpiryIndex clock
  have hready : (ib.ensureExpiryIndex clock).expiry.ready = true := by
    obtain ⟨-, due, heq⟩ := h.consistent.ensureExpiryIndex clock
    rw [heq]
  unfold OpaqueDeviceInbox.expireEntries
  generalize ib.ensureExpiryIndex clock = start at hidx hready
  have hloop := expireLoop_induct clock now
    (P := fun ib touched => Settling {target | target ∈ touched} ib) (by
      intro ib' touched d _ _ hdirty _ _
      refine (hdirty.retirePending clock d.target d.seq).mono ?_
      intro target hmem
      exact OrdSet.mem_insert_iff.mpr hmem)
    start.expiry.due.size hidx.consistent hready [] ∅ (by simpa using hidx)
  exact settleAll now _ hloop.2.2 fun target hmem => Std.ExtTreeSet.mem_toList.mpr hmem

/-- Every call leaves every mailbox settled. -/
theorem exec (h : Settling ∅ ib) (call : InboxCall) (hrange : call.InRange ib) :
    Settling ∅ (ib.exec call) := by
  cases call with
  | append envelope now => exact h.appendAt envelope now hrange
  | ack clock target ack => exact h.applyAckForTarget clock target ack
  | nack clock target nack => exact h.applyNackForTarget clock target nack
  | expire clock now => exact h.expireEntries clock now

end Settling

end Ramflux
