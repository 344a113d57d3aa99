import Ramflux.Node.InboxSettlement
import Mathlib.Order.Interval.Finset.Nat

/-! Watermarks never move back, and the window of out-of-order ACKs stays bounded as long as the NACK
limit does not retire a delivery into a full window. -/
namespace Ramflux
open OpaqueDeviceInbox OrdMap List Std.ExtTreeMap InboxMove

/-- Watermarks do not move back. -/
structure Raised (c c' : CursorAckState) : Prop where
  settled : c.settledInboxSeq ≤ c'.settledInboxSeq
  issued : c.issuedInboxSeq ≤ c'.issuedInboxSeq

/-- Watermarks only rise, and windows take in nothing but the sequences in `extra`. -/
def Progress (extra : Set (String × ℕ)) (ib ib' : OpaqueDeviceInbox) : Prop :=
  ∀ target, Raised (ib.cursor target) (ib'.cursor target) ∧
    ∀ q ∈ (ib'.cursor target).ackedInboxSeqs,
      q ∈ (ib.cursor target).ackedInboxSeqs ∨ (target, q) ∈ extra

namespace Progress
variable {extra : Set (String × ℕ)} {ib ib' ib'' : OpaqueDeviceInbox}

theorem refl (extra : Set (String × ℕ)) (ib : OpaqueDeviceInbox) : Progress extra ib ib :=
  fun _ => ⟨⟨le_rfl, le_rfl⟩, fun _ hq => .inl hq⟩

theorem of_cursor_eq (h : ib'.cursor = ib.cursor) : Progress extra ib ib' := by
  intro target
  rw [h]
  exact Progress.refl extra ib target

theorem trans (h : Progress extra ib ib') (h' : Progress extra ib' ib'') :
    Progress extra ib ib'' := by
  intro target
  obtain ⟨hraised, hacked⟩ := h target
  obtain ⟨hraised', hacked'⟩ := h' target
  refine ⟨⟨hraised.settled.trans hraised'.settled, hraised.issued.trans hraised'.issued⟩, ?_⟩
  intro q hq
  rcases hacked' q hq with hq | hq
  · exact hacked q hq
  · exact .inr hq

theorem mono {extra' : Set (String × ℕ)} (h : Progress extra ib ib') (hsub : extra ⊆ extra') :
    Progress extra' ib ib' :=
  fun target => ⟨(h target).1, fun q hq => ((h target).2 q hq).imp_right fun hmem => hsub hmem⟩

theorem modifyCursor (target : String) {f : CursorAckState → CursorAckState}
    (hraised : Raised (ib.cursor target) (f (ib.cursor target)))
    (hacked : ∀ q ∈ (f (ib.cursor target)).ackedInboxSeqs,
      q ∈ (ib.cursor target).ackedInboxSeqs ∨ (target, q) ∈ extra) :
    Progress extra ib (ib.modifyCursor target f) := by
  intro other
  by_cases heq : target = other
  · subst heq
    rw [cursor_modifyCursor_self]
    exact ⟨hraised, hacked⟩
  · rw [cursor_modifyCursor_of_ne _ _ _ heq]
    exact Progress.refl extra ib other

theorem advanceSettled (extra : Set (String × ℕ)) (ib : OpaqueDeviceInbox) (target : String) :
    Progress extra ib (ib.advanceSettled target) := by
  by_cases hmem : target ∈ ib.cursors
  · rw [ib.advanceSettled_eq target hmem]
    refine Progress.modifyCursor target ⟨le_max_left _ _, le_max_left _ _⟩ ?_
    intro q hq
    exact .inl (OrdSet.mem_filter_iff.mp hq).1
  · rw [ib.advanceSettled_of_notMem target hmem]
    exact Progress.refl extra ib

theorem deadLetter (clock : ℤ) (ib : OpaqueDeviceInbox) (target : String) (seq : ℕ)
    (reason : DeadLetterReason) :
    Progress {(target, seq)} ib (ib.deadLetter clock target seq reason) := by
  cases hrow : (ib.rows target)[seq]? with
  | none =>
    rw [deadLetter_of_none clock ib target seq reason hrow]
    exact Progress.refl _ ib
  | some entry =>
    intro other
    by_cases heq : target = other
    · subst heq
      rw [cursor_deadLetter clock ib target seq reason hrow]
      refine ⟨⟨le_rfl, le_rfl⟩, ?_⟩
      intro q hq
      unfold CursorAckState.recordDeadLetter at hq
      split_ifs at hq
      · rcases OrdSet.mem_insert_iff.mp hq with rfl | hq
        · exact .inr rfl
        · exact .inl hq
      · exact .inl hq
    · rw [cursor_deadLetter_of_ne clock ib target seq reason heq]
      exact Progress.refl _ ib other

theorem settleExpired (now : ℤ) (ib : OpaqueDeviceInbox) (target : String) :
    Progress ∅ ib (OpaqueDeviceInbox.settleExpired now ib target) := by
  obtain ⟨index, marks, heq⟩ := settleExpired_eq now ib target
  have hadvanced := Progress.advanceSettled ∅ ib target
  rw [heq]
  split_ifs
  · have hdropped : Progress ∅ (ib.advanceSettled target)
        ((ib.advanceSettled target).modifyCursor target fun cursor => { cursor with
          deadLetters := cursor.deadLetters.filter fun record => now < record.retainUntil }) :=
      Progress.modifyCursor target ⟨le_rfl, le_rfl⟩ fun _ hq => .inl hq
    exact fun other => hadvanced.trans hdropped other
  · exact hadvanced

theorem settleAll (now : ℤ) (targets : List String) (ib : OpaqueDeviceInbox) :
    Progress ∅ ib (targets.foldl (OpaqueDeviceInbox.settleExpired now) ib) :=
  foldlRecOn targets _ (.refl ∅ ib) fun ib' h target _ => h.trans (.settleExpired now ib' target)

theorem expireEntries (h : Settling ∅ ib) (clock now : ℤ) :
    Progress ∅ ib (ib.expireEntries clock now).2 := by
  have hidx := h.ensureExpiryIndex clock
  obtain ⟨-, due, heq⟩ := h.consistent.ensureExpiryIndex clock
  unfold OpaqueDeviceInbox.expireEntries
  rw [heq] at hidx ⊢
  have hloop := expireLoop_induct clock now (P := fun ib' _ => Progress ∅ ib ib') (by
      intro ib' touched d _ _ hprog _ _
      exact hprog.trans (Progress.of_cursor_eq (cursor_retirePending clock ib' d.target d.seq)))
    due.size hidx.consistent rfl [] ∅ (Progress.refl ∅ ib)
  exact hloop.2.2.trans (Progress.settleAll now _ _)

end Progress

theorem Settled.passes_head {next q : ℕ} {rows : OrdMap ℕ InboxEntry} {c c' : CursorAckState}
    (h : Settled next (rows.erase q) c') (hle : c.settledInboxSeq ≤ c'.settledInboxSeq)
    (hq : q ≤ c.settledInboxSeq + 1) (hlt : q < next) : q ≤ c'.settledInboxSeq := by
  by_contra hgt
  have heq : c'.settledInboxSeq + 1 = q := by omega
  rcases h.head with hhead | hhead
  · omega
  · rw [heq] at hhead
    simp at hhead

def Fits (ib : OpaqueDeviceInbox) : Prop :=
  ∀ target, (ib.cursor target).ackedInboxSeqs.size ≤ routerAckWindow

variable {ib ib' : OpaqueDeviceInbox} {target : String}

theorem Fits.of_shrink (hfits : Fits ib) (h : Progress ∅ ib ib') : Fits ib' := by
  intro target
  have hsub : ∀ q ∈ (ib'.cursor target).ackedInboxSeqs, q ∈ (ib.cursor target).ackedInboxSeqs :=
    fun q hq => ((h target).2 q hq).resolve_right (Set.notMem_empty _)
  exact (OrdSet.size_le_of_subset hsub).trans (hfits target)

/-- A window takes in one sequence if it has room, had it before, or settles past it. -/
theorem Fits.of_progress (hfits : Fits ib) {seq : ℕ} (h : Progress {(target, seq)} ib ib')
    (hroom : seq ∉ (ib'.cursor target).ackedInboxSeqs ∨ seq ∈ (ib.cursor target).ackedInboxSeqs ∨
      (ib.cursor target).ackedInboxSeqs.size < routerAckWindow) : Fits ib' := by
  intro other
  have hacked := (h other).2
  by_cases hsub : ∀ q ∈ (ib'.cursor other).ackedInboxSeqs, q ∈ (ib.cursor other).ackedInboxSeqs
  · exact (OrdSet.size_le_of_subset hsub).trans (hfits other)
  · -- A new member is the retired sequence, and then there was room for it.
    obtain ⟨q, hq, hnew⟩ : ∃ q ∈ (ib'.cursor other).ackedInboxSeqs,
        q ∉ (ib.cursor other).ackedInboxSeqs := by simpa using hsub
    have hextra : (other, q) = (target, seq) := (hacked q hq).resolve_left hnew
    obtain ⟨rfl, rfl⟩ := Prod.mk.inj hextra
    have hlt := (hroom.resolve_left (not_not.mpr hq)).resolve_left hnew
    have hinsert : ∀ k ∈ (ib'.cursor other).ackedInboxSeqs,
        k ∈ (ib.cursor other).ackedInboxSeqs.insert q := by
      intro k hk
      rw [OrdSet.mem_insert_iff]
      rcases hacked k hk with hk | hk
      · exact .inr hk
      · exact .inl (Prod.mk.inj hk).2
    have hsize := OrdSet.size_le_of_subset hinsert
    have hle := OrdSet.size_insert_le (ib.cursor other).ackedInboxSeqs q
    omega

namespace Settling
variable {ib : OpaqueDeviceInbox} (h : Settling ∅ ib) (clock : ℤ) (target : String)
include h

/-- Dead-lettering and settling adds at most the retired sequence, and not even that for a head. -/
theorem deadLetter_progress (seq : ℕ) (reason : DeadLetterReason) :
    Progress {(target, seq)} ib ((ib.deadLetter clock target seq reason).advanceSettled target) ∧
      (seq ∈ ib.rows target → seq ≤ (ib.cursor target).settledInboxSeq + 1 →
        seq ∉ (((ib.deadLetter clock target seq reason).advanceSettled target).cursor
          target).ackedInboxSeqs) := by
  have hprog := (Progress.deadLetter clock ib target seq reason).trans
    (Progress.advanceSettled _ _ target)
  refine ⟨hprog, ?_⟩
  intro hmem hhead hin
  have hnew := ((h.deadLetter clock target seq reason).advanceSettled target).diff_singleton
  have hsett := hnew.settled target (Set.notMem_empty _)
  have hgt := hsett.acked_gt seq hin
  rw [next_advanceSettled, next_deadLetter, rows_advanceSettled, rows_deadLetter, if_pos rfl] at hsett
  have hpast := hsett.passes_head (hprog target).1.settled hhead
    ((h.loose target).pending seq hmem).2
  omega

variable {entrySeq : ℕ}

theorem overflowHead_progress {head : ℕ} (hhead : ib.roomHead target entrySeq = some head) :
    Progress ∅ ib (ib.overflowHead clock target head) := by
  obtain ⟨-, -, -, -, ⟨entry, hfirst⟩, -⟩ := roomHead_eq_some hhead
  have hmem : head ∈ ib.rows target := mem_of_first? _ hfirst
  have hnext := (h.settled target (Set.notMem_empty _)).first_eq hfirst
  obtain ⟨hprog, hnot⟩ := h.deadLetter_progress clock target head .ackWindowOverflow
  intro other
  refine ⟨(hprog other).1, ?_⟩
  intro q hq
  rcases (hprog other).2 q hq with hold | hextra
  · exact .inl hold
  · cases hextra
    exact absurd hq (hnot hmem hnext.le)

/-- Making room settles deliveries and leaves the window with room, or with no need for it. -/
theorem room_progress (hmem : target ∈ ib.cursors) (entrySeq : ℕ) :
    Progress ∅ ib (ib.makeAckWindowRoom clock target entrySeq) ∧
      target ∈ (ib.makeAckWindowRoom clock target entrySeq).cursors := by
  have hloop := roomLoop_induct clock target entrySeq
    (P := fun ib' => Settling ∅ ib' ∧ Progress ∅ ib ib' ∧ target ∈ ib'.cursors) (by
      rintro ib' head ⟨h', hprog, -⟩ hhead
      refine ⟨h'.overflowHead clock target head,
        hprog.trans (h'.overflowHead_progress clock target hhead), ?_⟩
      obtain ⟨-, -, -, -, ⟨entry, hfirst⟩, -⟩ := roomHead_eq_some hhead
      have hrow := ((first?_eq_some_iff _ _ _).mp hfirst).1
      rw [OpaqueDeviceInbox.overflowHead, mem_cursors_advanceSettled]
      exact mem_cursors_deadLetter clock ib' target head .ackWindowOverflow hrow)
    (ib.rows target).size ⟨h, Progress.refl ∅ ib, hmem⟩
  exact hloop.2

theorem roomHead_done (hmem : target ∈ ib.cursors) (hlt : entrySeq < ib.next target)
    (hdone : ib.roomHead target entrySeq = none) :
    entrySeq ≤ (ib.cursor target).settledInboxSeq + 1 ∨
      entrySeq ∈ (ib.cursor target).ackedInboxSeqs ∨
      (ib.cursor target).ackedInboxSeqs.size < routerAckWindow := by
  have hsett := h.settled target (Set.notMem_empty _)
  rcases roomHead_eq_none hdone hmem with hroom | hbelow | hacked | hrows
  · exact .inr (.inr hroom)
  · exact .inl (hbelow.trans (satAdd_le_add _ _))
  · exact .inr (.inl hacked)
  · rcases hsett.head with hhead | hhead
    · exact .inl (by omega)
    · exact .inl (hrows _ hhead)

/-- The end of an accepted ACK takes in its own sequence at most. -/
theorem finishAck_progress (hlt : entrySeq < ib.next target) (envelopeId : String) :
    Progress {(target, entrySeq)} ib (ib.finishAck clock target entrySeq envelopeId) ∧
      (entrySeq ≤ (ib.cursor target).settledInboxSeq + 1 → entrySeq ∉
        ((ib.finishAck clock target entrySeq envelopeId).cursor target).ackedInboxSeqs) := by
  have hacked : Progress {(target, entrySeq)} ib
      (ib.modifyCursor target (·.acknowledge entrySeq envelopeId)) := by
    refine Progress.modifyCursor target ⟨le_rfl, le_rfl⟩ ?_
    intro q hq
    rcases OrdSet.mem_insert_iff.mp hq with rfl | hq
    · exact .inr rfl
    · exact .inl hq
  have hprog := (hacked.trans (Progress.of_cursor_eq (cursor_retirePending clock _ target
    entrySeq))).trans (Progress.advanceSettled _ _ target)
  refine ⟨hprog, ?_⟩
  intro hhead hin
  have hsett := (h.finishAck clock hlt envelopeId).settled target (Set.notMem_empty _)
  have hgt := hsett.acked_gt entrySeq hin
  rw [next_finishAck, rows_finishAck, if_pos rfl] at hsett
  have hpast := hsett.passes_head (hprog target).1.settled hhead hlt
  omega

theorem applyAckForTarget_progress (ack : Ack) (hfits : Fits ib) :
    (∃ extra, Progress extra ib (ib.applyAckForTarget clock target ack).2) ∧
      Fits (ib.applyAckForTarget clock target ack).2 := by
  rcases applyAckForTarget_cases clock ib target ack with heq | ⟨entrySeq, hcheck⟩
  · rw [heq]
    exact ⟨⟨∅, Progress.refl ∅ ib⟩, hfits⟩
  · have hlt := h.checkAck_lt hcheck
    have hstart : Progress ∅ ib (ib.startAck target) :=
      Progress.modifyCursor target ⟨le_rfl, le_rfl⟩ fun _ hq => .inl hq
    have hroom := (h.startAck target).makeAckWindowRoom clock target entrySeq
    obtain ⟨hmade, hmem⟩ := (h.startAck target).room_progress clock target
      (ib.mem_cursors_startAck target) entrySeq
    have hdone : ((ib.startAck target).makeAckWindowRoom clock target entrySeq).roomHead target
        entrySeq = none :=
      roomLoop_done clock _ le_rfl
    have hfits' := hfits.of_shrink (hstart.trans hmade)
    rw [applyAckForTarget_of_ok clock hcheck]
    rw [← next_startAck ib target,
      ← next_makeAckWindowRoom clock (ib.startAck target) target entrySeq] at hlt
    obtain ⟨hfinish, hpassed⟩ := hroom.finishAck_progress clock target hlt ack.envelopeId
    refine ⟨⟨_, ((hstart.trans hmade).mono (Set.empty_subset _)).trans hfinish⟩, ?_⟩
    refine hfits'.of_progress hfinish ?_
    rcases hroom.roomHead_done target hmem hlt hdone with hhead | hacked | hsize
    · exact .inl (hpassed hhead)
    · exact .inr (.inl hacked)
    · exact .inr (.inr hsize)

end Settling

/-- A NACK that retires a delivery other than the head of its mailbox finds room in the window. -/
def InboxCall.NackFits (ib : OpaqueDeviceInbox) : InboxCall → Prop
  | .nack _ target refusal => ∀ seq, ib.nackSeq target refusal = .ok (some seq) →
      routerNackRetryLimit ≤ (ib.cursor target).nackAttempts[seq]?.getD 0 + 1 →
      (ib.cursor target).settledInboxSeq + 1 < seq →
      (ib.cursor target).ackedInboxSeqs.size < routerAckWindow
  | _ => True

namespace Settling
variable {ib : OpaqueDeviceInbox} (h : Settling ∅ ib) (clock : ℤ) (target : String)
include h

theorem applyNackForTarget_progress (nack : Nack)
    (hfits : Fits ib) (hroom : (InboxCall.nack clock target nack).NackFits ib) :
    (∃ extra, Progress extra ib (ib.applyNackForTarget clock target nack).2) ∧
      Fits (ib.applyNackForTarget clock target nack).2 := by
  have hrec : Progress ∅ ib (ib.modifyCursor target (·.recordNack nack)) := by
    unfold CursorAckState.recordNack
    exact Progress.modifyCursor target ⟨le_rfl, le_rfl⟩ fun _ hq => .inl hq
  rcases applyNackForTarget_cases clock ib target nack with heq | heq | ⟨seq, hseq⟩
  · rw [heq]
    exact ⟨⟨∅, Progress.refl ∅ ib⟩, hfits⟩
  · rw [heq]
    exact ⟨⟨∅, hrec⟩, hfits.of_shrink hrec⟩
  · obtain ⟨-, entry, hrow, -⟩ := nackSeq_ok hseq
    generalize hcount : min ((ib.cursor target).nackAttempts[seq]?.getD 0 + 1) u32Max = attempts
    have hcounted := h.noteNack hseq attempts
    have hcounting : Progress ∅ ib (ib.noteNack target nack seq attempts) :=
      hrec.trans (Progress.modifyCursor target ⟨le_rfl, le_rfl⟩ fun _ hq => .inl hq)
    have hfits' := hfits.of_shrink hcounting
    rw [applyNackForTarget_of_some clock attempts hseq hcount]
    split_ifs with hlimit
    · obtain ⟨ids, hcurs⟩ := ib.cursor_noteNack target nack seq attempts
      obtain ⟨hretire, hpassed⟩ := hcounted.deadLetter_progress clock target seq
        (.nacked nack.reason)
      refine ⟨⟨_, (hcounting.mono (Set.empty_subset _)).trans hretire⟩, hfits'.of_progress hretire ?_⟩
      rw [hcurs, rows_noteNack] at hpassed
      rw [hcurs]
      by_cases hhead : seq ≤ (ib.cursor target).settledInboxSeq + 1
      · exact .inl (hpassed (mem_of_eq_some hrow) hhead)
      · refine .inr (.inr (hroom seq hseq ?_ (by omega)))
        exact hlimit.trans (hcount ▸ min_le_left _ _)
    · exact ⟨⟨∅, hcounting⟩, hfits'⟩

theorem appendAt_progress (envelope : Envelope) (now : ℤ) :
    Progress ∅ ib (ib.appendAt envelope now).2 := by
  intro other
  rw [cursor_appendAt]
  split_ifs
  · exact ⟨⟨le_rfl, (h.loose other).issued_lt.le⟩, fun _ hq => .inl hq⟩
  · exact Progress.refl ∅ ib other

/-- Calls raise watermarks, and those that meet the condition keep windows bounded. -/
theorem exec_progress (call : InboxCall) (hfits : Fits ib) (hroom : call.NackFits ib) :
    (∃ extra, Progress extra ib (ib.exec call)) ∧ Fits (ib.exec call) := by
  cases call with
  | append envelope now =>
    have hprog := h.appendAt_progress envelope now
    exact ⟨⟨∅, hprog⟩, hfits.of_shrink hprog⟩
  | ack clock target ack => exact h.applyAckForTarget_progress clock target ack hfits
  | nack clock target nack =>
    exact h.applyNackForTarget_progress clock target nack hfits hroom
  | expire clock now =>
    have hprog := Progress.expireEntries h clock now
    exact ⟨⟨∅, hprog⟩, hfits.of_shrink hprog⟩

end Settling

structure SettledAt (ib : OpaqueDeviceInbox) (target : String) : Prop where
  head : (ib.cursor target).settledInboxSeq + 1 =
    ((ib.rows target).first?.map (·.1)).getD (ib.next target)
  acked : ∀ q ∈ (ib.cursor target).ackedInboxSeqs,
    (ib.cursor target).settledInboxSeq < q ∧ q < ib.next target ∧ q ∉ ib.rows target
  window : (ib.cursor target).ackedInboxSeqs.size ≤ routerAckWindow
  deadLetters : (ib.cursor target).deadLetters.length ≤ routerDeadLetterLimit

theorem SettledAt.of_settling (h : Settling ∅ ib) (hfits : Fits ib)
    (target : String) : SettledAt ib target := by
  have hsett := h.settled target (Set.notMem_empty _)
  refine ⟨?_, ?_, hfits target, hsett.deadLetters⟩
  · cases hfirst : (ib.rows target).first? with
    | none =>
      have hempty := (first?_eq_none_iff _).mp hfirst
      refine hsett.head.resolve_right fun hmem => ?_
      rw [hempty] at hmem
      simp at hmem
    | some e => exact (hsett.first_eq hfirst).symm
  · intro q hq
    obtain ⟨hlt, hnot⟩ := hsett.acked q hq
    exact ⟨hsett.acked_gt q hq, hlt, hnot⟩

/-- Sequence handed out by a call. -/
def InboxMove.assigned (m : InboxMove) : Option (String × ℕ) :=
  match m.call with
  | .append envelope now =>
    let entry := (m.before.appendAt envelope now).1
    some (entry.target, entry.inboxSeq)
  | _ => none

def OpaqueDeviceInbox.move (ib : OpaqueDeviceInbox) (call : InboxCall) : InboxMove × OpaqueDeviceInbox :=
  (⟨ib, call, ib.exec call⟩, ib.exec call)

/-- Extension members that select a delivery by its sequence. -/
def seqExt (seq : UInt64) : Ext := (∅ : Ext).insert "inbox_seq" (.number (.posInt seq))

/-- Calls of a run in which no NACK retires a delivery into a full window. -/
def SettlingCall (ib : OpaqueDeviceInbox) (call : InboxCall) : Prop :=
  call.InRange ib ∧ call.NackFits ib

variable {moves : List InboxMove}

theorem settling_of_run (hrun : Run (InboxStep SettlingCall) .new moves ib) : Settling ∅ ib ∧ Fits ib := by
  refine hrun.preserves (P := fun ib => Settling ∅ ib ∧ Fits ib) ⟨.of_new, ?_⟩ ?_
  · intro target
    exact Nat.zero_le _
  · rintro ib m ib' ⟨h, hfits⟩ ⟨-, -, rfl, hrange, hroom⟩
    exact ⟨h.exec m.call hrange, (h.exec_progress m.call hfits hroom).2⟩

theorem assigned_eq_next {m : InboxMove} (hstep : InboxStep SettlingCall ib m ib') {p : String × ℕ}
    (hassigned : m.assigned = some p) : p.2 = ib.next p.1 ∧ p.2 < ib'.next p.1 := by
  obtain ⟨rfl, -, rfl, hrange, -⟩ := hstep
  unfold assigned at hassigned
  cases hcall : m.call with
  | append envelope now =>
    rw [hcall] at hassigned hrange
    cases hassigned
    refine ⟨rfl, ?_⟩
    change m.before.next envelope.target < (m.before.appendAt envelope now).2.next envelope.target
    rw [next_appendAt, if_pos rfl, satAdd_one_of_lt hrange]
    exact Nat.lt_succ_self _
  | ack | nack | expire => simp [hcall] at hassigned

theorem assigned_nodup (hrun : Run (InboxStep SettlingCall) .new moves ib) :
    (moves.filterMap assigned).Nodup := by
  -- A sequence below the next one of its mailbox has been handed out; the clock plays no part.
  have hmono : moves.Pairwise fun _ _ => (0 : ℕ) ≤ 0 := pairwise_of_forall fun _ _ => le_rfl
  apply hrun.nodup_accepted (fun ib (_ : ℕ) p => p.2 < ib.next p.1) hmono
  · intro ib m ib' p hstep hassigned
    exact (assigned_eq_next hstep hassigned).2
  · intro ib m ib' p _ hstep _ hlt
    obtain ⟨-, -, rfl, hrange, -⟩ := hstep
    exact hlt.trans_le (next_le_exec ib hrange p.1)
  · intro ib m ib' p _ hstep _ hlt hassigned
    exact hlt.ne (assigned_eq_next hstep hassigned).1

/-- After such runs mailboxes are settled, watermarks not moved back, and sequences assigned once. -/
theorem mailboxes_settled {moves : List InboxMove} {ib : OpaqueDeviceInbox}
    (hrun : Run (InboxStep SettlingCall) .new moves ib) :
    (∀ m ∈ moves, ∀ target, SettledAt m.after target ∧
      Raised (m.before.cursor target) (m.after.cursor target)) ∧
    (moves.filterMap assigned).Nodup := by
  refine ⟨?_, assigned_nodup hrun⟩
  induction hrun with
  | nil => simp
  | @snoc moves ib ib' m hrun hstep ih =>
    intro m' hm' target
    rcases mem_append.mp hm' with hold | hlast
    · exact ih m' hold target
    · obtain rfl : m' = m := mem_singleton.mp hlast
      obtain ⟨h, hfits⟩ := settling_of_run hrun
      obtain ⟨hbefore, hafter, hexec, hrange, hroom⟩ := hstep
      obtain ⟨⟨extra, hprog⟩, hfits'⟩ := h.exec_progress m'.call hfits hroom
      rw [hbefore, hafter, hexec]
      exact ⟨.of_settling (h.exec m'.call hrange) hfits' target, (hprog target).1⟩

/-- Two deliveries, of which the second is acknowledged and the first refused, then expired. -/
def settlingCalls : List InboxCall :=
  [.append ⟨∅, "a", "s", "d", 5, 0⟩ 0, .append ⟨∅, "b", "s", "d", 9, 0⟩ 0,
    .ack 1 "d" ⟨seqExt 2, "b"⟩, .nack 2 "d" ⟨∅, "a", .rateLimited⟩, .expire 6 6]

theorem mailboxes_settled_two : ∃ (moves : List InboxMove) (ib : OpaqueDeviceInbox),
    moves.map call = settlingCalls ∧ Run (InboxStep SettlingCall) .new moves ib ∧
    ((ib.cursor "d").settledInboxSeq, (ib.rows "d").size) = (2, 0) ∧
    (∀ m ∈ moves, ∀ target, SettledAt m.after target ∧
      Raised (m.before.cursor target) (m.after.cursor target)) ∧
    (moves.filterMap assigned).Nodup := by
  have hroom : ∀ (ib : OpaqueDeviceInbox), (ib.cursor "d").ackedInboxSeqs.size < routerAckWindow →
      ∀ clock refusal, SettlingCall ib (.nack clock "d" refusal) :=
    fun ib h _ _ => ⟨trivial, fun _ _ _ _ => h⟩
  have hok : Run.Along OpaqueDeviceInbox.move SettlingCall .new settlingCalls :=
    ⟨⟨by decide +kernel, trivial⟩, ⟨by decide +kernel, trivial⟩, ⟨trivial, trivial⟩,
      hroom _ (by decide +kernel) _ _, ⟨trivial, trivial⟩, trivial⟩
  have hrun : Run (InboxStep SettlingCall) .new _ _ :=
    Run.of_trace_along SettlingCall (fun ib call hok => ⟨rfl, rfl, rfl, hok⟩) hok
  exact ⟨_, (Run.trace OpaqueDeviceInbox.move .new settlingCalls).2, rfl, hrun, by decide +kernel,
    mailboxes_settled hrun⟩

section
variable (clock : ℤ)

theorem makeAckWindowRoom_of_none {entrySeq : ℕ} (h : ib.roomHead target entrySeq = none) :
    ib.makeAckWindowRoom clock target entrySeq = ib := by
  unfold makeAckWindowRoom
  cases (ib.rows target).size with
  | zero => rfl
  | succ rounds => rw [roomLoop, h]

theorem makeAckWindowRoom_of_lt (ib : OpaqueDeviceInbox) (target : String)
    (entrySeq : ℕ) (h : (ib.cursor target).ackedInboxSeqs.size < routerAckWindow) :
    ib.makeAckWindowRoom clock target entrySeq = ib := by
  apply makeAckWindowRoom_of_none
  unfold roomHead
  by_cases hmem : target ∈ ib.cursors
  · rw [(ib.mem_cursors_iff target).mp hmem]
    exact if_pos (.inl h)
  · rw [ib.cursors_eq_none hmem]

theorem applyAckForTarget_of_room {ack : Ack} {seq : ℕ} (hcheck : ib.checkAck target ack = .ok seq)
    (hroom : (ib.cursor target).ackedInboxSeqs.size < routerAckWindow) :
    let ib' := (ib.applyAckForTarget clock target ack).2
    let rows := (ib.rows target).erase seq
    let settled := max (ib.cursor target).settledInboxSeq (settlementGoal (ib.next target) rows)
    ib'.rows target = rows ∧
      (ib'.cursor target).ackedInboxSeqs =
        ((ib.cursor target).ackedInboxSeqs.insert seq).filter (fun q => settled < q) ∧
      (ib'.cursor target).nackAttempts =
        ((ib.cursor target).nackAttempts.erase seq).filter (fun q _ => q ∈ rows) := by
  intro ib' rows settled
  obtain ⟨retired, hcurs⟩ := ib.cursor_startAck target target
  have hmem : target ∈ (((ib.startAck target).modifyCursor target
      (·.acknowledge seq ack.envelopeId)).retirePending clock target seq).2.cursors := by
    rw [cursors_retirePending, mem_cursors_modifyCursor]
    exact .inl rfl
  have hib' : ib' = finishAck clock (ib.startAck target) target seq ack.envelopeId := by
    unfold ib'
    rw [applyAckForTarget_of_ok clock hcheck, makeAckWindowRoom_of_lt]
    rw [hcurs]
    exact hroom
  rw [hib', rows_finishAck, if_pos rfl, rows_startAck, finishAck, advanceSettled_eq _ _ hmem,
    cursor_modifyCursor_self, cursor_retirePending, cursor_modifyCursor_self, hcurs,
    next_retirePending, next_modifyCursor, next_startAck, rows_retirePending, if_pos rfl,
    rows_modifyCursor, rows_startAck]
  exact ⟨rfl, rfl, rfl⟩

end

section
variable {ib : OpaqueDeviceInbox} {target id : String} (seq : UInt64) (hpos : 0 < seq.toNat)
  {entry : InboxEntry} (hrow : (ib.rows target)[seq.toNat]? = some entry)
  (hid : entry.envelope.envelopeId = id)

include hpos hrow hid

theorem checkAck_seqExt : ib.checkAck target ⟨seqExt seq, id⟩ = .ok seq.toNat := by
  have hget : (seqExt seq)["inbox_seq"]? = some (.number (.posInt seq)) := by simp [seqExt]
  have hmem : "inbox_seq" ∈ seqExt seq := by simp [seqExt]
  have hseq : ib.ackSeq target ⟨seqExt seq, id⟩ = .ok seq.toNat := by
    unfold ackSeq
    rw [hget]
    simp only [JsonValue.asU64, Option.filter, hpos, decide_true, if_true]
  unfold checkAck
  rw [hseq]
  simp only [bind, Except.bind, hmem, not_true, false_and, if_false, hrow, hid, ne_eq]
  rfl

theorem nackSeq_seqExt (reason : NackReason) :
    ib.nackSeq target ⟨seqExt seq, id, reason⟩ = .ok (some seq.toNat) := by
  have hget : (seqExt seq)["inbox_seq"]? = some (.number (.posInt seq)) := by simp [seqExt]
  have hsel : ib.nackSelector target ⟨seqExt seq, id, reason⟩ = .ok (some seq.toNat) := by
    unfold nackSelector
    rw [hget]
    simp only [JsonValue.asU64, Option.filter, hpos, decide_true, if_true]
  unfold nackSeq
  rw [hsel]
  simp only [bind, Except.bind, Option.filter, hrow, hid, Option.any_some, decide_true, if_true]
  rfl

end

/-- The first two deliveries stay pending: `issued` were appended, the first `acked` of the others
acknowledged, and the second refused `refused` times. -/
structure Stalled (target id : String) (issued acked refused : ℕ) (ib : OpaqueDeviceInbox) :
    Prop where
  settling : Settling ∅ ib
  next : ib.next target = issued + 1
  row : ∀ q, 1 ≤ q → q ≤ issued → q ≤ 2 ∨ acked + 2 < q →
    ∃ entry, (ib.rows target)[q]? = some entry ∧ entry.envelope.envelopeId = id
  window : ∀ q, q ∈ (ib.cursor target).ackedInboxSeqs ↔ 3 ≤ q ∧ q ≤ acked + 2
  attempts : (ib.cursor target).nackAttempts[2]?.getD 0 = refused

namespace Stalled
variable {target id : String} {issued acked refused : ℕ} {ib : OpaqueDeviceInbox}
  (h : Stalled target id issued acked refused ib)
include h

theorem pending {q : ℕ} (hq : 1 ≤ q) (hle : q ≤ issued) (hout : q ≤ 2 ∨ acked + 2 < q) :
    q ∈ ib.rows target := by
  obtain ⟨entry, hrow, -⟩ := h.row q hq hle hout
  exact mem_of_eq_some hrow

theorem settled_eq (hissued : 1 ≤ issued) : (ib.cursor target).settledInboxSeq = 0 := by
  have := ((h.settling.loose target).pending 1 (h.pending le_rfl hissued (by omega))).1
  omega

theorem size_window : (ib.cursor target).ackedInboxSeqs.size = acked := by
  have hcard : (ib.cursor target).ackedInboxSeqs.size = (Finset.Icc 3 (acked + 2)).card :=
    OrdSet.size_eq_card fun q => by rw [h.window, Finset.mem_Icc]
  rw [hcard, Nat.card_Icc]
  omega

theorem append {envelope : Envelope} (htgt : envelope.target = target)
    (hid : envelope.envelopeId = id) (hrange : issued + 1 < u64Max) (now : ℤ) :
    Stalled target id (issued + 1) acked refused (ib.appendAt envelope now).2 := by
  have hcall : (InboxCall.append envelope now).InRange ib := by
    change ib.next envelope.target < u64Max
    rwa [htgt, h.next]
  refine ⟨h.settling.exec (.append envelope now) hcall, ?_, ?_, ?_, ?_⟩
  · rw [next_appendAt, if_pos htgt, htgt, h.next, satAdd_one_of_lt hrange]
  · intro q hq hle hout
    rw [rows_appendAt, if_pos htgt, getElem?_insert_eq, h.next]
    split_ifs with heq
    · exact ⟨_, rfl, hid⟩
    · exact h.row q hq (by omega) hout
  · rw [cursor_appendAt, if_pos htgt]
    exact h.window
  · rw [cursor_appendAt, if_pos htgt]
    exact h.attempts

theorem ack {ack : Ack} (hcheck : ib.checkAck target ack = .ok (acked + 3))
    (hissued : acked + 3 ≤ issued) (hroom : acked < routerAckWindow) (clock : ℤ) :
    Stalled target id issued (acked + 1) refused (ib.applyAckForTarget clock target ack).2 := by
  have hsett := h.settled_eq (by omega)
  have hloose := (h.settling.loose target).retire (acked + 3)
  have hhead : 0 + 1 ∈ (ib.rows target).erase (acked + 3) := by
    rw [mem_erase]
    exact ⟨by simp, h.pending le_rfl (by omega) (by omega)⟩
  obtain ⟨hrows, hwindow, hatts⟩ := applyAckForTarget_of_room clock hcheck
    (by rw [h.size_window]; exact hroom)
  have hgoal : settlementGoal (ib.next target) ((ib.rows target).erase (acked + 3)) = 0 := by
    rw [hloose.goal_eq (by rwa [hsett]), hsett]
  refine ⟨h.settling.exec (.ack clock target ack) trivial, ?_, ?_, ?_, ?_⟩
  · rw [next_applyAckForTarget, h.next]
  · intro q hq hle hout
    obtain ⟨entry, hrow, hid⟩ := h.row q hq hle (by omega)
    refine ⟨entry, ?_, hid⟩
    rw [hrows, getElem?_erase_of_ne _ (by omega), hrow]
  · intro q
    rw [hwindow, OrdSet.mem_filter_iff, OrdSet.mem_insert_iff, h.window, decide_eq_true_iff]
    omega
  · have hkept : 2 ∈ (ib.rows target).erase (acked + 3) := by
      rw [mem_erase]
      exact ⟨by simp, h.pending (by omega) (by omega) (by omega)⟩
    rw [hatts, getElem?_filter_eq, getElem?_erase_of_ne _ (by omega), ← h.attempts,
      decide_eq_true hkept]
    cases (ib.cursor target).nackAttempts[2]? <;> rfl

variable {refusal : Nack} (hseq : ib.nackSeq target refusal = .ok (some 2))
include hseq

theorem nack (hbelow : refused + 1 < routerNackRetryLimit) (clock : ℤ) :
    Stalled target id issued acked (refused + 1) (ib.applyNackForTarget clock target refusal).2 := by
  have hsettling := h.settling.exec (.nack clock target refusal) trivial
  have hnext := next_applyNackForTarget clock ib target refusal
  obtain ⟨ids, hcurs⟩ := ib.cursor_noteNack target refusal 2 (refused + 1)
  have hres := applyNackForTarget_of_some clock (refused + 1) hseq
    (by rw [h.attempts]; exact min_eq_left (hbelow.le.trans (by decide)))
  rw [if_neg (not_le.mpr hbelow)] at hres
  refine ⟨hsettling, by rw [hnext, h.next], ?_, ?_, ?_⟩
  · rw [hres]
    exact h.row
  · rw [hres, hcurs]
    exact h.window
  · rw [hres, hcurs]
    rw [getElem?_insert_self]
    rfl

/-- The refusal that reaches the limit adds its delivery to the window, however full that is. -/
theorem nack_last (hissued : 2 ≤ issued) (hlimit : refused + 1 = routerNackRetryLimit) (clock : ℤ) :
    ((ib.applyNackForTarget clock target refusal).2.cursor target).ackedInboxSeqs.size =
      acked + 1 := by
  have hsett := h.settled_eq (by omega)
  obtain ⟨ids, hcurs⟩ := ib.cursor_noteNack target refusal 2 (refused + 1)
  obtain ⟨entry, hrow, -⟩ := h.row 2 (by omega) hissued (by omega)
  have hres := applyNackForTarget_of_some clock (refused + 1) hseq
    (by rw [h.attempts]; exact min_eq_left (hlimit.le.trans (by decide)))
  rw [if_pos hlimit.ge] at hres
  have hgoal : settlementGoal (ib.next target) ((ib.rows target).erase 2) = 0 := by
    rw [((h.settling.loose target).retire 2).goal_eq, hsett]
    rw [hsett, mem_erase]
    exact ⟨by simp, h.pending le_rfl (by omega) (by omega)⟩
  have hrows := ib.rows_noteNack target refusal 2 (refused + 1)
  have hnext := ib.next_noteNack target refusal 2 (refused + 1)
  generalize ib.noteNack target refusal 2 (refused + 1) = noted at hres hcurs hrows hnext
  rw [← hrows] at hrow
  have hmem := mem_cursors_deadLetter clock noted target 2 (.nacked refusal.reason) hrow
  rw [hres, advanceSettled_eq _ _ hmem, cursor_modifyCursor_self, rows_deadLetter, if_pos rfl, hrows,
    next_deadLetter, hnext, hgoal, cursor_deadLetter clock noted target 2 _ hrow, hcurs]
  unfold CursorAckState.settle CursorAckState.recordDeadLetter
  dsimp only
  rw [hsett, if_pos (by omega)]
  have hcard : ((((ib.cursor target).ackedInboxSeqs.insert 2).filter fun q => max 0 0 < q) :
      OrdSet ℕ).size = (Finset.Icc 2 (acked + 2)).card := by
    refine OrdSet.size_eq_card fun q => ?_
    rw [OrdSet.mem_filter_iff, OrdSet.mem_insert_iff, h.window, decide_eq_true_iff, Finset.mem_Icc]
    omega
  rw [hcard, Nat.card_Icc]
  omega

end Stalled

/-- A run that makes `calls`, with every append in range, ends in `ib`. -/
def Reaches (calls : List InboxCall) (ib : OpaqueDeviceInbox) : Prop :=
  ∃ moves, moves.map call = calls ∧
    Run (InboxStep fun ib call => call.InRange ib) .new moves ib

theorem Reaches.snoc {calls : List InboxCall} {ib : OpaqueDeviceInbox} (h : Reaches calls ib)
    (call : InboxCall) (hrange : call.InRange ib) : Reaches (calls ++ [call]) (ib.exec call) := by
  obtain ⟨moves, rfl, hrun⟩ := h
  have hstep : InboxStep (fun ib call => call.InRange ib) ib ⟨ib, call, ib.exec call⟩ (ib.exec call) :=
    ⟨rfl, rfl, rfl, hrange⟩
  exact ⟨_, map_append, hrun.snoc hstep⟩

section

/-- Deliveries of the overfilling run. -/
def overfillEnvelope : Envelope := ⟨∅, "e", "s", "d", 0, 0⟩

def overfillAppends (issued : ℕ) : List InboxCall := List.replicate issued (.append overfillEnvelope 0)

def overfillAcks (acked : ℕ) : List InboxCall :=
  (List.range acked).map fun i => .ack 0 "d" ⟨seqExt (.ofNat (i + 3)), "e"⟩

def overfillNacks (refused : ℕ) : List InboxCall :=
  List.replicate refused (.nack 0 "d" ⟨seqExt 2, "e", .rateLimited⟩)

variable {acked issued : ℕ}

theorem appends_stalled (hissued : issued < u64Max) :
    ∃ ib, Reaches (overfillAppends issued) ib ∧ Stalled "d" "e" issued 0 0 ib := by
  induction issued with
  | zero =>
    refine ⟨.new, ⟨[], rfl, .nil⟩, .of_new, rfl, by omega, ?_, rfl⟩
    intro q
    constructor
    · intro hq
      exact absurd hq Std.ExtTreeSet.not_mem_empty
    · omega
  | succ issued ih =>
    obtain ⟨ib, hreaches, h⟩ := ih (by omega)
    rw [overfillAppends, replicate_succ']
    refine ⟨_, hreaches.snoc _ ?_, h.append rfl rfl hissued 0⟩
    change ib.next "d" < u64Max
    rwa [h.next]

theorem acks_stalled (hissued : issued < u64Max) (hacked : acked + 2 ≤ issued)
    (hroom : acked ≤ routerAckWindow) : ∃ ib,
      Reaches (overfillAppends issued ++ overfillAcks acked) ib ∧ Stalled "d" "e" issued acked 0 ib := by
  induction acked with
  | zero =>
    rw [overfillAcks, range_zero, map_nil, append_nil]
    exact appends_stalled hissued
  | succ acked ih =>
    obtain ⟨ib, hreaches, h⟩ := ih (by omega) (by omega)
    obtain ⟨entry, hrow, hid⟩ := h.row (acked + 3) (by omega) (by omega) (by omega)
    have hseq : (UInt64.ofNat (acked + 3)).toNat = acked + 3 :=
      UInt64.toNat_ofNat_of_lt' (by
        unfold u64Max at hissued
        change acked + 3 < 2 ^ 64
        omega)
    rw [← hseq] at hrow
    have hcheck := checkAck_seqExt _ (by omega) hrow hid
    rw [hseq] at hcheck
    rw [overfillAcks, range_succ, map_append, ← append_assoc]
    exact ⟨_, hreaches.snoc _ trivial, h.ack hcheck (by omega) (by omega) 0⟩

theorem nackSeq_stalled {refused : ℕ} {ib : OpaqueDeviceInbox}
    (h : Stalled "d" "e" issued acked refused ib) (hissued : 2 ≤ issued) :
    ib.nackSeq "d" ⟨seqExt 2, "e", .rateLimited⟩ = .ok (some 2) := by
  obtain ⟨entry, hrow, hid⟩ := h.row 2 (by omega) hissued (by omega)
  exact nackSeq_seqExt 2 (by decide) hrow hid .rateLimited

theorem nacks_stalled {refused : ℕ} (hissued : issued < u64Max) (hacked : acked + 2 ≤ issued)
    (hroom : acked ≤ routerAckWindow) (hbelow : refused < routerNackRetryLimit) : ∃ ib,
      Reaches (overfillAppends issued ++ overfillAcks acked ++ overfillNacks refused) ib ∧
        Stalled "d" "e" issued acked refused ib := by
  induction refused with
  | zero =>
    rw [overfillNacks, replicate_zero, append_nil]
    exact acks_stalled hissued hacked hroom
  | succ refused ih =>
    obtain ⟨ib, hreaches, h⟩ := ih (by omega)
    rw [overfillNacks, replicate_succ', ← append_assoc]
    exact ⟨_, hreaches.snoc _ trivial, h.nack (nackSeq_stalled h (by omega)) hbelow 0⟩

/-- The third refusal of a delivery behind the head is taken into a full window. -/
theorem nack_overfills_window : ∃ ib,
    Reaches (overfillAppends 1026 ++ overfillAcks 1024 ++ overfillNacks 3) ib ∧
      routerAckWindow < (ib.cursor "d").ackedInboxSeqs.size := by
  obtain ⟨ib, hreaches, h⟩ : ∃ ib,
      Reaches (overfillAppends 1026 ++ overfillAcks 1024 ++ overfillNacks 2) ib ∧
        Stalled "d" "e" 1026 1024 2 ib :=
    nacks_stalled (by decide) le_rfl le_rfl (by decide)
  have hsize := h.nack_last (nackSeq_stalled h (by omega)) (by omega) rfl 0
  rw [overfillNacks, replicate_succ', ← append_assoc]
  exact ⟨_, hreaches.snoc _ trivial, hsize.ge⟩

end
end Ramflux
