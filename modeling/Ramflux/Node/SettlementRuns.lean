import Ramflux.Node.SettlementTransactions

/-! Runs of settling transactions: the durable settled sequence only grows, and stays below every row
that can still be delivered. -/
namespace Ramflux.RouterStore
open Store

inductive Transaction
  | ack (cursor : CursorAckState) (sequences : List ℕ)
  | nack (cursor : CursorAckState)
  | retain (cursors : List CursorAckState) (walExpiredAt : Option ℤ)
  | sweep (now : ℤ)

namespace Transaction

def exec (clock : ℤ) (s : Store) : Transaction → Except StoreError Store
  | ack cursor sequences => s.recordLeasedAckBatch clock cursor sequences
  | nack cursor => s.recordLeasedNack clock cursor
  | retain cursors walExpiredAt => s.retainCursorCheckpointsAt clock cursors walExpiredAt
  | sweep now => s.sweepDeliveryRetention clock now

def cursors : Transaction → List CursorAckState
  | ack cursor sequences =>
    [{ cursor with retiredInboxSeqs := cursor.retiredInboxSeqs ++ sequences }]
  | nack cursor => [cursor]
  | retain cursors _ => cursors
  | sweep _ => []

def walExpiredAt : Transaction → Option ℤ
  | retain _ walExpiredAt => walExpiredAt
  | sweep now => some now
  | _ => none

/-- Deliveries a transaction disposes of: named by a cursor, old or new, or expired. -/
def Disposes (clock : ℤ) (s : Store) (txn : Transaction) (target : String) (seq : ℕ) : Prop :=
  (∃ cursor ∈ txn.cursors, cursor.target = target ∧ retires cursor seq) ∨
    s.Retired target seq ∨
    (∃ wal keys, s.wal = some wal ∧ wal.keysAt target seq = some keys ∧
      wal.state.expired clock txn.walExpiredAt keys) ∨
    ∃ now row, txn = sweep now ∧ s.mailboxes.rows[(target, seq)]? = some row ∧
      MailboxTable.isDue now row

/-- Cursor checkpoints are for mailboxes that have an identity. -/
def Identified (s : Store) : Transaction → Prop
  | retain cursors _ => ∀ cursor ∈ cursors, s.Known cursor.target
  | _ => True

theorem advances_exec {clock : ℤ} {s s' : Store} {txn : Transaction} (hid : txn.Identified s)
    (h : txn.exec clock s = .ok s') : s.Advances (txn.Disposes clock s) s' := by
  have hcovers : ∀ cursor ∈ txn.cursors,
      s.Covers (txn.Disposes clock s) clock txn.walExpiredAt cursor := by
    intro cursor hmem
    exact {
      named := fun seq hseq => .inl ⟨cursor, hmem, rfl, hseq⟩
      previous := fun seq hseq => .inr (.inl hseq)
      expired := fun wal keys seq hwal hkeys hexp =>
        .inr (.inr (.inl ⟨wal, keys, hwal, hkeys, hexp⟩)) }
  cases txn with
  | ack cursor sequences | nack cursor => exact recordReceiver_ok h (hcovers _ (.head _))
  | retain cursors walExpiredAt => exact retainCursorCheckpointsAt_ok h hcovers hid
  | sweep now =>
    refine sweepDeliveryRetention_ok h (fun _ _ hseq => .inr (.inl hseq)) ?_
    intro wal keys target seq hwal hkeys hexp
    exact .inr (.inr (.inl ⟨wal, keys, hwal, hkeys, hexp⟩))

end Transaction

/-- A store with its history: `observed` is the highest boundary of each mailbox so far, `disposed` what
committed transactions have disposed of. -/
structure Sys where
  store : Store
  observed : String → ℕ
  disposed : Set (String × ℕ)

inductive Event
  | commit (clock : ℤ) (txn : Transaction)
  | environment

/-- The environment submits, publishes, prunes and restarts. It writes no cursor, and its rows are above
every boundary observed or come back after their disposal. -/
inductive Step : Sys → Event → Sys → Prop
  | commit {s : Sys} {clock : ℤ} {txn : Transaction} {store : Store} :
      txn.Identified s.store → txn.exec clock s.store = .ok store →
      Step s (.commit clock txn) ⟨store, fun target => max (s.observed target) (store.boundary target),
        s.disposed ∪ {row | txn.Disposes clock s.store row.1 row.2}⟩
  | environment {s : Sys} {store : Store} : store.cursors = s.store.cursors →
      (∀ target seq, store.Present target seq → s.store.Present target seq ∨
        s.observed target < seq ∨ (target, seq) ∈ s.disposed) →
      Step s .environment ⟨store, fun target => max (s.observed target) (store.boundary target),
        s.disposed⟩

namespace Sys

/-- Rows that a receiver may still be sent. -/
def Deliverable (s : Sys) (target : String) (seq : ℕ) : Prop :=
  s.store.Present target seq ∧ (target, seq) ∉ s.disposed

/-- No deliverable row is settled, and nothing beyond an observed boundary is. -/
structure Sound (s : Sys) : Prop where
  above : ∀ target seq, s.Deliverable target seq → s.store.settledOf target < seq
  observed : ∀ target, s.store.settledOf target ≤ s.observed target

end Sys

variable {s s' : Sys} {event : Event}

theorem Step.sound (h : Step s event s') (hs : s.Sound) : s'.Sound := by
  cases h with
  | @commit clock txn store hid hexec =>
    have hadv := Transaction.advances_exec hid hexec
    constructor
    · rintro target seq ⟨hpresent, hnot⟩
      obtain ⟨hold, hnew⟩ := not_or.mp hnot
      have habove := hs.above target seq ⟨hadv.present target seq hpresent, hold⟩
      by_contra hle
      exact hnew (hadv.covered target seq habove (not_lt.mp hle) hpresent)
    · intro target
      exact (hadv.bounded target).trans (max_le_max_right _ (hs.observed target))
  | @environment store hcursors hrows =>
    have hsett : ∀ target, store.settledOf target = s.store.settledOf target := by
      intro target
      unfold settledOf
      rw [hcursors]
    constructor
    · rintro target seq ⟨hpresent, hnot⟩
      rw [hsett]
      rcases hrows target seq hpresent with hold | hnew | hdisposed
      · exact hs.above target seq ⟨hold, hnot⟩
      · exact (hs.observed target).trans_lt hnew
      · exact absurd hdisposed hnot
    · intro target
      rw [hsett]
      exact (hs.observed target).trans (le_max_left _ _)

theorem Step.settled_le (h : Step s event s') (target : String) :
    s.store.settledOf target ≤ s'.store.settledOf target := by
  cases h with
  | @commit clock txn store hid hexec => exact (Transaction.advances_exec hid hexec).settled target
  | @environment store hcursors hrows =>
    unfold settledOf
    rw [hcursors]

variable {t : Sys} {events : List Event}

theorem sound_of_run (hrun : Run Step s events t) (hs : s.Sound) : t.Sound :=
  hrun.preserves hs fun _ _ _ hsound hstep => hstep.sound hsound

theorem settled_le_of_run (hrun : Run Step s events t)
    (target : String) : s.store.settledOf target ≤ t.store.settledOf target :=
  hrun.preserves (P := fun u => s.store.settledOf target ≤ u.store.settledOf target) le_rfl
    fun _ _ _ hle hstep => hle.trans (hstep.settled_le target)

/-- A settlement takes the highest mark within the boundary that passes only disposed rows, not below the
previous one unless the boundary is, and keeps the ACKs above it. Over runs the durable mark does not move
back and stays below every deliverable row. -/
theorem settlement_below_deliverable :
    (∀ (s : Store) (clock : ℤ) (incoming : CursorAckState) (previous : Option CursorAckState)
      (walExpiredAt : Option ℤ), incoming.target ∈ s.identities →
      previousSettled previous < u64Max →
      let cursor := (s.checkpointSettlement clock incoming previous walExpiredAt).1
      IsGreatest (s.Passable clock incoming previous walExpiredAt) cursor.settledInboxSeq ∧
      (previousSettled previous ≤ s.boundary incoming.target →
        previousSettled previous ≤ cursor.settledInboxSeq) ∧
      cursor.settledInboxSeq ≤ s.boundary incoming.target ∧
      ∀ seq, seq ∈ cursor.ackedInboxSeqs ↔ cursor.settledInboxSeq < seq ∧
        (seq ∈ incoming.ackedInboxSeqs ∨ ∃ old, previous = some old ∧ seq ∈ old.ackedInboxSeqs)) ∧
    ∀ (s t : Sys) (events : List Event), Run Step s events t → s.Sound →
      (∀ target, s.store.settledOf target ≤ t.store.settledOf target) ∧
      ∀ target seq, t.Deliverable target seq → t.store.settledOf target < seq := by
  constructor
  · intro s clock incoming previous walExpiredAt hmem hfloor
    obtain ⟨identity, hid⟩ := OrdMap.mem_iff_exists.mp hmem
    rw [checkpointSettlement_eq s clock incoming previous walExpiredAt hid]
    refine ⟨s.isGreatest_settledMark _ _ _ _ _ hfloor, s.le_settledMark _ _ _ _ _ hfloor,
      s.settledMark_le_boundary _ _ _ _ _, ?_⟩
    intro seq
    rw [OrdSet.mem_filter_iff, mem_allAcked_iff, decide_eq_true_eq, and_comm]
  · intro s t events hrun hs
    exact ⟨settled_le_of_run hrun, (sound_of_run hrun hs).above⟩

section

def deviceIdentity : Identity where
  id := "00000000000000000000000000000000"
  issued := 2
  id_ok := by decide +kernel

def deviceRow (seq : ℕ) : StoredInboxEntry :=
  ⟨⟨seq, "d", ⟨∅, "e", "s", "d", 5, 0⟩⟩, 5⟩

def emptyStore : Store := ⟨∅, .empty, .empty, none, none⟩

def twoRows : Store where
  identities := (∅ : OrdMap String Identity).insert "d" deviceIdentity
  cursors := .empty
  mailboxes := (MailboxTable.empty.insert (deviceRow 1) (by decide)).insert (deviceRow 2) (by decide)
  wal := none
  core := none

def firstAck : Transaction :=
  .ack { CursorAckState.new "d" with lastAcknowledgedInboxSeq := some 1 } [1]

theorem emptyStore_sound : Sys.Sound ⟨emptyStore, fun _ => 0, ∅⟩ where
  above := by
    rintro target seq ⟨hrow | ⟨wal, keys, hwal, -⟩, -⟩
    · exact absurd hrow Std.ExtTreeMap.not_mem_empty
    · cases hwal
  observed target := by
    exact le_rfl

theorem exists_run_firstAck : ∃ t : Sys, Run Step ⟨emptyStore, fun _ => 0, ∅⟩
    [.environment, .commit 0 firstAck] t ∧ t.store.settledOf "d" = 1 ∧ t.Deliverable "d" 2 := by
  have hres : (firstAck.exec 0 twoRows).toOption.map (fun s =>
      (s.settledOf "d", decide (("d", 2) ∈ s.mailboxes.rows))) = some (1, true) := by decide +kernel
  cases hexec : firstAck.exec 0 twoRows with
  | error e =>
    rw [hexec] at hres
    cases hres
  | ok store =>
    rw [hexec] at hres
    obtain ⟨hsett, hrow⟩ := Prod.mk.inj (Option.some.inj hres)
    have hrow : ("d", 2) ∈ store.mailboxes.rows := of_decide_eq_true hrow
    have hpositive : ∀ target seq, twoRows.Present target seq → 0 < seq := by
      rintro target seq (hrow | ⟨wal, keys, hwal, -⟩)
      · obtain ⟨row, hget⟩ := OrdMap.mem_iff_exists.mp hrow
        have hmem := OrdMap.mem_toList_iff.mpr hget
        have hkeys : ∀ entry ∈ twoRows.mailboxes.rows.toList, 0 < entry.1.2 := by decide +kernel
        exact hkeys _ hmem
      · cases hwal
    have henvironment : Step ⟨emptyStore, fun _ => 0, ∅⟩ .environment
        ⟨twoRows, fun target => max 0 (twoRows.boundary target), ∅⟩ :=
      .environment rfl fun target seq hp => .inr (.inl (hpositive target seq hp))
    refine ⟨_, (Run.single henvironment).snoc (.commit trivial hexec), hsett, ?_⟩
    refine ⟨.inl hrow, ?_⟩
    rintro (hempty | ⟨cursor, hcurs, -, hretires⟩ | ⟨stored, hstored, -⟩ | ⟨wal, keys, hwal, -⟩ |
      ⟨now, row, hsweep, -⟩)
    · exact hempty
    · obtain rfl := List.mem_singleton.mp hcurs
      revert hretires
      decide +kernel
    · cases hstored
    · cases hwal
    · cases hsweep

theorem settlement_below_deliverable_firstAck : ∃ t : Sys,
    Run Step ⟨emptyStore, fun _ => 0, ∅⟩ [.environment, .commit 0 firstAck] t ∧
    t.store.settledOf "d" = 1 ∧ t.Deliverable "d" 2 ∧ t.store.settledOf "d" < 2 ∧
    IsGreatest (twoRows.Passable 0 (.new "d") none none)
      (twoRows.checkpointSettlement 0 (.new "d") none none).1.settledInboxSeq := by
  obtain ⟨t, hrun, hsett, hrow⟩ := exists_run_firstAck
  refine ⟨t, hrun, hsett, hrow, ?_, ?_⟩
  · exact (settlement_below_deliverable.2 _ _ _ hrun emptyStore_sound).2 "d" 2 hrow
  · exact (settlement_below_deliverable.1 twoRows 0 (.new "d") none none (by decide +kernel)
      (by decide)).1

/-- A publication core that does not know the mailbox yet. -/
def unregisteredCore : Publication.Shared := ⟨⟨∅, ∅, ∅, ∅⟩, [], false, false, [], []⟩

/-- A core without the mailbox gives a mark below the previous one; only the merge keeps that. -/
theorem settlement_below_previous : ¬∀ (s : Store) (clock : ℤ) (incoming : CursorAckState)
    (previous : Option CursorAckState) (walExpiredAt : Option ℤ), previousSettled previous ≤
      (s.checkpointSettlement clock incoming previous walExpiredAt).1.settledInboxSeq := by
  intro h
  have hlow := h { twoRows with core := some unregisteredCore } 0 (.new "d")
    (some { CursorAckState.new "d" with settledInboxSeq := 1 }) none
  revert hlow
  decide +kernel

end
end Ramflux.RouterStore
