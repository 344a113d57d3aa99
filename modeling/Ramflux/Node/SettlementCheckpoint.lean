import Ramflux.Node.Settlement

/-! One settlement yields the highest mark within the boundary that passes only retired rows. -/
namespace Ramflux.RouterStore
open Watermark OrdMap List

/-- Keys of the records that the log holds for a delivery. -/
def Wal.keysAt (wal : Wal) (target : String) (seq : ℕ) : Option (OrdSet String) :=
  wal.state.submissionsByTarget[target]?.bind (·[seq]?)

namespace Store

def HasRow (s : Store) (target : String) (seq : ℕ) : Prop := (target, seq) ∈ s.mailboxes.rows

def HasLogged (s : Store) (clock : ℤ) (walExpiredAt : Option ℤ) (target : String) (seq : ℕ) : Prop :=
  ∃ wal keys, s.wal = some wal ∧ wal.keysAt target seq = some keys ∧
    wal.state.expired clock walExpiredAt keys = false

/-- Highest sequence that may be settled: the published one with a core, else the issued one. -/
def boundary (s : Store) (target : String) : ℕ :=
  match s.identities[target]? with
  | none => 0
  | some identity =>
    match s.core with
    | none => s.issued target identity
    | some core => (core.settledView target identity.id).1

end Store

/-- Dispositions of a sequence: named by the new cursor, or acknowledged in the old one. -/
def Disposed (incoming : CursorAckState) (previous : Option CursorAckState) (seq : ℕ) : Prop :=
  retires incoming seq ∨ ∃ old, previous = some old ∧ seq ∈ old.ackedInboxSeqs

theorem pair_compare_lt {target : String} {a b : String × ℕ} (ha : a.1 = target) (hb : b.1 = target)
    (h : compare a b = .lt) : a.2 < b.2 := by
  obtain ⟨ta, na⟩ := a
  obtain ⟨tb, nb⟩ := b
  obtain rfl : ta = target := ha
  obtain rfl : tb = ta := hb
  change ((compare tb tb).then (compare na nb)) = .lt at h
  rw [show compare tb tb = .eq from Std.ReflCmp.compare_self] at h
  exact Nat.compare_eq_lt.mp h

namespace MailboxTable
variable (table : MailboxTable) (target : String) (first last : ℕ)

theorem map_inboxSeq_range : (table.range target first last).map (·.entry.inboxSeq) =
    (table.rows.toList.filter fun row =>
      row.1.1 = target ∧ first ≤ row.1.2 ∧ row.1.2 ≤ last).map (·.1.2) := by
  unfold range
  rw [map_map]
  apply map_congr_left
  rintro ⟨key, row⟩ hrow
  have hget := mem_toList_iff.mp (mem_filter.mp hrow).1
  rw [(table.filed key row hget).1]
  rfl

theorem mem_range_iff (seq : ℕ) : seq ∈ (table.range target first last).map (·.entry.inboxSeq) ↔
    (target, seq) ∈ table.rows ∧ first ≤ seq ∧ seq ≤ last := by
  rw [map_inboxSeq_range, mem_map]
  constructor
  · rintro ⟨⟨⟨t, n⟩, row⟩, hrow, rfl⟩
    obtain ⟨hmem, hp⟩ := mem_filter.mp hrow
    obtain ⟨rfl, hfirst, hlast⟩ : t = target ∧ first ≤ n ∧ n ≤ last := by simpa using hp
    have hget := mem_toList_iff.mp hmem
    exact ⟨mem_of_eq_some hget, hfirst, hlast⟩
  · rintro ⟨hmem, hfirst, hlast⟩
    obtain ⟨row, hrow⟩ := exists_mem_toList _ hmem
    refine ⟨((target, seq), row), ?_, rfl⟩
    rw [mem_filter]
    exact ⟨hrow, by simp [hfirst, hlast]⟩

theorem sorted_range : ((table.range target first last).map (·.entry.inboxSeq)).Pairwise (· < ·) := by
  rw [map_inboxSeq_range, pairwise_map]
  have hord := table.rows.ordered_keys_toList.filter fun row =>
    decide (row.1.1 = target ∧ first ≤ row.1.2 ∧ row.1.2 ≤ last)
  refine hord.imp_of_mem ?_
  intro a b ha hb hlt
  have htgt : ∀ row : (String × ℕ) × StoredInboxEntry, row ∈ (table.rows.toList.filter fun row =>
        decide (row.1.1 = target ∧ first ≤ row.1.2 ∧ row.1.2 ≤ last)) → row.1.1 = target := by
    intro row hrow
    have hp := (mem_filter.mp hrow).2
    exact (decide_eq_true_eq.mp hp).1
  exact pair_compare_lt (htgt a ha) (htgt b hb) hlt

end MailboxTable

/-- The scan of the table finds the first unretired row above the floor. -/
theorem Store.isHead_durableHead (s : Store) (cursor : CursorAckState) {floor : ℕ}
    (hfloor : floor < u64Max) :
    IsHead (fun seq => s.HasRow cursor.target seq ∧ ¬retires cursor seq) floor
      (s.durableHead cursor floor) := by
  unfold durableHead
  rw [satAdd_one_of_lt hfloor]
  have habove : ∀ seq ∈ (s.mailboxes.range cursor.target (floor + 1) u64Max).map
      (·.entry.inboxSeq), floor < seq := by
    intro seq hseq
    exact ((MailboxTable.mem_range_iff _ _ _ _ _).mp hseq).2.1
  have hhead := isHead_find? (MailboxTable.sorted_range _ _ _ _) habove (retires cursor)
  refine hhead.congr ?_
  intro seq hseq
  rw [MailboxTable.mem_range_iff]
  constructor
  · rintro ⟨⟨hrow, -, -⟩, hnot⟩
    exact ⟨hrow, hnot⟩
  · rintro ⟨hrow, hnot⟩
    obtain ⟨row, hget⟩ := mem_iff_exists.mp hrow
    exact ⟨⟨hrow, hseq, (s.mailboxes.filed _ row hget).2⟩, hnot⟩

/-- The scan of the log finds the first unretired row above the floor that it looks at. -/
theorem Wal.isHead_settlementHead (wal : Wal) (clock : ℤ) (cursor : CursorAckState) (floor : ℕ)
    (walExpiredAt : Option ℤ) :
    IsHead (fun seq => (∃ keys, wal.keysAt cursor.target seq = some keys ∧
        wal.state.expired clock walExpiredAt keys = false) ∧ ¬retires cursor seq) floor
      (wal.settlementHead clock cursor floor walExpiredAt) := by
  unfold settlementHead keysAt
  cases wal.state.submissionsByTarget[cursor.target]? with
  | none =>
    rintro seq - ⟨⟨keys, hkeys, -⟩, -⟩
    simp at hkeys
  | some sequences =>
    let live := ((sequences.toList.filter (decide <| floor < ·.1)).filter fun row =>
      !wal.state.expired clock walExpiredAt row.2).map (·.1)
    have hmem : ∀ seq, seq ∈ live ↔ (∃ keys, sequences[seq]? = some keys ∧
        wal.state.expired clock walExpiredAt keys = false) ∧ floor < seq := by
      intro seq
      simp only [live, mem_map, mem_filter, Prod.exists, mem_toList_iff,
        decide_eq_true_eq, Bool.not_eq_true']
      constructor
      · rintro ⟨n, keys, ⟨⟨hget, hfloor⟩, hexp⟩, rfl⟩
        exact ⟨⟨keys, hget, hexp⟩, hfloor⟩
      · rintro ⟨⟨keys, hget, hexp⟩, hfloor⟩
        exact ⟨seq, keys, ⟨⟨hget, hfloor⟩, hexp⟩, rfl⟩
    have hsorted : live.Pairwise (· < ·) := by
      rw [pairwise_map]
      have hord := (sequences.ordered_keys_toList.filter (decide <| floor < ·.1)).filter fun row =>
        !wal.state.expired clock walExpiredAt row.2
      exact hord.imp fun h => Nat.compare_eq_lt.mp h
    have hhead := isHead_find? hsorted (fun seq hseq => ((hmem seq).mp hseq).2) (retires cursor)
    refine hhead.congr ?_
    intro seq hseq
    rw [hmem]
    constructor
    · rintro ⟨⟨hkeys, -⟩, hnot⟩
      exact ⟨hkeys, hnot⟩
    · rintro ⟨hkeys, hnot⟩
      exact ⟨⟨hkeys, hseq⟩, hnot⟩

namespace Store
variable (s : Store) (clock : ℤ) (incoming : CursorAckState) (previous : Option CursorAckState)
  (walExpiredAt : Option ℤ)

theorem isHead_logHead (cursor : CursorAckState) (floor : ℕ) :
    IsHead (fun seq => s.HasLogged clock walExpiredAt cursor.target seq ∧
        ¬retires cursor seq) floor
      (s.wal.bind fun wal => wal.settlementHead clock cursor floor walExpiredAt) := by
  unfold HasLogged
  cases s.wal with
  | none =>
    rintro seq - ⟨⟨wal, keys, hwal, -⟩, -⟩
    simp at hwal
  | some wal =>
    refine (wal.isHead_settlementHead clock cursor floor walExpiredAt).congr ?_
    intro seq _
    constructor
    · rintro ⟨⟨keys, hkeys, hexp⟩, hnot⟩
      exact ⟨⟨wal, keys, rfl, hkeys, hexp⟩, hnot⟩
    · rintro ⟨⟨wal', keys, hwal, hkeys, hexp⟩, hnot⟩
      cases hwal
      exact ⟨⟨keys, hkeys, hexp⟩, hnot⟩

/-- Marks that pass only disposed rows, among those the settlement looks at. -/
def Passable : Set ℕ :=
  {mark | mark ≤ s.boundary incoming.target ∧ ∀ seq, previousSettled previous < seq →
    seq ≤ mark → (s.HasRow incoming.target seq ∨
      s.HasLogged clock walExpiredAt incoming.target seq) → Disposed incoming previous seq}

def allAcked : OrdSet ℕ :=
  incoming.ackedInboxSeqs.extend ((previous.map (·.ackedInboxSeqs.toList)).getD [])

theorem mem_allAcked_iff (seq : ℕ) : seq ∈ allAcked incoming previous ↔
    seq ∈ incoming.ackedInboxSeqs ∨ ∃ old, previous = some old ∧ seq ∈ old.ackedInboxSeqs := by
  unfold allAcked
  rw [OrdSet.mem_extend_iff]
  cases previous with
  | none | some old => simp

def scanned (issued : ℕ) : CursorAckState :=
  { incoming with
    issuedInboxSeq := max incoming.issuedInboxSeq issued
    ackedInboxSeqs := allAcked incoming previous }

theorem retires_scanned_iff (issued seq : ℕ) :
    retires (scanned incoming previous issued) seq ↔ Disposed incoming previous seq := by
  show incoming.lastAcknowledgedInboxSeq = some seq ∨ seq ∈ allAcked incoming previous ∨
    seq ∈ incoming.retiredInboxSeqs ↔ _
  rw [mem_allAcked_iff]
  constructor
  · rintro (hlast | (hacked | hold) | hretired)
    · exact .inl (.inl hlast)
    · exact .inl (.inr (.inl hacked))
    · exact .inr hold
    · exact .inl (.inr (.inr hretired))
  · rintro ((hlast | hacked | hretired) | hold)
    · exact .inl hlast
    · exact .inr (.inl (.inl hacked))
    · exact .inr (.inr hretired)
    · exact .inr (.inl (.inr hold))

def settledMark (issued : ℕ) : ℕ :=
  cap (cap (s.boundary incoming.target)
      (s.durableHead (scanned incoming previous issued) (previousSettled previous)))
    (s.wal.bind fun wal => wal.settlementHead clock (scanned incoming previous issued)
      (previousSettled previous) walExpiredAt)

theorem checkpointSettlement_eq {identity : Identity}
    (hid : s.identities[incoming.target]? = some identity) :
    s.checkpointSettlement clock incoming previous walExpiredAt =
      let issued := s.issued incoming.target identity
      let settled := s.settledMark clock incoming previous walExpiredAt issued
      ({ scanned incoming previous issued with
        settledInboxSeq := settled
        ackedInboxSeqs := (allAcked incoming previous).filter (settled < ·) }, some identity.id) := by
  have hboundary : s.boundary incoming.target = match s.core with
      | none => s.issued incoming.target identity
      | some core => (core.settledView incoming.target identity.id).1 := by
    unfold boundary
    rw [hid]
  unfold checkpointSettlement settledMark
  rw [hid, hboundary]
  rfl

section
variable (issued : ℕ)

theorem isGreatest_settledMark (hfloor : previousSettled previous < u64Max) :
    IsGreatest (s.Passable clock incoming previous walExpiredAt)
      (s.settledMark clock incoming previous walExpiredAt issued) := by
  have hrows := s.isHead_durableHead (scanned incoming previous issued) hfloor
  have hlogged := s.isHead_logHead clock walExpiredAt (scanned incoming previous issued)
    (previousSettled previous)
  have hset : Clear (fun seq => s.HasRow incoming.target seq ∧
        ¬retires (scanned incoming previous issued) seq ∨
      s.HasLogged clock walExpiredAt incoming.target seq ∧
        ¬retires (scanned incoming previous issued) seq) (previousSettled previous)
      (s.boundary incoming.target) = s.Passable clock incoming previous walExpiredAt := by
    ext mark
    refine and_congr_right fun _ => forall_congr' fun seq => forall_congr' fun _ =>
      forall_congr' fun _ => ?_
    beta_reduce
    rw [retires_scanned_iff, ← or_and_right, not_and, not_not]
  rw [← hset]
  exact isGreatest_cap_cap hrows hlogged

theorem le_settledMark (hfloor : previousSettled previous < u64Max)
    (hbound : previousSettled previous ≤ s.boundary incoming.target) :
    previousSettled previous ≤ s.settledMark clock incoming previous walExpiredAt issued := by
  apply (s.isGreatest_settledMark clock incoming previous walExpiredAt issued hfloor).2
  refine ⟨hbound, ?_⟩
  intro seq hlt hle
  omega

theorem settledMark_le_boundary :
    s.settledMark clock incoming previous walExpiredAt issued ≤ s.boundary incoming.target :=
  (cap_le _ _).trans (cap_le _ _)

end

end Store
end Ramflux.RouterStore
