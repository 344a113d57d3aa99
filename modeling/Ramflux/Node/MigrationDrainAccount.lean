import Ramflux.Node.MigrationDrain

/-! Accounts of a migration's backlog: the counters of a cursor are the counts of its rows. -/
namespace Ramflux.Home
open Fallible Custody OrdMap Std.ExtTreeMap

namespace DrainStore
variable {s s' : DrainStore} {row : MigrationDrainEntry} {cursor : MigrationBacklogCursor}
  {outcome : MigrationDrainOutcome} {receiver : Bool} {now : ℕ}

def outstanding (s : DrainStore) (target : String) (p : MigrationDrainEntry → Bool) : ℕ :=
  s.entries.count fun key row => key.1 = target && p row

/-- A mailbox's drain: nothing was settled yet, or it is at the least outstanding row. -/
def AtNext (s : DrainStore) (cursor : MigrationBacklogCursor) : Prop :=
  if cursor.progress.remaining = cursor.progress.scheduled then cursor.nextSeq = 0
  else IsLeast {seq | (cursor.target, seq) ∈ s.entries} cursor.nextSeq ∨
    (∀ seq, (cursor.target, seq) ∉ s.entries) ∧ cursor.nextSeq = satAdd cursor.highWater 1

/-- A cursor's counters agree with the rows of its mailbox. -/
structure Balanced (s : DrainStore) (cursor : MigrationBacklogCursor) : Prop where
  remaining : cursor.progress.remaining = s.outstanding cursor.target fun _ => true
  evidenceRequired : cursor.progress.evidenceRequired = s.outstanding cursor.target (·.state = .held)
  rejected : cursor.progress.rejected = s.outstanding cursor.target (·.state = .rejected)
  scheduled : cursor.progress.scheduled = cursor.progress.remaining + cursor.progress.forwarded +
    cursor.progress.receiverAcked + cursor.progress.expired
  next : s.AtNext cursor

/-- Rows are filed under their key and have a cursor, one for a mailbox, whose counters agree. -/
structure Accounted (s : DrainStore) : Prop where
  filed : ∀ (key : DrainKey) row, s.entries[key]? = some row →
    key = row.key ∧ row.cursorKey ∈ s.backlog
  owner : ∀ (key : CursorKey) cursor, s.backlog[key]? = some cursor → key = cursor.key
  single : ∀ (key key' : CursorKey) cursor cursor', s.backlog[key]? = some cursor → s.backlog[key']? = some cursor' →
    cursor.target = cursor'.target → key = key'
  fits : ∀ (key : CursorKey) cursor, s.backlog[key]? = some cursor → cursor.progress.scheduled ≤ u64Max
  balanced : ∀ (key : CursorKey) cursor, s.backlog[key]? = some cursor → s.Balanced cursor

abbrev mailbox (target : String) (p : MigrationDrainEntry → Bool) (key : DrainKey)
    (row : MigrationDrainEntry) : Bool :=
  key.1 = target && p row

theorem refused_le (entries : OrdMap DrainKey MigrationDrainEntry) (target : String) :
    entries.count (mailbox target (·.state = .rejected)) +
      entries.count (mailbox target (·.state = .held)) ≤ entries.count (mailbox target fun _ => true) := by
  have hsum := count_add_count entries (mailbox target (·.state = .rejected))
    (mailbox target (·.state = .held)) (by
      intro key row hboth
      simp only [Bool.and_eq_true, decide_eq_true_eq] at hboth
      rw [hboth.1.2] at hboth
      exact nomatch hboth.2.2)
  have hle := count_le_count entries
    (fun key row => mailbox target (·.state = .rejected) key row || mailbox target (·.state = .held) key row)
    (mailbox target fun _ => true) (by
      intro key row _ hor
      simp only [Bool.or_eq_true, Bool.and_eq_true, decide_eq_true_eq, and_true] at hor ⊢
      exact hor.elim (·.1) (·.1))
  exact hsum.le.trans hle

def inState (state : MigrationDrainState) (row : MigrationDrainEntry) : ℕ := (row.state = state : Bool).toNat

theorem sub_pos {n : ℕ} (h : 0 < n) : sub n = .ok (n - 1) := if_neg (by omega)

theorem add_lt {n : ℕ} (h : n < u64Max) : add n = .ok (n + 1) := if_neg (by omega)

variable {p : BacklogProgress} {target : String}

theorem leaveState_ok (hheld : inState .held row ≤ p.evidenceRequired)
    (hrejected : inState .rejected row ≤ p.rejected) : leaveState row.state p = .ok { p with
      evidenceRequired := p.evidenceRequired - inState .held row
      rejected := p.rejected - inState .rejected row } := by
  unfold inState at *
  cases hstate : row.state with
  | pending => rfl
  | held =>
    rw [hstate] at hheld
    unfold leaveState
    rw [sub_pos hheld]
    rfl
  | rejected =>
    rw [hstate] at hrejected
    unfold leaveState
    rw [sub_pos hrejected]
    rfl

theorem enterState_ok (hheld : p.evidenceRequired < u64Max)
    (hrejected : p.rejected < u64Max) : enterState row.state p = .ok { p with
      evidenceRequired := p.evidenceRequired + inState .held row
      rejected := p.rejected + inState .rejected row } := by
  unfold inState
  cases row.state with
  | pending => rfl
  | held =>
    unfold enterState
    rw [add_lt hheld]
    rfl
  | rejected =>
    unfold enterState
    rw [add_lt hrejected]
    rfl

/-- Progress once a row is settled. -/
def finished (outcome : MigrationDrainOutcome) (receiver : Bool) (p : BacklogProgress) : BacklogProgress :=
  { p with
    remaining := p.remaining - 1
    receiverAcked := p.receiverAcked + receiver.toNat
    forwarded := p.forwarded + (!receiver && outcome = .bAck).toNat
    expired := p.expired + (!receiver && outcome ≠ .bAck).toNat }

theorem finishRow_ok (hrem : 0 < p.remaining)
    (hfits : p.remaining + p.forwarded + p.receiverAcked + p.expired ≤ u64Max) :
    finishRow outcome receiver p = .ok (finished outcome receiver p) := by
  have hacked : add p.receiverAcked = .ok (p.receiverAcked + 1) := add_lt (by omega)
  have hforwarded : add p.forwarded = .ok (p.forwarded + 1) := add_lt (by omega)
  have hexp : add p.expired = .ok (p.expired + 1) := add_lt (by omega)
  unfold finishRow finished
  rw [sub_pos hrem]
  cases receiver with
  | true =>
    change (add p.receiverAcked >>= _) = _
    rw [hacked]
    rfl
  | false =>
    by_cases hb : outcome = .bAck
    · subst hb
      change (add p.forwarded >>= _) = _
      rw [hforwarded]
      rfl
    · have hbind : ∀ p : BacklogProgress, add p.expired = .ok (p.expired + 1) →
          (if outcome = .bAck then (do return { p with forwarded := ← add p.forwarded } : Except DrainError _)
            else do return { p with expired := ← add p.expired }) =
          .ok { p with expired := p.expired + 1 } := by
        intro p hp
        rw [if_neg hb, hp]
        rfl
      refine (hbind { p with remaining := p.remaining - 1 } hexp).trans ?_
      simp only [Bool.not_false, Bool.true_and, hb, ne_eq, not_false_eq_true, decide_true, decide_false,
        Bool.toNat_true, Bool.toNat_false, Nat.add_zero]

theorem conserved_ok (hsched : p.scheduled = p.remaining + p.forwarded + p.receiverAcked + p.expired)
    (hfits : p.scheduled ≤ u64Max) (hrefused : p.rejected + p.evidenceRequired ≤ p.remaining) :
    conserved p = .ok () := by
  refine bind_eq_ok.mpr ⟨(), refuseWhen_eq_ok.mpr ?_, refuseWhen_eq_ok.mpr ?_⟩
  · omega
  · omega

theorem firstOutstanding_isLeast {seq : ℕ}
    (hfiled : ∀ key (row : MigrationDrainEntry), s.entries[key]? = some row → key = row.key)
    (h : s.firstOutstanding target = some seq) : IsLeast {seq | (target, seq) ∈ s.entries} seq := by
  obtain ⟨⟨key, row⟩, hfind, rfl⟩ := Option.map_eq_some_iff.mp h
  obtain ⟨hmem, htgt, hfirst⟩ := find?_of_pairwise s.entries.ordered_keys_toList hfind
  have hget := mem_toList_iff.mp hmem
  have hkey := hfiled key row hget
  have htgt : key.1 = target := of_decide_eq_true htgt
  have hsame : (target, row.entry.inboxSeq) = key := by
    rw [← htgt, hkey]
    rfl
  refine ⟨?_, fun other hother => ?_⟩
  · change (target, row.entry.inboxSeq) ∈ s.entries
    rw [hsame]
    exact mem_of_eq_some hget
  · obtain ⟨found, hfound⟩ := exists_mem_toList _ hother
    obtain heq | hlt := hfirst _ hfound (decide_eq_true rfl)
    · have hother : (target, other) = key := (Prod.mk.inj heq).1
      exact (Prod.mk.inj (hother.trans hsame.symm)).2.ge
    · rw [← hsame] at hlt
      have hlt : (compare target target).then (compare row.entry.inboxSeq other) = .lt := hlt
      rw [Std.ReflOrd.compare_self] at hlt
      exact (Nat.compare_eq_lt.mp hlt).le

theorem firstOutstanding_none (h : s.firstOutstanding target = none) (seq : ℕ) :
    (target, seq) ∉ s.entries := by
  intro hmem
  obtain ⟨found, hfound⟩ := exists_mem_toList _ hmem
  have hnone := List.find?_eq_none.mp (Option.map_eq_none_iff.mp h) _ hfound
  exact hnone (decide_eq_true rfl)

theorem Balanced.congr (h : s.Balanced cursor)
    (hcount : ∀ p, s'.outstanding cursor.target p = s.outstanding cursor.target p)
    (hmem : ∀ seq, (cursor.target, seq) ∈ s'.entries ↔ (cursor.target, seq) ∈ s.entries) :
    s'.Balanced cursor where
  remaining := h.remaining.trans (hcount _).symm
  evidenceRequired := h.evidenceRequired.trans (hcount _).symm
  rejected := h.rejected.trans (hcount _).symm
  scheduled := h.scheduled
  next := by
    have hnext := h.next
    unfold AtNext at hnext ⊢
    simp only [hmem]
    exact hnext

def Acked (s : DrainStore) (target : String) (seq : ℕ) : Prop :=
  ∃ c, s.cursors[target]? = some c ∧ seq ∈ c.ackedInboxSeqs

/-- What settling rows does to the tables. -/
structure Settles (s s' : DrainStore) : Prop where
  rows : ∀ (key : DrainKey) row', s'.entries[key]? = some row' → ∃ row : MigrationDrainEntry,
    s.entries[key]? = some row ∧ row'.anchor = row.anchor ∧
      row'.migrationId = row.migrationId ∧ row'.entry = row.entry ∧ row'.retainUntil = row.retainUntil
  acked : ∀ target seq, s.Acked target seq → s'.Acked target seq
  gone : ∀ key : DrainKey, key ∈ s.entries → key ∉ s'.entries → s'.Acked key.1 key.2
  backlog : ∀ key, key ∈ s'.backlog ↔ key ∈ s.backlog
  inbox : ∀ (key : DrainKey) item, s'.inboxRows[key]? = some item → s.inboxRows[key]? = some item

theorem Settles.refl (s : DrainStore) : Settles s s :=
  ⟨fun _ row h => ⟨row, h, rfl, rfl, rfl, rfl⟩, fun _ _ h => h, fun _ h hnot => absurd h hnot,
    fun _ => Iff.rfl, fun _ _ h => h⟩

theorem Settles.trans {s'' : DrainStore} (h : Settles s s') (h' : Settles s' s'') : Settles s s'' where
  rows key row'' hget := by
    obtain ⟨row', hget', h1, h2, h3, h4⟩ := h'.rows key row'' hget
    obtain ⟨row, hget, h1', h2', h3', h4'⟩ := h.rows key row' hget'
    exact ⟨row, hget, h1.trans h1', h2.trans h2', h3.trans h3', h4.trans h4'⟩
  acked target seq hacked := h'.acked target seq (h.acked target seq hacked)
  gone key hmem hnot := by
    by_cases hmiddle : key ∈ s'.entries
    · exact h'.gone key hmiddle hnot
    · exact h'.acked _ _ (h.gone key hmem hmiddle)
  backlog key := (h'.backlog key).trans (h.backlog key)
  inbox key item hget := h.inbox key item (h'.inbox key item hget)

/-- Accounts of all mailboxes after a change of one row and its cursor. -/
theorem Accounted.update (hs : s.Accounted) (hcurs : s.backlog[row.cursorKey]? = some cursor)
    {next : MigrationBacklogCursor} (hnext : next.key = cursor.key)
    (hsched : next.progress.scheduled = cursor.progress.scheduled)
    (hbacklog : s'.backlog = s.backlog.insert row.cursorKey next)
    (hfiled : ∀ (key : DrainKey) row', s'.entries[key]? = some row' →
      key = row'.key ∧ ∃ old : MigrationDrainEntry, s.entries[key]? = some old ∧
        row'.cursorKey = old.cursorKey)
    (hcount : ∀ target p, target ≠ row.entry.target → s'.outstanding target p = s.outstanding target p)
    (hmem : ∀ target seq, target ≠ row.entry.target →
      ((target, seq) ∈ s'.entries ↔ (target, seq) ∈ s.entries))
    (hbalanced : s'.Balanced next) : s'.Accounted := by
  have howner := hs.owner _ _ hcurs
  have htgt : next.target = cursor.target := (Prod.mk.inj (Prod.mk.inj hnext).2).2
  have hrow : cursor.target = row.entry.target :=
    (Prod.mk.inj (Prod.mk.inj howner).2).2.symm
  have hcases : ∀ key (found : MigrationBacklogCursor), s'.backlog[key]? = some found →
      (key = row.cursorKey ∧ found = next) ∨
      (key ≠ row.cursorKey ∧ s.backlog[key]? = some found ∧
        found.target ≠ row.entry.target) := by
    intro key found hget
    rw [hbacklog] at hget
    obtain ⟨rfl, rfl⟩ | ⟨hkey, hold⟩ := eq_some_of_insert hget
    · exact .inl ⟨rfl, rfl⟩
    · refine .inr ⟨hkey.symm, hold, fun hsame => hkey ?_⟩
      exact (hs.single _ _ _ _ hold hcurs (hsame.trans hrow.symm)).symm
  refine ⟨fun key row' hget => ?_, fun key found hget => ?_, fun key key' found found' hget hget' hsame => ?_,
    fun key found hget => ?_, fun key found hget => ?_⟩
  · obtain ⟨hkey, old, hold, hcursorKey⟩ := hfiled key row' hget
    refine ⟨hkey, ?_⟩
    rw [hcursorKey, hbacklog]
    exact mem_insert.mpr (.inr (hs.filed key old hold).2)
  · obtain ⟨rfl, rfl⟩ | ⟨-, hold, -⟩ := hcases key found hget
    · exact howner.trans hnext.symm
    · exact hs.owner key found hold
  · obtain ⟨rfl, rfl⟩ | ⟨-, hold, hother⟩ := hcases key found hget
    · obtain ⟨rfl, rfl⟩ | ⟨-, hold', hother'⟩ := hcases key' found' hget'
      · rfl
      · exact absurd (hsame.symm.trans (htgt.trans hrow)) hother'
    · obtain ⟨rfl, rfl⟩ | ⟨-, hold', -⟩ := hcases key' found' hget'
      · exact absurd (hsame.trans (htgt.trans hrow)) hother
      · exact hs.single key key' found found' hold hold' hsame
  · obtain ⟨rfl, rfl⟩ | ⟨-, hold, -⟩ := hcases key found hget
    · exact hsched ▸ hs.fits _ _ hcurs
    · exact hs.fits key found hold
  · obtain ⟨rfl, rfl⟩ | ⟨-, hold, hother⟩ := hcases key found hget
    · exact hbalanced
    · exact (hs.balanced key found hold).congr (fun p => hcount _ p hother) fun seq => hmem _ seq hother

/-- Counts of a mailbox without the row: those of other mailboxes do not change. -/
theorem outstanding_other (hrow : s.entries[row.key]? = some row)
    (hother : target ≠ row.entry.target) (p : MigrationDrainEntry → Bool) :
    count (s.entries.erase row.key) (mailbox target p) = s.outstanding target p := by
  have herase := count_erase s.entries (mailbox target p) hrow
  have hrow : mailbox target p row.key row = false := by
    unfold mailbox
    rw [show decide (row.key.1 = target) = false from decide_eq_false (Ne.symm hother), Bool.false_and]
  rw [hrow] at herase
  exact herase.symm

/-- Counters of a row's cursor: what the other rows of the mailbox give, and the row's own part. -/
structure Counted (s : DrainStore) (row : MigrationDrainEntry) (cursor : MigrationBacklogCursor) : Prop where
  target : row.entry.target = cursor.target
  remaining : cursor.progress.remaining =
    count (s.entries.erase row.key) (mailbox cursor.target fun _ => true) + 1
  evidenceRequired : cursor.progress.evidenceRequired =
    count (s.entries.erase row.key) (mailbox cursor.target (·.state = .held)) + inState .held row
  rejected : cursor.progress.rejected =
    count (s.entries.erase row.key) (mailbox cursor.target (·.state = .rejected)) +
      inState .rejected row

theorem finished_sum (outcome : MigrationDrainOutcome) (receiver : Bool) (p : BacklogProgress) :
    (finished outcome receiver p).forwarded + (finished outcome receiver p).receiverAcked +
      (finished outcome receiver p).expired = p.forwarded + p.receiverAcked + p.expired + 1 := by
  have hone : (!receiver && outcome = .bAck).toNat + receiver.toNat + (!receiver && outcome ≠ .bAck).toNat = 1 := by
    cases receiver <;> cases outcome <;> rfl
  dsimp only [finished]
  omega

section
variable (hs : s.Accounted) (hrow : s.entries[row.key]? = some row)
  (hcurs : s.backlog[row.cursorKey]? = some cursor)
include hs hrow hcurs

theorem Accounted.counted : s.Counted row cursor := by
  have htgt : row.entry.target = cursor.target :=
    (Prod.mk.inj (Prod.mk.inj (hs.owner _ _ hcurs)).2).2
  have hbal := hs.balanced _ _ hcurs
  have hcount : ∀ p, s.outstanding cursor.target p =
      count (s.entries.erase row.key) (mailbox cursor.target p) + (p row).toNat := by
    intro p
    have herase := count_erase s.entries (mailbox cursor.target p) hrow
    have hrow : mailbox cursor.target p row.key row = p row := by
      unfold mailbox
      rw [show row.key.1 = cursor.target from htgt, decide_eq_true rfl, Bool.true_and]
    rwa [hrow] at herase
  exact ⟨htgt, hbal.remaining.trans (hcount _), hbal.evidenceRequired.trans (hcount _),
    hbal.rejected.trans (hcount _)⟩

theorem settleRow_accounted {next : MigrationBacklogCursor} (hnext : next = { cursor with
      nextSeq := ((s.settleRow row cursor.highWater).firstOutstanding row.entry.target).getD
        (satAdd cursor.highWater 1)
      progress := finished outcome receiver { cursor.progress with
        evidenceRequired := cursor.progress.evidenceRequired - inState .held row
        rejected := cursor.progress.rejected - inState .rejected row } })
    (hs' : s' = { s.settleRow row cursor.highWater with
      backlog := s.backlog.insert row.cursorKey next }) :
    s'.Accounted ∧ Settles s s' := by
  obtain ⟨htgt, hrem, hheld, hrejected⟩ := hs.counted hrow hcurs
  have hents : s'.entries = s.entries.erase row.key := by
    rw [hs']
    rfl
  have hcount : ∀ target p, s'.outstanding target p =
      count (s.entries.erase row.key) (mailbox target p) := by
    intro target p
    unfold outstanding
    rw [hents]
  have hfiled : ∀ (key : DrainKey) row', s'.entries[key]? = some row' → s.entries[key]? = some row' := by
    intro key row' hget
    rw [hents] at hget
    exact (eq_some_of_erase hget).2
  have hmem : ∀ key : DrainKey, key ∈ s'.entries ↔ key ≠ row.key ∧ key ∈ s.entries := by
    intro key
    rw [hents]
    exact mem_erase_iff
  have hbalanced : s'.Balanced next := by
    have hsched := (hs.balanced _ _ hcurs).scheduled
    have hsum := finished_sum outcome receiver cursor.progress
    subst hnext
    refine ⟨?_, ?_, ?_, ?_, ?_⟩
    · exact (congrArg (· - 1) hrem).trans (hcount _ _).symm
    · exact (Nat.sub_eq_of_eq_add hheld).trans (hcount _ _).symm
    · exact (Nat.sub_eq_of_eq_add hrejected).trans (hcount _ _).symm
    · change cursor.progress.scheduled = cursor.progress.remaining - 1 +
        (finished outcome receiver cursor.progress).forwarded +
        (finished outcome receiver cursor.progress).receiverAcked +
        (finished outcome receiver cursor.progress).expired
      omega
    · unfold AtNext
      rw [if_neg (by
        unfold finished
        dsimp only
        omega)]
      have hlist : ∀ target, (s.settleRow row cursor.highWater).firstOutstanding target =
          s'.firstOutstanding target := by
        intro target
        rw [hs']
        rfl
      rw [hlist]
      rw [htgt]
      cases hfirst : s'.firstOutstanding cursor.target with
      | some seq =>
        refine .inl (firstOutstanding_isLeast (fun key row' hget => ?_) hfirst)
        exact (hs.filed key row' (hfiled key row' hget)).1
      | none => exact .inr ⟨firstOutstanding_none hfirst, rfl⟩
  refine ⟨hs.update hcurs (hnext ▸ rfl) (hnext ▸ rfl) (hs' ▸ rfl) (fun key row' hget => ?_)
    (fun target p hother => ?_) (fun target seq hother => ?_) hbalanced, ?_⟩
  · have hold := hfiled key row' hget
    exact ⟨(hs.filed key row' hold).1, row', hold, rfl⟩
  · rw [hcount]
    exact outstanding_other hrow hother p
  · rw [hmem]
    exact and_iff_right fun hkey => hother (Prod.mk.inj hkey).1
  · have hcursors : ∀ target, s'.cursors[target]? = if row.entry.target = target then
        some (s.acknowledge row cursor.highWater) else s.cursors[target]? := by
      intro target
      rw [hs']
      exact getElem?_insert_eq _ _ _ _
    refine ⟨fun key row' hget => ?_, fun target seq hacked => ?_, fun key hin hout => ?_, fun key => ?_,
      fun key item hget => ?_⟩
    · exact ⟨row', hfiled key row' hget, rfl, rfl, rfl, rfl⟩
    · obtain ⟨c, hc, hseq⟩ := hacked
      unfold Acked
      rw [hcursors]
      split_ifs with hsame
      · refine ⟨_, rfl, OrdSet.mem_insert_iff.mpr (.inr ?_)⟩
        rw [hsame, hc]
        exact hseq
      · exact ⟨c, hc, hseq⟩
    · have hkey : key = row.key := by
        by_contra hne
        exact hout ((hmem key).mpr ⟨hne, hin⟩)
      rw [hkey]
      refine ⟨_, (hcursors _).trans (if_pos rfl), OrdSet.mem_insert_iff.mpr (.inl rfl)⟩
    · rw [hs']
      exact mem_insert_of_mem (mem_of_eq_some hcurs) _ _
    · rw [hs'] at hget
      exact (eq_some_of_erase hget).2

theorem retryRow_accounted {next : MigrationBacklogCursor} (hnext : next = { cursor with
      progress := { cursor.progress with
        evidenceRequired := cursor.progress.evidenceRequired - inState .held row +
          inState .held (retryRow row outcome now)
        rejected := cursor.progress.rejected - inState .rejected row +
          inState .rejected (retryRow row outcome now) } })
    (hs' : s' = { s with
      entries := s.entries.insert row.key (retryRow row outcome now)
      backlog := s.backlog.insert row.cursorKey next }) :
    s'.Accounted ∧ Settles s s' := by
  obtain ⟨htgt, hrem, hheld, hrejected⟩ := hs.counted hrow hcurs
  have hbal := hs.balanced _ _ hcurs
  have hents : s'.entries = s.entries.insert row.key (retryRow row outcome now) := by
    rw [hs']
  have hfiled : ∀ (key : DrainKey) row', s'.entries[key]? = some row' →
      (key = row.key ∧ row' = retryRow row outcome now) ∨ s.entries[key]? = some row' := by
    intro key row' hget
    rw [hents] at hget
    exact (eq_some_of_insert hget).imp (fun h => ⟨h.1.symm, h.2.symm⟩) And.right
  have hmem : ∀ key : DrainKey, key ∈ s'.entries ↔ key ∈ s.entries := by
    intro key
    rw [hents]
    exact mem_insert_of_mem (mem_of_eq_some hrow) _ _
  have hcount : ∀ target p, s'.outstanding target p =
      count (s.entries.erase row.key) (mailbox target p) +
        (row.entry.target = target && p (retryRow row outcome now)).toNat := by
    intro target p
    unfold outstanding
    rw [hents]
    exact count_insert_erase s.entries _
  have hbalanced : s'.Balanced next := by
    have hown := hcount cursor.target
    simp only [htgt, decide_true, Bool.true_and] at hown
    subst hnext
    refine ⟨hrem.trans (hown _).symm, ?_, ?_, hbal.scheduled, ?_⟩
    · exact (congrArg (· + _) (Nat.sub_eq_of_eq_add hheld)).trans (hown _).symm
    · exact (congrArg (· + _) (Nat.sub_eq_of_eq_add hrejected)).trans (hown _).symm
    · have hat := hbal.next
      unfold AtNext at hat ⊢
      simp only [hmem]
      exact hat
  refine ⟨hs.update hcurs (hnext ▸ rfl) (hnext ▸ rfl) (hs' ▸ rfl) (fun key row' hget => ?_)
    (fun target p hother => ?_) (fun target seq _ => hmem _) hbalanced, ?_⟩
  · obtain ⟨rfl, rfl⟩ | hold := hfiled key row' hget
    · exact ⟨rfl, row, hrow, rfl⟩
    · exact ⟨(hs.filed key row' hold).1, row', hold, rfl⟩
  · rw [hcount, outstanding_other hrow hother, decide_eq_false (Ne.symm hother)]
    rfl
  · refine ⟨fun key row' hget => ?_, fun target seq hacked => ?_,
      fun key hin hout => absurd ((hmem key).mpr hin) hout, fun key => ?_, fun key item hget => ?_⟩
    · obtain ⟨rfl, rfl⟩ | hold := hfiled key row' hget
      · exact ⟨row, hrow, rfl, rfl, rfl, rfl⟩
      · exact ⟨row', hold, rfl, rfl, rfl, rfl⟩
    · rw [hs']
      exact hacked
    · rw [hs']
      exact mem_insert_of_mem (mem_of_eq_some hcurs) _ _
    · rw [hs'] at hget
      exact hget

end

/-- Settling an outstanding row succeeds, unless it expires too early. -/
theorem apply_spec (hs : s.Accounted) (hrow : s.entries[row.key]? = some row) :
    (outcome = .expired ∧ receiver = false ∧ (i64Max < now ∨ now < row.retainUntil) ∧
      ∃ text, s.apply row outcome now receiver = .error (.storage text)) ∨
    ¬ (outcome = .expired ∧ receiver = false ∧ (i64Max < now ∨ now < row.retainUntil)) ∧
      ∃ s', s.apply row outcome now receiver = .ok s' ∧ s'.Accounted ∧ Settles s s' := by
  obtain ⟨cursor, hcurs⟩ := mem_iff_exists.mp (hs.filed _ _ hrow).2
  have happly : s.apply row outcome now receiver = s.applyCursor row cursor outcome now receiver := by
    unfold apply
    rw [hcurs]
  rw [happly]
  unfold applyCursor refuseWhen
  by_cases hwide : outcome = .expired ∧ receiver = false ∧ i64Max < now
  · rw [if_pos hwide]
    exact .inl ⟨hwide.1, hwide.2.1, .inl hwide.2.2, _, rfl⟩
  by_cases hearly : outcome = .expired ∧ receiver = false ∧ now < row.retainUntil
  · rw [if_neg hwide, if_pos hearly]
    exact .inl ⟨hearly.1, hearly.2.1, .inr hearly.2.2, _, rfl⟩
  rw [if_neg hwide, if_neg hearly]
  refine .inr ⟨fun h => h.2.2.elim (fun h' => hwide ⟨h.1, h.2.1, h'⟩) fun h' => hearly ⟨h.1, h.2.1, h'⟩, ?_⟩
  have hfits := hs.fits _ _ hcurs
  have hsched := (hs.balanced _ _ hcurs).scheduled
  obtain ⟨-, hrem, hheld, hrejected⟩ := hs.counted hrow hcurs
  have hothers := refused_le (s.entries.erase row.key) cursor.target
  have hleave : leaveState row.state cursor.progress = .ok { cursor.progress with
      evidenceRequired := cursor.progress.evidenceRequired - inState .held row
      rejected := cursor.progress.rejected - inState .rejected row } := by
    refine leaveState_ok ?_ ?_
    · omega
    · omega
  rw [hleave]
  by_cases hterm : terminal outcome receiver
  · obtain ⟨haccounted, hsettles⟩ := @settleRow_accounted s _ row cursor outcome receiver hs hrow hcurs _
      rfl rfl
    refine ⟨_, (if_pos hterm).trans ?_, haccounted, hsettles⟩
    refine bind_eq_ok.mpr ⟨_, finishRow_ok ?_ ?_, bind_eq_ok.mpr ⟨(), conserved_ok ?_ ?_ ?_, rfl⟩⟩
    · change 0 < cursor.progress.remaining
      omega
    · dsimp only
      omega
    · exact (haccounted.balanced _ _ getElem?_insert_self).scheduled
    · exact hfits
    · unfold finished
      dsimp only
      omega
  · obtain ⟨haccounted, hsettles⟩ := @retryRow_accounted s _ row cursor outcome now hs hrow hcurs _
      rfl rfl
    refine ⟨_, (if_neg hterm).trans ?_, haccounted, hsettles⟩
    refine bind_eq_ok.mpr ⟨_, enterState_ok ?_ ?_, bind_eq_ok.mpr ⟨(), conserved_ok ?_ ?_ ?_, rfl⟩⟩
    · dsimp only
      omega
    · dsimp only
      omega
    · exact hsched
    · exact hfits
    · have hnext := haccounted.balanced _ _ getElem?_insert_self
      have hle := refused_le (s.entries.insert row.key (retryRow row outcome now)) cursor.target
      have hcounts := congrArg₂ (· + ·) hnext.rejected hnext.evidenceRequired
      exact hcounts.trans_le (hle.trans hnext.remaining.ge)

end DrainStore

end Ramflux.Home
