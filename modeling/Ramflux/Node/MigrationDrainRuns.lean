import Ramflux.Node.MigrationDrainAccount

/-! Runs of captures and settlements: conservation of a migration's backlog. -/
namespace Ramflux.Home
open Fallible Custody OrdMap List Except Std.ExtTreeMap

namespace DrainStore
variable {s s' : DrainStore} {row : MigrationDrainEntry} {outcome : MigrationDrainOutcome} {now : ℕ}

theorem Accounted.clocked (hs : s.Accounted) (time : ℕ) : Accounted { s with floor := time } := by
  refine ⟨hs.filed, hs.owner, hs.single, hs.fits, fun key cursor hget => ?_⟩
  have hbal := hs.balanced key cursor hget
  exact ⟨hbal.remaining, hbal.evidenceRequired, hbal.rejected, hbal.scheduled, hbal.next⟩

theorem Settles.clocked (time : ℕ) (h : Settles { s with floor := time } s') : Settles s s' :=
  ⟨h.rows, h.acked, h.gone, h.backlog, h.inbox⟩

/-- Two rows of one obligation, however often each was tried. -/
def SameObligation (row row' : MigrationDrainEntry) : Prop :=
  row'.anchor = row.anchor ∧ row'.migrationId = row.migrationId ∧ row'.entry = row.entry

variable {lease checkpoint : Option String}

section
variable (hs : s.Accounted)
include hs

/-- A settlement keeps the accounts, expires nothing early, and never finds a backlog row corrupt. -/
theorem settle_spec {result : Except DrainError DrainStore} :
    s.settleMigrationDrain row outcome now lease checkpoint = result → match result with
    | .ok s' => s'.Accounted ∧ Settles s s' ∧ (outcome = .expired → ∀ current : MigrationDrainEntry,
        s.entries[row.key]? = some current → current.retainUntil ≤ (max now s.floor : ℕ))
    | .error e => (∀ current : MigrationDrainEntry, s.entries[row.key]? = some current →
        SameObligation row current) → ∀ text, e ≠ .migrationDrainCorrupt text := by
  rintro rfl
  unfold settleMigrationDrain refuseWhen clock
  by_cases hlease : terminal outcome false ∧ lease.isSome
  · rw [if_pos hlease]
    exact fun _ => nofun
  by_cases hclock : maxSafeJsonInteger < now
  · rw [if_neg hlease, if_pos hclock]
    exact fun _ => nofun
  rw [if_neg hlease, if_neg hclock]
  cases hcur : s.entries[row.key]? with
  | none => exact ⟨hs, .refl s, fun _ => nofun⟩
  | some current =>
    by_cases hstale : current.anchor ≠ row.anchor ∨
        current.migrationId ≠ row.migrationId ∨ current.entry ≠ row.entry
    · simp only [bind, Except.bind, if_pos hstale]
      intro hrow
      obtain ⟨hanchor, hmigration, hentry⟩ := hrow current rfl
      exact absurd hstale (by simp [hanchor, hmigration, hentry])
    simp only [bind, Except.bind, if_neg hstale]
    by_cases hcheckpoint : terminal outcome false ∧ checkpoint.isSome
    · rw [if_pos hcheckpoint]
      exact fun _ => nofun
    rw [if_neg hcheckpoint]
    rw [(hs.filed _ _ hcur).1] at hcur
    obtain ⟨-, -, -, text, herror⟩ | ⟨hallowed, next, hok, haccounted, hsettles⟩ :=
      @apply_spec _ current outcome false _ (hs.clocked (max now s.floor)) hcur
    · rw [herror]
      exact fun _ => nofun
    · rw [hok]
      refine ⟨haccounted, hsettles.clocked, ?_⟩
      rintro hexp _ ⟨⟩
      by_contra hearly
      exact hallowed ⟨hexp, rfl, .inr (Int.not_le.mp hearly)⟩

theorem receiverAck_spec (target : String) (seq : ℕ) :
    ∃ s', s.receiverAck target seq = .ok s' ∧ s'.Accounted ∧ Settles s s' := by
  unfold receiverAck
  cases hrow : s.entries[(target, seq)]? with
  | none => exact ⟨s, rfl, hs, .refl s⟩
  | some row =>
    rw [(hs.filed _ _ hrow).1] at hrow
    obtain ⟨hexp, -⟩ | ⟨-, hsett⟩ := @apply_spec s row .bAck true 0 hs hrow
    · cases hexp
    · exact hsett

end

theorem receiverAcks_spec (target : String) (seqs : List ℕ) (hs : s.Accounted) :
    ∃ s', seqs.foldlM (fun s seq => s.receiverAck target seq) s = .ok s' ∧ s'.Accounted ∧ Settles s s' := by
  induction seqs generalizing s with
  | nil => exact ⟨s, rfl, hs, .refl s⟩
  | cons seq seqs ih =>
    obtain ⟨middle, hmiddle, haccounted, hsettles⟩ := receiverAck_spec hs target seq
    obtain ⟨s', hs', haccounted', hsettles'⟩ := ih haccounted
    exact ⟨s', bind_eq_ok.mpr ⟨middle, hmiddle, hs'⟩, haccounted', hsettles.trans hsettles'⟩

theorem receiverSettled_spec (hs : s.Accounted) (cursor : CursorAckState) :
    ∃ s', s.receiverSettled cursor = .ok s' ∧ s'.Accounted ∧ Settles s s' :=
  receiverAcks_spec _ _ hs

variable {cursor : MigrationBacklogCursor} {labels : List (List MigrationDrainEntry × List DrainKey)}

theorem captureEntries_filed {logged : List (InboxEntry × ℤ)}
    (hrows : ∀ (key : DrainKey) item, s.inboxRows[key]? = some item →
      key = (item.1.target, item.1.inboxSeq))
    (hlogged : ∀ item ∈ logged, item.1.target = cursor.target) :
    ∀ item ∈ (s.captureEntries logged cursor).toList,
      item.2.1.inboxSeq = item.1 ∧ item.2.1.target = cursor.target := by
  rintro ⟨seq, item⟩ hitem
  obtain ⟨hfound, hseq⟩ | hnone := eq_some_of_foldl_insert (mem_toList_iff.mp hitem)
  · refine ⟨hseq, ?_⟩
    obtain hfound | hfound := mem_append.mp hfound
    · exact hlogged item hfound
    · obtain ⟨⟨key, found⟩, hmem, rfl⟩ := mem_map.mp hfound
      obtain ⟨hmem, hselected⟩ := mem_filter.mp hmem
      have hkey := hrows key found (mem_toList_iff.mp hmem)
      have htgt : key.1 = cursor.target := (of_decide_eq_true hselected).1
      rw [← htgt, hkey]
  · cases hnone

/-- State of a capture: rows are added for the mailboxes done, pending and counted. -/
structure Captures (s : DrainStore) (done : List MigrationBacklogCursor) (s' : DrainStore) : Prop where
  floor : s'.floor = s.floor
  backlog : s'.backlog = s.backlog
  cursors : s'.cursors = s.cursors
  inboxRows : s'.inboxRows = s.inboxRows
  rows : ∀ (key : DrainKey) row, s'.entries[key]? = some row → s.entries[key]? = some row ∨
    key ∉ s.entries ∧ key = row.key ∧ row.state = .pending ∧ ∃ cursor ∈ done, row.cursorKey = cursor.key
  kept : ∀ (key : DrainKey) row, s.entries[key]? = some row → s'.entries[key]? = some row

theorem Captures.refl (s : DrainStore) : Captures s [] s :=
  ⟨rfl, rfl, rfl, rfl, fun _ _ h => .inl h, fun _ _ h => h⟩

variable {s'' : DrainStore} {done done' : List MigrationBacklogCursor}

theorem Captures.trans (h : Captures s done s') (h' : Captures s' done' s'') : Captures s
    (done ++ done') s'' where
  floor := h'.floor.trans h.floor
  backlog := h'.backlog.trans h.backlog
  cursors := h'.cursors.trans h.cursors
  inboxRows := h'.inboxRows.trans h.inboxRows
  rows key row hget := by
    obtain hold | ⟨hnew, hkey, hstate, cursor, hcurs, hown⟩ := h'.rows key row hget
    · obtain hold | ⟨hnew, hkey, hstate, cursor, hcurs, hown⟩ := h.rows key row hold
      · exact .inl hold
      · exact .inr ⟨hnew, hkey, hstate, cursor, mem_append_left _ hcurs, hown⟩
    · refine .inr ⟨fun hmem => hnew ?_, hkey, hstate, cursor, mem_append_right _ hcurs, hown⟩
      obtain ⟨found, hfound⟩ := mem_iff_exists.mp hmem
      exact mem_of_eq_some (h.kept key found hfound)
  kept key row hget := h'.kept key row (h.kept key row hget)

/-- Other mailboxes are left alone. -/
def Elsewhere (s s' : DrainStore) (target : String) : Prop :=
  (∀ other p, other ≠ target → s'.outstanding other p = s.outstanding other p) ∧
    ∀ other seq, other ≠ target → ((other, seq) ∈ s'.entries ↔ (other, seq) ∈ s.entries)

variable {settled : CursorAckState}

theorem Captures.mono (h : Captures s done s')
    (hsub : ∀ cursor ∈ done, cursor ∈ done') : Captures s done' s' := by
  refine ⟨h.floor, h.backlog, h.cursors, h.inboxRows, fun key row hget => ?_, h.kept⟩
  obtain hold | ⟨hnew, hkey, hstate, cursor, hcurs, hown⟩ := h.rows key row hget
  · exact .inl hold
  · exact .inr ⟨hnew, hkey, hstate, cursor, hsub cursor hcurs, hown⟩

theorem Elsewhere.trans {target : String} (h : Elsewhere s s' target)
    (h' : Elsewhere s' s'' target) : Elsewhere s s'' target :=
  ⟨fun other p hother => (h'.1 other p hother).trans (h.1 other p hother),
    fun other seq hother => (h'.2 other seq hother).trans (h.2 other seq hother)⟩

/-- Rows of one mailbox were added, as many as counted. -/
structure CapturesMailbox (cursor : MigrationBacklogCursor) (before after : DrainStore × ℕ) : Prop where
  captures : Captures before.1 [cursor] after.1
  elsewhere : Elsewhere before.1 after.1 cursor.target
  counted : after.1.outstanding cursor.target (fun _ => true) + before.2 =
    before.1.outstanding cursor.target (fun _ => true) + after.2

variable {acc acc' acc'' : DrainStore × ℕ}

theorem CapturesMailbox.refl : CapturesMailbox cursor acc acc :=
  ⟨(Captures.refl _).mono nofun, ⟨fun _ _ _ => rfl, fun _ _ _ => Iff.rfl⟩, rfl⟩

theorem CapturesMailbox.trans (h : CapturesMailbox cursor acc acc') (h' : CapturesMailbox cursor acc' acc'') :
    CapturesMailbox cursor acc acc'' := by
  refine ⟨(h.captures.trans h'.captures).mono (by simp), h.elsewhere.trans h'.elsewhere, ?_⟩
  have hfirst := h.counted
  have hsecond := h'.counted
  omega

theorem captureRow_ok {item : ℕ × (InboxEntry × ℤ)} (hitem : item.2.1.inboxSeq = item.1 ∧
      item.2.1.target = cursor.target)
    (h : captureRow cursor settled now acc item = .ok acc') : CapturesMailbox cursor acc acc' := by
  obtain ⟨s, count⟩ := acc
  obtain ⟨seq, entry, retainUntil⟩ := item
  obtain ⟨hseq, htgt⟩ := hitem
  unfold captureRow at h
  dsimp only at h
  split_ifs at h with hhigh hwide hskip
  · cases h
    exact .refl
  · cases h
    exact .refl
  · obtain ⟨_, hfresh, h⟩ := bind_eq_ok.mp h
    cases h
    have hfresh : s.entries[(cursor.target, seq)]? = none := by
      have hnot := refuseWhen_eq_ok.mp hfresh
      rwa [Option.not_isSome_iff_eq_none] at hnot
    have hmissing : (cursor.target, seq) ∉ s.entries := by
      rw [mem_iff_exists, hfresh]
      rintro ⟨_, hnone⟩
      cases hnone
    refine ⟨⟨rfl, rfl, rfl, rfl, fun key row hget => ?_, fun key row hget => ?_⟩,
      ⟨fun other p hother => ?_, fun other q hother => ?_⟩, ?_⟩
    · obtain ⟨hkey, rfl⟩ | ⟨-, hget⟩ := eq_some_of_insert hget
      · refine .inr ⟨hkey ▸ hmissing, ?_, rfl, cursor, .head _, ?_⟩
        · change key = (entry.target, entry.inboxSeq)
          rw [← hkey, htgt, hseq]
        · change (_, _, entry.target) = _
          rw [htgt]
          rfl
      · exact .inl hget
    · rw [getElem?_insert_eq, if_neg, hget]
      rintro rfl
      rw [hfresh] at hget
      cases hget
    · refine (count_insert s.entries _ hfresh).trans ?_
      rw [decide_eq_false (Ne.symm hother)]
      rfl
    · rw [mem_insert, Std.LawfulEqCmp.compare_eq_iff_eq]
      refine or_iff_right fun hkey => hother ?_
      exact (Prod.mk.inj hkey).1.symm
    · have hcount := count_insert s.entries
        (fun key (row : MigrationDrainEntry) => key.1 = cursor.target && true) hfresh
          (v := ⟨cursor.anchor, cursor.migrationId, entry, retainUntil, .pending, 0, now⟩)
      rw [decide_eq_true rfl] at hcount
      unfold outstanding
      dsimp only
      rw [hcount]
      change _ + 1 + count = _ + (count + 1)
      omega

/-- What the log shows of a mailbox belongs to it. -/
def Logged (wal : String → Except DrainError (List (InboxEntry × ℤ))) : Prop :=
  ∀ target logged, wal target = .ok logged → ∀ item ∈ logged, item.1.target = target

/-- Stored deliveries are filed under their own key. -/
def Filed (s : DrainStore) : Prop :=
  ∀ (key : DrainKey) item, s.inboxRows[key]? = some item → key = (item.1.target, item.1.inboxSeq)

variable {wal : String → Except DrainError (List (InboxEntry × ℤ))}

theorem captureCursor_ok (hwal : Logged wal) (hrows : s.Filed)
    (h : captureCursor wal now s cursor = .ok s') :
    Captures s [cursor] s' ∧ Elsewhere s s' cursor.target ∧
      s'.outstanding cursor.target (fun _ => true) =
        s.outstanding cursor.target (fun _ => true) + cursor.progress.remaining := by
  obtain ⟨logged, hlogged, h⟩ := bind_eq_ok.mp h
  obtain ⟨⟨next, count⟩, hfold, h⟩ := bind_eq_ok.mp h
  obtain ⟨hcount, h⟩ := not_refused h
  cases h
  have hcount : count = cursor.progress.remaining := not_not.mp hcount
  have hitems := captureEntries_filed hrows (hwal _ _ hlogged)
  obtain ⟨hcaptures, helsewhere, hsum⟩ := foldlM_ok hfold (.refl : CapturesMailbox cursor _ _)
    fun _ item _ hitem hdone hrow => hdone.trans (captureRow_ok (hitems item hitem) hrow)
  exact ⟨hcaptures, helsewhere, hcount ▸ hsum⟩

/-- Capture of mailboxes that differ from each other and have no rows yet. -/
theorem capture_ok {wal : String → Except DrainError (List (InboxEntry × ℤ))}
    {cursors : List MigrationBacklogCursor} (hwal : Logged wal) (hrows : s.Filed)
    (hdistinct : (cursors.map (·.target)).Nodup) (h : s.capture wal cursors now = .ok s') :
    Captures s cursors s' ∧
    (∀ target, target ∉ cursors.map (·.target) → (∀ p, s'.outstanding target p = s.outstanding target p) ∧
      ∀ seq, (target, seq) ∈ s'.entries ↔ (target, seq) ∈ s.entries) ∧
    ∀ cursor ∈ cursors, s'.outstanding cursor.target (fun _ => true) =
      s.outstanding cursor.target (fun _ => true) + cursor.progress.remaining := by
  induction cursors generalizing s with
  | nil =>
    obtain rfl := ok.inj h
    exact ⟨.refl s, fun _ _ => ⟨fun _ => rfl, fun _ => Iff.rfl⟩, nofun⟩
  | cons first cursors ih =>
    obtain ⟨middle, hmiddle, h⟩ := bind_eq_ok.mp h
    rw [map_cons, nodup_cons] at hdistinct
    obtain ⟨hcaptures, helsewhere, hcount⟩ := captureCursor_ok hwal hrows hmiddle
    have hrows' : middle.Filed := by
      unfold Filed
      rw [hcaptures.inboxRows]
      exact hrows
    obtain ⟨hcaptures', helsewhere', hcount'⟩ := ih hrows' hdistinct.2 h
    refine ⟨hcaptures.trans hcaptures', fun target htgt => ?_, fun cursor hcurs => ?_⟩
    · rw [map_cons, mem_cons, not_or] at htgt
      obtain ⟨hcounts, hmem⟩ := helsewhere' target htgt.2
      exact ⟨fun p => (hcounts p).trans (helsewhere.1 target p htgt.1),
        fun seq => (hmem seq).trans (helsewhere.2 target seq htgt.1)⟩
    · obtain rfl | hcurs := mem_cons.mp hcurs
      · rw [(helsewhere' _ hdistinct.1).1, hcount]
      · have hother : cursor.target ≠ first.target := by
          intro hsame
          exact hdistinct.1 (hsame ▸ mem_map_of_mem hcurs)
        rw [hcount' cursor hcurs, helsewhere.1 _ _ hother]

/-- A backlog as handed over: counted mailboxes, each once and none with a cursor yet. -/
structure Starts (s : DrainStore) (cursors : List MigrationBacklogCursor) : Prop where
  start : ∀ cursor ∈ cursors, ∃ anchor migrationId target highWater pending, pending ≤ u64Max ∧
    cursor = .start anchor migrationId target highWater pending
  distinct : (cursors.map (·.target)).Nodup
  fresh : ∀ cursor ∈ cursors, ∀ (key : CursorKey) found, s.backlog[key]? = some found →
    found.target ≠ cursor.target

/-- What a capture leaves. -/
structure CapturesBacklog (s : DrainStore) (started : List MigrationBacklogCursor) (s' : DrainStore) :
    Prop where
  cursors : s'.cursors = s.cursors
  inboxRows : s'.inboxRows = s.inboxRows
  rows : ∀ (key : DrainKey) row, s'.entries[key]? = some row → s.entries[key]? = some row ∨
    key ∉ s.entries ∧ key = row.key ∧ ∃ cursor ∈ started, row.cursorKey = cursor.key
  kept : ∀ (key : DrainKey) row, s.entries[key]? = some row → s'.entries[key]? = some row
  backlog : ∀ key, key ∈ s'.backlog ↔ key ∈ s.backlog ∨ ∃ cursor ∈ started, key = cursor.key

variable {cursors : List MigrationBacklogCursor}

theorem captureBacklog_ok (hs : s.Accounted) (hwal : Logged wal) (hrows : s.Filed)
    (hstarts : s.Starts cursors) (h : s.captureBacklog wal cursors now = .ok s') :
    s'.Accounted ∧ CapturesBacklog s cursors s' := by
  obtain ⟨time, -, h⟩ := bind_eq_ok.mp h
  obtain ⟨middle, hmiddle, h⟩ := bind_eq_ok.mp h
  cases h
  obtain ⟨hcaptures, helsewhere, hcount⟩ :=
    @capture_ok { s with floor := time } _ _ _ _ hwal hrows hstarts.distinct hmiddle
  have hbacklog : middle.backlog = s.backlog := hcaptures.backlog
  -- a mailbox without cursor has no rows
  have hempty : ∀ cursor ∈ cursors, ∀ (key : DrainKey) row, s.entries[key]? = some row →
      key.1 ≠ cursor.target := by
    intro cursor hcurs key row hget htgt
    obtain ⟨hkey, hmem⟩ := hs.filed key row hget
    obtain ⟨found, hfound⟩ := mem_iff_exists.mp hmem
    refine hstarts.fresh cursor hcurs _ found hfound ?_
    have howner := hs.owner _ _ hfound
    rw [← htgt, hkey]
    exact (Prod.mk.inj (Prod.mk.inj howner).2).2.symm
  have hpending : ∀ cursor ∈ cursors, ∀ (key : DrainKey) row, middle.entries[key]? = some row →
      key.1 = cursor.target → row.state = .pending := by
    intro cursor hcurs key row hget htgt
    obtain hold | ⟨-, -, hstate, -⟩ := hcaptures.rows key row hget
    · exact absurd htgt (hempty cursor hcurs key row hold)
    · exact hstate
  have hget : ∀ key (found : MigrationBacklogCursor),
      (middle.scheduleBacklog cursors).backlog[key]? = some found →
      (found ∈ cursors ∧ found.key = key) ∨ s.backlog[key]? = some found := by
    intro key found hfound
    rw [← hbacklog]
    exact eq_some_of_foldl_insert hfound
  have hmem : ∀ key, key ∈ (middle.scheduleBacklog cursors).backlog ↔
      key ∈ s.backlog ∨ ∃ cursor ∈ cursors, key = cursor.key := by
    intro key
    simp only [← hbacklog, eq_comm (a := key)]
    exact mem_foldl_insert
  refine ⟨⟨fun key row hrow => ?_, fun key found hfound => ?_,
    fun key key' found found' hfound hfound' hsame => ?_, fun key found hfound => ?_,
    fun key found hfound => ?_⟩, hcaptures.cursors, hcaptures.inboxRows, fun key row hrow => ?_,
    hcaptures.kept, hmem⟩
  · obtain hold | ⟨-, hkey, -, cursor, hcurs, hown⟩ := hcaptures.rows key row hrow
    · obtain ⟨hkey, hold⟩ := hs.filed key row hold
      exact ⟨hkey, (hmem _).mpr (.inl hold)⟩
    · exact ⟨hkey, (hmem _).mpr (.inr ⟨cursor, hcurs, hown⟩)⟩
  · obtain ⟨-, hkey⟩ | hold := hget key found hfound
    · exact hkey.symm
    · exact hs.owner key found hold
  · obtain ⟨hnew, hkey⟩ | hold := hget key found hfound
    · obtain ⟨hnew', hkey'⟩ | hold' := hget key' found' hfound'
      · rw [← hkey, ← hkey', inj_on_of_nodup_map hstarts.distinct hnew hnew' hsame]
      · exact absurd hsame.symm (hstarts.fresh found hnew key' found' hold')
    · obtain ⟨hnew', hkey'⟩ | hold' := hget key' found' hfound'
      · exact absurd hsame (hstarts.fresh found' hnew' key found hold)
      · exact hs.single key key' found found' hold hold' hsame
  · obtain ⟨hnew, -⟩ | hold := hget key found hfound
    · obtain ⟨anchor, migrationId, target, highWater, pending, hfits, rfl⟩ := hstarts.start found hnew
      exact hfits
    · exact hs.fits key found hold
  · obtain ⟨hnew, -⟩ | hold := hget key found hfound
    · have hrem := hcount found hnew
      have hpending := hpending found hnew
      have hnone : outstanding { s with floor := time } found.target (fun _ => true) = 0 := by
        refine count_eq_zero _ _ fun key row hrow => ?_
        rw [decide_eq_false (hempty found hnew key row hrow)]
        rfl
      have hother : ∀ state, state ≠ MigrationDrainState.pending →
          middle.outstanding found.target (·.state = state) = 0 := by
        intro state hstate
        refine count_eq_zero _ _ fun key row hrow => ?_
        by_cases htgt : key.1 = found.target
        · have hrowState : decide (row.state = state) = false := by
            rw [hpending key row hrow htgt]
            exact decide_eq_false (Ne.symm hstate)
          exact (congrArg _ hrowState).trans (Bool.and_false _)
        · rw [decide_eq_false htgt]
          rfl
      rw [hnone, Nat.zero_add] at hrem
      obtain ⟨anchor, migrationId, target, highWater, pending, -, rfl⟩ := hstarts.start found hnew
      refine ⟨hrem.symm, (hother .held nofun).symm, (hother .rejected nofun).symm, rfl, ?_⟩
      unfold AtNext
      split_ifs with hall
      · rfl
      · exact absurd rfl hall
    · have hnot : found.target ∉ cursors.map (·.target) := by
        intro hmem
        obtain ⟨cursor, hcurs, hsame⟩ := mem_map.mp hmem
        exact hstarts.fresh cursor hcurs key found hold hsame.symm
      obtain ⟨hcounts, hmem⟩ := helsewhere _ hnot
      exact (hs.balanced key found hold).congr hcounts hmem
  · obtain hold | ⟨hnew, hkey, -, hown⟩ := hcaptures.rows key row hrow
    · exact .inl hold
    · exact .inr ⟨hnew, hkey, hown⟩

def capturedRows (s s' : DrainStore) : List MigrationDrainEntry :=
  (s'.entries.toList.filter fun e => e.1 ∉ s.entries).map (·.2)

def settledKeys (s s' : DrainStore) : List DrainKey :=
  (s.entries.toList.map (·.1)).filter (· ∉ s'.entries)

/-- Captures, and settlements by the new home and the receiver. Failed calls leave the tables alone. -/
inductive DrainStep : DrainStore → List MigrationDrainEntry × List DrainKey → DrainStore → Prop
  | capture {s s' : DrainStore} {wal : String → Except DrainError (List (InboxEntry × ℤ))}
      {cursors : List MigrationBacklogCursor} {now : ℕ} : Logged wal → s.Starts cursors →
    s.captureBacklog wal cursors now = .ok s' → DrainStep s (s.capturedRows s', []) s'
  | settle {s s' : DrainStore} {row : MigrationDrainEntry} {outcome : MigrationDrainOutcome} {now : ℕ}
      {lease checkpoint : Option String} :
    s.settleMigrationDrain row outcome now lease checkpoint = .ok s' →
    DrainStep s ([], s.settledKeys s') s'
  | receiverAck {s s' : DrainStore} {target : String} {seq : ℕ} :
    s.receiverAck target seq = .ok s' → DrainStep s ([], s.settledKeys s') s'
  | receiverSettled {s s' : DrainStore} {cursor : CursorAckState} :
    s.receiverSettled cursor = .ok s' → DrainStep s ([], s.settledKeys s') s'
  | refused {s : DrainStore} : DrainStep s ([], []) s

theorem mem_settledKeys {key : DrainKey} : key ∈ s.settledKeys s' ↔ key ∈ s.entries ∧ key ∉ s'.entries := by
  unfold settledKeys
  rw [mem_filter, mem_map, decide_eq_true_iff]
  refine and_congr_left fun _ => ⟨?_, fun hmem => ?_⟩
  · rintro ⟨⟨_, row⟩, hmem, rfl⟩
    exact mem_of_eq_some (mem_toList_iff.mp hmem)
  · obtain ⟨row, hrow⟩ := exists_mem_toList _ hmem
    exact ⟨(key, row), hrow, rfl⟩

theorem nodup_settledKeys (s s' : DrainStore) : (s.settledKeys s').Nodup := by
  refine List.Nodup.filter _ ?_
  rw [nodup_iff_pairwise_ne, pairwise_map]
  refine s.entries.ordered_keys_toList.imp fun hlt heq => ?_
  rw [heq, Std.ReflOrd.compare_self] at hlt
  cases hlt

/-- What a run has done so far. The cursor of a settled key keeps it from being captured again. -/
structure Tracked (labels : List (List MigrationDrainEntry × List DrainKey)) (s : DrainStore) : Prop where
  accounted : s.Accounted
  filed : s.Filed
  open_ : ∀ key, key ∈ s.entries → (labels.flatMap (·.2)).count key = 0
  owned : ∀ key ∈ labels.flatMap (·.2), ∃ owner ∈ s.backlog, owner.2.2 = key.1
  rows : ∀ row ∈ labels.flatMap (·.1), ∀ current : MigrationDrainEntry,
    s.entries[row.key]? = some current → SameObligation row current
  gone : ∀ row ∈ labels.flatMap (·.1), row.key ∉ s.entries →
    (labels.flatMap (·.2)).count row.key = 1 ∧ s.Acked row.entry.target row.entry.inboxSeq

/-- A call keeps track of what it settles. -/
theorem Tracked.call (h : Tracked labels s) (haccounted : s'.Accounted) (hsettles : Settles s s') :
    Tracked (labels ++ [([], s.settledKeys s')]) s' := by
  have hold : ∀ {key : DrainKey}, key ∈ s'.entries → key ∈ s.entries := by
    intro key hmem
    obtain ⟨row, hrow⟩ := mem_iff_exists.mp hmem
    obtain ⟨old, hget, -⟩ := hsettles.rows key row hrow
    exact mem_of_eq_some hget
  have hcount : ∀ key, (List.flatMap (·.2) (labels ++ [([], s.settledKeys s')])).count key =
      (labels.flatMap (·.2)).count key + (s.settledKeys s').count key := by
    intro key
    rw [flatMap_append, count_append, flatMap_singleton]
  have hrows : List.flatMap (·.1) (labels ++ [([], s.settledKeys s')]) = labels.flatMap (·.1) := by
    rw [flatMap_append, flatMap_singleton, append_nil]
  refine ⟨haccounted, fun key item hget => h.filed key item (hsettles.inbox key item hget),
    fun key hmem => ?_, fun key hkey => ?_, fun row hrow current hget => ?_, fun row hrow hout => ?_⟩
  · rw [hcount, h.open_ key (hold hmem), count_eq_zero_of_not_mem]
    exact fun hkey => (mem_settledKeys.mp hkey).2 hmem
  · rw [flatMap_append, flatMap_singleton] at hkey
    obtain hkey | hkey := mem_append.mp hkey
    · obtain ⟨owner, hmem, htgt⟩ := h.owned key hkey
      exact ⟨owner, (hsettles.backlog owner).mpr hmem, htgt⟩
    · obtain ⟨row, hget⟩ := mem_iff_exists.mp (mem_settledKeys.mp hkey).1
      obtain ⟨hkey, hmem⟩ := h.accounted.filed key row hget
      exact ⟨row.cursorKey, (hsettles.backlog _).mpr hmem, hkey ▸ rfl⟩
  · rw [hrows] at hrow
    obtain ⟨old, hold, hanchor, hmigration, hentry, -⟩ := hsettles.rows _ _ hget
    obtain ⟨hanchor', hmigration', hentry'⟩ := h.rows row hrow old hold
    exact ⟨hanchor.trans hanchor', hmigration.trans hmigration', hentry.trans hentry'⟩
  · rw [hrows] at hrow
    rw [hcount]
    by_cases hin : row.key ∈ s.entries
    · refine ⟨?_, hsettles.gone row.key hin hout⟩
      rw [h.open_ _ hin, count_eq_one_of_mem (nodup_settledKeys s s') (mem_settledKeys.mpr ⟨hin, hout⟩)]
    · obtain ⟨hone, hacked⟩ := h.gone row hrow hin
      refine ⟨?_, hsettles.acked _ _ hacked⟩
      rw [hone, count_eq_zero_of_not_mem]
      exact fun hkey => hin (mem_settledKeys.mp hkey).1

theorem get_of_mem_capturedRows (hs' : s'.Accounted) (hrow : row ∈ s.capturedRows s') :
    s'.entries[row.key]? = some row := by
  obtain ⟨⟨key, _⟩, hmem, rfl⟩ := mem_map.mp hrow
  have hget := mem_toList_iff.mp (mem_filter.mp hmem).1
  rwa [(hs'.filed key _ hget).1] at hget

/-- A capture tracks rows of mailboxes that nothing was settled in. -/
theorem Tracked.capture (h : Tracked labels s) (hstarts : s.Starts cursors)
    (haccounted : s'.Accounted) (hcaptures : CapturesBacklog s cursors s') :
    Tracked (labels ++ [(s.capturedRows s', [])]) s' := by
  have hkept : ∀ {key : DrainKey}, key ∈ s.entries → key ∈ s'.entries := by
    intro key hmem
    obtain ⟨row, hrow⟩ := mem_iff_exists.mp hmem
    exact mem_of_eq_some (hcaptures.kept key row hrow)
  have hsett : List.flatMap (·.2) (labels ++ [(s.capturedRows s', [])]) = labels.flatMap (·.2) := by
    rw [flatMap_append, flatMap_singleton, append_nil]
  have hunsettled : ∀ (key : DrainKey) row, s'.entries[key]? = some row → key ∉ s.entries →
      key ∉ labels.flatMap (·.2) := by
    intro key row hget hnew hkey
    obtain hold | ⟨-, hown, cursor, hcurs, hcursorKey⟩ := hcaptures.rows key row hget
    · exact hnew (mem_of_eq_some hold)
    · obtain ⟨owner, hmem, htgt⟩ := h.owned key hkey
      obtain ⟨found, hfound⟩ := mem_iff_exists.mp hmem
      refine hstarts.fresh cursor hcurs owner found hfound ?_
      have howner : owner = found.key := h.accounted.owner owner found hfound
      have hrow : row.entry.target = cursor.target :=
        (Prod.mk.inj (Prod.mk.inj hcursorKey).2).2
      have hkeyTarget : key.1 = row.entry.target := hown ▸ rfl
      rw [← hrow, ← hkeyTarget, ← htgt, howner]
      rfl
  refine ⟨haccounted, ?_, fun key hmem => ?_, fun key hkey => ?_, fun row hrow current hget => ?_,
    fun row hrow hout => ?_⟩
  · unfold Filed
    rw [hcaptures.inboxRows]
    exact h.filed
  · rw [hsett]
    by_cases hin : key ∈ s.entries
    · exact h.open_ key hin
    · obtain ⟨row, hget⟩ := mem_iff_exists.mp hmem
      exact count_eq_zero_of_not_mem (hunsettled key row hget hin)
  · rw [hsett] at hkey
    obtain ⟨owner, hmem, htgt⟩ := h.owned key hkey
    exact ⟨owner, (hcaptures.backlog owner).mpr (.inl hmem), htgt⟩
  · rw [flatMap_append, flatMap_singleton] at hrow
    obtain hrow | hrow := mem_append.mp hrow
    · by_cases hin : row.key ∈ s.entries
      · obtain ⟨old, hold⟩ := mem_iff_exists.mp hin
        have hsame := hcaptures.kept _ _ hold
        obtain rfl := Option.mem_unique hget hsame
        exact h.rows row hrow current hold
      · have hone := (h.gone row hrow hin).1
        rw [count_eq_zero_of_not_mem (hunsettled _ current hget hin)] at hone
        cases hone
    · cases hget.symm.trans (get_of_mem_capturedRows haccounted hrow)
      exact ⟨rfl, rfl, rfl⟩
  · rw [hsett]
    unfold Acked
    rw [hcaptures.cursors]
    rw [flatMap_append, flatMap_singleton] at hrow
    obtain hrow | hrow := mem_append.mp hrow
    · exact h.gone row hrow fun hin => hout (hkept hin)
    · exact absurd (mem_of_eq_some (get_of_mem_capturedRows haccounted hrow)) hout

theorem Tracked.step (h : Tracked labels s) {label : List MigrationDrainEntry × List DrainKey}
    (hstep : DrainStep s label s') : Tracked (labels ++ [label]) s' := by
  cases hstep with
  | capture hwal hstarts hok =>
    obtain ⟨haccounted, hcaptures⟩ := captureBacklog_ok h.accounted hwal h.filed hstarts hok
    exact h.capture hstarts haccounted hcaptures
  | settle hok =>
    obtain ⟨haccounted, hsettles, -⟩ := settle_spec h.accounted hok
    exact h.call haccounted hsettles
  | @receiverAck _ target seq hok =>
    obtain ⟨next, hnext, haccounted, hsettles⟩ := receiverAck_spec h.accounted target seq
    cases hnext.symm.trans hok
    exact h.call haccounted hsettles
  | @receiverSettled _ cursor hok =>
    obtain ⟨next, hnext, haccounted, hsettles⟩ := receiverSettled_spec h.accounted cursor
    cases hnext.symm.trans hok
    exact h.call haccounted hsettles
  | refused =>
    have hnone : s.settledKeys s = [] := by
      refine eq_nil_iff_forall_not_mem.mpr fun key hkey => ?_
      exact (mem_settledKeys.mp hkey).2 (mem_settledKeys.mp hkey).1
    have hcall := h.call h.accounted (.refl s)
    rwa [hnone] at hcall

/-- A store before its first migration. -/
structure Fresh (s : DrainStore) : Prop where
  entries : s.entries = ∅
  backlog : s.backlog = ∅
  filed : s.Filed

theorem Fresh.tracked (h : s.Fresh) : Tracked [] s := by
  have hents : ∀ (key : DrainKey) row, s.entries[key]? ≠ some row := by
    intro key row hget
    rw [h.entries, getElem?_empty] at hget
    cases hget
  have hbacklog : ∀ (key : CursorKey) cursor, s.backlog[key]? ≠ some cursor := by
    intro key cursor hget
    rw [h.backlog, getElem?_empty] at hget
    cases hget
  refine ⟨⟨fun key row hget => absurd hget (hents key row),
    fun key cursor hget => absurd hget (hbacklog key cursor),
    fun key _ cursor _ hget => absurd hget (hbacklog key cursor),
    fun key cursor hget => absurd hget (hbacklog key cursor),
    fun key cursor hget => absurd hget (hbacklog key cursor)⟩, h.filed, fun _ _ => rfl, nofun, nofun, nofun⟩

/-- After any run of captures and settlements every cursor's counters are the counts of its rows, and it
stands at the least outstanding sequence once something was settled. A captured obligation is outstanding,
or was settled once and acknowledged; none expires early, and no call on the backlog finds it corrupt. -/
theorem drain_conserved {s t : DrainStore} (hs : s.Fresh)
    {labels : List (List MigrationDrainEntry × List DrainKey)} (hrun : Run DrainStep s labels t) :
    (∀ (key : CursorKey) cursor, t.backlog[key]? = some cursor →
      cursor.progress.remaining = t.outstanding cursor.target (fun _ => true) ∧
      cursor.progress.evidenceRequired = t.outstanding cursor.target (·.state = .held) ∧
      cursor.progress.rejected = t.outstanding cursor.target (·.state = .rejected) ∧
      cursor.progress.scheduled = cursor.progress.remaining + cursor.progress.forwarded +
        cursor.progress.receiverAcked + cursor.progress.expired ∧
      if cursor.progress.remaining = cursor.progress.scheduled then cursor.nextSeq = 0
      else IsLeast {seq | (cursor.target, seq) ∈ t.entries} cursor.nextSeq ∨
        (∀ seq, (cursor.target, seq) ∉ t.entries) ∧
          cursor.nextSeq = satAdd cursor.highWater 1) ∧ (∀ row ∈ labels.flatMap (·.1),
      row.key ∈ t.entries ∧ (labels.flatMap (·.2)).count row.key = 0 ∨
      row.key ∉ t.entries ∧ (labels.flatMap (·.2)).count row.key = 1 ∧
        t.Acked row.entry.target row.entry.inboxSeq) ∧
    (∀ (row current : MigrationDrainEntry) now lease checkpoint t', t.entries[row.key]? = some current →
      t.settleMigrationDrain row .expired now lease checkpoint = .ok t' →
      current.retainUntil ≤ (max now t.floor : ℕ)) ∧
    (∀ row ∈ labels.flatMap (·.1), ∀ row', SameObligation row row' →
      ∀ outcome now lease checkpoint text, t.settleMigrationDrain row' outcome now lease checkpoint ≠
        .error (.migrationDrainCorrupt text)) ∧
    (∀ target seq text, t.receiverAck target seq ≠ .error (.migrationDrainCorrupt text)) ∧
    ∀ cursor text, t.receiverSettled cursor ≠ .error (.migrationDrainCorrupt text) := by
  have ht : Tracked labels t := by
    refine hrun.invariant hs.tracked ?_
    intro labels s' label t' _ htracked hstep
    exact htracked.step hstep
  refine ⟨fun key cursor hget => ?_, fun row hrow => ?_, fun row current now lease checkpoint t' hget hok => ?_,
    fun row hrow row' hsame outcome now lease checkpoint text => ?_, fun target seq text => ?_,
    fun cursor text => ?_⟩
  · have hbal := ht.accounted.balanced key cursor hget
    exact ⟨hbal.remaining, hbal.evidenceRequired, hbal.rejected, hbal.scheduled, hbal.next⟩
  · by_cases hin : row.key ∈ t.entries
    · exact .inl ⟨hin, ht.open_ _ hin⟩
    · exact .inr ⟨hin, ht.gone row hrow hin⟩
  · exact (settle_spec ht.accounted hok).2.2 rfl current hget
  · intro herror
    refine settle_spec ht.accounted herror (fun current hget => ?_) text rfl
    have hkey : row'.key = row.key := by
      unfold MigrationDrainEntry.key
      rw [hsame.2.2]
    rw [hkey] at hget
    obtain ⟨hanchor, hmigration, hentry⟩ := ht.rows row hrow current hget
    exact ⟨hanchor.trans hsame.1.symm, hmigration.trans hsame.2.1.symm, hentry.trans hsame.2.2.symm⟩
  · obtain ⟨next, hnext, -⟩ := receiverAck_spec ht.accounted target seq
    rw [hnext]
    exact nofun
  · obtain ⟨next, hnext, -⟩ := receiverSettled_spec ht.accounted cursor
    rw [hnext]
    exact nofun

def sampleDelivery (seq : ℕ) : InboxEntry := ⟨seq, "bob", ⟨∅, "e", "s", "bob", 0, 0⟩⟩

def sampleMailbox : DrainStore where
  floor := 0
  entries := ∅
  backlog := ∅
  cursors := ∅
  inboxRows := (((∅ : OrdMap DrainKey (InboxEntry × ℤ)).insert ("bob", 1) (sampleDelivery 1, 100)).insert
    ("bob", 2) (sampleDelivery 2, 100)).insert ("bob", 3) (sampleDelivery 3, 100)

theorem sampleMailbox_fresh : sampleMailbox.Fresh := by
  refine ⟨rfl, rfl, fun key item hget => ?_⟩
  have hmem := mem_toList_iff.mpr hget
  have hall : ∀ e ∈ sampleMailbox.inboxRows.toList, e.1 = (e.2.1.target, e.2.1.inboxSeq) := by
    decide +kernel
  exact hall _ hmem

def sampleCursor : MigrationBacklogCursor := .start "ada" "m" "bob" 3 3

theorem sampleCursor_starts : sampleMailbox.Starts [sampleCursor] := by
  refine ⟨fun cursor hcurs => ?_, nodup_singleton _, fun cursor _ key found hget => ?_⟩
  · rw [mem_singleton.mp hcurs]
    exact ⟨"ada", "m", "bob", 3, 3, by decide, rfl⟩
  · cases hget

theorem captured_isSome :
    (sampleMailbox.captureBacklog (fun _ => .ok []) [sampleCursor] 10).toOption.isSome := by
  decide +kernel

def sampleCaptured : DrainStore :=
  (sampleMailbox.captureBacklog (fun _ => .ok []) [sampleCursor] 10).toOption.get captured_isSome

theorem sampleCaptured_step :
    DrainStep sampleMailbox (sampleMailbox.capturedRows sampleCaptured, []) sampleCaptured :=
  .capture (fun _ _ hlogged item hitem => by
    rw [← ok.inj hlogged] at hitem
    cases hitem) sampleCursor_starts (eq_ok_get captured_isSome)

/-- The first delivery is forwarded, the receiver acknowledges the second, the third is held back. -/
def sampleDrain : Except DrainError DrainStore := do
  let row (seq : ℕ) : MigrationDrainEntry := ⟨"ada", "m", sampleDelivery seq, 100, .pending, 0, 0⟩
  let s ← sampleCaptured.settleMigrationDrain (row 1) .bAck 20 none none
  let s ← s.receiverAck "bob" 2
  s.settleMigrationDrain (row 3) .held 20 none none

theorem drain_conserved_bob : ∃ t cursor, sampleDrain = .ok t ∧ t.backlog[("ada", "m", "bob")]? = some cursor ∧
    cursor.progress = ⟨3, 1, 1, 0, 0, 1, 1⟩ ∧
    cursor.progress.remaining = t.outstanding cursor.target (fun _ => true) ∧
    cursor.progress.evidenceRequired = t.outstanding cursor.target (·.state = .held) ∧
    IsLeast {seq | (cursor.target, seq) ∈ t.entries} cursor.nextSeq := by
  have hfacts : sampleDrain.toOption.map (fun t => t.backlog[("ada", "m", "bob")]?) =
      some (some ⟨"ada", "m", "bob", 3, 3, ⟨3, 1, 1, 0, 0, 1, 1⟩⟩) := by decide +kernel
  obtain ⟨t, ht, hcurs⟩ := map_toOption_eq_some hfacts
  obtain ⟨s, hforwarded, hrest⟩ := bind_eq_ok.mp ht
  obtain ⟨s', hacked, hheld⟩ := bind_eq_ok.mp hrest
  have hrun := (Run.single sampleCaptured_step).append
    (.cons (.settle hforwarded) (.cons (.receiverAck hacked) (.single (.settle hheld))))
  obtain ⟨hrem, hevid, -, -, hnext⟩ := (drain_conserved sampleMailbox_fresh hrun).1 _ _ hcurs
  refine ⟨t, _, ht, hcurs, rfl, hrem, hevid, hnext.resolve_right fun hnone => ?_⟩
  exact absurd hnone.2 (by decide)

/-- A captured backlog starts with sequence 0, whatever is outstanding. -/
theorem next_seq_zero_captured : sampleMailbox.Fresh ∧ ∃ labels t cursor,
    Run DrainStep sampleMailbox labels t ∧ t.backlog[("ada", "m", "bob")]? = some cursor ∧
    ¬ (IsLeast {seq | (cursor.target, seq) ∈ t.entries} cursor.nextSeq ∨
      (∀ seq, (cursor.target, seq) ∉ t.entries) ∧ cursor.nextSeq = cursor.highWater + 1) := by
  have hsome : sampleCaptured.backlog[("ada", "m", "bob")]? = some sampleCursor := by decide +kernel
  have hfirst : ("bob", 1) ∈ sampleCaptured.entries := by decide +kernel
  have hzero : ("bob", 0) ∉ sampleCaptured.entries := by decide +kernel
  refine ⟨sampleMailbox_fresh, _, _, sampleCursor, .single sampleCaptured_step, hsome, ?_⟩
  rintro (hleast | ⟨hnone, -⟩)
  · exact hzero hleast.1
  · exact hnone 1 hfirst

end DrainStore

end Ramflux.Home
