import Ramflux.Node.SettlementCheckpoint

/-! One settling transaction moves marks up, within the boundary, over disposed rows only. -/
namespace Ramflux
open OrdMap Except Std.ExtTreeMap Option Fallible RouterWal

namespace RouterWal

def TargetIndex.Holds (index : TargetIndex) (target : String) (seq : ℕ) : Prop :=
  ∃ keys, index[target]?.bind (·[seq]?) = some keys

theorem TargetIndex.holds_iff (index : TargetIndex) (target : String) (seq : ℕ) :
    index.Holds target seq ↔ ∃ sequences, index[target]? = some sequences ∧ seq ∈ sequences := by
  unfold Holds
  simp only [bind_eq_some_iff, mem_iff_exists]
  constructor
  · rintro ⟨keys, sequences, htgt, hkeys⟩
    exact ⟨sequences, htgt, keys, hkeys⟩
  · rintro ⟨sequences, htgt, keys, hkeys⟩
    exact ⟨keys, sequences, htgt, hkeys⟩

theorem TargetIndex.holds_of_remove {index : TargetIndex} {entry : Entry} {key target : String}
    {seq : ℕ} (h : (index.remove entry key).Holds target seq) : index.Holds target seq := by
  rw [holds_iff] at h ⊢
  obtain ⟨sequences, htgt, hmem⟩ := h
  unfold TargetIndex.remove at htgt
  cases hold : index[entry.target]? with
  | none =>
    rw [hold] at htgt
    exact ⟨sequences, htgt, hmem⟩
  | some old =>
    rw [hold] at htgt
    dsimp only at htgt
    split_ifs at htgt
    · rw [getElem?_erase_eq] at htgt
      split_ifs at htgt
      exact ⟨sequences, htgt, hmem⟩
    · obtain ⟨heq, rfl⟩ | ⟨-, htgt⟩ := eq_some_of_insert htgt
      · refine ⟨old, heq ▸ hold, ?_⟩
        -- The inner map after the removal has no sequence that it did not have before.
        split at hmem
        · exact hmem
        · next keys hkeys =>
          split_ifs at hmem
          · exact (mem_erase.mp hmem).2
          · rcases mem_insert.mp hmem with hsame | hmem
            · rw [← Std.LawfulEqCmp.eq_of_compare hsame]
              exact mem_of_eq_some hkeys
            · exact hmem
      · exact ⟨sequences, htgt, hmem⟩

namespace State

/-- Rows may be dropped; counters stay. -/
structure Shrinks (s s' : State) : Prop where
  holds : ∀ target seq, s'.submissionsByTarget.Holds target seq → s.submissionsByTarget.Holds target seq
  issued : s'.issuedByTarget = s.issuedByTarget

variable (clock : ℤ) (s : State) (due : ℤ × String)

theorem Shrinks.refl : Shrinks s s where
  holds _ _ h := h
  issued := rfl

theorem Shrinks.trans {s t u : State} (h : Shrinks s t) (h' : Shrinks t u) : Shrinks s u where
  holds target seq hold := h.holds target seq (h'.holds target seq hold)
  issued := h'.issued.trans h.issued

theorem Shrinks.foldl {α : Type} {f : State → α → State} (hstep : ∀ s a, Shrinks s (f s a))
    (items : List α) (s : State) : Shrinks s (items.foldl f s) :=
  List.foldlRecOn items f (.refl s) fun b h a _ => h.trans (hstep b a)

theorem shrinks_takeEntry (key : String) : Shrinks s (s.takeEntry clock key) := by
  unfold takeEntry
  split
  · exact .refl s
  · split
    · exact .refl s
    · exact ⟨fun _ _ h => TargetIndex.holds_of_remove h, rfl⟩

theorem shrinks_observeSettlement (clock : ℤ) (cursor : CursorAckState) :
    Shrinks s (s.observeSettlement clock cursor) := by
  unfold observeSettlement
  split
  · exact .refl s
  · exact .foldl (shrinks_takeEntry clock) _ s

theorem shrinks_unindex (record : SubmissionRecord) : Shrinks s (s.unindex clock record) := by
  unfold unindex
  cases record.entry with
  | none => cases record.localDelivery <;> exact ⟨fun _ _ h => h, rfl⟩
  | some entry =>
    cases record.localDelivery <;> exact ⟨fun _ _ h => TargetIndex.holds_of_remove h, rfl⟩

theorem shrinks_pruneReplay : Shrinks s (s.pruneReplay clock due) := by
  unfold pruneReplay
  dsimp only
  split
  · exact ⟨fun _ _ h => h, rfl⟩
  · rename_i record _
    have h := shrinks_unindex clock { s with
      replayDue := s.replayDue.erase due
      submissions := s.submissions.erase due.2 } record
    exact ⟨h.holds, h.issued⟩

theorem shrinks_pruneEntry : Shrinks s (s.pruneEntry due) := by
  unfold pruneEntry
  dsimp only
  split
  · exact ⟨fun _ _ h => h, rfl⟩
  · split
    · exact ⟨fun _ _ h => h, rfl⟩
    · exact ⟨fun _ _ h => TargetIndex.holds_of_remove h, rfl⟩

theorem shrinks_prune (clock now : ℤ) : Shrinks s (s.prune clock now) :=
  (Shrinks.foldl (shrinks_pruneReplay clock) _ s).trans (.foldl shrinks_pruneEntry _ _)

end State
end RouterWal

theorem Publication.Shared.settledView_commitSettled (core : Publication.Shared)
    (target incarnation target' incarnation' : String) (settled : ℕ) :
    ((core.commitSettled target incarnation settled).settledView target' incarnation').1 =
      (core.settledView target' incarnation').1 := by
  unfold commitSettled
  cases hinbox : core.registry.inboxes[(⟨target, incarnation⟩ : Publication.Key)]? with
  | none => rfl
  | some inbox =>
    unfold settledView setInbox
    rw [getElem?_insert_eq]
    split_ifs with heq
    · rw [← heq, hinbox]
    · rfl

namespace RouterStore

namespace Store

def Present (s : Store) (target : String) (seq : ℕ) : Prop :=
  s.HasRow target seq ∨ ∃ wal keys, s.wal = some wal ∧ wal.keysAt target seq = some keys

def settledOf (s : Store) (target : String) : ℕ :=
  previousSettled (s.cursors.rows[target]?.map (·.cursor))

def Retired (s : Store) (target : String) (seq : ℕ) : Prop :=
  ∃ stored, s.cursors.rows[target]? = some stored ∧ retires stored.cursor seq

/-- Progress of the cursors from `s` to `s'` when the deliveries in `D` are disposed of. -/
structure Advances (D : String → ℕ → Prop) (s s' : Store) : Prop where
  present : ∀ target seq, s'.Present target seq → s.Present target seq
  boundary : ∀ target, s.boundary target ≤ s'.boundary target
  settled : ∀ target, s.settledOf target ≤ s'.settledOf target
  bounded : ∀ target, s'.settledOf target ≤ max (s.settledOf target) (s'.boundary target)
  retired : ∀ target seq, s'.Retired target seq → s.Retired target seq ∨ D target seq
  covered : ∀ target seq, s.settledOf target < seq → seq ≤ s'.settledOf target →
    s'.Present target seq → D target seq

variable {D : String → ℕ → Prop} {s s' : Store}

/-- Steps that leave the cursors alone. -/
theorem Advances.of_cursors_eq (hcursors : s'.cursors = s.cursors)
    (hpresent : ∀ target seq, s'.Present target seq → s.Present target seq)
    (hboundary : ∀ target, s.boundary target ≤ s'.boundary target) : Advances D s s' := by
  have hsett : ∀ target, s'.settledOf target = s.settledOf target := by
    intro target
    unfold settledOf
    rw [hcursors]
  exact {
    present := hpresent
    boundary := hboundary
    settled := fun target => (hsett target).ge
    bounded := fun target => (hsett target).le.trans (le_max_left _ _)
    retired := by
      rintro target seq ⟨stored, hstored, hretires⟩
      rw [hcursors] at hstored
      exact .inl ⟨stored, hstored, hretires⟩
    covered := by
      intro target seq hlt hle
      rw [hsett] at hle
      omega }

theorem Advances.refl (s : Store) : Advances D s s :=
  .of_cursors_eq rfl (fun _ _ h => h) fun _ => le_rfl

theorem Advances.trans {s'' : Store} (h : Advances D s s') (h' : Advances D s' s'') :
    Advances D s s'' where
  present target seq hp := h.present target seq (h'.present target seq hp)
  boundary target := (h.boundary target).trans (h'.boundary target)
  settled target := (h.settled target).trans (h'.settled target)
  bounded target := by
    have hfirst := h.bounded target
    have hsecond := h'.bounded target
    have hmono := h'.boundary target
    omega
  retired target seq hr := by
    rcases h'.retired target seq hr with hmid | hD
    · exact h.retired target seq hmid
    · exact .inr hD
  covered target seq hlt hle hp := by
    by_cases hmid : seq ≤ s'.settledOf target
    · exact h.covered target seq hlt hmid (h'.present target seq hp)
    · exact h'.covered target seq (not_le.mp hmid) hle hp

/-! Parts that leave the cursors alone. -/

variable {target : String}

theorem boundary_insert_identity (s : Store) {identity : Identity}
    (hold : ∀ old, s.identities[target]? = some old →
      old.id = identity.id ∧ old.issued ≤ identity.issued) (other : String) :
    s.boundary other ≤
      { s with identities := s.identities.insert target identity }.boundary other := by
  unfold boundary
  rw [getElem?_insert_eq]
  split_ifs with heq
  · subst heq
    cases hget : s.identities[target]? with
    | none => exact Nat.zero_le _
    | some old =>
      obtain ⟨hid, hissued⟩ := hold old hget
      cases hcore : s.core with
      | some core => simp [hid]
      | none =>
        unfold issued
        cases s.wal with
        | none => exact hissued
        | some wal => exact max_le_max_right _ hissued
  · rfl

/-- Identity rows may be written; everything else is as before. -/
structure Identifies (s s' : Store) : Prop where
  cursors : s'.cursors = s.cursors
  mailboxes : s'.mailboxes = s.mailboxes
  wal : s'.wal = s.wal
  core : s'.core = s.core
  boundary : ∀ target, s.boundary target ≤ s'.boundary target
  known : ∀ target, target ∈ s.identities → target ∈ s'.identities

theorem Identifies.refl (s : Store) : Identifies s s where
  cursors := rfl
  mailboxes := rfl
  wal := rfl
  core := rfl
  boundary _ := le_rfl
  known _ h := h

theorem Identifies.present (h : Identifies s s') (target : String) (seq : ℕ) :
    s'.Present target seq ↔ s.Present target seq := by
  unfold Present HasRow
  rw [h.mailboxes, h.wal]

theorem Identifies.advances (h : Identifies s s') : Advances D s s' :=
  .of_cursors_eq h.cursors (fun target seq => (h.present target seq).mp) h.boundary

theorem setIdentity_ok {id : String} {issued : ℕ} (h : s.setIdentity target issued id = .ok s') :
    Identifies s s' ∧ target ∈ s'.identities := by
  unfold setIdentity at h
  split_ifs at h with hmismatch hid
  cases h
  refine ⟨⟨rfl, rfl, rfl, rfl, ?_, ?_⟩, mem_insert_self⟩
  · apply boundary_insert_identity
    intro old hold
    have hold' : s.identities[target]? = some old := hold
    constructor
    · by_contra hne
      exact hmismatch (by simp [hold', hne])
    · simp [hold']
  · intro other hother
    exact mem_insert.mpr (.inr hother)

/-- A mailbox has an identity row, or will get it from the log. -/
def Known (s : Store) (target : String) : Prop :=
  target ∈ s.identities ∨ ∃ wal, s.wal = some wal ∧ target ∈ wal.state.issuedByTarget

theorem checkpointIncarnation_ok (h : s.checkpointIncarnation target = .ok s') :
    Identifies s s' ∧ (s.Known target → target ∈ s'.identities) := by
  unfold checkpointIncarnation at h
  split at h
  · next hwal =>
    cases h
    refine ⟨.refl s, ?_⟩
    rintro (hknown | ⟨wal, hsome, -⟩)
    · exact hknown
    · rw [hwal] at hsome
      cases hsome
  · next wal hwal =>
    obtain ⟨committed, hcomm, h⟩ := bind_eq_ok.mp h
    cases committed with
    | none =>
      cases h
      refine ⟨.refl s, ?_⟩
      rintro (hknown | ⟨wal', hsome, hissued⟩)
      · exact hknown
      · rw [hwal] at hsome
        cases hsome
        obtain ⟨issued, hget⟩ := mem_iff_exists.mp hissued
        unfold Wal.committedInbox at hcomm
        rw [hget] at hcomm
        obtain ⟨id, -, hnone⟩ := bind_eq_ok.mp hcomm
        cases hnone
    | some row =>
      obtain ⟨hsame, hmem⟩ := setIdentity_ok h
      exact ⟨hsame, fun _ => hmem⟩

variable {previous : Option CursorAckState}

theorem previous_ok (h : s.previous target = .ok previous) :
    previous = s.cursors.rows[target]?.map (·.cursor) := by
  unfold Store.previous at h
  split at h
  · next hrow =>
    rw [hrow]
    exact (ok.inj h).symm
  · next stored hrow =>
    rw [hrow]
    split_ifs at h
    exact (ok.inj h).symm

theorem removeRows_rows (s : Store) (target : String) (sequences : List ℕ) {key : String × ℕ}
    (h : key ∈ (s.removeRows target sequences).mailboxes.rows) : key ∈ s.mailboxes.rows := by
  unfold removeRows at h
  generalize s.mailboxes = table at h
  induction sequences generalizing table with
  | nil => exact h
  | cons seq sequences ih =>
    exact (mem_erase.mp (ih (table.remove target seq) h)).2

variable {seq : ℕ}

theorem mem_wal_map {f : State → State} {wal : Option Wal}
    (hf : ∀ state, State.Shrinks state (f state))
    (h : ∃ w keys, (wal.map fun w => { w with state := f w.state }) = some w ∧
      w.keysAt target seq = some keys) :
    ∃ w keys, wal = some w ∧ w.keysAt target seq = some keys := by
  obtain ⟨w, keys, hwal, hkeys⟩ := h
  obtain ⟨w', rfl, rfl⟩ := map_eq_some_iff.mp hwal
  obtain ⟨keys', hkeys'⟩ := (hf w'.state).holds target seq ⟨keys, hkeys⟩
  exact ⟨w', keys', rfl, hkeys'⟩

theorem advances_mapWal (f : State → State) (hf : ∀ state, State.Shrinks state (f state)) :
    Advances D s { s with wal := s.wal.map fun wal => { wal with state := f wal.state } } := by
  refine .of_cursors_eq rfl ?_ ?_
  · rintro target seq (hrow | hwal)
    · exact .inl hrow
    · exact .inr (mem_wal_map hf hwal)
  · intro target
    unfold boundary issued
    cases s.wal with
    | none => rfl
    | some wal =>
      have hissued : (f wal.state).issuedSequence target = wal.state.issuedSequence target := by
        unfold State.issuedSequence
        rw [(hf wal.state).issued]
      dsimp only [map_some]
      rw [hissued]

theorem advances_commitSettled (cursor : CursorAckState) (incarnation : Option String) :
    Advances D s (s.commitSettled cursor incarnation) := by
  refine .of_cursors_eq rfl (fun _ _ h => h) ?_
  intro target
  unfold boundary commitSettled
  cases hid : s.identities[target]? with
  | none => rfl
  | some identity =>
    cases s.core with
    | none => rfl
    | some core =>
      cases incarnation with
      | none => rfl
      | some id =>
        dsimp only [map_some]
        rw [Publication.Shared.settledView_commitSettled]

theorem advances_observeSettlement (clock : ℤ) (cursor : CursorAckState) :
    Advances D s (s.observeSettlement clock cursor) :=
  advances_mapWal _ fun state => state.shrinks_observeSettlement clock cursor

theorem advances_pruneExpired (clock now : ℤ) : Advances D s (s.pruneExpired clock now) :=
  advances_mapWal _ fun state => state.shrinks_prune clock now

theorem advances_publishRetentionCheckpoints (clock : ℤ) (committed : List CursorAckState)
    (s : Store) : Advances D s (s.publishRetentionCheckpoints clock committed) := by
  induction committed generalizing s with
  | nil => exact .refl s
  | cons cursor committed ih =>
    exact ((advances_observeSettlement clock cursor).trans
      (advances_commitSettled cursor _)).trans (ih _)

/-! Writing a cursor row. -/

theorem settledOf_insertCursor (s : Store) (stored : StoredCursor) (target : String) :
    (s.insertCursor stored).settledOf target =
      if stored.cursor.target = target then stored.cursor.settledInboxSeq
      else s.settledOf target := by
  unfold settledOf insertCursor CursorTable.insert
  rw [getElem?_insert_eq]
  split_ifs <;> rfl

theorem advances_write {txn : Store} {stored : StoredCursor} (removed : List ℕ)
    (hsame : Identifies s txn) (htgt : stored.cursor.target = target)
    (hsett : s.settledOf target ≤ stored.cursor.settledInboxSeq)
    (hbounded : stored.cursor.settledInboxSeq ≤ max (s.settledOf target) (s.boundary target))
    (hretired : ∀ seq, retires stored.cursor seq → s.Retired target seq ∨ D target seq)
    (hcovered : ∀ seq, s.settledOf target < seq → seq ≤ stored.cursor.settledInboxSeq →
      s.Present target seq → D target seq) :
    Advances D s ((txn.insertCursor stored).removeRows target removed) := by
  have hmark : ∀ other, ((txn.insertCursor stored).removeRows target removed).settledOf other =
      if target = other then stored.cursor.settledInboxSeq else s.settledOf other := by
    intro other
    have htxn : txn.settledOf other = s.settledOf other := by
      unfold settledOf
      rw [hsame.cursors]
    have h := settledOf_insertCursor txn stored other
    rw [htgt, htxn] at h
    exact h
  have hpresent : ∀ other seq, ((txn.insertCursor stored).removeRows target removed).Present other seq →
      s.Present other seq := by
    intro other seq h
    apply (hsame.present other seq).mp
    rcases h with hrow | hwal
    · exact .inl (removeRows_rows (txn.insertCursor stored) target removed hrow)
    · exact .inr hwal
  refine ⟨hpresent, hsame.boundary, ?_, ?_, ?_, ?_⟩
  · intro other
    rw [hmark]
    split_ifs with heq
    · exact heq ▸ hsett
    · exact le_rfl
  · intro other
    rw [hmark]
    split_ifs with heq
    · subst heq
      exact hbounded.trans (max_le_max_left _ (hsame.boundary target))
    · exact le_max_left _ _
  · rintro other seq ⟨row, hrow, hretires⟩
    change (txn.cursors.rows.insert stored.cursor.target stored)[other]? = some row at hrow
    rw [getElem?_insert_eq, htgt, hsame.cursors] at hrow
    split_ifs at hrow with heq
    · subst heq
      cases hrow
      exact hretired seq hretires
    · exact .inl ⟨row, hrow, hretires⟩
  · intro other seq hlt hle hp
    rw [hmark] at hle
    split_ifs at hle with heq
    · subst heq
      exact hcovered seq hlt hle (hpresent _ _ hp)
    · omega

theorem settled_mergeCursor (previous : Option CursorAckState) (cursor : CursorAckState) :
    (mergeCursor previous cursor).settledInboxSeq =
      max cursor.settledInboxSeq (previousSettled previous) := by
  cases previous with
  | none => exact (Nat.max_zero _).symm
  | some old => rfl

theorem retires_mergeCursor {cursor : CursorAckState}
    (incarnation : Option String) (h : retires (encodeCursor
    (mergeCursor previous cursor) incarnation).cursor seq) :
    cursor.lastAcknowledgedInboxSeq = some seq ∨ seq ∈ cursor.ackedInboxSeqs ∨
      ∃ old, previous = some old ∧ seq ∈ old.ackedInboxSeqs := by
  rcases h with hlast | hacked | hnil
  · cases previous <;> exact .inl hlast
  · cases previous with
    | none => exact .inr (.inl (OrdSet.mem_filter_iff.mp hacked).1)
    | some old =>
      have hmem := (OrdSet.mem_filter_iff.mp hacked).1
      rcases (OrdSet.mem_extend_iff _ _ _).mp hmem with hnew | hold
      · exact .inr (.inl hnew)
      · exact .inr (.inr ⟨old, rfl, Std.ExtTreeSet.mem_toList.mp hold⟩)
  · cases hnil

theorem mergedBytes_ok {cursor : CursorAckState} {stored : StoredCursor}
    (h : s.mergedBytes cursor previous = .ok (stored, s')) :
    Identifies s s' ∧ stored.cursor.target = cursor.target ∧
      stored.cursor.settledInboxSeq = max cursor.settledInboxSeq (previousSettled previous) ∧
      ∀ seq, retires stored.cursor seq → cursor.lastAcknowledgedInboxSeq = some seq ∨
        seq ∈ cursor.ackedInboxSeqs ∨ ∃ old, previous = some old ∧ seq ∈ old.ackedInboxSeqs := by
  have htgt : (mergeCursor previous cursor).target = cursor.target := by
    cases previous <;> rfl
  have hmark := settled_mergeCursor previous cursor
  unfold mergedBytes at h
  split at h
  · cases h
    exact ⟨.refl s, htgt, hmark, fun _ => retires_mergeCursor none⟩
  · dsimp only at h
    split_ifs at h
    · obtain ⟨txn, htxn, h⟩ := bind_eq_ok.mp h
      cases h
      exact ⟨(setIdentity_ok htxn).1, htgt, hmark, fun _ => retires_mergeCursor none⟩
    · cases h
      exact ⟨.refl s, htgt, hmark, fun _ => retires_mergeCursor none⟩

/-- A mark within the boundary that passes only what `D` covers, or a cursor that settles nothing. -/
structure SettledBy (D : String → ℕ → Prop) (s : Store) (incoming cursor : CursorAckState) : Prop where
  target : cursor.target = incoming.target
  last : cursor.lastAcknowledgedInboxSeq = incoming.lastAcknowledgedInboxSeq
  acked : ∀ seq ∈ cursor.ackedInboxSeqs, D incoming.target seq
  bounded : cursor.settledInboxSeq ≤ max (s.settledOf incoming.target) (s.boundary incoming.target)
  covered : ∀ seq, s.settledOf incoming.target < seq → seq ≤ cursor.settledInboxSeq →
    s.Present incoming.target seq → D incoming.target seq

section
variable {clock : ℤ} {walExpiredAt : Option ℤ} {incoming : CursorAckState}

/-- Deliveries of a mailbox that a settlement of `incoming` may pass. -/
structure Covers (D : String → ℕ → Prop) (s : Store) (clock : ℤ) (walExpiredAt : Option ℤ)
    (incoming : CursorAckState) : Prop where
  named : ∀ seq, retires incoming seq → D incoming.target seq
  previous : ∀ seq, s.Retired incoming.target seq → D incoming.target seq
  expired : ∀ wal keys seq, s.wal = some wal → wal.keysAt incoming.target seq = some keys →
    wal.state.expired clock walExpiredAt keys → D incoming.target seq

variable {seq : ℕ}

theorem Covers.disposed (h : Covers D s clock walExpiredAt incoming) (hseq : Disposed incoming
    (s.cursors.rows[incoming.target]?.map (·.cursor)) seq) : D incoming.target seq := by
  rcases hseq with hnew | ⟨old, hold, hacked⟩
  · exact h.named seq hnew
  · obtain ⟨stored, hstored, rfl⟩ := map_eq_some_iff.mp hold
    exact h.previous seq ⟨stored, hstored, .inr (.inl hacked)⟩

theorem Covers.congr {t : Store} (h : Covers D s clock walExpiredAt incoming) (hwal : t.wal = s.wal)
    (hretired : ∀ target seq, t.Retired target seq → s.Retired target seq ∨ D target seq) :
    Covers D t clock walExpiredAt incoming where
  named := h.named
  previous seq hseq := (hretired _ seq hseq).elim (h.previous seq) id
  expired wal keys seq hsome := h.expired wal keys seq (hwal ▸ hsome)

theorem settledMark_passes (previous : Option CursorAckState) (issued : ℕ)
    (hlt : previousSettled previous < seq)
    (hle : seq ≤ s.settledMark clock incoming previous walExpiredAt issued)
    (hseq : s.HasRow incoming.target seq ∨
      s.HasLogged clock walExpiredAt incoming.target seq) : Disposed incoming previous seq := by
  rw [← retires_scanned_iff incoming previous issued]
  by_contra hnot
  rcases hseq with hrow | hlogged
  · obtain ⟨row, hget⟩ := mem_iff_exists.mp hrow
    have hmax : seq ≤ u64Max := (s.mailboxes.filed _ row hget).2
    have hhead := s.isHead_durableHead (scanned incoming previous issued) (hlt.trans_le hmax)
    exact hhead.not_blocks hlt (hle.trans (Watermark.cap_le _ _)) ⟨hrow, hnot⟩
  · have hhead := s.isHead_logHead clock walExpiredAt (scanned incoming previous issued)
      (previousSettled previous)
    exact hhead.not_blocks hlt hle ⟨hlogged, hnot⟩

theorem settledBy_checkpointSettlement (h : Covers D s clock walExpiredAt incoming)
    (hknown : incoming.target ∈ s.identities ∨
      incoming.settledInboxSeq ≤ s.settledOf incoming.target) :
    SettledBy D s incoming (s.checkpointSettlement clock incoming
      (s.cursors.rows[incoming.target]?.map (·.cursor)) walExpiredAt).1 := by
  cases hid : s.identities[incoming.target]? with
  | none =>
    have hle : incoming.settledInboxSeq ≤ s.settledOf incoming.target := by
      rcases hknown with hmem | hle
      · obtain ⟨identity, hget⟩ := mem_iff_exists.mp hmem
        rw [hid] at hget
        cases hget
      · exact hle
    unfold checkpointSettlement
    rw [hid]
    exact {
      target := rfl
      last := rfl
      acked := fun seq hseq => h.named seq (.inr (.inl hseq))
      bounded := hle.trans (le_max_left _ _)
      covered := fun seq hlt hseq => absurd (hseq.trans hle) (not_le.mpr hlt) }
  | some identity =>
    rw [checkpointSettlement_eq s clock incoming _ walExpiredAt hid]
    exact {
      target := rfl
      last := rfl
      acked := by
        intro seq hseq
        have hmem := (OrdSet.mem_filter_iff.mp hseq).1
        rcases (mem_allAcked_iff _ _ _).mp hmem with hnew | hold
        · exact h.named seq (.inr (.inl hnew))
        · exact h.disposed (.inr hold)
      bounded := (s.settledMark_le_boundary _ _ _ _ _).trans (le_max_right _ _)
      covered := by
        intro seq hlt hle hpresent
        rcases hpresent with hrow | ⟨wal, keys, hwal, hkeys⟩
        · exact h.disposed (settledMark_passes _ _ hlt hle (.inl hrow))
        · cases hexp : wal.state.expired clock walExpiredAt keys with
          | true => exact h.expired wal keys seq hwal hkeys hexp
          | false =>
            exact h.disposed (settledMark_passes _ _ hlt hle (.inr ⟨wal, keys, hwal, hkeys, hexp⟩)) }

variable {cursor : CursorAckState}

theorem SettledBy.advances {stored : StoredCursor} {txn : Store}
    (h : SettledBy D s incoming cursor) (hcovers : Covers D s clock walExpiredAt incoming)
    (hmerged : s.mergedBytes cursor (s.cursors.rows[incoming.target]?.map (·.cursor)) =
      .ok (stored, txn)) (removed : List ℕ) :
    Advances D s ((txn.insertCursor stored).removeRows incoming.target removed) := by
  obtain ⟨hsame, htgt, hmark, hretires⟩ := mergedBytes_ok hmerged
  have hmax : stored.cursor.settledInboxSeq =
      max cursor.settledInboxSeq (s.settledOf incoming.target) := hmark
  refine advances_write removed hsame (htgt.trans h.target) ?_ ?_ ?_ ?_
  · rw [hmax]
    exact le_max_right _ _
  · rw [hmax]
    exact max_le h.bounded (le_max_left _ _)
  · intro seq hseq
    right
    rcases hretires seq hseq with hlast | hacked | hold
    · exact hcovers.named seq (.inl (h.last ▸ hlast))
    · exact h.acked seq hacked
    · exact hcovers.disposed (.inr hold)
  · intro seq hlt hle
    have hcurs : seq ≤ cursor.settledInboxSeq := by omega
    exact h.covered seq hlt hcurs

theorem writeRetentionCheckpoint_ok (h : s.writeRetentionCheckpoint clock incoming walExpiredAt = .ok (cursor, s'))
    (hcovers : Covers D s clock walExpiredAt incoming) (hknown : incoming.target ∈ s.identities ∨
      incoming.settledInboxSeq ≤ s.settledOf incoming.target) :
    Advances D s s' ∧ s'.wal = s.wal ∧ ∀ target, target ∈ s.identities → target ∈ s'.identities := by
  obtain ⟨previous, hprev, h⟩ := bind_eq_ok.mp h
  obtain rfl := previous_ok hprev
  have hsett := settledBy_checkpointSettlement hcovers hknown
  generalize s.checkpointSettlement clock incoming _ walExpiredAt = out at h hsett
  obtain ⟨⟨stored, txn⟩, hmerged, h⟩ := bind_eq_ok.mp h
  obtain ⟨-, rfl⟩ := Prod.mk.inj (ok.inj h)
  rw [hsett.target]
  obtain ⟨hsame, -⟩ := mergedBytes_ok hmerged
  exact ⟨hsett.advances hcovers hmerged _, hsame.wal, hsame.known⟩

theorem recordReceiver_ok {sequences : List ℕ}
    (h : s.recordReceiver clock incoming sequences = .ok s')
    (hcovers : Covers D s clock none incoming) : Advances D s s' := by
  obtain ⟨txn, htxn, h⟩ := bind_eq_ok.mp h
  obtain ⟨hsame, -⟩ := checkpointIncarnation_ok htxn
  obtain ⟨previous, hprev, h⟩ := bind_eq_ok.mp h
  obtain rfl := previous_ok hprev
  have hcovers' : Covers D txn clock none incoming :=
    hcovers.congr hsame.wal (Identifies.advances hsame).retired
  unfold receiverSettlement at h
  cases hid : txn.identities[incoming.target]? with
  | none =>
    -- Without an identity nothing is written.
    have hnone : txn.checkpointSettlement clock incoming
        (txn.cursors.rows[incoming.target]?.map (·.cursor)) none = (incoming, none) := by
      unfold checkpointSettlement
      rw [hid]
    rw [hnone] at h
    obtain ⟨written, hwritten, h⟩ := bind_eq_ok.mp h
    unfold ackCursorBytes at hwritten
    rw [hid, if_pos isNone_none] at hwritten
    split_ifs at hwritten
    · cases hwritten
    · cases hwritten
      cases h
      exact .refl s
  | some identity =>
    have hmem : incoming.target ∈ txn.identities :=
      mem_of_eq_some hid
    have hsett := settledBy_checkpointSettlement hcovers' (.inl hmem)
    generalize txn.checkpointSettlement clock incoming _ none = out at h hsett
    obtain ⟨settled, incarnation⟩ := out
    obtain ⟨written, hwritten, h⟩ := bind_eq_ok.mp h
    unfold ackCursorBytes at hwritten
    rw [hsett.target, hid, if_neg (by simp)] at hwritten
    obtain ⟨⟨stored, written⟩, hmerged, rfl⟩ := map_eq_ok.mp hwritten
    cases h
    have hwrite := hsett.advances hcovers' hmerged (sequences ++ settled.retiredInboxSeqs)
    exact hsame.advances.trans (hwrite.trans
      ((advances_observeSettlement clock _).trans (advances_commitSettled _ _)))

theorem retainCursorCheckpointsAt_ok {cursors : List CursorAckState}
    (h : s.retainCursorCheckpointsAt clock cursors walExpiredAt = .ok s')
    (hcovers : ∀ cursor ∈ cursors, Covers D s clock walExpiredAt cursor)
    (hknown : ∀ cursor ∈ cursors, s.Known cursor.target) : Advances D s s' := by
  obtain ⟨⟨txn, committed⟩, hloop, h⟩ := bind_eq_ok.mp h
  cases h
  -- Carried through the loop: what it wrote so far, the log it reads, and the identities it has seen.
  suffices hloop : Advances D s txn ∧ txn.wal = s.wal ∧ ∀ target, target ∈ s.identities →
      target ∈ txn.identities from
    hloop.1.trans (advances_publishRetentionCheckpoints clock committed txn)
  refine foldlM_ok (P := fun acc : Store × List CursorAckState => Advances D s acc.1 ∧
    acc.1.wal = s.wal ∧ ∀ target, target ∈ s.identities → target ∈ acc.1.identities) hloop
    ⟨.refl s, rfl, fun _ h => h⟩ ?_
  rintro ⟨t, done⟩ cursor ⟨u, done'⟩ hmem ⟨hadv, hwal, hids⟩ hround
  obtain ⟨marked, hmarked, hround⟩ := bind_eq_ok.mp hround
  obtain ⟨⟨settled, written⟩, hwritten, hround⟩ := bind_eq_ok.mp hround
  cases hround
  obtain ⟨hsame, hidentified⟩ := checkpointIncarnation_ok hmarked
  have hknown' : t.Known cursor.target := by
    rcases hknown cursor hmem with hid | ⟨wal, hsome, hissued⟩
    · exact .inl (hids _ hid)
    · exact .inr ⟨wal, hwal.trans hsome, hissued⟩
  have hadv' : Advances D s marked := hadv.trans hsame.advances
  have hcovers' : Covers D marked clock walExpiredAt cursor :=
    (hcovers cursor hmem).congr (hsame.wal.trans hwal) hadv'.retired
  obtain ⟨hwrite, hkept, hidkept⟩ :=
    writeRetentionCheckpoint_ok hwritten hcovers' (.inl (hidentified hknown'))
  refine ⟨hadv'.trans hwrite, hkept.trans (hsame.wal.trans hwal), ?_⟩
  intro target htgt
  exact hidkept target (hsame.known target (hids target htgt))

theorem advances_sweepRows (now : ℤ) :
    Advances D s { s with mailboxes := s.mailboxes.sweep now } := by
  refine .of_cursors_eq rfl ?_ fun _ => le_rfl
  rintro target seq (hrow | hwal)
  · obtain ⟨row, hget⟩ := mem_iff_exists.mp hrow
    change (s.mailboxes.rows.filter _)[(target, seq)]? = some row at hget
    rw [getElem?_filter_eq] at hget
    exact .inl (mem_of_eq_some ((filter_eq_some_iff.mp hget).1))
  · exact .inr hwal

theorem sweepDeliveryRetention_ok {now : ℤ} (h : s.sweepDeliveryRetention clock now = .ok s')
    (hretired : ∀ target seq, s.Retired target seq → D target seq)
    (hexp : ∀ wal keys target seq, s.wal = some wal → wal.keysAt target seq = some keys →
      wal.state.expired clock (some now) keys → D target seq) : Advances D s s' := by
  obtain ⟨⟨txn, committed⟩, hloop, h⟩ := bind_eq_ok.mp h
  cases h
  suffices hloop : Advances D s txn ∧ txn.wal = s.wal from
    hloop.1.trans ((advances_pruneExpired clock now).trans
      (advances_publishRetentionCheckpoints clock committed _))
  refine foldlM_ok (P := fun acc : Store × List CursorAckState => Advances D s acc.1 ∧
    acc.1.wal = s.wal) hloop ⟨advances_sweepRows now, rfl⟩ ?_
  rintro ⟨t, done⟩ target ⟨u, done'⟩ - ⟨hadv, hwal⟩ hround
  obtain ⟨previous, hprev, hround⟩ := bind_eq_ok.mp hround
  obtain ⟨⟨settled, written⟩, hwritten, hround⟩ := bind_eq_ok.mp hround
  cases hround
  obtain rfl := previous_ok hprev
  have hretired' : ∀ other seq, t.Retired other seq → D other seq := by
    intro other seq hseq
    exact (hadv.retired other seq hseq).elim (hretired other seq) id
  -- The candidate is the cursor on record, which settles nothing by itself.
  have hcandidate : ∀ candidate : CursorAckState,
      candidate = ((t.cursors.rows[target]?.map (·.cursor)).getD (.new target)) →
      Covers D t clock (some now) candidate ∧
        candidate.settledInboxSeq ≤ t.settledOf candidate.target := by
    rintro candidate rfl
    cases hrow : t.cursors.rows[target]? with
    | none =>
      refine ⟨⟨?_, fun seq => hretired' _ seq, ?_⟩, Nat.zero_le _⟩
      · intro seq hseq
        simp [retires, CursorAckState.new] at hseq
      · intro wal keys seq hsome
        exact hexp wal keys _ seq (hwal ▸ hsome)
    | some stored =>
      have htgt : stored.cursor.target = target := t.cursors.filed target stored hrow
      refine ⟨⟨?_, fun seq => hretired' _ seq, ?_⟩, ?_⟩
      · intro seq hseq
        change D stored.cursor.target seq
        rw [htgt]
        exact hretired' target seq ⟨stored, hrow, hseq⟩
      · intro wal keys seq hsome
        exact hexp wal keys _ seq (hwal ▸ hsome)
      · change stored.cursor.settledInboxSeq ≤ t.settledOf stored.cursor.target
        unfold settledOf
        rw [htgt, hrow]
        exact le_rfl
  obtain ⟨hcovers, hle⟩ := hcandidate _ rfl
  obtain ⟨hwrite, hkept, -⟩ := writeRetentionCheckpoint_ok hwritten hcovers (.inr hle)
  exact ⟨hadv.trans hwrite, hkept.trans hwal⟩

end
end Store

end RouterStore
end Ramflux
