import Ramflux.Crypto.CustodyPins

/-! Conflict evidence: the byte count that drives pruning is exact, pruning never fails once a conflict
fits on its own, and so what one observation can do to a pin. -/
namespace Ramflux.Custody
open Fallible OrdMap List Std.ExtTreeMap Json

namespace CustodyCrypto
variable {C : CustodyCrypto} {conflicts : OrdMap ℕ CustodyConflictEvidence}

def entryLength (C : CustodyCrypto) (entry : ℕ × CustodyConflictEvidence) : ℕ :=
  (number entry.1).length + 3 + (C.evidenceJson entry.2).length

theorem length_conflictsJson (C : CustodyCrypto) (conflicts : OrdMap ℕ CustodyConflictEvidence) :
    (C.conflictsJson conflicts).length =
      2 + (conflicts.toList.map C.entryLength).sum + (conflicts.size - 1) := by
  unfold conflictsJson
  rw [length_numberedObject, length_map, length_toList, List.map_map]
  rfl

theorem length_singletonJson (range : ℕ) (evidence : CustodyConflictEvidence) :
    (numberedObject [(range, C.evidenceJson evidence)]).length =
      2 + C.entryLength (range, evidence) := by
  rw [length_numberedObject]
  rfl

theorem length_conflictsJson_erase {range : ℕ} {evidence : CustodyConflictEvidence}
    (h : conflicts[range]? = some evidence) :
    (C.conflictsJson (conflicts.erase range)).length = (C.conflictsJson conflicts).length -
      (C.entryBytes conflicts range - 2 + if 1 < conflicts.size then 1 else 0) := by
  have hentry : C.entryBytes conflicts range = 2 + C.entryLength (range, evidence) := by
    unfold entryBytes
    rw [h]
    exact length_singletonJson range evidence
  have hperm := conflicts.toList_perm_cons_erase h
  have hsum : (conflicts.toList.map C.entryLength).sum = C.entryLength (range, evidence) +
        ((conflicts.erase range).toList.map C.entryLength).sum := by
    rw [(hperm.map C.entryLength).sum_eq]
    rfl
  have hsize : conflicts.size = (conflicts.erase range).size + 1 := by
    have hlen := hperm.length_eq
    rwa [length_cons, length_toList, length_toList] at hlen
  rw [length_conflictsJson, length_conflictsJson, hentry, hsum, hsize]
  split_ifs <;> omega

def WithinBudget (C : CustodyCrypto) (conflicts : OrdMap ℕ CustodyConflictEvidence) : Prop :=
  conflicts.size ≤ maxConflictRanges ∧
    (C.conflictsJson conflicts).length + 5 ≤ maxConflictEvidenceBytes

theorem withinBudget_empty : C.WithinBudget ∅ := by
  have hlist : (∅ : OrdMap ℕ CustodyConflictEvidence).toList = [] :=
    toList_eq_nil_iff.mpr rfl
  unfold WithinBudget
  rw [length_conflictsJson, hlist, size_empty, map_nil, sum_nil]
  exact ⟨by decide, by decide⟩

/-- The conflict alone is within the byte budget. -/
def FitsAlone (C : CustodyCrypto) (range : ℕ) (evidence : CustodyConflictEvidence) : Prop :=
  (numberedObject [(range, C.evidenceJson evidence)]).length + 5 ≤ maxConflictEvidenceBytes

variable {retained : Option ℕ} {rounds : ℕ} {pin : AccountPin}

variable {oldest : ℕ}

theorem oldestConflict_eq_some (h : oldestConflict conflicts retained = some oldest) :
    some oldest ≠ retained ∧ ∃ evidence, conflicts[oldest]? = some evidence := by
  have hne := find?_some h
  obtain ⟨⟨key, evidence⟩, hmem, rfl⟩ := mem_map.mp (mem_of_find?_eq_some h)
  exact ⟨of_decide_eq_true hne, evidence, mem_toList_iff.mp hmem⟩

/-- Without anything to drop, the retained conflict is the only one, and it fits. -/
theorem withinBudget_of_oldestConflict_eq_none
    (hretained : ∀ range ∈ retained, ∃ evidence, conflicts[range]? = some evidence ∧
      C.FitsAlone range evidence)
    (h : oldestConflict conflicts retained = none) : C.WithinBudget conflicts := by
  have hkeys : ∀ entry ∈ conflicts.toList, some entry.1 = retained := by
    intro entry hentry
    have hnone := find?_eq_none.mp h entry.1 (mem_map_of_mem hentry)
    simpa using hnone
  cases hlist : conflicts.toList with
  | nil =>
    have hempty : conflicts = ∅ := toList_eq_nil_iff.mp hlist
    rw [hempty]
    exact withinBudget_empty
  | cons entry rest =>
    obtain ⟨range, evidence⟩ := entry
    have hrange : range ∈ retained :=
      (hkeys (range, evidence) (by rw [hlist]; exact .head _)).symm
    obtain ⟨evidence', hget, hfits⟩ := hretained range hrange
    have hone : conflicts.toList = [(range, evidence')] := by
      have hperm := conflicts.toList_perm_cons_erase hget
      have herased : (conflicts.erase range).toList = [] := by
        apply eq_nil_iff_forall_not_mem.mpr
        rintro ⟨key, other⟩ hmem
        have hkey := mem_toList_iff.mp hmem
        rw [getElem?_erase_eq] at hkey
        split_ifs at hkey with hne
        have hmem := mem_toList_iff.mpr hkey
        have hretain := hkeys _ hmem
        rw [Option.mem_def.mp hrange] at hretain
        exact hne (Option.some.inj hretain).symm
      rw [herased] at hperm
      exact perm_singleton.mp hperm
    have hsize : conflicts.size = 1 := by
      rw [← length_toList, hone]
      rfl
    refine ⟨hsize ▸ by decide, ?_⟩
    unfold FitsAlone at hfits
    rw [length_singletonJson] at hfits
    rw [length_conflictsJson, hone, hsize]
    simpa using hfits

variable {bytes : ℕ}

theorem pruneLoop_within (h : pin.conflicts.size ≤ maxConflictRanges ∧ bytes + 5 ≤ maxConflictEvidenceBytes) :
    C.pruneLoop retained rounds pin bytes = (pin, .ok bytes) := by
  cases rounds with
  | zero => exact if_pos h
  | succ rounds =>
    exact if_pos h

theorem pruneLoop_drop (h : ¬ (pin.conflicts.size ≤ maxConflictRanges ∧ bytes + 5 ≤ maxConflictEvidenceBytes))
    (holdest : oldestConflict pin.conflicts retained = some oldest) :
    C.pruneLoop retained (rounds + 1) pin bytes = C.pruneLoop retained rounds { pin with
        conflicts := pin.conflicts.erase oldest
        prunedEvidence := min (pin.prunedEvidence + 1) (2 ^ 64 - 1) }
      (bytes - (C.entryBytes pin.conflicts oldest - 2 +
        if 1 < pin.conflicts.size then 1 else 0)) := by
  rw [pruneLoop, if_neg h, holdest]

theorem pruneLoop_stuck (h : ¬ (pin.conflicts.size ≤ maxConflictRanges ∧ bytes + 5 ≤ maxConflictEvidenceBytes))
    (holdest : oldestConflict pin.conflicts retained = none) :
    C.pruneLoop retained (rounds + 1) pin bytes =
      (pin, .error (reject "custody conflict evidence exceeds retention budget")) := by
  rw [pruneLoop, if_neg h, holdest]

structure Pruned (C : CustodyCrypto) (retained : Option ℕ) (pin pruned : AccountPin) : Prop where
  others : pruned = { pin with
    conflicts := pruned.conflicts, prunedEvidence := pruned.prunedEvidence }
  budget : C.WithinBudget pruned.conflicts
  sub : ∀ (range : ℕ) evidence, pruned.conflicts[range]? = some evidence →
    pin.conflicts[range]? = some evidence
  kept : ∀ range ∈ retained, pruned.conflicts[range]? = pin.conflicts[range]?
  same : C.WithinBudget pin.conflicts → pruned.conflicts = pin.conflicts

theorem pruneLoop_exact {kept : AccountPin}
    (h : C.pruneLoop retained rounds pin (C.conflictsJson pin.conflicts).length = (kept, .ok bytes)) :
    bytes = (C.conflictsJson kept.conflicts).length := by
  induction rounds generalizing pin with
  | zero =>
    rw [pruneLoop] at h
    split_ifs at h
    · obtain ⟨rfl, hbytes⟩ := Prod.mk.inj h
      exact (Except.ok.inj hbytes).symm
    · cases (Prod.mk.inj h).2
  | succ rounds ih =>
    by_cases hwithin : C.WithinBudget pin.conflicts
    · rw [pruneLoop_within hwithin] at h
      obtain ⟨rfl, hbytes⟩ := Prod.mk.inj h
      exact (Except.ok.inj hbytes).symm
    cases holdest : oldestConflict pin.conflicts retained with
    | none =>
      rw [pruneLoop_stuck hwithin holdest] at h
      cases (Prod.mk.inj h).2
    | some oldest =>
      obtain ⟨-, evidence, hevid⟩ := oldestConflict_eq_some holdest
      rw [pruneLoop_drop hwithin holdest, ← length_conflictsJson_erase hevid] at h
      exact ih h

/-- With an exact count the loop ends within both budgets, and the count stays exact. -/
theorem pruneLoop_spec {retained : Option ℕ} {rounds : ℕ} {pin : AccountPin}
    (hrounds : pin.conflicts.size ≤ rounds)
    (hretained : ∀ range ∈ retained, ∃ evidence, pin.conflicts[range]? = some evidence ∧
      C.FitsAlone range evidence) :
    ∃ pruned, C.pruneLoop retained rounds pin (C.conflictsJson pin.conflicts).length =
      (pruned, .ok (C.conflictsJson pruned.conflicts).length) ∧ Pruned C retained pin pruned := by
  induction rounds generalizing pin with
  | zero =>
    have hempty : pin.conflicts = ∅ :=
      eq_empty_iff_size_eq_zero.mpr (Nat.le_zero.mp hrounds)
    have hwithin : C.WithinBudget pin.conflicts := hempty ▸ withinBudget_empty
    exact ⟨pin, pruneLoop_within hwithin, rfl, hwithin, fun _ _ h => h, fun _ _ => rfl, fun _ => rfl⟩
  | succ rounds ih =>
    by_cases hwithin : C.WithinBudget pin.conflicts
    · exact ⟨pin, pruneLoop_within hwithin, rfl, hwithin, fun _ _ h => h, fun _ _ => rfl,
        fun _ => rfl⟩
    cases holdest : oldestConflict pin.conflicts retained with
    | none => exact absurd (withinBudget_of_oldestConflict_eq_none hretained holdest) hwithin
    | some oldest =>
      obtain ⟨hne, evidence, hevid⟩ := oldestConflict_eq_some holdest
      have hmem : oldest ∈ pin.conflicts := mem_of_eq_some hevid
      have hsize := pin.conflicts.size_erase_lt hmem
      rw [pruneLoop_drop hwithin holdest, ← length_conflictsJson_erase hevid]
      have hother : ∀ range ∈ retained, oldest ≠ range := by
        rintro range hrange rfl
        exact hne (Option.mem_def.mp hrange).symm
      have hkept : ∀ range ∈ retained,
          (pin.conflicts.erase oldest)[range]? = pin.conflicts[range]? := fun range hrange =>
        getElem?_erase_of_ne _ (hother range hrange)
      let next := { pin with
        conflicts := pin.conflicts.erase oldest
        prunedEvidence := min (pin.prunedEvidence + 1) (2 ^ 64 - 1) }
      have hnext : next.conflicts.size ≤ rounds := by
        change (pin.conflicts.erase oldest).size ≤ rounds
        omega
      obtain ⟨pruned, hrun, hpruned⟩ :=
        ih hnext (fun range hrange => hkept range hrange ▸ hretained range hrange)
      refine ⟨pruned, hrun, ?_, hpruned.budget, ?_, ?_, fun h => absurd h hwithin⟩
      · rw [hpruned.others]
      · intro range evidence' hget
        have hold := hpruned.sub range evidence' hget
        exact (eq_some_of_erase hold).2
      · intro range hrange
        rw [hpruned.kept range hrange]
        exact hkept range hrange

theorem pruneEvidence_spec
    (hretained : ∀ range ∈ retained, ∃ evidence, pin.conflicts[range]? = some evidence ∧
      C.FitsAlone range evidence) :
    ∃ pruned, C.pruneEvidence pin retained = (pruned, .ok (C.conflictsJson pruned.conflicts).length) ∧
      Pruned C retained { pin with rangeRecords := ∅ } pruned :=
  @pruneLoop_spec C retained _ { pin with rangeRecords := ∅ } le_rfl hretained

structure Fenced (C : CustodyCrypto) (pin : AccountPin) (conflicting : Envelope DeviceSet) (range : ℕ)
    (next : AccountPin) : Prop where
  others : next = { pin with
    fencedRanges := pin.fencedRanges.insert range
    rangeRecords := ∅
    conflicts := next.conflicts
    prunedEvidence := next.prunedEvidence }
  budget : C.WithinBudget next.conflicts
  newest : ∃ evidence, next.conflicts[range]? = some evidence ∧ evidence.conflicting = conflicting
  sub : ∀ (other : ℕ) evidence, next.conflicts[other]? = some evidence →
    other = range ∨ pin.conflicts[other]? = some evidence

theorem length_singletonArray (entry : Bytes) :
    (array [numberedObject [], entry]).length = entry.length + 5 := by
  rw [length_array]
  change 2 + (2 + (entry.length + 0)) + 1 = entry.length + 5
  omega

variable {pin : AccountPin} {conflicting : Envelope DeviceSet} {previous : Option (Envelope DeviceSet)}
  {range : ℕ} {kind : CustodyConflictKind}

theorem fence_new {accepted : Envelope DeviceSet} (hnone : pin.conflicts[range]? = none)
    (hacc : C.sameRangeRecord pin previous range = .ok accepted) (hfits : C.FitsAlone range
      { alert := C.conflictAlert accepted conflicting range kind, accepted, conflicting }) :
    ∃ next, C.fence pin conflicting previous range kind =
        (next, .ok (.fenced (C.conflictAlert accepted conflicting range kind))) ∧
      Fenced C pin conflicting range next := by
  let evidence : CustodyConflictEvidence :=
    { alert := C.conflictAlert accepted conflicting range kind, accepted, conflicting }
  let marked := { pin with
    fencedRanges := pin.fencedRanges.insert range
    rangeRecords := pin.rangeRecords.erase range
    conflicts := pin.conflicts.insert range evidence }
  have hevid : marked.conflicts[range]? = some evidence := by
    rw [getElem?_insert_eq, if_pos rfl]
  have hretained : ∀ retained ∈ some range, ∃ evidence, marked.conflicts[retained]? = some evidence ∧
      C.FitsAlone retained evidence := by
    intro retained hmem
    cases hmem
    exact ⟨evidence, hevid, hfits⟩
  obtain ⟨next, hrun, hpruned⟩ := pruneEvidence_spec hretained
  have hbudget : ¬ maxConflictEvidenceBytes <
      (array [numberedObject [], numberedObject [(range, C.evidenceJson evidence)]]).length := by
    rw [length_singletonArray]
    exact not_lt.mpr hfits
  refine ⟨next, ?_, ?_, hpruned.budget, ⟨evidence, ?_, rfl⟩, fun other evidence' hother => ?_⟩
  · unfold fence
    rw [hnone, hacc]
    dsimp only
    rw [if_neg hbudget, hrun]
    rfl
  · rw [hpruned.others]
  · rw [hpruned.kept range rfl]
    exact hevid
  · have hmarked : (pin.conflicts.insert range evidence)[other]? = some evidence' :=
      hpruned.sub other evidence' hother
    rw [getElem?_insert_eq] at hmarked
    split_ifs at hmarked with hrange
    · exact .inl hrange.symm
    · exact .inr hmarked

/-- A conflict is known already, is refused without a trace, or fences the range. -/
theorem fence_cases : (∃ evidence, pin.conflicts[range]? = some evidence ∧
      C.fence pin conflicting previous range kind = (pin, .ok (.fenced evidence.alert))) ∨
    (∃ e, C.fence pin conflicting previous range kind = (pin, .error e)) ∨
    ∃ next alert, C.fence pin conflicting previous range kind = (next, .ok (.fenced alert)) ∧
      Fenced C pin conflicting range next := by
  cases hknown : pin.conflicts[range]? with
  | some evidence =>
    refine .inl ⟨evidence, rfl, ?_⟩
    unfold fence
    rw [hknown]
  | none =>
    cases hacc : C.sameRangeRecord pin previous range with
    | error e =>
      refine .inr (.inl ⟨e, ?_⟩)
      unfold fence
      rw [hknown, hacc]
    | ok accepted =>
      by_cases hfits : C.FitsAlone range
          { alert := C.conflictAlert accepted conflicting range kind, accepted, conflicting }
      · obtain ⟨next, hfence, hfenced⟩ := fence_new hknown hacc hfits
        exact .inr (.inr ⟨next, _, hfence, hfenced⟩)
      · refine .inr (.inl ⟨reject "custody conflict evidence exceeds retention budget", ?_⟩)
        unfold fence
        rw [hknown, hacc]
        dsimp only
        rw [if_pos]
        rw [length_singletonArray]
        exact Nat.lt_of_not_le hfits

structure Accepted (C : CustodyCrypto) (pin : AccountPin) (record : VerifiedRecord) (range : ℕ)
    (certificate hash : String) (devices : OrdMap QualifiedDevice DevicePin) (next : AccountPin) : Prop where
  others : next = { pin with
    certificates := pin.certificates.insert range certificate
    epoch := record.body.deviceSetEpoch
    hash
    revokedIds := pin.revokedIds ∪ record.revokedIds
    devices := pin.devices ∪ devices
    currentRecord := some record.envelope
    rangeRecords := ∅
    conflicts := next.conflicts
    prunedEvidence := next.prunedEvidence }
  budget : C.WithinBudget next.conflicts
  same : C.WithinBudget pin.conflicts → next.conflicts = pin.conflicts

theorem accept_spec {record : VerifiedRecord} {certificate hash : String}
    {devices : OrdMap QualifiedDevice DevicePin} :
    ∃ next, C.accept pin record range certificate hash devices = (next, .ok .advanced) ∧
      Accepted C pin record range certificate hash devices next := by
  let head := { pin with
    certificates := pin.certificates.insert range certificate
    epoch := record.body.deviceSetEpoch
    hash
    currentRecord := some record.envelope
    rangeRecords := pin.rangeRecords.insert range record.envelope }
  have hretained : ∀ retained ∈ (none : Option ℕ), ∃ evidence,
      head.conflicts[retained]? = some evidence ∧ C.FitsAlone retained evidence := nofun
  obtain ⟨pruned, hrun, hpruned⟩ := pruneEvidence_spec hretained
  refine ⟨{ pruned with
    revokedIds := pruned.revokedIds ∪ record.revokedIds
    devices := pruned.devices ∪ devices }, ?_, ?_, hpruned.budget, hpruned.same⟩
  · unfold accept
    rw [hrun]
  · rw [hpruned.others]

end CustodyCrypto

end Ramflux.Custody
