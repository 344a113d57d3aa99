import Ramflux.Node.Settlement

/-! Deadline indexes of mailbox and replay rows: a sweep removes exactly what is due, whatever index
keys were left behind. -/
namespace Ramflux.RouterStore
open OrdMap

/-- Key of an expiry index; its text, with the deadline in twenty digits, is ordered like this pair. -/
abbrev ExpiryKey := ℕ × String

/-- Deadlines before the epoch share the first prefix. -/
def deadlinePrefix (deadline : ℤ) : ℕ := deadline.toNat

def indexKey (deadline : ℤ) (rowKey : String) : ExpiryKey := (deadlinePrefix deadline, rowKey)

/-- Rows and their expiry index. -/
structure Indexed (ν : Type) where
  rows : OrdMap String ν := ∅
  index : OrdSet ExpiryKey := ∅

namespace Indexed
variable {ν : Type} (deadline : ν → ℤ) (due : ν → Bool) (t : Indexed ν)

def write (key : String) (row : ν) : Indexed ν :=
  ⟨t.rows.insert key row, t.index.insert (indexKey (deadline row) key)⟩

/-- A row goes together with its index key. -/
def removeRow (key : String) : Indexed ν :=
  match t.rows[key]? with
  | none => t
  | some row => ⟨t.rows.erase key, t.index.erase (indexKey (deadline row) key)⟩

def dueKeys (stop : ℕ) : List ExpiryKey := t.index.toList.filter (·.1 < stop)

/-- One round of a sweep, with the rows removed so far: the row's own deadline is checked again. -/
def sweepKey (acc : List ν × Indexed ν) (key : ExpiryKey) : List ν × Indexed ν :=
  match acc.2.rows[key.2]?.filter due with
  | none => (acc.1, { acc.2 with index := acc.2.index.erase key })
  | some row => (acc.1 ++ [row], ⟨acc.2.rows.erase key.2, acc.2.index.erase key⟩)

def sweep (stop : ℕ) : List ν × Indexed ν := (t.dueKeys stop).foldl (sweepKey due) ([], t)

end Indexed

structure LocalDeliveryEnvelopeRecord where
  target : String
  expiresAt : ℤ

structure ExpiryStore where
  inbox : Indexed StoredInboxEntry := {}
  replay : Indexed ℤ := {}
  localDelivery : Indexed LocalDeliveryEnvelopeRecord := {}

namespace ExpiryStore

/-- A sweep that is no dry run: removed rows and their mailboxes, and the store. -/
def sweep (s : ExpiryStore) (now : ℤ) : (ℕ × OrdSet String) × ExpiryStore :=
  let stop := deadlinePrefix (satAddI now 1)
  let inbox := s.inbox.sweep (·.retainUntil ≤ now) stop
  let replay := s.replay.sweep (· < now) (deadlinePrefix now)
  let localDelivery := s.localDelivery.sweep (·.expiresAt ≤ now) stop
  ((inbox.1.length + replay.1.length, OrdSet.extend ∅ (inbox.1.map (·.entry.target))),
    ⟨inbox.2, replay.2, localDelivery.2⟩)

inductive Op
  | writeInbox (key : String) (row : StoredInboxEntry)
  | removeInbox (key : String)
  | removeInboxEntriesForTarget (target : String)
  | writeReplay (key : String) (expiresAt : ℤ)
  | removeReplay (key : String)
  | writeLocalDelivery (key : String) (record : LocalDeliveryEnvelopeRecord)
  | sweep (now : ℤ)

/-- A mailbox row replaces the old one with its key. Replay rows and the rows of a deleted mailbox leave
their keys behind. -/
def apply (s : ExpiryStore) : Op → ExpiryStore
  | .writeInbox key row =>
    { s with inbox := (s.inbox.removeRow (·.retainUntil) key).write (·.retainUntil) key row }
  | .removeInbox key => { s with inbox := s.inbox.removeRow (·.retainUntil) key }
  | .removeInboxEntriesForTarget target =>
    let rows := s.inbox.rows.filter fun _ row => row.entry.target ≠ target
    { s with inbox := { s.inbox with rows } }
  | .writeReplay key expiresAt => { s with replay := s.replay.write id key expiresAt }
  | .removeReplay key => { s with replay := { s.replay with rows := s.replay.rows.erase key } }
  | .writeLocalDelivery key record =>
    { s with localDelivery := s.localDelivery.write (·.expiresAt) key record }
  | .sweep now => (s.sweep now).2

end ExpiryStore

namespace Indexed
variable {ν : Type} {deadline : ν → ℤ} {due : ν → Bool} {t : Indexed ν} {key : String} {row : ν} {stop : ℕ}

/-- Every row has its index key. -/
def Covered (deadline : ν → ℤ) (t : Indexed ν) : Prop :=
  ∀ (key : String) (row : ν), t.rows[key]? = some row → indexKey (deadline row) key ∈ t.index

section
variable (h : t.Covered deadline)
include h

theorem Covered.write : (t.write deadline key row).Covered deadline := by
  intro key' row' hget
  rcases eq_some_of_insert hget with ⟨rfl, rfl⟩ | ⟨-, hold⟩
  · exact OrdSet.mem_insert_iff.mpr (.inl rfl)
  · exact OrdSet.mem_insert_iff.mpr (.inr (h key' row' hold))

theorem Covered.subset {rows : OrdMap String ν}
    (hrows : ∀ (key : String) row, rows[key]? = some row → t.rows[key]? = some row) :
    Covered deadline { t with rows } :=
  fun key row hget => h key row (hrows key row hget)

theorem Covered.removeRow : (t.removeRow deadline key).Covered deadline := by
  unfold Indexed.removeRow
  cases t.rows[key]? with
  | none => exact h
  | some row =>
    intro key' row' hget
    obtain ⟨hne, hold⟩ := eq_some_of_erase hget
    apply OrdSet.mem_erase_iff.mpr
    exact ⟨fun heq => hne (congrArg Prod.snd heq).symm, h key' row' hold⟩

end

variable (keys : List ExpiryKey) (acc : List ν × Indexed ν)

theorem rows_sweepKey (first : ExpiryKey) :
    (sweepKey due acc first).2.rows[key]? = some row ↔
      acc.2.rows[key]? = some row ∧ ¬ (due row ∧ key = first.2) := by
  unfold sweepKey
  cases hfound : acc.2.rows[first.2]?.filter due with
  | none =>
    refine ⟨fun hget => ⟨hget, ?_⟩, And.left⟩
    rintro ⟨hdue, rfl⟩
    exact absurd (Option.filter_eq_some_iff.mpr ⟨hget, hdue⟩) (by simp [hfound])
  | some found =>
    obtain ⟨hfirst, hdue⟩ := Option.filter_eq_some_iff.mp hfound
    constructor
    · intro hget
      obtain ⟨hne, hold⟩ := eq_some_of_erase hget
      exact ⟨hold, fun hboth => hne hboth.2.symm⟩
    · rintro ⟨hold, hlive⟩
      have hne : first.2 ≠ key := by
        rintro rfl
        cases hfirst.symm.trans hold
        exact hlive ⟨hdue, rfl⟩
      exact (getElem?_erase_of_ne _ hne).trans hold

theorem mem_index_sweepKey {first other : ExpiryKey} :
    other ∈ (sweepKey due acc first).2.index ↔ other ≠ first ∧ other ∈ acc.2.index := by
  unfold sweepKey
  cases acc.2.rows[first.2]?.filter due <;> exact OrdSet.mem_erase_iff

theorem rows_foldl_sweepKey :
    (keys.foldl (sweepKey due) acc).2.rows[key]? = some row ↔
      acc.2.rows[key]? = some row ∧ ¬ (due row ∧ key ∈ keys.map (·.2)) := by
  induction keys generalizing acc with
  | nil => simp
  | cons first keys ih =>
    rw [List.foldl_cons, ih, rows_sweepKey, List.map_cons, List.mem_cons]
    tauto

theorem mem_index_foldl_sweepKey {other : ExpiryKey} :
    other ∈ (keys.foldl (sweepKey due) acc).2.index ↔ other ∈ acc.2.index ∧ other ∉ keys := by
  induction keys generalizing acc with
  | nil => simp
  | cons first keys ih =>
    rw [List.foldl_cons, ih, mem_index_sweepKey, List.mem_cons]
    tauto

theorem mem_dueKeys {key : ExpiryKey} : key ∈ t.dueKeys stop ↔ key ∈ t.index ∧ key.1 < stop := by
  simp [dueKeys]

theorem Covered.sweep (h : t.Covered deadline)
    (hsound : ∀ row, deadlinePrefix (deadline row) < stop → due row) :
    (t.sweep due stop).2.Covered deadline := by
  intro key row hget
  obtain ⟨hold, hlive⟩ := (rows_foldl_sweepKey _ _).mp hget
  refine (mem_index_foldl_sweepKey _ _).mpr ⟨h key row hold, fun hmem => hlive ?_⟩
  -- a key that was passed is that of a row which is due
  exact ⟨hsound row (mem_dueKeys.mp hmem).2, List.mem_map.mpr ⟨_, hmem, rfl⟩⟩

theorem rows_sweep (h : t.Covered deadline)
    (hexact : ∀ row, deadlinePrefix (deadline row) < stop ↔ due row) :
    (t.sweep due stop).2.rows = t.rows.filter fun _ row => ¬ due row := by
  apply Std.ExtTreeMap.ext_getElem?
  intro key
  apply Option.ext
  intro row
  rw [Indexed.sweep, rows_foldl_sweepKey, getElem?_filter_eq, Option.filter_eq_some_iff, decide_eq_true_eq]
  refine and_congr_right fun hget => not_congr (and_iff_left_of_imp fun hdue => ?_)
  exact List.mem_map.mpr ⟨_, mem_dueKeys.mpr ⟨h key row hget, (hexact row).mpr hdue⟩, rfl⟩

end Indexed

namespace ExpiryStore
variable {s : ExpiryStore} {now : ℤ}

theorem of_prefix_lt {deadline : ℤ} (h : deadlinePrefix deadline < deadlinePrefix now) : deadline < now := by
  unfold deadlinePrefix at h
  omega

theorem of_prefix_lt_succ {deadline : ℤ} (h : deadlinePrefix deadline < deadlinePrefix (satAddI now 1)) :
    deadline ≤ now := by
  unfold deadlinePrefix satAddI i64Min at h
  omega

structure Covered (s : ExpiryStore) : Prop where
  inbox : s.inbox.Covered (·.retainUntil)
  replay : s.replay.Covered id

theorem Covered.apply (h : s.Covered) (op : Op) : (s.apply op).Covered := by
  cases op with
  | writeInbox key row => exact ⟨h.inbox.removeRow.write, h.replay⟩
  | removeInbox key => exact ⟨h.inbox.removeRow, h.replay⟩
  | removeInboxEntriesForTarget target =>
    refine ⟨h.inbox.subset fun key row hget => ?_, h.replay⟩
    rw [getElem?_filter_eq] at hget
    exact (Option.filter_eq_some_iff.mp hget).1
  | writeReplay key expiresAt => exact ⟨h.inbox, h.replay.write⟩
  | removeReplay key => exact ⟨h.inbox, h.replay.subset fun _ _ hget => (eq_some_of_erase hget).2⟩
  | writeLocalDelivery key record => exact ⟨h.inbox, h.replay⟩
  | sweep now =>
    constructor
    · exact h.inbox.sweep fun _ hlt => decide_eq_true (of_prefix_lt_succ hlt)
    · exact h.replay.sweep fun _ hlt => decide_eq_true (of_prefix_lt hlt)

theorem covered_run (ops : List Op) : (ops.foldl apply {}).Covered := by
  apply List.foldlRecOn
  · constructor <;> exact fun key row hget => by simp at hget
  · exact fun s h op _ => h.apply op

/-- A sweep removes exactly the rows that are due. -/
theorem sweep_exact (ops : List Op) (now : ℤ) (hpos : 0 < now) (hmax : now < i64Max) :
    let s := ops.foldl apply {}
    (s.sweep now).2.inbox.rows = s.inbox.rows.filter (fun _ row => ¬ row.retainUntil ≤ now) ∧
      (s.sweep now).2.replay.rows = s.replay.rows.filter (fun _ expiresAt => ¬ expiresAt < now) := by
  have hcovered := covered_run ops
  have hnext : satAddI now 1 = now + 1 := by
    unfold satAddI i64Min
    omega
  constructor
  · refine (Indexed.rows_sweep hcovered.inbox fun row => ?_).trans (by simp)
    rw [hnext, decide_eq_true_eq]
    unfold deadlinePrefix
    omega
  · refine (Indexed.rows_sweep hcovered.replay fun row => ?_).trans (by simp)
    rw [decide_eq_true_eq]
    unfold deadlinePrefix
    simp only [id]
    omega

def sampleRow (sequence : ℕ) (target : String) (retainUntil : ℤ) : StoredInboxEntry :=
  ⟨⟨sequence, target, ⟨∅, "e", "s", target, 0, 0⟩⟩, retainUntil⟩

/-- Row `a` comes back after its mailbox was deleted, with a later deadline, and replay row `k` is moved:
both have a key that is due. -/
def staleKeys : List Op :=
  [.writeInbox "a" (sampleRow 1 "m" 3), .writeInbox "b" (sampleRow 1 "n" 4),
    .removeInboxEntriesForTarget "m", .writeInbox "a" (sampleRow 2 "m" 9), .writeReplay "k" 3,
    .writeReplay "k" 9, .writeReplay "j" 4]

/-- A sweep at 5 removes `b` and `j` only. -/
theorem sweep_exact_stale :
    indexKey 3 "a" ∈ (staleKeys.foldl apply {}).inbox.index ∧
      (((staleKeys.foldl apply {}).sweep 5).2.inbox.rows.toList.map (·.1)) = ["a"] ∧
      (((staleKeys.foldl apply {}).sweep 5).2.replay.rows.toList) = [("k", 9)] := by
  obtain ⟨hinbox, hreplay⟩ := sweep_exact staleKeys 5 (by decide) (by decide)
  rw [hinbox, hreplay]
  refine ⟨by decide +kernel, by decide +kernel, by decide +kernel⟩

/-- At the last clock reading the range ends below the rows due in that second. -/
theorem sweep_misses_last : ¬ ∀ (ops : List Op) (now : ℤ), 0 < now →
    let s := ops.foldl apply {}
    (s.sweep now).2.inbox.rows = s.inbox.rows.filter (fun _ row => ¬ row.retainUntil ≤ now) ∧
      (s.sweep now).2.replay.rows = s.replay.rows.filter (fun _ expiresAt => ¬ expiresAt < now) := by
  intro hall
  have hrows := (hall [.writeInbox "k" (sampleRow 1 "m" i64Max)] i64Max (by decide)).1
  have hget := congrArg (fun rows => rows["k"]?.isSome) hrows
  exact absurd hget (by decide +kernel)

end ExpiryStore
end Ramflux.RouterStore
