import Ramflux.Lib.OrdCount
import Ramflux.Node.NotifyWalAppends

/-! Compaction of the wake log. A crash may leave any newer part of the history in front of its summary,
so replaying both has to give what the whole history gives. -/
namespace Ramflux.NotifyWal
open Fallible OrdMap List Except Std.ExtTreeMap State
open RouterWal (WalError Location Segment crc32 writeTo_concat bytesOf_concat)

variable {codec : Codec}

/-- Payloads of the queue entry and of the raw wake kept under an identifier. -/
def State.wake (s : State) (id : String) : Option Payload × Option Payload :=
  (s.entriesById[id]?.map (·.payload), s.rawWakesById[id]?.map (·.payload))

def State.attempts (s : State) (queue : String) : Option (List ProviderPushAttempt) :=
  s.providerAttemptsByQueue[queue]?

/-- What a payload does to the wake of one identifier. -/
def wakeStep (id : String) (wake : Option Payload × Option Payload) (payload : Payload) :
    Option Payload × Option Payload :=
  match payload with
  | .queueEntry entry => if entry.queueId = id then (some payload, none) else wake
  | .rawWake raw => if raw.queueId = id ∧ wake.1 = none then (wake.1, some payload) else wake
  | .providerAttempt _ => wake
  | .delivered queueId => if queueId = id then (none, none) else wake

def addAttempt (attempts : List ProviderPushAttempt) (attempt : ProviderPushAttempt) :
    List ProviderPushAttempt :=
  if attempt ∈ attempts then attempts else attempts ++ [attempt]

/-- What a payload does to the attempts of one queue. -/
def attemptsStep (queue : String) (attempts : Option (List ProviderPushAttempt)) (payload : Payload) :
    Option (List ProviderPushAttempt) :=
  match payload with
  | .providerAttempt attempt =>
    if attempt.queueId = queue then some (addAttempt (attempts.getD []) attempt) else attempts
  | _ => attempts

theorem apply_providerAttempt (s : State) (attempt : ProviderPushAttempt) (location : Location) :
    s.apply (.providerAttempt attempt) location = { s with
        providerAttemptsByQueue := s.providerAttemptsByQueue.insert attempt.queueId
          (addAttempt (s.providerAttemptsByQueue[attempt.queueId]?.getD []) attempt) } := rfl

theorem wake_apply (s : State) (payload : Payload) (location : Location) (id : String) :
    (s.apply payload location).wake id = wakeStep id (s.wake id) payload := by
  cases payload with
  | queueEntry entry =>
    unfold apply wake wakeStep
    dsimp only
    rw [getElem?_insert_eq, getElem?_erase_eq]
    split_ifs
    · rfl
    · rfl
  | rawWake raw =>
    unfold apply wakeStep
    dsimp only
    by_cases hid : raw.queueId = id
    · have hentry : raw.queueId ∈ s.entriesById ↔ ¬ (s.wake id).1 = none := by
        rw [hid, mem_iff_isSome_getElem?, Option.isSome_iff_ne_none]
        exact not_congr (Option.map_eq_none_iff).symm
      by_cases hnone : (s.wake id).1 = none
      · rw [if_neg fun h => hentry.mp h hnone, if_pos ⟨hid, hnone⟩]
        unfold wake
        rw [getElem?_insert_eq, if_pos hid]
        rfl
      · rw [if_pos (hentry.mpr hnone), if_neg fun h => hnone h.2]
    · have hkeep : ¬ (raw.queueId = id ∧ (s.wake id).1 = none) := fun h => hid h.1
      split_ifs
      · rfl
      · unfold wake
        rw [getElem?_insert_eq, if_neg hid]
  | providerAttempt attempt => rfl
  | delivered queueId =>
    unfold apply wake wakeStep
    dsimp only
    rw [getElem?_erase_eq, getElem?_erase_eq]
    split_ifs
    · rfl
    · rfl

theorem attempts_apply (s : State) (payload : Payload) (location : Location) (queue : String) :
    (s.apply payload location).attempts queue = attemptsStep queue (s.attempts queue) payload := by
  cases payload with
  | queueEntry entry | delivered queueId => rfl
  | rawWake raw =>
    unfold apply
    dsimp only
    split_ifs
    · rfl
    · rfl
  | providerAttempt attempt =>
    rw [apply_providerAttempt]
    unfold attempts attemptsStep
    dsimp only
    rw [getElem?_insert_eq]
    split_ifs with hqueue
    · rw [hqueue]
    · rfl

theorem wake_replay (s : State) (records : List RecoveredRecord) (id : String) :
    (replay s records).wake id = (records.map (·.payload)).foldl (wakeStep id) (s.wake id) := by
  rw [foldl_map]
  exact (foldl_hom (wake · id) fun s record => (wake_apply s record.payload record.location id).symm).symm

theorem attempts_replay (s : State) (records : List RecoveredRecord) (queue : String) :
    (replay s records).attempts queue =
      (records.map (·.payload)).foldl (attemptsStep queue) (s.attempts queue) := by
  rw [foldl_map]
  exact (foldl_hom (attempts · queue) fun s record =>
    (attempts_apply s record.payload record.location queue).symm).symm

/-- Entries, raw wakes and attempts stand under their identifiers, none of which has both an entry and a
raw wake; no attempt is kept twice, and payloads kept have a property. -/
structure Keyed (P : Payload → Prop) (s : State) : Prop where
  entry : ∀ (id : String) r, s.entriesById[id]? = some r →
    P r.payload ∧ ∃ entry, r.payload = .queueEntry entry ∧ entry.queueId = id
  raw : ∀ (id : String) r, s.rawWakesById[id]? = some r → s.entriesById[id]? = none ∧
    P r.payload ∧ ∃ raw, r.payload = .rawWake raw ∧ raw.queueId = id
  attempts : ∀ (queue : String) attempts, s.providerAttemptsByQueue[queue]? = some attempts →
    attempts ≠ [] ∧ attempts.Nodup ∧
      ∀ attempt ∈ attempts, attempt.queueId = queue ∧ P (.providerAttempt attempt)

variable {P : Payload → Prop}

theorem Keyed.empty : Keyed P .empty := by
  refine ⟨fun id r h => ?_, fun id r h => ?_, fun queue attempts h => ?_⟩
  · exact absurd (getElem?_empty.symm.trans h) nofun
  · exact absurd (getElem?_empty.symm.trans h) nofun
  · exact absurd (getElem?_empty.symm.trans h) nofun

variable {s : State} {payload : Payload} {w : Writer} {lines : List Line} {logged : List Payload}
  {locations : List Location} {directory : Directory}

theorem Keyed.addAttempt (h : Keyed P s) {attempt : ProviderPushAttempt}
    (hatt : P (.providerAttempt attempt)) :
    let attempts := NotifyWal.addAttempt (s.providerAttemptsByQueue[attempt.queueId]?.getD []) attempt
    attempts ≠ [] ∧ attempts.Nodup ∧
      ∀ other ∈ attempts, other.queueId = attempt.queueId ∧ P (.providerAttempt other) := by
  have hold : (s.providerAttemptsByQueue[attempt.queueId]?.getD []).Nodup ∧
      ∀ other ∈ s.providerAttemptsByQueue[attempt.queueId]?.getD [],
        other.queueId = attempt.queueId ∧ P (.providerAttempt other) := by
    cases hqueue : s.providerAttemptsByQueue[attempt.queueId]? with
    | none => exact ⟨nodup_nil, fun other hother => absurd hother not_mem_nil⟩
    | some attempts => exact (h.attempts _ _ hqueue).2
  unfold NotifyWal.addAttempt
  split_ifs with hmem
  · exact ⟨ne_nil_of_mem hmem, hold⟩
  · refine ⟨append_ne_nil_of_right_ne_nil _ (cons_ne_nil _ _), ?_, fun other hother => ?_⟩
    · exact hold.1.append (nodup_singleton _) (disjoint_singleton.mpr hmem)
    · obtain hother | hother := mem_append.mp hother
      · exact hold.2 other hother
      · rw [mem_singleton.mp hother]
        exact ⟨rfl, hatt⟩

theorem Keyed.apply (h : Keyed P s) (hpayload : P payload)
    (location : Location) : Keyed P (s.apply payload location) := by
  cases payload with
  | queueEntry entry =>
    unfold apply
    refine ⟨fun id r hr => ?_, fun id r hr => ?_, h.attempts⟩
    · rw [getElem?_insert_eq] at hr
      split_ifs at hr with hid
      · rw [← Option.some.inj hr]
        exact ⟨hpayload, entry, rfl, hid⟩
      · exact h.entry id r hr
    · rw [getElem?_erase_eq] at hr
      split_ifs at hr with hid
      rw [getElem?_insert_eq, if_neg hid]
      exact h.raw id r hr
  | rawWake raw =>
    unfold apply
    dsimp only
    split_ifs with hentry
    · exact h
    · refine ⟨h.entry, fun id r hr => ?_, h.attempts⟩
      rw [getElem?_insert_eq] at hr
      split_ifs at hr with hid
      · rw [← Option.some.inj hr, ← hid]
        exact ⟨getElem?_eq_none hentry, hpayload, raw, rfl, rfl⟩
      · exact h.raw id r hr
  | providerAttempt attempt =>
    refine ⟨h.entry, h.raw, fun queue attempts hqueue => ?_⟩
    rw [apply_providerAttempt] at hqueue
    rw [getElem?_insert_eq] at hqueue
    split_ifs at hqueue with hid
    · rw [← Option.some.inj hqueue, ← hid]
      exact h.addAttempt hpayload
    · exact h.attempts queue attempts hqueue
  | delivered queueId =>
    unfold apply
    refine ⟨fun id r hr => ?_, fun id r hr => ?_, h.attempts⟩
    · exact h.entry id r (eq_some_of_erase hr).2
    · rw [getElem?_erase_eq] at hr
      split_ifs at hr with hid
      rw [getElem?_erase_eq, if_neg hid]
      exact h.raw id r hr

theorem Keyed.replay (h : Keyed P s) {records : List RecoveredRecord}
    (hrecs : ∀ record ∈ records, P record.payload) : Keyed P (replay s records) := by
  induction records generalizing s with
  | nil => exact h
  | cons record records ih =>
    have hnext := h.apply (hrecs record (.head _)) record.location
    exact ih hnext fun other hother => hrecs other (.tail _ hother)

section
variable {s : State}

theorem Keyed.compactedPayloads (h : Keyed P s) : s.compactedPayloads =
    s.entriesById.toList.map (·.2.payload) ++ s.rawWakesById.toList.map (·.2.payload) ++
      s.providerAttemptsByQueue.toList.flatMap fun e => e.2.map .providerAttempt := by
  have hents : (s.entriesById.toList.map (·.2.payload)).filter isQueueEntry =
      s.entriesById.toList.map (·.2.payload) := by
    refine filter_eq_self.mpr fun payload hpayload => ?_
    obtain ⟨e, he, rfl⟩ := mem_map.mp hpayload
    obtain ⟨-, entry, hentry, -⟩ := h.entry e.1 e.2 (mem_toList_iff.mp he)
    rw [hentry]
    rfl
  have hraws : (s.rawWakesById.toList.map (·.2.payload)).filter isRawWake =
      s.rawWakesById.toList.map (·.2.payload) := by
    refine filter_eq_self.mpr fun payload hpayload => ?_
    obtain ⟨e, he, rfl⟩ := mem_map.mp hpayload
    obtain ⟨-, -, raw, hraw, -⟩ := h.raw e.1 e.2 (mem_toList_iff.mp he)
    rw [hraw]
    rfl
  unfold State.compactedPayloads
  rw [hents, hraws]

theorem Keyed.of_mem_compactedPayloads (h : Keyed P s) {payload : Payload}
    (hpayload : payload ∈ s.compactedPayloads) : P payload := by
  rw [h.compactedPayloads] at hpayload
  obtain hpayload | hatt := mem_append.mp hpayload
  · obtain hentry | hraw := mem_append.mp hpayload
    · obtain ⟨e, he, rfl⟩ := mem_map.mp hentry
      exact (h.entry e.1 e.2 (mem_toList_iff.mp he)).1
    · obtain ⟨e, he, rfl⟩ := mem_map.mp hraw
      exact (h.raw e.1 e.2 (mem_toList_iff.mp he)).2.1
  · obtain ⟨e, he, hatt⟩ := mem_flatMap.mp hatt
    obtain ⟨attempt, hmem, rfl⟩ := mem_map.mp hatt
    exact ((h.attempts e.1 e.2 (mem_toList_iff.mp he)).2.2 attempt hmem).2

/-- A wake seen by replaying the newer part of a history is still there, except for a raw wake that the
older part had turned into an entry. -/
def Shows (part whole : Option Payload × Option Payload) : Prop :=
  (∀ payload, part.1 = some payload → whole.1 = some payload) ∧
    ∀ payload, part.2 = some payload → whole.2 = some payload ∨ whole.1 ≠ none

theorem Shows.empty (whole : Option Payload × Option Payload) : Shows (none, none) whole :=
  ⟨fun _ hsome => absurd hsome.symm (Option.some_ne_none _), fun _ hsome => absurd hsome.symm (Option.some_ne_none _)⟩

variable {part whole : Option Payload × Option Payload}

theorem Shows.step (h : Shows part whole) (id : String)
    (payload : Payload) : Shows (wakeStep id part payload) (wakeStep id whole payload) := by
  cases payload with
  | queueEntry entry =>
    unfold wakeStep
    dsimp only
    split_ifs
    · exact ⟨fun _ hsome => hsome, fun _ hsome => absurd hsome.symm (Option.some_ne_none _)⟩
    · exact h
  | rawWake raw =>
    unfold wakeStep
    dsimp only
    split_ifs with hpart hwhole hwhole
    · refine ⟨h.1, fun payload hsome => .inl hsome⟩
    · refine ⟨h.1, fun payload hsome => .inr fun hnone => hwhole ⟨hpart.1, hnone⟩⟩
    · -- an entry of the part is one of the whole
      have hnone : part.1 = none := by
        refine Option.eq_none_iff_forall_ne_some.mpr fun payload hsome => ?_
        exact absurd (h.1 payload hsome) (hwhole.2 ▸ nofun)
      exact absurd ⟨hwhole.1, hnone⟩ hpart
    · exact h
  | providerAttempt attempt => exact h
  | delivered queueId =>
    unfold wakeStep
    dsimp only
    split_ifs
    · exact .empty _
    · exact h

theorem Shows.foldl (h : Shows part whole) (id : String) (payloads : List Payload) :
    Shows (payloads.foldl (wakeStep id) part) (payloads.foldl (wakeStep id) whole) :=
  foldl_rel h fun payload _ _ _ h => h.step id payload

theorem wakeStep_attempts (id : String) (wake : Option Payload × Option Payload)
    (m : OrdMap String (List ProviderPushAttempt)) :
    (m.toList.flatMap fun e => e.2.map Payload.providerAttempt).foldl (wakeStep id) wake = wake := by
  refine foldl_of_fixed (fun payload hpayload wake => ?_) wake
  obtain ⟨e, -, hatt⟩ := mem_flatMap.mp hpayload
  obtain ⟨attempt, -, rfl⟩ := mem_map.mp hatt
  rfl

/-- The summary settles every wake, whatever part of the history stands before it. -/
theorem Keyed.wake_compacted (h : Keyed P s) {id : String} {wake : Option Payload × Option Payload}
    (hshows : Shows wake (s.wake id)) : s.compactedPayloads.foldl (wakeStep id) wake = s.wake id := by
  have hents := foldl_toList_of_key s.entriesById (fun wake e => wakeStep id wake e.2.payload) id
    (fun e he hne wake => by
      obtain ⟨-, entry, hentry, hid⟩ := h.entry e.1 e.2 (mem_toList_iff.mp he)
      rw [hentry]
      exact if_neg (hid ▸ hne)) wake
  have hraws := fun wake => foldl_toList_of_key s.rawWakesById
    (fun wake e => wakeStep id wake e.2.payload) id
    (fun e he hne wake => by
      obtain ⟨-, -, raw, hraw, hid⟩ := h.raw e.1 e.2 (mem_toList_iff.mp he)
      rw [hraw]
      exact if_neg fun hboth => hne (hid.symm.trans hboth.1)) wake
  rw [h.compactedPayloads, foldl_append, foldl_append, wakeStep_attempts, foldl_map,
    foldl_map, hents, hraws]
  unfold State.wake at hshows ⊢
  cases hentry : s.entriesById[id]? with
  | some r =>
    have hraw : s.rawWakesById[id]? = none := by
      refine Option.eq_none_iff_forall_ne_some.mpr fun raw hsome => ?_
      exact absurd (h.raw id raw hsome).1 (hentry ▸ nofun)
    obtain ⟨-, entry, hpayload, hid⟩ := h.entry id r hentry
    rw [hraw]
    simp only [Option.map_some, Option.getD_some, Option.map_none, Option.getD_none]
    rw [hpayload]
    exact if_pos hid
  | none =>
    rw [hentry] at hshows
    have hpart : wake.1 = none := by
      refine Option.eq_none_iff_forall_ne_some.mpr fun payload hsome => ?_
      exact absurd (hshows.1 payload hsome) nofun
    cases hraw : s.rawWakesById[id]? with
    | some r =>
      obtain ⟨-, -, raw, hpayload, hid⟩ := h.raw id r hraw
      simp only [Option.map_some, Option.getD_some, Option.map_none, Option.getD_none]
      rw [hpayload]
      exact (if_pos ⟨hid, hpart⟩).trans (by rw [hpart])
    | none =>
      rw [hraw] at hshows
      have hpart' : wake.2 = none := by
        refine Option.eq_none_iff_forall_ne_some.mpr fun payload hsome => ?_
        obtain hsome | hne := hshows.2 payload hsome
        · cases hsome
        · exact hne rfl
      exact Prod.ext hpart hpart'

theorem attemptsStep_wakes (queue : String) (attempts : Option (List ProviderPushAttempt))
    (h : Keyed P s) : (s.entriesById.toList.map (·.2.payload) ++
      s.rawWakesById.toList.map (·.2.payload)).foldl (attemptsStep queue) attempts = attempts := by
  refine foldl_of_fixed (fun payload hpayload attempts => ?_) attempts
  obtain hentry | hraw := mem_append.mp hpayload
  · obtain ⟨e, he, rfl⟩ := mem_map.mp hentry
    obtain ⟨-, entry, hpayload, -⟩ := h.entry e.1 e.2 (mem_toList_iff.mp he)
    rw [hpayload]
    rfl
  · obtain ⟨e, he, rfl⟩ := mem_map.mp hraw
    obtain ⟨-, -, raw, hpayload, -⟩ := h.raw e.1 e.2 (mem_toList_iff.mp he)
    rw [hpayload]
    rfl

variable {queue : String} {attempt : ProviderPushAttempt}

variable {attempts : List ProviderPushAttempt}

theorem attemptsStep_other (h : ∀ attempt ∈ attempts, attempt.queueId ≠ queue) (before : Option
    (List ProviderPushAttempt)) :
    (attempts.map Payload.providerAttempt).foldl (attemptsStep queue) before = before := by
  refine foldl_of_fixed (fun payload hpayload before => ?_) before
  obtain ⟨attempt, hmem, rfl⟩ := mem_map.mp hpayload
  exact if_neg (h attempt hmem)

/-- New attempts of a queue are kept in their order. -/
theorem attemptsStep_own {queue : String} {attempts : List ProviderPushAttempt}
    (h : ∀ attempt ∈ attempts, attempt.queueId = queue) {before : List ProviderPushAttempt}
    (hnodup : (before ++ attempts).Nodup) :
    (attempts.map Payload.providerAttempt).foldl (attemptsStep queue) (some before) =
      some (before ++ attempts) := by
  induction attempts generalizing before with
  | nil =>
    rw [append_nil]
    rfl
  | cons attempt attempts ih =>
    have hnew : attempt ∉ before := by
      intro hmem
      exact (nodup_append.mp hnodup).2.2 attempt hmem attempt (.head _) rfl
    have hstep : attemptsStep queue (some before) (.providerAttempt attempt) = some (before ++ [attempt]) := by
      refine (if_pos (h attempt (.head _))).trans ?_
      exact congrArg some (if_neg hnew)
    rw [map_cons, foldl_cons, hstep]
    rw [append_cons before attempt attempts] at hnodup ⊢
    exact ih (fun other hother => h other (.tail _ hother)) hnodup

theorem Keyed.attempts_compacted (h : Keyed P s) (queue : String) :
    s.compactedPayloads.foldl (attemptsStep queue) none = s.attempts queue := by
  have hqueues := foldl_toList_of_key s.providerAttemptsByQueue
    (fun before e => (e.2.map Payload.providerAttempt).foldl (attemptsStep queue) before) queue
    (fun e he hne before => by
      refine attemptsStep_other (fun attempt hmem => ?_) before
      obtain ⟨-, -, hown⟩ := h.attempts e.1 e.2 (mem_toList_iff.mp he)
      exact (hown attempt hmem).1 ▸ hne) none
  rw [h.compactedPayloads, foldl_append, attemptsStep_wakes queue none h, foldl_flatMap, hqueues]
  unfold State.attempts
  cases hqueue : s.providerAttemptsByQueue[queue]? with
  | none => rfl
  | some attempts =>
    obtain ⟨hne, hnodup, hown⟩ := h.attempts queue attempts hqueue
    cases attempts with
    | nil => exact absurd rfl hne
    | cons attempt attempts =>
      have hfirst : attemptsStep queue none (.providerAttempt attempt) = some [attempt] :=
        if_pos (hown attempt (.head _)).1
      have hrest := @attemptsStep_own queue attempts (fun other hother => (hown other (.tail _ hother)).1)
        [attempt] hnodup
      change (attempts.map Payload.providerAttempt).foldl (attemptsStep queue)
        (attemptsStep queue none (.providerAttempt attempt)) = _
      rw [hfirst]
      exact hrest

theorem mem_addAttempt {other : ProviderPushAttempt} :
    attempt ∈ addAttempt attempts other ↔ attempt ∈ attempts ∨ attempt = other := by
  unfold addAttempt
  split_ifs with hmem
  · constructor
    · exact .inl
    · intro hatt
      obtain hatt | hatt := hatt
      · exact hatt
      · exact hatt ▸ hmem
  · rw [mem_append, mem_singleton]

theorem mem_attemptsStep {attempts : Option (List ProviderPushAttempt)}
    {payload : Payload} : attempt ∈ (attemptsStep queue attempts payload).getD [] ↔
      attempt ∈ attempts.getD [] ∨ payload = .providerAttempt attempt ∧ attempt.queueId = queue := by
  cases payload with
  | queueEntry entry | rawWake raw | delivered queueId => exact (or_iff_left fun h => nomatch h.1).symm
  | providerAttempt other =>
    unfold attemptsStep
    dsimp only
    rw [Payload.providerAttempt.injEq]
    split_ifs with hqueue
    · rw [Option.getD_some, mem_addAttempt]
      refine or_congr_right ⟨fun h => ⟨h.symm, h ▸ hqueue⟩, fun h => h.1.symm⟩
    · refine (or_iff_left ?_).symm
      rintro ⟨rfl, hown⟩
      exact hqueue hown

theorem mem_foldl_attemptsStep {attempts : Option (List ProviderPushAttempt)}
    {payloads : List Payload} : attempt ∈ (payloads.foldl (attemptsStep queue) attempts).getD [] ↔
      attempt ∈ attempts.getD [] ∨ .providerAttempt attempt ∈ payloads ∧ attempt.queueId = queue := by
  induction payloads generalizing attempts with
  | nil =>
    refine (or_iff_left ?_).symm
    exact fun h => not_mem_nil h.1
  | cons payload payloads ih =>
    rw [foldl_cons, ih, mem_attemptsStep, or_assoc, ← or_and_right, mem_cons, @eq_comm _ payload]

end

def Writable (codec : Codec) (payload : Payload) : Prop := ∃ encoded, Fits codec (payload, encoded)

structure Store where
  writer : Writer
  live : State

def records (payloads : List Payload) (locations : List Location) : List RecoveredRecord :=
  (payloads.zip locations).map fun e => ⟨e.1, e.2⟩

/-- Operations, restarts, and compactions cut off by a crash, which keep the projection. -/
inductive StoreStep (codec : Codec) : Store → List Payload → Store → Prop
  | append {store : Store} {payloads : List Payload} {locations : List Location}
      (happend : (appendBatch codec store.writer payloads none).2 = .ok locations) :
      StoreStep codec store payloads ⟨(appendBatch codec store.writer payloads none).1,
        replay store.live (records payloads locations)⟩
  | compact {store : Store} {w : Writer}
      (hcompact : store.writer.compact codec store.live.compactedPayloads = .ok w) :
      StoreStep codec store [] ⟨w, store.live⟩
  | reopen {store : Store} {w : Writer} {live : State} {segmentBytes : ℕ}
      (hopen : openWal codec store.writer.directory segmentBytes = .ok (w, live)) :
      StoreStep codec store [] ⟨w, live⟩
  | interrupted {store : Store} {bytes : Bytes} {crash : CompactionCrash} {w : Writer} {live : State}
      {segmentBytes : ℕ} (hbytes : compactedBytes codec store.live.compactedPayloads = .ok bytes)
      (hopen : openWal codec (store.writer.crashed bytes crash) segmentBytes = .ok (w, live)) :
      StoreStep codec store [] ⟨w, live⟩

def Store.create (segmentBytes : ℕ) : Store := ⟨.create segmentBytes, .empty⟩

/-- The projection is what the payloads on disk give. -/
structure Current (codec : Codec) (store : Store) (logged : List Payload) : Prop where
  logs : Logs codec store.writer logged
  keyed : Keyed (Writable codec) store.live
  wake : ∀ id, store.live.wake id = logged.foldl (wakeStep id) (none, none)
  attempts : ∀ queue, store.live.attempts queue = logged.foldl (attemptsStep queue) none

variable {older : List Group}

theorem Writing.writable (h : Writing codec w older lines)
    (hpayload : payload ∈ payloads (older ++ [(w.file, lines)])) : Writable codec payload := by
  obtain ⟨group, hgroup, hpayload⟩ := mem_flatMap.mp hpayload
  obtain ⟨line, hline, rfl⟩ := mem_map.mp hpayload
  exact ⟨line.2, h.holds.fits group hgroup line hline⟩

theorem Logs.writable (h : Logs codec w logged)
    (hpayload : payload ∈ logged) : Writable codec payload := by
  obtain ⟨older, lines, hwriting, rfl⟩ := h
  exact hwriting.writable hpayload

theorem appendBatch_length {payloads : List Payload}
    (h : (appendBatch codec w payloads none).2 = .ok locations) : locations.length = payloads.length := by
  induction payloads generalizing w locations with
  | nil =>
    cases h
    rfl
  | cons payload payloads ih =>
    unfold appendBatch at h
    split at h
    · cases h
    · split at h
      · cases h
      · split_ifs at h
        obtain ⟨rest, hrest, rfl⟩ := map_eq_ok.mp h
        rw [length_cons, length_cons, ih hrest]

theorem map_payload_zip {payloads : List Payload} (h : locations.length = payloads.length) :
    (records payloads locations).map (·.payload) = payloads := by
  unfold records
  rw [List.map_map]
  exact map_fst_zip (Nat.le_of_eq h.symm)

variable {store : Store}

theorem Current.append {payloads : List Payload} (h : Current codec store logged)
    (happend : (appendBatch codec store.writer payloads none).2 = .ok locations) :
    Current codec ⟨(appendBatch codec store.writer payloads none).1,
      replay store.live (records payloads locations)⟩ (logged ++ payloads) := by
  obtain ⟨written, hlogs, hacked⟩ := @Logs.appendBatch _ _ _ h.logs payloads none nofun
  obtain rfl := hacked locations happend
  have hpayloads := map_payload_zip (appendBatch_length happend)
  refine ⟨hlogs, h.keyed.replay fun record hrec => ?_, fun id => ?_, fun queue => ?_⟩
  · refine hlogs.writable (mem_append_right _ ?_)
    rw [← hpayloads]
    exact mem_map_of_mem hrec
  · rw [wake_replay, hpayloads, h.wake, foldl_append]
  · rw [attempts_replay, hpayloads, h.attempts, foldl_append]

theorem exists_lines {payloads : List Payload} (h : ∀ payload ∈ payloads, Writable codec payload) :
    ∃ lines : List Line, lines.map (·.1) = payloads ∧ ∀ line ∈ lines, Fits codec line := by
  induction payloads with
  | nil => exact ⟨[], rfl, fun line hline => absurd hline not_mem_nil⟩
  | cons payload payloads ih =>
    obtain ⟨encoded, hfits⟩ := h payload (.head _)
    obtain ⟨lines, rfl, hlines⟩ := ih fun other hother => h other (.tail _ hother)
    exact ⟨(payload, encoded) :: lines, rfl, forall_mem_cons.mpr ⟨hfits, hlines⟩⟩

theorem compactedBytes_lines (h : ∀ line ∈ lines, Fits codec line) :
    compactedBytes codec (lines.map (·.1)) = .ok (notifyWalMagic ++ lines.flatMap chunk) := by
  unfold compactedBytes
  generalize notifyWalMagic = bytes
  induction lines generalizing bytes with
  | nil =>
    rw [flatMap_nil, append_nil]
    rfl
  | cons line lines ih =>
    obtain ⟨hencode, hlen⟩ := h line (.head _)
    have hrest := ih (fun other hother => h other (.tail _ hother)) (bytes ++ chunk line)
    rw [append_assoc, ← flatMap_cons] at hrest
    refine bind_eq_ok.mpr ⟨bytes ++ chunk line, ?_, hrest⟩
    refine bind_eq_ok.mpr ⟨line.2, hencode, bind_eq_ok.mpr ⟨(), ?_, rfl⟩⟩
    exact refuseWhen_eq_ok.mpr (not_lt.mpr hlen)

theorem lt_compactedId {segment : Segment} (h : segment ∈ w.directory.segments) :
    segment.id < w.compactedId := by
  have hmem : segment.id ∈ w.directory.segments.map (·.id) := mem_map_of_mem h
  have hle : segment.id ≤ (w.directory.segments.map (·.id)).max?.getD w.segmentId :=
    le_max?_getD_of_mem hmem
  exact Nat.lt_succ_of_le hle

theorem Current.compacted (h : Current codec store logged) :
    ∃ lines : List Line, lines.map (·.1) = store.live.compactedPayloads ∧
    (∀ line ∈ lines, Fits codec line) ∧ compactedBytes codec store.live.compactedPayloads =
      .ok (notifyWalMagic ++ lines.flatMap chunk) := by
  obtain ⟨lines, hpayloads, hfits⟩ :=
    exists_lines fun payload hpayload => h.keyed.of_mem_compactedPayloads hpayload
  refine ⟨lines, hpayloads, hfits, ?_⟩
  rw [← hpayloads]
  exact compactedBytes_lines hfits

def Stores (codec : Codec) (directory : Directory) (logged : List Payload) : Prop :=
  ∃ older id lines, Holds codec directory.segments (older ++ [(id, lines)]) ∧
    (∀ group ∈ older, group.1 < id) ∧ payloads (older ++ [(id, lines)]) = logged

theorem Logs.stores (h : Logs codec w logged) : Stores codec w.directory logged := by
  obtain ⟨older, lines, hwriting, hlogged⟩ := h
  exact ⟨older, w.file, lines, hwriting.holds, hwriting.newest, hlogged⟩

theorem Stores.recover (h : Stores codec directory logged) :
    ∃ r, recoverNotifyWal codec directory = .ok r ∧ r.records.map (·.payload) = logged := by
  obtain ⟨older, id, lines, hholds, -, hlogged⟩ := h
  obtain ⟨r, hrecover, -, hrecs, -⟩ := hholds.recover
  refine ⟨r, hrecover, ?_⟩
  rw [hrecs, map_payload_records, hlogged]

theorem Holds.open {id : ℕ} (h : Holds codec directory.segments (older ++ [(id, lines)]))
    (hnewest : ∀ group ∈ older, group.1 < id)
    (offset segmentBytes : ℕ) : Writing codec (.open directory id offset segmentBytes) older lines := by
  have holder : ∀ segment ∈ older.map Group.segment, segment.id < (Group.segment (id, lines)).id := by
    intro segment hseg
    obtain ⟨group, hgroup, rfl⟩ := mem_map.mp hseg
    exact hnewest group hgroup
  have hlist : directory.segments = older.map Group.segment ++ [Group.segment (id, lines)] := by
    rw [h.segments, map_append]
    rfl
  have hsame : RouterWal.writeTo directory.segments id [] = directory.segments := by
    rw [hlist]
    refine (writeTo_concat holder []).trans ?_
    rw [append_nil]
  have hfull : RouterWal.bytesOf directory.segments id ≠ [] := by
    rw [hlist]
    refine (bytesOf_concat holder).trans_ne ?_
    exact append_ne_nil_of_left_ne_nil (by decide) _
  refine ⟨⟨?_, h.fits⟩, hnewest, le_rfl⟩
  unfold Writer.open
  rw [if_neg fun hempty => hfull hempty.2, hsame]
  exact h.segments

theorem Stores.openWal (h : Stores codec directory logged) {segmentBytes : ℕ} {live : State}
    (hopen : openWal codec directory segmentBytes = .ok (w, live)) :
    Current codec ⟨w, live⟩ logged := by
  obtain ⟨older, id, lines, hholds, hnewest, hlogged⟩ := h
  obtain ⟨r, hrecover, hsegs, hrecs, hlast⟩ := hholds.recover
  obtain ⟨r', hrecover', hopen⟩ := bind_eq_ok.mp hopen
  cases hrecover.symm.trans hrecover'
  cases hopen
  have hid : r.lastSegmentId.getD 0 = id := by
    rw [hlast, getLast?_concat]
    rfl
  have hpayloads : r.records.map (·.payload) = logged := by
    rw [hrecs, map_payload_records, hlogged]
  have hwriting : Writing codec (.open { directory with segments := r.segments } id r.currentOffset
      (max segmentBytes (1024 * 1024))) older lines := by
    rw [hsegs]
    exact hholds.open hnewest _ _
  have hlogs : Logs codec (.open { directory with segments := r.segments } id r.currentOffset
      (max segmentBytes (1024 * 1024))) logged := ⟨older, lines, hwriting, hlogged⟩
  refine ⟨?_, Keyed.empty.replay fun record hrec => ?_, fun queueId => ?_, fun queue => ?_⟩
  · rw [hid]
    exact hlogs
  · exact hlogs.writable (hpayloads ▸ mem_map_of_mem hrec)
  · refine (wake_replay .empty r.records queueId).trans ?_
    rw [hpayloads]
    rfl
  · refine (attempts_replay .empty r.records queue).trans ?_
    rw [hpayloads]
    rfl

section
variable (h : Current codec store logged)
include h

/-- A compaction cut off leaves the history, or a newer part of it with its summary. -/
theorem Current.crashed {bytes : Bytes} (hbytes : compactedBytes codec store.live.compactedPayloads = .ok bytes)
    (crash : CompactionCrash) : ∃ found, Stores codec (store.writer.crashed bytes crash) found ∧
      (found = logged ∨ ∃ early late, logged = early ++ late ∧
        found = late ++ store.live.compactedPayloads) := by
  cases crash with
  | writing written => exact ⟨logged, h.logs.stores, .inl rfl⟩
  | renamed removed =>
    obtain ⟨lines, hpayloads, hfits, hwritten⟩ := h.compacted
    cases hbytes.symm.trans hwritten
    obtain ⟨older, id, newest, hholds, -, hlogged⟩ := h.logs.stores
    generalize older ++ [(id, newest)] = groups at hholds hlogged
    refine ⟨payloads (groups.drop removed) ++ store.live.compactedPayloads,
      ⟨groups.drop removed, store.writer.compactedId, lines, ⟨?_, ?_⟩, ?_, ?_⟩,
      .inr ⟨payloads (groups.take removed), payloads (groups.drop removed), ?_, rfl⟩⟩
    · unfold Writer.crashed
      dsimp only
      rw [hholds.segments, ← map_drop, map_append]
      rfl
    · intro group hgroup
      obtain hgroup | hgroup := mem_append.mp hgroup
      · exact hholds.fits group (mem_of_mem_drop hgroup)
      · rw [mem_singleton.mp hgroup]
        exact hfits
    · intro group hgroup
      have hseg : Group.segment group ∈ store.writer.directory.segments := by
        rw [hholds.segments]
        exact mem_map_of_mem (mem_of_mem_drop hgroup)
      exact lt_compactedId hseg
    · rw [payloads_concat, hpayloads]
    · rw [← hlogged]
      unfold payloads
      rw [← flatMap_append, take_append_drop]

theorem Current.compact :
    ∃ w, store.writer.compact codec store.live.compactedPayloads = .ok w ∧
      Current codec ⟨w, store.live⟩ store.live.compactedPayloads := by
  obtain ⟨lines, hpayloads, hfits, hwritten⟩ := h.compacted
  have hkept : (store.writer.directory.segments.filter fun segment =>
      store.writer.compactedId ≤ segment.id) = [] := by
    refine filter_eq_nil_iff.mpr fun segment hseg => ?_
    have hlt := lt_compactedId hseg
    simpa using hlt
  refine ⟨_, bind_eq_ok.mpr ⟨_, hwritten, rfl⟩, ⟨[], lines, ⟨⟨?_, ?_⟩, nofun, le_rfl⟩, ?_⟩, h.keyed,
    fun id => ?_, fun queue => ?_⟩
  · rw [hkept]
    rfl
  · intro group hgroup
    rw [mem_singleton.mp hgroup]
    exact hfits
  · exact (append_nil _).trans hpayloads
  · exact (h.keyed.wake_compacted (Shows.empty _)).symm
  · exact (h.keyed.attempts_compacted queue).symm

theorem Current.step {store' : Store} {label : List Payload}
    (hstep : StoreStep codec store label store') : ∃ logged', Current codec store' logged' := by
  cases hstep with
  | append happend => exact ⟨_, h.append happend⟩
  | compact hcompact =>
    obtain ⟨w, hw, hcur⟩ := h.compact
    cases hw.symm.trans hcompact
    exact ⟨_, hcur⟩
  | reopen hopen => exact ⟨_, h.logs.stores.openWal hopen⟩
  | interrupted hbytes hopen =>
    obtain ⟨found, hstores, -⟩ := h.crashed hbytes _
    exact ⟨found, hstores.openWal hopen⟩

end

theorem current_of_run {segmentBytes : ℕ} {labels : List (List Payload)}
    (hrun : Run (StoreStep codec) (.create segmentBytes) labels store) :
    ∃ logged, Current codec store logged := by
  have hinit : Current codec (.create segmentBytes) [] :=
    ⟨create_logs segmentBytes, .empty, fun _ => rfl, fun _ => rfl⟩
  refine hrun.preserves (P := fun store => ∃ logged, Current codec store logged) ⟨[], hinit⟩ ?_
  rintro store label store' ⟨logged, hcur⟩ hstep
  exact hcur.step hstep

/-- The same queue entries, raw wakes and per-queue set of attempts, wherever the records lie. -/
structure SameQueues (s t : State) : Prop where
  entries : ∀ id : String, s.entriesById[id]?.map (·.payload) = t.entriesById[id]?.map (·.payload)
  rawWakes : ∀ id : String, s.rawWakesById[id]?.map (·.payload) = t.rawWakesById[id]?.map (·.payload)
  attempts : ∀ (queue : String) attempt, attempt ∈ s.providerAttemptsByQueue[queue]?.getD [] ↔
    attempt ∈ t.providerAttemptsByQueue[queue]?.getD []

theorem SameQueues.of_wake {t : State} (hwake : ∀ id, s.wake id = t.wake id)
    (hatts : ∀ queue attempt, attempt ∈ (s.attempts queue).getD [] ↔
      attempt ∈ (t.attempts queue).getD []) : SameQueues s t :=
  ⟨fun id => (Prod.mk.inj (hwake id)).1, fun id => (Prod.mk.inj (hwake id)).2, hatts⟩

theorem Current.sameQueues_crashed (h : Current codec store logged)
    {bytes : Bytes} (hbytes : compactedBytes codec store.live.compactedPayloads = .ok bytes)
    (crash : CompactionCrash) : ∃ r, recoverNotifyWal codec (store.writer.crashed bytes crash) = .ok r ∧
      SameQueues r.state store.live := by
  obtain ⟨found, hstores, hfound⟩ := h.crashed hbytes crash
  obtain ⟨r, hrecover, hrecs⟩ := hstores.recover
  have hwake : ∀ id, r.state.wake id = found.foldl (wakeStep id) (none, none) := fun id =>
    hrecs ▸ wake_replay .empty r.records id
  have hatts : ∀ queue, r.state.attempts queue = found.foldl (attemptsStep queue) none := fun queue =>
    hrecs ▸ attempts_replay .empty r.records queue
  refine ⟨r, hrecover, .of_wake (fun id => ?_) fun queue attempt => ?_⟩
  · rw [hwake]
    obtain rfl | ⟨early, late, hlogged, rfl⟩ := hfound
    · exact (h.wake id).symm
    · rw [foldl_append]
      refine h.keyed.wake_compacted ?_
      rw [h.wake, hlogged, foldl_append]
      exact (Shows.empty _).foldl id late
  · rw [hatts]
    obtain rfl | ⟨early, late, hlogged, rfl⟩ := hfound
    · rw [h.attempts]
    · rw [foldl_append, mem_foldl_attemptsStep, mem_foldl_attemptsStep]
      -- the summary has every attempt; the part before it has no other
      have hsummary : attempt ∈ (store.live.attempts queue).getD [] ↔
          .providerAttempt attempt ∈ store.live.compactedPayloads ∧ attempt.queueId = queue := by
        rw [← h.keyed.attempts_compacted queue, mem_foldl_attemptsStep]
        exact or_iff_right not_mem_nil
      have hhist : attempt ∈ (store.live.attempts queue).getD [] ↔
          .providerAttempt attempt ∈ early ++ late ∧ attempt.queueId = queue := by
        rw [h.attempts, hlogged, mem_foldl_attemptsStep]
        exact or_iff_right not_mem_nil
      rw [← hsummary]
      refine or_iff_right_of_imp fun hbefore => ?_
      obtain hnil | ⟨hlate, hqueue⟩ := hbefore
      · exact absurd hnil not_mem_nil
      · exact hhist.mpr ⟨mem_append_right _ hlate, hqueue⟩

/-- Recovery after a finished compaction finds the projection, with records at their new places. -/
theorem Current.recover_compacted (h : Current codec store logged) :
    ∃ w r, store.writer.compact codec store.live.compactedPayloads = .ok w ∧
      recoverNotifyWal codec w.directory = .ok r ∧ (∀ id, r.state.wake id = store.live.wake id) ∧
      ∀ queue, r.state.attempts queue = store.live.attempts queue := by
  obtain ⟨w, hcompact, hafter⟩ := h.compact
  obtain ⟨r, hrecover, hrecs⟩ := hafter.logs.stores.recover
  refine ⟨w, r, hcompact, hrecover, fun id => ?_, fun queue => ?_⟩
  · refine (wake_replay .empty r.records id).trans ?_
    rw [hrecs]
    exact (hafter.wake id).symm
  · refine (attempts_replay .empty r.records queue).trans ?_
    rw [hrecs]
    exact (hafter.attempts queue).symm

/-- From any history, recovery after a compaction cut off anywhere finds the queues as they were, and
after a finished one also every queue's attempts in their order. -/
theorem compaction_transparent (codec : Codec) {segmentBytes : ℕ} {labels : List (List Payload)}
    {store : Store} (hrun : Run (StoreStep codec) (.create segmentBytes) labels store) :
    ∃ bytes, compactedBytes codec store.live.compactedPayloads = .ok bytes ∧
      (∀ crash, ∃ r, recoverNotifyWal codec (store.writer.crashed bytes crash) = .ok r ∧
        SameQueues r.state store.live) ∧
      ∃ w r, store.writer.compact codec store.live.compactedPayloads = .ok w ∧
        recoverNotifyWal codec w.directory = .ok r ∧ SameQueues r.state store.live ∧
        r.state.providerAttemptsByQueue = store.live.providerAttemptsByQueue := by
  obtain ⟨logged, hcur⟩ := current_of_run hrun
  obtain ⟨lines, -, -, hbytes⟩ := hcur.compacted
  obtain ⟨w, r, hcompact, hrecover, hwake, hatts⟩ := hcur.recover_compacted
  refine ⟨_, hbytes, hcur.sameQueues_crashed hbytes, w, r, hcompact, hrecover, ?_, ?_⟩
  · exact .of_wake hwake fun queue attempt => by rw [hatts]
  · exact ext_getElem? hatts

def appended (store : Store) (payloads : List Payload) (locations : List Location) : Store :=
  ⟨(appendBatch twoWakes store.writer payloads none).1, replay store.live (records payloads locations)⟩

theorem appended_step {payloads : List Payload}
    (h : (appendBatch twoWakes store.writer payloads none).2 = .ok locations) :
    StoreStep twoWakes store payloads (appended store payloads locations) := .append h

def oneWake : Store := appended (.create 0) [.rawWake smallWake] [⟨0, 22, 1⟩]

theorem oneWake_reached : Run (StoreStep twoWakes) (.create 0) [[.rawWake smallWake]] oneWake :=
  .single (appended_step (by decide +kernel))

def firstBatch : List Payload := [.rawWake bigWake, .providerAttempt pushAttempt]

def wakeAndAttempt : Store := appended (.create 0) firstBatch [⟨0, 22, 40⟩, ⟨0, 70, 1⟩]

def summary : Bytes := notifyWalMagic ++ firstBatch.flatMap fun payload =>
  frame crc32 ((twoWakes.encode payload).toOption.getD [])

/-- What a restart finds when a compaction stopped after its rename: the old segment and the new. -/
def reopened : Writer × State :=
  (openWal twoWakes (wakeAndAttempt.writer.crashed summary (.renamed 0)) 0).toOption.get (by decide +kernel)

def twoSegments : Store := appended ⟨reopened.1, reopened.2⟩ [.rawWake smallWake] [⟨1, 79, 1⟩]

theorem twoSegments_reached :
    Run (StoreStep twoWakes) (.create 0) [firstBatch, [], [.rawWake smallWake]] twoSegments := by
  have hfirst : StoreStep twoWakes (.create 0) firstBatch wakeAndAttempt := appended_step (by decide +kernel)
  have hopen : openWal twoWakes (wakeAndAttempt.writer.crashed summary (.renamed 0)) 0 = .ok reopened :=
    eq_ok_get _
  rw [← Prod.mk.eta (p := reopened)] at hopen
  have hreopen : StoreStep twoWakes wakeAndAttempt [] ⟨reopened.1, reopened.2⟩ :=
    .interrupted (by decide +kernel) hopen
  exact .cons hfirst (.cons hreopen (.single (appended_step (by decide +kernel))))

theorem compaction_transparent_two : twoSegments.writer.directory.segments.map (·.id) = [0, 1] ∧
    ∃ bytes, compactedBytes twoWakes twoSegments.live.compactedPayloads = .ok bytes ∧
      (∀ crash, ∃ r, recoverNotifyWal twoWakes (twoSegments.writer.crashed bytes crash) = .ok r ∧
        SameQueues r.state twoSegments.live) ∧
      ∃ w r, twoSegments.writer.compact twoWakes twoSegments.live.compactedPayloads = .ok w ∧
        recoverNotifyWal twoWakes w.directory = .ok r ∧ SameQueues r.state twoSegments.live ∧
        r.state.providerAttemptsByQueue = twoSegments.live.providerAttemptsByQueue :=
  ⟨by decide +kernel, compaction_transparent twoWakes twoSegments_reached⟩

/-- After a compaction the projection in memory names the old place of a record, recovery the new. -/
theorem compaction_keeps_old_location :
    Run (StoreStep twoWakes) (.create 0) [[.rawWake smallWake]] oneWake ∧
    ∃ w r, oneWake.writer.compact twoWakes oneWake.live.compactedPayloads = .ok w ∧
      recoverNotifyWal twoWakes w.directory = .ok r ∧ r.state ≠ oneWake.live := by
  have hdiffer : ((oneWake.writer.compact twoWakes oneWake.live.compactedPayloads).toOption.bind fun w =>
      (recoverNotifyWal twoWakes w.directory).toOption.map
        fun r => r.state.rawWakesById["small"]?.map (·.location.segmentId)) = some (some 1) := by
    decide +kernel
  have hlive : oneWake.live.rawWakesById["small"]?.map (·.location.segmentId) = some 0 := by
    decide +kernel
  obtain ⟨logged, hcur⟩ := current_of_run oneWake_reached
  obtain ⟨w, r, hcompact, hrecover, -, -⟩ := hcur.recover_compacted
  refine ⟨oneWake_reached, w, r, hcompact, hrecover, fun hsame => ?_⟩
  rw [hcompact] at hdiffer
  change (recoverNotifyWal twoWakes w.directory).toOption.map _ = _ at hdiffer
  rw [hrecover] at hdiffer
  have hrecov : r.state.rawWakesById["small"]?.map (·.location.segmentId) = some 1 :=
    Option.some.inj hdiffer
  rw [hsame, hlive] at hrecov
  cases hrecov

end Ramflux.NotifyWal
