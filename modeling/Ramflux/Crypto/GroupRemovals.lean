import Ramflux.Crypto.GroupVerified
import Ramflux.Lib.Run

/-! Removed devices over chains of snapshots. -/
namespace Ramflux.Group
open Fallible List

namespace SharedGroupState
variable {s t : SharedGroupState} {root device : String}

/-- What every transition keeps: entries are old, perhaps in another role, or the one just added, and a
device excluded from a root with members stays excluded. -/
structure Succeeds (s : SharedGroupState) (change : GroupStateChange) (t : SharedGroupState) :
    Prop where
  epoch : t.epoch = s.epoch + 1
  members : ∀ m ∈ t.members,
    (∃ n ∈ s.members, n.identity = m.identity ∧ n.joinedEpoch = m.joinedEpoch) ∨
      m.joinedEpoch = s.epoch + 1 ∧ change = .add m.identity m.role
  excluded : ∀ root device, s.HasRoot root → s.Excludes root device → t.Excludes root device

variable {epoch : ℕ}

theorem mem_handedOver {selected : ℕ} {m : SharedGroupMember}
    (h : m ∈ (s.handedOver selected epoch).members) :
    ∃ n ∈ s.members, n.identity = m.identity ∧ n.joinedEpoch = m.joinedEpoch := by
  have hdemoted : ∀ m ∈ s.members.map fun m =>
      if m.role = .owner then { m with role := .admin } else m,
      ∃ n ∈ s.members, n.identity = m.identity ∧ n.joinedEpoch = m.joinedEpoch := by
    intro m hm
    obtain ⟨n, hn, rfl⟩ := mem_map.mp hm
    refine ⟨n, hn, ?_⟩
    split_ifs
    · exact ⟨rfl, rfl⟩
    · exact ⟨rfl, rfl⟩
  obtain ⟨i, hi, rfl⟩ := mem_iff_getElem.mp h
  simp only [handedOver, getElem_modify]
  simp only [handedOver, length_modify] at hi
  have hi' := hdemoted _ (getElem_mem hi)
  split_ifs
  · exact hi'
  · exact hi'

variable {actor : SharedGroupRole}

theorem Changed.members {change : GroupStateChange}
    (h : s.Changed actor epoch change t) : ∀ m ∈ t.members,
    (∃ n ∈ s.members, n.identity = m.identity ∧ n.joinedEpoch = m.joinedEpoch) ∨
      m.joinedEpoch = epoch ∧ change = .add m.identity m.role := by
  intro m hm
  cases h with
  | add hadd =>
    rw [hadd.members] at hm
    rcases mem_append.mp hm with hm | hm
    · exact .inl ⟨m, hm, rfl, rfl⟩
    · obtain rfl := mem_singleton.mp hm
      exact .inr ⟨rfl, rfl⟩
  | remove hremove => exact .inl ⟨m, ((hremove.members m).mp hm).1, rfl, rfl⟩
  | setRole hset =>
    rw [hset.members] at hm
    rcases mem_replaceRole hm with hm | ⟨old, hold, -, rfl⟩
    · exact .inl ⟨m, hm, rfl, rfl⟩
    · exact .inl ⟨old, hold, rfl, rfl⟩
  | setName hmembers _ => exact .inl ⟨m, hmembers ▸ hm, rfl, rfl⟩

theorem Changed.excluded {change : GroupStateChange}
    (h : s.Changed actor epoch change t) {e : GroupDeviceExclusion} (he : e ∈ s.excluded)
    (hroot : s.HasRoot e.rootCommitment) : e ∈ t.excluded := by
  cases h with
  | @add identity role t hadd =>
    refine (hadd.excluded e).mpr ⟨he, ?_⟩
    by_cases hsame : e.rootCommitment = identity.rootCommitment
    · exact .inl (hsame ▸ hroot)
    · exact .inr hsame
  | remove hremove =>
    obtain ⟨removed, -, hexcl⟩ := hremove.excluded
    rw [hexcl]
    exact mem_append_left _ he
  | setRole hset => exact hset.excluded ▸ he
  | setName _ hexcl => exact hexcl ▸ he

end SharedGroupState

namespace GroupCrypto
open SharedGroupState
variable (C : GroupCrypto)

def Advances (s : VerifiedGroupState C) (input : Apply) (t : VerifiedGroupState C) : Prop :=
  C.advance s input = .ok t

/-- The change adds a device of the root while the root has no entry. -/
def Readmits (s : SharedGroupState) (root : String) (change : GroupStateChange) : Prop :=
  ∃ member role, change = .add member role ∧ member.rootCommitment = root ∧ ¬ s.HasRoot root

/-- The creator puts a change into effect that does not readmit the root. -/
def AdvancesWithout (root : String) (s : VerifiedGroupState C) (input : Apply)
    (t : VerifiedGroupState C) : Prop :=
  C.Advances s input t ∧ ¬ Readmits s.view root input.change

variable {C} {s t : VerifiedGroupState C} {input : Apply} {root device : String}

variable {state : SharedGroupState}

theorem Advanced.members (h : Advanced C s input state) : ∀ m ∈ state.members,
      (∃ n ∈ s.view.members, n.identity = m.identity ∧ n.joinedEpoch = m.joinedEpoch) ∨
        m.joinedEpoch = s.view.epoch + 1 ∧ input.change = .add m.identity m.role := by
  intro m hm
  cases h with
  | change _ hchanged => exact hchanged.members m hm
  | handover _ _ =>
    have hold := mem_handedOver hm
    exact .inl hold

theorem Advanced.excluded (h : Advanced C s input state) {e : GroupDeviceExclusion}
    (he : e ∈ s.view.excluded) (hroot : s.view.HasRoot e.rootCommitment) : e ∈ state.excluded := by
  have hpruned : e ∈ (s.view.pruned input.now).excluded :=
    mem_pruned_excluded.mpr ⟨he, .inr hroot⟩
  cases h with
  | change _ hchanged => exact hchanged.excluded hpruned hroot
  | handover _ _ => exact hpruned

theorem Advances.succeeds (h : C.Advances s input t) : s.view.Succeeds input.change t.view := by
  obtain ⟨state, hstate, hepoch, hmembers, hexcl⟩ := advance_ok h
  refine ⟨hepoch, fun m hm => hstate.members m ((hmembers m).mp hm), ?_⟩
  rintro root device hroot ⟨e, he, rfl, hdev⟩
  exact ⟨e, (hexcl e).mpr (hstate.excluded he hroot), rfl, hdev⟩

end GroupCrypto

namespace SharedGroupState
variable {s t : SharedGroupState} {change : GroupStateChange} {root device : String}

/-- The device has no role: it is excluded, or its root has no entry. -/
def Gone (s : SharedGroupState) (root device : String) : Prop :=
  s.Excludes root device ∨ ¬ s.HasRoot root

theorem Gone.effectiveRole (h : s.Gone root device) : s.effectiveRole root device = none := by
  rcases h with hexcl | hroot
  · exact effectiveRole_of_excludes hexcl
  · exact effectiveRole_of_not_hasRoot hroot

theorem Succeeds.gone (h : s.Succeeds change t) (hgone : s.Gone root device)
    (hreadmits : ¬ GroupCrypto.Readmits s root change) : t.Gone root device := by
  by_cases hroot : s.HasRoot root
  · rcases hgone with hexcl | hnone
    · exact .inl (h.excluded root device hroot hexcl)
    · exact absurd hroot hnone
  · refine .inr ?_
    rintro ⟨m, hm, hmroot⟩
    rcases h.members m hm with ⟨n, hn, hident, -⟩ | ⟨-, hadd⟩
    · exact hroot ⟨n, hn, hident ▸ hmroot⟩
    · exact hreadmits ⟨m.identity, m.role, hadd, hmroot, hroot⟩

/-- All entries of the root are from after the epoch. -/
def Rejoined (s : SharedGroupState) (root : String) (epoch : ℕ) : Prop :=
  ∀ m ∈ s.members, m.identity.rootCommitment = root → epoch < m.joinedEpoch

variable {epoch : ℕ}

theorem Succeeds.rejoined (h : s.Succeeds change t) (hepoch : epoch ≤ s.epoch)
    (hrejoined : s.Rejoined root epoch) : t.Rejoined root epoch := by
  intro m hm hroot
  rcases h.members m hm with ⟨n, hn, hident, hjoined⟩ | ⟨hjoined, -⟩
  · exact hjoined ▸ hrejoined n hn (hident ▸ hroot)
  · omega

/-- A device once excluded still is, or its root left and came back since. -/
theorem Succeeds.excludes_or_rejoined (h : s.Succeeds change t) (hepoch : epoch ≤ s.epoch)
    (hs : s.Excludes root device ∨ s.Rejoined root epoch) :
    t.Excludes root device ∨ t.Rejoined root epoch := by
  by_cases hroot : s.HasRoot root
  · rcases hs with hexcl | hrejoined
    · exact .inl (h.excluded root device hroot hexcl)
    · exact .inr (h.rejoined hepoch hrejoined)
  · have hnone : s.Rejoined root epoch := fun m hm hmroot => absurd ⟨m, hm, hmroot⟩ hroot
    exact .inr (h.rejoined hepoch hnone)

theorem preservesRemovals_of_rejoined (h : ∀ e ∈ s.excluded,
      (¬ s.HasRoot e.rootCommitment → t.Rejoined e.rootCommitment e.removedEpoch) ∧
      (t.Excludes e.rootCommitment e.deviceId ∨ t.Rejoined e.rootCommitment e.removedEpoch)) :
    s.preservesRemovals t = true := by
  apply all_eq_true.mpr
  intro e he
  obtain ⟨habsent, hpresent⟩ := h e he
  have hall (hrejoined : t.Rejoined e.rootCommitment e.removedEpoch) :
      (t.members.filter (·.identity.rootCommitment = e.rootCommitment)).all
        (e.removedEpoch < ·.joinedEpoch) = true := by
    apply all_eq_true.mpr
    intro m hm
    obtain ⟨hm, hroot⟩ := mem_filter.mp hm
    exact decide_eq_true (hrejoined m hm (of_decide_eq_true hroot))
  by_cases hroot : ¬ s.HasRoot e.rootCommitment
  · rw [if_pos hroot]
    exact hall (habsent hroot)
  rw [if_neg hroot]
  split_ifs with hrole
  · rfl
  · rcases hpresent with hexcl | hrejoined
    · exact absurd (effectiveRole_of_excludes hexcl) hrole
    · rw [hall hrejoined, Bool.or_true]

end SharedGroupState

namespace GroupCrypto
open SharedGroupState
variable {C : GroupCrypto} {s t : VerifiedGroupState C} {inputs : List Apply} {root device : String}

theorem run_advances_gone (hrun : Run (C.AdvancesWithout root) s inputs t)
    (hgone : s.view.Gone root device) : t.view.Gone root device :=
  hrun.preserves (P := fun u => u.view.Gone root device) hgone fun _ _ _ hu hstep =>
    hstep.1.succeeds.gone hu hstep.2

theorem run_advances_rejoined (root device : String) (hrun : Run C.Advances s inputs t) {epoch : ℕ}
    (hepoch : epoch ≤ s.view.epoch) :
    epoch ≤ t.view.epoch ∧ (s.view.Rejoined root epoch → t.view.Rejoined root epoch) ∧
      (s.view.Excludes root device ∨ s.view.Rejoined root epoch →
        t.view.Excludes root device ∨ t.view.Rejoined root epoch) := by
  refine hrun.preserves (P := fun u => epoch ≤ u.view.epoch ∧
    (s.view.Rejoined root epoch → u.view.Rejoined root epoch) ∧
      (s.view.Excludes root device ∨ s.view.Rejoined root epoch →
        u.view.Excludes root device ∨ u.view.Rejoined root epoch)) ⟨hepoch, id, id⟩ ?_
  intro u input v hu hstep
  obtain ⟨hle, hrejoined, hexcl⟩ := hu
  have hsucceeds := Advances.succeeds hstep
  have hnext : epoch ≤ v.view.epoch := by
    rw [hsucceeds.epoch]
    omega
  exact ⟨hnext, fun h => hsucceeds.rejoined hle (hrejoined h),
    fun h => hsucceeds.excludes_or_rejoined hle (hexcl h)⟩

theorem run_advances_preservesRemovals (hrun : Run C.Advances s inputs t) :
    s.view.preservesRemovals t.view = true := by
  apply preservesRemovals_of_rejoined
  intro e he
  obtain ⟨-, hrejoined, hexcl⟩ :=
    run_advances_rejoined e.rootCommitment e.deviceId hrun (s.removedEpoch_le e he)
  refine ⟨fun hroot => hrejoined fun m hm hmroot => absurd ⟨m, hm, hmroot⟩ hroot, ?_⟩
  exact hexcl (.inl ⟨e, he, rfl, rfl⟩)

/-- Removed devices stay removed until their root, without an entry, is added anew, and later snapshots
respect the removals of earlier ones. -/
theorem removals_persist : (Run C.Advances s inputs t → s.view.preservesRemovals t.view = true) ∧
      ∀ root device, Run (C.AdvancesWithout root) s inputs t → s.view.Excludes root device →
        t.view.effectiveRole root device = none := by
  refine ⟨run_advances_preservesRemovals, fun root device hrun hexcl => ?_⟩
  exact (run_advances_gone hrun (.inl hexcl)).effectiveRole

/-- The owner has removed the admin's laptop, which had no entry of its own. -/
def sampleExcluded : VerifiedGroupState openScheme :=
  (openScheme.advance sampleState (sampleApply 1 (.remove (sampleRoot 2) "laptop"))).toOption.get
    (by decide +kernel)

/-- The admin asks for a member to be added. -/
def sampleGrowth : Apply := sampleApply 2 (.add (sampleActor 3 "phone").identity .member)

def sampleGrown : VerifiedGroupState openScheme :=
  (openScheme.advance sampleExcluded sampleGrowth).toOption.get (by decide +kernel)

theorem removals_persist_laptop : sampleExcluded.view.Excludes (sampleRoot 2) "laptop" ∧
    sampleExcluded.view.preservesRemovals sampleGrown.view = true ∧
    sampleGrown.view.effectiveRole (sampleRoot 2) "laptop" = none := by
  have hstep : openScheme.Advances sampleExcluded sampleGrowth sampleGrown := eq_ok_get _
  have hother : ¬ Readmits sampleExcluded.view (sampleRoot 2) sampleGrowth.change := by
    rintro ⟨member, role, -, -, hroot⟩
    exact hroot (by decide +kernel)
  have hexcl : sampleExcluded.view.Excludes (sampleRoot 2) "laptop" := by decide +kernel
  exact ⟨hexcl, removals_persist.1 (.single hstep),
    removals_persist.2 _ _ (.single ⟨hstep, hother⟩) hexcl⟩

end GroupCrypto

end Ramflux.Group
