import Ramflux.Crypto.GroupVerified
import Ramflux.Lib.Run

/-! Changes by admins against the roles of the owner and of the admins. -/
namespace Ramflux.Group
open Fallible List SharedGroupState

abbrev Privileged (r : SharedGroupRole) : Prop := isGroupAdminRole r = true

variable {r : SharedGroupRole}

theorem rank_le_of_privileged {r' : SharedGroupRole} (hr : Privileged r)
    (hr' : ¬ Privileged r') : r.rank ≤ r'.rank := by
  revert hr hr'
  cases r <;> cases r' <;> decide

theorem not_privileged_of_canInvite (h : canInviteGroupMember .admin r = true) : ¬ Privileged r := by
  revert h
  cases r <;> decide

theorem not_privileged_of_canRemove (h : canRemoveGroupMember .admin r = true) : ¬ Privileged r := by
  revert h
  cases r <;> decide

theorem of_canChange {target new : SharedGroupRole}
    (h : canChangeGroupMemberRole .admin target new = true) :
    target = new ∨ ¬ Privileged target ∧ ¬ Privileged new := by
  revert h
  cases target <;> cases new <;> decide

variable {epoch : ℕ} {actor : GroupStateActor}

namespace SharedGroupState
variable {s t : SharedGroupState} {root device : String}

def HoldsPrivilege (s : SharedGroupState) (root device : String) : Prop :=
  ∃ r, s.effectiveRole root device = some r ∧ Privileged r

/-- From `s` to `t` owners and admins keep their entries, no other entry becomes one of theirs, and no
device with their role gets or loses an entry or is excluded. -/
structure Spares (s t : SharedGroupState) : Prop where
  kept : ∀ m ∈ s.members, Privileged m.role → m ∈ t.members
  old : ∀ m ∈ t.members, Privileged m.role → m ∈ s.members
  entry : ∀ root device, s.HoldsPrivilege root device →
    t.HasDevice root device → s.HasDevice root device
  excluded : ∀ root device, s.HoldsPrivilege root device → ¬ t.Excludes root device

theorem Spares.effectiveRole (h : s.Spares t) (hs : s.UniqueDevices) (ht : t.UniqueDevices)
    {r : SharedGroupRole} (hrole : s.effectiveRole root device = some r) (hr : Privileged r) :
    t.effectiveRole root device = some r := by
  have hholds : s.HoldsPrivilege root device := ⟨r, hrole, hr⟩
  apply (effectiveRole_eq_some_iff ht).mpr
  refine ⟨h.excluded _ _ hholds, ?_⟩
  rcases ((effectiveRole_eq_some_iff hs).mp hrole).2 with ⟨m, hm, hdev, rfl⟩ | hinherited
  · exact .inl ⟨m, h.kept m hm hr, hdev, rfl⟩
  obtain ⟨hnone, hmem, hmin⟩ := hinherited
  obtain ⟨m, hm, hroot, rfl⟩ := mem_rootRoles.mp hmem
  refine .inr ⟨fun hentry => hnone (h.entry _ _ hholds hentry),
    mem_rootRoles.mpr ⟨m, h.kept m hm hr, hroot, rfl⟩, ?_⟩
  intro r' hr'
  obtain ⟨n, hn, hnroot, rfl⟩ := mem_rootRoles.mp hr'
  by_cases hn' : Privileged n.role
  · exact hmin _ (mem_rootRoles.mpr ⟨n, h.old n hn hn', hnroot, rfl⟩)
  · exact rank_le_of_privileged hr hn'

theorem HoldsPrivilege.not_excludes (h : s.HoldsPrivilege root device) :
    ¬ s.Excludes root device := by
  obtain ⟨r, hrole, -⟩ := h
  intro hexcl
  rw [effectiveRole_of_excludes hexcl] at hrole
  cases hrole

/-- A device added as a member or bot spares the owners and admins unless it had their role. -/
theorem Added.spares {identity : GroupMemberIdentity} {role : SharedGroupRole}
    (h : s.Added .admin identity role epoch t)
    (hplain : ¬ s.HoldsPrivilege identity.rootCommitment identity.deviceId) : s.Spares t where
  kept m hm _ := by
    rw [h.members]
    exact mem_append_left _ hm
  old m hm hr := by
    rw [h.members] at hm
    rcases mem_append.mp hm with hm | hm
    · exact hm
    · obtain rfl := mem_singleton.mp hm
      exact absurd hr (not_privileged_of_canInvite h.invited)
  entry root device hholds := by
    rintro ⟨m, hm, hdev⟩
    rw [h.members] at hm
    rcases mem_append.mp hm with hm | hm
    · exact ⟨m, hm, hdev⟩
    · obtain rfl := mem_singleton.mp hm
      obtain ⟨rfl, rfl⟩ := hdev
      exact absurd hholds hplain
  excluded root device hholds := by
    rintro ⟨e, he, hdev⟩
    exact hholds.not_excludes ⟨e, ((h.excluded e).mp he).1, hdev⟩

theorem Removed.spares (hs : s.UniqueDevices) (h : s.Removed .admin root device t) : s.Spares t := by
  obtain ⟨target, htgt, hcan⟩ := h.removable
  have hplain : ¬ s.HoldsPrivilege root device := by
    rintro ⟨r, hrole, hr⟩
    rw [htgt] at hrole
    exact not_privileged_of_canRemove hcan (Option.some.inj hrole ▸ hr)
  refine ⟨?_, ?_, ?_, ?_⟩
  · intro m hm hr
    refine (h.members m).mpr ⟨hm, fun hdev => ?_⟩
    -- the device's own entry would have given it its role
    have hrole : s.effectiveRole root device = some m.role := by
      apply (effectiveRole_eq_some_iff hs).mpr
      refine ⟨fun hexcl => ?_, .inl ⟨m, hm, hdev, rfl⟩⟩
      rw [effectiveRole_of_excludes hexcl] at htgt
      cases htgt
    exact hplain ⟨m.role, hrole, hr⟩
  · intro m hm _
    exact ((h.members m).mp hm).1
  · rintro root' device' - ⟨m, hm, hdev⟩
    exact ⟨m, ((h.members m).mp hm).1, hdev⟩
  · rintro root' device' hholds ⟨e, he, hdev⟩
    obtain ⟨removed, hremoved, hexcl⟩ := h.excluded
    rw [hexcl] at he
    rcases mem_append.mp he with he | he
    · exact hholds.not_excludes ⟨e, he, hdev⟩
    · obtain rfl := mem_singleton.mp he
      obtain ⟨rfl, rfl⟩ := hdev
      obtain ⟨rfl, rfl⟩ := hremoved
      exact hplain hholds

theorem Reassigned.spares {newRole : SharedGroupRole} (hs : s.UniqueDevices)
    (h : s.Reassigned .admin root device newRole t) : s.Spares t := by
  obtain ⟨target, htgt, hdev, hcan⟩ := h.changeable
  have hchange := of_canChange hcan
  refine ⟨?_, ?_, ?_, ?_⟩
  · intro m hm hr
    rw [h.members]
    rcases @exists_mem_replaceRole root device newRole _ _ hm with hmem | ⟨hm', hmem⟩
    · exact hmem
    · obtain rfl := hs.eq htgt hm hdev hm'
      rcases hchange with rfl | ⟨hplain, -⟩
      · exact hmem
      · exact absurd hr hplain
  · intro m hm hr
    rw [h.members] at hm
    rcases mem_replaceRole hm with hm | ⟨old, hold, hold', rfl⟩
    · exact hm
    · obtain rfl := hs.eq htgt hold hdev hold'
      rcases hchange with rfl | ⟨-, hplain⟩
      · exact hold
      · exact absurd hr hplain
  · rintro root' device' - ⟨m, hm, hm'⟩
    rw [h.members] at hm
    rcases mem_replaceRole hm with hm | ⟨old, hold, -, rfl⟩
    · exact ⟨m, hm, hm'⟩
    · exact ⟨old, hold, hm'⟩
  · rintro root' device' hholds ⟨e, he, he'⟩
    rw [h.excluded] at he
    exact hholds.not_excludes ⟨e, he, he'⟩

theorem Spares.of_eq (hmembers : t.members = s.members) (hexcl : t.excluded = s.excluded) :
    s.Spares t where
  kept _ hm _ := hmembers ▸ hm
  old _ hm _ := hmembers ▸ hm
  entry _ _ _ := fun ⟨m, hm, hdev⟩ => ⟨m, hmembers ▸ hm, hdev⟩
  excluded _ _ hholds := fun ⟨e, he, hdev⟩ => hholds.not_excludes ⟨e, hexcl ▸ he, hdev⟩

/-- The change gives no own entry to a device that is owner or admin through its root. -/
def LeavesSiblings (s : SharedGroupState) : GroupStateChange → Prop
  | .add member _ => ¬ s.HoldsPrivilege member.rootCommitment member.deviceId
  | _ => True

variable {change : GroupStateChange}

theorem Changed.spares (hs : s.UniqueDevices)
    (h : s.Changed .admin epoch change t) (hsiblings : s.LeavesSiblings change) : s.Spares t := by
  cases h with
  | add hadd => exact hadd.spares hsiblings
  | remove hremove => exact hremove.spares hs
  | setRole hset => exact hset.spares hs
  | setName hmembers hexcl => exact .of_eq hmembers hexcl

variable {now : ℤ}

theorem leavesSiblings_pruned : (s.pruned now).LeavesSiblings change ↔ s.LeavesSiblings change := by
  cases change <;> simp [LeavesSiblings, HoldsPrivilege, effectiveRole_pruned]

theorem actorRole_pruned : (s.pruned now).actorRole actor = s.actorRole actor := by
  unfold actorRole
  rw [effectiveRole_pruned]
  rfl

end SharedGroupState

namespace GroupCrypto
variable (C : GroupCrypto)

/-- The creator puts a change into effect that an admin asked for. -/
def AdminStep (s : VerifiedGroupState C) (input : Apply) (t : VerifiedGroupState C) : Prop :=
  s.view.actorRole input.requester = .ok .admin ∧ C.advance s input = .ok t

/-- Such a change that gives no device an own entry in place of an owner's or admin's role of its root. -/
def FairAdminStep (s : VerifiedGroupState C) (input : Apply) (t : VerifiedGroupState C) : Prop :=
  C.AdminStep s input t ∧ s.view.LeavesSiblings input.change

variable {C}

theorem actorRole_of_creatorRoot {s : VerifiedGroupState C}
    (hroot : actor.identity.rootCommitment = s.creator.identity.rootCommitment) :
    s.view.actorRole actor ≠ .ok .admin := by
  obtain ⟨m, hm, hrole, hmroot⟩ := s.exists_owner
  intro h
  replace h := ok_after h
  rw [if_pos ⟨m, hm, hrole, hmroot.trans hroot.symm⟩] at h
  cases h

theorem FairAdminStep.effectiveRole {s t : VerifiedGroupState C} {input : Apply}
    (h : C.FairAdminStep s input t) {root device : String} {r : SharedGroupRole}
    (hrole : s.view.effectiveRole root device = some r) (hr : Privileged r) :
    t.view.effectiveRole root device = some r := by
  obtain ⟨⟨hadmin, hadvance⟩, hsiblings⟩ := h
  obtain ⟨state, hstate, -, hmembers, hexcl⟩ := advance_ok hadvance
  have hunique : state.UniqueDevices := by
    intro m hm n hn
    exact t.uniqueDevices m ((hmembers m).mpr hm) n ((hmembers n).mpr hn)
  rw [effectiveRole_congr hunique hmembers hexcl]
  cases hstate with
  | change hactor hchanged =>
    rw [actorRole_pruned, hadmin] at hactor
    cases hactor
    have hpruned : (s.view.pruned input.now).UniqueDevices := s.uniqueDevices
    have hspares := hchanged.spares hpruned
      (leavesSiblings_pruned.mpr hsiblings)
    rw [← effectiveRole_pruned s.view input.now] at hrole
    exact hspares.effectiveRole hpruned hunique hrole hr
  | handover hchange hreq =>
    exact absurd hadmin (actorRole_of_creatorRoot hreq)

/-- Whatever admins do with other devices, the owner and the admins keep their roles. -/
theorem run_fairAdminStep_effectiveRole {s t : VerifiedGroupState C} {changes : List Apply}
    (hrun : Run C.FairAdminStep s changes t) {root device : String} {r : SharedGroupRole}
    (hrole : s.view.effectiveRole root device = some r) (hr : Privileged r) :
    t.view.effectiveRole root device = some r :=
  hrun.preserves (P := fun u => u.view.effectiveRole root device = some r) hrole
    fun _ _ _ hu hstep => hstep.effectiveRole hu hr

/-- The admin adds the phone of a third account. -/
def sampleInvite : Apply := sampleApply 2 (.add (sampleActor 3 "phone").identity .member)

def sampleInvited : VerifiedGroupState openScheme :=
  (openScheme.advance sampleState sampleInvite).toOption.get (by decide +kernel)

theorem run_fairAdminStep_effectiveRole_invite :
    Run openScheme.FairAdminStep sampleState [sampleInvite] sampleInvited ∧
      sampleState.view.effectiveRole (sampleRoot 1) "laptop" = some .owner ∧
      sampleInvited.view.effectiveRole (sampleRoot 1) "laptop" = some .owner := by
  have hplain : sampleState.view.effectiveRole (sampleRoot 3) "phone" = none := by
    decide +kernel
  have hsiblings : sampleState.view.LeavesSiblings sampleInvite.change := by
    rintro ⟨r, hr, -⟩
    cases hplain.symm.trans hr
  have hstep : openScheme.FairAdminStep sampleState sampleInvite sampleInvited :=
    ⟨⟨by decide +kernel, eq_ok_get _⟩, hsiblings⟩
  have howner : sampleState.view.effectiveRole (sampleRoot 1) "laptop" = some .owner := by
    decide +kernel
  exact ⟨.single hstep, howner, run_fairAdminStep_effectiveRole (.single hstep) howner rfl⟩

/-- The admin gives the owner's laptop an entry of its own. -/
def sampleDemotion : Apply := sampleApply 2 (.add (sampleActor 1 "laptop").identity .member)

def sampleDemoted : VerifiedGroupState openScheme :=
  (openScheme.advance sampleState sampleDemotion).toOption.get (by decide +kernel)

def sampleRemoval : Apply := sampleApply 2 (.remove (sampleRoot 1) "laptop")

def sampleBanned : VerifiedGroupState openScheme :=
  (openScheme.advance sampleDemoted sampleRemoval).toOption.get (by decide +kernel)

/-- An admin first lists a device of the owner as a member, and then removes it. -/
theorem admin_removes_owner_device :
    Run openScheme.AdminStep sampleState [sampleDemotion, sampleRemoval] sampleBanned ∧
      sampleState.view.effectiveRole (sampleRoot 1) "laptop" = some .owner ∧
      sampleDemoted.view.effectiveRole (sampleRoot 1) "laptop" = some .member ∧
      sampleBanned.view.effectiveRole (sampleRoot 1) "laptop" = none := by
  have hdemote : openScheme.AdminStep sampleState sampleDemotion sampleDemoted :=
    ⟨by decide +kernel, eq_ok_get _⟩
  have hremove : openScheme.AdminStep sampleDemoted sampleRemoval sampleBanned :=
    ⟨by decide +kernel, eq_ok_get _⟩
  exact ⟨(Run.single hdemote).snoc hremove, by decide +kernel, by decide +kernel, by decide +kernel⟩

end GroupCrypto

end Ramflux.Group
