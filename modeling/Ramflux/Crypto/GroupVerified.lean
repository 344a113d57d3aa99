import Ramflux.Crypto.GroupSnapshot

/-! What verification establishes about a snapshot, and what each group change does to a roster. -/
namespace Ramflux.Group
open Fallible List Except

namespace SharedGroupState
variable {C : GroupCrypto} {s t : SharedGroupState} {root device : String}

def UniqueDevices (s : SharedGroupState) : Prop :=
  ∀ m ∈ s.members, ∀ n ∈ s.members, n.IsDevice m.identity.rootCommitment m.identity.deviceId → n = m

def HasDevice (s : SharedGroupState) (root device : String) : Prop :=
  ∃ m ∈ s.members, m.IsDevice root device

theorem mem_roots : root ∈ s.roots ↔ s.HasRoot root := by
  simp [roots, HasRoot]

@[simp] theorem forgetDeparted_members : (s.forgetDeparted root).members = s.members := by
  unfold forgetDeparted
  split_ifs <;> rfl

variable {e : GroupDeviceExclusion} {m : SharedGroupMember} {now : ℤ} {actor : SharedGroupRole}
  {epoch : ℕ}

theorem mem_forgetDeparted_excluded : e ∈ (s.forgetDeparted root).excluded ↔
      e ∈ s.excluded ∧ (s.HasRoot root ∨ e.rootCommitment ≠ root) := by
  unfold forgetDeparted
  split_ifs with h
  · simp [mem_roots.mp h]
  · have hroot : ¬ s.HasRoot root := fun hroot => h (mem_roots.mpr hroot)
    simp [hroot]

theorem UniqueDevices.eq (h : s.UniqueDevices) {n : SharedGroupMember} (hm : m ∈ s.members)
    (hn : n ∈ s.members) (hmd : m.IsDevice root device) (hnd : n.IsDevice root device) : n = m := by
  obtain ⟨rfl, rfl⟩ := hmd
  exact h m hm n hn hnd

section
variable (hu : s.UniqueDevices)
include hu

theorem find?_device (hm : m ∈ s.members)
    (hdev : m.IsDevice root device) : s.members.find? (·.IsDevice root device) = some m := by
  cases hfind : s.members.find? (·.IsDevice root device) with
  | none => exact absurd (decide_eq_true hdev) (find?_eq_none.mp hfind m hm)
  | some n =>
    have hn := find?_some hfind
    rw [hu.eq hm (mem_of_find?_eq_some hfind) hdev (of_decide_eq_true hn)]

/-- A role is that of the device's own entry, or without one the first in rank of its root. -/
theorem effectiveRole_eq_some_iff {r : SharedGroupRole} :
    s.effectiveRole root device = some r ↔ ¬ s.Excludes root device ∧
      ((∃ m ∈ s.members, m.IsDevice root device ∧ m.role = r) ∨
        ¬ s.HasDevice root device ∧ r ∈ s.rootRoles root ∧
          ∀ r' ∈ s.rootRoles root, r.rank ≤ r'.rank) := by
  unfold effectiveRole
  by_cases hexcl : s.Excludes root device
  · simp [hexcl]
  rw [if_neg hexcl]
  by_cases hentry : s.HasDevice root device
  · obtain ⟨m, hm, hdev⟩ := hentry
    rw [find?_device hu hm hdev]
    constructor
    · intro h
      exact ⟨hexcl, .inl ⟨m, hm, hdev, Option.some.inj h⟩⟩
    · rintro ⟨-, ⟨n, hn, hnd, rfl⟩ | ⟨hnone, -⟩⟩
      · rw [hu.eq hm hn hdev hnd]
      · exact absurd ⟨m, hm, hdev⟩ hnone
  · have hfind : s.members.find? (·.IsDevice root device) = none := by
      apply find?_eq_none.mpr
      intro m hm hdev
      exact hentry ⟨m, hm, of_decide_eq_true hdev⟩
    rw [hfind]
    constructor
    · intro h
      exact ⟨hexcl, .inr ⟨hentry, argmin_mem h, fun _ h' => le_of_mem_argmin h' h⟩⟩
    · rintro ⟨-, ⟨m, hm, hdev, -⟩ | ⟨-, hr, hmin⟩⟩
      · exact absurd ⟨m, hm, hdev⟩ hentry
      · -- two roles of least rank are the same role
        cases hargmin : (s.rootRoles root).argmin SharedGroupRole.rank with
        | none =>
          rw [argmin_eq_none.mp hargmin] at hr
          cases hr
        | some r' =>
          have hle := le_of_mem_argmin hr hargmin
          have hge := hmin r' (argmin_mem hargmin)
          rw [SharedGroupRole.rank_injective (le_antisymm hge hle)]

theorem effectiveRole_congr (hmembers : ∀ m, m ∈ t.members ↔ m ∈ s.members)
    (hexcl : ∀ e, e ∈ t.excluded ↔ e ∈ s.excluded) :
    t.effectiveRole root device = s.effectiveRole root device := by
  have hut : t.UniqueDevices := by
    intro m hm n hn
    exact hu m ((hmembers m).mp hm) n ((hmembers n).mp hn)
  apply Option.ext
  intro r
  rw [effectiveRole_eq_some_iff hu, effectiveRole_eq_some_iff hut]
  simp only [Excludes, HasDevice, mem_rootRoles, hmembers, hexcl]

end

theorem mem_sorted_members : m ∈ s.sorted.members ↔ m ∈ s.members :=
  (perm_insertionSort _ _).mem_iff

theorem mem_sorted_excluded : e ∈ s.sorted.excluded ↔ e ∈ s.excluded :=
  (perm_insertionSort _ _).mem_iff

theorem mem_pruned_excluded : e ∈ (s.pruned now).excluded ↔
      e ∈ s.excluded ∧ (now < e.expiresAt ∨ s.HasRoot e.rootCommitment) := by
  simp [pruned]

theorem effectiveRole_pruned (s : SharedGroupState) (now : ℤ) (root device : String) :
    (s.pruned now).effectiveRole root device = s.effectiveRole root device := by
  by_cases hroot : s.HasRoot root
  · have hexcludes : (s.pruned now).Excludes root device ↔ s.Excludes root device := by
      constructor
      · rintro ⟨e, he, hdev⟩
        exact ⟨e, (mem_pruned_excluded.mp he).1, hdev⟩
      · rintro ⟨e, he, rfl, hdev⟩
        exact ⟨e, mem_pruned_excluded.mpr ⟨he, .inr hroot⟩, rfl, hdev⟩
    simp only [effectiveRole, hexcludes]
    rfl
  · rw [effectiveRole_of_not_hasRoot hroot]
    exact effectiveRole_of_not_hasRoot (s := s.pruned now) hroot

structure Added (s : SharedGroupState) (actor : SharedGroupRole) (identity : GroupMemberIdentity)
    (role : SharedGroupRole) (epoch : ℕ) (t : SharedGroupState) : Prop where
  invited : canInviteGroupMember actor role = true
  admissible : s.HasRoot identity.rootCommitment →
    ¬ s.Excludes identity.rootCommitment identity.deviceId
  fresh : ¬ s.HasDevice identity.rootCommitment identity.deviceId
  members : t.members = s.members ++ [{ identity, role, joinedEpoch := epoch }]
  excluded : ∀ e, e ∈ t.excluded ↔ e ∈ s.excluded ∧
    (s.HasRoot identity.rootCommitment ∨ e.rootCommitment ≠ identity.rootCommitment)

theorem add_ok {role : SharedGroupRole} {identity : GroupMemberIdentity}
    (h : s.add C actor identity role epoch = .ok t) : s.Added actor identity role epoch t := by
  replace h := ok_after h
  obtain ⟨hinvite, h⟩ := not_refused h
  replace h := ok_after h
  obtain ⟨hexcl, h⟩ := not_refused h
  replace h := ok_after h
  obtain ⟨hconflict, h⟩ := not_refused h
  have hinvite := Bool.eq_true_of_not_eq_false hinvite
  have hexcl := not_and.mp hexcl
  cases h
  rw [mem_roots] at hexcl
  rw [forgetDeparted_members] at hconflict
  refine ⟨hinvite, hexcl, ?_, ?_, ?_⟩
  · rintro ⟨m, hm, hroot, hdev⟩
    exact hconflict ⟨m, hm, hroot, .inl hdev⟩
  · exact congrArg (· ++ _) forgetDeparted_members
  · intro e
    simp only [mem_filter, decide_eq_true_eq, mem_forgetDeparted_excluded]
    refine ⟨And.left, fun he => ⟨he, ?_⟩⟩
    -- no exclusion of the device itself is left to drop
    rintro ⟨hroot, hdev⟩
    rcases he.2 with hpresent | hne
    · exact hexcl hpresent ⟨e, he.1, hroot, hdev⟩
    · exact hne hroot

structure Removed (s : SharedGroupState) (actor : SharedGroupRole) (root device : String)
    (t : SharedGroupState) : Prop where
  removable : ∃ target, s.effectiveRole root device = some target ∧
    canRemoveGroupMember actor target = true
  members : ∀ m, m ∈ t.members ↔ m ∈ s.members ∧ ¬ m.IsDevice root device
  excluded : ∃ e : GroupDeviceExclusion, e.IsDevice root device ∧ t.excluded = s.excluded ++ [e]

theorem remove_ok
    (h : s.remove C actor root device epoch now = .ok t) : s.Removed actor root device t := by
  unfold remove at h
  split at h
  · cases h
  · next target htgt =>
    obtain ⟨hremove, h⟩ := not_refused h
    iterate 2 replace h := ok_after h
    have hremove := Bool.eq_true_of_not_eq_false hremove
    cases h
    refine ⟨⟨target, htgt, hremove⟩, ?_, _, ⟨rfl, rfl⟩, rfl⟩
    simp

structure Reassigned (s : SharedGroupState) (actor : SharedGroupRole) (root device : String)
    (newRole : SharedGroupRole) (t : SharedGroupState) : Prop where
  changeable : ∃ target ∈ s.members, target.IsDevice root device ∧
    canChangeGroupMemberRole actor target.role newRole = true
  members : t.members = replaceRole root device newRole s.members
  excluded : t.excluded = s.excluded

variable {newRole : SharedGroupRole}

theorem role_ok (h : s.role actor root device newRole = .ok t) :
    s.Reassigned actor root device newRole t := by
  unfold role at h
  split at h
  · cases h
  · next target htgt =>
    obtain ⟨hchange, h⟩ := not_refused h
    have hchange := Bool.eq_true_of_not_eq_false hchange
    cases h
    have hdev := find?_some htgt
    exact ⟨⟨target, mem_of_find?_eq_some htgt, of_decide_eq_true hdev, hchange⟩, rfl, rfl⟩

/-- Entries after a role change: those of other devices, and that of the device with the role. -/
theorem mem_replaceRole {members : List SharedGroupMember}
    (h : m ∈ replaceRole root device newRole members) :
    m ∈ members ∨ ∃ old ∈ members, old.IsDevice root device ∧ m = { old with role := newRole } := by
  induction members with
  | nil => exact .inl h
  | cons n members ih =>
    unfold replaceRole at h
    split_ifs at h with hdev
    · rcases mem_cons.mp h with rfl | hm
      · exact .inr ⟨n, .head _, hdev, rfl⟩
      · exact .inl (.tail _ hm)
    · rcases mem_cons.mp h with rfl | hm
      · exact .inl (.head _)
      · rcases ih hm with hm | ⟨old, hold, hd, rfl⟩
        · exact .inl (.tail _ hm)
        · exact .inr ⟨old, .tail _ hold, hd, rfl⟩

theorem exists_mem_replaceRole {newRole : SharedGroupRole} {members : List SharedGroupMember}
    {m : SharedGroupMember} (h : m ∈ members) :
    m ∈ replaceRole root device newRole members ∨
      m.IsDevice root device ∧ { m with role := newRole } ∈ replaceRole root device newRole members := by
  induction members with
  | nil => cases h
  | cons n members ih =>
    unfold replaceRole
    split_ifs with hdev
    · rcases mem_cons.mp h with rfl | hm
      · exact .inr ⟨hdev, .head _⟩
      · exact .inl (.tail _ hm)
    · rcases mem_cons.mp h with rfl | hm
      · exact .inl (.head _)
      · rcases ih hm with hm | ⟨hd, hm⟩
        · exact .inl (.tail _ hm)
        · exact .inr ⟨hd, .tail _ hm⟩

/-- What an accepted change did, by the actor's role and the kind of the change. -/
inductive Changed (s : SharedGroupState) (actor : SharedGroupRole) (epoch : ℕ) :
    GroupStateChange → SharedGroupState → Prop
  | add {identity : GroupMemberIdentity} {role : SharedGroupRole} {t : SharedGroupState} :
      s.Added actor identity role epoch t →
      Changed s actor epoch (.add identity role) t
  | remove {root device : String} {t : SharedGroupState} :
      s.Removed actor root device t →
      Changed s actor epoch (.remove root device) t
  | setRole {root device : String} {newRole : SharedGroupRole} {t : SharedGroupState} :
      s.Reassigned actor root device newRole t →
      Changed s actor epoch (.setRole root device newRole) t
  | setName {name : String} {t : SharedGroupState} :
      t.members = s.members → t.excluded = s.excluded →
      Changed s actor epoch (.setName name) t

theorem apply_ok {actor : GroupStateActor} {change : GroupStateChange}
    (h : s.apply C actor change epoch now = .ok t) :
    ∃ role, s.actorRole actor = .ok role ∧ t.epoch = epoch ∧ s.Changed role epoch change t := by
  obtain ⟨role, hrole, h⟩ := bind_eq_ok.mp h
  obtain ⟨next, hnext, h⟩ := bind_eq_ok.mp h
  cases h
  refine ⟨role, hrole, rfl, ?_⟩
  cases change with
  | add identity joined => exact .add { add_ok hnext with }
  | remove root device => exact .remove { remove_ok hnext with }
  | setRole root device newRole => exact .setRole { role_ok hnext with }
  | setName name =>
    iterate 2 replace hnext := ok_after hnext
    cases hnext
    exact .setName rfl rfl
  | transferOwnership creator acceptance => cases hnext

end SharedGroupState

namespace GroupCrypto
variable {C : GroupCrypto} {snapshot : GroupStateSnapshot}

/-- What the loop over the members establishes about those it has passed. -/
structure RosterOk (snapshot : GroupStateSnapshot) (seen : List SharedGroupMember)
    (walk : RosterWalk) : Prop where
  devices : walk.devices = seen.map fun m => (m.identity.rootCommitment, m.identity.deviceId)
  nodup : walk.devices.Nodup
  owners : walk.owners = seen.countP (·.role = .owner)
  owned : ∀ m ∈ seen, m.role = .owner →
    m.identity.rootCommitment = snapshot.creator.identity.rootCommitment

variable {seen : List SharedGroupMember} {walk : RosterWalk}

theorem checkMember_ok {next : RosterWalk} {member : SharedGroupMember}
    (hwalk : RosterOk snapshot seen walk) (h : C.checkMember snapshot walk member = .ok next) :
    RosterOk snapshot (seen ++ [member]) next := by
  replace h := ok_after h
  obtain ⟨hduplicate, h⟩ := not_refused h
  replace h := ok_after h
  obtain ⟨howner, h⟩ := not_refused h
  cases h
  have hnew : (member.identity.rootCommitment, member.identity.deviceId) ∉ walk.devices :=
    fun hmem => hduplicate (.inr (.inr hmem))
  refine ⟨?_, ?_, ?_, ?_⟩
  · simp [hwalk.devices]
  · exact nodup_append.mpr ⟨hwalk.nodup, nodup_singleton _,
      fun a ha b hb hab => hnew (mem_singleton.mp hb ▸ hab ▸ ha)⟩
  · by_cases hrole : member.role = .owner
    · simp [hrole, hwalk.owners]
    · simp [hrole, hwalk.owners]
  · intro m hm hrole
    rcases mem_append.mp hm with hm | hm
    · exact hwalk.owned m hm hrole
    · obtain rfl := mem_singleton.mp hm
      exact not_not.mp fun hne => howner ⟨hrole, hne⟩

theorem checkMembers_ok {members : List SharedGroupMember} {last : RosterWalk}
    (hwalk : RosterOk snapshot seen walk)
    (h : members.foldlM (C.checkMember snapshot) walk = .ok last) :
    RosterOk snapshot (seen ++ members) last := by
  induction members generalizing seen walk with
  | nil =>
    cases h
    simpa using hwalk
  | cons member members ih =>
    obtain ⟨next, hnext, h⟩ := bind_eq_ok.mp h
    have hrest := ih (checkMember_ok hwalk hnext) h
    simpa using hrest

theorem checkExclusion_removedEpoch {roster : RosterWalk} {walk next : ExclusionWalk}
    {entry : GroupDeviceExclusion} (h : C.checkExclusion snapshot roster walk entry = .ok next) :
    entry.removedEpoch ≤ snapshot.state.epoch := by
  iterate 3 replace h := ok_after h
  obtain ⟨_, hentry, -⟩ := bind_eq_ok.mp h
  exact Nat.le_of_not_lt fun hlt => refuseWhen_eq_ok.mp hentry (.inr (.inl hlt))

/-- The parts of verification the results below rest on. -/
structure VerifyOk (C : GroupCrypto) (snapshot : GroupStateSnapshot) : Prop where
  epoch : snapshot.epoch = snapshot.state.epoch
  roster : C.verifyRoster snapshot = .ok ()
  stateHash : snapshot.stateHash = C.contentHash snapshot.content
  headHash : snapshot.state.headHash = C.contentHash snapshot.content
  signer : ∃ key, C.signerKey snapshot = .ok key

theorem verify_ok (h : C.verify snapshot = .ok ()) : VerifyOk C snapshot := by
  replace h := ok_after h
  obtain ⟨hhdr, h⟩ := not_refused h
  iterate 5 replace h := ok_after h
  obtain ⟨_, hroster, h⟩ := bind_eq_ok.mp h
  obtain ⟨hhash, h⟩ := not_refused h
  obtain ⟨key, hkey, -⟩ := bind_eq_ok.mp h
  simp only [not_or, not_not] at hhdr
  simp only [not_or, not_not] at hhash
  exact ⟨hhdr.2.2.2.2.2.2.2.2.1, hroster, hhash.1, hhash.2, key, hkey⟩

theorem verifyRoster_ok (h : C.verifyRoster snapshot = .ok ()) :
    (∃ roster, RosterOk snapshot snapshot.state.members roster ∧ roster.owners = 1) ∧
      ∀ e ∈ snapshot.state.excluded, e.removedEpoch ≤ snapshot.state.epoch := by
  iterate 2 replace h := ok_after h
  obtain ⟨roster, hroster, h⟩ := bind_eq_ok.mp h
  obtain ⟨howners, h⟩ := not_refused h
  obtain ⟨_, hexcl, -⟩ := bind_eq_ok.mp h
  have hstart : RosterOk snapshot [] ⟨[], ∅, 0⟩ := ⟨rfl, nodup_nil, rfl, by simp⟩
  simp only [not_or, not_not] at howners
  have hmembers := checkMembers_ok hstart hroster
  refine ⟨⟨roster, hmembers, howners.1⟩, fun e he => ?_⟩
  obtain ⟨walk, next, hround⟩ := exists_round_of_foldlM_ok hexcl e he
  exact checkExclusion_removedEpoch hround

end GroupCrypto

namespace VerifiedGroupState
open GroupCrypto
variable {C : GroupCrypto}

section
variable (s : VerifiedGroupState C)

theorem verifyOk : VerifyOk C s.snapshot := by
  obtain ⟨_, h, -⟩ := bind_eq_ok.mp s.verified
  exact verify_ok h

theorem epoch_eq : s.snapshot.epoch = s.view.epoch := s.verifyOk.epoch

theorem uniqueDevices : s.view.UniqueDevices := by
  obtain ⟨⟨roster, hroster, -⟩, -⟩ := verifyRoster_ok s.verifyOk.roster
  have hnodup := hroster.devices ▸ hroster.nodup
  intro m hm n hn hdev
  exact inj_on_of_nodup_map hnodup hn hm (Prod.ext hdev.1 hdev.2)

theorem removedEpoch_le : ∀ e ∈ s.view.excluded, e.removedEpoch ≤ s.view.epoch :=
  (verifyRoster_ok s.verifyOk.roster).2

theorem exists_owner : ∃ m ∈ s.view.members, m.role = .owner ∧
    m.identity.rootCommitment = s.creator.identity.rootCommitment := by
  obtain ⟨⟨roster, hroster, howners⟩, -⟩ := verifyRoster_ok s.verifyOk.roster
  have hcount : 0 < s.snapshot.state.members.countP (·.role = .owner) := by
    rw [← hroster.owners, howners]
    exact Nat.one_pos
  obtain ⟨m, hm, hrole⟩ := countP_pos_iff.mp hcount
  have hrole := of_decide_eq_true hrole
  exact ⟨m, hm, hrole, hroster.owned m hm hrole⟩

/-- Every handover happened by the snapshot's epoch, right after the head it was accepted on. -/
theorem transfer_epoch {transfer : GroupCreatorTransfer}
    (h : transfer ∈ s.snapshot.transfers) : transfer.epoch ≤ s.view.epoch ∧
      transfer.acceptance.baseEpoch + 1 = transfer.epoch := by
  obtain ⟨key, hkey⟩ := s.verifyOk.signer
  obtain ⟨chain, hchain, -⟩ := bind_eq_ok.mp hkey
  obtain ⟨_, _, hround⟩ := exists_round_of_foldlM_ok hchain transfer h
  obtain ⟨hlink, hround⟩ := not_refused hround
  obtain ⟨_, hcert, -⟩ := bind_eq_ok.mp hround
  replace hcert := ok_after hcert
  have hcert := refuseWhen_eq_ok.mp hcert
  simp only [not_or, not_not, not_lt] at hlink hcert
  rw [← s.epoch_eq]
  exact ⟨hlink.2.2.2.2, hcert.2.2.2.1⟩

end

end VerifiedGroupState

namespace GroupCrypto
variable {C : GroupCrypto}

variable {snapshot : GroupStateSnapshot} {previous : VerifiedGroupState C} {input : Apply}

theorem verified_ok {v : VerifiedGroupState C}
    (h : C.verified snapshot = .ok v) : v.snapshot = snapshot := by
  unfold verified at h
  split at h
  · cases h
    rfl
  · cases h

/-- The roster, before sorting, of an accepted change or of a handover the creator's root asked for. -/
inductive Advanced (C : GroupCrypto) (previous : VerifiedGroupState C) (input : Apply) :
    SharedGroupState → Prop
  | change {next : SharedGroupState} {role : SharedGroupRole} :
      (previous.view.pruned input.now).actorRole input.requester = .ok role →
      (previous.view.pruned input.now).Changed role (previous.view.epoch + 1) input.change next →
      Advanced C previous input next
  | handover {creator : GroupStateActor} {acceptance : GroupTransferAcceptance} {selected : ℕ} :
      input.change = .transferOwnership creator acceptance →
      input.requester.identity.rootCommitment = previous.creator.identity.rootCommitment →
      Advanced C previous input
        ((previous.view.pruned input.now).handedOver selected (previous.view.epoch + 1))

variable {next : GroupStateSnapshot}

theorem transferred_ok {creator : GroupStateActor} {acceptance : GroupTransferAcceptance}
    (h : C.transferred previous input snapshot creator acceptance = .ok next) :
    input.requester.identity.rootCommitment = previous.creator.identity.rootCommitment ∧
      ∃ selected, next.state = snapshot.state.handedOver selected snapshot.epoch := by
  replace h := ok_after h
  obtain ⟨hreq, h⟩ := not_refused h
  iterate 2 replace h := ok_after h
  have hreq := not_not.mp hreq
  split at h
  · cases h
  · cases h
    exact ⟨hreq, _, rfl⟩

theorem changed_ok (hstate : snapshot.state = previous.view.pruned input.now)
    (hepoch : snapshot.epoch = previous.view.epoch + 1)
    (h : C.changed previous input snapshot = .ok next) :
    Advanced C previous input next.state ∧ next.state.epoch = previous.view.epoch + 1 := by
  unfold changed at h
  split at h
  next creator acceptance hchange =>
    obtain ⟨hreq, selected, hnext⟩ := transferred_ok h
    rw [hstate, hepoch] at hnext
    rw [hnext]
    exact ⟨.handover hchange hreq, rfl⟩
  next =>
    obtain ⟨state, happly, h⟩ := bind_eq_ok.mp h
    cases h
    rw [hstate, hepoch] at happly
    obtain ⟨role, hrole, hstateEpoch, hchanged⟩ := SharedGroupState.apply_ok happly
    exact ⟨.change hrole hchanged, hstateEpoch⟩

/-- A transition leads from the roster to the entries of an advanced one, one epoch later. -/
theorem advance_ok {next : VerifiedGroupState C} (h : C.advance previous input = .ok next) :
    ∃ state, Advanced C previous input state ∧ next.view.epoch = previous.view.epoch + 1 ∧
      (∀ m, m ∈ next.view.members ↔ m ∈ state.members) ∧
      ∀ e, e ∈ next.view.excluded ↔ e ∈ state.excluded := by
  iterate 4 replace h := ok_after h
  obtain ⟨snapshot, hsnapshot, h⟩ := bind_eq_ok.mp h
  obtain ⟨hadvanced, hepoch⟩ :=
    changed_ok rfl (congrArg (· + 1) previous.epoch_eq) hsnapshot
  have hnext : next.snapshot = C.signed input.signer input.branch input.actor snapshot :=
    verified_ok h
  have hview : next.view = { snapshot.state.sorted with headHash := next.view.headHash } := by
    unfold VerifiedGroupState.view
    rw [hnext]
    rfl
  refine ⟨snapshot.state, hadvanced, ?_, ?_, ?_⟩
  · rw [hview]
    exact hepoch
  · intro m
    rw [hview]
    exact SharedGroupState.mem_sorted_members
  · intro e
    rw [hview]
    exact SharedGroupState.mem_sorted_excluded

end GroupCrypto

end Ramflux.Group
