import Ramflux.Lib.IdealHash
import Mathlib.Data.List.MinMax
import Mathlib.Data.List.Sort

/-! Group rosters: members and excluded devices of account roots, the role a device has through them,
and what roles permit. -/
namespace Ramflux.Group

inductive SharedGroupRole
  | owner
  | admin
  | member
  | bot
  deriving DecidableEq, Countable

namespace SharedGroupRole

def rank : SharedGroupRole → ℕ
  | owner => 0
  | admin => 1
  | member => 2
  | bot => 3

theorem rank_injective : Function.Injective rank := by
  intro a b h
  cases a <;> cases b <;> first | rfl | cases h

end SharedGroupRole

def isGroupAdminRole : SharedGroupRole → Bool
  | .owner | .admin => true
  | .member | .bot => false

/-- Actor's role, then the target's. -/
def canRemoveGroupMember : SharedGroupRole → SharedGroupRole → Bool
  | .owner, .owner => false
  | .owner, _ => true
  | .admin, .member | .admin, .bot => true
  | _, _ => false

/-- Actor's role, then the invited role. -/
def canInviteGroupMember : SharedGroupRole → SharedGroupRole → Bool
  | .owner, .admin | .owner, .member | .owner, .bot => true
  | .admin, .member | .admin, .bot => true
  | _, _ => false

def canChangeGroupMemberRole (actorRole targetRole newRole : SharedGroupRole) : Bool :=
  if targetRole = newRole then isGroupAdminRole actorRole
  else
    match actorRole, targetRole, newRole with
    | .owner, .admin, .admin | .owner, .admin, .member | .owner, .admin, .bot => true
    | .owner, .member, .admin | .owner, .member, .member | .owner, .member, .bot => true
    | .owner, .bot, .admin | .owner, .bot, .member | .owner, .bot, .bot => true
    | .admin, .member, .member | .admin, .member, .bot => true
    | .admin, .bot, .member | .admin, .bot, .bot => true
    | _, _, _ => false

structure GroupMemberIdentity where
  principalId : String
  rootCommitment : String
  deviceId : String
  signingPublicKey : String
  target : String
  deriving DecidableEq, Countable

/-- The native authority stands in its canonical encoding. -/
structure GroupStateActor where
  identity : GroupMemberIdentity
  rootPublicKey : String
  rootSignature : String
  nativeAuthority : Option String
  deriving DecidableEq, Countable

structure GroupTransferAcceptance where
  groupId : String
  genesisHash : String
  baseEpoch : ℕ
  baseHash : String
  fromPublicKey : String
  creator : GroupStateActor
  nonce : String
  issuedAt : ℤ
  expiresAt : ℤ
  signature : String
  deriving DecidableEq, Countable

inductive GroupStateChange
  | add (member : GroupMemberIdentity) (role : SharedGroupRole)
  | remove (rootCommitment deviceId : String)
  | setRole (rootCommitment deviceId : String) (role : SharedGroupRole)
  | setName (name : String)
  | transferOwnership (creator : GroupStateActor) (acceptance : GroupTransferAcceptance)
  deriving DecidableEq

structure GroupStateGenesis where
  groupId : String
  conversationId : String
  actor : GroupStateActor
  issuedAt : Option ℕ
  maxMembers : ℕ
  newMemberHistory : String
  signature : String
  deriving DecidableEq, Countable

structure GroupCreatorTransfer where
  acceptance : GroupTransferAcceptance
  issuedAt : ℤ
  groupId : String
  genesisHash : String
  fromPublicKey : String
  creator : GroupStateActor
  epoch : ℕ
  previousHash : String
  signature : String
  deriving DecidableEq, Countable

structure SharedGroupMember where
  identity : GroupMemberIdentity
  role : SharedGroupRole
  joinedEpoch : ℕ
  deriving DecidableEq, Countable

structure GroupDeviceExclusion where
  rootCommitment : String
  deviceId : String
  removedEpoch : ℕ
  expiresAt : ℤ
  deriving DecidableEq, Countable

structure SharedGroupState where
  groupId : String
  conversationId : String
  epoch : ℕ
  maxMembers : ℕ
  newMemberHistory : String
  name : Option String
  nameEpoch : ℕ
  members : List SharedGroupMember
  excluded : List GroupDeviceExclusion
  headHash : String
  deriving DecidableEq, Countable

structure GroupStateSnapshot where
  schema : String
  groupId : String
  epoch : ℕ
  stateHash : String
  previousHash : Option String
  genesis : GroupStateGenesis
  creator : GroupStateActor
  transfers : List GroupCreatorTransfer
  state : SharedGroupState
  issuedAt : ℤ
  rootSignature : String
  issuer : GroupStateActor
  signature : String
  deriving DecidableEq

def SharedGroupMember.IsDevice (m : SharedGroupMember) (root device : String) : Prop :=
  m.identity.rootCommitment = root ∧ m.identity.deviceId = device

def GroupDeviceExclusion.IsDevice (e : GroupDeviceExclusion) (root device : String) : Prop :=
  e.rootCommitment = root ∧ e.deviceId = device

instance (m : SharedGroupMember) (root device : String) : Decidable (m.IsDevice root device) :=
  inferInstanceAs (Decidable (_ ∧ _))

instance (e : GroupDeviceExclusion) (root device : String) : Decidable (e.IsDevice root device) :=
  inferInstanceAs (Decidable (_ ∧ _))

namespace SharedGroupState
variable {s t : SharedGroupState} {root device : String}

def Excludes (s : SharedGroupState) (root device : String) : Prop :=
  ∃ e ∈ s.excluded, e.IsDevice root device

def HasRoot (s : SharedGroupState) (root : String) : Prop :=
  ∃ m ∈ s.members, m.identity.rootCommitment = root

instance : Decidable (s.Excludes root device) := inferInstanceAs (Decidable (∃ e ∈ _, _))

instance : Decidable (s.HasRoot root) := inferInstanceAs (Decidable (∃ m ∈ _, _))

def rootRoles (s : SharedGroupState) (root : String) : List SharedGroupRole :=
  (s.members.filter (·.identity.rootCommitment = root)).map (·.role)

/-- A known root's sibling follows its membership unless that exact device was removed. -/
def effectiveRole (s : SharedGroupState) (root device : String) : Option SharedGroupRole :=
  if s.Excludes root device then none
  else
    match s.members.find? (·.IsDevice root device) with
    | some member => some member.role
    | none => (s.rootRoles root).argmin SharedGroupRole.rank

theorem mem_rootRoles {r : SharedGroupRole} : r ∈ s.rootRoles root ↔
    ∃ m ∈ s.members, m.identity.rootCommitment = root ∧ m.role = r := by
  simp [rootRoles, and_assoc]

theorem effectiveRole_of_excludes (h : s.Excludes root device) :
    s.effectiveRole root device = none := if_pos h

theorem effectiveRole_of_not_hasRoot (h : ¬ s.HasRoot root) : s.effectiveRole root device = none := by
  have hfind : s.members.find? (·.IsDevice root device) = none := by
    apply List.find?_eq_none.mpr
    intro m hm hdev
    exact h ⟨m, hm, (of_decide_eq_true hdev).1⟩
  have hroles : s.rootRoles root = [] := by
    apply List.eq_nil_iff_forall_not_mem.mpr
    intro r hr
    obtain ⟨m, hm, hroot, -⟩ := mem_rootRoles.mp hr
    exact h ⟨m, hm, hroot⟩
  unfold effectiveRole
  rw [hfind, hroles]
  exact ite_self none

end SharedGroupState

end Ramflux.Group
