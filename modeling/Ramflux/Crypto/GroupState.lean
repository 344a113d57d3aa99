import Ramflux.Lib.Fallible
import Ramflux.Protocol.GroupState
import Ramflux.Protocol.Types

/-! Role rules of group changes: what an actor may do to a roster, and the roster that results. -/
namespace Ramflux.Group
open Fallible

def maxGroupCreatorTransfers := 32
def maxGroupDevices := 1024
def maxGroupDevicesPerRoot := 16
def groupRequestTtlSeconds : ℤ := 7 * 24 * 3600
def maxGroupStateBytes := (1024 * 1024 - 64 * 1024) / 10
def maxGroupStateMembers := 200
def maxGroupStateExclusions := 2048
def maxGroupNameBytes := 256
def maxSafeJsonInteger := 2 ^ 53 - 1
def clockSkewSeconds := 300

inductive GroupStateLimit
  | members
  | bytes
  | devices
  | transfers
  deriving DecidableEq

inductive GroupError
  | invalidGroupState (reason : String)
  | groupStateLimit (limit : GroupStateLimit)
  | groupTransferRequiresSync
  | invalidIdentityRecord (reason : String)
  | base64
  | verifyingKey
  | signature
  | native (reason : String)
  deriving DecidableEq

def invalid (reason : String) : GroupError := .invalidGroupState reason

/-- Signed 64-bit sum, kept in range. -/
def saturatingAddI64 (a b : ℤ) : ℤ := max (-2 ^ 63) (min (a + b) (2 ^ 63 - 1))

/-- A decoded public key: whether it is weak, and its text encoded again. -/
structure VerifyingKey where
  weak : Bool
  text : String

/-- Content of a snapshot under its hash. The state's own head hash is cleared. -/
structure GroupContent where
  genesis : GroupStateGenesis
  creator : GroupStateActor
  transfers : List GroupCreatorTransfer
  groupId : String
  epoch : ℕ
  previousHash : Option String
  state : SharedGroupState
  issuedAt : ℤ
  deriving DecidableEq, Countable

/-- What is signed, by its domain. Records stand with their own signature cleared. -/
inductive GroupBody
  | actor (actor : GroupStateActor)
  | genesis (genesis : GroupStateGenesis)
  | transferAcceptance (acceptance : GroupTransferAcceptance)
  | creatorTransfer (transfer : GroupCreatorTransfer)
  | creatorSignature (content : GroupContent) (stateHash : String)
  | transport (snapshot : GroupStateSnapshot)

/-- Rules, keys, hashes and encodings of group states. A signer is named by its public key. -/
structure GroupCrypto extends TextRules where
  verifyingKeyFromBase64url : String → Except GroupError VerifyingKey
  identityRootCommitment : VerifyingKey → String
  verifyGroupNativeAuthority : GroupStateActor → Option ℕ → Except GroupError Unit
  genesisHash : GroupStateGenesis → String
  contentHash : GroupContent → String
  encodedLength : GroupStateSnapshot → ℕ
  sign : String → GroupBody → String
  verifies : String → GroupBody → String → Bool

namespace GroupCrypto
variable (C : GroupCrypto)

def decode (text : String) : Except GroupError (List UInt8) :=
  match decodeBase64url text with
  | some bytes => .ok bytes
  | none => .error .base64

def verifySignature (key : String) (body : GroupBody) (signature : String) : Except GroupError Unit :=
  if C.verifies key body signature then .ok () else .error .signature

def identityValid (identity : GroupMemberIdentity) : Except GroupError Unit := do
  for id in [identity.principalId, identity.deviceId, identity.target] do
    refuseWhen (C.blank id ∨ 256 < id.utf8ByteSize ∨ C.singleLineIsSafe id = false)
      (invalid "invalid member identity")
  C.validateDeviceName .invalidIdentityRecord identity.deviceId
  let root ← decode identity.rootCommitment
  refuseWhen (root.length ≠ 32 ∨ encodeBase64url root ≠ identity.rootCommitment)
    (invalid "invalid member root")
  let key ← C.verifyingKeyFromBase64url identity.signingPublicKey
  refuseWhen (key.weak ∨ key.text ≠ identity.signingPublicKey) (invalid "invalid member key")

def nameValid (name : String) : Except GroupError Unit :=
  refuseWhen (C.blank name ∨ maxGroupNameBytes < name.utf8ByteSize ∨
    C.singleLineIsSafe name = false) (invalid "invalid group name")

end GroupCrypto

namespace SharedGroupState

variable (s : SharedGroupState)

def actorRole (actor : GroupStateActor) : Except GroupError SharedGroupRole := do
  refuseWhen (∃ m ∈ s.members, m.identity.rootCommitment = actor.identity.rootCommitment ∧
      m.identity.principalId ≠ actor.identity.principalId)
    (invalid "actor principal mismatch")
  if ∃ m ∈ s.members, m.role = .owner ∧
      m.identity.rootCommitment = actor.identity.rootCommitment then
    pure .owner
  else
    match s.effectiveRole actor.identity.rootCommitment actor.identity.deviceId with
    | some role => pure role
    | none => .error (invalid "actor is not a member")

def roots : List String :=
  (s.members.map (·.identity.rootCommitment)).dedup

def memberDevices (root : String) : ℕ :=
  s.members.countP (·.identity.rootCommitment = root)

def excludedDevices (root : String) : ℕ :=
  s.excluded.countP (·.rootCommitment = root)

/-- Exclusions of a root that left are forgotten when it comes back. -/
def forgetDeparted (root : String) : SharedGroupState :=
  if root ∈ s.roots then s
  else { s with excluded := s.excluded.filter (·.rootCommitment ≠ root) }

variable (C : GroupCrypto)

def add (s : SharedGroupState) (actor : SharedGroupRole) (identity : GroupMemberIdentity)
    (role : SharedGroupRole) (epoch : ℕ) : Except GroupError SharedGroupState := do
  let root := identity.rootCommitment
  C.identityValid identity
  refuseWhen (canInviteGroupMember actor role = false) (invalid "member add not authorized")
  refuseWhen (root ∉ s.roots ∧ s.maxMembers ≤ s.roots.length) (.groupStateLimit .members)
  refuseWhen (root ∈ s.roots ∧ s.Excludes root identity.deviceId)
    (invalid "device remains excluded from this member root")
  let s := s.forgetDeparted root
  refuseWhen (maxGroupDevices ≤ s.members.length ∨
    maxGroupDevicesPerRoot ≤ s.memberDevices root + s.excludedDevices root)
    (.groupStateLimit .devices)
  refuseWhen (∃ m ∈ s.members, m.identity.rootCommitment = root ∧
      (m.identity.deviceId = identity.deviceId ∨ m.identity.principalId ≠ identity.principalId))
    (invalid "duplicate or conflicting member")
  pure { s with
    excluded := s.excluded.filter (¬ ·.IsDevice root identity.deviceId)
    members := s.members ++ [{ identity, role, joinedEpoch := epoch }] }

def remove (s : SharedGroupState) (actor : SharedGroupRole) (root device : String) (epoch : ℕ)
    (now : ℤ) : Except GroupError SharedGroupState := do
  match s.effectiveRole root device with
  | none => .error (invalid "removed device is not a member")
  | some target =>
    refuseWhen (canRemoveGroupMember actor target = false)
      (invalid "member removal not authorized")
    refuseWhen (root = "" ∨ C.blank device ∨ 256 < device.utf8ByteSize ∨
        C.singleLineIsSafe device = false ∨ maxGroupStateExclusions ≤ s.excluded.length)
      (invalid "invalid removed identity or exclusion budget")
    refuseWhen (maxGroupDevicesPerRoot ≤ s.excludedDevices root +
        s.members.countP fun m => m.identity.rootCommitment = root ∧ m.identity.deviceId ≠ device)
      (.groupStateLimit .devices)
    pure { s with
      members := s.members.filter (¬ ·.IsDevice root device)
      excluded := s.excluded ++ [{
        rootCommitment := root, deviceId := device, removedEpoch := epoch
        expiresAt := saturatingAddI64 now groupRequestTtlSeconds }] }

/-- Gives the first entry of the device another role. -/
def replaceRole (root device : String) (newRole : SharedGroupRole) :
    List SharedGroupMember → List SharedGroupMember
  | [] => []
  | m :: rest =>
    if m.IsDevice root device then { m with role := newRole } :: rest
    else m :: replaceRole root device newRole rest

def role (s : SharedGroupState) (actor : SharedGroupRole) (root device : String)
    (newRole : SharedGroupRole) : Except GroupError SharedGroupState := do
  match s.members.find? (·.IsDevice root device) with
  | none => .error (invalid "role target is not an explicit member")
  | some target =>
    refuseWhen (canChangeGroupMemberRole actor target.role newRole = false)
      (invalid "role change not authorized")
    pure { s with members := replaceRole root device newRole s.members }

/-- The branches of `apply`. -/
def applyChange (s : SharedGroupState) (actor : SharedGroupRole) (change : GroupStateChange)
    (epoch : ℕ) (now : ℤ) : Except GroupError SharedGroupState :=
  match change with
  | .add member joinedRole => s.add C actor member joinedRole epoch
  | .remove root device => s.remove C actor root device epoch now
  | .setRole root device newRole => s.role actor root device newRole
  | .setName name => do
    refuseWhen (isGroupAdminRole actor = false) (invalid "group rename not authorized")
    C.nameValid name
    pure { s with name := some name, nameEpoch := epoch }
  | .transferOwnership _ _ => .error (invalid "transfer requires the creator root")

def apply (s : SharedGroupState) (actor : GroupStateActor) (change : GroupStateChange) (epoch : ℕ)
    (now : ℤ) : Except GroupError SharedGroupState := do
  let actor ← s.actorRole actor
  let next ← s.applyChange C actor change epoch now
  pure { next with epoch }

end SharedGroupState

end Ramflux.Group
