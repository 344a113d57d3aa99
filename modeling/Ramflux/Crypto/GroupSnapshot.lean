import Ramflux.Crypto.GroupState

/-! Signed snapshots of a group: verification, the next one, and how a receiver relates two. -/
namespace Ramflux.Group
open Fallible

def groupStateSnapshotDomain := "ramflux.group_state.snapshot.v2"

namespace GroupStateActor

def cleared (actor : GroupStateActor) : GroupStateActor := { actor with rootSignature := "" }

end GroupStateActor

namespace GroupStateSnapshot

/-- `core_body`. -/
def content (s : GroupStateSnapshot) : GroupContent where
  genesis := s.genesis
  creator := s.creator
  transfers := s.transfers
  groupId := s.groupId
  epoch := s.epoch
  previousHash := s.previousHash
  state := { s.state with headHash := "" }
  issuedAt := s.issuedAt

end GroupStateSnapshot

/-- Running values of the loop over a roster: devices and owners seen, and principal and count by root. -/
structure RosterWalk where
  devices : List (String × String)
  roots : OrdMap String (String × ℕ)
  owners : ℕ

/-- Running values of the loop over the exclusions. -/
structure ExclusionWalk where
  excluded : List (String × String)
  counts : OrdMap String ℕ

namespace GroupCrypto
variable (C : GroupCrypto)

def verifyGroupStateActorAt (actor : GroupStateActor) (issuedAt : Option ℕ) :
    Except GroupError Unit := do
  C.identityValid actor.identity
  if actor.nativeAuthority.isSome then C.verifyGroupNativeAuthority actor issuedAt
  else do
    let key ← C.verifyingKeyFromBase64url actor.rootPublicKey
    refuseWhen (key.weak ∨ key.text ≠ actor.rootPublicKey ∨
        C.identityRootCommitment key ≠ actor.identity.rootCommitment)
      (invalid "actor root mismatch")
    C.verifySignature actor.rootPublicKey (.actor actor.cleared) actor.rootSignature

def verifyGroupStateActor (actor : GroupStateActor) : Except GroupError Unit :=
  C.verifyGroupStateActorAt actor none

def hashValid (hash reason : String) : Except GroupError Unit := do
  let bytes ← decode hash
  refuseWhen (bytes.length ≠ 32 ∨ encodeBase64url bytes ≠ hash) (invalid reason)

def verifyGroupTransferAcceptance (acceptance : GroupTransferAcceptance) :
    Except GroupError Unit := do
  C.verifyGroupStateActor acceptance.creator
  for hash in [acceptance.genesisHash, acceptance.baseHash, acceptance.nonce] do
    hashValid hash "transfer hash"
  let _ ← C.verifyingKeyFromBase64url acceptance.fromPublicKey
  refuseWhen (acceptance.groupId = "" ∨ 256 < acceptance.groupId.utf8ByteSize ∨
      acceptance.baseEpoch = 0 ∨ maxSafeJsonInteger ≤ acceptance.baseEpoch ∨
      acceptance.issuedAt < 0 ∨ acceptance.expiresAt ≤ acceptance.issuedAt ∨
      saturatingAddI64 acceptance.issuedAt 60 < acceptance.expiresAt)
    (invalid "transfer acceptance scope or lifetime")
  C.verifySignature acceptance.creator.identity.signingPublicKey
    (.transferAcceptance { acceptance with signature := "" }) acceptance.signature

def verifyCertificate (transfer : GroupCreatorTransfer) : Except GroupError Unit := do
  let acceptance := transfer.acceptance
  C.verifyGroupTransferAcceptance acceptance
  refuseWhen (acceptance.creator ≠ transfer.creator ∨ acceptance.groupId ≠ transfer.groupId ∨
      acceptance.genesisHash ≠ transfer.genesisHash ∨
      acceptance.baseEpoch + 1 ≠ transfer.epoch ∨
      acceptance.baseHash ≠ transfer.previousHash ∨
      acceptance.fromPublicKey ≠ transfer.fromPublicKey ∨
      transfer.issuedAt < acceptance.issuedAt ∨ acceptance.expiresAt < transfer.issuedAt)
    (invalid "handover differs from transferee acceptance")

variable (snapshot : GroupStateSnapshot)

/-- One round of the loop over the transfers, from the key that must sign and the last epoch. -/
def checkTransfer (chain : String × ℕ)
    (transfer : GroupCreatorTransfer) : Except GroupError (String × ℕ) := do
  refuseWhen (transfer.groupId ≠ snapshot.groupId ∨
      transfer.genesisHash ≠ C.genesisHash snapshot.genesis ∨
      transfer.fromPublicKey ≠ chain.1 ∨ transfer.epoch ≤ chain.2 ∨
      snapshot.epoch < transfer.epoch)
    (invalid "invalid creator transfer chain")
  C.verifyCertificate transfer
  C.verifyGroupStateActor transfer.creator
  C.verifySignature chain.1 (.creatorTransfer { transfer with signature := "" }) transfer.signature
  pure (transfer.creator.rootPublicKey, transfer.epoch)

def signerKey : Except GroupError String := do
  let chain ← snapshot.transfers.foldlM (C.checkTransfer snapshot)
    (snapshot.genesis.actor.rootPublicKey, 1)
  refuseWhen (chain.1 ≠ snapshot.creator.rootPublicKey) (invalid "uncertified creator")
  -- a handover snapshot is still signed by the creator it replaces
  match snapshot.transfers.getLast? with
  | some transfer =>
    if transfer.epoch = snapshot.epoch then pure transfer.fromPublicKey else pure chain.1
  | none => pure chain.1

/-- Checks of `transition::initial` on the creation parameters. -/
def checkGenesis (genesis : GroupStateGenesis) : Except GroupError Unit :=
  refuseWhen (genesis.maxMembers = 0 ∨ maxGroupStateMembers < genesis.maxMembers ∨
      C.blank genesis.conversationId ∨ 256 < genesis.conversationId.utf8ByteSize ∨
      C.singleLineIsSafe genesis.conversationId = false ∨
      genesis.newMemberHistory ∉ ["no_history", "none", "all_history"])
    (invalid "invalid group creation")

def checkMember (walk : RosterWalk) (member : SharedGroupMember) : Except GroupError RosterWalk := do
  let identity := member.identity
  C.identityValid identity
  refuseWhen (member.joinedEpoch = 0 ∨ snapshot.state.epoch < member.joinedEpoch ∨
      (identity.rootCommitment, identity.deviceId) ∈ walk.devices)
    (invalid "duplicate group member")
  let (principal, count) := walk.roots[identity.rootCommitment]?.getD (identity.principalId, 0)
  refuseWhen (principal ≠ identity.principalId ∨ maxGroupDevicesPerRoot < count + 1)
    (invalid "conflicting root or member device cap")
  refuseWhen (member.role = .owner ∧
      identity.rootCommitment ≠ snapshot.creator.identity.rootCommitment)
    (invalid "owner differs from creator")
  pure {
    devices := walk.devices ++ [(identity.rootCommitment, identity.deviceId)]
    roots := walk.roots.insert identity.rootCommitment (principal, count + 1)
    owners := if member.role = .owner then walk.owners + 1 else walk.owners }

def checkExclusion (roster : RosterWalk) (walk : ExclusionWalk)
    (entry : GroupDeviceExclusion) : Except GroupError ExclusionWalk := do
  let count := walk.counts[entry.rootCommitment]?.getD 0 + 1
  let members := (roster.roots[entry.rootCommitment]?.map (·.2)).getD 0
  refuseWhen (maxGroupDevicesPerRoot < count + members) (invalid "excluded device root cap")
  hashValid entry.rootCommitment "invalid snapshot hash"
  C.validateDeviceName .invalidIdentityRecord entry.deviceId
  refuseWhen (entry.removedEpoch = 0 ∨ snapshot.state.epoch < entry.removedEpoch ∨
      entry.expiresAt < 0 ∨ (entry.rootCommitment, entry.deviceId) ∈ roster.devices ∨
      (entry.rootCommitment, entry.deviceId) ∈ walk.excluded)
    (invalid "invalid exclusion")
  pure {
    excluded := walk.excluded ++ [(entry.rootCommitment, entry.deviceId)]
    counts := walk.counts.insert entry.rootCommitment count }

def checkName (name : Option String) : Except GroupError Unit :=
  match name with
  | some name => C.nameValid name
  | none => .ok ()

def checkPreviousHash (previousHash : Option String) : Except GroupError Unit :=
  match previousHash with
  | some previous => hashValid previous "invalid snapshot hash"
  | none => .ok ()

def verifyRoster : Except GroupError Unit := do
  let state := snapshot.state
  refuseWhen (state.maxMembers ≠ snapshot.genesis.maxMembers ∨
      state.newMemberHistory ≠ snapshot.genesis.newMemberHistory ∨
      state.conversationId ≠ snapshot.genesis.conversationId ∨
      state.epoch < state.nameEpoch ∨ state.members = [] ∨
      maxGroupStateExclusions < state.excluded.length ∨ maxGroupDevices < state.members.length)
    (invalid "invalid full roster")
  C.checkName state.name
  let roster ← state.members.foldlM (C.checkMember snapshot) ⟨[], ∅, 0⟩
  refuseWhen (roster.owners ≠ 1 ∨ state.maxMembers < roster.roots.size)
    (invalid "invalid owner or member cap")
  let _ ← state.excluded.foldlM (C.checkExclusion snapshot roster) ⟨[], ∅⟩
  pure ()

def verifyGenesisActor (issuedAt : ℕ) : Except GroupError Unit :=
  if snapshot.genesis.actor.nativeAuthority.isSome then
    match snapshot.genesis.issuedAt with
    | some createdAt =>
      if createdAt ≤ maxSafeJsonInteger ∧ createdAt ≤ issuedAt + clockSkewSeconds then
        C.verifyGroupStateActorAt snapshot.genesis.actor (some createdAt)
      else .error (invalid "native genesis creation time unavailable")
    | none => .error (invalid "native genesis creation time unavailable")
  else do
    refuseWhen snapshot.genesis.issuedAt.isSome
      (invalid "legacy genesis creation time must be absent")
    C.verifyGroupStateActor snapshot.genesis.actor

def verify : Except GroupError Unit := do
  refuseWhen (maxGroupStateBytes < C.encodedLength snapshot) (.groupStateLimit .bytes)
  refuseWhen (snapshot.schema ≠ groupStateSnapshotDomain ∨
      snapshot.groupId ≠ snapshot.genesis.groupId ∨ snapshot.groupId ≠ snapshot.state.groupId ∨
      C.blank snapshot.groupId ∨ 256 < snapshot.groupId.utf8ByteSize ∨
      C.singleLineIsSafe snapshot.groupId = false ∨ snapshot.epoch = 0 ∨
      maxSafeJsonInteger < snapshot.epoch ∨ snapshot.epoch ≠ snapshot.state.epoch ∨
      ¬ (snapshot.epoch = 1 ↔ snapshot.previousHash = none) ∨ snapshot.issuedAt < 0 ∨
      maxGroupCreatorTransfers < snapshot.transfers.length)
    (invalid "invalid creator snapshot header")
  checkPreviousHash snapshot.previousHash
  let issuedAt := snapshot.issuedAt.toNat
  C.verifyGenesisActor snapshot issuedAt
  C.verifyGroupStateActorAt snapshot.creator (some issuedAt)
  C.verifySignature snapshot.genesis.actor.rootPublicKey
    (.genesis { snapshot.genesis with signature := "" }) snapshot.genesis.signature
  C.checkGenesis snapshot.genesis
  C.verifyRoster snapshot
  refuseWhen (snapshot.stateHash ≠ C.contentHash snapshot.content ∨
      snapshot.state.headHash ≠ C.contentHash snapshot.content)
    (invalid "snapshot content hash mismatch")
  let key ← C.signerKey snapshot
  C.verifySignature key (.creatorSignature snapshot.content snapshot.stateHash)
    snapshot.rootSignature

def checkIssuer (view : SharedGroupState) (issuer : GroupStateActor) : Except GroupError Unit :=
  refuseWhen (view.effectiveRole issuer.identity.rootCommitment issuer.identity.deviceId = none ∨
      ∃ m ∈ view.members, m.identity.rootCommitment = issuer.identity.rootCommitment ∧
        m.identity.principalId ≠ issuer.identity.principalId)
    (invalid "snapshot issuer is not an authorized member")

def verifyGroupStateSnapshot : Except GroupError Unit := do
  C.verify snapshot
  C.verifyGroupStateActor snapshot.issuer
  checkIssuer snapshot.state snapshot.issuer
  C.verifySignature snapshot.issuer.identity.signingPublicKey
    (.transport { snapshot with signature := "" }) snapshot.signature

end GroupCrypto

structure VerifiedGroupState (C : GroupCrypto) where
  snapshot : GroupStateSnapshot
  verified : C.verifyGroupStateSnapshot snapshot = .ok ()

namespace VerifiedGroupState
variable {C : GroupCrypto}

def view (s : VerifiedGroupState C) : SharedGroupState := s.snapshot.state

def creator (s : VerifiedGroupState C) : GroupStateActor := s.snapshot.creator

def genesisHash (s : VerifiedGroupState C) : String := C.genesisHash s.snapshot.genesis

end VerifiedGroupState

/-- `verify_group_state_snapshot` as the constructor of verified states. -/
def GroupCrypto.verified (C : GroupCrypto) (snapshot : GroupStateSnapshot) :
    Except GroupError (VerifiedGroupState C) :=
  match h : C.verifyGroupStateSnapshot snapshot with
  | .ok () => .ok ⟨snapshot, h⟩
  | .error e => .error e

/-- The key that signs for the creator: a legacy identity root or a native primary key. -/
inductive CreatorSigner
  | legacy (principalId publicKey : String)
  | native (publicKey : String)
  deriving DecidableEq

namespace CreatorSigner

def publicKey : CreatorSigner → String
  | legacy _ key => key
  | native key => key

def matchesActor (signer : CreatorSigner) (actor : GroupStateActor) : Except GroupError Unit :=
  match signer with
  | legacy principalId key =>
    refuseWhen (actor.nativeAuthority.isSome ∨ principalId ≠ actor.identity.principalId ∨
      key ≠ actor.rootPublicKey) (invalid "creator root mismatch")
  | native key =>
    refuseWhen (actor.nativeAuthority = none ∨ key ≠ actor.rootPublicKey)
      (invalid "native creator authority mismatch")

end CreatorSigner

structure DeviceBranch where
  principalId : String
  deviceId : String
  publicKey : String
  deriving DecidableEq

def memberBefore (a b : SharedGroupMember) : Prop :=
  a.identity.rootCommitment < b.identity.rootCommitment ∨
    a.identity.rootCommitment = b.identity.rootCommitment ∧ a.identity.deviceId ≤ b.identity.deviceId

def exclusionBefore (a b : GroupDeviceExclusion) : Prop :=
  a.rootCommitment < b.rootCommitment ∨
    a.rootCommitment = b.rootCommitment ∧ a.deviceId ≤ b.deviceId

instance : DecidableRel memberBefore := fun _ _ => inferInstanceAs (Decidable (_ ∨ _))

instance : DecidableRel exclusionBefore := fun _ _ => inferInstanceAs (Decidable (_ ∨ _))

namespace SharedGroupState

/-- The two stable sorts by root and device. -/
def sorted (s : SharedGroupState) : SharedGroupState :=
  { s with
    members := s.members.insertionSort memberBefore
    excluded := s.excluded.insertionSort exclusionBefore }

/-- Only exclusions of roots that left age out. -/
def pruned (s : SharedGroupState) (now : ℤ) : SharedGroupState :=
  { s with excluded := s.excluded.filter fun e => now < e.expiresAt ∨ s.HasRoot e.rootCommitment }

/-- Roles after ownership moved to the entry at `selected`. -/
def handedOver (s : SharedGroupState) (selected : ℕ) (epoch : ℕ) : SharedGroupState :=
  let demoted := s.members.map fun m => if m.role = .owner then { m with role := .admin } else m
  { s with members := demoted.modify selected fun m => { m with role := .owner }, epoch }

def preservesRemovals (previous incoming : SharedGroupState) : Bool :=
  previous.excluded.all fun removed =>
    let candidates :=
      incoming.members.filter (·.identity.rootCommitment = removed.rootCommitment)
    if ¬ previous.HasRoot removed.rootCommitment then
      candidates.all (removed.removedEpoch < ·.joinedEpoch)
    else if incoming.effectiveRole removed.rootCommitment removed.deviceId = none then true
    else
      candidates.any (fun m => m.identity.deviceId = removed.deviceId ∧
        removed.removedEpoch < m.joinedEpoch) ||
      candidates.all (removed.removedEpoch < ·.joinedEpoch)

end SharedGroupState

/-- Request of one transition: who signs for the creator, who asked for what, and when. -/
structure Apply where
  signer : CreatorSigner
  branch : DeviceBranch
  actor : GroupStateActor
  requester : GroupStateActor
  change : GroupStateChange
  now : ℤ

namespace GroupCrypto
variable (C : GroupCrypto)

def branchMatches (branch : DeviceBranch) (actor : GroupStateActor) : Except GroupError Unit := do
  C.verifyGroupStateActor actor
  refuseWhen (branch.deviceId ≠ actor.identity.deviceId ∨
      branch.principalId ≠ actor.identity.principalId ∨
      branch.publicKey ≠ actor.identity.signingPublicKey)
    (invalid "actor branch mismatch")

/-- Snapshot that `sign_with_signer` hands to verification. -/
def signed (signer : CreatorSigner) (branch : DeviceBranch) (actor : GroupStateActor)
    (snapshot : GroupStateSnapshot) : GroupStateSnapshot :=
  let snapshot := { snapshot with state := snapshot.state.sorted }
  let hash := C.contentHash snapshot.content
  let snapshot := { snapshot with
    stateHash := hash
    state := { snapshot.state with headHash := hash }
    epoch := snapshot.state.epoch }
  let snapshot := { snapshot with
    rootSignature := C.sign signer.publicKey (.creatorSignature snapshot.content snapshot.stateHash)
    issuer := actor }
  { snapshot with
    signature := C.sign branch.publicKey (.transport { snapshot with signature := "" }) }

def signWithSigner (signer : CreatorSigner) (branch : DeviceBranch) (actor : GroupStateActor)
    (snapshot : GroupStateSnapshot) : Except GroupError (VerifiedGroupState C) :=
  C.verified (C.signed signer branch actor snapshot)

variable (previous : VerifiedGroupState C)

def validateIssue (creator : GroupStateActor)
    (acceptance : GroupTransferAcceptance) (now : ℤ) : Except GroupError Unit := do
  C.verifyGroupTransferAcceptance acceptance
  refuseWhen (acceptance.creator ≠ creator ∨ acceptance.groupId ≠ previous.view.groupId ∨
      acceptance.genesisHash ≠ previous.genesisHash ∨
      acceptance.baseEpoch ≠ previous.view.epoch ∨
      acceptance.baseHash ≠ previous.snapshot.stateHash ∨
      acceptance.fromPublicKey ≠ previous.creator.rootPublicKey ∨
      now < acceptance.issuedAt ∨ acceptance.expiresAt < now)
    .groupTransferRequiresSync

def transferred (input : Apply) (snapshot : GroupStateSnapshot) (creator : GroupStateActor)
    (acceptance : GroupTransferAcceptance) : Except GroupError GroupStateSnapshot := do
  C.validateIssue previous creator acceptance input.now
  refuseWhen (input.requester.identity.rootCommitment ≠ previous.creator.identity.rootCommitment)
    (invalid "ownership transfer not authorized")
  refuseWhen (maxGroupCreatorTransfers ≤ snapshot.transfers.length) (.groupStateLimit .transfers)
  C.verifyGroupStateActor creator
  match snapshot.state.members.findIdx? (·.identity = creator.identity) with
  | none => .error (invalid "new creator must be a verified explicit member")
  | some selected =>
    let transfer : GroupCreatorTransfer := {
      acceptance, issuedAt := input.now, groupId := snapshot.groupId
      genesisHash := C.genesisHash snapshot.genesis
      fromPublicKey := input.actor.rootPublicKey, creator, epoch := snapshot.epoch
      previousHash := previous.snapshot.stateHash, signature := "" }
    let signature := C.sign input.signer.publicKey (.creatorTransfer transfer)
    pure { snapshot with
      state := snapshot.state.handedOver selected snapshot.epoch
      creator
      transfers := snapshot.transfers ++ [{ transfer with signature }] }

/-- The branches of `advance_as_with_signer`, up to the snapshot that is signed. -/
def changed (input : Apply) (snapshot : GroupStateSnapshot) : Except GroupError GroupStateSnapshot :=
  match input.change with
  | .transferOwnership creator acceptance =>
    C.transferred previous input snapshot creator acceptance
  | change => do
    let state ← snapshot.state.apply C input.requester change snapshot.epoch input.now
    pure { snapshot with
      state
      creator := if input.actor.nativeAuthority.isSome then input.actor else snapshot.creator }

def advance (input : Apply) : Except GroupError (VerifiedGroupState C) := do
  C.branchMatches input.branch input.actor
  input.signer.matchesActor input.actor
  refuseWhen (input.actor.identity.rootCommitment ≠ previous.creator.identity.rootCommitment)
    (invalid "only the creator root can sign group state")
  let epoch := previous.snapshot.epoch + 1
  refuseWhen (maxSafeJsonInteger < epoch) (invalid "group epoch overflow")
  let snapshot := { previous.snapshot with
    previousHash := some previous.snapshot.stateHash
    epoch
    issuedAt := input.now
    state := previous.view.pruned input.now }
  let snapshot ← C.changed previous input snapshot
  C.signWithSigner input.signer input.branch input.actor snapshot

end GroupCrypto

/-- A scheme without secrecy: a signature is the signer's key, a content is told by its epoch. -/
def openScheme : GroupCrypto where
  blank text := text.isEmpty
  singleLineIsSafe _ := true
  verifyingKeyFromBase64url text := .ok ⟨false, text⟩
  identityRootCommitment key := key.text
  verifyGroupNativeAuthority _ _ := .error (.native "native group authority unavailable")
  genesisHash _ := encodeBase64url (List.replicate 32 0)
  contentHash content := encodeBase64url (List.replicate 31 0 ++ [UInt8.ofNat content.epoch])
  encodedLength _ := 0
  sign key _ := key
  verifies key _ signature := key = signature

def sampleRoot (n : UInt8) : String := encodeBase64url (List.replicate 32 n)

/-- Device of the account numbered `n`; an account's key is its root. -/
def sampleActor (n : UInt8) (device : String) : GroupStateActor where
  identity := ⟨"principal", sampleRoot n, device, device, "target"⟩
  rootPublicKey := sampleRoot n
  rootSignature := sampleRoot n
  nativeAuthority := none

def sampleSigner (n : UInt8) : CreatorSigner := .legacy "principal" (sampleRoot n)

def sampleBranch (device : String) : DeviceBranch := ⟨"principal", device, device⟩

def sampleGenesis : GroupStateGenesis where
  groupId := "group"
  conversationId := "conversation"
  actor := sampleActor 1 "phone"
  issuedAt := none
  maxMembers := 8
  newMemberHistory := "none"
  signature := sampleRoot 1

/-- First snapshot of the group with these members. -/
def sampleSnapshot (members : List SharedGroupMember) : GroupStateSnapshot :=
  openScheme.signed (sampleSigner 1) (sampleBranch "phone") (sampleActor 1 "phone") {
    schema := groupStateSnapshotDomain, groupId := "group", epoch := 1, stateHash := ""
    previousHash := none, genesis := sampleGenesis, creator := sampleActor 1 "phone"
    transfers := []
    state := {
      groupId := "group", conversationId := "conversation", epoch := 1, maxMembers := 8
      newMemberHistory := "none", name := none, nameEpoch := 0, members, excluded := []
      headHash := "" }
    issuedAt := 0, rootSignature := "", issuer := sampleActor 1 "phone", signature := "" }

/-- An owner and an admin, with a phone each. -/
def sampleState : VerifiedGroupState openScheme where
  snapshot := sampleSnapshot [⟨(sampleActor 1 "phone").identity, .owner, 1⟩,
    ⟨(sampleActor 2 "phone").identity, .admin, 1⟩]
  verified := by decide +kernel

/-- Request of the account numbered `n`, signed for the first account. -/
def sampleApply (n : UInt8) (change : GroupStateChange) : Apply where
  signer := sampleSigner 1
  branch := sampleBranch "phone"
  actor := sampleActor 1 "phone"
  requester := sampleActor n "phone"
  change
  now := 0

end Ramflux.Group
