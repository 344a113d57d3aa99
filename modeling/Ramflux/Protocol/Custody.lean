import Ramflux.Lib.IdealHash
import Ramflux.Lib.Fallible
import Ramflux.Protocol.Types

/-! Custody records: an account's signed device roster under its master certificate, and their epochs.
Free-form JSON stands in its canonical text. -/
namespace Ramflux.Custody
open Fallible

def maxRecordBytes := 512 * 1024
def maxRoster := 1024
def revocationReserve := 64
def maxEnrollmentRoster := maxRoster - revocationReserve
def maxRevokedIds := 65536
def maxRevokedListBytes := 4 * 1024 * 1024
def maxRange := 2 ^ 21 - 1
def maxRevision := 2 ^ 32 - 1
def maxBranchLeaseSeconds := 2592000
def clockSkewSeconds := 300
def maxSafeJsonInteger := 2 ^ 53 - 1

def masterScopes := ["branch_certify", "contact_consent", "delegate", "device_set", "profile"]

inductive PrincipalKind
  | human
  | headlessAi
  | bot
  | workflow
  deriving DecidableEq, Countable

inductive CustodyKind
  | localHuman
  | externalHuman
  deriving DecidableEq, Countable

inductive DeviceSetStatus
  | active
  | revoked
  deriving DecidableEq, Countable

inductive MigrationState
  | native
  | pendingErasure
  | erased
  | revoked
  deriving DecidableEq, Countable

structure Envelope (α : Type) where
  body : α
  signature : String
  deriving DecidableEq

instance {α : Type} [Countable α] : Countable (Envelope α) := by
  refine Function.Injective.countable (f := fun e : Envelope α => (e.body, e.signature)) ?_
  rintro ⟨_, _⟩ ⟨_, _⟩ h
  cases h
  rfl

/-- `anchor` is the account's anchor (`account_anchor`), as in every object of an account. -/
structure DeviceRef where
  anchor : String
  deviceId : String
  deviceEpoch : ℕ
  deriving DecidableEq, Countable

structure MasterCertificate where
  schema : String
  version : ℕ
  anchor : String
  principalId : String
  principalKind : PrincipalKind
  masterPublicKey : String
  selfSigningPublicKey : String
  primaryDeviceRef : DeviceRef
  custodyKind : CustodyKind
  scopes : List String
  rangeIndex : ℕ
  issuedAt : ℕ
  certId : String
  legacyBindingHash : Option String
  previousCertificateHash : Option String
  deriving DecidableEq, Countable

structure BranchCertificate where
  schema : String
  version : ℕ
  anchor : String
  masterCertificateHash : String
  deviceId : String
  deviceEpoch : ℕ
  principalKind : PrincipalKind
  branchSigningPublicKey : String
  agreementIdentityPublicKey : String
  capabilities : List String
  notBefore : ℕ
  expiresAt : ℕ
  certId : String
  deriving DecidableEq, Countable

structure Device where
  deviceId : String
  deviceEpoch : ℕ
  signingKeyCommitment : String
  agreementKeyCommitment : String
  status : DeviceSetStatus
  revokedAt : Option ℕ
  branchCertificate : Option (Envelope BranchCertificate)
  migrationState : MigrationState
  deriving DecidableEq, Countable

structure Profile where
  kind : PrincipalKind
  displayName : String
  custodian : Option DeviceRef
  deriving DecidableEq, Countable

structure RevokedCheckpoint where
  schema : String
  version : ℕ
  anchor : String
  masterCertificateHash : String
  deviceSetEpoch : ℕ
  previousCheckpointHash : Option String
  listHash : String
  count : ℕ
  compactedBefore : ℕ
  issuedAt : ℕ
  deriving DecidableEq, Countable

structure SectionHashes where
  profile : String
  devices : String
  delegations : String
  revokedDelegationIds : String
  migration : String
  revokedDeviceCheckpoint : String
  deriving DecidableEq, Countable

structure DeviceSet where
  schema : String
  version : ℕ
  principalId : String
  anchor : String
  principalKind : PrincipalKind
  origin : String
  custodyMode : String
  deviceSetEpoch : ℕ
  previousRecordHash : Option String
  issuedAt : ℕ
  masterCertificate : Envelope MasterCertificate
  legacyBinding : Option String
  profile : Profile
  devices : List Device
  delegations : List String
  revokedDelegationIds : List String
  migration : Option String
  revokedDeviceCheckpoint : Option (Envelope RevokedCheckpoint)
  sectionHashes : SectionHashes
  deriving DecidableEq, Countable

inductive CustodyError
  | identityAuthority (reason : String)
  | invalidIdentityRecord (reason : String)
  | base64
  | verifyFailed
  | deviceKeys
  | displayName
  deriving DecidableEq

def reject (reason : String) : CustodyError := .identityAuthority reason

def encodeEpoch (range revision : ℕ) : Except CustodyError ℕ :=
  if range = 0 ∨ maxRange < range ∨ revision = 0 ∨ maxRevision < revision then
    .error (.invalidIdentityRecord "custody epoch outside certified range")
  else .ok (range * 2 ^ 32 + revision)

/-- Certified range and revision within it. -/
def decodeEpoch (epoch : ℕ) : Except CustodyError (ℕ × ℕ) := do
  refuseWhen (maxSafeJsonInteger < epoch) (.invalidIdentityRecord "unsafe custody epoch")
  let _ ← encodeEpoch (epoch / 2 ^ 32) (epoch % 2 ^ 32)
  pure (epoch / 2 ^ 32, epoch % 2 ^ 32)

theorem decodeEpoch_range {epoch range revision : ℕ} (h : decodeEpoch epoch = .ok (range, revision)) :
    range = epoch / 2 ^ 32 := by
  iterate 2 replace h := ok_after h
  exact (Prod.mk.inj (Except.ok.inj h)).1.symm

end Ramflux.Custody
