import Ramflux.Protocol.Custody

/-! Custody records, once verified, say which devices an account authorizes and which it has revoked. -/
namespace Ramflux.Custody
open Fallible

namespace Domain

def custodyMasterCertificate := "ramflux.identity.master_certificate.v1"
def signedDeviceSetV3 := "ramflux.identity.signed_device_set.v3"
def custodyBranchCertificate := "ramflux.identity.branch_certificate.v1"
def custodyRevokedCheckpoint := "ramflux.identity.revoked_devices.checkpoint.v1"

end Domain

/-- Envelopes that are hashed whole. -/
inductive CustodyObject
  | record (envelope : Envelope DeviceSet)
  | certificate (envelope : Envelope MasterCertificate)
  | branch (envelope : Envelope BranchCertificate)
  deriving DecidableEq, Countable

/-- Bodies that are signed, each under its own domain. -/
inductive CustodyBody
  | masterCertificate (body : MasterCertificate)
  | branchCertificate (body : BranchCertificate)
  | deviceSet (body : DeviceSet)
  | revokedCheckpoint (body : RevokedCheckpoint)

/-- Text rules, keys, digests and encodings that custody records rest on. Keys are 32 bytes. -/
structure CustodyCrypto extends TextRules where
  /-- Whether a key is weak, `none` for bytes that are no key. -/
  weakKey : Bytes → Option Bool
  identityRootCommitment : Bytes → String
  deviceKeyCommitments : String → String → Except CustodyError (String × String)
  normalizeProfileDisplayName : String → Except CustodyError String
  verifyStrict : Bytes → CustodyBody → Bytes → Bool
  digest : CustodyObject → Bytes
  listDigest : List String → Bytes
  sectionHashes : DeviceSet → SectionHashes
  recordJson : Envelope DeviceSet → Bytes
  bodyLength : DeviceSet → ℕ
  idsLength : List String → ℕ

/-- Names of devices as stored: an account's anchor with the device's own name. -/
abbrev QualifiedDevice := String × String

namespace CustodyCrypto
variable (C : CustodyCrypto)

def objectHash (object : CustodyObject) : String := encodeBase64url (C.digest object)

/-- Canonical base64url text of `count` bytes. -/
def bytes (value : String) (count : ℕ) : Except CustodyError Bytes := do
  refuseWhen (value.utf8ByteSize ≠ (count * 8 + 5) / 6) (reject "noncanonical custody binary length")
  match decodeBase64url value with
  | none => .error .base64
  | some raw =>
    if raw.length ≠ count ∨ encodeBase64url raw ≠ value then
      .error (reject "noncanonical custody binary encoding")
    else .ok raw

def key (value : String) : Except CustodyError Bytes := do
  let raw ← bytes value 32
  match C.weakKey raw with
  | none => .error (reject "invalid custody key")
  | some weak => if weak then .error (reject "weak custody signing key") else .ok raw

def id (value : String) : Except CustodyError Unit :=
  refuseWhen (value = "" ∨ 256 < value.utf8ByteSize ∨ value.toList.any isControl)
    (reject "invalid custody identifier")

def time (value : ℕ) : Except CustodyError Unit :=
  refuseWhen (maxSafeJsonInteger < value) (reject "unsafe custody integer")

def positive (value : ℕ) : Except CustodyError Unit := do
  time value
  refuseWhen (value = 0) (reject "zero custody counter")

def reference (value : DeviceRef) : Except CustodyError Unit := do
  let _ ← bytes value.anchor 32
  id value.deviceId
  positive value.deviceEpoch

def optionalHash (value : Option String) : Except CustodyError Unit :=
  match value with
  | some value => do
    let _ ← bytes value 32
    pure ()
  | none => .ok ()

def signature (key : Bytes) (body : CustodyBody) (text : String) : Except CustodyError Unit := do
  let raw ← bytes text 64
  if C.verifyStrict key body raw then .ok () else .error .verifyFailed

def masterBody (body : MasterCertificate) : Except CustodyError Unit := do
  refuseWhen (body.schema ≠ Domain.custodyMasterCertificate ∨ body.version ≠ 1)
    (reject "unsupported master certificate")
  id body.principalId
  let _ ← bytes body.anchor 32
  let _ ← bytes body.certId 32
  let master ← C.key body.masterPublicKey
  let _ ← C.key body.selfSigningPublicKey
  refuseWhen (body.masterPublicKey = body.selfSigningPublicKey ∨
      C.identityRootCommitment master ≠ body.anchor)
    (reject "custody master anchor or independent-key mismatch")
  reference body.primaryDeviceRef
  time body.issuedAt
  let _ ← encodeEpoch body.rangeIndex 1
  refuseWhen (body.scopes ≠ masterScopes ∨ body.legacyBindingHash.isSome)
    (reject "born-v3 certificate requires exact scopes and no legacy binding")
  optionalHash body.previousCertificateHash
  let ownPrimary := body.primaryDeviceRef.anchor = body.anchor
  refuseWhen (¬ (body.principalKind = .human ∧ body.custodyKind = .localHuman ∧ ownPrimary) ∧
      ¬ (body.custodyKind = .externalHuman ∧ body.principalKind ≠ .human ∧ ¬ ownPrimary))
    (reject "custodian kind or primary reference mismatch")

def branchBody (body : BranchCertificate) : Except CustodyError Unit := do
  refuseWhen (body.schema ≠ Domain.custodyBranchCertificate ∨ body.version ≠ 1)
    (reject "unsupported custody branch certificate")
  let _ ← bytes body.anchor 32
  let _ ← bytes body.masterCertificateHash 32
  let _ ← bytes body.certId 32
  id body.deviceId
  positive body.deviceEpoch
  let _ ← C.deviceKeyCommitments body.branchSigningPublicKey body.agreementIdentityPublicKey
  time body.notBefore
  time body.expiresAt
  refuseWhen (body.expiresAt < body.notBefore) (reject "invalid branch lease")
  refuseWhen (body.expiresAt = body.notBefore ∨
      maxBranchLeaseSeconds < body.expiresAt - body.notBefore)
    (reject "branch lease exceeds 30 days")
  refuseWhen (body.capabilities = [] ∨ 5 < body.capabilities.length ∨
      ¬ body.capabilities.IsChain (· < ·) ∨
      ∃ cap ∈ body.capabilities, cap ∉ ["call", "group", "message", "register", "sync"])
    (reject "invalid custody branch capabilities")

variable (body : DeviceSet)

/-- What the roster says about one active device, or about a revoked one. -/
def deviceState (signer : Bytes) (device : Device) : Except CustodyError Unit :=
  match device.status, device.migrationState, device.revokedAt, device.branchCertificate with
  | .active, .native, none, some branch => do
    let cert := body.masterCertificate.body
    let b := branch.body
    C.branchBody b
    refuseWhen (b.anchor ≠ body.anchor ∨
        b.masterCertificateHash ≠ C.objectHash (.certificate body.masterCertificate) ∨
        b.principalKind ≠ body.principalKind ∨ b.deviceId ≠ device.deviceId ∨
        b.deviceEpoch ≠ device.deviceEpoch ∨ b.branchSigningPublicKey = cert.masterPublicKey ∨
        b.branchSigningPublicKey = cert.selfSigningPublicKey)
      (reject "custody branch binding mismatch")
    C.signature signer (.branchCertificate b) branch.signature
    let commitments ← C.deviceKeyCommitments b.branchSigningPublicKey b.agreementIdentityPublicKey
    refuseWhen (commitments ≠ (device.signingKeyCommitment, device.agreementKeyCommitment))
      (reject "custody key commitment mismatch")
  | .revoked, .revoked, some at_, none => time at_
  | _, _, _, _ => .error (reject "invalid native custody device state")

/-- One round of the loop over the roster, from the device before. -/
def rosterDevice (signer : Bytes) (previous : Option String) (device : Device) :
    Except CustodyError (Option String) := do
  id device.deviceId
  positive device.deviceEpoch
  let _ ← bytes device.signingKeyCommitment 32
  let _ ← bytes device.agreementKeyCommitment 32
  refuseWhen (∃ old ∈ previous, device.deviceId ≤ old)
    (reject "custody roster must be sorted and unique")
  C.deviceState body signer device
  pure (some device.deviceId)

def roster (body : DeviceSet) : Except CustodyError Unit := do
  let cert := body.masterCertificate.body
  let signer ← C.key cert.selfSigningPublicKey
  let _ ← body.devices.foldlM (C.rosterDevice body signer) none
  refuseWhen (body.principalKind = .human ∧ ¬ ∃ d ∈ body.devices,
      d.deviceId = cert.primaryDeviceRef.deviceId ∧ d.deviceEpoch = cert.primaryDeviceRef.deviceEpoch)
    (reject "local primary must remain represented in its roster")

def recordStructure : Except CustodyError Unit := do
  refuseWhen (body.schema ≠ Domain.signedDeviceSetV3 ∨ body.version ≠ 3 ∨ body.origin ≠ "new" ∨
      body.custodyMode ≠ "v3")
    (reject "only born-v3 custody records are supported")
  refuseWhen (body.legacyBinding.isSome ∨ body.migration.isSome ∨ body.delegations ≠ [] ∨
      body.revokedDelegationIds ≠ [])
    (reject "migration and delegation support require a later custody stage")
  let cert := body.masterCertificate.body
  C.masterBody cert
  let master ← C.key cert.masterPublicKey
  C.signature master (.masterCertificate cert) body.masterCertificate.signature
  let epoch ← decodeEpoch body.deviceSetEpoch
  refuseWhen (body.principalId ≠ cert.principalId ∨ body.anchor ≠ cert.anchor ∨
      body.principalKind ≠ cert.principalKind ∨ epoch.1 ≠ cert.rangeIndex)
    (reject "custody record differs from certified authority")
  time body.issuedAt
  optionalHash body.previousRecordHash
  refuseWhen (body.profile.kind ≠ body.principalKind) (reject "invalid custody profile")
  let name ← C.normalizeProfileDisplayName body.profile.displayName
  refuseWhen (name ≠ body.profile.displayName) (reject "invalid custody profile")
  refuseWhen (¬ (body.principalKind = .human ∧ body.profile.custodian = none) ∧
      ¬ (body.principalKind ≠ .human ∧ body.profile.custodian = some cert.primaryDeviceRef))
    (reject "custody profile reference mismatch")
  refuseWhen (body.devices = [] ∨ maxRoster < body.devices.length)
    (reject "custody roster capacity exceeded")
  C.roster body
  refuseWhen (body.sectionHashes ≠ C.sectionHashes body) (reject "custody section hash mismatch")
  refuseWhen (maxRecordBytes < C.bodyLength body) (reject "custody record byte budget exceeded")

/-- `RootQualifiedDeviceRef::authenticated`. -/
def authenticated (root device : String) : Except CustodyError QualifiedDevice := do
  C.validateDeviceName .invalidIdentityRecord device
  refuseWhen (root = "" ∨ 256 < root.utf8ByteSize ∨ device = "" ∨ 1024 < device.utf8ByteSize)
    (.invalidIdentityRecord "invalid qualified device address")
  pure (root, device)

def checkCheckpoint (checkpoint : Envelope RevokedCheckpoint) (future : ℕ) :
    Except CustodyError Unit := do
  let c := checkpoint.body
  let master := body.masterCertificate.body
  let invalid := reject "invalid custody revocation checkpoint"
  refuseWhen (c.schema ≠ Domain.custodyRevokedCheckpoint ∨ c.version ≠ 1 ∨
      c.anchor ≠ body.anchor ∨
      c.masterCertificateHash ≠ C.objectHash (.certificate body.masterCertificate) ∨
      c.count = 0 ∨ maxRevokedIds < c.count ∨ body.deviceSetEpoch < c.deviceSetEpoch) invalid
  let epoch ← decodeEpoch c.deviceSetEpoch
  refuseWhen (epoch.1 ≠ master.rangeIndex ∨ future < c.issuedAt) invalid
  refuseWhen (c.issuedAt < 7776000) (reject "invalid compaction time")
  refuseWhen (c.issuedAt - 7776000 < c.compactedBefore) invalid
  let _ ← bytes c.listHash 32
  optionalHash c.previousCheckpointHash
  let key ← C.key master.selfSigningPublicKey
  C.signature key (.revokedCheckpoint c) checkpoint.signature

def checkCompactedIds (checkpoint : RevokedCheckpoint) (ids : List String) :
    Except CustodyError Unit := do
  refuseWhen (maxRevokedIds < ids.length ∨ ids.length ≠ checkpoint.count ∨
      ¬ ids.IsChain (· < ·) ∨
      ∃ id ∈ ids, id = "" ∨ 256 < id.utf8ByteSize ∨ id.toList.any isControl)
    (reject "invalid compacted revocation membership list")
  refuseWhen (maxRevokedListBytes < C.idsLength ids ∨
      encodeBase64url (C.listDigest ids) ≠ checkpoint.listHash)
    (reject "revocation membership count, hash or byte budget mismatch")

/-- Ids under a checkpoint, with the bytes of their list. -/
def compactedRevocations (future : ℕ) (compactedIds : Option (List String)) :
    Except CustodyError (OrdSet String × ℕ) :=
  match body.revokedDeviceCheckpoint with
  | some checkpoint => do
    C.checkCheckpoint body checkpoint future
    match compactedIds with
    | none => .error (reject "compacted revocation membership evidence unavailable")
    | some ids => do
      C.checkCompactedIds checkpoint.body ids
      let revoked ← ids.foldlM (fun (revoked : OrdSet String) id => do
        let reference ← C.authenticated body.anchor id
        pure (revoked.insert reference.2)) ∅
      pure (revoked, C.idsLength ids)
  | none =>
    if ∃ ids ∈ compactedIds, ids ≠ [] then
      .error (reject "revocation evidence has no signed checkpoint")
    else .ok (∅, 0)

/-- One round of the loop over the roster. References are told by their device id. -/
def revokedDevice (revoked : OrdSet String) (device : Device) :
    Except CustodyError (OrdSet String) := do
  let reference ← C.authenticated body.anchor device.deviceId
  if device.status = .revoked then pure (revoked.insert reference.2)
  else if reference.2 ∈ revoked then .error (reject "compacted device cannot reactivate")
  else pure revoked

def verifiedRevocations (future : ℕ) (compactedIds : Option (List String)) :
    Except CustodyError (OrdSet String × ℕ) := do
  let compacted ← C.compactedRevocations body future compactedIds
  let revoked ← body.devices.foldlM (C.revokedDevice body) compacted.1
  pure (revoked, compacted.2)

end CustodyCrypto

/-- Result of verification. A record in external custody carries its human custodian's. -/
inductive VerifiedRecord
  | mk (envelope : Envelope DeviceSet) (revoked : OrdSet String) (encodedBytes compactedBytes : ℕ)
      (humanCustodian : Option VerifiedRecord)

namespace VerifiedRecord

def envelope : VerifiedRecord → Envelope DeviceSet
  | mk envelope _ _ _ _ => envelope

def revokedIds : VerifiedRecord → OrdSet String
  | mk _ revoked _ _ _ => revoked

def body (r : VerifiedRecord) : DeviceSet := r.envelope.body

/-- Checks of `authorize` on the record itself. -/
def authorizeDevice (envelope : Envelope DeviceSet) (revoked : OrdSet String) (reference : DeviceRef)
    (capability : String) (now : ℕ) : Except CustodyError BranchCertificate := do
  let record := envelope.body
  refuseWhen (reference.anchor ≠ record.anchor ∨ reference.deviceId ∈ revoked)
    (reject "custody device anchor or revocation mismatch")
  match record.devices.find? fun d =>
      d.deviceId = reference.deviceId ∧ d.deviceEpoch = reference.deviceEpoch with
  | none => .error (reject "custody device unavailable")
  | some device =>
    match device.branchCertificate, device.status with
    | some certificate, .active =>
      let cert := certificate.body
      if maxSafeJsonInteger < now ∨ now + clockSkewSeconds < cert.notBefore ∨
          cert.expiresAt + clockSkewSeconds < now ∨ capability ∉ cert.capabilities then
        .error (reject "custody device lease or capability unavailable")
      else .ok cert
    | _, _ => .error (reject "custody device revoked")

def authorize : VerifiedRecord → DeviceRef → String → ℕ → Except CustodyError BranchCertificate
  | mk envelope revoked _ _ humanCustodian, reference, capability, now => do
    match humanCustodian with
    | some human => do
      let _ ← human.authorize envelope.body.masterCertificate.body.primaryDeviceRef "register" now
      authorizeDevice envelope revoked reference capability now
    | none => authorizeDevice envelope revoked reference capability now

end VerifiedRecord

namespace CustodyCrypto
variable (C : CustodyCrypto)

def checkCustodian (body : DeviceSet) (human : Option VerifiedRecord) (now : ℕ) :
    Except CustodyError Unit :=
  let master := body.masterCertificate.body
  if master.custodyKind = .externalHuman then
    match human with
    | none => .error (reject "verified human custodian authority unavailable")
    | some human => do
      let authority := human.body
      refuseWhen (authority.principalKind ≠ .human ∨
          authority.masterCertificate.body.custodyKind ≠ .localHuman ∨
          authority.masterCertificate.body.primaryDeviceRef ≠ master.primaryDeviceRef)
        (reject "service custodian is not the current human primary")
      let _ ← human.authorize master.primaryDeviceRef "register" now
      pure ()
  else .ok ()

def verifyRecord (envelope : Envelope DeviceSet) (now : ℕ) (compactedIds : Option (List String))
    (humanCustodian : Option VerifiedRecord) : Except CustodyError VerifiedRecord := do
  refuseWhen (maxSafeJsonInteger < now) (reject "trusted custody time unavailable")
  C.recordStructure envelope.body
  let body := envelope.body
  let master := body.masterCertificate.body
  let key ← C.key master.selfSigningPublicKey
  C.signature key (.deviceSet body) envelope.signature
  let encodedBytes := (C.recordJson envelope).length
  refuseWhen (maxRecordBytes < encodedBytes) (reject "custody record byte budget exceeded")
  let future := now + clockSkewSeconds
  refuseWhen (future < body.issuedAt ∨ future < master.issuedAt ∨
      ∃ d ∈ body.devices, ∃ at_ ∈ d.revokedAt, future < at_)
    (reject "custody event is in the future")
  checkCustodian body humanCustodian now
  let revocations ← C.verifiedRevocations body future compactedIds
  pure (.mk envelope revocations.1 encodedBytes revocations.2
    (if master.custodyKind = .externalHuman then humanCustodian else none))

/-- A value of `VerifiedRecord` comes from verification only. -/
def IsVerified (r : VerifiedRecord) : Prop :=
  ∃ envelope now compactedIds human, C.verifyRecord envelope now compactedIds human = .ok r

end CustodyCrypto

end Ramflux.Custody
