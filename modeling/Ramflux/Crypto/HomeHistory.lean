import Ramflux.Crypto.HomeMigration

/-! Verification of an account's home history from a retained base record. -/
namespace Ramflux.Home
open Fallible Custody

/-- Result of verification of a whole chain. -/
structure VerifiedHome where
  evidence : RecordEvidence
  hash : String
  ancestry : OrdMap ℕ String
  records : List RecordEvidence

namespace VerifiedHome

def extends_ (v : VerifiedHome) (epoch : ℕ) (hash : String) : Bool := v.ancestry[epoch]? = some hash

def epoch (v : VerifiedHome) : ℕ := v.evidence.record.epoch

end VerifiedHome

/-- The retained base, as the chain starts from it. -/
structure HomeTrust where
  anchor : String
  nodeId : String
  nodeKey : String
  homeEpoch : ℕ
  homeHash : Option String
  cachedManagerRange : ℕ
  cachedManagerCertificateHash : Option String

/-- Variables of the loop over the chain. -/
structure ChainState where
  hash : Option String
  ancestry : OrdMap ℕ String
  epoch : ℕ
  nodeId : String
  nodeKey : String
  committedAt : ℕ
  seen : OrdMap ℕ String
  managerRange : ℕ

def HomeTrust.start (trust : HomeTrust) : ChainState where
  hash := trust.homeHash
  ancestry := match trust.homeHash with
    | some hash => (∅ : OrdMap ℕ String).insert trust.homeEpoch hash
    | none => ∅
  epoch := trust.homeEpoch
  nodeId := trust.nodeId
  nodeKey := trust.nodeKey
  committedAt := 0
  seen := match trust.cachedManagerCertificateHash with
    | some hash => (∅ : OrdMap ℕ String).insert trust.cachedManagerRange hash
    | none => ∅
  managerRange := trust.cachedManagerRange

namespace HomeCrypto
variable (H : HomeCrypto)

def verifyHomeManagementCertificate (cert : MasterEnvelope) (anchor : String) :
    Except CustodyError Unit := do
  H.masterBody cert.body
  refuseWhen (cert.body.anchor ≠ anchor ∨ cert.body.custodyKind ≠ .localHuman)
    (reject "migration historical manager anchor/kind mismatch")
  let key ← H.key cert.body.masterPublicKey
  H.signature key (.masterCertificate cert.body) cert.signature

def verifyHomeBranchCertificate (cert : Custody.Envelope BranchCertificate) (managerKey : String) :
    Except CustodyError Unit := do
  H.branchBody cert.body
  let key ← H.key managerKey
  H.signature key (.branchCertificate cert.body) cert.signature

variable (anchor : String) (result : ResolveResult) (base e : RecordEvidence) (now : ℕ)
  (s : ChainState)

/-- One round of the loop over the certificates: the one before, and the ranges seen. -/
def managementCertificate (state : Option MasterEnvelope × OrdMap ℕ String)
    (cert : MasterEnvelope) : Except CustodyError (Option MasterEnvelope × OrdMap ℕ String) := do
  H.verifyHomeManagementCertificate cert anchor
  refuseWhen (∃ known ∈ state.2[cert.body.rangeIndex]?, known ≠ H.objectHash (.certificate cert))
    (reject "migration management certificate fork")
  refuseWhen (∃ old ∈ state.1, cert.body.rangeIndex ≤ old.body.rangeIndex ∨
      cert.body.previousCertificateHash ≠ some (H.objectHash (.certificate old)))
    (reject "migration management chain gap")
  pure (some cert, state.2.insert cert.body.rangeIndex (H.objectHash (.certificate cert)))

def expectedSigners (a : Authorization) (cert : MasterEnvelope)
    (actor : Custody.Envelope BranchCertificate) : List Signer := [
  ⟨.management, .masterCertifiedCustody a.anchor (H.objectHash (.certificate cert))
    a.authorityRecordHash cert.body.selfSigningPublicKey⟩,
  ⟨.actor, .branchV3 a.actor (H.objectHash (.branch actor)) actor.body.branchSigningPublicKey⟩]

/-- `certificates` after its loop, with the manager and the actor at hand. -/
def historicalAuthority (a : Signed Authorization) (time : ℕ) (cert : MasterEnvelope)
    (actor : Custody.Envelope BranchCertificate) : Except CustodyError Unit := do
  let b := actor.body
  let managerHash := H.objectHash (.certificate cert)
  refuseWhen (managerHash ≠ a.body.managementCertificateHash ∨ b.masterCertificateHash ≠ managerHash ∨
      b.anchor ≠ a.body.anchor ∨ b.deviceId ≠ a.body.actor.deviceId ∨
      b.deviceEpoch ≠ a.body.actor.deviceEpoch ∨ b.principalKind ≠ .human ∨
      a.body.actor.anchor ≠ a.body.anchor ∨ time < b.notBefore ∨ b.expiresAt < time ∨
      "register" ∉ b.capabilities)
    (reject "migration historical actor authority mismatch")
  H.verifyHomeBranchCertificate actor cert.body.selfSigningPublicKey
  refuseWhen (a.signers ≠ H.expectedSigners a.body cert actor)
    (reject "migration historical signer mismatch")
  let body := e.authority.record.body
  let publicationTime := max (max body.issuedAt body.masterCertificate.body.issuedAt) time
  let authority ← H.verifyRecord e.authority.record publicationTime e.authority.compactedIds none
  let mismatch := reject "migration historical authority membership mismatch"
  refuseWhen (H.objectHash (.record authority.envelope) ≠ a.body.authorityRecordHash ∨
      H.objectHash (.certificate authority.body.masterCertificate) ≠ managerHash) mismatch
  let branch ← authority.authorize a.body.actor "register" time
  refuseWhen (branch ≠ b) mismatch
  H.verifySignatures a

/-- Manager range of the record and the ranges seen. -/
def certificates (a : Signed Authorization) (time : ℕ) (seen : OrdMap ℕ String) :
    Except CustodyError (ℕ × OrdMap ℕ String) := do
  let state ← e.managementCertificateChain.foldlM (H.managementCertificate a.body.anchor)
    (none, seen)
  match state.1, e.actorCertificate with
  | none, _ => .error (reject "migration management evidence absent")
  | some _, none => .error (reject "migration actor evidence absent")
  | some cert, some actor => do
    H.historicalAuthority e a time cert actor
    pure (cert.body.rangeIndex, state.2)

def verifyGenesis (pin : String × String) (now : ℕ) : Except CustodyError (ℕ × ℕ) :=
  match e.record with
  | .committed .. => .error (reject "migration genesis required")
  | .genesis genesis => do
    let g := genesis.body
    refuseWhen (g.homeEpoch ≠ 0 ∨ g.homeNode ≠ pin.1 ∨ g.homeNodeKey ≠ pin.2 ∨
        satAdd now skewSeconds < g.registeredAt ∨ e.managementCertificateChain ≠ [] ∨
        e.actorCertificate.isSome)
      (reject "migration genesis base mismatch")
    let authority ← H.verifyRecord e.authority.record now e.authority.compactedIds none
    refuseWhen (H.objectHash (.record authority.envelope) ≠ g.custodyRecordHash ∨
        authority.body.anchor ≠ g.anchor)
      (reject "migration genesis authority mismatch")
    H.verifyHomeDeclaration g.homeDeclaration authority pin.1 g.registeredAt
    H.verifyNode genesis pin.1 pin.2
    pure (g.registeredAt, authority.body.masterCertificate.body.rangeIndex)

/-- A record that repeats the current head. -/
def repeatedRecord (e : RecordEvidence) : Except CustodyError ChainState := do
  refuseWhen (e.record.epoch ≠ s.epoch ∨ e.record.home ≠ (s.nodeId, s.nodeKey))
    (reject "migration cached base mismatch")
  match e.record with
  | .committed authorization commitProof => do
    let (range, seen) ← H.certificates e authorization commitProof.body.committedAt s.seen
    pure { s with committedAt := commitProof.body.committedAt, managerRange := range, seen }
  | .genesis _ => pure s

/-- Fields that a commit proof repeats from its authorization, and its times. -/
def checkCommit (authorization : Signed Authorization) (c : CommitProof) :
    Except CustodyError Unit := do
  let a := authorization.body
  let mismatch := reject "migration committed chain mismatch"
  refuseWhen (s.hash ≠ some a.previousHomeHash ∨ checkedAdd s.epoch 1 ≠ some a.nextHomeEpoch ∨
      a.oldNode ≠ s.nodeId ∨ c.oldNode ≠ s.nodeId ∨ c.anchor ≠ a.anchor ∨
      c.migrationId ≠ a.migrationId ∨ c.destinationNode ≠ a.destinationNode ∨
      c.destinationKey ≠ a.destinationKey ∨ c.previousHomeHash ≠ a.previousHomeHash ∨
      c.nextHomeEpoch ≠ a.nextHomeEpoch ∨ c.authorityRecordHash ≠ a.authorityRecordHash) mismatch
  let authorizationHash ← H.messageHash authorization
  refuseWhen (c.authorizationHash ≠ authorizationHash ∨ c.offerHash ≠ a.offerHash ∨
      c.committedAt < s.committedAt ∨ satAdd now skewSeconds < c.committedAt ∨
      c.commitDeadline < c.committedAt) mismatch
  let deadline ← hardDeadline a
  refuseWhen (deadline < c.committedAt) mismatch
  refuseWhen (u64Max < c.committedAt + Home.forwardSeconds) (reject "migration forwarding overflow")
  refuseWhen (c.forwardUntil ≠ c.committedAt + Home.forwardSeconds) mismatch

def committedRecord (e : RecordEvidence) (authorization : Signed Authorization)
    (commitProof : Signed CommitProof) : Except CustodyError ChainState := do
  let a := authorization.body
  let c := commitProof.body
  H.checkCommit now s authorization c
  authorizationBounds a c.committedAt
  H.verifyNode commitProof s.nodeId s.nodeKey
  let (range, seen) ← H.certificates e authorization c.committedAt s.seen
  refuseWhen (range < s.managerRange) (reject "migration management range decreased")
  pure { s with
    managerRange := range
    seen
    epoch := a.nextHomeEpoch
    nodeId := a.destinationNode
    nodeKey := a.destinationKey
    committedAt := c.committedAt }

def verifiedRecord (e : RecordEvidence) : Except CustodyError ChainState :=
  match e.record with
  | .genesis _ => do
    refuseWhen (s.hash.isSome ∨ s.epoch ≠ 0) (reject "migration genesis base mismatch")
    let (committedAt, managerRange) ← H.verifyGenesis e (s.nodeId, s.nodeKey) now
    pure { s with committedAt, managerRange }
  | .committed authorization commitProof => H.committedRecord now s e authorization commitProof

/-- A record that is not the current head. -/
def nextRecord (e : RecordEvidence) : Except CustodyError ChainState := do
  H.verifyNodeIdentityRecord e.nodeRecord s.nodeId s.nodeKey now
  let s ← H.verifiedRecord now s e
  pure { s with
    ancestry := s.ancestry.insert e.record.epoch (H.recordHash e.record)
    hash := some (H.recordHash e.record) }

def chainStep (e : RecordEvidence) : Except CustodyError ChainState := do
  refuseWhen (e.record.anchor ≠ anchor) (reject "migration chain account mismatch")
  if s.hash = some (H.recordHash e.record) then H.repeatedRecord s e else H.nextRecord now s e

def verifyRetainedChain (trust : HomeTrust) (now : ℕ) : Except CustodyError VerifiedHome := do
  refuseWhen (maxChainRecords < result.predecessors.length + 1 ∨
      maxResolveBytes < H.resultLength result) (reject "migration chain budget exceeded")
  let s ← result.chain.foldlM (H.chainStep trust.anchor now) trust.start
  match s.hash with
  | none => .error (reject "migration genesis missing")
  | some hash => do
    refuseWhen (H.recordHash result.home.record ≠ hash) (reject "migration result head mismatch")
    pure { evidence := result.home, hash, ancestry := s.ancestry, records := [] }

/-- Keeps a record that is newer than all before. -/
def pushNewer (records : List RecordEvidence) (e : RecordEvidence) : List RecordEvidence :=
  if ∃ last ∈ records.getLast?, e.record.epoch ≤ last.record.epoch then records else records ++ [e]

def trust : HomeTrust where
  anchor := base.record.anchor
  nodeId := base.record.home.1
  nodeKey := base.record.home.2
  homeEpoch := base.record.epoch
  homeHash := some (H.recordHash base.record)
  cachedManagerRange := base.authority.record.body.masterCertificate.body.rangeIndex
  cachedManagerCertificateHash := some (H.objectHash (.certificate base.authority.record.body.masterCertificate))

/-- A genesis base is verified again, at its own time. -/
def checkBase : Except CustodyError Unit :=
  match base.record with
  | .genesis genesis => do
    H.verifyNodeIdentityRecord base.nodeRecord base.record.home.1 base.record.home.2
      genesis.body.registeredAt
    let _ ← H.verifyGenesis base base.record.home genesis.body.registeredAt
    pure ()
  | .committed .. => pure ()

def verifyHomeChain :
    Except CustodyError VerifiedHome := do
  H.checkBase base
  let verified ← H.verifyRetainedChain result (H.trust base) now
  pure { verified with records := result.chain.foldl pushNewer [base] }

end HomeCrypto

end Ramflux.Home
