import Ramflux.Protocol.Custody

/-! Home records: which node an account lives at, and the signed messages of a move to another. -/
namespace Ramflux.Home
open Custody

def maxMessageBytes := 8192
def maxResolveBytes := 1024 * 1024
def maxChainRecords := 64
def skewSeconds := 300
def maxSealDelay := 600
def maxCommitDelay := 600
def forwardSeconds := 86400

namespace Domain

def homeAuthorization := "ramflux.identity.home_authorization.v1"
def homeDeclaration := "ramflux.identity.home_declaration.v1"
def homeGenesis := "ramflux.identity.home_genesis.v1"
def homeCommit := "ramflux.identity.home_commit.v1"
def homeRouteOffer := "ramflux.identity.home_route_offer.v1"
def homeReceipt := "ramflux.identity.home_receipt.v1"
def homeNoncommitFence := "ramflux.identity.home_noncommit_fence.v1"

end Domain

inductive Role
  | management
  | actor
  | node
  deriving DecidableEq, Countable

inductive SignerKey
  | masterCertifiedHome (anchor masterCertificateHash publicKey : String)
  | masterCertifiedCustody (anchor masterCertificateHash authorityRecordHash publicKey : String)
  | branchV3 (deviceRef : DeviceRef) (branchCertificateHash publicKey : String)
  | node (nodeId publicKey : String)
  deriving DecidableEq, Countable

def SignerKey.publicKey : SignerKey → String
  | masterCertifiedHome _ _ publicKey => publicKey
  | masterCertifiedCustody _ _ _ publicKey => publicKey
  | branchV3 _ _ publicKey => publicKey
  | node _ publicKey => publicKey

structure Signer where
  role : Role
  key : SignerKey
  deriving DecidableEq, Countable

structure Signed (α : Type) where
  schema : String
  domain : String
  body : α
  signers : List Signer
  signatures : List String
  deriving DecidableEq

instance {α : Type} [Countable α] : Countable (Signed α) := by
  refine Function.Injective.countable
    (f := fun m : Signed α => (m.schema, m.domain, m.body, m.signers, m.signatures)) ?_
  rintro ⟨_, _, _, _, _⟩ ⟨_, _, _, _, _⟩ h
  cases h
  rfl

structure Authorization where
  version : ℕ
  migrationId : String
  anchor : String
  actor : DeviceRef
  authorityRecordHash : String
  managementCertificateHash : String
  previousHomeHash : String
  nextHomeEpoch : ℕ
  oldNode : String
  destinationNode : String
  destinationKey : String
  gatewayTcpAddr : String
  offerHash : String
  deliveryMapHash : String
  nonce : String
  issuedAt : ℕ
  sealUntil : ℕ
  maxCommitDelay : ℕ
  forwardSeconds : ℕ
  deriving DecidableEq, Countable

structure HomeDeclarationV1 where
  version : ℕ
  principalId : String
  anchor : String
  homeNode : String
  createdAt : ℕ
  nonce : String
  deriving DecidableEq, Countable

structure Genesis where
  homeDeclaration : Signed HomeDeclarationV1
  version : ℕ
  anchor : String
  homeEpoch : ℕ
  homeNode : String
  homeNodeKey : String
  custodyRecordHash : String
  registeredAt : ℕ
  deriving DecidableEq, Countable

structure CommitProof where
  version : ℕ
  migrationId : String
  anchor : String
  oldNode : String
  destinationNode : String
  destinationKey : String
  previousHomeHash : String
  nextHomeEpoch : ℕ
  authorityRecordHash : String
  authorizationHash : String
  offerHash : String
  sealHash : String
  commitDeadline : ℕ
  committedAt : ℕ
  forwardUntil : ℕ
  backlogManifestHash : String
  deriving DecidableEq, Countable

structure NoncommitFence where
  version : ℕ
  migrationId : String
  authorizationHash : String
  sealHash : Option String
  fencedAt : ℕ
  deriving DecidableEq, Countable

inductive Action
  | attest
  | prepare
  | seal
  | commit
  | activate
  | status
  | abort
  | resolve
  | fence
  deriving DecidableEq, Countable

inductive Phase
  | prepared
  | sealed
  | commitPending
  | commitOutcomeUnknown
  | committed
  | active
  | aborted
  | expired
  | forwarding
  | complete
  | needsAttention
  deriving DecidableEq, Countable

inductive Refusal
  | v3Required
  | custodyApprovalRequired
  | authorityUpdateRequired
  | actorRevoked
  | migrationInProgress
  | homeMigrated
  | dormantInbox
  | custodyUserPresenceUnavailable
  | pinMismatch
  | channelBindingRequired
  | baseMismatch
  | homeFork
  | idempotencyConflict
  | admissionExpired
  | commitExpired
  | commitOutcomeUnknown
  | previousWindowActive
  | homeGenesisRequired
  | homeDeclarationRequired
  | homeCheckpointRequired
  | backlogIncomplete
  | backlogEvidenceRequired
  | capacityRefused
  | peeringUnavailable
  | evidenceRequired
  | rateLimited
  | storageUnavailable
  deriving DecidableEq, Countable

structure Offer where
  version : ℕ
  migrationId : String
  anchor : String
  prepareHash : String
  authorityRecordHash : String
  previousHomeHash : String
  nextHomeEpoch : ℕ
  oldNode : String
  destinationNode : String
  destinationKey : String
  discoveryHash : String
  serverRecordHash : String
  gatewayTcpAddr : String
  federationEndpoint : String
  deliveryMapHash : String
  admissionId : String
  nonce : String
  issuedAt : ℕ
  acceptUntil : ℕ
  maxCommitDelay : ℕ
  forwardSeconds : ℕ
  deriving DecidableEq, Countable

structure Receipt where
  version : ℕ
  action : Action
  migrationId : String
  anchor : String
  nodeId : String
  requestHash : String
  requestNonce : String
  authorizationHash : Option String
  sealHash : Option String
  homeRecordHash : Option String
  phase : Phase
  stateVersion : ℕ
  sealedAt : Option ℕ
  commitDeadline : Option ℕ
  commitProofHash : Option String
  responsePayloadHash : String
  issuedAt : ℕ
  expiresAt : ℕ
  reasonCode : Option Refusal
  deriving DecidableEq, Countable

/-- Signed messages of a move. -/
inductive HomeMessage
  | authorization (message : Signed Authorization)
  | declaration (message : Signed HomeDeclarationV1)
  | genesis (message : Signed Genesis)
  | commitProof (message : Signed CommitProof)
  | noncommitFence (message : Signed NoncommitFence)
  | offer (message : Signed Offer)
  | receipt (message : Signed Receipt)
  deriving DecidableEq, Countable

/-- Domain and role order of a kind of message. -/
class Message (α : Type) where
  domain : String
  roles : List Role
  version : α → ℕ
  message : Signed α → HomeMessage

instance : Message Authorization where
  domain := Domain.homeAuthorization
  roles := [.management, .actor]
  version := Authorization.version
  message := .authorization

instance : Message HomeDeclarationV1 where
  domain := Domain.homeDeclaration
  roles := [.management]
  version := HomeDeclarationV1.version
  message := .declaration

instance : Message Genesis where
  domain := Domain.homeGenesis
  roles := [.node]
  version := Genesis.version
  message := .genesis

instance : Message CommitProof where
  domain := Domain.homeCommit
  roles := [.node]
  version := CommitProof.version
  message := .commitProof

instance : Message NoncommitFence where
  domain := Domain.homeNoncommitFence
  roles := [.node]
  version := NoncommitFence.version
  message := .noncommitFence

instance : Message Offer where
  domain := Domain.homeRouteOffer
  roles := [.node]
  version := Offer.version
  message := .offer

instance : Message Receipt where
  domain := Domain.homeReceipt
  roles := [.node]
  version := Receipt.version
  message := .receipt

inductive HomeRecord
  | genesis (genesis : Signed Genesis)
  | committed (authorization : Signed Authorization) (commitProof : Signed CommitProof)
  deriving DecidableEq, Countable

namespace HomeRecord

def epoch : HomeRecord → ℕ
  | .genesis g => g.body.homeEpoch
  | .committed authorization _ => authorization.body.nextHomeEpoch

def anchor : HomeRecord → String
  | .genesis g => g.body.anchor
  | .committed authorization _ => authorization.body.anchor

def home : HomeRecord → String × String
  | .genesis g => (g.body.homeNode, g.body.homeNodeKey)
  | .committed authorization _ => (authorization.body.destinationNode, authorization.body.destinationKey)

end HomeRecord

structure Publication where
  record : Custody.Envelope DeviceSet
  compactedIds : Option (List String)
  deriving DecidableEq

abbrev MasterEnvelope := Custody.Envelope MasterCertificate

/-- A home record with what it rests on. The node's own record stands as text. -/
structure RecordEvidence where
  authority : Publication
  record : HomeRecord
  managementCertificateChain : List MasterEnvelope
  actorCertificate : Option (Custody.Envelope BranchCertificate)
  nodeRecord : String
  deriving DecidableEq

structure ResolveResult where
  home : RecordEvidence
  predecessors : List RecordEvidence

/-- Records in the order in which they are verified. -/
def ResolveResult.chain (r : ResolveResult) : List RecordEvidence := r.predecessors ++ [r.home]

end Ramflux.Home
