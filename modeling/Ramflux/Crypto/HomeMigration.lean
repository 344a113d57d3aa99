import Ramflux.Crypto.CustodyVerified
import Ramflux.Protocol.HomeMigration

/-! Signatures and time bounds of home-migration messages. -/
namespace Ramflux.Home
open Fallible Custody

/-- What home records rest on besides custody records; text and number rules are parameters. -/
structure HomeCrypto extends CustodyCrypto where
  recordDigest : HomeRecord → Bytes
  messageDigest : HomeMessage → Bytes
  messageLength : HomeMessage → ℕ
  resultLength : ResolveResult → ℕ
  safeNumbers : HomeMessage → Bool
  structured : HomeMessage → Except CustodyError Unit
  /-- Signature of a key over a message without its signatures. -/
  verifyMessage : Bytes → HomeMessage → Bytes → Bool
  verifyNodeIdentityRecord : String → String → String → ℕ → Except CustodyError Unit

def checkedAdd (a b : ℕ) : Option ℕ := if a + b ≤ u64Max then some (a + b) else none

namespace HomeCrypto
variable (H : HomeCrypto)

def recordHash (record : HomeRecord) : String := encodeBase64url (H.recordDigest record)

def binary (text : String) (length : ℕ) : Except CustodyError Bytes :=
  match decodeBase64url text with
  | none => .error .base64
  | some raw =>
    if raw.length ≠ length ∨ encodeBase64url raw ≠ text then
      .error (reject "migration binary noncanonical")
    else .ok raw

def messageKey (text : String) : Except CustodyError Bytes := do
  let raw ← binary text 32
  match H.weakKey raw with
  | none => .error (reject "migration key invalid")
  | some weak => if weak then .error (reject "migration key weak") else .ok raw

section
variable {α : Type} [Message α] (message : Signed α)

/-- What is signed: the message without its signatures. -/
def transcript : HomeMessage := Message.message { message with signatures := [] }

def signingBytes : Except CustodyError Unit := do
  refuseWhen (message.schema ≠ Message.domain α ∨ message.domain ≠ Message.domain α ∨
      message.signers.map Signer.role ≠ Message.roles α ∨ Message.version message.body ≠ 1)
    (.invalidIdentityRecord "migration schema, version or signer role mismatch")
  refuseWhen (H.safeNumbers (Message.message message) = false)
    (.invalidIdentityRecord "unsafe migration integer")

def messageHash : Except CustodyError String := do
  H.signingBytes message
  pure (encodeBase64url (H.messageDigest (Message.message message)))

def keyKindMatches (signer : Signer) : Bool :=
  match signer.role, signer.key with
  | .management, .masterCertifiedCustody .. => true
  | .management, .masterCertifiedHome .. => true
  | .actor, .branchV3 .. => true
  | .node, .node .. => true
  | _, _ => false

def verifySignature (entry : Signer × String) : Except CustodyError Unit := do
  refuseWhen (keyKindMatches entry.1 = false) (reject "migration signer key kind mismatch")
  let signature ← binary entry.2 64
  let key ← H.messageKey entry.1.key.publicKey
  if H.verifyMessage key (transcript message) signature then .ok () else .error .verifyFailed

def verifySignatures : Except CustodyError Unit := do
  H.signingBytes message
  refuseWhen (maxMessageBytes < H.messageLength (Message.message message) ∨
      message.signatures.length ≠ (Message.roles α).length)
    (reject "migration message size or signature count")
  H.structured (Message.message message)
  (message.signers.zip message.signatures).forM (H.verifySignature message)

def verifyNode (nodeId nodeKey : String) : Except CustodyError Unit := do
  H.verifySignatures message
  refuseWhen (message.signers ≠ [⟨.node, .node nodeId nodeKey⟩]) (reject "migration node pin mismatch")

end

/-- Last possible commit by the account's own time. -/
def hardDeadline (a : Authorization) : Except CustodyError ℕ := do
  refuseWhen (a.maxCommitDelay = 0 ∨ Home.maxCommitDelay < a.maxCommitDelay)
    (reject "migration commit delay invalid")
  refuseWhen (maxSafeJsonInteger < a.issuedAt + maxSealDelay + a.maxCommitDelay + 2 * skewSeconds)
    (reject "migration deadline overflow")
  pure (a.issuedAt + maxSealDelay + a.maxCommitDelay + 2 * skewSeconds)

def authorizationBounds (a : Authorization) (now : ℕ) : Except CustodyError Unit := do
  let invalid := reject "migration authorization time bounds"
  refuseWhen (maxSafeJsonInteger < now ∨ satAdd now skewSeconds < a.issuedAt ∨
      a.sealUntil < a.issuedAt ∨ satAdd a.issuedAt maxSealDelay < a.sealUntil) invalid
  let deadline ← hardDeadline a
  refuseWhen (deadline < now ∨ a.forwardSeconds ≠ Home.forwardSeconds ∨ a.nextHomeEpoch = 0) invalid

/-- The source's clock against the account's bound and the destination's seal. -/
def commitBounds (a : Authorization) (offer : Offer) (receipt : Receipt) (now : ℕ) :
    Except CustodyError ℕ := do
  let invalid := reject "migration commit expired or seal bounds"
  authorizationBounds a now
  match receipt.sealedAt with
  | none => .error (reject "migration seal time missing")
  | some sealed => do
    refuseWhen (u64Max < sealed + a.maxCommitDelay) (reject "migration deadline overflow")
    refuseWhen (satAdd now skewSeconds < offer.issuedAt ∨ offer.maxCommitDelay ≠ Home.maxCommitDelay ∨
        offer.forwardSeconds ≠ Home.forwardSeconds ∨ sealed < offer.issuedAt - skewSeconds ∨
        offer.acceptUntil < a.sealUntil ∨ offer.maxCommitDelay < a.maxCommitDelay) invalid
    refuseWhen (u64Max < offer.issuedAt + maxSealDelay) (reject "migration deadline overflow")
    refuseWhen (offer.acceptUntil ≠ offer.issuedAt + maxSealDelay ∨ a.sealUntil < sealed ∨
        sealed < a.issuedAt - skewSeconds ∨ satAdd now skewSeconds < sealed ∨
        receipt.commitDeadline ≠ some (sealed + a.maxCommitDelay) ∨
        sealed + a.maxCommitDelay < now) invalid
    let deadline ← hardDeadline a
    refuseWhen (deadline < now) invalid
    pure (sealed + a.maxCommitDelay)

def declarationSigner (body : HomeDeclarationV1) (authority : VerifiedRecord) (node : String)
    (now : ℕ) : Except CustodyError Signer := do
  let record := authority.body
  let cert := record.masterCertificate
  refuseWhen (body.principalId ≠ record.principalId ∨ body.anchor ≠ record.anchor ∨
      body.homeNode ≠ node ∨ satAdd now skewSeconds < body.createdAt ∨
      cert.body.custodyKind ≠ .localHuman ∨ record.principalKind ≠ .human)
    (reject "home declaration current master or home mismatch")
  pure ⟨.management, .masterCertifiedHome body.anchor (H.objectHash (.certificate cert))
    cert.body.selfSigningPublicKey⟩

def verifyHomeDeclaration (declaration : Signed HomeDeclarationV1) (authority : VerifiedRecord)
    (node : String) (now : ℕ) : Except CustodyError Unit := do
  H.verifySignatures declaration
  let signer ← H.declarationSigner declaration.body authority node now
  refuseWhen (declaration.signers ≠ [signer]) (reject "home declaration signer mismatch")

end HomeCrypto

end Ramflux.Home
