import Ramflux.Crypto.HomeHistory

/-! The source side of home migrations: one commit or one fence for an authorization. Custody checks,
budgets and backlog only refuse; what they answer is part of a request's context. -/
namespace Ramflux.Home
open Fallible Custody

inductive StoreError
  | refusal (code : Refusal)
  | storage (text : String)
  deriving DecidableEq

def authError {ε α : Type} (x : Except ε α) : Except StoreError α :=
  x.mapError fun _ => .refusal .authorityUpdateRequired

def storageError {ε α : Type} (x : Except ε α) : Except StoreError α :=
  x.mapError fun _ => .storage ""

abbrev AuthorizationKey := String × String

/-- Source row of an operation, told by account and migration id. -/
structure SourceOperation where
  authorization : Signed Authorization
  proof : Option (Signed CommitProof)
  fence : Option (Signed NoncommitFence)
  phase : Phase
  expiresAt : ℕ
  liveBudget : Bool

/-- Tables that outcomes depend on. Expiry indexes hold the time with the row's key. -/
structure SourceStore where
  floor : ℕ
  heads : OrdMap String RecordEvidence
  records : OrdMap String RecordEvidence
  proofs : OrdMap AuthorizationKey String
  fences : OrdMap AuthorizationKey (Signed NoncommitFence)
  fenceExpires : OrdSet (ℕ × AuthorizationKey)
  ops : OrdMap (String × String) SourceOperation
  expires : OrdSet (ℕ × (String × String))

structure MigrationNode where
  nodeId : String
  publicKey : String
  record : String
  signCommit : CommitProof → Signed CommitProof
  signFence : NoncommitFence → Signed NoncommitFence

structure SealedMigration where
  authorization : Signed Authorization
  offer : Signed Offer
  receipt : Signed Receipt

/-- What the rest of the store answers to a commit: custody, evidence, window, budgets, backlog. -/
structure CommitContext where
  admission : Except StoreError Unit
  reservation : Except StoreError Unit
  publication : Publication
  managementCertificateChain : List MasterEnvelope
  actorCertificate : Option (Custody.Envelope BranchCertificate)
  backlogHash : String
  backlogRemains : Bool

/-- What the rest of the store answers to a cancellation; without authority nothing. The signatures are
checked here. -/
structure FenceContext where
  authority : Option (Except StoreError Unit)
  cancel : Option (Except StoreError Unit)

inductive FenceOutcome
  | fenced (fence : Signed NoncommitFence)
  | committed (record : RecordEvidence)

def SourceStore.clock (s : SourceStore) (now : ℕ) : Except StoreError ℕ :=
  if maxSafeJsonInteger < now then .error (.refusal .commitExpired) else .ok (max now s.floor)

namespace HomeCrypto
variable (H : HomeCrypto) (node : MigrationNode) (s : SourceStore) (auth : Signed Authorization)
  (sealed : SealedMigration) (context : CommitContext)

def authorizationKey : Except StoreError AuthorizationKey := do
  let hash ← storageError (H.messageHash auth)
  pure (auth.body.anchor, hash)

def permanentCommit (key : AuthorizationKey) : Except StoreError (Option RecordEvidence) :=
  match s.proofs[key]? with
  | none => .ok none
  | some hash =>
    match s.records[hash]? with
    | none => .error (.storage "migration permanent proof lost its record")
    | some record =>
      match record.record with
      | .genesis _ => .error (.storage "migration proof index points to genesis")
      | .committed authorization _ => do
        let known ← storageError (H.messageHash authorization)
        let asked ← storageError (H.messageHash auth)
        refuseWhen (known ≠ asked) (.refusal .idempotencyConflict)
        pure (some record)

/-- An operation row that is there already: refused, done, or open. -/
def previousOperation : Except StoreError (Option RecordEvidence) :=
  match s.ops[(auth.body.anchor, auth.body.migrationId)]? with
  | none => .ok none
  | some old => do
    let known ← storageError (H.messageHash old.authorization)
    let asked ← storageError (H.messageHash auth)
    refuseWhen (known ≠ asked) (.refusal .idempotencyConflict)
    refuseWhen old.fence.isSome (.refusal .commitExpired)
    match old.proof with
    | none => .ok none
    | some proof =>
      match s.records[H.recordHash (.committed auth proof)]? with
      | none => .error (.storage "migration committed proof lost its record")
      | some record => .ok (some record)

def committedEvidence (now deadline : ℕ) : Except StoreError RecordEvidence := do
  let a := sealed.authorization.body
  let authorizationHash ← storageError (H.messageHash sealed.authorization)
  let offerHash ← storageError (H.messageHash sealed.offer)
  let sealHash ← storageError (H.messageHash sealed.receipt)
  refuseWhen (u64Max < now + Home.forwardSeconds) (.refusal .commitExpired)
  let proof := node.signCommit {
    version := 1
    migrationId := a.migrationId
    anchor := a.anchor
    oldNode := a.oldNode
    destinationNode := a.destinationNode
    destinationKey := a.destinationKey
    previousHomeHash := a.previousHomeHash
    nextHomeEpoch := a.nextHomeEpoch
    authorityRecordHash := a.authorityRecordHash
    authorizationHash
    offerHash
    sealHash
    commitDeadline := deadline
    committedAt := now
    forwardUntil := now + Home.forwardSeconds
    backlogManifestHash := context.backlogHash }
  refuseWhen context.actorCertificate.isNone (.refusal .actorRevoked)
  pure {
    authority := context.publication
    record := .committed sealed.authorization proof
    managementCertificateChain := context.managementCertificateChain
    actorCertificate := context.actorCertificate
    nodeRecord := node.record }

def persistSourceCommit (evidence : RecordEvidence) (proof : Signed CommitProof)
    (key : AuthorizationKey) (now : ℕ) (backlogRemains : Bool) : SourceStore :=
  let a := sealed.authorization.body
  let hash := H.recordHash evidence.record
  { s with
    floor := now
    records := s.records.insert hash evidence
    heads := s.heads.insert evidence.record.anchor evidence
    proofs := s.proofs.insert key hash
    ops := s.ops.insert (a.anchor, a.migrationId) {
      authorization := sealed.authorization
      proof := some proof
      fence := none
      phase := .committed
      expiresAt := proof.body.forwardUntil
      liveBudget := backlogRemains }
    expires := s.expires.insert (proof.body.forwardUntil, (a.anchor, a.migrationId)) }

def firstCommit (key : AuthorizationKey) (now : ℕ) :
    Except StoreError (SourceStore × RecordEvidence) := do
  let a := sealed.authorization.body
  authError (H.verifySignatures sealed.authorization)
  context.admission
  let deadline ← (commitBounds a sealed.offer.body sealed.receipt.body now).mapError
    fun _ => .refusal .commitExpired
  match s.heads[a.anchor]? with
  | none => .error (.refusal .homeGenesisRequired)
  | some current => do
    refuseWhen (H.recordHash current.record ≠ a.previousHomeHash ∨
        checkedAdd current.record.epoch 1 ≠ some a.nextHomeEpoch ∨
        current.record.home ≠ (node.nodeId, node.publicKey)) (.refusal .baseMismatch)
    refuseWhen (maxChainRecords ≤ a.nextHomeEpoch) (.refusal .homeCheckpointRequired)
    context.reservation
    let evidence ← H.committedEvidence node sealed context now deadline
    match evidence.record with
    | .genesis _ => .error (.storage "migration commit produced genesis")
    | .committed _ proof =>
      pure (H.persistSourceCommit s sealed evidence proof key now context.backlogRemains, evidence)

/-- The transaction of `commit_home_migration`. A known answer commits nothing. -/
def commitTransaction (now : ℕ) : Except StoreError (SourceStore × RecordEvidence) := do
  let auth := sealed.authorization
  let now ← s.clock now
  let key ← H.authorizationKey auth
  let permanent ← H.permanentCommit s auth key
  match permanent with
  | some record => pure (s, record)
  | none => do
    refuseWhen (key ∈ s.fences) (.refusal .commitExpired)
    let previous ← H.previousOperation s auth
    match previous with
    | some record => pure (s, record)
    | none => H.firstCommit node s sealed context key now

/-- Authority over a cancellation, up to the deadline and after it. -/
def fenceAuthority (context : FenceContext) (now deadline : ℕ) : Except StoreError Unit :=
  if now ≤ deadline then
    match context.authority with
    | none => .error (.refusal .authorityUpdateRequired)
    | some authority => do
      authError (H.verifySignatures auth)
      authority
      match context.cancel with
      | none => .error (.refusal .commitOutcomeUnknown)
      | some cancel => cancel
  else authError (H.verifySignatures auth)

/-- First fence for an authorization. After the deadline nothing is stored but the clock. -/
def firstFence (context : FenceContext) (key : AuthorizationKey) (now : ℕ) :
    Except StoreError (SourceStore × FenceOutcome) := do
  let a := auth.body
  let deadline ← authError (hardDeadline a)
  H.fenceAuthority auth context now deadline
  match s.records[a.previousHomeHash]? with
  | none => .error (.refusal .baseMismatch)
  | some base => do
    refuseWhen (base.record.anchor ≠ a.anchor ∨
        base.record.home ≠ (node.nodeId, node.publicKey) ∨
        checkedAdd base.record.epoch 1 ≠ some a.nextHomeEpoch) (.refusal .baseMismatch)
    let authorizationHash ← storageError (H.messageHash auth)
    let fence := node.signFence {
      version := 1
      migrationId := a.migrationId
      authorizationHash
      sealHash := none
      fencedAt := now }
    if now ≤ deadline then
      pure ({ s with
        floor := now
        fences := s.fences.insert key fence
        fenceExpires := s.fenceExpires.insert (deadline, key) }, .fenced fence)
    else pure ({ s with floor := now }, .fenced fence)

def fenceTransaction
    (context : FenceContext) (now : ℕ) : Except StoreError (SourceStore × FenceOutcome) := do
  refuseWhen (auth.body.oldNode ≠ node.nodeId) (.refusal .baseMismatch)
  let now ← s.clock now
  let key ← H.authorizationKey auth
  match s.proofs[key]? with
  | some hash =>
    match s.records[hash]? with
    | none => .error (.storage "migration permanent proof unavailable")
    | some record => pure (s, .committed record)
  | none =>
    match s.fences[key]? with
    | some fence => pure (s, .fenced fence)
    | none => H.firstFence node s auth context key now

def terminalOutcome : Except StoreError (Option FenceOutcome) := do
  let key ← H.authorizationKey auth
  match s.proofs[key]? with
  | some hash =>
    match s.records[hash]? with
    | none => .error (.storage "migration permanent proof unavailable")
    | some record => pure (some (.committed record))
  | none => pure (s.fences[key]?.map .fenced)

/-- `fence_home_authorization`: it reads outcome and clock in two states and decides in a third. -/
def fenceHomeAuthorization (first second third : SourceStore) (auth : Signed Authorization)
    (context : FenceContext) (now : ℕ) : Except StoreError (SourceStore × FenceOutcome) := do
  let terminal ← H.terminalOutcome first auth
  match terminal with
  | some outcome => pure (third, outcome)
  | none => do
    let now := max now second.floor
    let deadline ← authError (hardDeadline auth.body)
    if deadline < now then H.fenceTransaction node third auth ⟨none, none⟩ now
    else H.fenceTransaction node third auth context now

end HomeCrypto

namespace SourceStore

def cleanupOperation (now : ℕ) (s : SourceStore) (entry : ℕ × (String × String)) : SourceStore :=
  let s := { s with expires := s.expires.erase entry }
  match s.ops[entry.2]? with
  | none => s
  | some op =>
    if now ≤ op.expiresAt ∨ op.phase ∉ [.prepared, .expired, .aborted, .active, .committed] then s
    else if op.phase = .committed ∧ op.liveBudget then
      { s with expires := s.expires.insert (satAdd now 60, entry.2) }
    else { s with ops := s.ops.erase entry.2 }

def cleanupFence (s : SourceStore) (entry : ℕ × AuthorizationKey) : SourceStore :=
  { s with
    fenceExpires := s.fenceExpires.erase entry
    fences := s.fences.erase entry.2 }

/-- `cleanup_home_migrations`: at most 128 rows of each index, all strictly before the clock. -/
def cleanup (s : SourceStore) (now : ℕ) : Except StoreError SourceStore := do
  let now ← s.clock now
  let s := { s with floor := now }
  let expired := (s.expires.toList.filter (·.1 < now)).take 128
  let s := expired.foldl (cleanupOperation now) s
  let fences := (s.fenceExpires.toList.filter (·.1 < now)).take 128
  pure (fences.foldl cleanupFence s)

end SourceStore

end Ramflux.Home
