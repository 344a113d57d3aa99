import Ramflux.Lib.Fallible
import Ramflux.Protocol.Types

/-! Tasks of a conversation: signed events, their validation, and the reducer. Text policy, encoding and
signatures are parameters. Revisions stay below `2 ^ 53`. -/
namespace Ramflux.Tasks
open Fallible

/-- Lifecycle shared by tasks and their steps. -/
inductive TaskStatus
  | proposed
  | running
  | needsMe
  | done
  | failed
  | cancelled
  deriving DecidableEq

def TaskStatus.isTerminal : TaskStatus → Bool
  | .done | .failed | .cancelled => true
  | _ => false

/-- An approval grant or a declarative surface. -/
inductive NeedsMe
  | approval (grantId : String)
  | choice (surfaceId : String)
  | input (surfaceId : String)
  deriving DecidableEq

def NeedsMe.targetId : NeedsMe → String
  | .approval grantId => grantId
  | .choice surfaceId => surfaceId
  | .input surfaceId => surfaceId

structure TaskStep where
  id : String
  title : String
  state : TaskStatus
  needsMe : Option NeedsMe
  deriving DecidableEq

structure TaskStart where
  taskId : String
  conversationId : String
  requester : String
  assignee : String
  text : String
  constraints : Option String

structure TaskProposal where
  taskId : String
  conversationId : String
  proposer : String
  assignee : String
  title : String
  steps : List TaskStep

structure TaskAccept where
  taskId : String
  version : ℕ

structure TaskDecline where
  taskId : String
  version : ℕ

structure TaskUpdate where
  taskId : String
  version : ℕ
  state : TaskStatus
  steps : List TaskStep
  resultRef : Option String
  resultSummary : Option String

structure TaskCancel where
  taskId : String
  baseRevision : ℕ

inductive TaskDecision
  | resume
  | deny
  deriving DecidableEq

/-- Receipt of a human decision about an intervention. -/
structure TaskResolve where
  taskId : String
  baseRevision : ℕ
  stepId : String
  target : NeedsMe
  decisionId : String
  decision : TaskDecision

inductive TaskEventBody
  | start (v : TaskStart)
  | proposal (v : TaskProposal)
  | accept (v : TaskAccept)
  | decline (v : TaskDecline)
  | update (v : TaskUpdate)
  | cancel (v : TaskCancel)
  | resolve (v : TaskResolve)

namespace TaskEventBody

def baseRevision : TaskEventBody → Option ℕ
  | .cancel v => some v.baseRevision
  | .resolve v => some v.baseRevision
  | _ => none

def taskId : TaskEventBody → String
  | .start v => v.taskId
  | .proposal v => v.taskId
  | .accept v => v.taskId
  | .decline v => v.taskId
  | .update v => v.taskId
  | .cancel v => v.taskId
  | .resolve v => v.taskId

def version : TaskEventBody → ℕ
  | .start _ => 1
  | .proposal _ => 1
  | .accept v => v.version
  | .decline v => v.version
  | .update v => v.version
  | .cancel v => v.baseRevision
  | .resolve v => v.baseRevision

end TaskEventBody

/-- Signature of an event; its algorithm has one value. -/
structure SignedFields where
  signingKeyId : String
  signature : String

structure TaskEvent where
  schema : String
  version : UInt32
  domain : String
  ext : Ext
  signed : SignedFields
  conversationId : String
  event : TaskEventBody

inductive ActorType
  | human
  | bot
  | workflow
  | system
  deriving DecidableEq

/-- The caller's authenticated identity and role. -/
structure TaskSigner where
  principalId : String
  actorType : ActorType
  signingKeyId : String
  publicKeyBase64url : String

inductive TaskDecisionChange
  | closed
  | targetChanged
  | newerThanObserved
  deriving DecidableEq

inductive TaskReject
  | invalidSchema
  | invalidDomain
  | invalidField (name : String)
  | eventTooLarge
  | tooManySteps
  | duplicateStep
  | needsMeMismatch
  | multipleNeedsMe
  | invalidVersion
  | staleVersion (expected actual : ℕ)
  | wrongSigner
  | invalidSignature
  | humanRequired
  | agentRequired
  | alreadyExists
  | notFound
  | contextMismatch
  | terminal
  | illegalTransition
  | humanDecisionPending
  | decisionMismatch
  | staleDecision (stepId : String) (change : TaskDecisionChange)
  | decisionReplay
  | protocol (error : ProtocolError)
  deriving DecidableEq

/-- Text policy, encodings and signatures. -/
structure TaskRules extends TextRules where
  /-- `trim().lines().next().unwrap_or_default()` -/
  firstLine : String → String
  freeTextIsSafe : String → Bool
  canonicalJsonBytes : TaskEvent → Except ProtocolError Bytes
  signedBytes : TaskEvent → Except ProtocolError Bytes
  verifySignedFields : TaskEvent → SignedFields → String → Except ProtocolError Unit

def maxTaskSteps : ℕ := 64
def maxTaskTitleChars : ℕ := 256
def maxTaskTextChars : ℕ := 16384
def maxTaskEventBytes : ℕ := 65536
def maxTaskVersion : ℕ := 9007199254740991

def taskEventSchema : String := "ramflux.task_event.v1"
def taskEventDomain : String := "ramflux.task_event.v1"

section
variable (rules : TaskRules)

def field (value name : String) (max : ℕ) : Except TaskReject Unit :=
  refuseWhen (rules.blank value ∨ max < value.length ∨ ¬ rules.singleLineIsSafe value) (.invalidField name)

def freeText (value name : String) : Except TaskReject Unit :=
  refuseWhen (rules.blank value ∨ maxTaskTextChars < value.length ∨ ¬ rules.freeTextIsSafe value)
    (.invalidField name)

/-- One round of `steps`: the identifiers so far, and the number of open interventions. -/
def checkStep (seen : OrdSet String × ℕ) (step : TaskStep) : Except TaskReject (OrdSet String × ℕ) := do
  field rules step.id "step.id" 256
  field rules step.title "step.title" maxTaskTitleChars
  refuseWhen (step.id ∈ seen.1) .duplicateStep
  refuseWhen (¬ (step.state = .needsMe ↔ step.needsMe.isSome)) .needsMeMismatch
  match step.needsMe with
  | some target =>
    field rules target.targetId "needs_me.target" 256
    pure (seen.1.insert step.id, seen.2 + 1)
  | none => pure (seen.1.insert step.id, seen.2)

def steps (values : List TaskStep) : Except TaskReject Unit := do
  refuseWhen (maxTaskSteps < values.length) .tooManySteps
  let (_, pending) ← values.foldlM (checkStep rules) (∅, 0)
  refuseWhen (1 < pending) .multipleNeedsMe

/-- Limits of an event's body. -/
def validateBody (conversationId : String) : TaskEventBody → Except TaskReject Unit
  | .start v => do
    refuseWhen (v.conversationId ≠ conversationId) .contextMismatch
    field rules v.requester "requester" 256
    field rules v.assignee "assignee" 256
    freeText rules v.text "text"
    match v.constraints with
    | some text => freeText rules text "constraints"
    | none => pure ()
  | .proposal v => do
    refuseWhen (v.conversationId ≠ conversationId) .contextMismatch
    field rules v.proposer "proposer" 256
    field rules v.assignee "assignee" 256
    field rules v.title "title" maxTaskTitleChars
    steps rules v.steps
  | .update v => do
    steps rules v.steps
    match v.resultSummary with
    | some summary =>
      freeText rules summary "result_summary"
      refuseWhen (4096 < summary.length) (.invalidField "result_summary")
    | none => pure ()
    match v.resultRef with
    | some reference => field rules reference "result_ref" 256
    | none => pure ()
  | .resolve v => do
    field rules v.stepId "step_id" 256
    field rules v.target.targetId "needs_me.target" 256
    field rules v.decisionId "decision_id" 256
  | .accept _ => pure ()
  | .decline _ => pure ()
  | .cancel _ => pure ()

def TaskEvent.validate (event : TaskEvent) : Except TaskReject Unit := do
  refuseWhen (event.schema ≠ taskEventSchema ∨ event.version ≠ 1) .invalidSchema
  refuseWhen (event.domain ≠ taskEventDomain) .invalidDomain
  field rules event.conversationId "conversation_id" 256
  field rules event.event.taskId "task_id" 256
  field rules event.signed.signingKeyId "signing_key_id" 256
  refuseWhen (¬ (1 ≤ event.event.version ∧ event.event.version ≤ maxTaskVersion)) .invalidVersion
  validateBody rules event.conversationId event.event
  let bytes ← (rules.canonicalJsonBytes event).mapError TaskReject.protocol
  refuseWhen (maxTaskEventBytes < bytes.length) .eventTooLarge
  let _ ← (rules.signedBytes event).mapError TaskReject.protocol

def TaskEvent.verify (event : TaskEvent) (signer : TaskSigner) : Except TaskReject Unit := do
  event.validate rules
  refuseWhen (signer.principalId.isEmpty ∨ event.signed.signingKeyId ≠ signer.signingKeyId) .wrongSigner
  (rules.verifySignedFields event event.signed signer.publicKeyBase64url).mapError
    fun _ => TaskReject.invalidSignature

end

/-- A proposal is provisional until `accepted` is true. -/
structure Task where
  taskId : String
  conversationId : String
  requester : Option String
  proposer : Option String
  assignee : String
  title : String
  text : Option String
  constraints : Option String
  version : ℕ
  state : TaskStatus
  steps : List TaskStep
  resultRef : Option String
  resultSummary : Option String
  accepted : Bool
  deriving DecidableEq

structure TaskState where
  task : Option Task
  decisions : OrdSet String
  approvals : OrdSet String
  pendingSince : OrdMap String ℕ

def TaskState.default : TaskState := ⟨none, ∅, ∅, ∅⟩

def human (signer : TaskSigner) : Except TaskReject Unit :=
  refuseWhen (signer.actorType ≠ .human) .humanRequired

def requester (task : Task) (signer : TaskSigner) : Except TaskReject Unit := do
  human signer
  refuseWhen (task.requester ≠ some signer.principalId) .wrongSigner

def cancelUnfinished (steps : List TaskStep) : List TaskStep :=
  steps.map fun step => { step with
    state := if step.state.isTerminal then step.state else .cancelled
    needsMe := none }

variable (task : Task)

def answer (signer : TaskSigner) (accepted : Bool) : Except TaskReject Task := do
  human signer
  refuseWhen (task.state ≠ .proposed) .illegalTransition
  refuseWhen (task.proposer = some signer.principalId) .wrongSigner
  pure { task with
    requester := some signer.principalId
    accepted
    state := if accepted then .running else .cancelled
    steps := if accepted then task.steps else cancelUnfinished task.steps }

def cancel (signer : TaskSigner) : Except TaskReject Task := do
  requester task signer
  pure { task with state := .cancelled, steps := cancelUnfinished task.steps }

/-- What an update may do to a step. -/
def checkUpdated (update : TaskUpdate) (old : TaskStep) : Except TaskReject Unit :=
  match update.steps.find? (·.id == old.id) with
  | none => .error (if old.needsMe.isSome then .humanDecisionPending else .illegalTransition)
  | some new => do
    refuseWhen (old.needsMe.isSome ∧ old ≠ new) .humanDecisionPending
    refuseWhen (old.state.isTerminal ∧ old ≠ new) .illegalTransition
    refuseWhen (old.state = .running ∧ new.state = .proposed) .illegalTransition

/-- The intervention opened or kept by an update asks for a grant that was already used. -/
def replaysApproval (approvals : OrdSet String) : Option NeedsMe → Bool
  | some (.approval grantId) => grantId ∈ approvals
  | _ => false

def updateTask (update : TaskUpdate) (approvals : OrdSet String) : Except TaskReject Task := do
  refuseWhen (update.state ∉ [.running, .needsMe, .done, .failed]) .illegalTransition
  let pending := update.steps.find? (·.needsMe.isSome)
  refuseWhen (¬ (update.state = .needsMe ↔ pending.isSome)) .needsMeMismatch
  task.steps.forM (checkUpdated update)
  refuseWhen (replaysApproval approvals (pending.bind (·.needsMe))) .decisionReplay
  refuseWhen (update.state = .done ∧ update.steps.any (·.state ≠ .done)) .illegalTransition
  refuseWhen (update.state = .failed ∧ update.steps.any (¬ ·.state.isTerminal)) .illegalTransition
  refuseWhen ((update.resultRef.isSome ∨ update.resultSummary.isSome) ∧ ¬ update.state.isTerminal)
    .illegalTransition
  pure { task with
    state := update.state
    steps := update.steps
    resultRef := update.resultRef
    resultSummary := update.resultSummary }

def validateResolution (decision : TaskResolve) (pendingSince : OrdMap String ℕ) :
    Except TaskReject Unit :=
  match task.steps.find? (·.id == decision.stepId) with
  | none => .error .decisionMismatch
  | some step =>
    if step.needsMe = none then .error (.staleDecision decision.stepId .closed)
    else if step.needsMe ≠ some decision.target then .error (.staleDecision decision.stepId .targetChanged)
    else if pendingSince[decision.stepId]?.all (decision.baseRevision < ·) then
      .error (.staleDecision decision.stepId .newerThanObserved)
    else .ok ()

def modifyFirst {α : Type} (p : α → Bool) (f : α → α) : List α → Option (List α)
  | [] => none
  | a :: l => if p a then some (f a :: l) else (a :: ·) <$> modifyFirst p f l

/-- Status that a decision gives to its step and to the task. -/
def TaskDecision.outcome : TaskDecision → TaskStatus
  | .resume => .running
  | .deny => .failed

/-- A step after the decision on its intervention. -/
def TaskStep.decided (step : TaskStep) (decision : TaskDecision) : TaskStep :=
  { step with needsMe := none, state := decision.outcome }

def resolve (decision : TaskResolve) : Except TaskReject Task :=
  if task.state ≠ .needsMe then .error .decisionMismatch
  else
    match modifyFirst (fun step => step.id = decision.stepId ∧ step.needsMe = some decision.target)
      (·.decided decision.decision) task.steps with
    | none => .error .decisionMismatch
    | some steps => .ok { task with
        steps := if decision.decision = .resume then steps else cancelUnfinished steps
        state := decision.decision.outcome }

namespace TaskState

variable (rules : TaskRules) (s : TaskState) (event : TaskEvent) (signer : TaskSigner)

/-- The reaction of a task that exists: the task, and the identifiers used up. -/
def react (task : Task) (signer : TaskSigner) :
    TaskEventBody → Except TaskReject (Task × OrdSet String × OrdSet String)
  | .accept _ => do
    let task ← answer task signer true
    pure (task, s.decisions, s.approvals)
  | .decline _ => do
    let task ← answer task signer false
    pure (task, s.decisions, s.approvals)
  | .cancel _ => do
    let task ← cancel task signer
    pure (task, s.decisions, s.approvals)
  | .update update => do
    refuseWhen (signer.principalId ≠ task.assignee) .wrongSigner
    refuseWhen (¬ task.accepted) .illegalTransition
    let task ← updateTask task update s.approvals
    pure (task, s.decisions, s.approvals)
  | .resolve resolution => do
    requester task signer
    refuseWhen (resolution.decisionId ∈ s.decisions) .decisionReplay
    validateResolution task resolution s.pendingSince
    let task ← resolve task resolution
    let approvals := match resolution.target with
      | .approval grantId => s.approvals.insert grantId
      | _ => s.approvals
    pure (task, s.decisions.insert resolution.decisionId, approvals)
  | .start _ => .error .alreadyExists
  | .proposal _ => .error .alreadyExists

/-- Interventions that are still open keep their revision; new ones get the given one. -/
def trackPending (pendingSince : OrdMap String ℕ) (steps : List TaskStep) (expected : ℕ) : OrdMap String ℕ :=
  (steps.filter (·.needsMe.isSome)).foldl (fun m step => m.insertIfNew step.id expected)
    (pendingSince.filter fun id _ => steps.any fun step => step.id == id && step.needsMe.isSome)

/-- A Cancel or Resolve is of the current revision or before; other events name the next. -/
def checkRevision (task : Task) (body : TaskEventBody) : Except TaskReject Unit :=
  match body.baseRevision with
  | some base => refuseWhen (task.version < base) (.staleVersion task.version base)
  | none => refuseWhen (body.version ≠ task.version + 1) (.staleVersion (task.version + 1) body.version)

def initializeStart (v : TaskStart) : Except TaskReject TaskState := do
  human signer
  refuseWhen (signer.principalId ≠ v.requester) .wrongSigner
  let task : Task := {
    taskId := v.taskId
    conversationId := v.conversationId
    requester := some v.requester
    proposer := none
    assignee := v.assignee
    title := String.ofList ((rules.firstLine v.text).toList.take 256)
    text := some v.text
    constraints := v.constraints
    version := 1
    state := .running
    steps := []
    resultRef := none
    resultSummary := none
    accepted := true }
  pure { s with task := some task }

def initializeProposal (v : TaskProposal) : Except TaskReject TaskState := do
  refuseWhen (signer.actorType ∉ [.bot, .workflow]) .agentRequired
  refuseWhen (signer.principalId ≠ v.proposer) .wrongSigner
  refuseWhen (v.steps.any (·.state ≠ .proposed)) .illegalTransition
  let task : Task := {
    taskId := v.taskId
    conversationId := v.conversationId
    requester := none
    proposer := some v.proposer
    assignee := v.assignee
    title := v.title
    text := none
    constraints := none
    version := 1
    state := .proposed
    steps := v.steps
    resultRef := none
    resultSummary := none
    accepted := false }
  pure { s with task := some task }

/-- An event of a task that exists. -/
def advance : Except TaskReject TaskState :=
  match s.task with
  | none => .error .notFound
  | some task => do
    refuseWhen (task.taskId ≠ event.event.taskId ∨ task.conversationId ≠ event.conversationId) .contextMismatch
    refuseWhen task.state.isTerminal .terminal
    refuseWhen (maxTaskVersion < task.version + 1) .invalidVersion
    checkRevision task event.event
    let (next, decisions, approvals) ← s.react task signer event.event
    pure {
      task := some { next with version := task.version + 1 }
      decisions
      approvals
      pendingSince := trackPending s.pendingSince next.steps (task.version + 1) }

def reduce : Except TaskReject TaskState :=
  match event.event with
  | .start v => if s.task.isSome then .error .alreadyExists else initializeStart rules s signer v
  | .proposal v => if s.task.isSome then .error .alreadyExists else initializeProposal s signer v
  | _ => s.advance event signer

def apply :
    Except TaskReject TaskState := do
  event.verify rules signer
  let next ← s.reduce rules event signer
  refuseWhen next.task.isNone .notFound
  pure next

end TaskState

end Ramflux.Tasks
