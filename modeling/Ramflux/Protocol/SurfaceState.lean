import Ramflux.Lib.Fallible
import Ramflux.Lib.JsonTree
import Ramflux.Protocol.Types

/-! Projection of a streaming surface: versioned commands, final text components, and resynchronisation.
Text policy, web catalog, encodings, parsers and hash are parameters. -/
namespace Ramflux.Surfaces
open Fallible

abbrev Value := JsonTree JsonNumber

inductive SurfaceType
  | messageCard
  | approvalCard
  | formCard
  | statusPanel
  | taskCard
  | filePreview
  | callCard
  | agentResult
  | notificationCard
  deriving DecidableEq

structure CreateSurfaceCommand where
  surfaceId : String
  surfaceType : SurfaceType
  catalog : String
  catalogVersion : String
  fallbackText : String
  fallbackMarkdown : Option String
  components : List Value
  dataModel : OrdMap String Value
  allowedActions : List Value
  deriving DecidableEq

structure UpdateComponentsCommand where
  surfaceId : String
  baseSurfaceHash : String
  components : List Value
  removeComponentIds : List String
  newSurfaceHash : String

structure UpdateDataModelCommand where
  surfaceId : String
  baseSurfaceHash : String
  dataPatch : OrdMap String Value
  newSurfaceHash : String

/-- The reason of a deletion is not read. -/
structure DeleteSurfaceCommand where
  surfaceId : String

inductive SurfacePatchOp
  | replaceBlock (component : Value)
  | insertBlock (index : ℕ) (component : Value)
  | removeBlock (componentId : String)
  | setActions (actions : List Value)
  | setFallbackText (fallbackText : String)

structure PatchSurfaceCommand where
  surfaceId : String
  baseSurfaceHash : String
  ops : List SurfacePatchOp
  newSurfaceHash : String

structure StreamAppendCommand where
  surfaceId : String
  componentId : String
  textDelta : String
  final : Bool

inductive A2uiConversationCommand
  | createSurface (c : CreateSurfaceCommand)
  | updateComponents (c : UpdateComponentsCommand)
  | updateDataModel (c : UpdateDataModelCommand)
  | deleteSurface (c : DeleteSurfaceCommand)
  | patchSurface (c : PatchSurfaceCommand)
  | streamAppend (c : StreamAppendCommand)

def A2uiConversationCommand.surfaceId : A2uiConversationCommand → String
  | .createSurface c => c.surfaceId
  | .updateComponents c => c.surfaceId
  | .updateDataModel c => c.surfaceId
  | .deleteSurface c => c.surfaceId
  | .patchSurface c => c.surfaceId
  | .streamAppend c => c.surfaceId

structure A2uiConversationEvent where
  conversationId : String
  version : ℕ
  command : A2uiConversationCommand

inductive SurfaceLimit
  | blocks
  | actions
  | textCharacters
  | dataBytes
  | textDeltaBytes
  | nestingDepth
  | patchOperations
  | finalizedBlocks
  deriving DecidableEq

inductive SurfaceReject
  | notCreated
  | alreadyCreated
  | closed
  | wrongSurface
  | version (expected actual : ℕ)
  | versionExhausted
  | conflict
  | resultHashMismatch
  | limitExceeded (limit : SurfaceLimit)
  | invalidIdentifier
  | missingFallback
  | unsafeFallback
  | duplicateBlock
  | duplicateAction
  | unknownBlock
  | blockClosed
  | blockNotStreamable
  | invalidInsertPosition
  | invalidJson
  | webCatalog (path rule : String)
  | encoding
  deriving DecidableEq

def maxSurfaceBlocks : ℕ := 64
def maxSurfaceActions : ℕ := 16
def maxSurfaceTextChars : ℕ := 16384
def maxSurfaceDataBytes : ℕ := 16384
def maxSurfaceTextDeltaBytes : ℕ := 4096
def maxSurfacePatchOps : ℕ := maxSurfaceBlocks
def maxSurfaceFinalizedBlocks : ℕ := maxSurfaceBlocks
def maxSafeJsonInteger : ℕ := 9007199254740991

/-- `rf-web/v1`, whose surfaces need no fallback text. -/
def webCatalogName : String := "rf-web/v1"

def a2uiFinalComponent : String := "ramflux.a2ui.final_component.v1"
def a2uiFinalText : String := "ramflux.a2ui.final_text.v1"
def a2uiSurfaceHash : String := "ramflux.a2ui.surface_hash.v1"

structure FinalEntry where
  id : String
  nested : Bool
  textHash : String

structure Checkpoint where
  schema : String
  content : Option CreateSurfaceCommand
  conversationId : Option String
  version : ℕ
  closed : Bool
  finalText : List FinalEntry

structure ResyncMetadata where
  schema : String
  conversationId : String
  version : ℕ
  closed : Bool
  finalityBase64 : String

structure SurfaceRules where
  /-- domain, bytes -/
  hashBase64url : String → Bytes → String
  /-- `trim().is_empty()` -/
  isBlank : String → Bool
  freeTextIsSafe : String → Bool
  webCatalogValidate : CreateSurfaceCommand → Except SurfaceReject Unit
  /-- Canonical bytes of a snapshot within the limits on values. -/
  snapshotBytes : CreateSurfaceCommand → Except SurfaceReject Bytes
  parseCheckpoint : Bytes → Option Checkpoint
  parseMetadata : Bytes → Option ResyncMetadata
  checkpointBytes : Checkpoint → Option Bytes

def limitText (value : String) : Except SurfaceReject Unit := do
  refuseWhen (maxSurfaceDataBytes < (utf8 value).length) (.limitExceeded .dataBytes)
  refuseWhen (maxSurfaceTextChars < value.length) (.limitExceeded .textCharacters)

def identifier (value : String) : Except SurfaceReject Unit := do
  refuseWhen value.isEmpty .invalidIdentifier
  limitText value

def componentId (v : Value) : Except SurfaceReject String :=
  match (v.get "id").bind JsonTree.asStr with
  | some id => if id.isEmpty then .error .invalidIdentifier else .ok id
  | none => .error .invalidIdentifier

def actionId (v : Value) : Except SurfaceReject String :=
  let name := (v.get "name").bind JsonTree.asStr
  let id := (v.get "id").bind JsonTree.asStr
  if name.isSome ∧ id.isSome ∧ name ≠ id then .error .invalidIdentifier
  else
    match (v.asStr.or name).or id with
    | some id => if id.isEmpty then .error .invalidIdentifier else .ok id
    | none => .error .invalidIdentifier

/-- Identifiers that are all there and distinct. -/
def distinctIds (idOf : Value → Except SurfaceReject String) (duplicate : SurfaceReject) (values : List Value) :
    Except SurfaceReject (OrdSet String) :=
  values.foldlM (fun ids v => do
    let id ← idOf v
    refuseWhen (id ∈ ids) duplicate
    pure (ids.insert id)) ∅

def validatedHash (rules : SurfaceRules) (content : CreateSurfaceCommand) : Except SurfaceReject String := do
  refuseWhen (maxSurfaceBlocks < content.components.length) (.limitExceeded .blocks)
  refuseWhen (maxSurfaceActions < content.allowedActions.length) (.limitExceeded .actions)
  identifier content.surfaceId
  refuseWhen (content.catalog ≠ webCatalogName ∧ rules.isBlank content.fallbackText) .missingFallback
  refuseWhen (¬ rules.freeTextIsSafe content.fallbackText) .unsafeFallback
  let _ ← distinctIds componentId .duplicateBlock content.components
  let _ ← distinctIds actionId .duplicateAction content.allowedActions
  rules.webCatalogValidate content
  let bytes ← rules.snapshotBytes content
  pure (rules.hashBase64url a2uiSurfaceHash bytes)

structure FinalText where
  nested : Bool
  textHash : String
  deriving DecidableEq

structure SurfaceState where
  content : Option CreateSurfaceCommand
  hash : Option String
  conversationId : Option String
  version : ℕ
  closed : Bool
  finalComponents : OrdMap String FinalText

def SurfaceState.default : SurfaceState := ⟨none, none, none, 0, false, ∅⟩

/-- `component.pointer("/data/text")`. -/
def dataText (component : Value) : Option Value := (component.get "data").bind (·.get "text")

/-- Text of a component, and whether it is nested in its data. -/
def streamText (component : Value) : Option (Bool × String) :=
  match component.get "text" with
  | some value => value.asStr.map (false, ·)
  | none => ((dataText component).bind JsonTree.asStr).map (true, ·)

section
variable (rules : SurfaceRules)

def finalComponentKey (id : String) : String := rules.hashBase64url a2uiFinalComponent (utf8 id)

def finalTextHash (text : String) : String := rules.hashBase64url a2uiFinalText (utf8 text)

def FinalText.matches (entry : FinalText) (component : Value) : Bool :=
  (streamText component).any fun (nested, text) => nested = entry.nested ∧ finalTextHash rules text = entry.textHash

/-- No component differs from the final text kept for its identifier. -/
def checkFinal (finals : OrdMap String FinalText) (components : List Value) : Except SurfaceReject Unit :=
  components.forM fun component => do
    let id ← componentId component
    match finals[finalComponentKey rules id]? with
    | some entry => refuseWhen (¬ entry.matches rules component) .blockClosed
    | none => pure ()

end

def position (components : List Value) (id : String) : Option ℕ :=
  components.findIdx? fun v => componentId v = .ok id

def remove (components : List Value) (id : String) : Except SurfaceReject (List Value) :=
  match position components id with
  | some index => .ok (components.eraseIdx index)
  | none => .error .unknownBlock

/-- One removal of `updateComponents`, with the identifiers named so far. -/
def removeNamed (state : List Value × OrdSet String) (id : String) :
    Except SurfaceReject (List Value × OrdSet String) := do
  refuseWhen (id ∈ state.2) .duplicateBlock
  let components ← remove state.1 id
  pure (components, state.2.insert id)

/-- One component of `updateComponents`: replaced where it is, or added at the end. -/
def putNamed (state : List Value × OrdSet String) (component : Value) :
    Except SurfaceReject (List Value × OrdSet String) := do
  let id ← componentId component
  refuseWhen (id ∈ state.2) .duplicateBlock
  let components := match position state.1 id with
    | some index => state.1.set index component
    | none => state.1 ++ [component]
  pure (components, state.2.insert id)

variable (content : CreateSurfaceCommand)

def updateComponents (update : UpdateComponentsCommand) :
    Except SurfaceReject CreateSurfaceCommand := do
  refuseWhen (maxSurfacePatchOps < update.components.length + update.removeComponentIds.length)
    (.limitExceeded .patchOperations)
  let removed ← update.removeComponentIds.foldlM removeNamed (content.components, ∅)
  let (components, _) ← update.components.foldlM putNamed removed
  pure { content with components }

/-- Top-level merge: null removes a member. -/
def updateDataModel (update : UpdateDataModelCommand) : CreateSurfaceCommand :=
  { content with dataModel := update.dataPatch.toList.foldl (fun model member =>
      if member.2 = .null then model.erase member.1 else model.insert member.1 member.2) content.dataModel }

def patchOne : SurfacePatchOp → Except SurfaceReject CreateSurfaceCommand
  | .replaceBlock component => do
    let id ← componentId component
    match position content.components id with
    | some index => pure { content with components := content.components.set index component }
    | none => .error .unknownBlock
  | .insertBlock index component => do
    let id ← componentId component
    refuseWhen (position content.components id).isSome .duplicateBlock
    refuseWhen (content.components.length < index) .invalidInsertPosition
    pure { content with components := content.components.insertIdx index component }
  | .removeBlock id => do
    let components ← remove content.components id
    pure { content with components }
  | .setActions actions => .ok { content with allowedActions := actions }
  | .setFallbackText fallbackText => .ok { content with fallbackText }

def patchSurface (patch : PatchSurfaceCommand) : Except SurfaceReject CreateSurfaceCommand := do
  refuseWhen (maxSurfacePatchOps < patch.ops.length) (.limitExceeded .patchOperations)
  patch.ops.foldlM patchOne content

/-- The component with its text replaced. -/
def writeText (component : Value) (text : String) : Value :=
  match component.get "text" with
  | some _ => component.set "text" (.string text)
  | none =>
    match component.get "data" with
    | some data => component.set "data" (data.set "text" (.string text))
    | none => component

def appendText (rules : SurfaceRules) (components : List Value) (append : StreamAppendCommand)
    (finals : OrdMap String FinalText) : Except SurfaceReject (List Value × OrdMap String FinalText) := do
  refuseWhen (finalComponentKey rules append.componentId ∈ finals) .blockClosed
  refuseWhen (maxSurfaceTextDeltaBytes < (utf8 append.textDelta).length) (.limitExceeded .textDeltaBytes)
  match position components append.componentId with
  | none => .error .unknownBlock
  | some index =>
    let component := components.getD index .null
    match streamText component with
    | none => .error .blockNotStreamable
    | some (nested, text) =>
      refuseWhen (maxSurfaceDataBytes < (utf8 text).length + (utf8 append.textDelta).length)
        (.limitExceeded .dataBytes)
      refuseWhen (maxSurfaceTextChars < text.length + append.textDelta.length) (.limitExceeded .textCharacters)
      let components := components.set index (writeText component (text ++ append.textDelta))
      if append.final then
        refuseWhen (maxSurfaceFinalizedBlocks ≤ finals.size) (.limitExceeded .finalizedBlocks)
        pure (components, finals.insert (finalComponentKey rules append.componentId)
          ⟨nested, finalTextHash rules (text ++ append.textDelta)⟩)
      else pure (components, finals)

namespace SurfaceState

def base (s : SurfaceState) (hash : String) : Except SurfaceReject Unit :=
  refuseWhen (s.hash ≠ some hash) .conflict

/-- `update`: the next state, and the hash the command declares. -/
def update (rules : SurfaceRules) (s : SurfaceState) (content : CreateSurfaceCommand) :
    A2uiConversationCommand → Except SurfaceReject (SurfaceState × Option String)
  | .updateComponents update => do
    s.base update.baseSurfaceHash
    let content ← updateComponents content update
    pure ({ s with content := some content }, some update.newSurfaceHash)
  | .updateDataModel update => do
    s.base update.baseSurfaceHash
    pure ({ s with content := some (updateDataModel content update) }, some update.newSurfaceHash)
  | .patchSurface patch => do
    s.base patch.baseSurfaceHash
    let content ← patchSurface content patch
    pure ({ s with content := some content }, some patch.newSurfaceHash)
  | .streamAppend append => do
    let (components, finals) ← appendText rules content.components append s.finalComponents
    pure ({ s with content := some { content with components }, finalComponents := finals }, none)
  | .deleteSurface _ => .ok ({ s with closed := true }, none)
  | .createSurface _ => .error .alreadyCreated

/-- Command of an event on the current content. -/
def command (rules : SurfaceRules) (s : SurfaceState) (event : A2uiConversationEvent) :
    Except SurfaceReject (SurfaceState × Option String) :=
  match s.content, event.command with
  | none, .createSurface content =>
    .ok ({ s with content := some content, conversationId := some event.conversationId }, none)
  | none, _ => .error .notCreated
  | some _, .createSurface _ => .error .alreadyCreated
  | some content, command => do
    refuseWhen (s.conversationId ≠ some event.conversationId ∨ command.surfaceId ≠ content.surfaceId) .wrongSurface
    s.update rules content command

def apply (rules : SurfaceRules) (s : SurfaceState) (event : A2uiConversationEvent) :
    Except SurfaceReject SurfaceState := do
  refuseWhen s.closed .closed
  refuseWhen (maxSafeJsonInteger ≤ s.version) .versionExhausted
  refuseWhen (event.version ≠ s.version + 1) (.version (s.version + 1) event.version)
  identifier event.conversationId
  let (next, declaredHash) ← s.command rules event
  match next.content with
  | none => .error .notCreated
  | some content =>
    checkFinal rules next.finalComponents content.components
    let hash ← validatedHash rules content
    refuseWhen (declaredHash.any (· ≠ hash)) .resultHashMismatch
    pure { next with version := event.version, hash := some hash }

end SurfaceState

def checkpointSchema : String := "ramflux.a2ui.checkpoint.v2"
def resyncMetadataSchema : String := "ramflux.a2ui.resync_metadata.v1"

def digest (text : String) : Except SurfaceReject Unit :=
  refuseWhen ((decodeBase64url text).map List.length ≠ some 32) .invalidJson

/-- One entry of a checkpoint's finality. -/
def addFinal (finals : OrdMap String FinalText) (entry : FinalEntry) :
    Except SurfaceReject (OrdMap String FinalText) := do
  digest entry.id
  digest entry.textHash
  refuseWhen (entry.id ∈ finals) .duplicateBlock
  pure (finals.insert entry.id ⟨entry.nested, entry.textHash⟩)

def fromCheckpointBytes (rules : SurfaceRules) (bytes : Bytes) : Except SurfaceReject SurfaceState := do
  refuseWhen (256 * 1024 < bytes.length) .invalidJson
  match rules.parseCheckpoint bytes with
  | none => .error .invalidJson
  | some saved =>
    refuseWhen (saved.schema ≠ checkpointSchema ∨ maxSafeJsonInteger < saved.version) .invalidJson
    refuseWhen (maxSurfaceFinalizedBlocks < saved.finalText.length) (.limitExceeded .finalizedBlocks)
    match saved.content with
    | none =>
      refuseWhen (saved.conversationId.isSome ∨ saved.version ≠ 0 ∨ saved.closed ∨ ¬ saved.finalText.isEmpty)
        .invalidJson
      pure .default
    | some content =>
      refuseWhen (saved.version = 0) .invalidJson
      match saved.conversationId with
      | none => .error .invalidIdentifier
      | some conversation =>
        identifier conversation
        let hash ← validatedHash rules content
        let finalComponents ← saved.finalText.foldlM addFinal ∅
        checkFinal rules finalComponents content.components
        pure {
          content := some content
          hash := some hash
          conversationId := some conversation
          version := saved.version
          closed := saved.closed
          finalComponents }

/-- Carry a known final text over to the incoming state. -/
def keepFinal (finals : OrdMap String FinalText) (known : String × FinalText) :
    Except SurfaceReject (OrdMap String FinalText) := do
  refuseWhen (finals[known.1]?.any (· ≠ known.2)) .blockClosed
  pure (finals.insert known.1 known.2)

namespace SurfaceState

def resynchronize (rules : SurfaceRules) (s : SurfaceState) (event : A2uiConversationEvent) (checkpoint : Bytes) :
    Except SurfaceReject SurfaceState := do
  let next ← fromCheckpointBytes rules checkpoint
  match event.command with
  | .createSurface content =>
    refuseWhen (next.version ≠ event.version ∨ next.conversationId ≠ some event.conversationId ∨
      next.content ≠ some content) .wrongSurface
    refuseWhen (next.version < s.version ∨ s.conversationId.any (· ≠ event.conversationId) ∨
      s.content.any (·.surfaceId ≠ content.surfaceId)) .wrongSurface
    refuseWhen (s.closed ∧ (next.version ≠ s.version ∨ next.hash ≠ s.hash ∨ ¬ next.closed)) .closed
    refuseWhen (0 < s.version ∧ next.version = s.version ∧ (next.hash ≠ s.hash ∨ next.closed ≠ s.closed)) .conflict
    let finals ← s.finalComponents.toList.foldlM keepFinal next.finalComponents
    refuseWhen (maxSurfaceFinalizedBlocks < finals.size) (.limitExceeded .finalizedBlocks)
    checkFinal rules finals content.components
    pure { next with finalComponents := finals }
  | _ => .error .wrongSurface

end SurfaceState

/-- One packed entry: key, nesting, text hash. -/
def unpackFinal (entry : Bytes) : Except SurfaceReject FinalEntry := do
  refuseWhen (1 < entry.getD 32 0) .invalidJson
  pure ⟨encodeBase64url (entry.take 32), entry.getD 32 0 = 1, encodeBase64url (entry.drop 33)⟩

def chunks65 (packed : Bytes) : List Bytes :=
  (List.range (packed.length / 65)).map fun i => (packed.drop (65 * i)).take 65

namespace SurfaceState

def resynchronizeCompact (rules : SurfaceRules) (s : SurfaceState) (event : A2uiConversationEvent)
    (metadata : Bytes) : Except SurfaceReject SurfaceState := do
  refuseWhen (maxSurfaceDataBytes < metadata.length) .invalidJson
  match rules.parseMetadata metadata, event.command with
  | none, _ => .error .invalidJson
  | some metadata, .createSurface content =>
    refuseWhen (metadata.schema ≠ resyncMetadataSchema ∨ metadata.conversationId ≠ event.conversationId ∨
      metadata.version ≠ event.version) .wrongSurface
    match decodeBase64url metadata.finalityBase64 with
    | none => .error .invalidJson
    | some packed =>
      refuseWhen (packed.length % 65 ≠ 0 ∨ maxSurfaceFinalizedBlocks < packed.length / 65) .invalidJson
      let finalText ← (chunks65 packed).mapM unpackFinal
      match rules.checkpointBytes {
        schema := checkpointSchema
        content := some content
        conversationId := some metadata.conversationId
        version := metadata.version
        closed := metadata.closed
        finalText } with
      | none => .error .encoding
      | some bytes => s.resynchronize rules event bytes
  | some _, _ => .error .wrongSurface

end SurfaceState
end Ramflux.Surfaces
