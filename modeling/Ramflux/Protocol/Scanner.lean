import Ramflux.Protocol.Wire

/-! Traversal of a message by its descriptor, before decoding can discard anything. -/
namespace Ramflux.Message
open Wire

def maxInnerBytes : ℕ := 524252
def maxDepth : ℕ := 32
def maxTextBytes : ℕ := 256 * 1024
def maxEntities : ℕ := 4096
def maxMedia : ℕ := 32
def maxReactionBytes : ℕ := 64

inductive ScanOutcome
  | supported
  | unsupported
  deriving DecidableEq

inductive Kind
  | double
  | float
  | int32
  | int64
  | uint32
  | uint64
  | sint32
  | sint64
  | fixed32
  | fixed64
  | sfixed32
  | sfixed64
  | bool
  | string
  | bytes
  | message (name : String)
  | enum (values : List ℤ)
  deriving DecidableEq

/-- A singular field may know whether it is present. -/
inductive Cardinality
  | singular (presence : Bool)
  | list
  | map
  deriving DecidableEq

structure FieldDescriptor where
  number : ℕ
  name : String
  kind : Kind
  cardinality : Cardinality
  oneof : Option String
  deriving DecidableEq

structure Oneof where
  fullName : String
  synthetic : Bool

structure MessageDescriptor where
  name : String
  fields : List FieldDescriptor
  oneofs : List Oneof

def MessageDescriptor.getField (d : MessageDescriptor) (tag : ℕ) : Option FieldDescriptor :=
  d.fields.find? (·.number = tag)

/-- Fields of the message that stands for an entry of a map from strings to scalars. -/
def entryFields (value : Kind) : List FieldDescriptor :=
  [⟨1, "key", .string, .singular false, none⟩, ⟨2, "value", value, .singular false, none⟩]

/-- Descriptors, field registry, and what the scan takes from other crates. Maps go to scalars. -/
structure Schema where
  message : String → Option MessageDescriptor
  fieldLayer : String → ℕ → Option ℕ
  /-- Extended grapheme clusters of a text. -/
  graphemes : String → ℕ
  /-- Whether a JSON text is a number, and the text that is written for its value. -/
  jsonValue : String → Option (Bool × String)
  iJson : String → Bool
  distinct : ∀ name d, message name = some d → (d.fields.map (·.number)).Nodup
  entries : ∀ name d, message name = some d → ∀ f ∈ d.fields, f.cardinality = .map →
    ∃ entry d' value, f.kind = .message entry ∧ message entry = some d' ∧
      d'.fields = entryFields value ∧ ∀ inner, value ≠ .message inner

/-- `Control.operation` and the tag of its payload. -/
def controls : List (ℕ × ℕ) :=
  [(1, 16), (2, 17), (3, 18), (4, 19), (5, 20), (6, 21), (7, 22), (8, 23), (9, 24), (10, 25), (11, 26),
    (12, 27), (13, 28), (14, 29), (15, 30), (16, 31)]

/-- `str::from_utf8`. -/
def text? (bytes : Bytes) : Option String := String.fromUTF8? ⟨bytes.toArray⟩

def isWhitespace (c : Char) : Bool :=
  9 ≤ c.val && c.val ≤ 13 || c.val == 32 || c.val == 0x85 || c.val == 0xa0 || c.val == 0x1680 ||
    0x2000 ≤ c.val && c.val ≤ 0x200a || c.val == 0x2028 || c.val == 0x2029 || c.val == 0x202f ||
    c.val == 0x205f || c.val == 0x3000

def utf16 (text : String) : List ℕ :=
  text.toList.flatMap fun c =>
    let n := c.val.toNat
    if n < 0x10000 then [n] else [0xd800 + (n - 0x10000) / 0x400, 0xdc00 + (n - 0x10000) % 0x400]

section
variable (s : Schema)

def validateReactionToken (token : String) : Except ValidationError Unit :=
  if token.isEmpty || maxReactionBytes < token.utf8ByteSize || token.toList.any isControl ||
      token.toList.all isWhitespace || s.graphemes token != 1 then .error .content
  else .ok ()

def isIdentifier (name : String) : Bool :=
  name.endsWith "_id" || name.endsWith "_anchor" || name.endsWith "_principal" || name.endsWith "_device" ||
    ["id", "device", "account_anchor", "principal", "conversation", "group", "root", "requester", "assignee",
      "author", "proposer", "sender", "receiver"].contains name

def validateNumber (text : String) (bytes : Bytes) : Except ValidationError Unit :=
  match s.jsonValue text with
  | none => .error .content
  | some (isNumber, written) =>
    if !isNumber then .error .content
    else if written.toUTF8.toList ≠ bytes then .error .nonCanonical
    else if !s.iJson text then .error .content
    else .ok ()

def validateString (parent : String) (f : FieldDescriptor) (bytes : Bytes) : Except ValidationError Unit :=
  if (if isIdentifier f.name then 256 else maxTextBytes) < bytes.length then .error .limit
  else
    match text? bytes with
    | none => .error .malformed
    | some text =>
      if isIdentifier f.name && text.toList.any isControl then .error .content
      else do
        if parent = "Reaction" ∧ f.name = "token" then validateReactionToken s text
        if parent = "JsonValue" ∧ f.name = "number" then validateNumber s text bytes

/-- Bytes of field 1, the last one of them. -/
def jsonMemberKey : ℕ → Bytes → Bytes → Except ValidationError Bytes
  | _, key, [] => .ok key
  | 0, _, _ :: _ => .error .limit
  | rounds + 1, key, input => do
    let (field, input) ← field input
    if field.tag = 1 then
      match text? field.bytes with
      | none => .error .malformed
      | some _ => jsonMemberKey rounds field.bytes input
    else jsonMemberKey rounds key input

def Kind.wire : Kind → ℕ
  | .double | .fixed64 | .sfixed64 => 1
  | .string | .bytes | .message _ => 2
  | .float | .fixed32 | .sfixed32 => 5
  | _ => 0

/-- `i64::from_le_bytes(n.to_le_bytes())`. -/
def signed64 (n : ℕ) : ℤ := if n < 2 ^ 63 then n else n - 2 ^ 64

/-- `i32::try_from` succeeds. -/
def isI32 (n : ℤ) : Bool := -2 ^ 31 ≤ n && n < 2 ^ 31

def bytesCap (parent : String) (f : FieldDescriptor) : ℕ :=
  if parent = "Thumbnail" ∧ f.name = "encoded_image" then 16 * 1024
  else if f.name = "native_authority_proof" then 8 * 1024
  else if parent.startsWith "Native" ∧ f.name = "canonical" then 8 * 1024
  else maxInnerBytes

/-- The value that an absent field would have as well. -/
def Field.isDefault (field : Field) : Bool :=
  field.wire == 0 && field.scalar == 0 || field.wire == 2 && field.bytes.isEmpty ||
    (field.wire == 1 || field.wire == 5) && field.bytes.all (· == 0)

abbrev ChildScan := MessageDescriptor → Bytes → Except ValidationError ScanOutcome

def scanField (child : ChildScan) (parent : String)
    (f : FieldDescriptor) (field : Field) : Except ValidationError ScanOutcome :=
  if field.wire ≠ f.kind.wire then .error .malformed
  else if f.cardinality = .singular false ∧ Field.isDefault field then .error .nonCanonical
  else
    match f.kind with
    | .message name =>
      match s.message name with
      | none => .error .descriptor
      | some d => child d field.bytes
    | .enum values =>
      if isI32 (signed64 field.scalar) ∧ signed64 field.scalar ∈ values then .ok .supported
      else .ok .unsupported
    | .bool => if 1 < field.scalar then .error .malformed else .ok .supported
    | .uint32 | .sint32 => if 2 ^ 32 ≤ field.scalar then .error .malformed else .ok .supported
    | .int32 => if isI32 (signed64 field.scalar) then .ok .supported else .error .malformed
    | .string => do
      validateString s parent f field.bytes
      return .supported
    | .bytes => if bytesCap parent f < field.bytes.length then .error .limit else .ok .supported
    | _ => .ok .supported

def collectionCap (message field : String) (count : ℕ) : Except ValidationError Unit :=
  let maximum := if message = "Message" ∧ field = "entities" then maxEntities
    else if message = "Message" ∧ field = "media" then maxMedia
    else maxInnerBytes / 2
  if maximum < count then .error .limit else .ok ()

structure ScanState where
  previous : ℕ
  counts : OrdMap ℕ ℕ
  choices : OrdSet String
  outcome : ScanOutcome
  operation : ℕ
  payload : ℕ
  objectKey : Option Bytes
  mapKeys : OrdMap ℕ Bytes

def ScanState.new : ScanState := ⟨0, ∅, ∅, .supported, 0, 0, none, ∅⟩

/-- Order of texts, which is that of their bytes. -/
def textLt (a b : Bytes) : Prop := a.map UInt8.toNat < b.map UInt8.toNat

instance (a b : Bytes) : Decidable (textLt a b) := inferInstanceAs (Decidable (_ < _))

/-- Order of object members, which is that of their UTF-16 code units. -/
def memberLt (a b : Bytes) : Prop := utf16 ((text? a).getD "") < utf16 ((text? b).getD "")

instance (a b : Bytes) : Decidable (memberLt a b) := inferInstanceAs (Decidable (_ < _))

variable (st : ScanState)

def ScanState.choose (f : FieldDescriptor) : Except ValidationError ScanState :=
  match f.oneof with
  | none => .ok st
  | some oneof =>
    if oneof ∈ st.choices then .error .missingChoice
    else .ok { st with choices := st.choices.insert oneof }

def ScanState.orderEntry (f : FieldDescriptor) (field : Field) : Except ValidationError ScanState :=
  if f.cardinality = .map then do
    let key ← jsonMemberKey field.bytes.length [] field.bytes
    if st.mapKeys[field.tag]?.any fun previous => ¬textLt previous key then .error .nonCanonical
    else .ok { st with mapKeys := st.mapKeys.insert field.tag key }
  else .ok st

def ScanState.orderMember (message : String) (f : FieldDescriptor) (field : Field) :
    Except ValidationError ScanState :=
  if message = "JsonObject" ∧ f.name = "members" then do
    let key ← jsonMemberKey field.bytes.length [] field.bytes
    if st.objectKey.any fun previous => ¬memberLt previous key then .error .nonCanonical
    else .ok { st with objectKey := some key }
  else .ok st

def ScanState.doubt (unsupported : Bool) : ScanState :=
  if unsupported then { st with outcome := .unsupported } else st

def ScanState.noteControl (message : String) (field : Field) : ScanState :=
  if message = "Control" then
    if field.tag = 1 then { st with operation := field.scalar }
    else if 16 ≤ field.tag then { st with payload := field.tag }
    else st
  else st

def ScanState.step (layer : ℕ) (child : ChildScan)
    (d : MessageDescriptor) (st : ScanState) (field : Field) : Except ValidationError ScanState :=
  if field.tag < st.previous then .error .nonCanonical
  else
    match d.getField field.tag with
    | none => .ok { st with previous := field.tag, outcome := .unsupported }
    | some f => do
      let count := st.counts[field.tag]?.getD 0 + 1
      let st := { st with previous := field.tag, counts := st.counts.insert field.tag count }
      if 1 < count ∧ f.cardinality ≠ .list ∧ f.cardinality ≠ .map then .error .nonCanonical
      else do
        let st ← st.choose f
        collectionCap d.name f.name count
        let st ← st.orderEntry f field
        let st ← st.orderMember d.name f field
        let st := st.doubt (d.name = "FriendControl" ∧ f.name = "action" ∧
          ¬(1 ≤ field.scalar ∧ field.scalar ≤ 5))
        let st := st.doubt ((s.fieldLayer d.name field.tag).all (layer < ·))
        let inner ← scanField s child d.name f field
        return (st.doubt (inner = .unsupported)).noteControl d.name field

/-- The fields of the input; each takes at least one byte. -/
def scanLoop (step : ScanState → Field → Except ValidationError ScanState) :
    ℕ → Bytes → ScanState → Except ValidationError ScanState
  | _, [], st => .ok st
  | 0, _ :: _, _ => .error .limit
  | rounds + 1, input, st => do
    let (field, input) ← field input
    let st ← step st field
    scanLoop step rounds input st

def ScanState.finish (d : MessageDescriptor) (st : ScanState) : Except ValidationError ScanOutcome :=
  if st.outcome = .supported then
    if d.oneofs.any fun oneof => !oneof.synthetic && oneof.fullName ∉ st.choices then .error .missingChoice
    else if d.name = "Control" ∧ (st.operation, st.payload) ∉ controls then .error .operation
    else .ok .supported
  else .ok st.outcome

/-- `room` is the depth that is left, and zero below the greatest depth. -/
def scan (layer : ℕ) : ℕ → MessageDescriptor → Bytes → Except ValidationError ScanOutcome
  | 0, _, _ => .error .limit
  | room + 1, d, bytes =>
    if (d.name = "Task" ∨ d.name = "Surface") ∧ 30720 < bytes.length then .error .limit
    else do
      let st ← scanLoop (ScanState.step s layer (scan layer room) d) bytes.length bytes .new
      st.finish d

/-- `scan` at a depth. -/
def scanAt (layer depth : ℕ) (d : MessageDescriptor) (bytes : Bytes) : Except ValidationError ScanOutcome :=
  scan s layer (maxDepth + 1 - depth) d bytes

end
end Ramflux.Message
