import Ramflux.Protocol.Scanner

/-! The value a decoder reads from a message: unknown fields are skipped, later ones replace earlier ones,
and absent ones have their defaults. -/
namespace Ramflux.Message
open Wire Except

namespace Proto3

/-- A varint with any number of groups up to ten; zero groups at its end are read as well. -/
def varintFrom : ℕ → ℕ → ℕ → Bytes → Option (ℕ × Bytes)
  | 0, _, _, _ => none
  | _ + 1, _, _, [] => none
  | rounds + 1, shift, value, byte :: rest =>
    if shift = 63 ∧ 1 < byte.toNat then none
    else
      let value := value ||| (byte.toNat &&& 0x7f) <<< shift
      if byte.toNat &&& 0x80 = 0 then some (value, rest) else varintFrom rounds (shift + 7) value rest

def varint (input : Bytes) : Option (ℕ × Bytes) := varintFrom 10 0 0 input

def take (input : Bytes) (length : ℕ) : Option (Bytes × Bytes) :=
  if length ≤ input.length then some (input.take length, input.drop length) else none

/-- One field; there are no groups. -/
def field (input : Bytes) : Option (Field × Bytes) := do
  let (key, input) ← varint input
  let tag := key >>> 3
  if tag = 0 then none
  else
    match key &&& 7 with
    | 0 => do
      let (scalar, input) ← varint input
      return (⟨tag, 0, scalar, []⟩, input)
    | 1 => do
      let (bytes, input) ← take input 8
      return (⟨tag, 1, 0, bytes⟩, input)
    | 2 => do
      let (length, input) ← varint input
      let (bytes, input) ← take input length
      return (⟨tag, 2, 0, bytes⟩, input)
    | 5 => do
      let (bytes, input) ← take input 4
      return (⟨tag, 5, 0, bytes⟩, input)
    | _ => none

def fields : ℕ → Bytes → Option (List Field)
  | _, [] => some []
  | 0, _ :: _ => none
  | rounds + 1, input => do
    let (first, input) ← field input
    let rest ← fields rounds input
    return first :: rest

end Proto3

/-- Values of messages and fields; a message has one for each field of its descriptor. -/
inductive Value
  | unset
  | number (n : ℤ)
  | bytes (b : Bytes)
  | message (fields : List Value)
  | list (items : List Value)
  | map (lookup : Bytes → Option Value)

def signed32 (n : ℕ) : ℤ := if n % 2 ^ 32 < 2 ^ 31 then (n % 2 ^ 32 : ℕ) else (n % 2 ^ 32 : ℕ) - 2 ^ 32

def zigzag (n : ℕ) : ℤ := if n % 2 = 0 then (n / 2 : ℕ) else -(n / 2 : ℕ) - 1

def Kind.number : Kind → ℕ → ℤ
  | .bool, n => if n = 0 then 0 else 1
  | .int32, n | .enum _, n => signed32 n
  | .uint32, n => (n % 2 ^ 32 : ℕ)
  | .sint32, n => zigzag (n % 2 ^ 32)
  | .int64, n => signed64 n
  | .sint64, n => zigzag n
  | _, n => n

def Kind.default : Kind → Value
  | .string | .bytes => .bytes []
  | .double | .fixed64 | .sfixed64 => .bytes (List.replicate 8 0)
  | .float | .fixed32 | .sfixed32 => .bytes (List.replicate 4 0)
  | .message _ => .unset
  | _ => .number 0

def collect {α : Type} : List (Option α) → Option (List α)
  | [] => some []
  | none :: _ => none
  | some a :: rest => (collect rest).map (a :: ·)

section
variable (s : Schema) (child : MessageDescriptor → Bytes → Option Value)

def single (f : FieldDescriptor) (field : Field) : Option Value :=
  if field.wire ≠ f.kind.wire then none
  else
    match f.kind with
    | .message name =>
      match s.message name with
      | none => none
      | some d => child d field.bytes
    | .string | .bytes | .double | .fixed64 | .sfixed64 | .float | .fixed32 | .sfixed32 =>
      some (.bytes field.bytes)
    | kind => some (.number (kind.number field.scalar))

/-- The occurrences of a field that count: those of another choice of its oneof clear it. -/
def occurrences (d : MessageDescriptor) (f : FieldDescriptor) (fields : List Field) : List Field :=
  let clears : Field → Bool := fun field => field.tag ≠ f.number ∧ f.oneof.isSome ∧
    (d.getField field.tag).any (·.oneof = f.oneof)
  (fields.reverse.takeWhile (!clears ·)).reverse.filter (·.tag = f.number)

/-- Key and value of an entry of a map. -/
def entry (f : FieldDescriptor) (field : Field) : Option (Bytes × Value) :=
  match single s child f field with
  | some (.message [.bytes key, value]) => some (key, value)
  | _ => none

/-- Value of a field from its occurrences: messages are merged, other singular fields replaced. -/
def content (f : FieldDescriptor) (fields : List Field) : Option Value :=
  match f.cardinality with
  | .list => (collect (fields.map (single s child f))).map .list
  | .map => (collect (fields.map (entry s child f))).map fun entries =>
      .map fun key => (entries.reverse.find? (·.1 = key)).map (·.2)
  | .singular presence =>
    match fields.getLast? with
    | none => some (if presence then .unset else f.kind.default)
    | some last =>
      match f.kind with
      | .message _ => single s child f { last with bytes := fields.flatMap (·.bytes) }
      | _ => single s child f last

end

/-- Value of the bytes of a message. -/
def value (s : Schema) : ℕ → MessageDescriptor → Bytes → Option Value
  | 0, _, _ => none
  | room + 1, d, bytes => do
    let fields ← Proto3.fields bytes.length bytes
    let contents ← collect (d.fields.map fun f => content s (value s room) f (occurrences d f fields))
    return .message contents

namespace Proto3

variable {input : Bytes}

theorem varintFrom_of_ok {rounds shift value : ℕ} {result : ℕ × Bytes}
    (h : Wire.varintFrom rounds shift value input = .ok result) :
    varintFrom rounds shift value input = some result := by
  induction rounds generalizing shift value input with
  | zero => cases h
  | succ rounds ih =>
    cases input with
    | nil => cases h
    | cons byte input =>
      unfold Wire.varintFrom at h
      unfold varintFrom
      split_ifs at h ⊢
      · exact congrArg some (ok.inj h)
      · exact ih h

theorem take_of_ok {length : ℕ} {result : Bytes × Bytes}
    (h : Wire.take input length = .ok result) : take input length = some result := by
  unfold Wire.take at h
  unfold take
  split_ifs at h ⊢
  exact congrArg some (ok.inj h)

theorem field_of_ok {result : Field × Bytes} (h : Wire.field input = .ok result) :
    field input = some result := by
  obtain ⟨⟨key, input₁⟩, hkey, hbody⟩ := Fallible.bind_eq_ok.mp h
  dsimp only at hbody
  have hkey' : varint input = some (key, input₁) := varintFrom_of_ok hkey
  unfold field
  rw [hkey']
  show (if key >>> 3 = 0 then none else _) = some result
  split_ifs at hbody with hlarge htag
  rw [if_neg fun hzero => htag (.inl hzero)]
  split at hbody
  · obtain ⟨⟨scalar, input₂⟩, hscalar, hres⟩ := Fallible.bind_eq_ok.mp hbody
    have hscalar' : varint input₁ = some (scalar, input₂) := varintFrom_of_ok hscalar
    simp only [*]
    exact congrArg some (ok.inj hres)
  · obtain ⟨⟨bytes, input₂⟩, hbytes, hres⟩ := Fallible.bind_eq_ok.mp hbody
    have hbytes' := take_of_ok hbytes
    simp only [*]
    exact congrArg some (ok.inj hres)
  · obtain ⟨⟨length, input₂⟩, hlen, hbody₂⟩ := Fallible.bind_eq_ok.mp hbody
    obtain ⟨⟨bytes, input₃⟩, hbytes, hres⟩ := Fallible.bind_eq_ok.mp hbody₂
    have hlen' : varint input₁ = some (length, input₂) := varintFrom_of_ok hlen
    have hbytes' : take input₂ length = some (bytes, input₃) := take_of_ok hbytes
    simp only [*]
    show (take input₂ length >>= _) = some result
    rw [hbytes']
    exact congrArg some (ok.inj hres)
  · obtain ⟨⟨bytes, input₂⟩, hbytes, hres⟩ := Fallible.bind_eq_ok.mp hbody
    have hbytes' := take_of_ok hbytes
    simp only [*]
    exact congrArg some (ok.inj hres)
  · cases hbody

end Proto3
end Ramflux.Message
