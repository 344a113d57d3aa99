import Ramflux.Lib.OrdMap
import Ramflux.Lib.Base64
import Ramflux.Lib.Fallible
import Ramflux.Lib.Word

/-! Wire types shared by the router components, with the fields their code reads; what is carried through
unread is left out. -/
namespace Ramflux

abbrev Bytes := List UInt8

/-- Longest lifetime of an envelope or signed request. -/
def maxEnvelopeTtlSeconds : ℤ := 604800

def utf8 (s : String) : Bytes := s.toUTF8.data.toList

theorem utf8_injective : Function.Injective utf8 := by
  intro s t h
  have hdata : s.toUTF8.data = t.toUTF8.data := Array.toList_inj.mp h
  exact String.toByteArray_inj.mp (ByteArray.ext hdata)

theorem length_utf8_le (s : String) : (utf8 s).length ≤ 4 * s.length := by
  obtain ⟨l, rfl⟩ : ∃ l, s = String.ofList l := ⟨s.toList, String.ofList_toList.symm⟩
  have hbytes : (utf8 (String.ofList l)).length = (l.flatMap String.utf8EncodeChar).length := by
    simp [utf8, String.toByteArray_ofList, List.utf8Encode]
  rw [hbytes, String.length_ofList]
  induction l with
  | nil => simp
  | cons c l ih =>
    have hc := Char.utf8Size_le_four c
    rw [List.flatMap_cons, List.length_append, String.length_utf8EncodeChar, List.length_cons]
    have htail := ih (by simp [utf8, String.toByteArray_ofList, List.utf8Encode])
    omega

def isControl (c : Char) : Bool := c.val < 32 || 127 ≤ c.val && c.val < 160

/-- Text rules on Unicode categories. -/
structure TextRules where
  /-- `trim().is_empty()` -/
  blank : String → Bool
  singleLineIsSafe : String → Bool

/-- The caller turns the reason into its own error. -/
def TextRules.validateDeviceName {ε : Type} (rules : TextRules) (invalidIdentityRecord : String → ε)
    (name : String) : Except ε Unit :=
  Fallible.refuseWhen (rules.blank name ∨ 256 < name.utf8ByteSize ∨ rules.singleLineIsSafe name = false ∨
      utf8 "root~" <+: utf8 name ∨ utf8 "legacy~" <+: utf8 name)
    (invalidIdentityRecord "invalid or reserved live device name")

/-- `serde_json::Number` without arbitrary precision. -/
inductive JsonNumber
  | posInt (n : UInt64)
  | negInt (n : ℤ)
  | float (bits : UInt64)
  deriving DecidableEq

/-- `serde_json::Value`. Contents of arrays and objects are never inspected here. -/
inductive JsonValue
  | null
  | bool (b : Bool)
  | number (n : JsonNumber)
  | string (s : String)
  | array
  | object
  deriving DecidableEq

namespace JsonValue

def asU64 : JsonValue → Option ℕ
  | .number (.posInt n) => some n.toNat
  | _ => none

def asStr : JsonValue → Option String
  | .string s => some s
  | _ => none

end JsonValue

/-- Protocol extension members by name. -/
abbrev Ext := OrdMap String JsonValue

/-- `target` is the target's delivery id (`target_delivery_id`), as in every record that names one. -/
structure Envelope where
  ext : Ext
  envelopeId : String
  sourceDeviceId : String
  target : String
  ttl : UInt32
  createdAt : ℤ
  deriving DecidableEq

inductive NackReason
  | invalidSignature
  | expired
  | unknownDevice
  | revokedCapability
  | missingDependency
  | unknownGroupEpoch
  | epochRollback
  | payloadTooLarge
  | rateLimited
  | unsupportedSchema
  | homeNodeMigrated
  deriving DecidableEq

structure Ack where
  ext : Ext
  envelopeId : String

structure Nack where
  ext : Ext
  envelopeId : String
  reason : NackReason

structure SignedRequest where
  sourceDeviceId : String
  requestId : String
  nonce : String
  createdAt : ℤ
  expiresAt : ℤ

/-- A root commitment and one literal device name with their joint storage key. -/
structure RootQualifiedDeviceRef where
  rootCommitment : String
  deviceId : String
  storageKey : String

inductive ProtocolError
  | invalidIdentityRecord (detail : String)
  | canonical (detail : String)
  | replay (key : String)
  | signedRequestExpired
  | signedRequestFromFuture
  | signedRequestExpiryTooLong
  | headerFieldCountOverflow
  | headerFieldValueTooLong
  deriving DecidableEq

namespace ProtocolError

def toText : ProtocolError → String
  | invalidIdentityRecord detail => "invalid identity record: " ++ detail
  | canonical detail => "canonical serialization failed: " ++ detail
  | replay key => "nonce replay detected for " ++ key
  | signedRequestExpired => "signed request expired"
  | signedRequestFromFuture => "signed request created too far in the future"
  | signedRequestExpiryTooLong => "signed request expiry exceeds maximum accepted validity"
  | headerFieldCountOverflow => "canonical header has too many fields"
  | headerFieldValueTooLong => "canonical header field value is too long"

end ProtocolError

end Ramflux
