import Ramflux.Crypto.Custody
import Ramflux.Lib.Json

/-! Pins of an account's authority: the accepted head, the certificates of its ranges, the denied
devices, and the ranges fenced after an authenticated conflict. -/
namespace Ramflux.Custody
open Fallible Json

def maxConflictRanges := 8
def maxConflictEvidenceBytes := 4 * 1024 * 1024

inductive CustodyConflictKind
  | masterCertificate
  | recordHead
  deriving DecidableEq

structure CustodyConflictAlert where
  anchor : String
  rangeIndex : ℕ
  kind : CustodyConflictKind
  acceptedRecordHash : String
  conflictingRecordHash : String
  deriving DecidableEq

structure CustodyConflictEvidence where
  alert : CustodyConflictAlert
  accepted : Envelope DeviceSet
  conflicting : Envelope DeviceSet
  deriving DecidableEq

/-- What is known of a device: its epoch and the commitments to its keys. -/
structure DevicePin where
  epoch : ℕ
  signing : String
  agreement : String
  deriving DecidableEq

structure AccountPin where
  principalId : String
  principalKind : PrincipalKind
  certificates : OrdMap ℕ String
  fencedRanges : OrdSet ℕ
  epoch : ℕ
  hash : String
  revokedIds : OrdSet String
  devices : OrdMap QualifiedDevice DevicePin
  currentRecord : Option (Envelope DeviceSet)
  rangeRecords : OrdMap ℕ (Envelope DeviceSet)
  conflicts : OrdMap ℕ CustodyConflictEvidence
  prunedEvidence : ℕ

structure AuthorityPins where
  accounts : OrdMap String AccountPin

def AuthorityPins.default : AuthorityPins := ⟨∅⟩

inductive PinOutcome
  | advanced
  | unchanged
  | fenced (alert : CustodyConflictAlert)
  deriving DecidableEq

namespace CustodyConflictKind

def json : CustodyConflictKind → Bytes
  | masterCertificate => text "master_certificate"
  | recordHead => text "record_head"

end CustodyConflictKind

def CustodyConflictAlert.json (alert : CustodyConflictAlert) : Bytes :=
  object [
    ("accepted_record_hash", text alert.acceptedRecordHash),
    ("account_anchor", text alert.anchor),
    ("conflicting_record_hash", text alert.conflictingRecordHash),
    ("kind", alert.kind.json),
    ("range_index", number alert.rangeIndex)]

namespace CustodyCrypto
variable (C : CustodyCrypto)

def evidenceJson (evidence : CustodyConflictEvidence) : Bytes :=
  object [
    ("accepted", C.recordJson evidence.accepted),
    ("alert", evidence.alert.json),
    ("conflicting", C.recordJson evidence.conflicting)]

variable (pin : AccountPin) (record : VerifiedRecord) (conflicts : OrdMap ℕ CustodyConflictEvidence)
  (pins : AuthorityPins)

/-- The map of conflicts. The canonical form sorts the keys as text, which changes no length. -/
def conflictsJson : Bytes :=
  numberedObject (conflicts.toList.map fun entry => (entry.1, C.evidenceJson entry.2))

/-- `RootQualifiedDeviceRef::from_custody_record`. -/
def fromCustodyRecord (device : String) : Except CustodyError QualifiedDevice := do
  refuseWhen ((¬ ∃ entry ∈ record.body.devices, entry.deviceId = device) ∧
      device ∉ record.revokedIds) (reject "device absent from custody set")
  C.authenticated record.body.anchor device

def indexedDevices : Except CustodyError (OrdMap QualifiedDevice DevicePin) :=
  record.body.devices.foldlM (fun devices device => do
    let reference ← C.fromCustodyRecord record device.deviceId
    pure (devices.insert reference
      ⟨device.deviceEpoch, device.signingKeyCommitment, device.agreementKeyCommitment⟩)) ∅

def checkReserve (device : Device) : Except CustodyError Unit := do
  let reference ← C.fromCustodyRecord record device.deviceId
  refuseWhen (reference ∉ pin.devices)
    (reject "custody enrollment reserve exhausted; prioritize revocation")

def checkBranch (device : Device) : Except CustodyError Unit := do
  let reference ← C.fromCustodyRecord record device.deviceId
  refuseWhen (∃ known ∈ pin.devices[reference]?, device.deviceEpoch < known.epoch ∨
      device.deviceEpoch = known.epoch ∧ (device.signingKeyCommitment ≠ known.signing ∨
        device.agreementKeyCommitment ≠ known.agreement))
    (reject "custody branch epoch or key rollback")

/-- Checks on each known device; their keys are references already. -/
def checkPresent (known : QualifiedDevice) : Except CustodyError Unit :=
  refuseWhen (known.1 ≠ record.body.anchor ∨
      (¬ ∃ device ∈ record.body.devices, device.deviceId = known.2) ∧
        known.2 ∉ record.revokedIds)
    (reject "custody roster entry disappeared without revocation")

def validateTransition : Except CustodyError Unit := do
  let body := record.body
  (if maxEnrollmentRoster < body.devices.length then
      (body.devices.filter (·.status = .active)).forM (C.checkReserve pin record)
    else pure ())
  refuseWhen (¬ ∀ id ∈ pin.revokedIds.toList, id ∈ record.revokedIds)
    (reject "custody revocation rollback")
  body.devices.forM (C.checkBranch pin record)
  (pin.devices.toList.map (·.1)).forM (checkPresent record)

/-- Key of the first conflict that may go. -/
def oldestConflict (retained : Option ℕ) : Option ℕ :=
  (conflicts.toList.map (·.1)).find? (fun range => some range ≠ retained)

variable (conflicting : Envelope DeviceSet) (previous : Option (Envelope DeviceSet)) (range : ℕ)

/-- Bytes of one conflict written as a map of its own. -/
def entryBytes : ℕ :=
  match conflicts[range]? with
  | some evidence => (numberedObject [(range, C.evidenceJson evidence)]).length
  | none => 0

/-- The loop of `prune_evidence`; every round drops one conflict. -/
def pruneLoop (retained : Option ℕ) : ℕ → AccountPin → ℕ → AccountPin × Except CustodyError ℕ
  | 0, pin, bytes =>
    if pin.conflicts.size ≤ maxConflictRanges ∧ bytes + 5 ≤ maxConflictEvidenceBytes then
      (pin, .ok bytes)
    else (pin, .error (reject "custody conflict evidence exceeds retention budget"))
  | rounds + 1, pin, bytes =>
    if pin.conflicts.size ≤ maxConflictRanges ∧ bytes + 5 ≤ maxConflictEvidenceBytes then
      (pin, .ok bytes)
    else
      match oldestConflict pin.conflicts retained with
      | none => (pin, .error (reject "custody conflict evidence exceeds retention budget"))
      | some oldest =>
        let separator := if 1 < pin.conflicts.size then 1 else 0
        pruneLoop retained rounds { pin with
          conflicts := pin.conflicts.erase oldest
          prunedEvidence := min (pin.prunedEvidence + 1) (2 ^ 64 - 1) }
          (bytes - (C.entryBytes pin.conflicts oldest - 2 + separator))

/-- Also gives the bytes counted at the end. -/
def pruneEvidence (retained : Option ℕ) : AccountPin × Except CustodyError ℕ :=
  let pin := { pin with rangeRecords := ∅ }
  C.pruneLoop retained pin.conflicts.size pin (C.conflictsJson pin.conflicts).length

/-- The candidate that is the accepted head of the range. -/
def pairedRecord (hash : String) (range : ℕ) :
    List (Envelope DeviceSet) → Except CustodyError (Envelope DeviceSet)
  | [] => .error (reject "custody conflict evidence unavailable")
  | record :: rest => do
    let epoch ← decodeEpoch record.body.deviceSetEpoch
    if epoch.1 = range ∧ C.objectHash (.record record) = hash then .ok record
    else pairedRecord hash range rest

def sameRangeRecord : Except CustodyError (Envelope DeviceSet) :=
  match pin.rangeRecords[range]? with
  | some record => .ok record
  | none => C.pairedRecord pin.hash range (pin.currentRecord.toList ++ previous.toList)

def conflictAlert (accepted conflicting : Envelope DeviceSet) (range : ℕ)
    (kind : CustodyConflictKind) : CustodyConflictAlert where
  anchor := conflicting.body.anchor
  rangeIndex := range
  kind
  acceptedRecordHash := C.objectHash (.record accepted)
  conflictingRecordHash := C.objectHash (.record conflicting)

def fence (kind : CustodyConflictKind) : AccountPin × Except CustodyError PinOutcome :=
  match pin.conflicts[range]? with
  | some evidence => (pin, .ok (.fenced evidence.alert))
  | none =>
    match C.sameRangeRecord pin previous range with
    | .error e => (pin, .error e)
    | .ok accepted =>
      let alert := C.conflictAlert accepted conflicting range kind
      let evidence := { alert, accepted, conflicting }
      let singleton := numberedObject [(range, C.evidenceJson evidence)]
      if maxConflictEvidenceBytes < (array [numberedObject [], singleton]).length then
        (pin, .error (reject "custody conflict evidence exceeds retention budget"))
      else
        let pruned := C.pruneEvidence { pin with
          fencedRanges := pin.fencedRanges.insert range
          rangeRecords := pin.rangeRecords.erase range
          conflicts := pin.conflicts.insert range evidence } (some range)
        (pruned.1, pruned.2.map fun _ => .fenced alert)

/-- The accepted branch of `observe_existing`, after its checks. -/
def accept (certificate hash : String)
    (devices : OrdMap QualifiedDevice DevicePin) : AccountPin × Except CustodyError PinOutcome :=
  let pruned := C.pruneEvidence { pin with
    certificates := pin.certificates.insert range certificate
    epoch := record.body.deviceSetEpoch
    hash
    currentRecord := some record.envelope
    rangeRecords := pin.rangeRecords.insert range record.envelope } none
  match pruned.2 with
  | .error e => (pruned.1, .error e)
  | .ok _ => ({ pruned.1 with
      revokedIds := pruned.1.revokedIds ∪ record.revokedIds
      devices := pruned.1.devices ∪ devices },
    .ok .advanced)

def observeExisting (certificate hash : String)
    (devices : OrdMap QualifiedDevice DevicePin) : AccountPin × Except CustodyError PinOutcome :=
  let body := record.body
  match decodeEpoch body.deviceSetEpoch with
  | .error e => (pin, .error e)
  | .ok (range, _) =>
    if pin.principalId ≠ body.principalId ∨ pin.principalKind ≠ body.principalKind then
      (pin, .error (reject "custody immutable identity changed"))
    else
      match decodeEpoch pin.epoch with
      | .error e => (pin, .error e)
      | .ok (pinRange, _) =>
        if range < pinRange then (pin, .error (reject "custody epoch rollback"))
        else if ∃ old ∈ pin.certificates[range]?, old ≠ certificate then
          C.fence pin record.envelope previous range .masterCertificate
        else if body.deviceSetEpoch < pin.epoch then (pin, .error (reject "custody epoch rollback"))
        else if body.deviceSetEpoch = pin.epoch then
          if pin.hash ≠ hash then C.fence pin record.envelope previous range .recordHead
          else if range ∈ pin.fencedRanges then
            match pin.conflicts[range]? with
            | none => (pin, .error (reject "custody conflict evidence unavailable"))
            | some evidence => (pin, .ok (.fenced evidence.alert))
          else if pin.currentRecord.isNone then
            ({ pin with currentRecord := some record.envelope }, .ok .unchanged)
          else (pin, .ok .unchanged)
        else if range ∈ pin.fencedRanges then
          C.fence pin record.envelope previous range .recordHead
        else
          match C.validateTransition pin record with
          | .error e => (pin, .error e)
          | .ok () => C.accept pin record range certificate hash devices

def firstPin (certificate hash : String)
    (devices : OrdMap QualifiedDevice DevicePin) : AccountPin where
  principalId := record.body.principalId
  principalKind := record.body.principalKind
  certificates := (∅ : OrdMap ℕ String).insert range certificate
  fencedRanges := ∅
  epoch := record.body.deviceSetEpoch
  hash
  revokedIds := record.revokedIds
  devices
  currentRecord := some record.envelope
  rangeRecords := (∅ : OrdMap ℕ (Envelope DeviceSet)).insert range record.envelope
  conflicts := ∅
  prunedEvidence := 0

def observeWithPrevious (record : VerifiedRecord)
    (previous : Option (Envelope DeviceSet)) : AuthorityPins × Except CustodyError PinOutcome :=
  let body := record.body
  match decodeEpoch body.deviceSetEpoch with
  | .error e => (pins, .error e)
  | .ok (range, _) =>
    let certificate := C.objectHash (.certificate body.masterCertificate)
    let hash := C.objectHash (.record record.envelope)
    match C.indexedDevices record with
    | .error e => (pins, .error e)
    | .ok devices =>
      match pins.accounts[body.anchor]? with
      | some pin =>
        let observed := C.observeExisting pin record previous certificate hash devices
        (⟨pins.accounts.insert body.anchor observed.1⟩, observed.2)
      | none =>
        (⟨pins.accounts.insert body.anchor
          (firstPin record range certificate hash devices)⟩, .ok .advanced)

def observe (record : VerifiedRecord) : AuthorityPins × Except CustodyError PinOutcome :=
  C.observeWithPrevious pins record none

def requireCurrent (record : VerifiedRecord) : Except CustodyError Unit :=
  let body := record.body
  match pins.accounts[body.anchor]? with
  | none => .error (reject "custody mode unpinned")
  | some pin => do
    let epoch ← decodeEpoch body.deviceSetEpoch
    refuseWhen (epoch.1 ∈ pin.fencedRanges ∨ pin.epoch ≠ body.deviceSetEpoch ∨
        pin.hash ≠ C.objectHash (.record record.envelope))
      (reject "custody head is stale or fenced")

end CustodyCrypto

end Ramflux.Custody
