import Ramflux.Crypto.CustodyMonotone

/-! Of two records that contradict each other the second fences their range, on evidence that fits. -/
namespace Ramflux.Custody
open Fallible List Json

namespace CustodyCrypto
variable {C : CustodyCrypto} {pin : AccountPin} {record head : VerifiedRecord} {anchor : String}
  {pins pins' : AuthorityPins}

/-- What the pin of an account keeps for the evidence of a conflict. -/
structure Keeps (C : CustodyCrypto) (anchor : String) (pin : AccountPin) (head : VerifiedRecord) :
    Prop where
  pinsHead : PinsHead C anchor pin head
  certificates : ∀ (range : ℕ) certificate, pin.certificates[range]? = some certificate →
    range ≤ head.range
  records : ∀ (range : ℕ) envelope, pin.rangeRecords[range]? = some envelope → envelope = head.envelope
  budget : C.WithinBudget pin.conflicts
  fenced : ∀ (range : ℕ) evidence, pin.conflicts[range]? = some evidence → range ∈ pin.fencedRanges

variable {revision : ℕ}

variable {range : ℕ}

theorem keeps_firstPin {certificate : String} {devices : OrdMap QualifiedDevice DevicePin}
    (hver : C.IsVerified record) (hanchor : record.body.anchor = anchor)
    (hepoch : decodeEpoch record.body.deviceSetEpoch = .ok (range, revision)) :
    Keeps C anchor (firstPin record range certificate (C.objectHash (.record record.envelope)) devices)
      record := by
  obtain rfl : range = record.range := decodeEpoch_range hepoch
  refine ⟨pinsHead_firstPin hver hanchor, fun range' certificate' hget => ?_,
    fun range' envelope hget => ?_, withinBudget_empty, fun range' evidence hget => ?_⟩
  · unfold firstPin at hget
    rw [OrdMap.getElem?_insert_eq] at hget
    split_ifs at hget with hrange
    · exact hrange.symm.le
    · simp at hget
  · unfold firstPin at hget
    rw [OrdMap.getElem?_insert_eq] at hget
    split_ifs at hget with hrange
    · exact (Option.some.inj hget).symm
    · simp at hget
  · simp [firstPin] at hget

theorem Observed.keeps {outcome : AccountPin × Except CustodyError PinOutcome}
    (h : Observed C pin record outcome) (hkeeps : Keeps C anchor pin head)
    (hver : C.IsVerified record) (hanchor : record.body.anchor = anchor) :
    ∃ head', Keeps C anchor outcome.1 head' := by
  have hhead := h.pinsHead hkeeps.pinsHead hver hanchor
  cases h with
  | refused e | known alert => exact ⟨head, hkeeps⟩
  | fenced alert h =>
    obtain ⟨hnext, -⟩ | ⟨-, hnext⟩ := hhead
    · cases hnext
    refine ⟨head, hnext, fun range certificate hget => ?_, fun range envelope hget => ?_, h.budget,
      fun range evidence hget => ?_⟩
    · rw [h.others] at hget
      exact hkeeps.certificates range certificate hget
    · rw [h.others] at hget
      simp at hget
    · rw [h.others]
      refine OrdSet.mem_insert_iff.mpr ?_
      exact (h.sub range evidence hget).imp_right (hkeeps.fenced range evidence)
  | unchanged =>
    obtain ⟨hnext, -⟩ | ⟨-, hnext⟩ := hhead
    · cases hnext
    exact ⟨head, hnext, hkeeps.certificates, hkeeps.records, hkeeps.budget, hkeeps.fenced⟩
  | advanced _ hepoch _ _ _ h =>
    obtain ⟨-, hnext⟩ | ⟨hres, -⟩ := hhead
    swap
    · exact absurd rfl hres
    have hrange : head.range ≤ record.range := by
      have hold := hkeeps.pinsHead.epoch
      exact Nat.div_le_div_right (by omega)
    refine ⟨record, hnext, fun range certificate hget => ?_, fun range envelope hget => ?_, h.budget,
      fun range evidence hget => ?_⟩
    · rw [h.others] at hget
      rw [OrdMap.getElem?_insert_eq] at hget
      split_ifs at hget with hsame
      · exact hsame.symm.le
      · exact (hkeeps.certificates range certificate hget).trans hrange
    · rw [h.others] at hget
      simp at hget
    · rw [h.same hkeeps.budget] at hget
      rw [h.others]
      exact hkeeps.fenced range evidence hget

theorem keeps_of_run {log : List (VerifiedRecord × Except CustodyError PinOutcome)}
    (hrun : Run C.Observes .default log pins) (hpin : pins.accounts[anchor]? = some pin) :
    ∃ head, Keeps C anchor pin head := by
  refine hrun.preserves
    (P := fun pins => ∀ pin, pins.accounts[anchor]? = some pin → ∃ head, Keeps C anchor pin head)
    (fun pin hpin => ?_) ?_ pin hpin
  · cases hpin
  rintro pins call pins' ih hstep next hnext
  rcases hstep.cases anchor with ⟨hsame, -⟩ |
    ⟨hanchor, ⟨-, range, revision, devices, hepoch, hfirst⟩ | ⟨known, outcome, hknown, hobserved, hnext', -⟩⟩
  · exact ih next (hsame.symm.trans hnext)
  · cases hnext.symm.trans hfirst
    exact ⟨call.1, keeps_firstPin hstep.1 hanchor hepoch⟩
  · cases hnext.symm.trans hnext'
    obtain ⟨head, hkeeps⟩ := ih known hknown
    exact hobserved.keeps hkeeps hstep.1 hanchor

theorem decodeEpoch_le {epoch : ℕ} {decoded : ℕ × ℕ} (h : decodeEpoch epoch = .ok decoded) :
    epoch ≤ maxSafeJsonInteger := by
  obtain ⟨_, hsafe, -⟩ := bind_eq_ok.mp h
  exact not_lt.mp (refuseWhen_eq_ok.mp hsafe)

theorem WellFormed.range_lt (h : WellFormed C record) : record.range < 2 ^ 64 := by
  obtain ⟨revision, hepoch⟩ := h.epoch
  have hsafe := decodeEpoch_le hepoch
  unfold VerifiedRecord.range
  unfold maxSafeJsonInteger at hsafe
  omega

theorem length_objectHash_le (hdigest : ∀ object, (C.digest object).length = 32)
    (object : CustodyObject) : (text (C.objectHash object)).length ≤ 1538 := by
  have hchars := length_base64Chars_le (C.digest object)
  have hbytes := length_utf8_le (C.objectHash object)
  have hlen : (C.objectHash object).length = (base64Chars (C.digest object)).length :=
    String.length_ofList
  have htext := length_text_le (C.objectHash object)
  have hdigest := hdigest object
  unfold utf8 at hbytes
  omega

/-- A pair of records within their own budget fits, with room for many more bytes. -/
theorem fitsAlone (hdigest : ∀ object, (C.digest object).length = 32)
    {accepted conflicting : Envelope DeviceSet} {range : ℕ} {kind : CustodyConflictKind}
    (hacc : (C.recordJson accepted).length ≤ maxRecordBytes)
    (hconflicting : (C.recordJson conflicting).length ≤ maxRecordBytes)
    (hanchor : conflicting.body.anchor.utf8ByteSize = 43) (hrange : range < 2 ^ 64) :
    C.FitsAlone range
      { alert := C.conflictAlert accepted conflicting range kind, accepted, conflicting } := by
  have hnumber := length_number_le hrange
  have hfirst := length_objectHash_le hdigest (.record accepted)
  have hsecond := length_objectHash_le hdigest (.record conflicting)
  have htext := length_text_le conflicting.body.anchor
  have hbytes : conflicting.body.anchor.toUTF8.data.toList.length = 43 := by
    rw [← hanchor, Array.length_toList]
    rfl
  have hkind : kind.json.length ≤ 20 := by
    cases kind <;> decide +kernel
  have hkeys : (text "account_anchor").length + (text "accepted_record_hash").length +
      (text "conflicting_record_hash").length + (text "kind").length +
      (text "range_index").length + (text "accepted").length + (text "alert").length +
      (text "conflicting").length ≤ 200 := by decide +kernel
  unfold FitsAlone
  rw [length_singletonJson]
  unfold entryLength evidenceJson CustodyConflictAlert.json conflictAlert
  simp only [length_object, map_cons, map_nil, sum_cons, sum_nil, length_cons, length_nil]
  unfold maxRecordBytes at hacc hconflicting
  unfold maxConflictEvidenceBytes
  omega

variable {envelope : Envelope DeviceSet}

theorem pairedRecord_head {hash : String} (hepoch : decodeEpoch envelope.body.deviceSetEpoch = .ok
    (range, revision))
    (hhash : C.objectHash (.record envelope) = hash) {rest : List (Envelope DeviceSet)} :
    C.pairedRecord hash range (envelope :: rest) = .ok envelope := by
  unfold pairedRecord
  rw [hepoch]
  exact if_pos ⟨rfl, hhash⟩

theorem Keeps.sameRangeRecord (hkeeps : Keeps C anchor pin head)
    {previous : Option (Envelope DeviceSet)} :
    C.sameRangeRecord pin previous head.range = .ok head.envelope := by
  unfold CustodyCrypto.sameRangeRecord
  cases hstored : pin.rangeRecords[head.range]? with
  | some envelope =>
    rw [hkeeps.records head.range envelope hstored]
  | none =>
    obtain ⟨revision, hepoch⟩ := hkeeps.pinsHead.verified.wellFormed.epoch
    rw [hkeeps.pinsHead.current]
    exact pairedRecord_head hepoch hkeeps.pinsHead.hash.symm

/-- What the pin shows once a conflict of the range was observed. -/
structure Shows (C : CustodyCrypto) (pin : AccountPin) (conflicting : Envelope DeviceSet) (range : ℕ)
    (next : AccountPin) : Prop where
  fenced : range ∈ next.fencedRanges
  budget : C.WithinBudget next.conflicts
  evidence : ∃ evidence, next.conflicts[range]? = some evidence ∧
    (evidence.conflicting = conflicting ∨ pin.conflicts[range]? = some evidence)

theorem Keeps.fence (hdigest : ∀ object, (C.digest object).length = 32)
    (hkeeps : Keeps C anchor pin head) (hver : C.IsVerified record)
    (hrange : record.range = head.range) {previous : Option (Envelope DeviceSet)}
    {kind : CustodyConflictKind} : ∃ next alert,
      C.fence pin record.envelope previous record.range kind = (next, .ok (.fenced alert)) ∧
        Shows C pin record.envelope record.range next := by
  cases hknown : pin.conflicts[record.range]? with
  | some evidence =>
    refine ⟨pin, evidence.alert, ?_, hkeeps.fenced _ _ hknown, hkeeps.budget, evidence, hknown, .inr hknown⟩
    unfold CustodyCrypto.fence
    rw [hknown]
  | none =>
    have hacc : C.sameRangeRecord pin previous record.range = .ok head.envelope :=
      hrange ▸ hkeeps.sameRangeRecord
    have hwell := hver.wellFormed
    have hfits := @fitsAlone C hdigest head.envelope record.envelope record.range kind
      hkeeps.pinsHead.verified.wellFormed.encoded hwell.encoded hwell.anchor hwell.range_lt
    obtain ⟨next, hfence, hfenced⟩ := fence_new hknown hacc hfits
    obtain ⟨evidence, hevid, hconflicting⟩ := hfenced.newest
    refine ⟨next, _, hfence, ?_, hfenced.budget, evidence, hevid, .inl hconflicting⟩
    rw [hfenced.others]
    exact OrdSet.mem_insert_iff.mpr (.inl rfl)

/-- The record contradicts the certificate known of its range, or the head of its epoch. -/
def Conflicts (C : CustodyCrypto) (pin : AccountPin) (record : VerifiedRecord) : Prop :=
  (∃ certificate, pin.certificates[record.range]? = some certificate ∧
    certificate ≠ C.objectHash (.certificate record.body.masterCertificate)) ∨
  (record.body.deviceSetEpoch = pin.epoch ∧ pin.hash ≠ C.objectHash (.record record.envelope))

theorem indexedDevices_total (hver : C.IsVerified record) :
    ∃ devices, C.indexedDevices record = .ok devices := by
  refine exists_foldlM_ok (fun device hdev devices => ?_) ∅
  have hnamed := hver.wellFormed.named device hdev
  have hpresent : C.fromCustodyRecord record device.deviceId =
      .ok (record.body.anchor, device.deviceId) := by
    refine bind_eq_ok.mpr ⟨(), refuseWhen_eq_ok.mpr ?_, hnamed⟩
    rintro ⟨habsent, -⟩
    exact habsent ⟨device, hdev, rfl⟩
  exact ⟨_, bind_eq_ok.mpr ⟨_, hpresent, rfl⟩⟩

theorem Keeps.observeExisting (hdigest : ∀ object, (C.digest object).length = 32)
    (hkeeps : Keeps C anchor pin head) (hver : C.IsVerified record)
    (hprinc : pin.principalId = record.body.principalId ∧ pin.principalKind = record.body.principalKind)
    (hrange : pin.epoch / 2 ^ 32 ≤ record.range) (hconflict : C.Conflicts pin record)
    {previous : Option (Envelope DeviceSet)} {devices : OrdMap QualifiedDevice DevicePin} :
    ∃ next alert, C.observeExisting pin record previous
        (C.objectHash (.certificate record.body.masterCertificate))
        (C.objectHash (.record record.envelope)) devices = (next, .ok (.fenced alert)) ∧
      Shows C pin record.envelope record.range next := by
  obtain ⟨revision, hepoch⟩ := hver.wellFormed.epoch
  obtain ⟨pinRevision, hpinned⟩ := hkeeps.pinsHead.verified.wellFormed.epoch
  have hhead : head.range = pin.epoch / 2 ^ 32 := by
    unfold VerifiedRecord.range
    rw [hkeeps.pinsHead.epoch]
  have hident : ¬ (pin.principalId ≠ record.body.principalId ∨
      pin.principalKind ≠ record.body.principalKind) := by
    rintro (hne | hne)
    · exact hne hprinc.1
    · exact hne hprinc.2
  have hbelow : ¬ record.range < head.range := by omega
  unfold CustodyCrypto.observeExisting
  dsimp only
  rw [hepoch]
  dsimp only
  rw [if_neg hident, hkeeps.pinsHead.epoch, hpinned]
  dsimp only
  rw [if_neg hbelow]
  by_cases hcert : ∃ old ∈ pin.certificates[record.range]?,
      old ≠ C.objectHash (.certificate record.body.masterCertificate)
  · rw [if_pos hcert]
    obtain ⟨old, hold, -⟩ := hcert
    have hle := hkeeps.certificates record.range old hold
    exact hkeeps.fence hdigest hver (by omega)
  rw [if_neg hcert]
  rcases hconflict with ⟨old, hold, hne⟩ | ⟨hsame, hne⟩
  · exact absurd ⟨old, hold, hne⟩ hcert
  have hsame' : record.body.deviceSetEpoch = head.body.deviceSetEpoch := hsame.trans hkeeps.pinsHead.epoch
  rw [if_neg (by omega), if_pos hsame', if_pos hne]
  exact hkeeps.fence hdigest hver (congrArg (· / 2 ^ 32) hsame')

section
variable (hver : C.IsVerified record)
include hver

section
variable (hpin : pins.accounts[record.body.anchor]? = some pin)
include hpin

theorem observe_eq :
    ∃ devices, C.indexedDevices record = .ok devices ∧ C.observe pins record =
      (⟨pins.accounts.insert record.body.anchor (C.observeExisting pin record none
          (C.objectHash (.certificate record.body.masterCertificate))
          (C.objectHash (.record record.envelope)) devices).1⟩,
        (C.observeExisting pin record none (C.objectHash (.certificate record.body.masterCertificate))
          (C.objectHash (.record record.envelope)) devices).2) := by
  obtain ⟨devices, hidx⟩ := indexedDevices_total hver
  obtain ⟨revision, hepoch⟩ := hver.wellFormed.epoch
  refine ⟨devices, hidx, ?_⟩
  unfold observe observeWithPrevious
  dsimp only
  rw [hepoch, hidx, hpin]

theorem observe_foreign
    (hprinc : pin.principalId ≠ record.body.principalId ∨ pin.principalKind ≠ record.body.principalKind) :
    (C.observe pins record).2 = .error (reject "custody immutable identity changed") := by
  obtain ⟨devices, -, hobs⟩ := observe_eq hver hpin
  obtain ⟨revision, hepoch⟩ := hver.wellFormed.epoch
  rw [hobs]
  unfold observeExisting
  dsimp only
  rw [hepoch]
  dsimp only
  rw [if_pos hprinc]

theorem observe_rollback (hprinc : ¬ (pin.principalId ≠ record.body.principalId ∨
      pin.principalKind ≠ record.body.principalKind))
    {pinned : ℕ × ℕ} (hpinned : decodeEpoch pin.epoch = .ok pinned) (hrange : record.range < pinned.1) :
    (C.observe pins record).2 = .error (reject "custody epoch rollback") := by
  obtain ⟨devices, -, hobs⟩ := observe_eq hver hpin
  obtain ⟨revision, hepoch⟩ := hver.wellFormed.epoch
  rw [hobs]
  unfold observeExisting
  dsimp only
  rw [hepoch]
  dsimp only
  rw [if_neg hprinc, hpinned]
  dsimp only
  rw [if_pos hrange]

end

end

/-- A verified record of the pinned principal that contradicts the pin, of a range not below the head's,
fences its range for good. The evidence kept is within both budgets, and counted exactly. One of another
principal or of a range below is refused, and changes nothing. -/
theorem equivocation_fences (C : CustodyCrypto) (hdigest : ∀ object, (C.digest object).length = 32)
    (anchor : String) {log : List (VerifiedRecord × Except CustodyError PinOutcome)}
    {pins : AuthorityPins} (hrun : Run C.Observes .default log pins) {pin : AccountPin}
    (hpin : pins.accounts[anchor]? = some pin) {record : VerifiedRecord} (hver : C.IsVerified record)
    (hanchor : record.body.anchor = anchor) (hconflict : C.Conflicts pin record) :
    (pin.principalId = record.body.principalId ∧ pin.principalKind = record.body.principalKind →
      pin.epoch / 2 ^ 32 ≤ record.range →
      ∃ pins' pin' alert, C.observe pins record = (pins', .ok (.fenced alert)) ∧
        pins'.accounts[anchor]? = some pin' ∧
        (∀ later pins'', Run C.Observes pins' later pins'' → ∀ other, C.IsVerified other →
          other.body.anchor = anchor → other.range = record.range →
          C.requireCurrent pins'' other ≠ .ok ()) ∧
        pin'.conflicts.size ≤ 8 ∧ (C.conflictsJson pin'.conflicts).length ≤ 4 * 1024 * 1024 ∧
        (∃ evidence, pin'.conflicts[record.range]? = some evidence ∧
          (evidence.conflicting = record.envelope ∨ pin.conflicts[record.range]? = some evidence)) ∧
        ∀ before retained kept bytes, C.pruneEvidence before retained = (kept, .ok bytes) →
          bytes = (C.conflictsJson kept.conflicts).length) ∧
    (pin.principalId ≠ record.body.principalId ∨ pin.principalKind ≠ record.body.principalKind →
      C.observe pins record = (pins, .error (reject "custody immutable identity changed"))) ∧
    (pin.principalId = record.body.principalId ∧ pin.principalKind = record.body.principalKind →
      record.range < pin.epoch / 2 ^ 32 →
      C.observe pins record = (pins, .error (reject "custody epoch rollback"))) := by
  subst hanchor
  obtain ⟨head, hkeeps⟩ := keeps_of_run hrun hpin
  refine ⟨fun hprinc hrange => ?_, fun hprinc => ?_, fun hprinc hrange => ?_⟩
  rotate_left
  · have herror := observe_foreign hver hpin hprinc
    exact Prod.ext (observe_error rfl herror) herror
  · obtain ⟨revision, hpinned⟩ := hkeeps.pinsHead.verified.wellFormed.epoch
    have hsame : ¬ (pin.principalId ≠ record.body.principalId ∨
        pin.principalKind ≠ record.body.principalKind) := by
      rw [hprinc.1, hprinc.2]
      simp
    rw [← hkeeps.pinsHead.epoch] at hpinned
    have herror := observe_rollback hver hpin hsame hpinned (decodeEpoch_range hpinned ▸ hrange)
    exact Prod.ext (observe_error rfl herror) herror
  obtain ⟨devices, -, hobs⟩ := observe_eq hver hpin
  obtain ⟨next, alert, hexisting, hshows⟩ := @Keeps.observeExisting C pin record head _ hdigest
    hkeeps hver hprinc hrange hconflict none devices
  rw [hexisting] at hobs
  have hnext : (pins.accounts.insert record.body.anchor next)[record.body.anchor]? = some next :=
    Std.ExtTreeMap.getElem?_insert_self
  refine ⟨_, next, alert, hobs, hnext, ?_, hshows.budget.1, ?_, hshows.evidence, ?_⟩
  · intro later pins'' hlater other hother hanchor' hsame hcur
    obtain ⟨last, hlast, hgrows⟩ := grows_of_run hlater hnext
    have hopen := (requireCurrent_ok hlast hanchor' hcur).1
    rw [hsame] at hopen
    exact hopen (hgrows.fenced _ hshows.fenced)
  · have hbytes := hshows.budget.2
    unfold maxConflictEvidenceBytes at hbytes
    omega
  · intro before retained kept bytes hprune
    exact pruneLoop_exact hprune

/-- Scheme with 32-byte digests that go by the time of issue. -/
def shortCustody : CustodyCrypto := openCustody fun
  | .record envelope => List.replicate 32 (UInt8.ofNat envelope.body.issuedAt)
  | .certificate envelope => List.replicate 32 (UInt8.ofNat envelope.body.issuedAt)
  | .branch _ => List.replicate 32 0

theorem shortCustody_digest (object : CustodyObject) : (shortCustody.digest object).length = 32 := by
  cases object <;> exact length_replicate

def shortVerify (principal : String) (range revision serial : ℕ) : Except CustodyError VerifiedRecord :=
  shortCustody.verifyRecord
    (sampleEnvelope principal range revision serial (sampleText (UInt8.ofNat serial))) 1 none none

def shortFirst : VerifiedRecord := (shortVerify "ada" 1 1 0).toOption.get (by decide +kernel)

def shortSecond : VerifiedRecord := (shortVerify "ada" 2 1 1).toOption.get (by decide +kernel)

/-- Two ranges were accepted, one after the other. -/
def shortPins : AuthorityPins :=
  (shortCustody.observe (shortCustody.observe .default shortFirst).1 shortSecond).1

theorem shortPins_pin : ∃ pin, shortPins.accounts[sampleText 0]? = some pin ∧
    pin.principalId = "ada" ∧ pin.principalKind = .human ∧ pin.epoch = 2 * 2 ^ 32 + 1 ∧
    pin.hash = sampleText 1 ∧ pin.certificates[1]? = some (sampleText 0) ∧
    pin.certificates[2]? = some (sampleText 1) := by
  have hfacts : ∃ pin ∈ shortPins.accounts[sampleText 0]?,
    pin.principalId = "ada" ∧ pin.principalKind = .human ∧ pin.epoch = 2 * 2 ^ 32 + 1 ∧
    pin.hash = sampleText 1 ∧ pin.certificates[1]? = some (sampleText 0) ∧
    pin.certificates[2]? = some (sampleText 1) := by decide +kernel
  exact hfacts

variable {r : VerifiedRecord}

theorem shortVerify_verified {principal : String} {serial : ℕ}
    (h : shortVerify principal range revision serial = .ok r) :
    shortCustody.IsVerified r ∧ r.envelope =
      sampleEnvelope principal range revision serial (sampleText (UInt8.ofNat serial)) :=
  ⟨⟨_, _, _, _, h⟩, verifyRecord_envelope h⟩

theorem body_eq (h : r.envelope = envelope) : r.body = envelope.body := congrArg Envelope.body h

theorem shortPins_run : Run shortCustody.Observes .default
    [(shortFirst, .ok .advanced), (shortSecond, .ok .advanced)] shortPins := by
  have hfirst : shortVerify "ada" 1 1 0 = .ok shortFirst := eq_ok_get _
  have hsecond : shortVerify "ada" 2 1 1 = .ok shortSecond := eq_ok_get _
  obtain ⟨hver, henv⟩ := shortVerify_verified hfirst
  obtain ⟨hver', henv'⟩ := shortVerify_verified hsecond
  exact .cons (observes_of_result hver (by decide +kernel))
    (.single (observes_of_result hver' (by decide +kernel)))

def shortFork : VerifiedRecord := (shortVerify "ada" 2 2 2).toOption.get (by decide +kernel)

/-- A second certificate for the pinned range. -/
theorem equivocation_fences_fork : ∃ pin, shortPins.accounts[sampleText 0]? = some pin ∧
    shortCustody.Conflicts pin shortFork ∧
    ∃ pins' alert, shortCustody.observe shortPins shortFork = (pins', .ok (.fenced alert)) := by
  have hfork : shortVerify "ada" 2 2 2 = .ok shortFork := eq_ok_get _
  obtain ⟨hver, henv⟩ := shortVerify_verified hfork
  obtain ⟨pin, hpin, hprinc, hkind, hepoch, -, -, hcert⟩ := shortPins_pin
  have hbody := body_eq henv
  have hrange : shortFork.range = 2 := by
    decide
  have hconflict : shortCustody.Conflicts pin shortFork := by
    refine .inl ⟨sampleText 1, hrange ▸ hcert, ?_⟩
    decide +kernel
  obtain ⟨pins', pin', alert, hobs, -⟩ := (equivocation_fences shortCustody shortCustody_digest
    (sampleText 0) shortPins_run hpin hver (by rw [hbody]; rfl) hconflict).1
    (by rw [hprinc, hkind, hbody]; exact ⟨rfl, rfl⟩) (by rw [hepoch, hrange]; decide)
  exact ⟨pin, hpin, hconflict, pins', alert, hobs⟩

def shortStale : VerifiedRecord := (shortVerify "ada" 1 2 2).toOption.get (by decide +kernel)

def shortForeign : VerifiedRecord := (shortVerify "eve" 2 1 3).toOption.get (by decide +kernel)

/-- A second certificate for a range the head has left is refused as a rollback, a head of another
principal as a change of identity. Neither fences. -/
theorem conflicts_not_fenced : (∀ object, (shortCustody.digest object).length = 32) ∧
    Run shortCustody.Observes .default
      [(shortFirst, .ok .advanced), (shortSecond, .ok .advanced)] shortPins ∧
    ∃ pin, shortPins.accounts[sampleText 0]? = some pin ∧
    (shortCustody.IsVerified shortStale ∧ shortStale.body.anchor = sampleText 0 ∧
      shortCustody.Conflicts pin shortStale ∧
      (shortCustody.observe shortPins shortStale).2 = .error (reject "custody epoch rollback")) ∧
    shortCustody.IsVerified shortForeign ∧ shortForeign.body.anchor = sampleText 0 ∧
      shortCustody.Conflicts pin shortForeign ∧ (shortCustody.observe shortPins shortForeign).2 =
        .error (reject "custody immutable identity changed") := by
  have hstale : shortVerify "ada" 1 2 2 = .ok shortStale := eq_ok_get _
  have hforeign : shortVerify "eve" 2 1 3 = .ok shortForeign := eq_ok_get _
  obtain ⟨hver, henv⟩ := shortVerify_verified hstale
  obtain ⟨hver', henv'⟩ := shortVerify_verified hforeign
  obtain ⟨pin, hpin, hprinc, hkind, hepoch, hhash, hcert, -⟩ := shortPins_pin
  have hbody := body_eq henv
  have hbody' := body_eq henv'
  have hanchor : shortStale.body.anchor = sampleText 0 := by rw [hbody]; rfl
  have hanchor' : shortForeign.body.anchor = sampleText 0 := by rw [hbody']; rfl
  have hrange : shortStale.range = 1 := by
    decide
  refine ⟨shortCustody_digest, shortPins_run, pin, hpin,
    ⟨hver, hanchor, .inl ⟨sampleText 0, hrange ▸ hcert, ?_⟩, ?_⟩,
    hver', hanchor', .inr ⟨?_, ?_⟩, ?_⟩
  · decide +kernel
  · have hpinned : decodeEpoch pin.epoch = .ok (2, 1) := by
      rw [hepoch]
      rfl
    refine observe_rollback hver (hanchor ▸ hpin) ?_ hpinned ?_
    · rw [hprinc, hkind, hbody]
      decide
    · decide
  · rw [hepoch, hbody']
    decide
  · rw [hhash, henv']
    decide +kernel
  · refine observe_foreign hver' (hanchor' ▸ hpin) (.inl ?_)
    rw [hprinc, hbody']
    decide

end CustodyCrypto

end Ramflux.Custody
