import Ramflux.Crypto.CustodyVerified
import Ramflux.Crypto.CustodyEvidence
import Ramflux.Lib.Run

/-! Over sequences of observations nothing accepted, denied or fenced is taken back. -/
namespace Ramflux.Custody
open Fallible CustodyCrypto List Std.ExtTreeMap Option

namespace AccountPin

/-- Everything that is known at `pin` is still known at `next`. -/
structure Grows (pin next : AccountPin) : Prop where
  epoch : pin.epoch ≤ next.epoch
  certificates : ∀ (range : ℕ) certificate, pin.certificates[range]? = some certificate →
    next.certificates[range]? = some certificate
  revoked : ∀ id ∈ pin.revokedIds, id ∈ next.revokedIds
  fenced : ∀ range ∈ pin.fencedRanges, range ∈ next.fencedRanges
  devices : ∀ (device : QualifiedDevice) known, pin.devices[device]? = some known →
    ∃ known', next.devices[device]? = some known' ∧ known.epoch ≤ known'.epoch ∧
      (known'.epoch = known.epoch → known' = known)

variable {pin next last : AccountPin}

theorem Grows.refl (pin : AccountPin) : pin.Grows pin :=
  ⟨le_rfl, fun _ _ h => h, fun _ h => h, fun _ h => h, fun _ known h => ⟨known, h, le_rfl, fun _ => rfl⟩⟩

theorem Grows.trans (h : pin.Grows next) (h' : next.Grows last) : pin.Grows last where
  epoch := h.epoch.trans h'.epoch
  certificates range certificate hget := h'.certificates range certificate
    (h.certificates range certificate hget)
  revoked id hid := h'.revoked id (h.revoked id hid)
  fenced range hrange := h'.fenced range (h.fenced range hrange)
  devices device known hget := by
    obtain ⟨known', hget', hle, heq⟩ := h.devices device known hget
    obtain ⟨known'', hget'', hle', heq'⟩ := h'.devices device known' hget'
    refine ⟨known'', hget'', hle.trans hle', fun hepoch => ?_⟩
    have hmiddle : known'.epoch = known.epoch := by omega
    rw [heq' (hepoch.trans hmiddle.symm), heq hmiddle]

end AccountPin

namespace CustodyCrypto
variable {C : CustodyCrypto} {pin next : AccountPin} {record : VerifiedRecord}

variable {devices : OrdMap QualifiedDevice DevicePin}
  {outcome : AccountPin × Except CustodyError PinOutcome}

theorem indexedDevices_ok (h : C.indexedDevices record = .ok devices) {key : QualifiedDevice}
    {known : DevicePin} (hget : devices[key]? = some known) : ∃ device ∈ record.body.devices,
      C.fromCustodyRecord record device.deviceId = .ok key ∧
      known = ⟨device.deviceEpoch, device.signingKeyCommitment, device.agreementKeyCommitment⟩ := by
  have hinit : ∀ (key : QualifiedDevice) known,
      (∅ : OrdMap QualifiedDevice DevicePin)[key]? = some known →
      ∃ device ∈ record.body.devices, C.fromCustodyRecord record device.deviceId = .ok key ∧
        known = ⟨device.deviceEpoch, device.signingKeyCommitment, device.agreementKeyCommitment⟩ := by
    intro key known hnone
    simp at hnone
  refine foldlM_ok (P := fun devices : OrdMap QualifiedDevice DevicePin => ∀ (key : QualifiedDevice) known,
    devices[key]? = some known → ∃ device ∈ record.body.devices,
      C.fromCustodyRecord record device.deviceId = .ok key ∧
      known = ⟨device.deviceEpoch, device.signingKeyCommitment, device.agreementKeyCommitment⟩)
    h hinit ?_ key known hget
  intro devices device next hdev ih hround key known hget
  obtain ⟨reference, href, hround⟩ := bind_eq_ok.mp hround
  cases hround
  rw [OrdMap.getElem?_insert_eq] at hget
  split_ifs at hget with hkey
  · subst hkey
    exact ⟨device, hdev, href, (some.inj hget).symm⟩
  · exact ih key known hget

structure TransitionOk (C : CustodyCrypto) (pin : AccountPin) (record : VerifiedRecord) : Prop where
  revoked : ∀ id ∈ pin.revokedIds, id ∈ record.revokedIds
  branches : ∀ device ∈ record.body.devices, C.checkBranch pin record device = .ok ()

variable {u : Unit}

theorem validateTransition_ok (h : C.validateTransition pin record = .ok u) :
    TransitionOk C pin record := by
  replace h := ok_after h
  obtain ⟨hrev, h⟩ := not_refused h
  obtain ⟨_, hbranches, -⟩ := bind_eq_ok.mp h
  have hrev := not_not.mp hrev
  refine ⟨fun id hid => hrev id (Std.ExtTreeSet.mem_toList.mpr hid), forM_eq_ok.mp hbranches⟩

theorem Accepted.devices_grow {range : ℕ} {certificate hash : String}
    {devices : OrdMap QualifiedDevice DevicePin} (hidx : C.indexedDevices record = .ok devices)
    (hok : TransitionOk C pin record) (h : Accepted C pin record range certificate hash devices next)
    {device : QualifiedDevice} {known : DevicePin} (hget : pin.devices[device]? = some known) :
    ∃ known', next.devices[device]? = some known' ∧ known.epoch ≤ known'.epoch ∧
      (known'.epoch = known.epoch → known' = known) := by
  have hnext : next.devices[device]? = (devices[device]?).or (some known) := by
    rw [h.others]
    rw [getElem?_union, hget]
  cases hnew : devices[device]? with
  | none =>
    rw [hnew] at hnext
    exact ⟨known, hnext, le_rfl, fun _ => rfl⟩
  | some known' =>
    rw [hnew] at hnext
    obtain ⟨entry, hentry, href, rfl⟩ := indexedDevices_ok hidx hnew
    obtain ⟨reference, href', hcheck⟩ := bind_eq_ok.mp (hok.branches entry hentry)
    cases href.symm.trans href'
    have hcheck := refuseWhen_eq_ok.mp hcheck
    have hage : known.epoch ≤ entry.deviceEpoch := by
      by_contra hlt
      exact hcheck ⟨known, hget, .inl (Nat.lt_of_not_le hlt)⟩
    refine ⟨_, hnext, hage, fun hepoch => ?_⟩
    have hepoch : entry.deviceEpoch = known.epoch := hepoch
    by_contra hne
    refine hcheck ⟨known, hget, .inr ⟨hepoch, ?_⟩⟩
    by_contra hsame
    simp only [not_or, not_not] at hsame
    exact hne (by rw [hsame.1, hsame.2, hepoch])

/-- What one observation by an existing pin does. -/
inductive Observed (C : CustodyCrypto) (pin : AccountPin) (record : VerifiedRecord) :
    AccountPin × Except CustodyError PinOutcome → Prop
  | refused (e : CustodyError) : Observed C pin record (pin, .error e)
  | known (alert : CustodyConflictAlert) : Observed C pin record (pin, .ok (.fenced alert))
  | fenced {next : AccountPin} (alert : CustodyConflictAlert) : Fenced C pin record.envelope record.range next →
      Observed C pin record (next, .ok (.fenced alert))
  | unchanged {current : Option (Envelope DeviceSet)} :
      pin.epoch = record.body.deviceSetEpoch →
      pin.hash = C.objectHash (.record record.envelope) →
      (pin.currentRecord = current ∨ pin.currentRecord = none ∧ current = some record.envelope) →
      Observed C pin record ({ pin with currentRecord := current }, .ok .unchanged)
  | advanced {next : AccountPin} {devices : OrdMap QualifiedDevice DevicePin} :
      C.indexedDevices record = .ok devices → pin.epoch < record.body.deviceSetEpoch →
      record.range ∉ pin.fencedRanges →
      (∀ old, pin.certificates[record.range]? = some old →
        old = C.objectHash (.certificate record.body.masterCertificate)) →
      TransitionOk C pin record →
      Accepted C pin record record.range (C.objectHash (.certificate record.body.masterCertificate))
        (C.objectHash (.record record.envelope)) devices next →
      Observed C pin record (next, .ok .advanced)

variable {previous : Option (Envelope DeviceSet)}

theorem Observed.of_fence {kind : CustodyConflictKind} :
    Observed C pin record (C.fence pin record.envelope previous record.range kind) := by
  rcases @fence_cases C pin record.envelope previous record.range kind with
    ⟨evidence, -, h⟩ | ⟨e, h⟩ | ⟨next, alert, h, hfenced⟩
  · rw [h]
    exact .known evidence.alert
  · rw [h]
    exact .refused e
  · rw [h]
    exact .fenced alert hfenced

theorem observeExisting_observed (hidx : C.indexedDevices record = .ok devices) :
    Observed C pin record (C.observeExisting pin record previous
      (C.objectHash (.certificate record.body.masterCertificate))
      (C.objectHash (.record record.envelope)) devices) := by
  unfold observeExisting
  dsimp only
  cases hepoch : decodeEpoch record.body.deviceSetEpoch with
  | error e => exact .refused e
  | ok decoded =>
    obtain ⟨range, revision⟩ := decoded
    obtain rfl : range = record.range := decodeEpoch_range hepoch
    dsimp only
    by_cases hident : pin.principalId ≠ record.body.principalId ∨
        pin.principalKind ≠ record.body.principalKind
    · rw [if_pos hident]
      exact .refused _
    rw [if_neg hident]
    cases hpinned : decodeEpoch pin.epoch with
    | error e => exact .refused e
    | ok pinned =>
      dsimp only
      by_cases hrange : record.range < pinned.1
      · rw [if_pos hrange]
        exact .refused _
      rw [if_neg hrange]
      by_cases hcert : ∃ old ∈ pin.certificates[record.range]?,
          old ≠ C.objectHash (.certificate record.body.masterCertificate)
      · rw [if_pos hcert]
        exact .of_fence
      rw [if_neg hcert]
      by_cases hold : record.body.deviceSetEpoch < pin.epoch
      · rw [if_pos hold]
        exact .refused _
      rw [if_neg hold]
      by_cases hsame : record.body.deviceSetEpoch = pin.epoch
      · rw [if_pos hsame]
        by_cases hhash : pin.hash ≠ C.objectHash (.record record.envelope)
        · rw [if_pos hhash]
          exact .of_fence
        rw [if_neg hhash]
        have hhash := not_not.mp hhash
        by_cases hfenced : record.range ∈ pin.fencedRanges
        · rw [if_pos hfenced]
          cases pin.conflicts[record.range]? with
          | none => exact .refused _
          | some evidence => exact .known evidence.alert
        split_ifs with hnone
        · exact .unchanged hsame.symm hhash (.inr ⟨isNone_iff_eq_none.mp hnone, rfl⟩)
        · exact .unchanged hsame.symm hhash (.inl rfl)
      rw [if_neg hsame]
      by_cases hfenced : record.range ∈ pin.fencedRanges
      · rw [if_pos hfenced]
        exact .of_fence
      rw [if_neg hfenced]
      cases htransition : C.validateTransition pin record with
      | error e => exact .refused e
      | ok u =>
        obtain ⟨next, haccept, hacc⟩ := @accept_spec C pin record.range record
          (C.objectHash (.certificate record.body.masterCertificate))
          (C.objectHash (.record record.envelope)) devices
        rw [haccept]
        refine .advanced hidx (by omega) hfenced ?_ (validateTransition_ok htransition) hacc
        intro old hget
        by_contra hne
        exact hcert ⟨old, hget, hne⟩

theorem Observed.grows (h : Observed C pin record outcome) : pin.Grows outcome.1 := by
  cases h with
  | refused e | known alert => exact .refl pin
  | fenced alert h =>
    rw [h.others]
    refine ⟨le_rfl, fun _ _ hget => hget, fun _ hid => hid, fun range hrange => ?_,
      fun _ known hget => ⟨known, hget, le_rfl, fun _ => rfl⟩⟩
    exact OrdSet.mem_insert_iff.mpr (.inr hrange)
  | unchanged => exact ⟨le_rfl, fun _ _ hget => hget, fun _ hid => hid, fun _ hrange => hrange,
      fun _ known hget => ⟨known, hget, le_rfl, fun _ => rfl⟩⟩
  | @advanced next devices hidx hepoch hopen hcert hok h =>
    have hdevices := fun device known => @h.devices_grow C pin next record _ _ _ devices hidx hok device known
    rw [h.others] at hdevices ⊢
    refine ⟨hepoch.le, fun range certificate hget => ?_, fun id hid => ?_, fun _ hrange => hrange,
      hdevices⟩
    · rw [OrdMap.getElem?_insert_eq]
      split_ifs with hrange
      · subst hrange
        rw [hcert certificate hget]
      · exact hget
    · exact Std.ExtTreeSet.mem_union_iff.mpr (.inl hid)

structure PinsHead (C : CustodyCrypto) (anchor : String) (pin : AccountPin) (head : VerifiedRecord) :
    Prop where
  verified : C.IsVerified head
  anchor : head.body.anchor = anchor
  epoch : pin.epoch = head.body.deviceSetEpoch
  hash : pin.hash = C.objectHash (.record head.envelope)
  current : pin.currentRecord = some head.envelope
  revoked : ∀ id, id ∈ pin.revokedIds ↔ id ∈ head.revokedIds

variable {anchor : String} {head : VerifiedRecord}

theorem Observed.pinsHead (h : Observed C pin record outcome) (hhead : PinsHead C anchor pin head)
    (hver : C.IsVerified record) (hanchor : record.body.anchor = anchor) :
    outcome.2 = .ok .advanced ∧ PinsHead C anchor outcome.1 record ∨
      outcome.2 ≠ .ok .advanced ∧ PinsHead C anchor outcome.1 head := by
  cases h with
  | refused e | known alert => exact .inr ⟨nofun, hhead⟩
  | fenced alert h =>
    refine .inr ⟨nofun, ?_⟩
    rw [h.others]
    exact ⟨hhead.verified, hhead.anchor, hhead.epoch, hhead.hash, hhead.current, hhead.revoked⟩
  | unchanged _ _ hcur =>
    refine .inr ⟨nofun, hhead.verified, hhead.anchor, hhead.epoch, hhead.hash, ?_, hhead.revoked⟩
    rcases hcur with hcur | ⟨hnone, -⟩
    · exact hcur ▸ hhead.current
    · rw [hhead.current] at hnone
      cases hnone
  | advanced _ _ _ _ hok h =>
    refine .inl ⟨rfl, ?_⟩
    rw [h.others]
    refine ⟨hver, hanchor, rfl, rfl, rfl, fun id => ?_⟩
    refine ⟨fun hid => ?_, fun hid => Std.ExtTreeSet.mem_union_iff.mpr (.inr hid)⟩
    rcases Std.ExtTreeSet.mem_union_iff.mp hid with hid | hid
    · exact hok.revoked id hid
    · exact hid

theorem pinsHead_firstPin {range : ℕ} {certificate : String} (hver : C.IsVerified record)
    (hanchor : record.body.anchor = anchor) :
    PinsHead C anchor (firstPin record range certificate (C.objectHash
    (.record record.envelope)) devices) record :=
  ⟨hver, hanchor, rfl, rfl, rfl, fun _ => Iff.rfl⟩

variable {pins pins' : AuthorityPins}

/-- A call leaves the pins alone, makes the account's first pin, or updates it. -/
theorem observe_cases (hanchor : record.body.anchor = anchor) :
    (∃ e, C.observe pins record = (pins, .error e)) ∨
    (pins.accounts[anchor]? = none ∧ ∃ range revision devices,
      decodeEpoch record.body.deviceSetEpoch = .ok (range, revision) ∧
      C.observe pins record = (⟨pins.accounts.insert anchor
        (firstPin record range (C.objectHash (.certificate record.body.masterCertificate))
          (C.objectHash (.record record.envelope)) devices)⟩, .ok .advanced)) ∨
    ∃ pin outcome, pins.accounts[anchor]? = some pin ∧ Observed C pin record outcome ∧
      C.observe pins record = (⟨pins.accounts.insert anchor outcome.1⟩, outcome.2) := by
  subst hanchor
  unfold observe observeWithPrevious
  dsimp only
  cases hepoch : decodeEpoch record.body.deviceSetEpoch with
  | error e => exact .inl ⟨e, rfl⟩
  | ok decoded =>
    obtain ⟨range, revision⟩ := decoded
    cases hidx : C.indexedDevices record with
    | error e => exact .inl ⟨e, rfl⟩
    | ok devices =>
      cases hpin : pins.accounts[record.body.anchor]? with
      | none => exact .inr (.inl ⟨rfl, range, revision, devices, rfl, rfl⟩)
      | some pin => exact .inr (.inr ⟨pin, _, rfl, observeExisting_observed hidx, rfl⟩)

theorem observe_error (hanchor : record.body.anchor = anchor) {e : CustodyError}
    (herror : (C.observe pins record).2 = .error e) : (C.observe pins record).1 = pins := by
  rcases @observe_cases C record anchor pins hanchor with
    ⟨e', h⟩ | ⟨-, _, _, _, -, h⟩ | ⟨pin, outcome, hpin, hobserved, h⟩
  · rw [h]
  · rw [h] at herror
    cases herror
  · rw [h] at herror ⊢
    cases hobserved with
    | refused e' =>
      have hsame : pins.accounts.insert anchor pin = pins.accounts := by
        refine ext_getElem? fun key => ?_
        rw [OrdMap.getElem?_insert_eq]
        split_ifs with hkey
        · rw [← hkey, hpin]
        · rfl
      rw [hsame]
    | known alert | fenced alert _ | unchanged _ _ _ | advanced _ _ _ _ _ _ => cases herror

/-- One call on a verified record of any account, with its result. -/
def Observes (C : CustodyCrypto) (pins : AuthorityPins) (call : VerifiedRecord × Except CustodyError PinOutcome)
    (pins' : AuthorityPins) : Prop :=
  C.IsVerified call.1 ∧ C.observe pins call.1 = (pins', call.2)

theorem observes_of_result {result : Except CustodyError PinOutcome} (hver : C.IsVerified record)
    (hres : (C.observe pins record).2 = result) : C.Observes pins (record, result) (C.observe pins record).1 :=
  ⟨hver, Prod.ext rfl hres⟩

variable {call : VerifiedRecord × Except CustodyError PinOutcome}

/-- What a call does to the pin of an account: only a record of its own touches it. -/
theorem Observes.cases (h : C.Observes pins call pins') (anchor : String) :
    (pins'.accounts[anchor]? = pins.accounts[anchor]? ∧
      (call.1.body.anchor = anchor → call.2 ≠ .ok .advanced)) ∨
    call.1.body.anchor = anchor ∧
      ((pins.accounts[anchor]? = none ∧ ∃ range revision devices,
        decodeEpoch call.1.body.deviceSetEpoch = .ok (range, revision) ∧
        pins'.accounts[anchor]? = some
          (firstPin call.1 range (C.objectHash (.certificate call.1.body.masterCertificate))
            (C.objectHash (.record call.1.envelope)) devices)) ∨
      ∃ pin outcome, pins.accounts[anchor]? = some pin ∧ Observed C pin call.1 outcome ∧
        pins'.accounts[anchor]? = some outcome.1 ∧ call.2 = outcome.2) := by
  obtain ⟨-, hobs⟩ := h
  by_cases hanchor : call.1.body.anchor = anchor
  · rcases @observe_cases C call.1 anchor pins hanchor with
      ⟨e, h⟩ | ⟨hnone, range, revision, devices, hepoch, h⟩ | ⟨pin, outcome, hpin, hobserved, h⟩
    all_goals obtain ⟨rfl, hres⟩ := Prod.mk.inj (hobs.symm.trans h)
    · exact .inl ⟨rfl, fun _ => by rw [hres]; nofun⟩
    · exact .inr ⟨hanchor, .inl ⟨hnone, range, revision, devices, hepoch, getElem?_insert_self⟩⟩
    · exact .inr ⟨hanchor, .inr ⟨pin, outcome, hpin, hobserved, getElem?_insert_self, hres⟩⟩
  · refine .inl ⟨?_, fun h => absurd h hanchor⟩
    rcases @observe_cases C call.1 _ pins rfl with ⟨e, h⟩ | ⟨-, _, _, _, -, h⟩ | ⟨_, _, -, -, h⟩
    all_goals obtain ⟨rfl, -⟩ := Prod.mk.inj (hobs.symm.trans h)
    · rfl
    · exact (OrdMap.getElem?_insert_eq ..).trans (if_neg hanchor)
    · exact (OrdMap.getElem?_insert_eq ..).trans (if_neg hanchor)

theorem Observes.grows (h : C.Observes pins call pins') (hpin : pins.accounts[anchor]? = some pin) :
    ∃ pin', pins'.accounts[anchor]? = some pin' ∧ pin.Grows pin' := by
  rcases h.cases anchor with ⟨hsame, -⟩ | ⟨-, ⟨hnone, -⟩ | ⟨known, outcome, hknown, hobserved, hnext, -⟩⟩
  · exact ⟨pin, hsame.trans hpin, .refl pin⟩
  · rw [hpin] at hnone
    cases hnone
  · cases hpin.symm.trans hknown
    exact ⟨outcome.1, hnext, hobserved.grows⟩

variable {log after : List (VerifiedRecord × Except CustodyError PinOutcome)}

theorem grows_of_run (hrun : Run C.Observes pins log pins') (hpin : pins.accounts[anchor]? = some pin) :
    ∃ pin', pins'.accounts[anchor]? = some pin' ∧ pin.Grows pin' := by
  refine hrun.preserves (P := fun pins => ∃ pin', pins.accounts[anchor]? = some pin' ∧ pin.Grows pin')
    ⟨pin, hpin, .refl pin⟩ ?_
  rintro pins call pins' ⟨middle, hmiddle, hgrows⟩ hstep
  obtain ⟨pin', hpin', hgrows'⟩ := hstep.grows hmiddle
  exact ⟨pin', hpin', hgrows.trans hgrows'⟩

/-- The record became the head of the account. -/
def Advanced (anchor : String) (log : List (VerifiedRecord × Except CustodyError PinOutcome))
    (head : VerifiedRecord) : Prop :=
  (head, .ok .advanced) ∈ log ∧ head.body.anchor = anchor

theorem advanced_concat : Advanced anchor (log ++ [call]) head ↔
    Advanced anchor log head ∨ (head, .ok .advanced) = call ∧ head.body.anchor = anchor := by
  unfold Advanced
  rw [mem_append, mem_singleton, or_and_right]

/-- What the pins hold of the calls so far. -/
def Tracks (C : CustodyCrypto) (anchor : String)
    (log : List (VerifiedRecord × Except CustodyError PinOutcome)) (pins : AuthorityPins) : Prop :=
  (pins.accounts[anchor]? = none ∧ ∀ head, ¬ Advanced anchor log head) ∨
  ∃ pin head, pins.accounts[anchor]? = some pin ∧ PinsHead C anchor pin head ∧
    ∀ head, Advanced anchor log head → ∀ id ∈ head.revokedIds, id ∈ pin.revokedIds

theorem Tracks.step (h : C.Tracks anchor log pins) (hstep : C.Observes pins call pins') :
    C.Tracks anchor (log ++ [call]) pins' := by
  rcases hstep.cases anchor with ⟨hsame, hother⟩ |
    ⟨hanchor, ⟨hnone, range, revision, devices, -, hnext⟩ | ⟨pin, outcome, hpin, hobserved, hnext, hres⟩⟩
  · have hheads : ∀ head, Advanced anchor (log ++ [call]) head ↔ Advanced anchor log head := by
      intro head
      rw [advanced_concat, or_iff_left]
      rintro ⟨rfl, hanchor⟩
      exact hother hanchor rfl
    simpa only [Tracks, hsame, hheads] using h
  · have hfresh : ∀ head, ¬ Advanced anchor log head := by
      rcases h with ⟨-, h⟩ | ⟨pin, head, hpin, -⟩
      · exact h
      · rw [hnone] at hpin
        cases hpin
    refine .inr ⟨_, call.1, hnext, pinsHead_firstPin hstep.1 hanchor, fun head hhead id hid => ?_⟩
    rcases advanced_concat.mp hhead with hhead | ⟨rfl, -⟩
    · exact absurd hhead (hfresh head)
    · exact hid
  · rcases h with ⟨hnone, -⟩ | ⟨known, head, hknown, hhead, hdenied⟩
    · rw [hpin] at hnone
      cases hnone
    cases hpin.symm.trans hknown
    have hkept : ∀ head, Advanced anchor log head → ∀ id ∈ head.revokedIds, id ∈ outcome.1.revokedIds :=
      fun head hmem id hid => hobserved.grows.revoked id (hdenied head hmem id hid)
    rcases hobserved.pinsHead hhead hstep.1 hanchor with ⟨-, hpins⟩ | ⟨hnot, hpins⟩
    · refine .inr ⟨outcome.1, call.1, hnext, hpins, fun head hmem id hid => ?_⟩
      rcases advanced_concat.mp hmem with hmem | ⟨rfl, -⟩
      · exact hkept head hmem id hid
      · exact (hpins.revoked id).mpr hid
    · refine .inr ⟨outcome.1, head, hnext, hpins, fun head hmem id hid => ?_⟩
      rcases advanced_concat.mp hmem with hmem | ⟨rfl, -⟩
      · exact hkept head hmem id hid
      · exact absurd hres.symm hnot

theorem tracks_of_run (hrun : Run C.Observes .default log pins) : C.Tracks anchor log pins :=
  hrun.invariant (P := C.Tracks anchor) (.inl ⟨getElem?_empty, fun _ h => nomatch h.1⟩)
    fun _ _ _ _ _ h hstep => h.step hstep

theorem requireCurrent_ok (hpin : pins.accounts[anchor]? = some pin)
    (hanchor : record.body.anchor = anchor) (h : C.requireCurrent pins record = .ok u) :
    record.range ∉ pin.fencedRanges ∧ pin.hash = C.objectHash (.record record.envelope) := by
  subst hanchor
  unfold requireCurrent at h
  dsimp only at h
  rw [hpin] at h
  obtain ⟨⟨range, revision⟩, hepoch, h⟩ := bind_eq_ok.mp h
  obtain rfl := decodeEpoch_range hepoch
  have h := refuseWhen_eq_ok.mp h
  simp only [not_or, not_not] at h
  exact ⟨h.1, h.2.2⟩

/-- A record that is the pin's head authorizes no device that the pin denies. -/
theorem PinsHead.authorize_error (hhash : Function.Injective C.objectHash)
    (hhead : PinsHead C anchor pin head)
    (hsame : pin.hash = C.objectHash (.record record.envelope)) {reference : DeviceRef}
    (hdenied : reference.deviceId ∈ pin.revokedIds) {capability : String} {now : ℕ}
    {certificate : BranchCertificate} : record.authorize reference capability now ≠ .ok certificate := by
  intro hauthorize
  obtain ⟨d, hd, hid, hactive⟩ := VerifiedRecord.authorize_ok hauthorize
  have hobj : CustodyObject.record head.envelope = .record record.envelope :=
    hhash (hhead.hash.symm.trans hsame)
  have henv : head.envelope = record.envelope := CustodyObject.record.inj hobj
  have hd : d ∈ head.body.devices := by
    change d ∈ head.envelope.body.devices
    rw [henv]
    exact hd
  have hfree := hhead.verified.wellFormed.active d hd hactive
  rw [hid] at hfree
  exact hfree ((hhead.revoked _).mp hdenied)

theorem Observed.fenced_range
    (h : Observed C pin record outcome) (hfenced : record.range ∈ pin.fencedRanges) :
    outcome.2 ≠ .ok .advanced ∧ outcome.1.epoch = pin.epoch ∧ outcome.1.hash = pin.hash := by
  cases h with
  | refused e | known alert | unchanged _ _ _ => exact ⟨nofun, rfl, rfl⟩
  | fenced alert h =>
    rw [h.others]
    exact ⟨nofun, rfl, rfl⟩
  | advanced _ _ hopen _ _ _ => exact absurd hfenced hopen

theorem observe_fenced_range (hanchor : record.body.anchor = anchor)
    (hpin : pins.accounts[anchor]? = some pin) (hfenced : record.range ∈ pin.fencedRanges) :
    (C.observe pins record).2 ≠ .ok .advanced ∧
      ∃ pin', (C.observe pins record).1.accounts[anchor]? = some pin' ∧ pin'.epoch = pin.epoch ∧
        pin'.hash = pin.hash := by
  rcases @observe_cases C record anchor pins hanchor with
    ⟨e, h⟩ | ⟨hnone, -⟩ | ⟨known, outcome, hknown, hobserved, h⟩
  · rw [h]
    exact ⟨nofun, pin, hpin, rfl, rfl⟩
  · rw [hpin] at hnone
    cases hnone
  · cases hpin.symm.trans hknown
    obtain ⟨hres, hhead⟩ := hobserved.fenced_range hfenced
    rw [h]
    exact ⟨hres, outcome.1, getElem?_insert_self, hhead⟩

def sampleText (b : UInt8) : String := encodeBase64url (List.replicate 32 b)

def sampleSignature : String := encodeBase64url (List.replicate 64 0)

/-- Scheme in which every key, name and signature is good. -/
def openCustody (digest : CustodyObject → Bytes) : CustodyCrypto where
  blank _ := false
  singleLineIsSafe _ := true
  weakKey _ := some false
  identityRootCommitment _ := sampleText 0
  deviceKeyCommitments _ _ := .ok (sampleText 0, sampleText 0)
  normalizeProfileDisplayName := .ok
  verifyStrict _ _ _ := true
  digest
  listDigest _ := []
  sectionHashes _ := ⟨"", "", "", "", "", ""⟩
  recordJson _ := []
  bodyLength _ := 0
  idsLength _ := 0

/-- Certificate of a range; the serial makes it one of several. -/
def sampleCertificate (principal : String) (range serial : ℕ) : Envelope MasterCertificate where
  signature := sampleSignature
  body := {
    schema := Domain.custodyMasterCertificate, version := 1, anchor := sampleText 0
    principalId := principal, principalKind := .human, masterPublicKey := sampleText 1
    selfSigningPublicKey := sampleText 2, primaryDeviceRef := ⟨sampleText 0, "phone", 1⟩
    custodyKind := .localHuman, scopes := masterScopes, rangeIndex := range, issuedAt := serial
    certId := sampleText 0, legacyBindingHash := none, previousCertificateHash := none }

/-- The phone is active under the certificate of the given hash, the tablet is revoked. -/
def sampleDevices (hash : String) : List Device := [
  { deviceId := "phone", deviceEpoch := 1, signingKeyCommitment := sampleText 0
    agreementKeyCommitment := sampleText 0, status := .active, revokedAt := none
    branchCertificate := some {
      signature := sampleSignature
      body := {
        schema := Domain.custodyBranchCertificate, version := 1, anchor := sampleText 0
        masterCertificateHash := hash, deviceId := "phone", deviceEpoch := 1
        principalKind := .human, branchSigningPublicKey := sampleText 4
        agreementIdentityPublicKey := "", capabilities := ["message", "register"], notBefore := 0
        expiresAt := 2592000, certId := sampleText 0 } }
    migrationState := .native },
  { deviceId := "tablet", deviceEpoch := 1, signingKeyCommitment := sampleText 0
    agreementKeyCommitment := sampleText 0, status := .revoked, revokedAt := some 1
    branchCertificate := none, migrationState := .revoked }]

/-- Record under the certificate of the same range and serial, which has the given hash. -/
def sampleEnvelope (principal : String) (range revision serial : ℕ) (hash : String) :
    Envelope DeviceSet where
  signature := sampleSignature
  body := {
    schema := Domain.signedDeviceSetV3, version := 3, principalId := principal
    anchor := sampleText 0, principalKind := .human, origin := "new", custodyMode := "v3"
    deviceSetEpoch := range * 2 ^ 32 + revision, previousRecordHash := none, issuedAt := serial
    masterCertificate := sampleCertificate principal range serial, legacyBinding := none
    profile := ⟨.human, "Ada", none⟩, devices := sampleDevices hash, delegations := []
    revokedDelegationIds := [], migration := none, revokedDeviceCheckpoint := none
    sectionHashes := ⟨"", "", "", "", "", ""⟩ }

/-- Over calls on verified records of all accounts, what a pin holds keeps standing, a denied device is
authorized by no later current record, fenced ranges stay closed, and refused calls change nothing. -/
theorem pins_monotone (C : CustodyCrypto) (hhash : Function.Injective C.objectHash) (anchor : String)
    {before after : List (VerifiedRecord × Except CustodyError PinOutcome)} {pins pins' : AuthorityPins}
    (hbefore : Run C.Observes .default before pins) (hafter : Run C.Observes pins after pins') :
    (∀ pin, pins.accounts[anchor]? = some pin →
      ∃ pin', pins'.accounts[anchor]? = some pin' ∧ pin.Grows pin') ∧
    (∀ head, Advanced anchor before head → ∀ reference : DeviceRef,
      reference.deviceId ∈ head.revokedIds → ∀ record, C.IsVerified record →
      record.body.anchor = anchor → C.requireCurrent pins' record = .ok () →
      ∀ capability now certificate, record.authorize reference capability now ≠ .ok certificate) ∧
    (∀ pin range, pins.accounts[anchor]? = some pin → range ∈ pin.fencedRanges →
      ∀ record, C.IsVerified record → record.body.anchor = anchor → record.range = range →
        C.requireCurrent pins' record ≠ .ok () ∧ (C.observe pins' record).2 ≠ .ok .advanced ∧
        ∃ pin' pin'', pins'.accounts[anchor]? = some pin' ∧
          (C.observe pins' record).1.accounts[anchor]? = some pin'' ∧
          pin''.epoch = pin'.epoch ∧ pin''.hash = pin'.hash) ∧
    ∀ record e, C.IsVerified record → record.body.anchor = anchor →
      (C.observe pins' record).2 = .error e → (C.observe pins' record).1 = pins' := by
  refine ⟨fun pin hpin => grows_of_run hafter hpin, ?_, ?_, ?_⟩
  · intro head hhead reference hdenied record hver hanchor hcur capability now certificate
    rcases tracks_of_run (hbefore.append hafter) with ⟨-, hfresh⟩ | ⟨pin, current, hpin, hpins, hkept⟩
    · exact absurd ⟨mem_append_left _ hhead.1, hhead.2⟩ (hfresh head)
    have hmem := hkept head ⟨mem_append_left _ hhead.1, hhead.2⟩ _ hdenied
    exact hpins.authorize_error hhash (requireCurrent_ok hpin hanchor hcur).2 hmem
  · rintro pin range hpin hrange record hver hanchor rfl
    obtain ⟨pin', hpin', hgrows⟩ := grows_of_run hafter hpin
    have hfenced := hgrows.fenced _ hrange
    obtain ⟨hres, pin'', hpin'', hhead⟩ := observe_fenced_range hanchor hpin' hfenced
    refine ⟨fun hcur => ?_, hres, pin', pin'', hpin', hpin'', hhead⟩
    exact (requireCurrent_ok hpin' hanchor hcur).1 hfenced
  · intro record e hver hanchor herror
    exact observe_error hanchor herror

/-- Scheme with an injective hash and 32-byte digests for the sample's certificates. -/
noncomputable def idealCustody : CustodyCrypto :=
  openCustody (idealDigest [.certificate (sampleCertificate "ada" 1 0),
    .certificate (sampleCertificate "ada" 2 1)])

theorem idealCustody_injective : Function.Injective idealCustody.objectHash := by
  intro x y h
  exact idealDigest_injective (by decide) (encodeBase64url_inj h)

noncomputable def idealFirst : VerifiedRecord :=
  (idealCustody.verifyRecord (sampleEnvelope "ada" 1 1 0 (sampleText 0)) 1 none none).toOption.get
    (by decide +kernel)

noncomputable def idealSecond : VerifiedRecord :=
  (idealCustody.verifyRecord (sampleEnvelope "ada" 2 1 1 (sampleText 1)) 1 none none).toOption.get
    (by decide +kernel)

noncomputable def idealPins : AuthorityPins := (idealCustody.observe .default idealFirst).1

noncomputable def idealPins' : AuthorityPins := (idealCustody.observe idealPins idealSecond).1

theorem idealFirst_verified : idealCustody.verifyRecord (sampleEnvelope "ada" 1 1 0 (sampleText 0)) 1
    none none = .ok idealFirst := eq_ok_get _

theorem idealSecond_verified : idealCustody.verifyRecord (sampleEnvelope "ada" 2 1 1 (sampleText 1)) 1
    none none = .ok idealSecond := eq_ok_get _

theorem idealFirst_observes : Run idealCustody.Observes .default
    [(idealFirst, .ok .advanced)] idealPins :=
  .single (observes_of_result ⟨_, _, _, _, idealFirst_verified⟩ (by decide +kernel))

theorem idealSecond_observes : Run idealCustody.Observes idealPins
    [(idealSecond, .ok .advanced)] idealPins' :=
  .single (observes_of_result ⟨_, _, _, _, idealSecond_verified⟩ (by decide +kernel))

/-- The tablet, denied by the first head, is authorized by no record current after the second. -/
theorem pins_monotone_tablet : "tablet" ∈ idealFirst.revokedIds ∧
    ∀ record, idealCustody.IsVerified record → record.body.anchor = sampleText 0 →
      idealCustody.requireCurrent idealPins' record = .ok () → ∀ capability now certificate,
      record.authorize ⟨sampleText 0, "tablet", 1⟩ capability now ≠ .ok certificate := by
  have hdenied : "tablet" ∈ idealFirst.revokedIds := by decide +kernel
  have hkept := (pins_monotone idealCustody idealCustody_injective (sampleText 0) idealFirst_observes
    idealSecond_observes).2.1
  exact ⟨hdenied, fun record => hkept idealFirst ⟨.head _, rfl⟩ ⟨sampleText 0, "tablet", 1⟩ hdenied record⟩

end CustodyCrypto

end Ramflux.Custody
