import Ramflux.Crypto.Custody

/-! What verification of a custody record guarantees. -/
namespace Ramflux.Custody
open Fallible List Except

namespace VerifiedRecord

def range (r : VerifiedRecord) : ℕ := r.body.deviceSetEpoch / 2 ^ 32

end VerifiedRecord

variable {future : ℕ} {envelope : Envelope DeviceSet} {revocations : OrdSet String × ℕ}

namespace CustodyCrypto
variable {C : CustodyCrypto} {body : DeviceSet}

theorem authenticated_ok {root device : String} {reference : QualifiedDevice}
    (h : C.authenticated root device = .ok reference) : reference = (root, device) := by
  iterate 2 replace h := ok_after h
  exact (ok.inj h).symm

variable {signer : Bytes} {previous : Option String} {device : Device}

theorem rosterDevice_ok {next : Option String}
    (h : C.rosterDevice body signer previous device = .ok next) :
    (∀ old ∈ previous, old < device.deviceId) ∧ next = some device.deviceId := by
  iterate 4 obtain ⟨_, -, h⟩ := bind_eq_ok.mp h
  obtain ⟨hsorted, h⟩ := not_refused h
  replace h := ok_after h
  refine ⟨fun old hold => ?_, (ok.inj h).symm⟩
  by_contra hle
  exact hsorted ⟨old, hold, String.not_lt.mp hle⟩

variable {devices : List Device}

theorem rosterLoop_ok {last : Option String}
    (h : devices.foldlM (C.rosterDevice body signer) previous = .ok last) :
    (∀ old ∈ previous, ∀ device ∈ devices, old < device.deviceId) ∧
      devices.Pairwise fun a b => a.deviceId < b.deviceId := by
  induction devices generalizing previous with
  | nil => simp
  | cons device devices ih =>
    obtain ⟨next, hdev, hrest⟩ := bind_eq_ok.mp h
    obtain ⟨hfirst, rfl⟩ := rosterDevice_ok hdev
    obtain ⟨hlater, hpairwise⟩ := ih hrest
    have hlater := hlater device.deviceId rfl
    refine ⟨fun old hold => ?_, pairwise_cons.mpr ⟨hlater, hpairwise⟩⟩
    have hold := hfirst old hold
    exact forall_mem_cons.mpr ⟨hold, fun d hd => String.lt_trans hold (hlater d hd)⟩

variable {u : Unit} {compactedIds : Option (List String)}

theorem roster_ok (h : C.roster body = .ok u) :
    body.devices.Pairwise fun a b => a.deviceId < b.deviceId := by
  obtain ⟨_, -, h⟩ := bind_eq_ok.mp h
  obtain ⟨_, hloop, -⟩ := bind_eq_ok.mp h
  exact (rosterLoop_ok hloop).2

variable {revoked : OrdSet String}

theorem revokedDevice_ok {next : OrdSet String} (h : C.revokedDevice body revoked device = .ok next) :
    device.status = .revoked ∧ next = revoked.insert device.deviceId ∨
      device.status = .active ∧ device.deviceId ∉ revoked ∧ next = revoked := by
  obtain ⟨reference, href, h⟩ := bind_eq_ok.mp h
  obtain rfl := authenticated_ok href
  split_ifs at h with hstatus hmem
  · exact .inl ⟨hstatus, (ok.inj h).symm⟩
  · refine .inr ⟨?_, hmem, (ok.inj h).symm⟩
    cases hactive : device.status with
    | active => rfl
    | revoked => exact absurd hactive hstatus

theorem revokedLoop_ok {last : OrdSet String}
    (h : devices.foldlM (C.revokedDevice body) revoked = .ok last) :
    (∀ id, id ∈ last → id ∈ revoked ∨ ∃ d ∈ devices, d.status = .revoked ∧ d.deviceId = id) ∧
      ∀ d ∈ devices, d.status = .active → d.deviceId ∉ revoked := by
  induction devices generalizing revoked with
  | nil =>
    cases h
    simp
  | cons device devices ih =>
    obtain ⟨next, hdev, hrest⟩ := bind_eq_ok.mp h
    obtain ⟨hlast, hactive⟩ := ih hrest
    rcases revokedDevice_ok hdev with ⟨hstatus, rfl⟩ | ⟨hstatus, hnew, rfl⟩
    · constructor
      · intro id hid
        rcases hlast id hid with hid | ⟨d, hd, hrev, rfl⟩
        · rcases OrdSet.mem_insert_iff.mp hid with rfl | hid
          · exact .inr ⟨device, .head _, hstatus, rfl⟩
          · exact .inl hid
        · exact .inr ⟨d, .tail _ hd, hrev, rfl⟩
      · refine forall_mem_cons.mpr ⟨?_, fun d hd hstatus' hmem => ?_⟩
        · rw [hstatus]
          intro hne
          cases hne
        · exact hactive d hd hstatus' (OrdSet.mem_insert_iff.mpr (.inr hmem))
    · constructor
      · intro id hid
        rcases hlast id hid with hid | ⟨d, hd, hrev, rfl⟩
        · exact .inl hid
        · exact .inr ⟨d, .tail _ hd, hrev, rfl⟩
      · exact forall_mem_cons.mpr ⟨fun _ => hnew, hactive⟩

theorem verifiedRevocations_ok (hroster : body.devices.Pairwise fun a b => a.deviceId < b.deviceId)
    (h : C.verifiedRevocations body future compactedIds = .ok revocations) :
    ∀ d ∈ body.devices, d.status = .active → d.deviceId ∉ revocations.1 := by
  obtain ⟨compacted, -, h⟩ := bind_eq_ok.mp h
  obtain ⟨revoked, hloop, h⟩ := bind_eq_ok.mp h
  cases h
  obtain ⟨hlast, hactive⟩ := revokedLoop_ok hloop
  intro d hd hstatus hmem
  rcases hlast _ hmem with hmem | ⟨d', hd', hrev, hid⟩
  · exact hactive d hd hstatus hmem
  · have hdistinct : (body.devices.map Device.deviceId).Nodup :=
      pairwise_map.mpr (hroster.imp fun hlt => String.ne_of_lt hlt)
    obtain rfl : d' = d := inj_on_of_nodup_map hdistinct hd' hd hid
    rw [hstatus] at hrev
    cases hrev

theorem verifiedRevocations_named
    (h : C.verifiedRevocations body future compactedIds = .ok revocations) :
    ∀ d ∈ body.devices, C.authenticated body.anchor d.deviceId = .ok (body.anchor, d.deviceId) := by
  obtain ⟨compacted, -, h⟩ := bind_eq_ok.mp h
  obtain ⟨revoked, hloop, -⟩ := bind_eq_ok.mp h
  intro d hd
  obtain ⟨before, after, hround⟩ := exists_round_of_foldlM_ok hloop d hd
  obtain ⟨reference, href, -⟩ := bind_eq_ok.mp hround
  rw [href, authenticated_ok href]

/-- Guarantees of a verified record. -/
structure WellFormed (C : CustodyCrypto) (r : VerifiedRecord) : Prop where
  active : ∀ d ∈ r.body.devices, d.status = .active → d.deviceId ∉ r.revokedIds
  epoch : ∃ revision, decodeEpoch r.body.deviceSetEpoch = .ok (r.range, revision)
  encoded : (C.recordJson r.envelope).length ≤ maxRecordBytes
  anchor : r.body.anchor.utf8ByteSize = 43
  named : ∀ d ∈ r.body.devices,
    C.authenticated r.body.anchor d.deviceId = .ok (r.body.anchor, d.deviceId)

theorem bytes_ok {value : String} {count : ℕ} {raw : Bytes} (h : bytes value count = .ok raw) :
    value.utf8ByteSize = (count * 8 + 5) / 6 := by
  obtain ⟨_, hlen, -⟩ := bind_eq_ok.mp h
  exact not_not.mp (refuseWhen_eq_ok.mp hlen)

theorem masterBody_ok {master : MasterCertificate} (h : C.masterBody master = .ok u) :
    master.anchor.utf8ByteSize = 43 := by
  iterate 2 replace h := ok_after h
  obtain ⟨_, hanchor, -⟩ := bind_eq_ok.mp h
  exact bytes_ok hanchor

theorem recordStructure_ok (h : C.recordStructure body = .ok u) :
    (body.devices.Pairwise fun a b => a.deviceId < b.deviceId) ∧
      (∃ epoch, decodeEpoch body.deviceSetEpoch = .ok epoch) ∧ body.anchor.utf8ByteSize = 43 := by
  iterate 2 obtain ⟨_, -, h⟩ := bind_eq_ok.mp h
  obtain ⟨_, hmaster, h⟩ := bind_eq_ok.mp h
  iterate 2 obtain ⟨_, -, h⟩ := bind_eq_ok.mp h
  obtain ⟨epoch, hepoch, h⟩ := bind_eq_ok.mp h
  obtain ⟨hcertified, h⟩ := not_refused h
  iterate 7 obtain ⟨_, -, h⟩ := bind_eq_ok.mp h
  obtain ⟨_, hroster, -⟩ := bind_eq_ok.mp h
  simp only [not_or, not_not] at hcertified
  refine ⟨roster_ok hroster, ⟨epoch, hepoch⟩, ?_⟩
  rw [hcertified.2.1]
  exact masterBody_ok hmaster

variable {r : VerifiedRecord}

theorem verifyRecord_envelope {now : ℕ} {human : Option VerifiedRecord}
    (h : C.verifyRecord envelope now compactedIds human = .ok r) : r.envelope = envelope := by
  iterate 7 obtain ⟨_, -, h⟩ := bind_eq_ok.mp h
  obtain ⟨_, -, h⟩ := bind_eq_ok.mp h
  cases h
  rfl

theorem IsVerified.wellFormed (h : C.IsVerified r) : WellFormed C r := by
  obtain ⟨envelope, now, compactedIds, human, h⟩ := h
  replace h := ok_after h
  obtain ⟨_, hstructure, h⟩ := bind_eq_ok.mp h
  iterate 2 obtain ⟨_, -, h⟩ := bind_eq_ok.mp h
  obtain ⟨henc, h⟩ := not_refused h
  iterate 2 obtain ⟨_, -, h⟩ := bind_eq_ok.mp h
  obtain ⟨revocations, hrevocations, h⟩ := bind_eq_ok.mp h
  cases h
  obtain ⟨hroster, ⟨⟨range, revision⟩, hepoch⟩, hanchor⟩ := recordStructure_ok hstructure
  refine ⟨verifiedRevocations_ok hroster hrevocations, ⟨revision, ?_⟩, ?_, hanchor,
    verifiedRevocations_named hrevocations⟩
  · have hrange := decodeEpoch_range hepoch
    subst hrange
    exact hepoch
  · exact not_lt.mp henc

end CustodyCrypto

namespace VerifiedRecord

variable {reference : DeviceRef} {capability : String} {now : ℕ} {certificate : BranchCertificate}

theorem authorizeDevice_ok {revoked : OrdSet String}
    (h : authorizeDevice envelope revoked reference capability now = .ok certificate) :
    ∃ d ∈ envelope.body.devices, d.deviceId = reference.deviceId ∧ d.status = .active := by
  replace h := ok_after h
  split at h
  · cases h
  · rename_i device hfind
    have hmem := mem_of_find?_eq_some hfind
    have hdev := find?_some hfind
    split at h
    · rename_i hstatus
      exact ⟨device, hmem, (of_decide_eq_true hdev).1, hstatus⟩
    · cases h

theorem authorize_ok {r : VerifiedRecord} (h : r.authorize reference capability now = .ok certificate) :
    ∃ d ∈ r.body.devices, d.deviceId = reference.deviceId ∧ d.status = .active := by
  obtain ⟨envelope, revoked, encodedBytes, compactedBytes, humanCustodian⟩ := r
  cases humanCustodian with
  | none =>
    exact authorizeDevice_ok h
  | some human =>
    replace h := ok_after h
    exact authorizeDevice_ok h

end VerifiedRecord

end Ramflux.Custody
