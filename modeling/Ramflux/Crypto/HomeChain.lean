import Mathlib.Data.List.Chain
import Ramflux.Crypto.CustodyMonotone
import Ramflux.Crypto.HomeHistory

/-! Accepted home chains are linked: each record names its predecessor and carries its signature. -/
namespace Ramflux.Home
open Fallible Custody List Except Option Function

/-- When the record was made, by the clock of the node that signed it. -/
def HomeRecord.commitTime : HomeRecord → ℕ
  | .genesis g => g.body.registeredAt
  | .committed _ commitProof => commitProof.body.committedAt

def NotLater (p e : RecordEvidence) : Prop := p.record.commitTime ≤ e.record.commitTime

instance : Trans NotLater NotLater NotLater := ⟨le_trans⟩

def InOrder (records : List RecordEvidence) : Prop := records.IsChain NotLater

namespace RecordEvidence

/-- The certificate of the manager under whom the record was made. -/
def manager (e : RecordEvidence) : MasterEnvelope :=
  e.authority.record.body.masterCertificate

def managerRange (e : RecordEvidence) : ℕ := e.manager.body.rangeIndex

def certificates (e : RecordEvidence) : List MasterEnvelope :=
  e.manager :: e.managementCertificateChain

end RecordEvidence

/-- A range in both lists has one certificate. -/
def Agree (certs certs' : List MasterEnvelope) : Prop :=
  ∀ c ∈ certs, ∀ d ∈ certs', c.body.rangeIndex = d.body.rangeIndex → c = d

def OnePerRange (certs : List MasterEnvelope) : Prop := Agree certs certs

theorem onePerRange_append {certs certs' : List MasterEnvelope} :
    OnePerRange (certs ++ certs') ↔ OnePerRange certs ∧ OnePerRange certs' ∧ Agree certs certs' := by
  constructor
  · intro h
    refine ⟨fun c hc d hd => ?_, fun c hc d hd => ?_, fun c hc d hd => ?_⟩
    · exact h c (mem_append_left _ hc) d (mem_append_left _ hd)
    · exact h c (mem_append_right _ hc) d (mem_append_right _ hd)
    · exact h c (mem_append_left _ hc) d (mem_append_right _ hd)
  · rintro ⟨hleft, hright, hcross⟩
    refine forall_mem_append.mpr ⟨fun c hc => ?_, fun c hc => ?_⟩
    · exact forall_mem_append.mpr ⟨hleft c hc, hcross c hc⟩
    · exact forall_mem_append.mpr ⟨fun d hd hrange => (hcross d hd c hc hrange.symm).symm, hright c hc⟩

namespace HomeCrypto
open CustodyCrypto
variable {H : HomeCrypto}

variable {anchor : String} {seen seen' : OrdMap ℕ String} {e : RecordEvidence}
  {a : Signed Authorization} {u : Unit} {now range : ℕ} {next : ChainState} {time : ℕ}
  {v : VerifiedHome} {cert : MasterEnvelope} {result : ResolveResult} {items : List RecordEvidence}
  {authorization : Signed Authorization} {certs : List MasterEnvelope}

theorem managementCertificate_ok {state next : Option MasterEnvelope × OrdMap ℕ String}
    (h : H.managementCertificate anchor state cert = .ok next) :
    (∀ known, state.2[cert.body.rangeIndex]? = some known → known = H.objectHash (.certificate cert)) ∧
      next = (some cert, state.2.insert cert.body.rangeIndex (H.objectHash (.certificate cert))) := by
  replace h := ok_after h
  obtain ⟨hfork, h⟩ := not_refused h
  replace h := ok_after h
  refine ⟨fun known hknown => ?_, (ok.inj h).symm⟩
  by_contra hne
  exact hfork ⟨known, hknown, hne⟩

/-- Every range that was seen is still seen with the same certificate. -/
def SeenGrows (seen seen' : OrdMap ℕ String) : Prop :=
  ∀ (range : ℕ) hash, seen[range]? = some hash → seen'[range]? = some hash

theorem SeenGrows.trans {seen'' : OrdMap ℕ String} (h : SeenGrows seen seen')
    (h' : SeenGrows seen' seen'') : SeenGrows seen seen'' :=
  fun range hash hget => h' range hash (h range hash hget)

/-- Every one of the certificates was seen. -/
def AllSeen (H : HomeCrypto) (seen : OrdMap ℕ String) (certs : List MasterEnvelope) : Prop :=
  ∀ cert ∈ certs, seen[cert.body.rangeIndex]? = some (H.objectHash (.certificate cert))

theorem AllSeen.mono (h : AllSeen H seen certs)
    (hgrows : SeenGrows seen seen') : AllSeen H seen' certs :=
  fun cert hcert => hgrows _ _ (h cert hcert)

theorem AllSeen.onePerRange (h : AllSeen H seen certs)
    (hobj : Injective H.objectHash) : OnePerRange certs := by
  intro c hc d hd hrange
  have hsame := h c hc
  rw [hrange, h d hd] at hsame
  exact (CustodyObject.certificate.inj (hobj (some.inj hsame))).symm

theorem managementLoop_ok {state last : Option MasterEnvelope × OrdMap ℕ String}
    (h : certs.foldlM (H.managementCertificate anchor) state = .ok last) :
    SeenGrows state.2 last.2 ∧ AllSeen H last.2 certs ∧
      ∀ cert, last.1 = some cert → cert ∈ certs ∨ state.1 = some cert := by
  induction certs generalizing state with
  | nil =>
    cases h
    exact ⟨fun _ _ hget => hget, nofun, fun _ hlast => .inr hlast⟩
  | cons cert certs ih =>
    obtain ⟨next, hcert, hrest⟩ := bind_eq_ok.mp h
    obtain ⟨hknown, rfl⟩ := managementCertificate_ok hcert
    obtain ⟨hgrows, hseen, hlast⟩ := ih hrest
    have hfirst : SeenGrows state.2
        (state.2.insert cert.body.rangeIndex (H.objectHash (.certificate cert))) := by
      intro range hash hget
      rw [OrdMap.getElem?_insert_eq]
      split_ifs with hrange
      · subst hrange
        rw [hknown hash hget]
      · exact hget
    refine ⟨hfirst.trans hgrows, forall_mem_cons.mpr ⟨?_, hseen⟩, fun found hfound => ?_⟩
    · exact hgrows _ _ Std.ExtTreeMap.getElem?_insert_self
    · rcases hlast found hfound with hmem | hsame
      · exact .inl (.tail _ hmem)
      · cases hsame
        exact .inl (.head _)

/-- What the evidence of a committed record shows. -/
structure CertificatesOk (H : HomeCrypto) (e : RecordEvidence) (a : Signed Authorization)
    (seen : OrdMap ℕ String) (range : ℕ) (seen' : OrdMap ℕ String) : Prop where
  authority : H.objectHash (.record e.authority.record) = a.body.authorityRecordHash
  manager : ∃ cert ∈ e.managementCertificateChain, cert.body.rangeIndex = range ∧
    H.objectHash (.certificate cert) = H.objectHash (.certificate e.manager)
  grows : SeenGrows seen seen'
  seen : AllSeen H seen' e.managementCertificateChain

theorem historicalAuthority_ok {actor : Custody.Envelope BranchCertificate}
    (h : H.historicalAuthority e a time cert actor = .ok u) :
    H.objectHash (.record e.authority.record) = a.body.authorityRecordHash ∧
      H.objectHash (.certificate e.manager) = H.objectHash (.certificate cert) := by
  iterate 3 obtain ⟨_, -, h⟩ := bind_eq_ok.mp h
  obtain ⟨authority, hver, h⟩ := bind_eq_ok.mp h
  obtain ⟨_, hmatch, -⟩ := bind_eq_ok.mp h
  have henv := CustodyCrypto.verifyRecord_envelope hver
  have hmatch := refuseWhen_eq_ok.mp hmatch
  simp only [not_or, not_not] at hmatch
  unfold VerifiedRecord.body at hmatch
  rw [henv] at hmatch
  exact hmatch

theorem certificates_ok (h : H.certificates e a time seen = .ok (range, seen')) :
    CertificatesOk H e a seen range seen' := by
  obtain ⟨⟨last, lastSeen⟩, hloop, h⟩ := bind_eq_ok.mp h
  obtain ⟨hgrows, hseen, hlast⟩ := managementLoop_ok hloop
  cases last with
  | none => cases h
  | some cert =>
    cases hactor : e.actorCertificate with
    | none =>
      rw [hactor] at h
      cases h
    | some actor =>
      rw [hactor] at h
      obtain ⟨_, hauth, h⟩ := bind_eq_ok.mp h
      obtain ⟨hrec, hmanager⟩ := historicalAuthority_ok hauth
      cases h
      refine ⟨hrec, ⟨cert, ?_, rfl, hmanager.symm⟩, hgrows, hseen⟩
      rcases hlast cert rfl with hmem | hnone
      · exact hmem
      · cases hnone

/-- With a hash that tells certificates apart, the range is that of the record's manager. -/
theorem CertificatesOk.range_eq (hobj : Injective H.objectHash)
    (h : CertificatesOk H e a seen range seen') : range = e.managerRange ∧ AllSeen H seen' e.certificates := by
  obtain ⟨cert, hmem, hrange, hhash⟩ := h.manager
  have hcert : cert = e.manager := CustodyObject.certificate.inj (hobj hhash)
  subst hcert
  exact ⟨hrange.symm, forall_mem_cons.mpr ⟨h.seen _ hmem, h.seen⟩⟩

/-- What an accepted record does to the loop's variables once the base is known. -/
inductive ChainStep (H : HomeCrypto) (s : ChainState) (e : RecordEvidence) : ChainState → Prop
  | repeatedGenesis {genesis : Signed Genesis} : s.hash = some (H.recordHash e.record) →
      e.record = .genesis genesis → ChainStep H s e s
  | repeatedCommitted {authorization : Signed Authorization} {commitProof : Signed CommitProof}
      {range : ℕ} {seen : OrdMap ℕ String} : s.hash = some (H.recordHash e.record) →
      e.record = .committed authorization commitProof →
      CertificatesOk H e authorization s.seen range seen →
      ChainStep H s e { s with
        committedAt := commitProof.body.committedAt, managerRange := range, seen }
  | successor {authorization : Signed Authorization} {commitProof : Signed CommitProof}
      {range : ℕ} {seen : OrdMap ℕ String} :
      e.record = .committed authorization commitProof →
      s.hash = some authorization.body.previousHomeHash →
      authorization.body.nextHomeEpoch = s.epoch + 1 →
      commitProof.body.previousHomeHash = authorization.body.previousHomeHash →
      s.committedAt ≤ commitProof.body.committedAt →
      H.verifyNode commitProof s.nodeId s.nodeKey = .ok () →
      CertificatesOk H e authorization s.seen range seen → s.managerRange ≤ range →
      ChainStep H s e
        { hash := some (H.recordHash e.record)
          ancestry := s.ancestry.insert e.record.epoch (H.recordHash e.record)
          epoch := authorization.body.nextHomeEpoch
          nodeId := authorization.body.destinationNode
          nodeKey := authorization.body.destinationKey
          committedAt := commitProof.body.committedAt
          seen
          managerRange := range }

theorem checkCommit_ok {s : ChainState}
    {c : CommitProof} (h : H.checkCommit now s authorization c = .ok u) :
    s.hash = some authorization.body.previousHomeHash ∧
      authorization.body.nextHomeEpoch = s.epoch + 1 ∧
      c.previousHomeHash = authorization.body.previousHomeHash ∧ s.committedAt ≤ c.committedAt := by
  obtain ⟨hfields, h⟩ := not_refused h
  obtain ⟨hash, -, h⟩ := bind_eq_ok.mp h
  obtain ⟨_, htimes, -⟩ := bind_eq_ok.mp h
  have htimes := refuseWhen_eq_ok.mp htimes
  simp only [not_or, not_not] at hfields htimes
  obtain ⟨hhash, hepoch, -, -, -, -, -, -, hprevious, -⟩ := hfields
  refine ⟨hhash, ?_, hprevious, not_lt.mp htimes.2.2.1⟩
  unfold checkedAdd at hepoch
  split_ifs at hepoch
  exact (some.inj hepoch).symm

theorem chainStep_ok {s : ChainState}
    (hsome : s.hash.isSome) (h : H.chainStep anchor now s e = .ok next) :
    e.record.anchor = anchor ∧ ChainStep H s e next := by
  obtain ⟨hanchor, h⟩ := not_refused h
  refine ⟨not_not.mp hanchor, ?_⟩
  split_ifs at h with hrepeat
  · obtain ⟨_, -, h⟩ := bind_eq_ok.mp h
    cases hrec : e.record with
    | genesis genesis =>
      rw [hrec] at h
      cases h
      exact .repeatedGenesis hrepeat hrec
    | committed authorization commitProof =>
      rw [hrec] at h
      obtain ⟨⟨range, seen⟩, hcerts, h⟩ := bind_eq_ok.mp h
      cases h
      exact .repeatedCommitted hrepeat hrec (certificates_ok hcerts)
  · obtain ⟨_, -, h⟩ := bind_eq_ok.mp h
    obtain ⟨state, hstate, h⟩ := bind_eq_ok.mp h
    cases h
    unfold verifiedRecord at hstate
    cases hrec : e.record with
    | genesis genesis =>
      rw [hrec] at hstate
      obtain ⟨_, hbase, -⟩ := bind_eq_ok.mp hstate
      exact absurd (.inl hsome) (refuseWhen_eq_ok.mp hbase)
    | committed authorization commitProof =>
      rw [hrec] at hstate
      obtain ⟨_, hcommit, hstate⟩ := bind_eq_ok.mp hstate
      replace hstate := ok_after hstate
      obtain ⟨_, hnode, hstate⟩ := bind_eq_ok.mp hstate
      obtain ⟨⟨range, seen⟩, hcerts, hstate⟩ := bind_eq_ok.mp hstate
      obtain ⟨hrange, hstate⟩ := not_refused hstate
      cases hstate
      obtain ⟨hhash, hepoch, hprevious, htime⟩ := checkCommit_ok hcommit
      rw [← hrec]
      exact .successor hrec hhash hepoch hprevious htime hnode (certificates_ok hcerts)
        (not_lt.mp hrange)

/-- One record follows another in an accepted chain. -/
structure Successor (H : HomeCrypto) (p e : RecordEvidence) : Prop where
  epoch : e.record.epoch = p.record.epoch + 1
  anchor : e.record.anchor = p.record.anchor
  range : p.managerRange ≤ e.managerRange
  proof : ∃ authorization commitProof, e.record = .committed authorization commitProof ∧
    authorization.body.previousHomeHash = H.recordHash p.record ∧
    commitProof.body.previousHomeHash = H.recordHash p.record ∧
    H.verifyNode commitProof p.record.home.1 p.record.home.2 = .ok ()

/-- The evidence of a committed record is the publication that its authorization names, and its
certificates agree. -/
def Evidenced (H : HomeCrypto) (e : RecordEvidence) : Prop :=
  ∀ authorization commitProof, e.record = .committed authorization commitProof →
    H.objectHash (.record e.authority.record) = authorization.body.authorityRecordHash ∧
      OnePerRange e.certificates

/-- The loop's time is at most that of the last record, and past the base it is that time. -/
structure Timed (s : ChainState) (records : List RecordEvidence) (last : RecordEvidence) : Prop where
  inOrder : InOrder records.tail
  le : s.committedAt ≤ last.record.commitTime
  current : records.tail ≠ [] → s.committedAt = last.record.commitTime

/-- The loop's variables after the records kept so far, the last of which is `last`. -/
structure Follows (H : HomeCrypto) (base : RecordEvidence) (s : ChainState)
    (records : List RecordEvidence) (last : RecordEvidence) : Prop where
  isFirst : records.head? = some base
  isLast : records.getLast? = some last
  chain : records.IsChain (Successor H)
  evidenced : ∀ e ∈ records, Evidenced H e
  hash : s.hash = some (H.recordHash last.record)
  epoch : s.epoch = last.record.epoch
  home : (s.nodeId, s.nodeKey) = last.record.home
  range : s.managerRange = last.managerRange
  seen : AllSeen H s.seen (base.manager :: records.tail.flatMap RecordEvidence.certificates)
  ancestry : ∀ (epoch : ℕ) hash, s.ancestry[epoch]? = some hash ↔
    ∃ e ∈ records, e.record.epoch = epoch ∧ H.recordHash e.record = hash
  newest : ∀ e ∈ records, e.record.epoch ≤ last.record.epoch
  timed : Timed s records last

variable {base last : RecordEvidence} {s : ChainState} {records : List RecordEvidence}

theorem trust_start_seen : (H.trust base).start.seen =
    (∅ : OrdMap ℕ String).insert base.managerRange (H.objectHash (.certificate base.manager)) := rfl

/-- The epoch of a new record is added to the ancestry with its hash. -/
theorem ancestry_insert {ancestry : OrdMap ℕ String}
    (h : ∀ (epoch : ℕ) hash, ancestry[epoch]? = some hash ↔
      ∃ r ∈ records, r.record.epoch = epoch ∧ H.recordHash r.record = hash)
    (hnew : ∀ r ∈ records, r.record.epoch ≠ e.record.epoch) (epoch : ℕ) (hash : String) :
    (ancestry.insert e.record.epoch (H.recordHash e.record))[epoch]? = some hash ↔
      ∃ r ∈ records ++ [e], r.record.epoch = epoch ∧ H.recordHash r.record = hash := by
  rw [OrdMap.getElem?_insert_eq]
  split_ifs with hsame
  · constructor
    · intro hget
      exact ⟨e, by simp, hsame, some.inj hget⟩
    · rintro ⟨r, hr, hr', rfl⟩
      rcases mem_append.mp hr with hr | hr
      · exact absurd (hr'.trans hsame.symm) (hnew r hr)
      · rw [mem_singleton.mp hr]
  · rw [h]
    constructor
    · rintro ⟨r, hr, hfacts⟩
      exact ⟨r, mem_append_left _ hr, hfacts⟩
    · rintro ⟨r, hr, hr', hfacts⟩
      rcases mem_append.mp hr with hr | hr
      · exact ⟨r, hr, hr', hfacts⟩
      · rw [mem_singleton.mp hr] at hr'
        exact absurd hr' hsame

theorem trust_start_ancestry : (H.trust base).start.ancestry =
    (∅ : OrdMap ℕ String).insert base.record.epoch (H.recordHash base.record) := rfl

theorem follows_start (hevidenced : Evidenced H base) :
    Follows H base (H.trust base).start [base] base where
  isFirst := rfl
  isLast := rfl
  chain := .singleton base
  evidenced := forall_mem_singleton.mpr hevidenced
  hash := rfl
  epoch := rfl
  home := rfl
  range := rfl
  seen := forall_mem_singleton.mpr (trust_start_seen ▸ Std.ExtTreeMap.getElem?_insert_self)
  ancestry epoch hash := by
    rw [trust_start_ancestry]
    exact ancestry_insert (fun _ _ => by simp) (forall_mem_nil _) epoch hash
  newest := forall_mem_singleton.mpr le_rfl
  timed := ⟨.nil, Nat.zero_le _, fun hne => absurd rfl hne⟩

theorem pushNewer_of_le (hlast : records.getLast? = some last)
    (hle : e.record.epoch ≤ last.record.epoch) : pushNewer records e = records :=
  if_pos ⟨last, hlast, hle⟩

theorem pushNewer_of_lt (hlast : records.getLast? = some last)
    (hlt : last.record.epoch < e.record.epoch) : pushNewer records e = records ++ [e] := by
  refine if_neg ?_
  rintro ⟨found, hfound, hle⟩
  cases hfound.symm.trans hlast
  omega

theorem Timed.push (h : Timed s records last) (hlast : records.getLast? = some last)
    (htime : s.committedAt ≤ e.record.commitTime) : InOrder (records ++ [e]).tail := by
  have hne : records ≠ [] := by
    rintro rfl
    cases hlast
  rw [tail_append_of_ne_nil hne]
  refine h.inOrder.append (.singleton e) ?_
  intro p hp q hq
  obtain rfl : e = q := by simpa using hq
  have hnonempty : records.tail ≠ [] := by
    intro hnil
    rw [hnil] at hp
    cases hp
  obtain rfl : last = p := by
    rw [getLast?_tail, if_neg] at hp
    · exact some.inj (hlast.symm.trans hp)
    · intro hone
      apply hnonempty
      rw [← length_eq_zero_iff, length_tail, hone]
  unfold NotLater
  rwa [← h.current hnonempty]

/-- Bases to start from: a genesis record, verified anew, or a record that a verification kept. -/
inductive Trusted (H : HomeCrypto) : RecordEvidence → Prop
  | genesis {e : RecordEvidence} {genesis : Signed Genesis} : e.record = .genesis genesis → Trusted H e
  | verified {base e : RecordEvidence} {result : ResolveResult} {now : ℕ} {v : VerifiedHome} :
      Trusted H base → H.verifyHomeChain result base now = .ok v → e ∈ v.records → Trusted H e

section
variable (hrec : Injective H.recordHash) (hobj : Injective H.objectHash)
include hrec hobj

theorem Follows.repeated {commitProof : Signed CommitProof}
    (h : Follows H base s records last) (hrepeat : s.hash = some (H.recordHash e.record))
    (hcomm : e.record = .committed authorization commitProof)
    (hok : CertificatesOk H e authorization s.seen range seen) :
    e.record = last.record ∧ range = last.managerRange := by
  have hsame : e.record = last.record :=
    hrec (some.inj (hrepeat.symm.trans h.hash))
  have hlast := h.evidenced last (mem_of_getLast? h.isLast) authorization commitProof
    (hsame.symm.trans hcomm)
  have hauth : e.authority.record = last.authority.record :=
    CustodyObject.record.inj (hobj (hok.authority.trans hlast.1.symm))
  refine ⟨hsame, ?_⟩
  rw [(hok.range_eq hobj).1]
  unfold RecordEvidence.managerRange RecordEvidence.manager
  rw [hauth]

/-- One round of the loop, with the record kept when it is new. -/
theorem Follows.step (h : Follows H base s records last)
    (hanchor : e.record.anchor = last.record.anchor) (hstep : ChainStep H s e next) :
    ∃ last', Follows H base next (pushNewer records e) last' ∧
      last'.record.anchor = last.record.anchor ∧ last'.record = e.record := by
  cases hstep with
  | repeatedGenesis hrepeat _ =>
    have hsame : e.record = last.record := hrec (some.inj (hrepeat.symm.trans h.hash))
    rw [pushNewer_of_le h.isLast (hsame ▸ le_rfl)]
    exact ⟨last, h, rfl, hsame.symm⟩
  | repeatedCommitted hrepeat hcomm hok =>
    obtain ⟨hsame, hrange⟩ := h.repeated hrec hobj hrepeat hcomm hok
    rw [pushNewer_of_le h.isLast (hsame ▸ le_rfl)]
    refine ⟨last, ?_, rfl, hsame.symm⟩
    have htime := congrArg HomeRecord.commitTime (hcomm.symm.trans hsame)
    exact { h with range := hrange, seen := h.seen.mono hok.grows,
                   timed := ⟨h.timed.inOrder, htime.le, fun _ => htime⟩ }
  | @successor authorization commitProof range seen hcomm hhash hepoch hprevious htime hnode hok hle =>
    have hnewEpoch : e.record.epoch = last.record.epoch + 1 := by
      rw [hcomm, ← h.epoch]
      exact hepoch
    have hprev : authorization.body.previousHomeHash = H.recordHash last.record :=
      some.inj (hhash.symm.trans h.hash)
    obtain ⟨hrange, hseen⟩ := hok.range_eq hobj
    have hsucc : Successor H last e := by
      refine ⟨hnewEpoch, hanchor, ?_, authorization, commitProof, hcomm, hprev,
        hprevious.trans hprev, ?_⟩
      · rw [← hrange, ← h.range]
        exact hle
      · rw [← h.home]
        exact hnode
    have hne : records ≠ [] := by
      rintro rfl
      cases h.isLast
    rw [pushNewer_of_lt h.isLast (by omega)]
    refine ⟨e, ?_, hanchor, rfl⟩
    constructor
    · rw [head?_append_of_ne_nil _ hne]
      exact h.isFirst
    · simp
    · refine h.chain.append (.singleton e) ?_
      intro p hp q hq
      cases h.isLast.symm.trans hp
      obtain rfl : e = q := by simpa using hq
      exact hsucc
    · refine forall_mem_append.mpr ⟨h.evidenced, forall_mem_singleton.mpr ?_⟩
      intro authorization' commitProof' hcomm'
      obtain ⟨rfl, -⟩ := HomeRecord.committed.inj (hcomm.symm.trans hcomm')
      exact ⟨hok.authority, hseen.onePerRange hobj⟩
    · rfl
    · rw [hcomm]
      rfl
    · rw [hcomm]
      rfl
    · exact hrange
    · rw [tail_append_of_ne_nil hne, flatMap_append, flatMap_singleton, ← cons_append]
      exact forall_mem_append.mpr ⟨h.seen.mono hok.grows, hseen⟩
    · refine ancestry_insert h.ancestry fun r hr => ?_
      have hle := h.newest r hr
      omega
    · refine forall_mem_append.mpr ⟨fun r hr => ?_, forall_mem_singleton.mpr le_rfl⟩
      have hle := h.newest r hr
      omega
    · have htimeEq := congrArg HomeRecord.commitTime hcomm
      exact ⟨h.timed.push h.isLast (htimeEq ▸ htime), htimeEq.ge, fun _ => htimeEq.symm⟩

theorem Follows.loop (h : Follows H base s records last) (hanchor : last.record.anchor = anchor)
    (hrun : items.foldlM (H.chainStep anchor now) s = .ok next) :
    ∃ last', Follows H base next (items.foldl pushNewer records) last' ∧
      last'.record.anchor = anchor := by
  induction items generalizing s records last with
  | nil =>
    cases hrun
    exact ⟨last, h, hanchor⟩
  | cons e items ih =>
    obtain ⟨mid, hfirst, hrest⟩ := bind_eq_ok.mp hrun
    have hsome : s.hash.isSome := by
      rw [h.hash]
      rfl
    obtain ⟨hsame, hstep⟩ := chainStep_ok hsome hfirst
    obtain ⟨last', hfollows, hanchor', -⟩ := h.step hrec hobj (hsame.trans hanchor.symm) hstep
    exact ih hfollows (hanchor'.trans hanchor) hrest

theorem verifyHomeChain_follows
    (hbase : Evidenced H base) (hok : H.verifyHomeChain result base now = .ok v) :
    ∃ s last, Follows H base s v.records last ∧ v.ancestry = s.ancestry ∧
      v.evidence = result.home ∧ v.evidence.record = last.record ∧
      result.chain.foldlM (H.chainStep base.record.anchor now) (H.trust base).start = .ok s ∧
      last.record.anchor = base.record.anchor ∧ v.records = result.chain.foldl pushNewer [base] := by
  replace hok := ok_after hok
  obtain ⟨verified, hver, hok⟩ := bind_eq_ok.mp hok
  cases hok
  replace hver := ok_after hver
  obtain ⟨s, hloop, hver⟩ := bind_eq_ok.mp hver
  obtain ⟨last, hfollows, hanchor⟩ := (follows_start hbase).loop hrec hobj rfl hloop
  rw [hfollows.hash] at hver
  obtain ⟨hhead, hver⟩ := not_refused hver
  cases hver
  exact ⟨s, last, hfollows, rfl, rfl, hrec (not_not.mp hhead), hloop, hanchor, rfl⟩

theorem Trusted.evidenced (h : Trusted H e) : Evidenced H e := by
  induction h with
  | genesis hgen =>
    intro authorization commitProof hcomm
    rw [hgen] at hcomm
    cases hcomm
  | verified _ hok hmem ih =>
    obtain ⟨s, last, hfollows, -⟩ := verifyHomeChain_follows hrec hobj ih hok
    exact hfollows.evidenced _ hmem

end

/-- The certificates of every committed record of the result were seen, whether it was kept or not. -/
theorem seen_loop (hsome : s.hash.isSome)
    (hrun : items.foldlM (H.chainStep anchor now) s = .ok next) : SeenGrows s.seen next.seen ∧
      ∀ e ∈ items, ∀ authorization commitProof, e.record = .committed authorization commitProof →
        AllSeen H next.seen e.managementCertificateChain := by
  induction items generalizing s with
  | nil =>
    cases hrun
    exact ⟨fun _ _ hget => hget, forall_mem_nil _⟩
  | cons e items ih =>
    obtain ⟨mid, hfirst, hrest⟩ := bind_eq_ok.mp hrun
    have hstep : mid.hash.isSome ∧ SeenGrows s.seen mid.seen ∧ ∀ authorization commitProof,
        e.record = .committed authorization commitProof →
          AllSeen H mid.seen e.managementCertificateChain := by
      cases (chainStep_ok hsome hfirst).2 with
      | repeatedGenesis _ hgen =>
        refine ⟨hsome, fun _ _ hget => hget, fun _ _ hcomm => ?_⟩
        cases hgen.symm.trans hcomm
      | repeatedCommitted _ _ hok => exact ⟨hsome, hok.grows, fun _ _ _ => hok.seen⟩
      | successor _ _ _ _ _ _ hok _ => exact ⟨rfl, hok.grows, fun _ _ _ => hok.seen⟩
    obtain ⟨hlater, hall⟩ := ih hstep.1 hrest
    exact ⟨hstep.2.1.trans hlater, forall_mem_cons.mpr
      ⟨fun authorization commitProof hcomm => (hstep.2.2 _ _ hcomm).mono hlater, hall⟩⟩

theorem chain_of_genesis {genesis : Signed Genesis} (hok : H.verifyHomeChain result base now = .ok v)
    (hgen : base.record = .genesis genesis) : base.managementCertificateChain = [] := by
  obtain ⟨_, hcheck, -⟩ := bind_eq_ok.mp hok
  unfold checkBase at hcheck
  rw [hgen] at hcheck
  replace hcheck := ok_after hcheck
  obtain ⟨_, hver, -⟩ := bind_eq_ok.mp hcheck
  unfold verifyGenesis at hver
  rw [hgen] at hver
  have hfields := (not_refused hver).1
  simp only [not_or, not_not] at hfields
  exact hfields.2.2.2.2.1

theorem verifyNode_signed {α : Type} [Message α] {message : Signed α} {nodeId nodeKey : String}
    {signed : Bytes → HomeMessage → Prop} (hunforgeable : ∀ key message signature, H.verifyMessage key
      message signature → signed key message) (h : H.verifyNode message nodeId nodeKey = .ok u) :
    ∃ key, H.messageKey nodeKey = .ok key ∧ signed key (transcript message) := by
  obtain ⟨_, hsigs, hpin⟩ := bind_eq_ok.mp h
  obtain ⟨_, hbytes, hsigs⟩ := bind_eq_ok.mp hsigs
  obtain ⟨hcount, hsigs⟩ := not_refused hsigs
  obtain ⟨_, -, hloop⟩ := bind_eq_ok.mp hsigs
  obtain ⟨_, hroles, -⟩ := bind_eq_ok.mp hbytes
  have hsigners := not_not.mp (refuseWhen_eq_ok.mp hpin)
  have hroles := refuseWhen_eq_ok.mp hroles
  simp only [not_or, not_not] at hcount hroles
  have hlen : message.signatures.length = 1 := by
    rw [hcount.2, ← hroles.2.2.1, hsigners]
    rfl
  obtain ⟨signature, hsig⟩ := length_eq_one_iff.mp hlen
  rw [hsigners, hsig] at hloop
  have hone := forM_eq_ok.mp hloop (⟨.node, .node nodeId nodeKey⟩, signature) (.head _)
  replace hone := ok_after hone
  obtain ⟨raw, -, hone⟩ := bind_eq_ok.mp hone
  obtain ⟨key, hkey, hone⟩ := bind_eq_ok.mp hone
  refine ⟨key, hkey, hunforgeable key _ raw ?_⟩
  by_contra hfalse
  rw [if_neg hfalse] at hone
  cases hone

theorem epochs_of_isChain (h : records.IsChain (Successor H)) (hfirst : records.head? = some base) :
    records.map (·.record.epoch) = List.range' base.record.epoch records.length := by
  induction records generalizing base with
  | nil => cases hfirst
  | cons e records ih =>
    cases hfirst
    cases records with
    | nil => rfl
    | cons next records =>
      obtain ⟨hnext, hrest⟩ := isChain_cons_cons.mp h
      have htail := ih hrest rfl
      rw [map_cons, htail, hnext.epoch]
      rfl

def sampleBranch (hash : String) : Custody.Envelope BranchCertificate :=
  ((sampleDevices hash).head?.bind Device.branchCertificate).get rfl

/-- What a move is made under, with the hashes of the manager, the publication and the branch. -/
structure SampleAuthority where
  record : Custody.Envelope DeviceSet
  chain : List MasterEnvelope
  branch : Custody.Envelope BranchCertificate
  managerHash : String
  recordHash : String
  branchHash : String

def sampleAuthority : SampleAuthority :=
  ⟨sampleEnvelope "ada" 1 1 0 (sampleText 0), [sampleCertificate "ada" 1 0], sampleBranch (sampleText 0),
    sampleText 0, sampleText 1, sampleText 2⟩

def sampleSigned {α : Type} (domain : String) (signers : List Signer) (body : α) : Signed α :=
  { schema := domain, domain, body, signers, signatures := signers.map fun _ => sampleSignature }

/-- First home of the account, at node `n0`. -/
def sampleGenesis (registeredAt : ℕ) : RecordEvidence where
  authority := ⟨sampleAuthority.record, none⟩
  record := .genesis (sampleSigned Domain.homeGenesis [⟨.node, .node "n0" (sampleText 3)⟩] {
    homeDeclaration := sampleSigned Domain.homeDeclaration
      [⟨.management, .masterCertifiedHome (sampleText 0) (sampleText 0) (sampleText 2)⟩] {
        version := 1, principalId := "ada", anchor := sampleText 0, homeNode := "n0"
        createdAt := 0, nonce := sampleText 0 }
    version := 1, anchor := sampleText 0, homeEpoch := 0, homeNode := "n0"
    homeNodeKey := sampleText 3, custodyRecordHash := sampleText 1
    registeredAt })
  managementCertificateChain := []
  actorCertificate := none
  nodeRecord := ""

def sampleAuthorization (under : SampleAuthority) (epoch : ℕ) (previous oldNode node : String) (time : ℕ) :
    Signed Authorization :=
  sampleSigned Domain.homeAuthorization [
    ⟨.management, .masterCertifiedCustody (sampleText 0) under.managerHash under.recordHash (sampleText 2)⟩,
    ⟨.actor, .branchV3 ⟨sampleText 0, "phone", 1⟩ under.branchHash (sampleText 4)⟩] {
      version := 1, migrationId := sampleText 0, anchor := sampleText 0
      actor := ⟨sampleText 0, "phone", 1⟩, authorityRecordHash := under.recordHash
      managementCertificateHash := under.managerHash, previousHomeHash := previous
      nextHomeEpoch := epoch, oldNode, destinationNode := node, destinationKey := sampleText 3
      gatewayTcpAddr := "", offerHash := sampleText 0, deliveryMapHash := sampleText 0
      nonce := sampleText 0, issuedAt := time, sealUntil := time, maxCommitDelay := 1
      forwardSeconds := forwardSeconds }

/-- Move to a new node, committed at the given time by the old one. -/
def sampleMove (under : SampleAuthority) (epoch : ℕ) (previous oldNode node : String) (time : ℕ) :
    RecordEvidence where
  authority := ⟨under.record, none⟩
  record := .committed (sampleAuthorization under epoch previous oldNode node time)
    (sampleSigned Domain.homeCommit [⟨.node, .node oldNode (sampleText 3)⟩] {
      version := 1, migrationId := sampleText 0, anchor := sampleText 0, oldNode
      destinationNode := node, destinationKey := sampleText 3, previousHomeHash := previous
      nextHomeEpoch := epoch, authorityRecordHash := under.recordHash, authorizationHash := sampleText 0
      offerHash := sampleText 0, sealHash := sampleText 0, commitDeadline := time
      committedAt := time, forwardUntil := time + forwardSeconds
      backlogManifestHash := sampleText 0 })
  managementCertificateChain := under.chain
  actorCertificate := some under.branch
  nodeRecord := ""

/-- Scheme with injective hashes and 32-byte digests for the sample's objects. -/
noncomputable def idealHome (records : List HomeRecord) : HomeCrypto where
  toCustodyCrypto := openCustody (idealDigest [.certificate (sampleCertificate "ada" 1 0),
    .record sampleAuthority.record, .branch sampleAuthority.branch])
  recordDigest := idealDigest records
  messageDigest _ := List.replicate 32 0
  messageLength _ := 0
  resultLength _ := 0
  safeNumbers _ := true
  structured _ := .ok ()
  verifyMessage _ _ _ := true
  verifyNodeIdentityRecord _ _ _ _ := .ok ()

/-- The certificates of all records agree exactly when the later ones agree with the base's chain, which
the loop does not start from. -/
theorem onePerRange_records {later : List MasterEnvelope} (hown : OnePerRange base.certificates)
    (hseen : OnePerRange (base.manager :: later)) :
    OnePerRange (base.certificates ++ later) ↔ Agree base.managementCertificateChain later := by
  obtain ⟨-, hlater, hmanager⟩ := onePerRange_append.mp (singleton_append ▸ hseen)
  rw [onePerRange_append]
  constructor
  · intro h c hc
    exact h.2.2 c (.tail _ hc)
  · intro h
    exact ⟨hown, hlater, forall_mem_cons.mpr ⟨hmanager _ (.head _), h⟩⟩

theorem Evidenced.onePerRange (h : Evidenced H base) (hok : H.verifyHomeChain result base now = .ok v) :
    OnePerRange base.certificates := by
  cases hkind : base.record with
  | genesis genesis =>
    unfold RecordEvidence.certificates
    rw [chain_of_genesis hok hkind]
    exact fun c hc d hd _ => (mem_singleton.mp hc).trans (mem_singleton.mp hd).symm
  | committed authorization commitProof => exact (h _ _ hkind).2

/-- The records kept start with the base, have consecutive epochs, and each later one names the hash of
the one before and carries a commit proof signed with its key. `extends` tells exactly these records. -/
theorem home_chain_linked (H : HomeCrypto) (hrec : Injective H.recordHash)
    (hobj : Injective H.objectHash) (signed : Bytes → HomeMessage → Prop)
    (hunforgeable : ∀ key message signature, H.verifyMessage key message signature → signed key message)
    {base : RecordEvidence} (hbase : Trusted H base) {result : ResolveResult} {now : ℕ} {v : VerifiedHome}
    (hok : H.verifyHomeChain result base now = .ok v) : v.records.head? = some base ∧
    v.records.map (·.record.epoch) = List.range' base.record.epoch v.records.length ∧
    (∃ last, v.records.getLast? = some last ∧ last.record = v.evidence.record ∧
      last.record.epoch = v.epoch) ∧
    v.records.IsChain (fun p e => e.record.anchor = p.record.anchor ∧
      p.managerRange ≤ e.managerRange ∧
      ∃ authorization commitProof key, e.record = .committed authorization commitProof ∧
        authorization.body.previousHomeHash = H.recordHash p.record ∧
        H.messageKey p.record.home.2 = .ok key ∧ signed key (transcript commitProof)) ∧
    (∀ epoch hash, v.extends_ epoch hash ↔ base.record.epoch ≤ epoch ∧ epoch ≤ v.epoch ∧
      ∃ e ∈ v.records, e.record.epoch = epoch ∧ H.recordHash e.record = hash) ∧
    OnePerRange (base.manager :: v.records.tail.flatMap (·.certificates)) ∧
    (OnePerRange (v.records.flatMap (·.certificates)) ↔
      Agree base.managementCertificateChain (v.records.tail.flatMap (·.certificates))) ∧
    ((∃ genesis, base.record = .genesis genesis) ∨ base ∈ result.chain →
      OnePerRange (v.records.flatMap (·.certificates))) := by
  have hevidenced := hbase.evidenced hrec hobj
  obtain ⟨s, last, hfollows, hancestry, -, hhead, hloop, -⟩ :=
    verifyHomeChain_follows hrec hobj hevidenced hok
  have hepochs := epochs_of_isChain hfollows.chain hfollows.isFirst
  have hlastEpoch : last.record.epoch = v.epoch := by
    unfold VerifiedHome.epoch
    rw [hhead]
  have hseen := hfollows.seen.onePerRange hobj
  obtain ⟨later, hrecs⟩ := head?_eq_some_iff.mp hfollows.isFirst
  have hiff : OnePerRange (v.records.flatMap (·.certificates)) ↔
      Agree base.managementCertificateChain (v.records.tail.flatMap (·.certificates)) := by
    have hown := hevidenced.onePerRange hok
    rw [hrecs] at hseen ⊢
    exact onePerRange_records hown hseen
  refine ⟨hfollows.isFirst, hepochs, ⟨last, hfollows.isLast, hhead.symm, hlastEpoch⟩, ?_, ?_, hseen, hiff,
    fun hsafe => hiff.mpr ?_⟩
  · refine hfollows.chain.imp fun p e hsucc => ?_
    obtain ⟨authorization, commitProof, hcomm, hprevious, -, hnode⟩ := hsucc.proof
    obtain ⟨key, hkey, hsigned⟩ := verifyNode_signed hunforgeable hnode
    exact ⟨hsucc.anchor, hsucc.range, authorization, commitProof, key, hcomm, hprevious,
      hkey, hsigned⟩
  · intro epoch hash
    have hext : v.extends_ epoch hash ↔ s.ancestry[epoch]? = some hash := by
      unfold VerifiedHome.extends_
      rw [hancestry, decide_eq_true_iff]
    rw [hext, hfollows.ancestry]
    refine ⟨?_, fun h => h.2.2⟩
    rintro ⟨e, he, rfl, hhash⟩
    have hmem : e.record.epoch ∈ v.records.map (·.record.epoch) := mem_map.mpr ⟨e, he, rfl⟩
    have hnewest := hfollows.newest e he
    rw [hepochs, mem_range'_1] at hmem
    exact ⟨hmem.1, by omega, e, he, rfl, hhash⟩
  · cases hkind : base.record with
    | genesis genesis =>
      rw [chain_of_genesis hok hkind]
      exact nofun
    | committed authorization commitProof =>
      have hmem := hsafe.resolve_left fun ⟨genesis, hgen⟩ => nomatch hkind.symm.trans hgen
      have hown := (seen_loop rfl hloop).2 base hmem _ _ hkind
      have hall : AllSeen H s.seen (base.managementCertificateChain ++ v.records.tail.flatMap (·.certificates)) :=
        forall_mem_append.mpr ⟨hown, fun c hc => hfollows.seen c (.tail _ hc)⟩
      exact (onePerRange_append.mp (hall.onePerRange hobj)).2.2

theorem idealHome_injective {records : List HomeRecord} (h : records.length ≤ 256) :
    Injective (idealHome records).recordHash ∧ Injective (idealHome records).objectHash :=
  ⟨fun _ _ hhash => idealDigest_injective h (encodeBase64url_inj hhash),
    fun _ _ hhash => idealDigest_injective (by decide) (encodeBase64url_inj hhash)⟩

def sampleFirst : RecordEvidence := sampleMove sampleAuthority 1 (sampleText 0) "n0" "n1" 100

def sampleSecond : RecordEvidence := sampleMove sampleAuthority 2 (sampleText 1) "n1" "n2" 200

def sampleThird : RecordEvidence := sampleMove sampleAuthority 3 (sampleText 2) "n2" "n3" 300

def sampleRecords : List HomeRecord :=
  [(sampleGenesis 0).record, sampleFirst.record, sampleSecond.record, sampleThird.record]

noncomputable def movedHome : HomeCrypto := idealHome sampleRecords

theorem movedHome_injective : Injective movedHome.recordHash ∧ Injective movedHome.objectHash :=
  idealHome_injective (by decide)

/-- From the first move on; the result repeats it and adds two. -/
theorem home_chain_linked_moves : ∃ v,
    movedHome.verifyHomeChain ⟨sampleThird, [sampleFirst, sampleSecond]⟩ sampleFirst 300 = .ok v ∧
      v.records = [sampleFirst, sampleSecond, sampleThird] ∧
      OnePerRange (v.records.flatMap (·.certificates)) := by
  have hfirst : (movedHome.verifyHomeChain ⟨sampleFirst, []⟩ (sampleGenesis 0) 100).toOption.map (·.records) =
      some [sampleGenesis 0, sampleFirst] := by
    decide +kernel
  have hlater : (movedHome.verifyHomeChain ⟨sampleThird, [sampleFirst, sampleSecond]⟩ sampleFirst
      300).toOption.map (·.records) = some [sampleFirst, sampleSecond, sampleThird] := by
    decide +kernel
  obtain ⟨u, hu, hbase⟩ := map_toOption_eq_some hfirst
  obtain ⟨v, hv, hrecs⟩ := map_toOption_eq_some hlater
  obtain ⟨hrec, hobj⟩ := movedHome_injective
  have hlinked := home_chain_linked movedHome hrec hobj
    (fun key message => ∃ signature, movedHome.verifyMessage key message signature)
    (fun _ _ signature hverify => ⟨signature, hverify⟩)
    (.verified (.genesis rfl) hu (hbase ▸ .tail _ (.head _))) hv
  exact ⟨v, hv, hrecs, hlinked.2.2.2.2.2.2.2 (.inr (.head _))⟩

/-- A later manager, with the certificate before it; hashes from `n` on. -/
def renewedAuthority (first : MasterEnvelope) (firstHash : String) (range : ℕ) (n : UInt8) :
    SampleAuthority :=
  let cert := { sampleCertificate "ada" range 0 with body.previousCertificateHash := some firstHash }
  let record := { sampleEnvelope "ada" range 1 0 (sampleText n) with body.masterCertificate := cert }
  ⟨record, [first, cert], sampleBranch (sampleText n), sampleText n, sampleText (n + 1), sampleText (n + 2)⟩

def leftAuthority : SampleAuthority := renewedAuthority (sampleCertificate "ada" 1 0) (sampleText 0) 2 4

/-- Under another certificate of the first range. -/
def rightAuthority : SampleAuthority := renewedAuthority (sampleCertificate "ada" 1 1) (sampleText 7) 3 8

def leftMove : RecordEvidence := sampleMove leftAuthority 1 (sampleText 0) "n0" "n1" 100

def rightMove : RecordEvidence := sampleMove rightAuthority 2 (sampleText 1) "n1" "n2" 200

noncomputable def forkedHome : HomeCrypto :=
  { idealHome [(sampleGenesis 0).record, leftMove.record, rightMove.record] with
    digest := idealDigest ([sampleAuthority, leftAuthority, rightAuthority].flatMap fun under =>
      under.chain.map .certificate ++ [.record under.record, .branch under.branch]) }

/-- The management chain of the stored base does not count as seen, only its last certificate: a record
under another certificate of the first range is accepted, unless the base is repeated. -/
theorem home_chain_forked :
    (Injective forkedHome.recordHash ∧ Injective forkedHome.objectHash) ∧
    ((forkedHome.verifyHomeChain ⟨leftMove, []⟩ (sampleGenesis 0) 100).toOption.map (·.records)) =
      some [sampleGenesis 0, leftMove] ∧
    ((forkedHome.verifyHomeChain ⟨rightMove, []⟩ leftMove 200).toOption.map (·.records)) =
      some [leftMove, rightMove] ∧
    ¬ OnePerRange ([leftMove, rightMove].flatMap (·.certificates)) ∧
    (forkedHome.verifyHomeChain ⟨rightMove, [leftMove]⟩ leftMove 200).toOption.isNone := by
  refine ⟨⟨(idealHome_injective (by decide)).1, ?_⟩, by decide +kernel, by decide +kernel, fun h => ?_,
    by decide +kernel⟩
  · exact fun _ _ hhash => idealDigest_injective (by decide) (encodeBase64url_inj hhash)
  · have hsame := h (sampleCertificate "ada" 1 0) (by decide +kernel) (sampleCertificate "ada" 1 1)
      (by decide +kernel) rfl
    exact absurd hsame (by decide +kernel)

end HomeCrypto

end Ramflux.Home
