import Ramflux.Crypto.HomeChain

/-! Commit times along a home chain, and chains that are fetched in two parts. The loop starts from
zero: the time of the base counts only when a committed base is repeated. -/
namespace Ramflux.Home
open Fallible Custody CustodyCrypto List Option Function

/-- The first record of the result that is newer than the base is not of an earlier time. -/
def FirstInOrder (base : RecordEvidence) (result : ResolveResult) : Prop :=
  ∀ e ∈ result.chain.find? (fun e => base.record.epoch < e.record.epoch),
    base.record.commitTime ≤ e.record.commitTime

instance (base : RecordEvidence) (result : ResolveResult) : Decidable (FirstInOrder base result) := by
  unfold FirstInOrder
  infer_instance

/-- Both parts of a chain as one. -/
def ResolveResult.join (first second : ResolveResult) : ResolveResult :=
  ⟨second.home, first.chain ++ second.predecessors⟩

theorem ResolveResult.chain_join (first second : ResolveResult) :
    (first.join second).chain = first.chain ++ second.chain :=
  append_assoc ..

namespace HomeCrypto
variable {H : HomeCrypto} {base last : RecordEvidence} {s : ChainState} {records : List RecordEvidence}

variable {e : RecordEvidence} {next : ChainState}

variable {now : ℕ}

theorem prefix_foldl_pushNewer (items records : List RecordEvidence) :
    records <+: items.foldl pushNewer records := by
  apply foldlRecOn items _ prefix_rfl
  intro found h e _
  unfold pushNewer
  split_ifs
  · exact h
  · exact h.trans ⟨_, rfl⟩

theorem head?_tail_foldl_pushNewer (items : List RecordEvidence) :
    (items.foldl pushNewer [base]).tail.head? =
      items.find? fun e => base.record.epoch < e.record.epoch := by
  induction items with
  | nil => rfl
  | cons e items ih =>
    rw [foldl_cons]
    by_cases hnewer : base.record.epoch < e.record.epoch
    · rw [pushNewer_of_lt rfl hnewer, find?_cons_of_pos (by simpa using hnewer)]
      obtain ⟨rest, hrest⟩ := prefix_foldl_pushNewer items ([base] ++ [e])
      rw [← hrest]
      rfl
    · rw [pushNewer_of_le rfl (not_lt.mp hnewer), find?_cons_of_neg (by simpa using hnewer)]
      exact ih

variable {v : VerifiedHome} {result : ResolveResult}

theorem verifyHomeChain_inOrder_iff (hrec : Injective H.recordHash) (hobj : Injective H.objectHash)
    (hbase : Evidenced H base) (hok : H.verifyHomeChain result base now = .ok v) :
    InOrder v.records ↔ FirstInOrder base result := by
  obtain ⟨s, last, hfollows, -, -, -, -, -, hrecs⟩ := verifyHomeChain_follows hrec hobj hbase hok
  have htail := hfollows.timed.inOrder
  rw [hrecs] at htail ⊢
  have hsecond := @head?_tail_foldl_pushNewer base result.chain
  obtain ⟨rest, hrest⟩ := prefix_foldl_pushNewer result.chain [base]
  unfold FirstInOrder
  rw [← hsecond]
  rw [← hrest] at htail ⊢
  cases rest with
  | nil =>
    constructor
    · intro _ e he
      cases he
    · intro _
      exact List.IsChain.singleton base
  | cons e rest =>
    constructor
    · intro horder found hfound
      cases hfound
      exact (isChain_cons_cons.mp horder).1
    · intro hfirst
      exact isChain_cons_cons.mpr ⟨hfirst e rfl, htail⟩

/-- Records reached from a genesis record through verifications that all met the condition. -/
inductive Reached (H : HomeCrypto) (genesis : Signed Genesis) : RecordEvidence → Prop
  | genesis {e : RecordEvidence} : e.record = .genesis genesis → Reached H genesis e
  | verified {base e : RecordEvidence} {result : ResolveResult} {now : ℕ} {v : VerifiedHome} :
      Reached H genesis base → FirstInOrder base result →
      H.verifyHomeChain result base now = .ok v → e ∈ v.records → Reached H genesis e

variable {genesis : Signed Genesis}

theorem Reached.trusted (h : Reached H genesis e) : Trusted H e := by
  induction h with
  | genesis hgen => exact .genesis hgen
  | verified _ _ hok hmem ih => exact .verified ih hok hmem

theorem base_le_of_inOrder (h : InOrder records) (hfirst : records.head? = some base) :
    ∀ e ∈ records, base.record.commitTime ≤ e.record.commitTime := by
  cases records with
  | nil => cases hfirst
  | cons first rest =>
    cases hfirst
    have hpairwise := isChain_iff_pairwise.mp h
    exact forall_mem_cons.mpr ⟨le_rfl, (pairwise_cons.mp hpairwise).1⟩

theorem Reached.registeredAt_le (hrec : Injective H.recordHash) (hobj : Injective H.objectHash)
    (h : Reached H genesis e) : genesis.body.registeredAt ≤ e.record.commitTime := by
  induction h with
  | genesis hgen =>
    rw [hgen]
    exact le_rfl
  | verified hreached hfirst hok hmem ih =>
    have hevidenced := hreached.trusted.evidenced hrec hobj
    have horder := (verifyHomeChain_inOrder_iff hrec hobj hevidenced hok).mpr hfirst
    obtain ⟨_, _, hfollows, -⟩ := verifyHomeChain_follows hrec hobj hevidenced hok
    exact ih.trans (base_le_of_inOrder horder hfollows.isFirst _ hmem)

/-- Every range seen was seen with one of the certificates. -/
def SeenIn (H : HomeCrypto) (seen : OrdMap ℕ String) (known : List MasterEnvelope) : Prop :=
  ∀ (range : ℕ) hash, seen[range]? = some hash →
    ∃ cert ∈ known, cert.body.rangeIndex = range ∧ H.objectHash (.certificate cert) = hash

variable {known : List MasterEnvelope} {seen seen' : OrdMap ℕ String}

theorem SeenIn.insert {cert : MasterEnvelope} (h : SeenIn H seen known) (hcert : cert ∈ known) :
    SeenIn H (seen.insert cert.body.rangeIndex (H.objectHash (.certificate cert))) known := by
  intro range hash hget
  rw [OrdMap.getElem?_insert_eq] at hget
  split_ifs at hget with hrange
  · exact ⟨cert, hcert, hrange, some.inj hget⟩
  · exact h range hash hget

/-- A management chain passes again where only its own certificates and ones that agree were seen. -/
theorem managementLoop_replay {certs : List MasterEnvelope} {anchor : String}
    {old : Option MasterEnvelope} {last : Option MasterEnvelope × OrdMap ℕ String}
    (hknown : OnePerRange known) (hcerts : certs ⊆ known) (hseen : SeenIn H seen' known)
    (h : certs.foldlM (H.managementCertificate anchor) (old, seen) = .ok last) : ∃ lastSeen,
      certs.foldlM (H.managementCertificate anchor) (old, seen') = .ok (last.1, lastSeen) ∧
      SeenIn H lastSeen known := by
  induction certs generalizing old seen seen' with
  | nil =>
    cases h
    exact ⟨seen', rfl, hseen⟩
  | cons cert certs ih =>
    obtain ⟨hcert, hcerts⟩ := cons_subset.mp hcerts
    obtain ⟨next, hfirst, hrest⟩ := bind_eq_ok.mp h
    obtain ⟨_, hver, hfirst⟩ := bind_eq_ok.mp hfirst
    obtain ⟨-, hfirst⟩ := not_refused hfirst
    obtain ⟨hgap, hfirst⟩ := not_refused hfirst
    cases hfirst
    obtain ⟨lastSeen, hloop, hlast⟩ := ih hcerts (hseen.insert hcert) hrest
    have hfork : ¬ ∃ found ∈ seen'[cert.body.rangeIndex]?, found ≠ H.objectHash (.certificate cert) := by
      rintro ⟨_, hfound, hne⟩
      obtain ⟨other, hother, hrange, rfl⟩ := hseen _ _ hfound
      exact hne (hknown other hother cert hcert hrange ▸ rfl)
    refine ⟨lastSeen, bind_eq_ok.mpr ⟨_, ?_, hloop⟩, hlast⟩
    exact bind_eq_ok.mpr ⟨_, hver, passed hfork (passed hgap rfl)⟩

theorem certificates_replay {a : Signed Authorization} {time range : ℕ} {found : OrdMap ℕ String}
    (hknown : OnePerRange known) (hcerts : e.managementCertificateChain ⊆ known) (hseen : SeenIn H seen' known)
    (h : H.certificates e a time seen = .ok (range, found)) :
    ∃ found', H.certificates e a time seen' = .ok (range, found') ∧ SeenIn H found' known := by
  obtain ⟨⟨last, lastSeen⟩, hloop, h⟩ := bind_eq_ok.mp h
  obtain ⟨found', hloop', hfound⟩ := managementLoop_replay hknown hcerts hseen hloop
  refine ⟨found', bind_eq_ok.mpr ⟨_, hloop', ?_⟩, hfound⟩
  cases last with
  | none => cases h
  | some cert =>
    cases hactor : e.actorCertificate with
    | none =>
      rw [hactor] at h
      cases h
    | some actor =>
      rw [hactor] at h
      obtain ⟨_, hauth, h⟩ := bind_eq_ok.mp h
      cases h
      exact bind_eq_ok.mpr ⟨_, hauth, rfl⟩

/-- The variables of two loops over the items left: the second has seen more, and its time is the
bound of the first or at most that of the record `head`, which the first started from. -/
structure Replays (H : HomeCrypto) (known : List MasterEnvelope) (head : RecordEvidence)
    (items : List RecordEvidence) (s t : ChainState) : Prop where
  isSome : s.hash.isSome
  hash : t.hash = s.hash
  epoch : t.epoch = s.epoch
  nodeId : t.nodeId = s.nodeId
  nodeKey : t.nodeKey = s.nodeKey
  range : t.managerRange = s.managerRange
  seen : SeenIn H t.seen known
  time : t.committedAt ≤ s.committedAt ∨ s.epoch = head.record.epoch ∧
    t.committedAt ≤ head.record.commitTime ∧
    ∀ e ∈ items.find? (fun e => head.record.epoch < e.record.epoch),
      head.record.commitTime ≤ e.record.commitTime

variable {t : ChainState} {head : RecordEvidence} {items : List RecordEvidence} {anchor : String} {now' : ℕ}

theorem checkCommit_replay {authorization : Signed Authorization} {c : CommitProof} {u : Unit} (hnow : now ≤ now')
    (hhash : t.hash = s.hash) (hepoch : t.epoch = s.epoch) (hnode : t.nodeId = s.nodeId)
    (htime : t.committedAt ≤ c.committedAt) (h : H.checkCommit now s authorization c = .ok u) :
    H.checkCommit now' t authorization c = .ok () := by
  obtain ⟨hfields, h⟩ := not_refused h
  obtain ⟨authorizationHash, hmsg, h⟩ := bind_eq_ok.mp h
  obtain ⟨htimes, h⟩ := not_refused h
  rw [← hhash, ← hepoch, ← hnode] at hfields
  have hskew : satAdd now skewSeconds ≤ satAdd now' skewSeconds := min_le_min_right _ (Nat.add_le_add_right hnow _)
  simp only [not_or, not_lt] at htimes
  obtain ⟨hsame, hoffer, -, hlate, hdue⟩ := htimes
  refine passed hfields (bind_eq_ok.mpr ⟨_, hmsg, passed ?_ h⟩)
  simp only [not_or, not_lt]
  exact ⟨hsame, hoffer, htime, hlate.trans hskew, hdue⟩

theorem Replays.repeated (h : Replays H known head (e :: items) s t) (hknown : OnePerRange known)
    (hcerts : e.managementCertificateChain ⊆ known) (hrun : H.repeatedRecord s e = .ok next) :
    ∃ next', H.repeatedRecord t e = .ok next' ∧ Replays H known head items next next' := by
  obtain ⟨hhead, hrun⟩ := not_refused hrun
  unfold repeatedRecord
  rw [h.epoch, h.nodeId, h.nodeKey]
  cases hrec : e.record with
  | genesis genesis =>
    rw [hrec] at hrun
    obtain rfl : s = next := Except.ok.inj hrun
    refine ⟨t, passed (hrec ▸ hhead) rfl,
      { h with time := h.time.imp_right fun ⟨hepoch, hle, hfirst⟩ => ⟨hepoch, hle, ?_⟩ }⟩
    simp only [not_or, not_not] at hhead
    rwa [find?_cons_of_neg (by simp [hhead.1, hepoch])] at hfirst
  | committed authorization commitProof =>
    rw [hrec] at hrun
    obtain ⟨⟨range, seen⟩, hcertificates, hrun⟩ := bind_eq_ok.mp hrun
    obtain rfl := Except.ok.inj hrun
    obtain ⟨found, hagain, hfound⟩ := certificates_replay hknown hcerts h.seen hcertificates
    exact ⟨_, passed (hrec ▸ hhead) (bind_eq_ok.mpr ⟨_, hagain, rfl⟩), h.isSome, h.hash, rfl, rfl, rfl, rfl,
      hfound, .inl le_rfl⟩

theorem Replays.successor (h : Replays H known head (e :: items) s t) (hknown : OnePerRange known)
    (hcerts : e.managementCertificateChain ⊆ known) (hnow : now ≤ now')
    (hnodes : ∀ node key, H.verifyNodeIdentityRecord e.nodeRecord node key now = .ok () →
      H.verifyNodeIdentityRecord e.nodeRecord node key now' = .ok ())
    (hrun : H.nextRecord now s e = .ok next) :
    ∃ next', H.nextRecord now' t e = .ok next' ∧ Replays H known head items next next' := by
  obtain ⟨_, hnode, hrun⟩ := bind_eq_ok.mp hrun
  obtain ⟨verified, hver, hrun⟩ := bind_eq_ok.mp hrun
  cases hrun
  unfold verifiedRecord at hver
  cases hrec : e.record with
  | genesis genesis =>
    rw [hrec] at hver
    exact absurd (.inl h.isSome) (not_refused hver).1
  | committed authorization commitProof =>
    rw [hrec] at hver
    obtain ⟨_, hcommit, hver⟩ := bind_eq_ok.mp hver
    obtain ⟨_, hbounds, hver⟩ := bind_eq_ok.mp hver
    obtain ⟨_, hsigned, hver⟩ := bind_eq_ok.mp hver
    obtain ⟨⟨range, seen⟩, hcertificates, hver⟩ := bind_eq_ok.mp hver
    obtain ⟨hrange, hver⟩ := not_refused hver
    cases hver
    obtain ⟨-, hepoch, -, htime⟩ := checkCommit_ok hcommit
    have htime' : t.committedAt ≤ commitProof.body.committedAt := by
      rcases h.time with hle | ⟨hhead, hle, hfirst⟩
      · exact hle.trans htime
      · have hnewer : head.record.epoch < e.record.epoch := by
          rw [hrec]
          change head.record.epoch < authorization.body.nextHomeEpoch
          omega
        rw [find?_cons_of_pos (by simpa using hnewer)] at hfirst
        have hbound := hfirst e rfl
        rw [hrec] at hbound
        exact hle.trans hbound
    obtain ⟨found, hagain, hfound⟩ := certificates_replay hknown hcerts h.seen hcertificates
    have hcommit' := checkCommit_replay hnow h.hash h.epoch h.nodeId htime' hcommit
    have hver' : H.verifiedRecord now' t e = .ok { t with
        managerRange := range, seen := found, epoch := authorization.body.nextHomeEpoch
        nodeId := authorization.body.destinationNode, nodeKey := authorization.body.destinationKey
        committedAt := commitProof.body.committedAt } := by
      unfold verifiedRecord
      rw [hrec]
      refine bind_eq_ok.mpr ⟨_, hcommit', bind_eq_ok.mpr ⟨_, hbounds, bind_eq_ok.mpr ⟨(), ?_,
        bind_eq_ok.mpr ⟨_, hagain, passed ?_ rfl⟩⟩⟩⟩
      · rw [h.nodeId, h.nodeKey, hsigned]
      · exact h.range ▸ hrange
    rw [← hrec]
    refine ⟨_, bind_eq_ok.mpr ⟨(), ?_, bind_eq_ok.mpr ⟨_, hver', rfl⟩⟩, rfl, rfl, rfl, rfl, rfl, rfl,
      hfound, .inl le_rfl⟩
    rw [h.nodeId, h.nodeKey]
    exact hnodes _ _ hnode

/-- What a later verification of the same items needs beyond the first. -/
structure Repeatable (H : HomeCrypto) (known : List MasterEnvelope) (now now' : ℕ)
    (items : List RecordEvidence) : Prop where
  certificates : ∀ e ∈ items, e.managementCertificateChain ⊆ known
  later : now ≤ now'
  nodes : ∀ e ∈ items, ∀ node key, H.verifyNodeIdentityRecord e.nodeRecord node key now = .ok () →
    H.verifyNodeIdentityRecord e.nodeRecord node key now' = .ok ()

theorem Replays.loop (h : Replays H known head items s t) (hknown : OnePerRange known)
    (hitems : Repeatable H known now now' items) (hrun : items.foldlM (H.chainStep anchor now) s = .ok next) :
    ∃ next', items.foldlM (H.chainStep anchor now') t = .ok next' ∧ Replays H known head [] next next' := by
  induction items generalizing s t with
  | nil =>
    cases hrun
    exact ⟨t, rfl, h⟩
  | cons e items ih =>
    obtain ⟨mid, hfirst, hrest⟩ := bind_eq_ok.mp hrun
    obtain ⟨hanchor, hfirst⟩ := not_refused hfirst
    have hstep : ∃ mid', (if t.hash = some (H.recordHash e.record) then H.repeatedRecord t e
        else H.nextRecord now' t e) = .ok mid' ∧ Replays H known head items mid mid' := by
      rw [h.hash]
      split_ifs at hfirst ⊢ with hrepeat
      · exact h.repeated hknown (hitems.certificates e (.head _)) hfirst
      · exact h.successor hknown (hitems.certificates e (.head _)) hitems.later (hitems.nodes e (.head _)) hfirst
    obtain ⟨mid', hmid, hreplays⟩ := hstep
    obtain ⟨next', hloop, hnext⟩ := ih hreplays ⟨fun e he => hitems.certificates e (.tail _ he), hitems.later,
      fun e he => hitems.nodes e (.tail _ he)⟩ hrest
    exact ⟨next', bind_eq_ok.mpr ⟨_, passed hanchor hmid, hloop⟩, hnext⟩

theorem replays_start (hmanager : base.manager ∈ known) :
    Replays H known head items (H.trust base).start (H.trust base).start where
  isSome := rfl
  hash := rfl
  epoch := rfl
  nodeId := rfl
  nodeKey := rfl
  range := rfl
  seen := SeenIn.insert (fun _ _ hget => by simp at hget) hmanager
  time := .inl le_rfl

/-- The first loop starts anew from its last record. -/
theorem Replays.restart (h : Replays H known last [] s t)
    (hfollows : Follows H base s records last)
    (hfirst : FirstInOrder last result) :
    Replays H known last result.chain (H.trust last).start t where
  isSome := rfl
  hash := h.hash.trans hfollows.hash
  epoch := h.epoch.trans hfollows.epoch
  nodeId := h.nodeId.trans (congrArg Prod.fst hfollows.home)
  nodeKey := h.nodeKey.trans (congrArg Prod.snd hfollows.home)
  range := h.range.trans hfollows.range
  seen := h.seen
  time := by
    refine .inr ⟨rfl, ?_, hfirst⟩
    rcases h.time with hle | ⟨-, hle, -⟩
    · exact hle.trans hfollows.timed.le
    · exact hle

theorem foldl_pushNewer_append {later : List RecordEvidence} (hne : later ≠ []) :
    items.foldl pushNewer (records ++ later) = records ++ items.foldl pushNewer later := by
  induction items generalizing later with
  | nil => rfl
  | cons e items ih =>
    have hpush : pushNewer (records ++ later) e = records ++ pushNewer later e ∧ pushNewer later e ≠ [] := by
      unfold pushNewer
      rw [getLast?_append_of_ne_nil _ hne]
      split_ifs
      · exact ⟨rfl, hne⟩
      · exact ⟨append_assoc .., by simp⟩
    rw [foldl_cons, foldl_cons, hpush.1, ih hpush.2]

/-- When the two parts of a chain can be verified as one, after the second: besides the times, the
certificates of both agree, the limits hold for both together, and the node records of the first part
are still valid. -/
structure Joinable (H : HomeCrypto) (base head : RecordEvidence) (first second : ResolveResult) (now now' : ℕ) :
    Prop where
  inOrder : FirstInOrder head second
  certificates : OnePerRange (base.manager :: (first.join second).chain.flatMap (·.managementCertificateChain))
  records : (first.join second).predecessors.length + 1 ≤ maxChainRecords
  bytes : H.resultLength (first.join second) ≤ maxResolveBytes
  later : now ≤ now'
  nodes : ∀ e ∈ first.chain, ∀ node key, H.verifyNodeIdentityRecord e.nodeRecord node key now = .ok () →
    H.verifyNodeIdentityRecord e.nodeRecord node key now' = .ok ()

theorem verifyHomeChain_join (hrec : Injective H.recordHash) (hobj : Injective H.objectHash)
    (hbase : Evidenced H base) {first second : ResolveResult} {v' : VerifiedHome}
    (hfirst : H.verifyHomeChain first base now = .ok v) (hhead : v.records.getLast? = some head)
    (hsecond : H.verifyHomeChain second head now' = .ok v') (hjoin : Joinable H base head first second now now') :
    ∃ w, H.verifyHomeChain (first.join second) base now' = .ok w ∧ w.records = v.records ++ v'.records.tail := by
  obtain ⟨s, last, hfollows, -, -, -, hloop, hanchor, hrecs⟩ := verifyHomeChain_follows hrec hobj hbase hfirst
  obtain rfl : last = head := some.inj (hfollows.isLast.symm.trans hhead)
  obtain ⟨s', last', hfollows', -, hhome, hsame, hloop', -, hrecs'⟩ := verifyHomeChain_follows hrec hobj
    (hfollows.evidenced _ (mem_of_getLast? hhead)) hsecond
  have hcertificates := hjoin.certificates
  rw [ResolveResult.chain_join] at hcertificates
  have hcovers : ∀ e ∈ first.chain ++ second.chain, e.managementCertificateChain ⊆ base.manager ::
      (first.chain ++ second.chain).flatMap (·.managementCertificateChain) :=
    fun e he c hc => .tail _ (mem_flatMap_of_mem he hc)
  obtain ⟨t, hloopT, ht⟩ := (replays_start (.head _)).loop hcertificates
    ⟨fun e he => hcovers e (mem_append_left _ he), hjoin.later, hjoin.nodes⟩ hloop
  obtain ⟨t', hloopT', ht'⟩ := (ht.restart hfollows hjoin.inOrder).loop hcertificates
    ⟨fun e he => hcovers e (mem_append_right _ he), le_rfl, fun _ _ _ _ hvalid => hvalid⟩ hloop'
  have hchain : (first.join second).chain.foldlM (H.chainStep base.record.anchor now')
      (H.trust base).start = .ok t' := by
    rw [ResolveResult.chain_join, foldlM_append]
    exact bind_eq_ok.mpr ⟨t, hloopT, hanchor ▸ hloopT'⟩
  have hbudget : ¬ (maxChainRecords < (first.join second).predecessors.length + 1 ∨
      maxResolveBytes < H.resultLength (first.join second)) := by
    rintro (hmany | hlarge)
    · exact absurd hjoin.records (not_le.mpr hmany)
    · exact absurd hjoin.bytes (not_le.mpr hlarge)
  have hretained : H.verifyRetainedChain (first.join second) (H.trust base) now' = .ok
      ⟨second.home, H.recordHash last'.record, t'.ancestry, []⟩ := by
    refine passed hbudget (bind_eq_ok.mpr ⟨t', hchain, ?_⟩)
    rw [ht'.hash, hfollows'.hash]
    exact passed (not_not.mpr (congrArg _ (hhome ▸ hsame))) rfl
  obtain ⟨_, hcheck, -⟩ := bind_eq_ok.mp hfirst
  refine ⟨_, bind_eq_ok.mpr ⟨_, hcheck, bind_eq_ok.mpr ⟨_, hretained, rfl⟩⟩, ?_⟩
  obtain ⟨before, hbefore⟩ := getLast?_eq_some_iff.mp hhead
  obtain ⟨after, hafter⟩ := head?_eq_some_iff.mp hfollows'.isFirst
  calc (first.join second).chain.foldl pushNewer [base]
      = second.chain.foldl pushNewer v.records := by
        rw [ResolveResult.chain_join, foldl_append, hrecs]
    _ = before ++ v'.records := by
        rw [hbefore, foldl_pushNewer_append (by simp), hrecs']
    _ = v.records ++ v'.records.tail := by
        rw [hbefore, hafter]
        simp

/-- Commit times of an accepted chain with its base are in order, and not before the registration,
exactly when the first record newer than the base is not earlier than it. A chain accepted in two parts
that can be joined is accepted as one, with the same records. -/
theorem commit_times_iff (H : HomeCrypto) (hrec : Injective H.recordHash)
    (hobj : Injective H.objectHash) {genesis : Signed Genesis} {base : RecordEvidence}
    (hbase : Reached H genesis base) {result : ResolveResult} {now : ℕ} {v : VerifiedHome}
    (hok : H.verifyHomeChain result base now = .ok v) :
    ((InOrder v.records ∧ ∀ e ∈ v.records, genesis.body.registeredAt ≤ e.record.commitTime) ↔
      FirstInOrder base result) ∧
    ∀ head ∈ v.records.getLast?, ∀ result' now' v', H.verifyHomeChain result' head now' = .ok v' →
      Joinable H base head result result' now now' →
        ∃ w, H.verifyHomeChain (result.join result') base now' = .ok w ∧
          w.records = v.records ++ v'.records.tail := by
  have hevidenced := hbase.trusted.evidenced hrec hobj
  have hiff := verifyHomeChain_inOrder_iff hrec hobj hevidenced hok
  refine ⟨⟨fun h => hiff.mp h.1, fun hfirst => ⟨hiff.mpr hfirst, fun e he => ?_⟩⟩, ?_⟩
  · exact (Reached.verified hbase hfirst hok he).registeredAt_le hrec hobj
  · intro head hhead result' now' v' hok' hjoin
    exact verifyHomeChain_join hrec hobj hevidenced hok hhead hok' hjoin

/-- One move, then two more. -/
theorem commit_times_iff_moves : ∃ v w,
    movedHome.verifyHomeChain ⟨sampleFirst, []⟩ (sampleGenesis 0) 100 = .ok v ∧ InOrder v.records ∧
    movedHome.verifyHomeChain ⟨sampleThird, [sampleFirst, sampleSecond]⟩ (sampleGenesis 0) 300 = .ok w ∧
      w.records = [sampleGenesis 0, sampleFirst, sampleSecond, sampleThird] := by
  have hfirst : (movedHome.verifyHomeChain ⟨sampleFirst, []⟩ (sampleGenesis 0) 100).toOption.map (·.records) =
      some [sampleGenesis 0, sampleFirst] := by
    decide +kernel
  have hsecond : (movedHome.verifyHomeChain ⟨sampleThird, [sampleSecond]⟩ sampleFirst 300).toOption.map
      (·.records) = some [sampleFirst, sampleSecond, sampleThird] := by
    decide +kernel
  obtain ⟨v, hv, hrecs⟩ := map_toOption_eq_some hfirst
  obtain ⟨v', hv', hrecs'⟩ := map_toOption_eq_some hsecond
  obtain ⟨hrec, hobj⟩ := movedHome_injective
  obtain ⟨hiff, hjoin⟩ := commit_times_iff movedHome hrec hobj (.genesis rfl) hv
  have hjoinable : Joinable movedHome (sampleGenesis 0) sampleFirst ⟨sampleFirst, []⟩
      ⟨sampleThird, [sampleSecond]⟩ 100 300 :=
    { inOrder := by decide +kernel, certificates := by unfold OnePerRange Agree; decide +kernel, records := by decide
      bytes := Nat.zero_le _, later := by decide, nodes := fun _ _ _ _ hvalid => hvalid }
  obtain ⟨w, hw, hwhole⟩ := hjoin sampleFirst (hrecs ▸ rfl) _ 300 v' hv' hjoinable
  exact ⟨v, w, hv, (hiff.mpr (by decide +kernel)).1, hw, by rw [hwhole, hrecs, hrecs']; rfl⟩

def sampleLate : RecordEvidence := sampleMove sampleAuthority 1 (sampleText 0) "n0" "n1" 1000

def sampleEarly : RecordEvidence := sampleMove sampleAuthority 2 (sampleText 1) "n1" "n2" 500

noncomputable def twiceMovedHome : HomeCrypto :=
  idealHome [(sampleGenesis 0).record, sampleLate.record, sampleEarly.record]

/-- The second move is dated before the first. Fetched in two parts, the second without its base, the
chain is accepted; fetched at once it is refused. -/
theorem commit_times_decrease :
    ((twiceMovedHome.verifyHomeChain ⟨sampleLate, []⟩ (sampleGenesis 0) 1000).toOption.map
      fun v => v.records) = some [sampleGenesis 0, sampleLate] ∧
    ((twiceMovedHome.verifyHomeChain ⟨sampleEarly, []⟩ sampleLate 1000).toOption.map
      fun v => v.records) = some [sampleLate, sampleEarly] ∧
    ¬ sampleLate.record.commitTime ≤ sampleEarly.record.commitTime ∧
    (twiceMovedHome.verifyHomeChain ⟨sampleEarly, [sampleLate]⟩ (sampleGenesis 0) 1000).toOption.isNone := by
  refine ⟨by decide +kernel, by decide +kernel, by decide +kernel, by decide +kernel⟩

end HomeCrypto

end Ramflux.Home
