import Ramflux.Crypto.HomeChain
import Ramflux.Node.HomeSourceTransactions

/-! A commit and a fence exclude each other over any transactions, whatever the clock does: a fence is
dropped only once its deadline lies behind the clock floor, and no commit is made after its deadline. -/
namespace Ramflux.Home
open Fallible Custody OrdMap Except Std.ExtTreeMap Option Function

variable {outcome : FenceOutcome} {other : Signed Authorization}

namespace HomeCrypto
variable {H : HomeCrypto} {node : MigrationNode} {s s' : SourceStore} {auth : Signed Authorization}
  {now : ℕ}

/-- No commit is possible: a fence is stored, or the deadline is behind the clock. -/
structure Blocked (H : HomeCrypto) (node : MigrationNode) (s : SourceStore) (auth : Signed Authorization) :
    Prop where
  oldNode : auth.body.oldNode = node.nodeId
  signatures : H.verifySignatures auth = .ok ()
  base : BaseOf node s auth.body
  closed : ∃ key deadline, H.authorizationKey auth = .ok key ∧ hardDeadline auth.body = .ok deadline ∧
    s.proofs[key]? = none ∧ (key ∈ s.fences ∨ deadline < s.floor)

/-- A commit in the proof index: its base lies one epoch before, and the account's head is no older. -/
structure Indexed (H : HomeCrypto) (s : SourceStore) (key : AuthorizationKey) (hash : String)
    (auth : Signed Authorization) : Prop where
  key : H.authorizationKey auth = .ok key
  record : ∃ e proof, s.records[hash]? = some e ∧ e.record = .committed auth proof
  base : ∃ base : HomeRecord, H.recordHash base = auth.body.previousHomeHash ∧
    auth.body.nextHomeEpoch = base.epoch + 1
  head : ∃ head, s.heads[auth.body.anchor]? = some head ∧
    auth.body.nextHomeEpoch ≤ head.record.epoch

/-- What holds of the store between transactions. -/
structure Coherent (H : HomeCrypto) (node : MigrationNode) (s : SourceStore) : Prop where
  floor : s.floor ≤ maxSafeJsonInteger
  recorded : ∀ hash e, s.records[hash]? = some e → H.recordHash e.record = hash
  proved : ∀ key hash, s.proofs[key]? = some hash → ∃ auth, Indexed H s key hash auth
  single : ∀ key key' hash hash' auth auth', s.proofs[key]? = some hash → s.proofs[key']? = some hash' →
    Indexed H s key hash auth → Indexed H s key' hash' auth' →
    auth.body.anchor = auth'.body.anchor →
    auth.body.previousHomeHash = auth'.body.previousHomeHash → key = key'
  fenced : ∀ key, key ∈ s.fences → ∃ auth, H.authorizationKey auth = .ok key ∧ Blocked H node s auth
  expiry : ∀ deadline key, (deadline, key) ∈ s.fenceExpires →
    ∃ auth, H.authorizationKey auth = .ok key ∧ hardDeadline auth.body = .ok deadline
  ops : ∀ (id : String × String) op, s.ops[id]? = some op → op.proof.isSome →
    ∃ key hash, H.authorizationKey op.authorization = .ok key ∧ s.proofs[key]? = some hash

/-- What later states keep. -/
structure Advances (H : HomeCrypto) (node : MigrationNode) (s s' : SourceStore) : Prop where
  floor : s.floor ≤ s'.floor
  records : ∀ (hash : String) e, s.records[hash]? = some e →
    ∃ e', s'.records[hash]? = some e' ∧ e'.record = e.record
  proofs : ∀ (key : AuthorizationKey) hash, s.proofs[key]? = some hash → s'.proofs[key]? = some hash
  blocked : ∀ auth, Blocked H node s auth → Blocked H node s' auth

theorem Advances.refl (s : SourceStore) : Advances H node s s :=
  ⟨le_rfl, fun _ e h => ⟨e, h, rfl⟩, fun _ _ h => h, fun _ h => h⟩

theorem Advances.trans {s'' : SourceStore} (h : Advances H node s s') (h' : Advances H node s' s'') :
    Advances H node s s'' where
  floor := h.floor.trans h'.floor
  records hash e hget := by
    obtain ⟨e', hget', heq⟩ := h.records hash e hget
    obtain ⟨e'', hget'', heq'⟩ := h'.records hash e' hget'
    exact ⟨e'', hget'', heq'.trans heq⟩
  proofs key hash hget := h'.proofs key hash (h.proofs key hash hget)
  blocked auth hblocked := h'.blocked auth (h.blocked auth hblocked)

theorem BaseOf.mono {a : Authorization} (hbase : BaseOf node s a)
    (hrecs : ∀ (hash : String) e, s.records[hash]? = some e →
      ∃ e', s'.records[hash]? = some e' ∧ e'.record = e.record) : BaseOf node s' a := by
  obtain ⟨base, hget, hanchor, hhome, hepoch⟩ := hbase
  obtain ⟨base', hget', heq⟩ := hrecs _ base hget
  exact ⟨base', hget', heq ▸ hanchor, heq ▸ hhome, heq ▸ hepoch⟩

variable {key : AuthorizationKey} {deadline : ℕ} {fence : Signed NoncommitFence}

/-- A blocked authorization stays so if its proof is absent and its fence goes only after the deadline. -/
theorem Blocked.mono (hblocked : Blocked H node s auth)
    (hkey : H.authorizationKey auth = .ok key) (hdue : hardDeadline auth.body = .ok deadline)
    (hrecs : ∀ (hash : String) e, s.records[hash]? = some e →
      ∃ e', s'.records[hash]? = some e' ∧ e'.record = e.record)
    (hproof : s'.proofs[key]? = none) (hfloor : s.floor ≤ s'.floor)
    (hfence : key ∈ s.fences → key ∈ s'.fences ∨ deadline < s'.floor) : Blocked H node s' auth := by
  refine ⟨hblocked.oldNode, hblocked.signatures, hblocked.base.mono hrecs, key, deadline, hkey,
    hdue, hproof, ?_⟩
  obtain ⟨key', deadline', hkey', hdue', -, hclosed⟩ := hblocked.closed
  cases hkey.symm.trans hkey'
  cases hdue.symm.trans hdue'
  cases hclosed with
  | inl hmem => exact hfence hmem
  | inr hlt => exact .inr (hlt.trans_le hfloor)

theorem Indexed.unique (hmsg : Injective H.messageDigest)
    {hash hash' : String} {auth auth' : Signed Authorization} (h : Indexed H s key hash auth)
    (h' : Indexed H s' key hash' auth') : auth = auth' :=
  authorizationKey_inj hmsg h.key h'.key

section
variable {record : RecordEvidence} (hrec : Injective H.recordHash)
  (hmsg : Injective H.messageDigest) (hs : Coherent H node s) (h : Commits H s auth record s')
include hrec hs h

theorem commits_records (hash : String) (e : RecordEvidence) (hget : s.records[hash]? = some e) :
    ∃ e', s'.records[hash]? = some e' ∧ e'.record = e.record := by
  obtain ⟨-, key, current, deadline, proof, op, entry, time, -, -, -, -, -, -, -, -, -, -, -, rfl⟩ := h
  rw [getElem?_insert_eq]
  split_ifs with heq
  · have hhash := hs.recorded hash e hget
    exact ⟨record, rfl, hrec (heq.trans hhash.symm)⟩
  · exact ⟨e, hget, rfl⟩

include hmsg in
/-- A commit advances the store: its own authorization was not blocked. -/
theorem commits_advances : Advances H node s s' := by
  have hrecs := commits_records hrec hs h
  obtain ⟨-, key, current, deadline, proof, op, entry, time, hkey, hproof, hfence, hfloor, hdue, hle, -,
    -, -, -, -, rfl⟩ := h
  refine ⟨hfloor, hrecs, fun other hash hget => ?_, fun other hblocked => ?_⟩
  · rw [getElem?_insert_of_ne]
    · exact hget
    · rintro rfl
      rw [hproof] at hget
      cases hget
  · obtain ⟨key', deadline', hkey', hdue', hproof', hclosed⟩ := hblocked.closed
    have hne : key ≠ key' := by
      rintro rfl
      obtain rfl := authorizationKey_inj hmsg hkey hkey'
      cases hdue.symm.trans hdue'
      cases hclosed with
      | inl hmem => exact hfence hmem
      | inr hlt => omega
    refine hblocked.mono hkey' hdue' hrecs ?_ hfloor .inl
    rw [getElem?_insert_of_ne _ _ hne, hproof']

theorem Indexed.commit {key : AuthorizationKey} {hash : String}
    (hidx : Indexed H s key hash other) : Indexed H s' key hash other := by
  have hrecs := commits_records hrec hs h
  obtain ⟨e, proof, hget, heq⟩ := hidx.record
  obtain ⟨e', hget', heq'⟩ := hrecs hash e hget
  refine ⟨hidx.key, ⟨e', proof, hget', heq'.trans heq⟩, hidx.base, ?_⟩
  obtain ⟨head, hhead, hepoch⟩ := hidx.head
  obtain ⟨-, key', current, deadline, proof', op, entry, time, -, -, -, -, -, -, hcur, -, hnext, hcommit,
    -, rfl⟩ := h
  rw [getElem?_insert_eq]
  split_ifs with hanchor
  · rw [hanchor, hhead] at hcur
    cases hcur
    refine ⟨record, rfl, ?_⟩
    have hrecordEpoch : record.record.epoch = auth.body.nextHomeEpoch := by
      rw [hcommit]
      rfl
    omega
  · exact ⟨head, hhead, hepoch⟩

omit hs in
theorem commits_fresh {key : AuthorizationKey} {hash : String}
    (hidx : Indexed H s key hash other) (hanchor : auth.body.anchor = other.body.anchor) :
    auth.body.previousHomeHash ≠ other.body.previousHomeHash := by
  intro hprev
  obtain ⟨-, key', current, deadline, proof, op, entry, time, -, -, -, -, -, -, hcur, hhash, -, -, -, -⟩ := h
  obtain ⟨base, hbase, hepoch⟩ := hidx.base
  obtain ⟨head, hhead, hle⟩ := hidx.head
  rw [hanchor, hhead] at hcur
  obtain rfl := some.inj hcur
  have hsame : head.record = base := hrec ((hhash.trans hprev).trans hbase.symm)
  rw [hsame] at hle
  omega

include hmsg in
theorem commits_coherent : Coherent H node s' := by
  have hfloor : s'.floor ≤ maxSafeJsonInteger := h.safe.trans (max_le le_rfl hs.floor)
  have hadv := commits_advances hrec hmsg hs h
  have hkept : ∀ {key hash other}, Indexed H s key hash other → Indexed H s' key hash other :=
    fun hidx => Indexed.commit hrec hs h hidx
  have hfresh : ∀ {key hash other}, Indexed H s key hash other →
      auth.body.anchor = other.body.anchor →
      auth.body.previousHomeHash ≠ other.body.previousHomeHash :=
    fun hidx => commits_fresh hrec h hidx
  obtain ⟨-, key, current, deadline, proof, op, entry, time, hkey, hproof, -, -, -, -, hcur, hhash, hnext,
    hcommit, hop, hstate⟩ := h
  have hepoch : auth.body.nextHomeEpoch ≤ record.record.epoch := by
    rw [hcommit]
    rfl
  have hnew : Indexed H s' key (H.recordHash record.record) auth := by
    rw [hstate]
    exact ⟨hkey, ⟨record, proof, getElem?_insert_self, hcommit⟩,
      ⟨current.record, hhash, hnext⟩, ⟨record, getElem?_insert_self, hepoch⟩⟩
  subst hstate
  have hcases : ∀ (k : AuthorizationKey) hash',
      (s.proofs.insert key (H.recordHash record.record))[k]? = some hash' →
      (k = key ∧ hash' = H.recordHash record.record) ∨ s.proofs[k]? = some hash' := by
    intro k hash' hget
    rw [getElem?_insert_eq] at hget
    split_ifs at hget with heq
    · exact .inl ⟨heq.symm, (some.inj hget).symm⟩
    · exact .inr hget
  refine ⟨hfloor, fun hash e hget => ?_, fun k hash hget => ?_, ?_, fun k hmem => ?_, hs.expiry,
    fun id found hget hsome => ?_⟩
  · dsimp only at hget
    obtain ⟨heq, rfl⟩ | ⟨-, hget⟩ := eq_some_of_insert hget
    · exact heq
    · exact hs.recorded hash e hget
  · obtain ⟨rfl, rfl⟩ | hold := hcases k hash hget
    · exact ⟨auth, hnew⟩
    · obtain ⟨other, hidx⟩ := hs.proved k hash hold
      exact ⟨other, hkept hidx⟩
  · intro k k' hash hash' a a' hget hget' hidx hidx' hanchor hprev
    obtain ⟨rfl, rfl⟩ | hold := hcases k hash hget
    · obtain rfl := hnew.unique hmsg hidx
      obtain ⟨rfl, rfl⟩ | hold' := hcases k' hash' hget'
      · rfl
      · obtain ⟨other, hother⟩ := hs.proved k' hash' hold'
        obtain rfl := hother.unique hmsg hidx'
        exact absurd hprev (hfresh hother hanchor)
    · obtain ⟨other, hother⟩ := hs.proved k hash hold
      obtain rfl := hother.unique hmsg hidx
      obtain ⟨rfl, rfl⟩ | hold' := hcases k' hash' hget'
      · obtain rfl := hnew.unique hmsg hidx'
        exact absurd hprev.symm (hfresh hother hanchor.symm)
      · obtain ⟨other', hother'⟩ := hs.proved k' hash' hold'
        obtain rfl := hother'.unique hmsg hidx'
        exact hs.single k k' hash hash' other other' hold hold' hother hother' hanchor hprev
  · obtain ⟨other, hkey', hblocked⟩ := hs.fenced k hmem
    exact ⟨other, hkey', hadv.blocked other hblocked⟩
  · dsimp only at hget
    obtain ⟨-, rfl⟩ | ⟨-, hget⟩ := eq_some_of_insert hget
    · exact ⟨key, _, hop ▸ hkey, getElem?_insert_self⟩
    · obtain ⟨key', hash', hkey', hproof'⟩ := hs.ops id found hget hsome
      exact ⟨key', hash', hkey', hadv.proofs key' hash' hproof'⟩

end

theorem Indexed.frame {hash : String} (hrecs : s'.records = s.records)
    (hheads : s'.heads = s.heads) : Indexed H s' key hash auth ↔ Indexed H s key hash auth := by
  constructor
  · intro h
    exact ⟨h.key, hrecs ▸ h.record, h.base, hheads ▸ h.head⟩
  · intro h
    exact ⟨h.key, hrecs ▸ h.record, h.base, hheads ▸ h.head⟩

theorem Coherent.frame (hs : Coherent H node s) (hfloor : s'.floor ≤ maxSafeJsonInteger)
    (hrecs : s'.records = s.records) (hheads : s'.heads = s.heads) (hproofs : s'.proofs = s.proofs)
    (hfenced : ∀ key, key ∈ s'.fences → ∃ auth, H.authorizationKey auth = .ok key ∧ Blocked H node s' auth)
    (hexpiry : ∀ deadline key, (deadline, key) ∈ s'.fenceExpires →
      ∃ auth, H.authorizationKey auth = .ok key ∧ hardDeadline auth.body = .ok deadline)
    (hops : ∀ (id : String × String) op, s'.ops[id]? = some op → s.ops[id]? = some op) :
    Coherent H node s' where
  floor := hfloor
  recorded := hrecs ▸ hs.recorded
  proved key hash hget := by
    obtain ⟨auth, hidx⟩ := hs.proved key hash (hproofs ▸ hget)
    exact ⟨auth, (Indexed.frame hrecs hheads).mpr hidx⟩
  single key key' hash hash' auth auth' hget hget' hidx hidx' :=
    hs.single key key' hash hash' auth auth' (hproofs ▸ hget) (hproofs ▸ hget')
      ((Indexed.frame hrecs hheads).mp hidx) ((Indexed.frame hrecs hheads).mp hidx')
  fenced := hfenced
  expiry := hexpiry
  ops id op hget hsome := hproofs ▸ hs.ops id op (hops id op hget) hsome

theorem fences_advances (h : Fences H node s auth fence s') :
    Advances H node s s' ∧ Blocked H node s' auth ∧ (∀ key, key ∈ s'.fences → key ∈ s.fences ∨
      H.authorizationKey auth = .ok key) ∧
    ∀ entry, entry ∈ s'.fenceExpires → entry ∈ s.fenceExpires ∨
      H.authorizationKey auth = .ok entry.2 ∧ hardDeadline auth.body = .ok entry.1 := by
  obtain ⟨-, hnode, hsigs, hbase, key, deadline, time, hkey, hproof, hdue, hfloor, hstate⟩ := h
  have hblocked : ∀ next : SourceStore, next.records = s.records → next.proofs = s.proofs →
      s.floor ≤ next.floor → (∀ key, key ∈ s.fences → key ∈ next.fences) → Advances H node s next := by
    intro next hrecs hproofs hnext hfences
    have hkept : ∀ (hash : String) e, s.records[hash]? = some e →
        ∃ e', next.records[hash]? = some e' ∧ e'.record = e.record :=
      fun hash e hget => ⟨e, hrecs ▸ hget, rfl⟩
    refine ⟨hnext, hkept, fun _ _ hget => hproofs ▸ hget, fun other hother => ?_⟩
    obtain ⟨key', deadline', hkey', hdue', hproof', -⟩ := hother.closed
    exact hother.mono hkey' hdue' hkept (hproofs ▸ hproof') hnext fun hmem => .inl (hfences key' hmem)
  obtain rfl | ⟨hlt, rfl⟩ := hstate
  · refine ⟨hblocked _ rfl rfl hfloor fun k hmem => mem_insert.mpr (.inr hmem),
      ⟨hnode, hsigs, hbase, key, deadline, hkey, hdue, hproof,
        .inl mem_insert_self⟩, fun k hmem => ?_, fun entry hmem => ?_⟩
    · obtain hnew | hold := mem_insert.mp hmem
      · have hnew := Std.LawfulEqCmp.eq_of_compare hnew
        exact .inr (hnew ▸ hkey)
      · exact .inl hold
    · obtain rfl | hold := OrdSet.mem_insert_iff.mp hmem
      · exact .inr ⟨hkey, hdue⟩
      · exact .inl hold
  · exact ⟨hblocked _ rfl rfl hfloor fun _ hmem => hmem,
      ⟨hnode, hsigs, hbase, key, deadline, hkey, hdue, hproof, .inr hlt⟩,
      fun _ hmem => .inl hmem, fun _ hmem => .inl hmem⟩

theorem fences_coherent (hs : Coherent H node s)
    (h : Fences H node s auth fence s') : Coherent H node s' := by
  have hfloor : s'.floor ≤ maxSafeJsonInteger := h.safe.trans (max_le le_rfl hs.floor)
  obtain ⟨hadv, hblocked, hfences, hexpiry⟩ := fences_advances h
  have hframe : s'.records = s.records ∧ s'.heads = s.heads ∧ s'.proofs = s.proofs ∧ s'.ops = s.ops := by
    obtain ⟨-, -, -, -, key, deadline, time, -, -, -, -, rfl | ⟨-, rfl⟩⟩ := h
    · exact ⟨rfl, rfl, rfl, rfl⟩
    · exact ⟨rfl, rfl, rfl, rfl⟩
  refine hs.frame hfloor hframe.1 hframe.2.1 hframe.2.2.1 (fun key hmem => ?_)
    (fun deadline key hmem => ?_) fun _ _ hget => hframe.2.2.2 ▸ hget
  · obtain hold | hkey := hfences key hmem
    · obtain ⟨other, hkey, hother⟩ := hs.fenced key hold
      exact ⟨other, hkey, hadv.blocked other hother⟩
    · exact ⟨auth, hkey, hblocked⟩
  · obtain hold | hnew := hexpiry _ hmem
    · exact hs.expiry deadline key hold
    · exact ⟨auth, hnew⟩

theorem cleans_advances (hmsg : Injective H.messageDigest) (hs : Coherent H node s)
    (h : Cleans s s') : Advances H node s s' := by
  have hkept : ∀ (hash : String) e, s.records[hash]? = some e →
      ∃ e', s'.records[hash]? = some e' ∧ e'.record = e.record :=
    fun hash e hget => ⟨e, h.records ▸ hget, rfl⟩
  refine ⟨h.floor, hkept, fun _ _ hget => h.proofs ▸ hget, fun auth hblocked => ?_⟩
  obtain ⟨key, deadline, hkey, hdue, hproof, -⟩ := hblocked.closed
  refine hblocked.mono hkey hdue hkept (h.proofs ▸ hproof) h.floor fun hmem => ?_
  by_cases hleft : key ∈ s'.fences
  · exact .inl hleft
  · obtain ⟨deadline', hindex, hlt⟩ := h.gone key hmem hleft
    obtain ⟨other, hkey', hdue'⟩ := hs.expiry deadline' key hindex
    obtain rfl := authorizationKey_inj hmsg hkey hkey'
    cases hdue.symm.trans hdue'
    exact .inr hlt

theorem cleans_coherent (hmsg : Injective H.messageDigest) (hs : Coherent H node s)
    (h : Cleans s s') : Coherent H node s' := by
  have hfloor : s'.floor ≤ maxSafeJsonInteger := h.safe.trans (max_le le_rfl hs.floor)
  have hadv := cleans_advances hmsg hs h
  refine hs.frame hfloor h.records h.heads h.proofs (fun key hmem => ?_)
    (fun deadline key hmem => hs.expiry deadline key (h.index _ hmem)) h.ops
  obtain ⟨auth, hkey, hblocked⟩ := hs.fenced key (h.fences key hmem)
  exact ⟨auth, hkey, hadv.blocked auth hblocked⟩

/-- An outcome as the store keeps it. -/
def Settled (H : HomeCrypto) (node : MigrationNode) (s : SourceStore) (auth : Signed Authorization) :
    FenceOutcome → Prop
  | .committed record => ∃ key hash e, H.authorizationKey auth = .ok key ∧ s.proofs[key]? = some hash ∧
    s.records[hash]? = some e ∧ e.record = record.record
  | .fenced _ => Blocked H node s auth

theorem Settled.mono (h : Settled H node s auth outcome)
    (hadv : Advances H node s s') : Settled H node s' auth outcome := by
  cases outcome with
  | fenced _ => exact hadv.blocked auth h
  | committed record =>
    obtain ⟨key, hash, e, hkey, hproof, hget, heq⟩ := h
    obtain ⟨e', hget', heq'⟩ := hadv.records hash e hget
    exact ⟨key, hash, e', hkey, hadv.proofs key hash hproof, hget', heq'.trans heq⟩

theorem Proved.settled {record : RecordEvidence} (h : Proved H s auth record) :
    Settled H node s auth (.committed record) := by
  obtain ⟨key, hash, hkey, hproof, hget⟩ := h
  exact ⟨key, hash, record, hkey, hproof, hget, rfl⟩

theorem StoredFence.settled (hmsg : Injective H.messageDigest) (hs : Coherent H node s)
    (h : StoredFence H s auth fence) : Settled H node s auth (.fenced fence) := by
  obtain ⟨key, hkey, -, hget⟩ := h
  obtain ⟨other, hkey', hblocked⟩ := hs.fenced key (mem_of_eq_some hget)
  exact authorizationKey_inj hmsg hkey hkey' ▸ hblocked

/-- Transactions with the outcome they answer. Refusals and restarts leave the tables alone. -/
inductive SourceStep (H : HomeCrypto) (node : MigrationNode) :
    SourceStore → Option (Signed Authorization × FenceOutcome) → SourceStore → Prop
  | commit {s s' : SourceStore} {sealed : SealedMigration} {context : CommitContext} {now : ℕ}
      {record : RecordEvidence} :
    H.commitTransaction node s sealed context now = .ok (s', record) →
    SourceStep H node s (some (sealed.authorization, .committed record)) s'
  | fence {s s' : SourceStore} {auth : Signed Authorization} {context : FenceContext} {now : ℕ}
      {outcome : FenceOutcome} :
    H.fenceTransaction node s auth context now = .ok (s', outcome) →
    SourceStep H node s (some (auth, outcome)) s'
  | terminal {s : SourceStore} {auth : Signed Authorization} {outcome : FenceOutcome} :
    H.terminalOutcome s auth = .ok (some outcome) →
    SourceStep H node s (some (auth, outcome)) s
  | cleanup {s s' : SourceStore} {now : ℕ} : s.cleanup now = .ok s' → SourceStep H node s none s'
  | idle {s : SourceStore} : SourceStep H node s none s

/-- One transaction keeps the store coherent and every earlier outcome, and settles its own. -/
theorem SourceStep.keeps (hrec : Injective H.recordHash)
    (hmsg : Injective H.messageDigest) (hs : Coherent H node s)
    {label : Option (Signed Authorization × FenceOutcome)} (h : SourceStep H node s label s') :
    Coherent H node s' ∧ Advances H node s s' ∧
      ∀ auth outcome, label = some (auth, outcome) → Settled H node s' auth outcome := by
  cases h with
  | @commit _ sealed _ _ record h =>
    obtain ⟨rfl, hproved⟩ | ⟨key, op, proof, hkey, hnone, hop, hsome, hash, hknown, hasked⟩ | hcommits :=
      commitTransaction_ok h
    · refine ⟨hs, .refl _, fun auth outcome hlabel => ?_⟩
      cases hlabel
      exact hproved.settled
    · -- an operation row with a proof is in the proof index, which was asked first
      have hproof : op.proof.isSome := by
        rw [hsome]
        rfl
      obtain ⟨key', hash', hkey', hproof'⟩ := hs.ops _ op hop hproof
      rw [messageHash_inj hmsg hknown hasked, hkey] at hkey'
      cases hkey'
      rw [hnone] at hproof'
      cases hproof'
    · refine ⟨commits_coherent hrec hmsg hs hcommits, commits_advances hrec hmsg hs hcommits,
        fun auth outcome hlabel => ?_⟩
      cases hlabel
      obtain ⟨-, key, current, deadline, proof, op, entry, time, hkey, -, -, -, -, -, -, -, -, -, -, rfl⟩ :=
        hcommits
      exact ⟨key, H.recordHash record.record, record, hkey, getElem?_insert_self,
        getElem?_insert_self, rfl⟩
  | @fence _ auth _ _ outcome h =>
    obtain ⟨rfl, record, rfl, hproved⟩ | ⟨rfl, fence, rfl, hstored⟩ | ⟨fence, rfl, hfences⟩ :=
      fenceTransaction_ok h
    · refine ⟨hs, .refl _, fun auth outcome hlabel => ?_⟩
      cases hlabel
      exact hproved.settled
    · refine ⟨hs, .refl _, fun auth outcome hlabel => ?_⟩
      cases hlabel
      exact hstored.settled hmsg hs
    · obtain ⟨hadv, hblocked, -, -⟩ := fences_advances hfences
      refine ⟨fences_coherent hs hfences, hadv, fun auth outcome hlabel => ?_⟩
      cases hlabel
      exact hblocked
  | @terminal auth outcome h =>
    refine ⟨hs, .refl _, fun auth outcome hlabel => ?_⟩
    cases hlabel
    obtain ⟨record, rfl, hproved⟩ | ⟨fence, rfl, hstored⟩ := terminalOutcome_ok h
    · exact hproved.settled
    · exact hstored.settled hmsg hs
  | cleanup h =>
    have hcleans := cleanup_ok h
    exact ⟨cleans_coherent hmsg hs hcleans, cleans_advances hmsg hs hcleans,
      fun _ _ hlabel => nomatch hlabel⟩
  | idle => exact ⟨hs, .refl s, fun _ _ hlabel => nomatch hlabel⟩

abbrev SourceLabels := List (Option (Signed Authorization × FenceOutcome))

theorem settled_of_run (hrec : Injective H.recordHash)
    (hmsg : Injective H.messageDigest) {labels : SourceLabels} (hs : Coherent H node s)
    (hrun : Run (SourceStep H node) s labels s') : Coherent H node s' ∧ Advances H node s s' ∧
      ∀ auth outcome, some (auth, outcome) ∈ labels → Settled H node s' auth outcome := by
  refine @Run.invariant _ _ _ _ _ _ (fun labels t => Coherent H node t ∧ Advances H node s t ∧
    ∀ auth outcome, some (auth, outcome) ∈ labels → Settled H node t auth outcome) hrun
    ⟨hs, .refl s, fun _ _ hmem => absurd hmem List.not_mem_nil⟩ ?_
  rintro labels t label u - ⟨ht, hadv, hsett⟩ hstep
  obtain ⟨hu, hadv', hown⟩ := hstep.keeps hrec hmsg ht
  refine ⟨hu, hadv.trans hadv', fun auth outcome hmem => ?_⟩
  obtain hold | hnew := List.mem_append.mp hmem
  · exact (hsett auth outcome hold).mono hadv'
  · exact hown auth outcome (List.mem_singleton.mp hnew).symm

/-- After the deadline a fence is granted again on the authorization's own evidence. -/
theorem Blocked.firstFence_late (hblocked : Blocked H node s auth)
    (hkey : H.authorizationKey auth = .ok key)
    (hdue : hardDeadline auth.body = .ok deadline) (hlt : deadline < now) (context : FenceContext) :
    ∃ s' fence, H.firstFence node s auth context key now = .ok (s', .fenced fence) := by
  obtain ⟨base, hbase, hanchor, hhome, hepoch⟩ := hblocked.base
  have hauth : H.fenceAuthority auth context now deadline = .ok () := by
    unfold fenceAuthority
    rw [if_neg (not_le.mpr hlt)]
    exact mapError_eq_ok.mpr hblocked.signatures
  have hmatch : ¬ (base.record.anchor ≠ auth.body.anchor ∨
      base.record.home ≠ (node.nodeId, node.publicKey) ∨
      checkedAdd base.record.epoch 1 ≠ some auth.body.nextHomeEpoch) := by
    simp only [not_or, not_not]
    exact ⟨hanchor, hhome, hepoch⟩
  refine ⟨{ s with floor := now }, node.signFence ⟨1, auth.body.migrationId, key.2, none, now⟩,
    bind_eq_ok.mpr ⟨deadline, mapError_eq_ok.mpr hdue, bind_eq_ok.mpr ⟨(), hauth, ?_⟩⟩⟩
  rw [hbase]
  refine bind_eq_ok.mpr ⟨(), refuseWhen_eq_ok.mpr hmatch, bind_eq_ok.mpr ⟨key.2,
    mapError_eq_ok.mpr (authorizationKey_ok hkey).1, ?_⟩⟩
  rw [if_neg (not_le.mpr hlt)]
  rfl

theorem Blocked.fenceTransaction_late (hblocked : Blocked H node s auth)
    (hdue : hardDeadline auth.body = .ok deadline) (hlt : deadline < now)
    (hsafe : now ≤ maxSafeJsonInteger) (context : FenceContext) :
    ∃ s' fence, H.fenceTransaction node s auth context now = .ok (s', .fenced fence) := by
  obtain ⟨key, _, hkey, -, hproof, -⟩ := hblocked.closed
  have hclock : s.clock now = .ok (max now s.floor) := if_neg (not_lt.mpr hsafe)
  have hnode : ¬ auth.body.oldNode ≠ node.nodeId := not_not.mpr hblocked.oldNode
  unfold fenceTransaction
  simp only [refuseWhen, if_neg hnode, hclock, hkey, hproof, bind, Except.bind]
  split
  · next fence _ => exact ⟨s, fence, rfl⟩
  · exact hblocked.firstFence_late hkey hdue (hlt.trans_le (le_max_left _ _)) context

end HomeCrypto

def FenceOutcome.isCommitted : FenceOutcome → Bool
  | .fenced _ => false
  | .committed _ => true

namespace HomeCrypto
variable {H : HomeCrypto} {node : MigrationNode} {auth : Signed Authorization}

/-- A query whose reads fall into later and later states answers as before. Only a fence that is no
longer stored needs a clock reading within the safe numbers. -/
theorem Settled.query {first second third : SourceStore} {now : ℕ}
    (hsett : Settled H node first auth outcome) (hsecond : Advances H node first second)
    (hthird : Advances H node second third) (hfloor : second.floor ≤ maxSafeJsonInteger)
    (context : FenceContext) :
    (∃ s' outcome', H.fenceHomeAuthorization node first second third auth context now = .ok (s', outcome') ∧
      outcome'.isCommitted = outcome.isCommitted) ∨
    maxSafeJsonInteger < now ∧ outcome.isCommitted = false ∧ H.terminalOutcome first auth = .ok none ∧
      H.fenceHomeAuthorization node first second third auth context now =
        .error (.refusal .commitExpired) := by
  cases outcome with
  | committed record =>
    obtain ⟨key, hash, e, hkey, hproof, hget, -⟩ := hsett
    have hterm : H.terminalOutcome first auth = .ok (some (.committed e)) := by
      refine bind_eq_ok.mpr ⟨key, hkey, ?_⟩
      rw [hproof]
      dsimp only
      rw [hget]
      rfl
    exact .inl ⟨third, .committed e, bind_eq_ok.mpr ⟨_, hterm, rfl⟩, rfl⟩
  | fenced fence =>
    have hblocked : Blocked H node first auth := hsett
    obtain ⟨key, deadline, hkey, hdue, hproof, hclosed⟩ := hblocked.closed
    have hterm : H.terminalOutcome first auth = .ok (first.fences[key]?.map .fenced) := by
      refine bind_eq_ok.mpr ⟨key, hkey, ?_⟩
      rw [hproof]
      rfl
    cases hstored : first.fences[key]? with
    | some stored =>
      rw [hstored] at hterm
      exact .inl ⟨third, .fenced stored, bind_eq_ok.mpr ⟨_, hterm, rfl⟩, rfl⟩
    | none =>
      rw [hstored] at hterm
      have hmissing : key ∉ first.fences := by
        rw [mem_iff_exists, hstored]
        rintro ⟨_, hnone⟩
        cases hnone
      have hlt : deadline < max now second.floor :=
        (hclosed.resolve_left hmissing).trans_le (hsecond.floor.trans (le_max_right _ _))
      have hlater := hthird.blocked auth (hsecond.blocked auth hblocked)
      have hquery : H.fenceHomeAuthorization node first second third auth context now =
          H.fenceTransaction node third auth ⟨none, none⟩ (max now second.floor) := by
        unfold fenceHomeAuthorization authError
        simp only [hterm, hdue, Except.mapError, bind, Except.bind, Option.map_none, if_pos hlt]
      rw [hquery]
      by_cases hsafe : now ≤ maxSafeJsonInteger
      · obtain ⟨s', stored, hfence⟩ :=
          hlater.fenceTransaction_late hdue hlt (max_le hsafe hfloor) ⟨none, none⟩
        exact .inl ⟨s', .fenced stored, hfence, rfl⟩
      · have hclock : third.clock (max now second.floor) = .error (.refusal .commitExpired) :=
          if_pos (lt_max_of_lt_left (not_le.mp hsafe))
        have hnode : ¬ auth.body.oldNode ≠ node.nodeId := not_not.mpr hlater.oldNode
        refine .inr ⟨not_le.mp hsafe, rfl, hterm, ?_⟩
        unfold fenceTransaction
        simp only [refuseWhen, if_neg hnode, hclock, bind, Except.bind]

/-- A store without outcomes: its clock is safe and its records are under their hashes. -/
structure Fresh (H : HomeCrypto) (s : SourceStore) : Prop where
  floor : s.floor ≤ maxSafeJsonInteger
  recorded : ∀ hash e, s.records[hash]? = some e → H.recordHash e.record = hash
  proofs : s.proofs = ∅
  fences : s.fences = ∅
  fenceExpires : s.fenceExpires = ∅
  ops : ∀ (id : String × String) op, s.ops[id]? = some op → op.proof = none

theorem Fresh.coherent {s : SourceStore} (h : Fresh H s) : Coherent H node s where
  floor := h.floor
  recorded := h.recorded
  proved key hash hget := by
    rw [h.proofs, getElem?_empty] at hget
    cases hget
  single key _ hash _ _ _ hget := by
    rw [h.proofs, getElem?_empty] at hget
    cases hget
  fenced key hmem := by
    rw [h.fences] at hmem
    exact absurd hmem not_mem_empty
  expiry deadline key hmem := by
    rw [h.fenceExpires] at hmem
    exact absurd hmem Std.ExtTreeSet.not_mem_empty
  ops id op hget hsome := by
    rw [h.ops id op hget] at hsome
    cases hsome

/-- Over every run of commits, fences and cleanups with any clock readings, an authorization never gets
outcomes of two kinds, an account's base gets one commit, and a later query answers with the kind that
was answered before, also when the fence was pruned, unless its own clock reading is no safe number. -/
theorem commit_excludes_fence (H : HomeCrypto) (hrec : Injective H.recordHash)
    (hmsg : Injective H.messageDigest) (node : MigrationNode) {s t : SourceStore}
    (hs : Fresh H s) {labels : SourceLabels} (hrun : Run (SourceStep H node) s labels t) :
    (∀ auth outcome outcome', some (auth, outcome) ∈ labels → some (auth, outcome') ∈ labels →
      outcome.isCommitted = outcome'.isCommitted) ∧
    (∀ auth auth' record record', some (auth, .committed record) ∈ labels →
      some (auth', .committed record') ∈ labels →
      auth.body.anchor = auth'.body.anchor →
      auth.body.previousHomeHash = auth'.body.previousHomeHash → record.record = record'.record) ∧
    ∀ auth outcome, some (auth, outcome) ∈ labels →
      ∀ {later later' later'' : SourceLabels} {first second third : SourceStore},
        Run (SourceStep H node) t later first → Run (SourceStep H node) first later' second →
        Run (SourceStep H node) second later'' third →
        ∀ context now, (∃ s' outcome',
            H.fenceHomeAuthorization node first second third auth context now = .ok (s', outcome') ∧
              outcome'.isCommitted = outcome.isCommitted) ∨
          maxSafeJsonInteger < now ∧ outcome.isCommitted = false ∧ H.terminalOutcome first auth = .ok none ∧
            H.fenceHomeAuthorization node first second third auth context now =
              .error (.refusal .commitExpired) := by
  obtain ⟨ht, -, hsett⟩ := settled_of_run hrec hmsg hs.coherent hrun
  refine ⟨?_, ?_, ?_⟩
  · have hkinds : ∀ auth record fence, some (auth, .committed record) ∈ labels →
        some (auth, .fenced fence) ∉ labels := by
      intro auth record fence hcommit hfence
      obtain ⟨key, hash, e, hkey, hproof, -, -⟩ := hsett _ _ hcommit
      have hblocked : Blocked H node t auth := hsett _ _ hfence
      obtain ⟨key', _, hkey', -, hnone, -⟩ := hblocked.closed
      cases hkey.symm.trans hkey'
      rw [hnone] at hproof
      cases hproof
    intro auth outcome outcome' hmem hmem'
    cases outcome with
    | fenced fence =>
      cases outcome' with
      | fenced fence' => rfl
      | committed record => exact absurd hmem (hkinds auth record fence hmem')
    | committed record =>
      cases outcome' with
      | fenced fence => exact absurd hmem' (hkinds auth record fence hmem)
      | committed record' => rfl
  · intro auth auth' record record' hmem hmem' hanchor hprev
    obtain ⟨key, hash, e, hkey, hproof, hget, heq⟩ := hsett _ _ hmem
    obtain ⟨key', hash', e', hkey', hproof', hget', heq'⟩ := hsett _ _ hmem'
    obtain ⟨a, hidx⟩ := ht.proved key hash hproof
    obtain ⟨a', hidx'⟩ := ht.proved key' hash' hproof'
    obtain rfl := authorizationKey_inj hmsg hkey hidx.key
    obtain rfl := authorizationKey_inj hmsg hkey' hidx'.key
    obtain rfl := ht.single key key' hash hash' auth auth' hproof hproof' hidx hidx' hanchor hprev
    obtain rfl := mem_unique hproof hproof'
    obtain rfl := mem_unique hget hget'
    exact heq.symm.trans heq'
  · intro auth outcome hmem later later' later'' first second third hfirst hsecond hthird context now
    obtain ⟨hcoherent, hadv, -⟩ := settled_of_run hrec hmsg ht hfirst
    obtain ⟨hcoherent', hadv', -⟩ := settled_of_run hrec hmsg hcoherent hsecond
    obtain ⟨-, hadv'', -⟩ := settled_of_run hrec hmsg hcoherent' hthird
    exact ((hsett auth outcome hmem).mono hadv).query hadv' hadv'' hcoherent'.floor context

end HomeCrypto

namespace StoreError

def refusalOf {α : Type} : Except StoreError α → Option Refusal
  | .error (.refusal code) => some code
  | _ => none

theorem eq_refusal_of {α : Type} {x : Except StoreError α} {code : Refusal}
    (h : refusalOf x = some code) : x = .error (.refusal code) := by
  unfold refusalOf at h
  split at h
  · cases h
    rfl
  · cases h

end StoreError

namespace HomeCrypto
open Custody.CustodyCrypto

def sampleNode : MigrationNode where
  nodeId := "n0"
  publicKey := sampleText 3
  record := ""
  signCommit := sampleSigned Domain.homeCommit [⟨.node, .node "n0" (sampleText 3)⟩]
  signFence := sampleSigned Domain.homeNoncommitFence [⟨.node, .node "n0" (sampleText 3)⟩]

def sampleLeave : Signed Authorization := sampleAuthorization sampleAuthority 1 (sampleText 0) "n0" "n1" 100

noncomputable def sourceHome : HomeCrypto :=
  { movedHome with messageDigest := idealDigest [.authorization sampleLeave] }

def sampleStore : SourceStore where
  floor := 0
  heads := (∅ : OrdMap String RecordEvidence).insert (sampleText 0) (sampleGenesis 0)
  records := (∅ : OrdMap String RecordEvidence).insert (sampleText 0) (sampleGenesis 0)
  proofs := ∅
  fences := ∅
  fenceExpires := ∅
  ops := ∅
  expires := ∅

theorem sourceHome_injective : Injective sourceHome.recordHash ∧ Injective sourceHome.messageDigest :=
  ⟨movedHome_injective.1, idealDigest_injective (by decide)⟩

theorem sampleStore_fresh : Fresh sourceHome sampleStore where
  floor := Nat.zero_le _
  recorded hash e hget := by
    obtain ⟨heq, rfl⟩ | ⟨-, hget⟩ := eq_some_of_insert hget
    · have hgen : sourceHome.recordHash (sampleGenesis 0).record = sampleText 0 := by decide +kernel
      exact hgen.trans heq
    · cases hget
  proofs := rfl
  fences := rfl
  fenceExpires := rfl
  ops id op hget := by
    cases hget

noncomputable def sampleCancel : Except StoreError (SourceStore × FenceOutcome) :=
  sourceHome.fenceTransaction sampleNode sampleStore sampleLeave ⟨some (.ok ()), some (.ok ())⟩ 101

theorem sampleCancel_isSome : sampleCancel.toOption.isSome := by decide +kernel

noncomputable def cancelledStore : SourceStore := (sampleCancel.toOption.get sampleCancel_isSome).1

theorem pruned_isSome : (cancelledStore.cleanup maxSafeJsonInteger).toOption.isSome := by decide +kernel

noncomputable def prunedStore : SourceStore :=
  (cancelledStore.cleanup maxSafeJsonInteger).toOption.get pruned_isSome

theorem sampleCancel_kind :
    (sampleCancel.toOption.get sampleCancel_isSome).2.isCommitted = false := by
  decide +kernel

theorem prunedStore_run : Run (SourceStep sourceHome sampleNode) sampleStore
    [some (sampleLeave, (sampleCancel.toOption.get sampleCancel_isSome).2), none] prunedStore :=
  .cons (.fence (eq_ok_get sampleCancel_isSome)) (.single (.cleanup (eq_ok_get pruned_isSome)))

/-- The clock ran far ahead and back: the pruned fence is granted again. -/
theorem commit_excludes_fence_pruned : prunedStore.fences.isEmpty ∧ ∃ s' outcome,
    sourceHome.fenceHomeAuthorization sampleNode prunedStore prunedStore prunedStore sampleLeave
      ⟨none, none⟩ 0 = .ok (s', outcome) ∧ outcome.isCommitted = false := by
  have hempty : prunedStore.fences.isEmpty := by decide +kernel
  obtain ⟨hrec, hmsg⟩ := sourceHome_injective
  obtain ⟨s', outcome, hquery, hkind⟩ | ⟨hlarge, -⟩ :=
    (commit_excludes_fence sourceHome hrec hmsg sampleNode sampleStore_fresh prunedStore_run).2.2
      sampleLeave _ (.head _) .nil .nil .nil ⟨none, none⟩ 0
  · exact ⟨hempty, s', outcome, hquery, hkind.trans sampleCancel_kind⟩
  · exact absurd hlarge (Nat.not_lt_zero _)

/-- A clock reading that is no safe number refuses the query once the fence was pruned. -/
theorem query_refused_unsafe_clock : ∃ labels t outcome,
    Fresh sourceHome sampleStore ∧ Run (SourceStep sourceHome sampleNode) sampleStore labels t ∧
    some (sampleLeave, outcome) ∈ labels ∧
    sourceHome.fenceHomeAuthorization sampleNode t t t sampleLeave ⟨none, none⟩
      (maxSafeJsonInteger + 1) = .error (.refusal .commitExpired) := by
  have hrefused : StoreError.refusalOf (sourceHome.fenceHomeAuthorization sampleNode prunedStore
      prunedStore prunedStore sampleLeave ⟨none, none⟩ (maxSafeJsonInteger + 1)) = some .commitExpired := by
    decide +kernel
  exact ⟨_, _, _, sampleStore_fresh, prunedStore_run, .head _, StoreError.eq_refusal_of hrefused⟩

end HomeCrypto

end Ramflux.Home
