import Ramflux.Node.HomeSource

/-! What the transactions of the source store do when they succeed. -/
namespace Ramflux.Home
open Fallible Custody List Except

namespace HomeCrypto
variable {H : HomeCrypto} {node : MigrationNode} {s s' : SourceStore} {auth : Signed Authorization}
  {now : ℕ}

theorem clock_ok {time : ℕ} (h : s.clock now = .ok time) :
    time ≤ max maxSafeJsonInteger s.floor ∧ time = max now s.floor := by
  unfold SourceStore.clock at h
  split_ifs at h with hsafe
  cases h
  exact ⟨max_le_max_right s.floor (not_lt.mp hsafe), rfl⟩

theorem messageHash_inj (hmsg : Function.Injective H.messageDigest) {auth auth' : Signed Authorization}
    {hash : String} (h : H.messageHash auth = .ok hash) (h' : H.messageHash auth' = .ok hash) :
    auth = auth' := by
  replace h := ok_after h
  obtain ⟨_, -, h'⟩ := bind_eq_ok.mp h'
  have hencode := ok.inj (h.trans h'.symm)
  exact HomeMessage.authorization.inj (hmsg (encodeBase64url_inj hencode))

variable {key : AuthorizationKey} {context : FenceContext} {outcome : FenceOutcome}

theorem authorizationKey_ok (h : H.authorizationKey auth = .ok key) :
    H.messageHash auth = .ok key.2 ∧ key.1 = auth.body.anchor := by
  obtain ⟨hash, hhash, h⟩ := bind_eq_ok.mp h
  cases h
  exact ⟨mapError_eq_ok.mp hhash, rfl⟩

theorem authorizationKey_inj (hmsg : Function.Injective H.messageDigest)
    {auth auth' : Signed Authorization} (h : H.authorizationKey auth = .ok key)
    (h' : H.authorizationKey auth' = .ok key) : auth = auth' :=
  messageHash_inj hmsg (authorizationKey_ok h).1 (authorizationKey_ok h').1

def Proved (H : HomeCrypto) (s : SourceStore) (auth : Signed Authorization) (record : RecordEvidence) :
    Prop :=
  ∃ key hash, H.authorizationKey auth = .ok key ∧ s.proofs[key]? = some hash ∧
    s.records[hash]? = some record

/-- What a new commit rests on and leaves. -/
structure Commits (H : HomeCrypto) (s : SourceStore) (auth : Signed Authorization)
    (record : RecordEvidence) (s' : SourceStore) : Prop where
  safe : s'.floor ≤ max maxSafeJsonInteger s.floor
  result : ∃ key current deadline proof op entry time, H.authorizationKey auth = .ok key ∧
    s.proofs[key]? = none ∧ key ∉ s.fences ∧ s.floor ≤ time ∧
    hardDeadline auth.body = .ok deadline ∧ time ≤ deadline ∧
    s.heads[auth.body.anchor]? = some current ∧
    H.recordHash current.record = auth.body.previousHomeHash ∧
    auth.body.nextHomeEpoch = current.record.epoch + 1 ∧
    record.record = .committed auth proof ∧ op.authorization = auth ∧
    s' = { s with
      floor := time
      records := s.records.insert (H.recordHash record.record) record
      heads := s.heads.insert auth.body.anchor record
      proofs := s.proofs.insert key (H.recordHash record.record)
      ops := s.ops.insert (auth.body.anchor, auth.body.migrationId) op
      expires := s.expires.insert entry }

theorem commitBounds_le {a : Authorization} {offer : Offer} {receipt : Receipt} {bound : ℕ}
    (h : commitBounds a offer receipt now = .ok bound) :
    ∃ deadline, hardDeadline a = .ok deadline ∧ now ≤ deadline := by
  obtain ⟨_, hbounds, -⟩ := bind_eq_ok.mp h
  replace hbounds := ok_after hbounds
  obtain ⟨deadline, hdue, hbounds⟩ := bind_eq_ok.mp hbounds
  have hbounds := refuseWhen_eq_ok.mp hbounds
  simp only [not_or, not_lt] at hbounds
  exact ⟨deadline, hdue, hbounds.1⟩

theorem checkedAdd_one {a b : ℕ} (h : checkedAdd a 1 = some b) : b = a + 1 := by
  unfold checkedAdd at h
  split_ifs at h
  exact (Option.some.inj h).symm

variable {record : RecordEvidence} {sealed : SealedMigration}

theorem firstCommit_ok {context : CommitContext}
    (hkey : H.authorizationKey sealed.authorization = .ok key) (hproof : s.proofs[key]? = none)
    (hfence : key ∉ s.fences) (hfloor : s.floor ≤ now) (hsafe : now ≤ max maxSafeJsonInteger s.floor)
    (h : H.firstCommit node s sealed context key now = .ok (s', record)) :
    Commits H s sealed.authorization record s' := by
  iterate 2 obtain ⟨_, -, h⟩ := bind_eq_ok.mp h
  obtain ⟨bound, hbound, h⟩ := bind_eq_ok.mp h
  obtain ⟨deadline, hdue, hle⟩ := commitBounds_le (mapError_eq_ok.mp hbound)
  split at h
  · cases h
  · next current hhead =>
    obtain ⟨hbase, h⟩ := not_refused h
    iterate 2 obtain ⟨_, -, h⟩ := bind_eq_ok.mp h
    obtain ⟨evidence, hevid, h⟩ := bind_eq_ok.mp h
    iterate 5 obtain ⟨_, -, hevid⟩ := bind_eq_ok.mp hevid
    cases hevid
    cases h
    simp only [not_or, not_not] at hbase
    exact ⟨hsafe, key, current, deadline, _, _, _, now, hkey, hproof, hfence, hfloor, hdue, hle, hhead,
      hbase.1, checkedAdd_one hbase.2.1, rfl, rfl, rfl⟩

/-- A commit transaction answers from the proof index, from an operation row, or commits. -/
theorem commitTransaction_ok {context : CommitContext}
    (h : H.commitTransaction node s sealed context now = .ok (s', record)) :
    (s' = s ∧ Proved H s sealed.authorization record) ∨
    (∃ key op proof, H.authorizationKey sealed.authorization = .ok key ∧ s.proofs[key]? = none ∧
      s.ops[(sealed.authorization.body.anchor, sealed.authorization.body.migrationId)]? = some op ∧
      op.proof = some proof ∧ ∃ hash, H.messageHash op.authorization = .ok hash ∧
        H.messageHash sealed.authorization = .ok hash) ∨
    Commits H s sealed.authorization record s' := by
  obtain ⟨time, htime, h⟩ := bind_eq_ok.mp h
  obtain ⟨key, hkey, h⟩ := bind_eq_ok.mp h
  obtain ⟨permanent, hperm, h⟩ := bind_eq_ok.mp h
  obtain ⟨hsafe, rfl⟩ := clock_ok htime
  unfold permanentCommit at hperm
  split at hperm
  · next hproof =>
    cases hperm
    obtain ⟨hfence, h⟩ := not_refused h
    obtain ⟨previous, hprev, h⟩ := bind_eq_ok.mp h
    cases previous with
    | none => exact .inr (.inr (firstCommit_ok hkey hproof hfence (le_max_right _ _) hsafe h))
    | some found =>
      refine .inr (.inl ?_)
      unfold previousOperation at hprev
      split at hprev
      · cases ok.inj hprev
      · rename_i op hop
        obtain ⟨known, hknown, hprev⟩ := bind_eq_ok.mp hprev
        obtain ⟨asked, hasked, hprev⟩ := bind_eq_ok.mp hprev
        obtain ⟨hsame, hprev⟩ := not_refused hprev
        replace hprev := ok_after hprev
        have hsame : known = asked := not_not.mp hsame
        cases hopProof : op.proof with
        | none =>
          rw [hopProof] at hprev
          cases ok.inj hprev
        | some proof =>
          exact ⟨key, op, proof, hkey, hproof, hop, hopProof, known, mapError_eq_ok.mp hknown,
            hsame ▸ mapError_eq_ok.mp hasked⟩
  · next hash hproof =>
    split at hperm
    · cases hperm
    · next found hrec =>
      split at hperm
      · cases hperm
      · obtain ⟨_, -, hperm⟩ := bind_eq_ok.mp hperm
        obtain ⟨_, -, hperm⟩ := bind_eq_ok.mp hperm
        replace hperm := ok_after hperm
        cases hperm
        cases h
        exact .inl ⟨rfl, key, hash, hkey, hproof, hrec⟩

def BaseOf (node : MigrationNode) (s : SourceStore) (a : Authorization) : Prop :=
  ∃ base, s.records[a.previousHomeHash]? = some base ∧ base.record.anchor = a.anchor ∧
    base.record.home = (node.nodeId, node.publicKey) ∧
    checkedAdd base.record.epoch 1 = some a.nextHomeEpoch

/-- What a new fence rests on and leaves. -/
structure Fences (H : HomeCrypto) (node : MigrationNode) (s : SourceStore) (auth : Signed Authorization)
    (fence : Signed NoncommitFence) (s' : SourceStore) : Prop where
  safe : s'.floor ≤ max maxSafeJsonInteger s.floor
  oldNode : auth.body.oldNode = node.nodeId
  signatures : H.verifySignatures auth = .ok ()
  base : BaseOf node s auth.body
  result : ∃ key deadline time, H.authorizationKey auth = .ok key ∧ s.proofs[key]? = none ∧
    hardDeadline auth.body = .ok deadline ∧ s.floor ≤ time ∧
    (s' = { s with
        floor := time
        fences := s.fences.insert key fence
        fenceExpires := s.fenceExpires.insert (deadline, key) } ∨
      deadline < time ∧ s' = { s with floor := time })

theorem fenceAuthority_ok {deadline : ℕ} {u : Unit}
    (h : H.fenceAuthority auth context now deadline = .ok u) : H.verifySignatures auth = .ok () := by
  unfold fenceAuthority at h
  split_ifs at h
  · cases hauth : context.authority with
    | none =>
      rw [hauth] at h
      cases h
    | some authority =>
      rw [hauth] at h
      obtain ⟨_, hsigs, -⟩ := bind_eq_ok.mp h
      exact mapError_eq_ok.mp hsigs
  · exact mapError_eq_ok.mp h

theorem firstFence_ok (hnode : auth.body.oldNode = node.nodeId)
    (hkey : H.authorizationKey auth = .ok key) (hproof : s.proofs[key]? = none)
    (hfloor : s.floor ≤ now) (hsafe : now ≤ max maxSafeJsonInteger s.floor)
    (h : H.firstFence node s auth context key now = .ok (s', outcome)) :
    ∃ fence, outcome = .fenced fence ∧ Fences H node s auth fence s' := by
  obtain ⟨deadline, hdue, h⟩ := bind_eq_ok.mp h
  obtain ⟨_, hauth, h⟩ := bind_eq_ok.mp h
  have hdue := mapError_eq_ok.mp hdue
  have hsigs := fenceAuthority_ok hauth
  split at h
  · cases h
  · next base hbase =>
    obtain ⟨hmatch, h⟩ := not_refused h
    obtain ⟨hash, -, h⟩ := bind_eq_ok.mp h
    simp only [not_or, not_not] at hmatch
    have hbaseOf : BaseOf node s auth.body := ⟨base, hbase, hmatch⟩
    split_ifs at h with hle
    · cases h
      exact ⟨_, rfl, hsafe, hnode, hsigs, hbaseOf, key, deadline, now, hkey, hproof, hdue, hfloor,
        .inl rfl⟩
    · cases h
      exact ⟨_, rfl, hsafe, hnode, hsigs, hbaseOf, key, deadline, now, hkey, hproof, hdue, hfloor,
        .inr ⟨Nat.lt_of_not_le hle, rfl⟩⟩

def StoredFence (H : HomeCrypto) (s : SourceStore) (auth : Signed Authorization)
    (fence : Signed NoncommitFence) : Prop :=
  ∃ key, H.authorizationKey auth = .ok key ∧ s.proofs[key]? = none ∧ s.fences[key]? = some fence

/-- A fence transaction answers from the proof index, from a stored fence, or fences. -/
theorem fenceTransaction_ok (h : H.fenceTransaction node s auth context now = .ok (s', outcome)) :
    (s' = s ∧ ∃ record, outcome = .committed record ∧ Proved H s auth record) ∨
    (s' = s ∧ ∃ fence, outcome = .fenced fence ∧ StoredFence H s auth fence) ∨
    ∃ fence, outcome = .fenced fence ∧ Fences H node s auth fence s' := by
  obtain ⟨hnode, h⟩ := not_refused h
  obtain ⟨time, htime, h⟩ := bind_eq_ok.mp h
  obtain ⟨key, hkey, h⟩ := bind_eq_ok.mp h
  obtain ⟨hsafe, rfl⟩ := clock_ok htime
  have hnode := not_not.mp hnode
  split at h
  · next hash hproof =>
    split at h
    · cases h
    · next record hrec =>
      cases h
      exact .inl ⟨rfl, record, rfl, key, hash, hkey, hproof, hrec⟩
  · next hproof =>
    split at h
    · next fence hfence =>
      cases h
      exact .inr (.inl ⟨rfl, fence, rfl, key, hkey, hproof, hfence⟩)
    · exact .inr (.inr (firstFence_ok hnode hkey hproof (le_max_right _ _) hsafe h))

theorem terminalOutcome_ok (h : H.terminalOutcome s auth = .ok (some outcome)) :
    (∃ record, outcome = .committed record ∧ Proved H s auth record) ∨
      ∃ fence, outcome = .fenced fence ∧ StoredFence H s auth fence := by
  obtain ⟨key, hkey, h⟩ := bind_eq_ok.mp h
  split at h
  · next hash hproof =>
    split at h
    · cases h
    · next record hrec =>
      cases ok.inj h
      exact .inl ⟨record, rfl, key, hash, hkey, hproof, hrec⟩
  · next hproof =>
    obtain ⟨fence, hfence, rfl⟩ := Option.map_eq_some_iff.mp (ok.inj h)
    exact .inr ⟨fence, rfl, key, hkey, hproof, hfence⟩

/-- What cleanup leaves: a fence goes only with an index entry that lies before the clock. -/
structure Cleans (s s' : SourceStore) : Prop where
  floor : s.floor ≤ s'.floor
  safe : s'.floor ≤ max maxSafeJsonInteger s.floor
  heads : s'.heads = s.heads
  records : s'.records = s.records
  proofs : s'.proofs = s.proofs
  ops : ∀ (key : String × String) op, s'.ops[key]? = some op → s.ops[key]? = some op
  fences : ∀ key, key ∈ s'.fences → key ∈ s.fences
  index : ∀ entry, entry ∈ s'.fenceExpires → entry ∈ s.fenceExpires
  gone : ∀ key, key ∈ s.fences → key ∉ s'.fences →
    ∃ deadline, (deadline, key) ∈ s.fenceExpires ∧ deadline < s'.floor

theorem cleanupOperation_cleans {entry : ℕ × (String × String)} :
    Cleans s (s.cleanupOperation now entry) := by
  have hsame : ∀ next : SourceStore, next.floor = s.floor → next.heads = s.heads →
      next.records = s.records → next.proofs = s.proofs → next.fences = s.fences →
      next.fenceExpires = s.fenceExpires →
      (∀ (key : String × String) op, next.ops[key]? = some op → s.ops[key]? = some op) → Cleans s next := by
    intro next hfloor hheads hrecs hproofs hfences hindex hops
    refine ⟨hfloor.ge, hfloor ▸ le_max_right _ _, hheads, hrecs, hproofs, hops, ?_, ?_, ?_⟩
    · rw [hfences]
      exact fun _ hmem => hmem
    · rw [hindex]
      exact fun _ hmem => hmem
    · rw [hfences]
      exact fun _ hmem hnot => absurd hmem hnot
  unfold SourceStore.cleanupOperation
  dsimp only
  cases s.ops[entry.2]? with
  | none => exact hsame _ rfl rfl rfl rfl rfl rfl fun _ _ hget => hget
  | some op =>
    dsimp only
    split_ifs
    · exact hsame _ rfl rfl rfl rfl rfl rfl fun _ _ hget => hget
    · exact hsame _ rfl rfl rfl rfl rfl rfl fun _ _ hget => hget
    · refine hsame _ rfl rfl rfl rfl rfl rfl fun key found hget => ?_
      exact (OrdMap.eq_some_of_erase hget).2

theorem cleanupFence_cleans {entry : ℕ × AuthorizationKey} (hentry : entry ∈ s.fenceExpires)
    (hlt : entry.1 < s.floor) : Cleans s (s.cleanupFence entry) := by
  refine ⟨le_rfl, le_max_right _ _, rfl, rfl, rfl, fun _ _ hget => hget, fun key hmem => ?_, fun other hmem => ?_,
    fun key hmem hnot => ?_⟩
  · exact Std.ExtTreeMap.mem_of_mem_erase hmem
  · exact (OrdSet.mem_erase_iff.mp hmem).2
  · by_cases hkey : key = entry.2
    · exact ⟨entry.1, hkey ▸ hentry, hlt⟩
    · refine absurd ?_ hnot
      rw [OrdMap.mem_iff_exists] at hmem ⊢
      obtain ⟨fence, hfence⟩ := hmem
      exact ⟨fence, (OrdMap.getElem?_erase_of_ne _ (Ne.symm hkey)).trans hfence⟩

theorem Cleans.trans {s'' : SourceStore} (h : Cleans s s') (h' : Cleans s' s'') : Cleans s s'' where
  floor := h.floor.trans h'.floor
  safe := h'.safe.trans (max_le (le_max_left _ _) h.safe)
  heads := h'.heads.trans h.heads
  records := h'.records.trans h.records
  proofs := h'.proofs.trans h.proofs
  ops key op hget := h.ops key op (h'.ops key op hget)
  fences key hmem := h.fences key (h'.fences key hmem)
  index entry hmem := h.index entry (h'.index entry hmem)
  gone key hmem hnot := by
    by_cases hmiddle : key ∈ s'.fences
    · obtain ⟨deadline, hindex, hlt⟩ := h'.gone key hmiddle hnot
      exact ⟨deadline, h.index _ hindex, hlt⟩
    · obtain ⟨deadline, hindex, hlt⟩ := h.gone key hmem hmiddle
      exact ⟨deadline, hindex, hlt.trans_le h'.floor⟩

theorem Cleans.refl (s : SourceStore) : Cleans s s :=
  ⟨le_rfl, le_max_right _ _, rfl, rfl, rfl, fun _ _ h => h, fun _ h => h, fun _ h => h,
    fun _ h hnot => absurd h hnot⟩

theorem cleanupOperations_cleans (entries : List (ℕ × (String × String))) :
    Cleans s (entries.foldl (SourceStore.cleanupOperation now) s) :=
  foldlRecOn entries _ (.refl s) fun _ h _ _ => h.trans cleanupOperation_cleans

theorem cleanupFences_cleans {entries : List (ℕ × AuthorizationKey)} (hnodup : entries.Nodup)
    (hents : ∀ entry ∈ entries, entry ∈ s.fenceExpires ∧ entry.1 < s.floor) :
    Cleans s (entries.foldl SourceStore.cleanupFence s) := by
  induction entries generalizing s with
  | nil => exact .refl s
  | cons entry entries ih =>
    obtain ⟨hmem, hlt⟩ := hents entry (.head _)
    obtain ⟨hfresh, hnodup⟩ := nodup_cons.mp hnodup
    refine (cleanupFence_cleans hmem hlt).trans (ih hnodup fun other hother => ?_)
    obtain ⟨hmem', hlt'⟩ := hents other (.tail _ hother)
    refine ⟨OrdSet.mem_erase_iff.mpr ⟨?_, hmem'⟩, hlt'⟩
    rintro rfl
    exact hfresh hother

theorem cleanup_ok (h : s.cleanup now = .ok s') : Cleans s s' := by
  obtain ⟨time, htime, h⟩ := bind_eq_ok.mp h
  obtain ⟨hsafe, rfl⟩ := clock_ok htime
  cases h
  let clocked := { s with floor := max now s.floor }
  have hclock : Cleans s clocked :=
    ⟨le_max_right _ _, hsafe, rfl, rfl, rfl, fun _ _ h => h, fun _ h => h, fun _ h => h,
      fun _ h hnot => absurd h hnot⟩
  have hops := @cleanupOperations_cleans clocked (max now s.floor)
    ((clocked.expires.toList.filter (·.1 < max now s.floor)).take 128)
  refine hclock.trans (hops.trans (cleanupFences_cleans ?_ fun entry hentry => ?_))
  · exact ((OrdSet.nodup_toList _).filter _).sublist (take_sublist _ _)
  · have hmem := mem_filter.mp (mem_of_mem_take hentry)
    refine ⟨Std.ExtTreeSet.mem_toList.mp hmem.1, ?_⟩
    have hlt := of_decide_eq_true hmem.2
    exact lt_of_lt_of_le hlt hops.floor

end HomeCrypto

end Ramflux.Home
