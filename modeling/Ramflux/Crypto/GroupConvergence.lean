import Ramflux.Crypto.GroupRelation
import Ramflux.Crypto.GroupRemovals

/-! Receivers of one chain of snapshots end up at its last one, in whatever order they get them. -/
namespace Ramflux.Group
open Fallible List GroupCrypto

namespace VerifiedGroupState
variable {C : GroupCrypto} {s t u : VerifiedGroupState C} {input : Apply} {inputs : List Apply}

/-- What links a snapshot to a later one of its chain. The first handover between them was accepted on
the earlier snapshot or after it. -/
structure Precedes (s t : VerifiedGroupState C) : Prop where
  genesis : t.snapshot.genesis = s.snapshot.genesis
  epoch : s.view.epoch < t.view.epoch
  transfers : ∃ new, t.snapshot.transfers = s.snapshot.transfers ++ new ∧
    ∀ transfer ∈ new.head?, s.view.epoch < transfer.acceptance.baseEpoch ∨
      s.view.epoch + 1 = transfer.epoch ∧ s.snapshot.stateHash = transfer.previousHash

theorem changed_transfers {snapshot next : GroupStateSnapshot}
    (h : C.changed s input snapshot = .ok next) : next.genesis = snapshot.genesis ∧
      ∃ new, next.transfers = snapshot.transfers ++ new ∧ ∀ transfer ∈ new.head?,
        snapshot.epoch = transfer.epoch ∧ s.snapshot.stateHash = transfer.previousHash := by
  unfold changed at h
  split at h
  · iterate 4 replace h := ok_after h
    split at h
    · cases h
    · cases h
      exact ⟨rfl, [_], rfl, by simp⟩
  · obtain ⟨state, -, h⟩ := bind_eq_ok.mp h
    cases h
    exact ⟨rfl, [], by simp, by simp⟩

theorem Precedes.of_advances (h : C.Advances s input t) : s.Precedes t := by
  have hepoch := h.succeeds.epoch
  iterate 4 replace h := ok_after h
  obtain ⟨snapshot, hsnapshot, h⟩ := bind_eq_ok.mp h
  obtain ⟨hgen, new, hnew, hhead⟩ := changed_transfers hsnapshot
  constructor
  · rwa [verified_ok h]
  · omega
  · rw [verified_ok h, ← s.epoch_eq]
    exact ⟨new, hnew, fun transfer hfirst => .inr (hhead transfer hfirst)⟩

theorem Precedes.trans (h : s.Precedes t) (h' : t.Precedes u) : s.Precedes u := by
  have hlt := h.epoch
  obtain ⟨new, hnew, hhead⟩ := h.transfers
  obtain ⟨new', hnew', hhead'⟩ := h'.transfers
  refine ⟨h'.genesis.trans h.genesis, hlt.trans h'.epoch, new ++ new', by rw [hnew', hnew, append_assoc], ?_⟩
  cases new with
  | cons first rest => exact hhead
  | nil =>
    intro transfer hfirst
    have hmem : transfer ∈ u.snapshot.transfers := hnew' ▸ mem_append_right _ (mem_of_head? hfirst)
    have hbase := (u.transfer_epoch hmem).2
    have := hhead' transfer hfirst
    omega

theorem Precedes.relationTo (h : s.Precedes t) (hkept : s.view.preservesRemovals t.view = true) :
    t.relationTo s = .ok .extension := by
  obtain ⟨new, hnew, hhead⟩ := h.transfers
  have hlt := h.epoch
  have hauth : t.authorityRelationTo s = .ok .extension := by
    unfold authorityRelationTo
    rw [if_neg (not_not.mpr h.genesis)]
    cases new with
    | nil =>
      rw [append_nil] at hnew
      have hpast : ¬ ∃ transfer ∈ t.snapshot.transfers.getLast?, transfer.epoch = t.view.epoch := by
        rintro ⟨transfer, hlast, heq⟩
        have := (s.transfer_epoch (hnew ▸ mem_of_getLast? hlast)).1
        omega
      rw [if_neg (not_not.mpr hnew), if_neg fun hsame => hpast hsame.1, if_neg (by omega),
        if_pos hlt, if_pos (hnew ▸ prefix_rfl)]
    | cons transfer rest =>
      have hbase := hhead transfer rfl
      rw [if_pos (by simp [hnew])]
      unfold transferRelationTo
      simp only [hnew, prefix_append, if_true, getElem?_append_right le_rfl, Nat.sub_self,
        getElem?_cons_zero]
      rw [if_neg]
      rintro ⟨hle, hbase', -⟩
      rcases hbase with hlater | hself
      · omega
      · exact hbase' hself
  unfold VerifiedGroupState.relationTo
  rw [hauth]
  simp [hkept, bind, Except.bind, pure, Except.pure]

theorem replaces_of_run (hrun : Run C.Advances s inputs t) : t = s ∨ t.Replaces s := by
  have hprecedes : t = s ∨ s.Precedes t := by
    refine hrun.preserves (P := fun u => u = s ∨ s.Precedes u) (.inl rfl) ?_
    rintro u input v (rfl | hu) hstep
    · exact .inr (.of_advances hstep)
    · exact .inr (hu.trans (.of_advances hstep))
  exact hprecedes.imp_right fun h => .inl (h.relationTo (run_advances_preservesRemovals hrun))

/-- The last snapshot of a chain is taken for each other one, and never given up for one. -/
theorem fold_of_run (hrun : Run C.Advances s inputs t) : s.fold t = t ∧ t.fold s = t := by
  unfold fold
  rcases replaces_of_run hrun with rfl | hnewer
  · simp
  · refine ⟨if_pos hnewer, if_neg fun holder => ?_⟩
    exact (hnewer.newer.trans holder.newer).ne rfl rfl rfl

/-- Whatever snapshots of a chain a receiver gets, in any order and any number of times, it holds the
last of them once that was among them. -/
theorem foldAll_converges {incoming : List (VerifiedGroupState C)}
    (hstart : ∃ inputs, Run C.Advances s inputs t)
    (hchain : ∀ u ∈ incoming, ∃ inputs, Run C.Advances u inputs t) (hlast : s = t ∨ t ∈ incoming) :
    s.foldAll incoming = t := by
  induction incoming generalizing s with
  | nil => simpa [foldAll] using hlast
  | cons u incoming ih =>
    obtain ⟨hu, hrest⟩ := forall_mem_cons.mp hchain
    refine ih ?_ hrest ?_
    · unfold fold
      split_ifs
      · exact hu
      · exact hstart
    · obtain ⟨_, hrun⟩ := hstart
      obtain ⟨_, hrun'⟩ := hu
      rcases hlast with rfl | hlast
      · exact .inl (fold_of_run hrun').2
      · rcases mem_cons.mp hlast with rfl | hlast
        · exact .inl (fold_of_run hrun).1
        · exact .inr hlast

end VerifiedGroupState

/-- A member is excluded and another joins; the receiver gets the news in the wrong order. -/
theorem foldAll_converges_reordered :
    sampleState.foldAll [sampleGrown, sampleExcluded, sampleState] = sampleGrown := by
  have hfirst : openScheme.Advances sampleState _ sampleExcluded := eq_ok_get _
  have hsecond : openScheme.Advances sampleExcluded _ sampleGrown := eq_ok_get _
  have hrun := (Run.single hfirst).snoc hsecond
  refine VerifiedGroupState.foldAll_converges ⟨_, hrun⟩ ?_ (.inr (.head _))
  simp only [mem_cons, not_mem_nil, or_false, forall_eq_or_imp, forall_eq]
  exact ⟨⟨_, .nil⟩, ⟨_, .single hsecond⟩, ⟨_, hrun⟩⟩

end Ramflux.Group
