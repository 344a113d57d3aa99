import Ramflux.Crypto.GroupVerified
import Ramflux.Lib.Run

/-! The order in which a receiver replaces one verified snapshot by another. -/
namespace Ramflux.Group
open Fallible List Except

inductive GroupStateRelation
  | same
  | extension
  | ancestor
  | incomingPreferred
  | existingPreferred
  | unrelated
  | removalConflict
  deriving DecidableEq

namespace VerifiedGroupState
variable {C : GroupCrypto} (s previous : VerifiedGroupState C)

/-- The branch of `authority_relation_to` for differing transfer lists. -/
def transferRelationTo : Except GroupError GroupStateRelation :=
  let transfers := s.snapshot.transfers
  let before := previous.snapshot.transfers
  if before <+: transfers then
    match transfers[before.length]? with
    | some handover =>
      let matchesBase := previous.view.epoch + 1 = handover.epoch ∧
        previous.snapshot.stateHash = handover.previousHash
      let sibling := previous.view.epoch = handover.epoch ∧
        previous.snapshot.previousHash = some handover.previousHash
      if handover.acceptance.baseEpoch ≤ previous.view.epoch ∧ ¬ matchesBase ∧ ¬ sibling then
        .error .groupTransferRequiresSync
      else .ok .extension
    -- the lists differ, so the longer one goes on
    | none => .ok .unrelated
  else if transfers <+: before then
    match before[transfers.length]? with
    | some transfer =>
      .ok (if s.view.epoch < transfer.epoch then .ancestor else .unrelated)
    | none => .ok .unrelated
  else .ok .unrelated

def authorityRelationTo : Except GroupError GroupStateRelation :=
  if s.snapshot.genesis ≠ previous.snapshot.genesis then .ok .unrelated
  else if s.snapshot.transfers ≠ previous.snapshot.transfers then s.transferRelationTo previous
  else if (∃ transfer ∈ s.snapshot.transfers.getLast?, transfer.epoch = s.view.epoch) ∧
      s.snapshot.stateHash ≠ previous.snapshot.stateHash then .ok .unrelated
  else if s.view.epoch < previous.view.epoch then .ok .ancestor
  else if previous.view.epoch < s.view.epoch then
    .ok (if previous.snapshot.transfers <+: s.snapshot.transfers then .extension else .unrelated)
  else if s.snapshot.stateHash = previous.snapshot.stateHash then .ok .same
  else do
    let key ← C.signerKey s.snapshot
    let previousKey ← C.signerKey previous.snapshot
    if key ≠ previousKey then pure .unrelated
    else do
      let hash ← GroupCrypto.decode s.snapshot.stateHash
      let previousHash ← GroupCrypto.decode previous.snapshot.stateHash
      pure (if hash < previousHash then .incomingPreferred else .existingPreferred)

def relationTo : Except GroupError GroupStateRelation := do
  let relation ← s.authorityRelationTo previous
  if (relation = .extension ∨ relation = .incomingPreferred) ∧
      previous.view.preservesRemovals s.view = false then
    if s.snapshot.transfers = previous.snapshot.transfers then pure .removalConflict
    else .error .groupTransferRequiresSync
  else pure relation

/-- The relations under which a receiver takes the incoming snapshot for the one it holds. -/
def Replaces (incoming held : VerifiedGroupState C) : Prop :=
  incoming.relationTo held = .ok .extension ∨ incoming.relationTo held = .ok .incomingPreferred

instance (incoming held : VerifiedGroupState C) : Decidable (incoming.Replaces held) :=
  inferInstanceAs (Decidable (_ ∨ _))

/-- What the receiver holds after one incoming snapshot. -/
def fold (held incoming : VerifiedGroupState C) : VerifiedGroupState C :=
  if incoming.Replaces held then incoming else held

def foldAll (held : VerifiedGroupState C) (incoming : List (VerifiedGroupState C)) :
    VerifiedGroupState C := incoming.foldl fold held

/-- Epoch and hash, as `contains_head` compares them. -/
def head : ℕ × String := (s.view.epoch, s.view.headHash)

variable {a b c : VerifiedGroupState C}

/-- What replacement respects: transfers only grow, then the epoch, and then the hash falls. -/
structure Newer (a b : VerifiedGroupState C) : Prop where
  transfers : b.snapshot.transfers <+: a.snapshot.transfers
  epoch : b.view.epoch ≤ a.view.epoch
  strict : b.snapshot.transfers.length < a.snapshot.transfers.length ∨ b.view.epoch < a.view.epoch ∨
    (decodeBase64url a.snapshot.stateHash).getD [] < (decodeBase64url b.snapshot.stateHash).getD []

theorem Newer.trans (hab : a.Newer b) (hbc : b.Newer c) : a.Newer c := by
  have hab' := hab.transfers.length_le
  have hbc' := hbc.transfers.length_le
  have habEpoch := hab.epoch
  have hbcEpoch := hbc.epoch
  refine ⟨hbc.transfers.trans hab.transfers, by omega, ?_⟩
  rcases hab.strict with h | h | h
  · exact .inl (by omega)
  · exact .inr (.inl (by omega))
  rcases hbc.strict with h' | h' | h'
  · exact .inl (by omega)
  · exact .inr (.inl (by omega))
  · exact .inr (.inr (List.lt_trans h h'))

theorem Newer.ne (hab : a.Newer b) (htransfers : a.snapshot.transfers = b.snapshot.transfers)
    (hepoch : a.view.epoch = b.view.epoch) : a.snapshot.stateHash ≠ b.snapshot.stateHash := by
  intro hhash
  rcases hab.strict with h | h | h
  · rw [htransfers] at h
    exact lt_irrefl _ h
  · rw [hepoch] at h
    exact lt_irrefl _ h
  · rw [hhash] at h
    exact List.lt_irrefl _ h

variable {relation : GroupStateRelation}

theorem relationTo_ok (h : a.relationTo b = .ok relation) (hne : relation ≠ .removalConflict) :
    a.authorityRelationTo b = .ok relation := by
  obtain ⟨relation', hauth, h⟩ := bind_eq_ok.mp h
  split_ifs at h with hconflict htransfers
  · exact absurd (ok.inj h).symm hne
  · rw [hauth, pure_eq_ok.mp h]

/-- A longer transfer list goes on from its head, so the epoch does not fall. -/
theorem newer_of_transfers (hne : a.snapshot.transfers ≠ b.snapshot.transfers)
    (h : a.transferRelationTo b = .ok relation)
    (hreplaces : relation = .extension ∨ relation = .incomingPreferred) : a.Newer b := by
  unfold transferRelationTo at h
  by_cases hext : b.snapshot.transfers <+: a.snapshot.transfers
  · rw [if_pos hext] at h
    have hlen : b.snapshot.transfers.length < a.snapshot.transfers.length := by
      refine Nat.lt_of_le_of_ne hext.length_le fun heq => hne ?_
      exact (hext.eq_of_length heq).symm
    rw [getElem?_eq_getElem hlen] at h
    dsimp only at h
    have hhandover := a.transfer_epoch (getElem_mem hlen)
    split_ifs at h with hsync
    refine ⟨hext, ?_, .inl hlen⟩
    omega
  · rw [if_neg hext] at h
    have hother : relation = .ancestor ∨ relation = .unrelated := by
      split_ifs at h with hshorter
      · split at h
        · split_ifs at h
          · exact .inl (ok.inj h).symm
          · exact .inr (ok.inj h).symm
        · exact .inr (ok.inj h).symm
      · exact .inr (ok.inj h).symm
    rcases hreplaces with rfl | rfl <;> simp at hother

theorem decode_eq_ok {text : String} {bytes : List UInt8}
    (h : GroupCrypto.decode text = .ok bytes) : (decodeBase64url text).getD [] = bytes := by
  unfold GroupCrypto.decode at h
  split at h
  · next decoded hbytes =>
    rw [hbytes]
    exact ok.inj h
  · cases h

theorem newer_of_authorityRelationTo (h : a.authorityRelationTo b = .ok relation)
    (hreplaces : relation = .extension ∨ relation = .incomingPreferred) : a.Newer b := by
  unfold authorityRelationTo at h
  have hunrelated : ¬ (Except.ok .unrelated : Except GroupError _) = .ok relation := by
    rcases hreplaces with rfl | rfl <;> simp
  have hancestor : ¬ (Except.ok .ancestor : Except GroupError _) = .ok relation := by
    rcases hreplaces with rfl | rfl <;> simp
  have hsame : ¬ (Except.ok .same : Except GroupError _) = .ok relation := by
    rcases hreplaces with rfl | rfl <;> simp
  by_cases hgen : a.snapshot.genesis ≠ b.snapshot.genesis
  · rw [if_pos hgen] at h
    exact absurd h hunrelated
  rw [if_neg hgen] at h
  by_cases htransfers : a.snapshot.transfers ≠ b.snapshot.transfers
  · rw [if_pos htransfers] at h
    exact newer_of_transfers htransfers h hreplaces
  have hext : b.snapshot.transfers <+: a.snapshot.transfers :=
    not_not.mp htransfers ▸ prefix_rfl
  split_ifs at h with hhandover hlt hgt hhash
  · exact absurd h hunrelated
  · exact absurd h hancestor
  · exact ⟨hext, hgt.le, .inr (.inl hgt)⟩
  · exact absurd h hsame
  · -- both heads are of one epoch, and the smaller hash wins
    obtain ⟨key, -, h⟩ := bind_eq_ok.mp h
    obtain ⟨previousKey, -, h⟩ := bind_eq_ok.mp h
    split_ifs at h with hkey
    · exact absurd h hunrelated
    obtain ⟨hash, hdecode, h⟩ := bind_eq_ok.mp h
    obtain ⟨previousHash, hprev, h⟩ := bind_eq_ok.mp h
    have hless : hash < previousHash := by
      by_contra hge
      rw [if_neg hge] at h
      rcases hreplaces with rfl | rfl <;> simp [pure, Except.pure] at h
    refine ⟨hext, Nat.le_of_not_lt hlt, .inr (.inr ?_)⟩
    rw [decode_eq_ok hdecode, decode_eq_ok hprev]
    exact hless

theorem Replaces.newer (h : a.Replaces b) : a.Newer b := by
  rcases h with h | h
  · exact newer_of_authorityRelationTo (relationTo_ok h (by decide)) (.inl rfl)
  · exact newer_of_authorityRelationTo (relationTo_ok h (by decide)) (.inr rfl)

theorem foldAll_newer (held : VerifiedGroupState C) (incoming : List (VerifiedGroupState C)) :
    held.foldAll incoming = held ∨ (held.foldAll incoming).Newer held := by
  induction incoming generalizing held with
  | nil => exact .inl rfl
  | cons next incoming ih =>
    have hrest := ih (held.fold next)
    change (held.fold next).foldAll incoming = held ∨ ((held.fold next).foldAll incoming).Newer held
    by_cases hreplaces : next.Replaces held
    · have hfold : held.fold next = next := if_pos hreplaces
      rw [hfold] at hrest ⊢
      rcases hrest with hrest | hrest
      · rw [hrest]
        exact .inr hreplaces.newer
      · exact .inr (hrest.trans hreplaces.newer)
    · have hfold : held.fold next = held := if_neg hreplaces
      rw [hfold] at hrest ⊢
      exact hrest

theorem transfers_eq_of_head (hinj : Function.Injective C.contentHash) (h : a.head = b.head) :
    a.snapshot.transfers = b.snapshot.transfers ∧ a.snapshot.stateHash = b.snapshot.stateHash := by
  have hhead : a.view.headHash = b.view.headHash := congrArg Prod.snd h
  have hcontent : C.contentHash a.snapshot.content = C.contentHash b.snapshot.content := by
    rw [← a.verifyOk.headHash, ← b.verifyOk.headHash]
    exact hhead
  refine ⟨congrArg GroupContent.transfers (hinj hcontent), ?_⟩
  rw [a.verifyOk.stateHash, b.verifyOk.stateHash, hcontent]

theorem Newer.head_ne (hinj : Function.Injective C.contentHash) (h : a.Newer b) :
    a.head ≠ b.head := by
  intro hhead
  obtain ⟨htransfers, hhash⟩ := transfers_eq_of_head hinj hhead
  exact h.ne htransfers (congrArg Prod.fst hhead) hhash

/-- A receiver never comes back to a head it has given up. -/
theorem foldAll_no_rollback (hinj : Function.Injective C.contentHash) :
    (∀ (start : VerifiedGroupState C) (first second third : List (VerifiedGroupState C)),
      (start.foldAll first).view.epoch ≤ ((start.foldAll first).foldAll second).view.epoch ∧
      (start.foldAll first).snapshot.transfers <+:
        ((start.foldAll first).foldAll second).snapshot.transfers ∧
      (((start.foldAll first).foldAll second).head ≠ (start.foldAll first).head →
        (((start.foldAll first).foldAll second).foldAll third).head ≠ (start.foldAll first).head)) ∧
    ∀ a b : VerifiedGroupState C, a.Replaces b → ¬ b.Replaces a := by
  refine ⟨fun start first second third => ?_, fun a b hab hba => ?_⟩
  · generalize start.foldAll first = a
    rcases a.foldAll_newer second with hb | hb
    · rw [hb]
      exact ⟨le_rfl, prefix_rfl, fun hne => absurd rfl hne⟩
    · refine ⟨hb.epoch, hb.transfers, fun _ => ?_⟩
      rcases (a.foldAll second).foldAll_newer third with hc | hc
      · rw [hc]
        exact hb.head_ne hinj
      · exact (hc.trans hb).head_ne hinj
  · have hcycle := hab.newer.trans hba.newer
    exact hcycle.head_ne hinj rfl

end VerifiedGroupState

section

/-- The open scheme under an ideal hash. -/
noncomputable def idealScheme : GroupCrypto := { openScheme with contentHash := idealHash }

/-- Snapshot of the owner's phone alone, at the first epoch or at the second. -/
noncomputable def idealSnapshot (later : Bool) : GroupStateSnapshot :=
  let start := sampleSnapshot [⟨(sampleActor 1 "phone").identity, .owner, 1⟩]
  let epoch := if later then 2 else 1
  idealScheme.signed (sampleSigner 1) (sampleBranch "phone") (sampleActor 1 "phone") { start with
    epoch
    previousHash := if later then some (sampleRoot 9) else none
    state := { start.state with epoch } }

noncomputable def idealState (later : Bool) : VerifiedGroupState idealScheme where
  snapshot := idealSnapshot later
  verified := by
    have hhash : (idealSnapshot later).stateHash =
        idealScheme.contentHash (idealSnapshot later).content := by cases later <;> rfl
    have hhead : (idealSnapshot later).state.headHash =
        idealScheme.contentHash (idealSnapshot later).content := by cases later <;> rfl
    -- every check but that of the hash is decided without looking at a hash
    refine bind_eq_ok.mpr ⟨(), ?_, by cases later <;> decide +kernel⟩
    iterate 8 refine bind_eq_ok.mpr ⟨(), by cases later <;> decide +kernel, ?_⟩
    refine bind_eq_ok.mpr ⟨(), refuseWhen_eq_ok.mpr ?_, by cases later <;> decide +kernel⟩
    rw [hhash, hhead]
    simp

theorem foldAll_no_rollback_ideal : Function.Injective idealScheme.contentHash ∧
    (idealState true).Replaces (idealState false) ∧
    (((idealState false).foldAll [idealState true]).foldAll [idealState false]).head ≠
      (idealState false).head := by
  have hinj : Function.Injective idealScheme.contentHash := idealHash_injective
  have hreplaces : (idealState true).Replaces (idealState false) := by decide +kernel
  have hhead : ((idealState false).foldAll [idealState true]).head ≠ (idealState false).head := by
    exact fun h => absurd (congrArg Prod.fst h) (by decide +kernel)
  exact ⟨hinj, hreplaces,
    ((VerifiedGroupState.foldAll_no_rollback hinj).1 (idealState false) [] [idealState true]
      [idealState false]).2.2 hhead⟩

end

end Ramflux.Group
