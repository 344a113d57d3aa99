import Ramflux.Crypto.Primitives

/-! The preimage of a membership commitment: the order of members does not matter, and all else is
bound as long as no string is cut to its two-byte length. -/
namespace Ramflux
open List

@[ext] structure GroupMemberCommitment where
  memberDeviceIdHash : Key32
  memberRole : String
  memberDeviceEpoch : UInt64

/-- Arguments of `membership_commitment_hash`. -/
structure Membership where
  groupIdHash : Key32
  groupEpoch : UInt64
  groupKeyEpoch : UInt64
  members : List GroupMemberCommitment
  groupPolicyHash : Key32
  senderKeyId : String

def Domain.groupSenderKeyDistribution := "ramflux.group_sender_key.distribution.v1"

def u16Max : ℕ := 65535

/-- Bytes beyond the largest length are cut. -/
def writeLenPrefixed (bytes : Bytes) : Bytes :=
  let len := min bytes.length u16Max
  bigEndian 2 len ++ bytes.take len

namespace GroupMemberCommitment

/-- Sort key: hash, then role, then epoch, the role by its bytes. -/
def sortKey (m : GroupMemberCommitment) : Bytes × Bytes × ℕ :=
  (m.memberDeviceIdHash.toList, utf8 m.memberRole, m.memberDeviceEpoch.toNat)

def le (left right : GroupMemberCommitment) : Bool := (compare left.sortKey right.sortKey).isLE

def bytes (m : GroupMemberCommitment) : Bytes :=
  m.memberDeviceIdHash.toList ++ writeLenPrefixed (utf8 m.memberRole) ++ bigEndian 8 m.memberDeviceEpoch.toNat

end GroupMemberCommitment

def Membership.preimage (m : Membership) : Bytes :=
  utf8 Domain.groupSenderKeyDistribution ++ m.groupIdHash.toList ++ bigEndian 8 m.groupEpoch.toNat ++
    bigEndian 8 m.groupKeyEpoch.toNat ++ (m.members.mergeSort GroupMemberCommitment.le).flatMap (·.bytes) ++
    m.groupPolicyHash.toList ++ writeLenPrefixed (utf8 m.senderKeyId)

def membershipCommitmentHash (P : Primitives) (m : Membership) : Key32 :=
  P.blake3_256 Domain.groupSenderKeyDistribution m.preimage

theorem bigEndian_epoch_inj {m n : UInt64} (h : bigEndian 8 m.toNat = bigEndian 8 n.toNat) : m = n :=
  UInt64.toNat_inj.mp (bigEndian_inj m.toNat_lt n.toNat_lt h)

/-- A hash and a short string can be told from what follows them. -/
theorem block_inj {p q : Key32} {x y : Bytes} {rest rest' : Bytes} (hx : x.length ≤ u16Max) (hy : y.length ≤ u16Max)
    (h : p.toList ++ (writeLenPrefixed x ++ rest) = q.toList ++ (writeLenPrefixed y ++ rest')) :
    p = q ∧ x = y ∧ rest = rest' := by
  obtain ⟨hp, h⟩ := append_inj h (by simp)
  have hcut : ∀ {z : Bytes}, z.length ≤ u16Max → writeLenPrefixed z = bigEndian 2 z.length ++ z := by
    intro z hz
    simp [writeLenPrefixed, Nat.min_eq_left hz]
  rw [hcut hx, hcut hy, append_assoc, append_assoc] at h
  obtain ⟨hlen, h⟩ := append_inj h (by simp)
  have hlen := bigEndian_inj (Nat.lt_succ_of_le hx) (Nat.lt_succ_of_le hy) hlen
  obtain ⟨hxy, hrest⟩ := append_inj h hlen
  exact ⟨Vector.toList_inj.mp hp, hxy, hrest⟩

/-- The end of the members shows in the length: only the last record is followed by no bytes. -/
theorem members_inj {ms ns : List GroupMemberCommitment} {p q : Key32} {x y : Bytes}
    (hms : ∀ m ∈ ms, (utf8 m.memberRole).length ≤ u16Max) (hns : ∀ m ∈ ns, (utf8 m.memberRole).length ≤ u16Max)
    (hx : x.length ≤ u16Max) (hy : y.length ≤ u16Max)
    (h : ms.flatMap (·.bytes) ++ (p.toList ++ writeLenPrefixed x) =
      ns.flatMap (·.bytes) ++ (q.toList ++ writeLenPrefixed y)) : ms = ns ∧ p = q ∧ x = y := by
  have hrec : ∀ (m : GroupMemberCommitment) (l : List GroupMemberCommitment) (tail : Bytes),
      (m :: l).flatMap (·.bytes) ++ tail = m.memberDeviceIdHash.toList ++ (writeLenPrefixed (utf8 m.memberRole) ++
        (bigEndian 8 m.memberDeviceEpoch.toNat ++ (l.flatMap (·.bytes) ++ tail))) := by
    simp [GroupMemberCommitment.bytes]
  have hlast : ∀ (m : GroupMemberCommitment) (l : List GroupMemberCommitment) (p q : Key32) (x y : Bytes),
      (utf8 m.memberRole).length ≤ u16Max → x.length ≤ u16Max →
      p.toList ++ writeLenPrefixed x ≠ (m :: l).flatMap (·.bytes) ++ (q.toList ++ writeLenPrefixed y) := by
    intro m l p q x y hrole hx heq
    rw [hrec, ← append_nil (writeLenPrefixed x)] at heq
    obtain ⟨-, -, hrest⟩ := block_inj hx hrole heq
    have hlength := congrArg List.length hrest
    simp at hlength
    omega
  induction ms generalizing ns with
  | nil =>
    cases ns with
    | nil =>
      rw [flatMap_nil, nil_append, ← append_nil (writeLenPrefixed x),
        ← append_nil (writeLenPrefixed y)] at h
      obtain ⟨hp, hxy, -⟩ := block_inj hx hy h
      exact ⟨rfl, hp, hxy⟩
    | cons n ns => exact absurd h (hlast n ns p q x y (hns n (.head _)) hx)
  | cons m ms ih =>
    cases ns with
    | nil => exact absurd h.symm (hlast m ms q p y x (hms m (.head _)) hy)
    | cons n ns =>
      rw [hrec, hrec] at h
      obtain ⟨hhash, hrole, h⟩ := block_inj (hms m (.head _)) (hns n (.head _)) h
      obtain ⟨hepoch, h⟩ := append_inj h (by simp)
      obtain ⟨rfl, hrest⟩ := ih (fun m hm => hms m (.tail _ hm)) (fun n hn => hns n (.tail _ hn)) h
      have hmember := GroupMemberCommitment.ext hhash (utf8_injective hrole) (bigEndian_epoch_inj hepoch)
      exact ⟨by rw [hmember], hrest⟩

theorem GroupMemberCommitment.le_antisymm {a b : GroupMemberCommitment} (hab : a.le b) (hba : b.le a) : a = b := by
  have hkey := Std.LawfulEqOrd.eq_of_compare (Std.OrientedCmp.isLE_antisymm hab hba)
  simp only [sortKey, Prod.mk.injEq] at hkey
  obtain ⟨hhash, hrole, hepoch⟩ := hkey
  exact GroupMemberCommitment.ext (Vector.toList_inj.mp hhash) (utf8_injective hrole) (UInt64.toNat_inj.mp hepoch)

theorem GroupMemberCommitment.le_total (a b : GroupMemberCommitment) : (a.le b || b.le a) = true := by
  unfold le
  rw [← @Std.OrientedCmp.isGE_eq_isLE _ _ _ a.sortKey b.sortKey]
  cases compare a.sortKey b.sortKey <;> rfl

theorem mergeSort_eq_iff {ms ns : List GroupMemberCommitment} :
    ms.mergeSort GroupMemberCommitment.le = ns.mergeSort GroupMemberCommitment.le ↔ ms.Perm ns := by
  have hperm := fun l : List GroupMemberCommitment => l.mergeSort_perm GroupMemberCommitment.le
  have hsorted := @List.pairwise_mergeSort _ GroupMemberCommitment.le (fun _ _ _ => Std.TransCmp.isLE_trans)
    GroupMemberCommitment.le_total
  constructor
  · intro h
    exact (hperm ms).symm.trans (h ▸ hperm ns)
  · intro h
    exact ((hperm ms).trans (h.trans (hperm ns).symm)).eq_of_pairwise (fun a b _ _ => GroupMemberCommitment.le_antisymm)
      (hsorted ms) (hsorted ns)

/-- No string is cut. -/
structure Membership.Short (m : Membership) : Prop where
  roles : ∀ member ∈ m.members, (utf8 member.memberRole).length ≤ u16Max
  sender : (utf8 m.senderKeyId).length ≤ u16Max

/-- All but the order of the members is equal. -/
def Membership.Same (a b : Membership) : Prop :=
  a.groupIdHash = b.groupIdHash ∧ a.groupEpoch = b.groupEpoch ∧ a.groupKeyEpoch = b.groupKeyEpoch ∧
    a.members.Perm b.members ∧ a.groupPolicyHash = b.groupPolicyHash ∧ a.senderKeyId = b.senderKeyId

theorem Membership.Same.preimage {a b : Membership} (h : a.Same b) : a.preimage = b.preimage := by
  obtain ⟨hid, hepoch, hkeyEpoch, hmembers, hpolicy, hsender⟩ := h
  unfold Membership.preimage
  rw [hid, hepoch, hkeyEpoch, mergeSort_eq_iff.mpr hmembers, hpolicy, hsender]

/-- The order of the members does not enter the preimage, and with short strings all else does. -/
theorem preimage_eq_iff {a b : Membership} : (a.Same b → a.preimage = b.preimage) ∧
    (a.Short → b.Short → (a.preimage = b.preimage ↔ a.Same b)) := by
  refine ⟨Membership.Same.preimage, fun ha hb => ⟨fun h => ?_, Membership.Same.preimage⟩⟩
  have hmem : ∀ m : Membership, m.Short → ∀ member ∈ m.members.mergeSort GroupMemberCommitment.le,
      (utf8 member.memberRole).length ≤ u16Max := fun m hm member hmember =>
    hm.roles member (mem_mergeSort.mp hmember)
  unfold Membership.preimage at h
  simp only [append_assoc] at h
  replace h := append_cancel_left h
  obtain ⟨hid, h⟩ := append_inj h (by simp)
  obtain ⟨hepoch, h⟩ := append_inj h (by simp)
  obtain ⟨hkeyEpoch, h⟩ := append_inj h (by simp)
  obtain ⟨hmembers, hpolicy, hsender⟩ := members_inj (hmem a ha) (hmem b hb) ha.sender hb.sender h
  exact ⟨Vector.toList_inj.mp hid, bigEndian_epoch_inj hepoch, bigEndian_epoch_inj hkeyEpoch,
    mergeSort_eq_iff.mp hmembers, hpolicy, utf8_injective hsender⟩

def Membership.sample (members : List GroupMemberCommitment) (senderKeyId : String) : Membership :=
  ⟨zeroKey, 1, 1, members, zeroKey, senderKeyId⟩

theorem preimage_eq_iff_swapped :
    (Membership.sample [⟨zeroKey, "owner", 1⟩, ⟨zeroKey, "member", 1⟩] "key").preimage =
      (Membership.sample [⟨zeroKey, "member", 1⟩, ⟨zeroKey, "owner", 1⟩] "key").preimage := by
  refine (preimage_eq_iff.2 ⟨?_, by decide⟩ ⟨?_, by decide⟩).mpr ⟨rfl, rfl, rfl, .swap _ _ _, rfl, rfl⟩
  · decide
  · decide

def senderKeyOf (n : ℕ) : String := String.ofList (List.replicate n 'a')

theorem utf8_senderKeyOf (n : ℕ) : utf8 (senderKeyOf n) = List.replicate n 97 := by
  have hone : String.utf8EncodeChar 'a' = [97] := by decide
  simp [senderKeyOf, utf8, String.toByteArray_ofList, List.utf8Encode, flatMap_replicate, hone]

/-- A sender key of one byte too many is bound like the key without that byte. -/
theorem long_sender_cut :
    (Membership.sample [] (senderKeyOf (u16Max + 1))).preimage = (Membership.sample [] (senderKeyOf u16Max)).preimage ∧
      senderKeyOf (u16Max + 1) ≠ senderKeyOf u16Max ∧ (utf8 (senderKeyOf (u16Max + 1))).length < 2 ^ 32 := by
  refine ⟨?_, fun h => ?_, ?_⟩
  · simp [Membership.sample, Membership.preimage, writeLenPrefixed, utf8_senderKeyOf]
  · have hlength := congrArg (fun s => (utf8 s).length) h
    simp [utf8_senderKeyOf] at hlength
  · rw [utf8_senderKeyOf, length_replicate]
    decide

end Ramflux
