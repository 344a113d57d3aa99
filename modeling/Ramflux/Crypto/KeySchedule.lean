import Ramflux.Crypto.DoubleRatchet

/-! The keys two sessions agree on. Level 0 is the recipient's published key, level 1 the initiator's
first, and each later one is drawn by the party that answers the level before. Level `j` fixes a root
key and a chain of message secrets. -/
namespace Ramflux

namespace Primitives
variable (P : Primitives)

/-- Result of `deriveRootAndChain`, which never fails. -/
def rootAndChain (rootKey dhOutput : Key32) (parts : RatchetContextParts) (roleTag : Bytes) :
    Key32 × Key32 :=
  (P.deriveRootAndChain rootKey dhOutput parts roleTag).toOption.getD (zeroKey, zeroKey)

theorem deriveRootAndChain_eq (rootKey dhOutput : Key32) (parts : RatchetContextParts)
    (roleTag : Bytes) : P.deriveRootAndChain rootKey dhOutput parts roleTag =
      .ok (P.rootAndChain rootKey dhOutput parts roleTag) := rfl

/-- Result of `kdfCk`, which never fails. -/
def chainStep (chainKey : Key32) (context : Bytes) : Key32 × Key32 :=
  (P.kdfCk chainKey context).toOption.getD (zeroKey, zeroKey)

theorem kdfCk_eq (chainKey : Key32) (context : Bytes) :
    P.kdfCk chainKey context = .ok (P.chainStep chainKey context) := rfl

end Primitives

/-- What the two ends of a conversation are set up with. -/
structure Schedule where
  prims : Primitives
  sessionId : String
  initiatorHash : Key32
  recipientHash : Key32
  rootSeed : Key32

/-- The initiator draws the odd levels. -/
def initiatorOwns (j : ℕ) : Bool := j % 2 == 1

theorem initiatorOwns_succ (j : ℕ) : initiatorOwns (j + 1) = !initiatorOwns j := by
  unfold initiatorOwns
  rcases Nat.mod_two_eq_zero_or_one j with h | h <;> simp [Nat.add_mod, h]

theorem initiatorOwns_add_two (j : ℕ) : initiatorOwns (j + 2) = initiatorOwns j := by
  rw [initiatorOwns_succ, initiatorOwns_succ, Bool.not_not]

namespace Schedule
variable (S : Schedule) (K : ℕ → Key32)

def publicAt (j : ℕ) : Key32 := S.prims.x25519Public (K j)

def partsAt (j : ℕ) : RatchetContextParts :=
  ⟨S.sessionId, S.initiatorHash, S.recipientHash, 0, 0, min j u64Max⟩

def roleAt (j : ℕ) : Bytes := if initiatorOwns j then roleInitiatorSend else roleRecipientSend

def directionAt (j : ℕ) : Bytes := if initiatorOwns j then directionSend else directionRecv

/-- Root key of a level and first key of its chain. -/
def rootChain : ℕ → Key32 × Key32
  | 0 => (S.rootSeed, zeroKey)
  | j + 1 => S.prims.rootAndChain (rootChain j).1
      (S.prims.diffieHellman (K (j + 1)) (S.publicAt K j)) (S.partsAt j) (roleAt (j + 1))

theorem rootChain_succ (j : ℕ) : S.rootChain K (j + 1) = S.prims.rootAndChain (S.rootChain K j).1
    (S.prims.diffieHellman (K (j + 1)) (S.publicAt K j)) (S.partsAt j) (roleAt (j + 1)) := rfl

def contextAt (j n : ℕ) : Bytes :=
  directionContext S.sessionId (directionAt j) (S.publicAt K j) n 0 0

/-- Chain key of level `j` before message `n`. -/
def chainAt (j : ℕ) : ℕ → Key32
  | 0 => (S.rootChain K j).2
  | n + 1 => (S.prims.chainStep (chainAt j n) (S.contextAt K j n)).1

/-- Secret of message `n` on level `j`. -/
def secretAt (j n : ℕ) : Key32 := (S.prims.chainStep (S.chainAt K j n) (S.contextAt K j n)).2

theorem kdfCk_chainAt (j n : ℕ) : S.prims.kdfCk (S.chainAt K j n) (S.contextAt K j n) =
    .ok (S.chainAt K j (n + 1), S.secretAt K j n) := by
  rfl

section
variable {K} {K' : ℕ → Key32} {j : ℕ} (h : ∀ i ≤ j, K' i = K i)
include h

theorem publicAt_congr : S.publicAt K' j = S.publicAt K j := by
  rw [publicAt, h j le_rfl, publicAt]

theorem rootChain_congr : S.rootChain K' j = S.rootChain K j := by
  induction j with
  | zero => rfl
  | succ j ih =>
    have hlow : ∀ i ≤ j, K' i = K i := fun i hi => h i (by omega)
    rw [rootChain, rootChain, ih hlow, h (j + 1) le_rfl, S.publicAt_congr hlow]

theorem contextAt_congr (n : ℕ) : S.contextAt K' j n = S.contextAt K j n := by
  rw [contextAt, contextAt, S.publicAt_congr h]

theorem chainAt_congr (n : ℕ) : S.chainAt K' j n = S.chainAt K j n := by
  induction n with
  | zero => rw [chainAt, chainAt, S.rootChain_congr h]
  | succ n ih => rw [chainAt, chainAt, ih, S.contextAt_congr h]

theorem secretAt_congr (n : ℕ) : S.secretAt K' j n = S.secretAt K j n := by
  rw [secretAt, secretAt, S.chainAt_congr h, S.contextAt_congr h]

end
end Schedule

theorem natRepr_inj {m n : ℕ} (h : toString m = toString n) : m = n := by
  have hdigits : Nat.toDigits 10 m = Nat.toDigits 10 n := by
    rw [← Nat.toList_repr, ← Nat.toList_repr]
    exact congrArg String.toList h
  rw [← Nat.ofDigitChars_ten_toDigits (n := m), ← Nat.ofDigitChars_ten_toDigits (n := n), hdigits]

theorem skippedKeyId_inj {a b : Key32} {m n : ℕ} (h : skippedKeyId a m = skippedKeyId b n) :
    a = b ∧ m = n := by
  have hchars : base64Chars a.toList ++ ':' :: (toString m).toList =
      base64Chars b.toList ++ ':' :: (toString n).toList := by
    simpa [skippedKeyId, encodeBase64url] using congrArg String.toList h
  obtain ⟨hkey, hctr⟩ := append_cons_inj (colon_notMem_base64Chars _)
    (colon_notMem_base64Chars _) hchars
  exact ⟨Vector.toList_inj.mp (base64Chars_inj hkey), natRepr_inj (String.toList_inj.mp hctr)⟩

end Ramflux
