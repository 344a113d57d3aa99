import Ramflux.Crypto.KeySchedule
import Mathlib.Data.Set.Insert

/-! One party against the shared key schedule: what its session holds at a level, and how sending,
skipping, ratcheting and receiving keep it there. -/
namespace Ramflux
open Schedule DmSession

/-- The fixed identity of a session; `side` is true for the initiator. -/
structure Identified (S : Schedule) (side : Bool) (s : DmSession) : Prop where
  sessionId : s.sessionId = S.sessionId
  sender : s.senderDeviceIdHash = if side then S.initiatorHash else S.recipientHash
  recipient : s.recipientDeviceIdHash = if side then S.recipientHash else S.initiatorHash
  isInitiatorSide : s.isInitiatorSide = side
  epochLocal : s.deviceEpochLocal = 0
  epochRemote : s.deviceEpochRemote = 0

namespace Identified
variable {S : Schedule} {side : Bool} {s : DmSession} (h : Identified S side s) {j : ℕ}
include h

theorem directionContext_eq (tag : Bytes) (key : Key32) (n : ℕ) :
    s.directionContext tag key n 0 = directionContext S.sessionId tag key n 0 0 := by
  have hpair : s.canonicalEpochPair 0 = (0, 0) := by
    simp [canonicalEpochPair, h.epochLocal]
  rw [DmSession.directionContext, hpair, h.sessionId]

theorem sendDirectionTag_eq (hj : initiatorOwns j = side) : s.sendDirectionTag = directionAt j := by
  rw [sendDirectionTag, directionAt, h.isInitiatorSide, hj]

theorem recvDirectionTag_eq (hj : initiatorOwns j = !side) : s.recvDirectionTag = directionAt j := by
  rw [recvDirectionTag, directionAt, h.isInitiatorSide, hj]
  cases side <;> rfl

theorem localSenderRoleTag_eq (hj : initiatorOwns j = side) : s.localSenderRoleTag = roleAt j := by
  rw [localSenderRoleTag, roleAt, h.isInitiatorSide, hj]

theorem remoteSenderRoleTag_eq (hj : initiatorOwns j = !side) : s.remoteSenderRoleTag = roleAt j := by
  rw [remoteSenderRoleTag, roleAt, h.isInitiatorSide, hj]
  cases side <;> rfl

theorem ratchetContextParts_eq (hstep : s.dhRatchetStep = min j u64Max) :
    s.ratchetContextParts = S.partsAt j := by
  have hhash : s.canonicalDeviceHashPair = (S.initiatorHash, S.recipientHash) := by
    rw [canonicalDeviceHashPair, h.isInitiatorSide, h.sender, h.recipient]
    cases side <;> rfl
  have hpair : s.canonicalEpochPair 0 = (0, 0) := by
    simp [canonicalEpochPair, h.epochLocal]
  rw [ratchetContextParts, partsAt, h.epochRemote, hpair, hhash, h.sessionId, hstep]

end Identified

/-- The secret of each level, how many messages its chain has carried, and which were received. -/
structure Ghost where
  key : ℕ → Key32
  len : ℕ → ℕ
  delivered : Set (ℕ × ℕ)

def Ghost.send (G : Ghost) (ℓ : ℕ) : Ghost :=
  { G with len := Function.update G.len ℓ (G.len ℓ + 1) }

def Ghost.draw (G : Ghost) (ℓ : ℕ) (seed : Key32) : Ghost :=
  { G with key := Function.update G.key ℓ seed }

def Ghost.deliver (G : Ghost) (j n : ℕ) : Ghost :=
  { G with delivered := insert (j, n) G.delivered }

theorem Ghost.mem_deliver (G : Ghost) (j n : ℕ) (p : ℕ × ℕ) :
    p ∈ (G.deliver j n).delivered ↔ p = (j, n) ∨ p ∈ G.delivered :=
  Set.mem_insert_iff

variable {ℓ : ℕ} {P : Primitives} {s : DmSession} {c : DmCiphertext} {canonical plaintext ad : Bytes}

theorem Ghost.draw_key_of_lt (G : Ghost) {i : ℕ} (seed : Key32) (h : i < ℓ) :
    (G.draw ℓ seed).key i = G.key i := by
  simp [Ghost.draw, Nat.ne_of_lt h]

theorem Ghost.draw_key_self (G : Ghost) (ℓ : ℕ) (seed : Key32) : (G.draw ℓ seed).key ℓ = seed := by
  simp [Ghost.draw]

def Ghost.previousLen (G : Ghost) (j : ℕ) : ℕ := if 2 ≤ j then G.len (j - 2) else 0

theorem Ghost.send_len_self (G : Ghost) (ℓ : ℕ) : (G.send ℓ).len ℓ = G.len ℓ + 1 := by
  simp [Ghost.send]

theorem Ghost.send_len_of_ne (G : Ghost) {j : ℕ} (h : j ≠ ℓ) : (G.send ℓ).len j = G.len j := by
  simp [Ghost.send, h]

theorem Ghost.previousLen_send {G : Ghost} {j : ℕ} (h : j < ℓ + 2) :
    (G.send ℓ).previousLen j = G.previousLen j := by
  unfold Ghost.previousLen
  split_ifs with h2
  · exact G.send_len_of_ne (by omega)
  · rfl

/-- A party at level `ℓ` with `rc` messages read of the chain below is past message `n` of level `j`. -/
def Ghost.Passed (G : Ghost) (ℓ rc j n : ℕ) : Prop :=
  initiatorOwns j = !initiatorOwns ℓ ∧ (j + 1 < ℓ ∧ n < G.len j ∨ j + 1 = ℓ ∧ n < rc)

theorem Ghost.passed_congr {G G' : Ghost} (h : ∀ j, j + 1 < ℓ → G'.len j = G.len j)
    (rc j n : ℕ) : G'.Passed ℓ rc j n ↔ G.Passed ℓ rc j n := by
  unfold Ghost.Passed
  by_cases hj : j + 1 < ℓ
  · rw [h j hj]
  · simp [hj]

theorem Ghost.not_passed_next (G : Ghost) (ℓ rc : ℕ) : ¬ G.Passed ℓ rc (ℓ - 1) rc := by
  intro h
  rcases h.2 with h | h <;> omega

theorem Ghost.passed_next_level (G : Ghost) (ℓ j n : ℕ) :
    G.Passed (ℓ + 2) 0 j n ↔ G.Passed ℓ (G.len (ℓ - 1)) j n := by
  unfold Ghost.Passed
  rw [initiatorOwns_add_two]
  refine and_congr_right fun ho => ?_
  have hne : j ≠ ℓ := by
    rintro rfl
    simp at ho
  constructor
  · rintro (⟨hj, hn⟩ | ⟨-, hn⟩)
    · by_cases hlast : j + 1 = ℓ
      · obtain rfl : j = ℓ - 1 := by omega
        exact .inr ⟨hlast, hn⟩
      · exact .inl ⟨by omega, hn⟩
    · omega
  · rintro (⟨hj, hn⟩ | ⟨hj, hn⟩)
    · exact .inl ⟨by omega, hn⟩
    · obtain rfl : j = ℓ - 1 := by omega
      exact .inl ⟨by omega, hn⟩

/-- The session of a party at level `ℓ` that has read `rc` messages of the chain below. -/
structure Party (S : Schedule) (G : Ghost) (side : Bool) (ℓ rc : ℕ) (s : DmSession) : Prop where
  ident : Identified S side s
  owns : initiatorOwns ℓ = side
  root : s.rootKey = (S.rootChain G.key ℓ).1
  step : s.dhRatchetStep = min ℓ u64Max
  dhsPrivate : s.dhsPrivate = some (G.key ℓ)
  dhsPublic : s.dhsPublic = some (S.publicAt G.key ℓ)
  dhrPublic : s.dhrPublic = if ℓ = 0 then none else some (S.publicAt G.key (ℓ - 1))
  sendCounter : s.sendCounter = G.len ℓ
  sendingChain : 1 ≤ ℓ → s.sendingChainKey = S.chainAt G.key ℓ (G.len ℓ)
  previous : s.previousSendingChainLength = G.previousLen ℓ
  receiveCounter : s.receiveCounter = rc
  receivingChain : 2 ≤ ℓ → s.receivingChainKey = S.chainAt G.key (ℓ - 1) rc
  read_le : rc ≤ G.len (ℓ - 1)
  noKeys : s.skippedMessageKeys = ∅
  stored : ∀ j n, G.Passed ℓ rc j n → (j, n) ∉ G.delivered →
    s.skippedMessageSecrets[skippedKeyId (S.publicAt G.key j) n]? = some (S.secretAt G.key j n)
  storedOnly : ∀ id ∈ s.skippedMessageSecrets, ∃ j n, G.Passed ℓ rc j n ∧ (j, n) ∉ G.delivered ∧
    id = skippedKeyId (S.publicAt G.key j) n
  deliveredOnly : ∀ j n, (j, n) ∈ G.delivered → initiatorOwns j = !side → G.Passed ℓ rc j n

def KeysDistinct (S : Schedule) (G : Ghost) (top : ℕ) : Prop :=
  ∀ i ≤ top, ∀ j ≤ top, S.publicAt G.key i = S.publicAt G.key j → i = j

/-- Message `n` of level `j`: its header says so, and it opens with that secret. -/
structure Genuine (S : Schedule) (G : Ghost) (j n : ℕ) (c : DmCiphertext)
    (plaintext ad : Bytes) : Prop where
  lt_len : n < G.len j
  header_n : c.header.n = n
  header_public : c.header.dhRatchetPublic = S.publicAt G.key j
  header_pn : c.header.pn = G.previousLen j
  header_epoch : c.header.deviceEpoch = 0
  opens : ∃ canonical keys, c.checkedHeader S.prims = .ok canonical ∧
    S.prims.deriveMessageKeys (S.secretAt G.key j n)
      (S.prims.messageContext S.sessionId (directionAt j) n canonical ad) = .ok keys ∧
    openMessage S.prims c ad canonical keys = .ok plaintext

/-- The parts a successful encryption was made of. -/
theorem DmSession.encrypt_inv {s' : DmSession} (h : s.encrypt P plaintext ad = .ok (c, s')) :
    ∃ next secret canonical keys,
      P.kdfCk s.sendingChainKey (s.directionContext s.sendDirectionTag (s.dhsPublic.getD zeroKey)
        s.sendCounter s.deviceEpochRemote) = .ok (next, secret) ∧
      s.nextHeader.canonicalHeaderBytes = .ok canonical ∧
      P.deriveMessageKeys secret (P.messageContext s.sessionId s.sendDirectionTag s.sendCounter
        canonical ad) = .ok keys ∧
      P.aeadEncrypt keys.aeadKey keys.nonce (dmHeaderAssociatedData ad canonical)
        plaintext = some c.ciphertext ∧
      c.nonce = keys.nonce ∧ c.sessionId = s.sessionId ∧
      c.counter = UInt64.ofNat s.sendCounter ∧ c.ratchetPublicKey = s.dhsPublic ∧
      c.previousChainLength = UInt64.ofNat s.previousSendingChainLength ∧
      c.senderDeviceIdHash = s.senderDeviceIdHash ∧
      c.recipientDeviceIdHash = s.recipientDeviceIdHash ∧
      c.deviceEpoch = UInt64.ofNat s.deviceEpochLocal ∧
      c.messageEventId = s.nextHeader.messageEventId ∧
      c.headerHash = P.blake3_256_base64url Domain.committingAeadHeader canonical ∧
      P.verifyCommitments c plaintext ad canonical keys = .ok () ∧
      s' = { s with sendingChainKey := next, sendCounter := satAdd s.sendCounter 1 } := by
  unfold encrypt at h
  simp only [Bind.bind, Except.bind, Pure.pure, Except.pure] at h
  cases hkdf : P.kdfCk s.sendingChainKey (s.directionContext s.sendDirectionTag
      (s.dhsPublic.getD zeroKey) s.sendCounter s.deviceEpochRemote) with
  | error e => simp [hkdf] at h
  | ok r =>
    obtain ⟨next, secret⟩ := r
    simp only [hkdf] at h
    cases hcanon : s.nextHeader.canonicalHeaderBytes with
    | error e => simp [hcanon] at h
    | ok canonical =>
      simp only [hcanon] at h
      cases hkeys : P.deriveMessageKeys secret (P.messageContext s.sessionId s.sendDirectionTag
          s.sendCounter canonical ad) with
      | error e => simp [hkeys] at h
      | ok keys =>
        simp only [hkeys] at h
        cases hseal : P.aeadEncrypt keys.aeadKey keys.nonce
            (dmHeaderAssociatedData ad canonical) plaintext with
        | none => simp [hseal, throw, throwThe, MonadExceptOf.throw] at h
        | some sealed =>
          simp only [hseal, Except.ok.injEq, Prod.mk.injEq] at h
          obtain ⟨rfl, rfl⟩ := h
          exact ⟨next, secret, canonical, keys, rfl, rfl, hkeys, hseal, rfl, rfl, rfl, rfl, rfl, rfl,
            rfl, rfl, rfl, rfl, by simp [Primitives.verifyCommitments], rfl⟩

theorem DmHeader.canonicalHeaderBytes_isOk (h : DmHeader)
    (hsession : (utf8 h.ratchetSessionId).length ≤ u32Max)
    (hevent : (utf8 h.messageEventId).length ≤ u32Max) :
    ∃ canonical, h.canonicalHeaderBytes = .ok canonical := by
  have hfields : ∀ f ∈ h.fields, (fieldValueBytes f.value).length ≤ u32Max := by
    have hmax : u32Max = 4294967295 := by decide
    rw [hmax] at hsession hevent
    simp [DmHeader.fields, fieldValueBytes, bigEndian, hsession, hevent, hmax]
  obtain ⟨canonical, hok⟩ := Ramflux.canonicalHeaderBytes_isOk .dmMessage h.fields
    (by simp [DmHeader.fields]) hfields
  exact ⟨canonical, by rw [DmHeader.canonicalHeaderBytes, hok]; rfl⟩

theorem DmSession.encrypt_isOk (hseal : ∀ key nonce aad msg, (P.aeadEncrypt key nonce aad msg).isSome)
    (hhdr : s.nextHeader.canonicalHeaderBytes = .ok canonical) (plaintext ad : Bytes) :
    ∃ c s', s.encrypt P plaintext ad = .ok (c, s') := by
  obtain ⟨next, secret, hkdf⟩ := P.kdfCk_isOk s.sendingChainKey (s.directionContext
    s.sendDirectionTag (s.dhsPublic.getD zeroKey) s.sendCounter s.deviceEpochRemote)
  obtain ⟨keys, hkeys⟩ := P.deriveMessageKeys_isOk secret
    (P.messageContext s.sessionId s.sendDirectionTag s.sendCounter canonical ad)
  obtain ⟨sealed, hsealed⟩ := Option.isSome_iff_exists.mp (hseal keys.aeadKey keys.nonce
    (dmHeaderAssociatedData ad canonical) plaintext)
  unfold encrypt
  simp only [hkdf, hhdr, hkeys, hsealed, Bind.bind, Except.bind]
  exact ⟨_, _, rfl⟩

theorem toNat_ofNat_of_le {n : ℕ} (h : n ≤ u64Max) : (UInt64.ofNat n).toNat = n := by
  simp only [u64Max] at h
  rw [UInt64.toNat_ofNat']
  omega

theorem DmSession.encrypt_header {s' : DmSession} (henc : s.encrypt P plaintext ad = .ok (c, s'))
    (hcount : s.sendCounter ≤ u64Max) (hprev : s.previousSendingChainLength ≤ u64Max)
    (hlocal : s.deviceEpochLocal ≤ u64Max) : c.header = s.nextHeader := by
  obtain ⟨_, _, _, _, -, -, -, -, -, hsession, hctr, hpublic, hprevious, hsender, hrecipient,
    hepoch, hevent, -, -, -⟩ := encrypt_inv henc
  rw [DmCiphertext.header, hsession, hsender, hrecipient, hpublic, hctr, hprevious, hepoch,
    hevent, toNat_ofNat_of_le hprev, toNat_ofNat_of_le hcount, toNat_ofNat_of_le hlocal]
  rfl

theorem DmCiphertext.checkedHeader_eq (hcanon : c.header.canonicalHeaderBytes = .ok canonical)
    (hhash : c.headerHash = P.blake3_256_base64url Domain.committingAeadHeader canonical) :
    c.checkedHeader P = .ok canonical := by
  have hbytes : Ramflux.canonicalHeaderBytes .dmMessage c.header.fields = .ok canonical := by
    unfold DmHeader.canonicalHeaderBytes at hcanon
    cases hb : Ramflux.canonicalHeaderBytes .dmMessage c.header.fields with
    | error e => simp [hb, Except.mapError] at hcanon
    | ok bytes => simpa [hb, Except.mapError] using hcanon
  unfold DmCiphertext.checkedHeader Primitives.headerHashBase64url
  rw [hcanon, hbytes]
  simp [hhash, Bind.bind, Except.bind, Pure.pure, Except.pure, Except.mapError]

theorem DmSession.openMessage_eq (hP : P.Sound) {keys : MessageKeys}
    (hseal : P.aeadEncrypt keys.aeadKey keys.nonce (dmHeaderAssociatedData ad canonical)
      plaintext = some c.ciphertext) (hnonce : c.nonce = keys.nonce)
    (hverify : P.verifyCommitments c plaintext ad canonical keys = .ok ()) :
    openMessage P c ad canonical keys = .ok plaintext := by
  have hopen := hP.aeadDecrypt_encrypt _ _ _ _ _ hseal
  unfold openMessage
  rw [hnonce, hopen]
  simp [hverify, Bind.bind, Except.bind, Pure.pure, Except.pure]

namespace Party
variable {S : Schedule} {G : Ghost} {side : Bool} {ℓ rc : ℕ} {s s' : DmSession}

section
variable (hp : Party S G side ℓ rc s)
include hp

theorem encrypt_genuine (hS : S.prims.Sound) (hℓ : 1 ≤ ℓ) (hlen : ∀ j, G.len j ≤ u64Max)
    {c : DmCiphertext} {plaintext ad : Bytes} (henc : s.encrypt S.prims plaintext ad = .ok (c, s')) :
    Genuine S (G.send ℓ) ℓ (G.len ℓ) c plaintext ad := by
  obtain ⟨next, secret, canonical, keys, hkdf, hcanon, hkeys, hseal, hnonce, -, -, -, -, -, -, -,
    -, hhash, hverify, -⟩ := encrypt_inv henc
  have hprev : s.previousSendingChainLength ≤ u64Max := by
    rw [hp.previous, Ghost.previousLen]
    split_ifs
    · exact hlen _
    · exact Nat.zero_le _
  have hcount : s.sendCounter ≤ u64Max := by
    rw [hp.sendCounter]
    exact hlen ℓ
  have hlocal : s.deviceEpochLocal ≤ u64Max := by
    rw [hp.ident.epochLocal]
    exact Nat.zero_le _
  have hhdr := encrypt_header henc hcount hprev hlocal
  have hsecret : secret = S.secretAt G.key ℓ (G.len ℓ) := by
    rw [hp.sendingChain hℓ, hp.ident.epochRemote, hp.ident.directionContext_eq,
      hp.ident.sendDirectionTag_eq hp.owns, hp.dhsPublic, hp.sendCounter] at hkdf
    have := hkdf.symm.trans (S.kdfCk_chainAt G.key ℓ (G.len ℓ))
    exact (Prod.mk.inj (Except.ok.inj this)).2
  refine ⟨by simp [Ghost.send], ?_, ?_, ?_, ?_, ?_⟩
  · rw [hhdr]
    exact hp.sendCounter
  · rw [hhdr, nextHeader, hp.dhsPublic]
    rfl
  · rw [hhdr, Ghost.previousLen_send (by omega)]
    exact hp.previous
  · rw [hhdr, nextHeader]
    exact hp.ident.epochLocal
  · refine ⟨canonical, keys, DmCiphertext.checkedHeader_eq (hhdr ▸ hcanon) hhash, ?_,
      openMessage_eq hS hseal hnonce hverify⟩
    rw [hsecret, hp.ident.sessionId, hp.ident.sendDirectionTag_eq hp.owns, hp.sendCounter] at hkeys
    exact hkeys

theorem encrypt_party (hℓ : 1 ≤ ℓ) (hlt : G.len ℓ < u64Max) {c : DmCiphertext} {plaintext ad : Bytes}
    (henc : s.encrypt S.prims plaintext ad = .ok (c, s')) : Party S (G.send ℓ) side ℓ rc s' := by
  obtain ⟨next, secret, canonical, keys, hkdf, -, -, -, -, -, -, -, -, -, -, -, -, -, -, rfl⟩ :=
    encrypt_inv henc
  have hnext : next = S.chainAt G.key ℓ (G.len ℓ + 1) := by
    rw [hp.sendingChain hℓ, hp.ident.epochRemote, hp.ident.directionContext_eq,
      hp.ident.sendDirectionTag_eq hp.owns, hp.dhsPublic, hp.sendCounter] at hkdf
    have := hkdf.symm.trans (S.kdfCk_chainAt G.key ℓ (G.len ℓ))
    exact (Prod.mk.inj (Except.ok.inj this)).1
  have hpassed : ∀ j n, (G.send ℓ).Passed ℓ rc j n ↔ G.Passed ℓ rc j n :=
    Ghost.passed_congr (fun j hj => G.send_len_of_ne (by omega)) rc
  exact
    { ident := ⟨hp.ident.1, hp.ident.2, hp.ident.3, hp.ident.4, hp.ident.5, hp.ident.6⟩
      owns := hp.owns
      root := hp.root
      step := hp.step
      dhsPrivate := hp.dhsPrivate
      dhsPublic := hp.dhsPublic
      dhrPublic := hp.dhrPublic
      sendCounter := by
        rw [G.send_len_self, ← hp.sendCounter]
        exact satAdd_one_of_lt (hp.sendCounter ▸ hlt)
      sendingChain := fun _ => by
        rw [G.send_len_self]
        exact hnext
      previous := by
        rw [Ghost.previousLen_send (by omega)]
        exact hp.previous
      receiveCounter := hp.receiveCounter
      receivingChain := hp.receivingChain
      read_le := by
        rw [G.send_len_of_ne (by omega)]
        exact hp.read_le
      noKeys := hp.noKeys
      stored := fun j n h => hp.stored j n ((hpassed j n).mp h)
      storedOnly := fun id hid => by
        obtain ⟨j, n, h, hdel, heq⟩ := hp.storedOnly id hid
        exact ⟨j, n, (hpassed j n).mpr h, hdel, heq⟩
      deliveredOnly := fun j n hdel hj => (hpassed j n).mpr (hp.deliveredOnly j n hdel hj) }

/-- A party depends only on the history up to its level, and on what it has read of its chain. -/
theorem congr {G' : Ghost} (hkey : ∀ i ≤ ℓ, G'.key i = G.key i)
    (hlen : ∀ i ≤ ℓ, i + 1 ≠ ℓ → G'.len i = G.len i) (hread : G.len (ℓ - 1) ≤ G'.len (ℓ - 1))
    (hdel : ∀ j n, initiatorOwns j = !side → ((j, n) ∈ G'.delivered ↔ (j, n) ∈ G.delivered)) :
    Party S G' side ℓ rc s := by
  have hlow : ∀ j ≤ ℓ, ∀ i ≤ j, G'.key i = G.key i := fun j hj i hi => hkey i (hi.trans hj)
  have hpassed : ∀ j n, G'.Passed ℓ rc j n ↔ G.Passed ℓ rc j n :=
    Ghost.passed_congr (fun j hj => hlen j (by omega) (by omega)) rc
  have hpeer : ∀ {j n}, G.Passed ℓ rc j n → initiatorOwns j = !side ∧ j ≤ ℓ := by
    intro j n h
    exact ⟨hp.owns ▸ h.1, by rcases h.2 with h | h <;> omega⟩
  exact
    { ident := hp.ident
      owns := hp.owns
      root := by rw [S.rootChain_congr (hlow ℓ le_rfl), hp.root]
      step := hp.step
      dhsPrivate := by rw [hkey ℓ le_rfl, hp.dhsPrivate]
      dhsPublic := by rw [S.publicAt_congr (hlow ℓ le_rfl), hp.dhsPublic]
      dhrPublic := by rw [S.publicAt_congr (hlow (ℓ - 1) (by omega)), hp.dhrPublic]
      sendCounter := by rw [hlen ℓ le_rfl (by omega), hp.sendCounter]
      sendingChain := fun hℓ => by
        rw [S.chainAt_congr (hlow ℓ le_rfl), hlen ℓ le_rfl (by omega), hp.sendingChain hℓ]
      previous := by
        rw [hp.previous, Ghost.previousLen, Ghost.previousLen]
        split_ifs with h2
        · rw [hlen (ℓ - 2) (by omega) (by omega)]
        · rfl
      receiveCounter := hp.receiveCounter
      receivingChain := fun hℓ => by
        rw [S.chainAt_congr (hlow (ℓ - 1) (by omega)), hp.receivingChain hℓ]
      read_le := hp.read_le.trans hread
      noKeys := hp.noKeys
      stored := fun j n h hnew => by
        have h := (hpassed j n).mp h
        obtain ⟨hj, hle⟩ := hpeer h
        rw [S.publicAt_congr (hlow j hle), S.secretAt_congr (hlow j hle)]
        exact hp.stored j n h (fun hd => hnew ((hdel j n hj).mpr hd))
      storedOnly := fun id hid => by
        obtain ⟨j, n, h, hnew, heq⟩ := hp.storedOnly id hid
        obtain ⟨hj, hle⟩ := hpeer h
        refine ⟨j, n, (hpassed j n).mpr h, fun hd => hnew ((hdel j n hj).mp hd), ?_⟩
        rw [S.publicAt_congr (hlow j hle), heq]
      deliveredOnly := fun j n hd hj =>
        (hpassed j n).mpr (hp.deliveredOnly j n ((hdel j n hj).mp hd) hj) }

end

end Party
end Ramflux
