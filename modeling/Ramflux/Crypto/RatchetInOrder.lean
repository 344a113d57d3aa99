import Ramflux.Crypto.RatchetPair
import Mathlib.Data.Nat.Digits.Defs

/-! How a pair of sessions starts, and its plainest conversation: each message is read before the next
one is sent. -/
namespace Ramflux
open Schedule DmSession

/-- Two sessions set up for each other: one root seed, mirrored device hashes, one transcript hash,
and the recipient's published ratchet key at the initiator. -/
structure PairSetup (P : Primitives) where
  rootSeed : Key32
  initiatorHash : Key32
  recipientHash : Key32
  transcriptHash : Key32
  initiatorSeed : Key32
  recipientSeed : Key32
  initiator : DmSession
  recipient : DmSession
  initiator_eq : initiatorWithRemoteRatchet P rootSeed initiatorHash recipientHash
    transcriptHash (P.keyPairFromSeed initiatorSeed) (P.x25519Public recipientSeed) = .ok initiator
  recipient_eq : recipientWithLocalRatchet P rootSeed recipientHash initiatorHash
    transcriptHash (P.keyPairFromSeed recipientSeed) = .ok recipient
  keys_ne : P.x25519Public recipientSeed ≠ P.x25519Public initiatorSeed
  recipient_ne_zero : P.x25519Public recipientSeed ≠ zeroKey
  initiator_ne_zero : P.x25519Public initiatorSeed ≠ zeroKey

namespace PairSetup
variable {P : Primitives} (A : PairSetup P)

def start : PairState :=
  .start A.initiator A.recipient [P.x25519Public A.recipientSeed, P.x25519Public A.initiatorSeed]

def schedule : Schedule where
  prims := P
  sessionId := P.ratchetSessionId A.initiatorHash A.recipientHash A.transcriptHash
  initiatorHash := A.initiatorHash
  recipientHash := A.recipientHash
  rootSeed := A.rootSeed

def ghost : Ghost where
  key j := if j = 0 then A.recipientSeed else A.initiatorSeed
  len _ := 0
  delivered := ∅

theorem not_passed_start (ℓ j n : ℕ) : ¬ A.ghost.Passed ℓ 0 j n := by
  rintro ⟨-, ⟨-, h⟩ | ⟨-, h⟩⟩ <;> exact Nat.not_lt_zero _ h

theorem initiator_party : Party A.schedule A.ghost true 1 0 A.initiator := by
  have h := A.initiator_eq
  unfold initiatorWithRemoteRatchet at h
  simp only [Primitives.deriveInitialChains, Primitives.deriveRootAndChain_eq, Bind.bind, Except.bind,
    Pure.pure, Except.pure, Except.ok.injEq] at h
  rw [← h]
  exact
    { ident := ⟨rfl, rfl, rfl, rfl, rfl, rfl⟩
      owns := rfl
      root := rfl
      step := rfl
      dhsPrivate := rfl
      dhsPublic := rfl
      dhrPublic := rfl
      sendCounter := rfl
      sendingChain := fun _ => rfl
      previous := rfl
      receiveCounter := rfl
      receivingChain := fun h => absurd h (by decide)
      read_le := le_rfl
      noKeys := rfl
      stored := fun j n h => absurd h (A.not_passed_start 1 j n)
      storedOnly := fun id hid => absurd hid Std.ExtTreeMap.not_mem_empty
      deliveredOnly := fun j n hd => absurd hd (Set.notMem_empty _) }

theorem recipient_party : Party A.schedule A.ghost false 0 0 A.recipient := by
  have h := A.recipient_eq
  unfold recipientWithLocalRatchet at h
  simp only [Primitives.deriveInitialChains, Primitives.deriveRootAndChain_eq, Bind.bind, Except.bind,
    Pure.pure, Except.pure, Except.ok.injEq] at h
  rw [← h]
  exact
    { ident := ⟨rfl, rfl, rfl, rfl, rfl, rfl⟩
      owns := rfl
      root := rfl
      step := rfl
      dhsPrivate := rfl
      dhsPublic := rfl
      dhrPublic := rfl
      sendCounter := rfl
      sendingChain := fun h => absurd h (by decide)
      previous := rfl
      receiveCounter := rfl
      receivingChain := fun h => absurd h (by decide)
      read_le := le_rfl
      noKeys := rfl
      stored := fun j n h => absurd h (A.not_passed_start 0 j n)
      storedOnly := fun id hid => absurd hid Std.ExtTreeMap.not_mem_empty
      deliveredOnly := fun j n hd => absurd hd (Set.notMem_empty _) }

theorem start_inv : PairInv A.schedule A.start A.ghost (fun side => if side then 1 else 0)
    (fun _ => 0) (fun _ => (0, 0)) := by
  have hpub : ∀ i, A.schedule.publicAt A.ghost.key i =
      if i = 0 then P.x25519Public A.recipientSeed else P.x25519Public A.initiatorSeed := by
    intro i
    simp only [publicAt, ghost]
    split_ifs <;> rfl
  have hle : ∀ (side : Bool) (i : ℕ), i ≤ (if side then 1 else 0) → i ≤ 1 := by
    intro side i hi
    split_ifs at hi <;> omega
  refine ⟨?_, ?_, ?_, ?_, ?_, rfl, fun _ => Nat.zero_le _, fun _ _ => rfl, ?_, ?_, ?_, ?_⟩
  · intro side
    cases side with
    | true => exact A.initiator_party
    | false => exact A.recipient_party
  · intro side
    cases side <;> simp
  · intro side i hi j hj heq
    rw [hpub i, hpub j] at heq
    have hi1 := hle side i hi
    have hj1 := hle side j hj
    split_ifs at heq with hi0 hj0 hj0
    · omega
    · exact absurd heq A.keys_ne
    · exact absurd heq.symm A.keys_ne
    · omega
  · intro side i hi
    rw [hpub i]
    split_ifs
    · exact A.recipient_ne_zero
    · exact A.initiator_ne_zero
  · intro side i hi
    rw [hpub i]
    split_ifs <;> simp [start, PairState.start]
  · intro k m hm
    simp [start, PairState.start] at hm
  · intro k hk
    simp [start, PairState.start] at hk
  · intro k hk
    simp [start, PairState.start] at hk
  · intro hheard
    simp [start, PairState.start] at hheard

/-- The initiator has sent `sent` messages, and the recipient has read the first `read` in order. -/
structure InOrder (sent read : ℕ) (st : PairState) (G : Ghost) (lvl rc : Bool → ℕ)
    (slot : ℕ → ℕ × ℕ) : Prop where
  inv : PairInv A.schedule st G lvl rc slot
  initiatorLevel : lvl true = 1
  recipientLevel : lvl false = if read = 0 then 0 else 2
  len : G.len 1 = sent
  receiveCounter : rc false = read
  publics : read = 0 → st.publics = A.start.publics

theorem start_inOrder : A.InOrder 0 0 A.start A.ghost (fun side => if side then 1 else 0)
    (fun _ => 0) (fun _ => (0, 0)) :=
  ⟨A.start_inv, rfl, rfl, rfl, rfl, fun _ => rfl⟩

theorem length_sessionId_le : A.schedule.sessionId.length ≤ 64 := by
  have hchars := length_base64Chars_le (P.blake3_256 Domain.dmRatchetRoot
    (utf8 Domain.dmRatchetRoot ++ A.initiatorHash.toList ++ A.recipientHash.toList ++
      A.transcriptHash.toList)).toList
  rw [Vector.length_toList] at hchars
  rw [schedule, Primitives.ratchetSessionId, encodeBase64url, String.length_ofList]
  omega

variable {A} {n k : ℕ} {st : PairState} {G : Ghost} {lvl rc : Bool → ℕ} {slot : ℕ → ℕ × ℕ}

theorem InOrder.sendCounter (h : A.InOrder n k st G lvl rc slot) :
    (st.party true).sendCounter = n := by
  rw [(h.inv.party true).sendCounter, h.initiatorLevel, h.len]

theorem InOrder.encrypt_isOk (h : A.InOrder n k st G lvl rc slot) (hn : n ≤ u64Max)
    (hseal : ∀ key nonce aad msg, (P.aeadEncrypt key nonce aad msg).isSome) (plaintext ad : Bytes) :
    ∃ c s, (st.party true).encrypt P plaintext ad = .ok (c, s) := by
  have hsession : (st.party true).sessionId = A.schedule.sessionId :=
    (h.inv.party true).ident.sessionId
  have hdigits : (toString n).length ≤ 20 :=
    Nat.repr_length n 20 (by decide) (lt_of_le_of_lt hn (by decide))
  have hsize := A.length_sessionId_le
  have hid : (utf8 (st.party true).nextHeader.ratchetSessionId).length ≤ u32Max := by
    refine (length_utf8_le _).trans ?_
    rw [nextHeader, hsession]
    simp only [u32Max]
    omega
  have hevent : (utf8 (st.party true).nextHeader.messageEventId).length ≤ u32Max := by
    refine (length_utf8_le _).trans ?_
    rw [nextHeader, hsession, h.sendCounter, String.length_append, String.length_append]
    have hcolon : ":".length = 1 := rfl
    simp only [u32Max]
    omega
  obtain ⟨canonical, hok⟩ := DmHeader.canonicalHeaderBytes_isOk _ hid hevent
  exact DmSession.encrypt_isOk hseal hok plaintext ad

variable {plaintext ad : Bytes} {c : DmCiphertext} {s : DmSession} {seed : Key32}

theorem InOrder.send (h : A.InOrder n k st G lvl rc slot) (hP : P.Sound) (hn : n < u64Max)
    (henc : (st.party true).encrypt P plaintext ad = .ok (c, s)) :
    A.InOrder (n + 1) k (st.send true s ⟨true, c, plaintext, ad⟩) (G.send 1) lvl rc
      (Function.update slot st.sent.length (1, n)) := by
  have hinv := h.inv.send hP (.inl rfl) (h.sendCounter ▸ hn) henc
  rw [h.initiatorLevel, h.len] at hinv
  refine ⟨hinv, h.initiatorLevel, h.recipientLevel, ?_, h.receiveCounter, h.publics⟩
  rw [G.send_len_self, h.len]

theorem withinLimits_of_no_gap {header : DmHeader} (hpn : s.pnGap header = 0)
    (hn : s.counterGap header = 0) : s.WithinLimits header :=
  ⟨by omega, by omega, fun i hi => by omega⟩

theorem InOrder.deliver (h : A.InOrder n k st G lvl rc slot) (hP : P.Sound) {index : ℕ} {m : Sent}
    (hm : st.sent[index]? = some m) (hslot : slot index = (1, k))
    (hunused : P.x25519Public seed ∉ A.start.publics) (hnonzero : P.x25519Public seed ≠ zeroKey) :
    m.fromInitiator = true ∧ (st.party false).Admits P st.publics seed m.ciphertext.header ∧
      ∃ s G' lvl' rc', (st.party false).decrypt P (.ok seed) m.ciphertext m.ad =
          (.ok m.plaintext, s) ∧
        A.InOrder n (k + 1) (st.receive index m true s) G' lvl' rc' slot := by
  obtain ⟨hg, hown, -, -⟩ := h.inv.sent _ _ hm
  rw [hslot] at hg hown
  have hfrom : m.fromInitiator = true := hown.symm
  refine ⟨hfrom, ?_⟩
  have hp := h.inv.party false
  rw [h.receiveCounter, h.recipientLevel] at hp
  by_cases hk : k = 0
  · -- The first message makes the recipient answer with a key of its own.
    subst hk
    have hkeys := h.inv.keys true
    have hpubNonzero := h.inv.nonzero true
    have hused := h.inv.publics true
    rw [h.initiatorLevel] at hkeys hpubNonzero hused
    rw [← h.publics rfl] at hunused
    have hlevel : lvl (!m.fromInitiator) = 0 := by
      rw [hfrom]
      exact h.recipientLevel
    have hfuture : G.len 2 = 0 := h.inv.len_future 2 fun side => by
      cases side
      · rw [h.recipientLevel, if_pos rfl]
        decide
      · rw [h.initiatorLevel]
        decide
    have hlimits : (st.party false).WithinLimits m.ciphertext.header := by
      have hpn : m.ciphertext.header.pn = 0 := by
        rw [hg.header_pn, Ghost.previousLen, if_neg (by omega)]
      have hn : m.ciphertext.header.n = 0 := hg.header_n
      refine withinLimits_of_no_gap ?_ ?_
      · rw [pnGap, hpn, Nat.zero_sub, ite_self]
      · rw [counterGap, hn, Nat.zero_sub, ite_self]
    obtain ⟨s, hdec, hs⟩ := hp.decrypt_next hP h.inv.len_zero h.inv.len_le hkeys
      (hpubNonzero 1 le_rfl) hfuture hg hlimits fun i hi heq => hunused (heq ▸ hused i hi)
    have hinv := h.inv.receive_next hm hlevel (by rw [hslot]) (by rw [hslot, hfrom]; exact hs)
      hunused hnonzero
    refine ⟨fun _ => ⟨hlimits, fun _ => ⟨hunused, hnonzero⟩⟩, s, _, _, _, hdec, hinv, ?_, ?_, ?_, ?_, ?_⟩
    · rw [hfrom, Function.update_of_ne (by decide), h.initiatorLevel]
    · rw [hfrom]
      exact Function.update_self _ _ _
    · exact h.len
    · rw [hfrom]
      exact Function.update_self _ _ _
    · intro hne
      exact absurd hne (Nat.succ_ne_zero _)
  · rw [if_neg hk] at hp
    have hkeys := h.inv.keys false
    rw [h.recipientLevel, if_neg hk] at hkeys
    have hsame : ¬ (st.party false).NeedsRatchet m.ciphertext.header := by
      rintro ⟨-, hne⟩
      rw [hp.dhrPublic, if_neg (by decide), hg.header_public] at hne
      exact hne rfl
    have hlimits : (st.party false).WithinLimits m.ciphertext.header := by
      refine withinLimits_of_no_gap (if_neg hsame) ?_
      rw [counterGap, if_neg hsame, hg.header_n, hp.receiveCounter, Nat.sub_self]
    obtain ⟨s, hdec, hs, hpub⟩ := hp.decrypt_current h.inv.len_zero h.inv.len_le hkeys hg rfl le_rfl
      hlimits (.ok seed)
    have hlevel : lvl (!m.fromInitiator) = 2 := by
      rw [hfrom]
      exact h.recipientLevel.trans (if_neg hk)
    have hinv := h.inv.receive_same hm (by rw [hslot, hlevel, hfrom]; exact hs) (by omega)
      (by rw [hfrom]; exact hpub)
    refine ⟨fun _ => ⟨hlimits, fun hneeds => absurd hneeds hsame⟩, s, _, _, _, hdec, hinv,
      h.initiatorLevel, ?_, h.len, ?_, ?_⟩
    · rw [h.recipientLevel, if_neg hk, if_neg (Nat.succ_ne_zero _)]
    · rw [hfrom]
      exact Function.update_self _ _ _
    · intro hne
      exact absurd hne (Nat.succ_ne_zero _)

theorem InOrder.round (h : A.InOrder n n st G lvl rc slot) (hP : P.Sound) (hn : n < u64Max)
    (hseal : ∀ key nonce aad msg, (P.aeadEncrypt key nonce aad msg).isSome)
    (hunused : P.x25519Public seed ∉ A.start.publics) (hnonzero : P.x25519Public seed ≠ zeroKey)
    (plaintext ad : Bytes) :
    ∃ st' G' lvl' rc' slot', Run (BoundedStep P) st [.encrypt true plaintext ad,
        .deliver st.sent.length seed (.ok plaintext)] st' ∧
      A.InOrder (n + 1) (n + 1) st' G' lvl' rc' slot' := by
  obtain ⟨c, s, henc⟩ := h.encrypt_isOk hn.le hseal plaintext ad
  have hsend := h.send hP hn henc
  have hfirst := BoundedStep.encrypt (.inl rfl) (h.sendCounter.trans_lt hn) henc
  have hm : (st.send true s ⟨true, c, plaintext, ad⟩).sent[st.sent.length]? =
      some ⟨true, c, plaintext, ad⟩ := by
    rw [PairState.send, List.getElem?_append_right le_rfl, Nat.sub_self]
    rfl
  have hnew : st.sent.length ∉ (st.send true s ⟨true, c, plaintext, ad⟩).delivered :=
    fun hmem => lt_irrefl _ (h.inv.delivered_lt _ hmem)
  obtain ⟨-, hadmits, t, G', lvl', rc', hdec, hnext⟩ :=
    hsend.deliver hP hm (Function.update_self _ _ _) hunused hnonzero
  exact ⟨_, G', lvl', rc', _, (Run.single hfirst).snoc (.deliver hm hnew hadmits hdec), hnext⟩

/-- Any number of messages below the counter limit can be sent and read in order. -/
theorem exists_inOrder (A : PairSetup P) (hP : P.Sound)
    (hseal : ∀ key nonce aad msg, (P.aeadEncrypt key nonce aad msg).isSome)
    (hunused : P.x25519Public seed ∉ A.start.publics) (hnonzero : P.x25519Public seed ≠ zeroKey)
    (hn : n ≤ u64Max) : ∃ events st G lvl rc slot, Run (BoundedStep P) A.start events st ∧
      A.InOrder n n st G lvl rc slot := by
  induction n with
  | zero => exact ⟨_, _, _, _, _, _, .nil, A.start_inOrder⟩
  | succ n ih =>
    obtain ⟨events, st, G, lvl, rc, slot, hrun, h⟩ := ih (by omega)
    obtain ⟨st', G', lvl', rc', slot', hround, h'⟩ := h.round hP hn hseal hunused hnonzero [] []
    exact ⟨_, st', G', lvl', rc', slot', hrun.append hround, h'⟩

theorem decrypt_refused {random : Except CryptoError Key32}
    {canonical : Bytes} {next secret : Key32} {keys : MessageKeys} {e : CryptoError}
    (hhdr : c.checkedHeader P = .ok canonical)
    (hsecs : s.skippedMessageSecrets[skippedKeyId c.header.dhRatchetPublic c.header.n]? = none)
    (hstore : s.skippedMessageKeys[skippedKeyId c.header.dhRatchetPublic c.header.n]? = none)
    (hsame : ¬ s.NeedsRatchet c.header) (hn : c.header.n = s.receiveCounter)
    (hkdf : P.kdfCk s.receivingChainKey (s.directionContext s.recvDirectionTag
      c.header.dhRatchetPublic c.header.n c.header.deviceEpoch) = .ok (next, secret))
    (hkeys : P.deriveMessageKeys secret (P.messageContext s.sessionId s.recvDirectionTag c.header.n
      canonical ad) = .ok keys) (hopen : openMessage P c ad canonical keys = .error e) :
    s.decrypt P random c ad = (.error e, s) := by
  have hratchet : s.ratchetForHeader P random c.header = (.ok (), s) := if_neg hsame
  have hskip : s.skipMessageKeys P c.header.n = (.ok (), s) := by
    rw [skipMessageKeys, hn, if_neg (lt_irrefl _), Nat.sub_self]
    exact if_neg (Nat.not_lt_zero _)
  have hmsg : s.chainMessageKeys P random c.header canonical ad = (.ok keys, s) := by
    unfold chainMessageKeys
    rw [hratchet]
    dsimp only
    rw [if_neg (by omega), hskip]
    dsimp only
    rw [hkdf]
    simp only [Bind.bind, Except.bind, hkeys]
  have hchain : s.decryptOnChain P random c ad canonical = (.error e, s) := by
    unfold decryptOnChain
    rw [hmsg]
    simp only [hopen, Bind.bind, Except.bind]
  unfold decrypt decryptWithFrankingKeys
  simp only [hhdr, hsecs, hstore, hchain]
  rfl

/-- The counter stays at its limit while the chain key moves on. -/
theorem InOrder.encrypt_overrun (h : A.InOrder u64Max k st G lvl rc slot)
    (henc : (st.party true).encrypt P plaintext ad = .ok (c, s)) :
    ∃ ck, A.schedule.chainAt G.key 1 (u64Max + 1) = ck ∧
      s = { st.party true with sendingChainKey := ck } := by
  obtain ⟨next, secret, canonical, keys, hkdf, -, -, -, -, -, -, -, -, -, -, -, -, -, -, rfl⟩ :=
    encrypt_inv henc
  have hp := h.inv.party true
  rw [h.initiatorLevel] at hp
  have hnext : next = A.schedule.chainAt G.key 1 (u64Max + 1) := by
    rw [hp.sendingChain le_rfl, hp.ident.epochRemote, hp.ident.directionContext_eq,
      hp.ident.sendDirectionTag_eq hp.owns, hp.dhsPublic, h.sendCounter, h.len] at hkdf
    have := hkdf.symm.trans (A.schedule.kdfCk_chainAt G.key 1 u64Max)
    exact (Prod.mk.inj (Except.ok.inj this)).1
  have hctr : satAdd (st.party true).sendCounter 1 = (st.party true).sendCounter := by
    rw [h.sendCounter]
    rfl
  exact ⟨next, hnext.symm, by rw [hctr]⟩

theorem InOrder.exists_overrun (h : A.InOrder u64Max k st G lvl rc slot)
    (hseal : ∀ key nonce aad msg, (P.aeadEncrypt key nonce aad msg).isSome)
    (plaintext ad plaintext' ad' : Bytes) :
    ∃ c s c' s', (st.party true).encrypt P plaintext ad = .ok (c, s) ∧
      s.encrypt P plaintext' ad' = .ok (c', s') := by
  obtain ⟨c, s, henc⟩ := h.encrypt_isOk le_rfl hseal plaintext ad
  obtain ⟨_, _, canonical, _, -, hcanon, -⟩ := encrypt_inv henc
  have hhdr : s.nextHeader.canonicalHeaderBytes = .ok canonical := by
    obtain ⟨ck, -, rfl⟩ := h.encrypt_overrun henc
    exact hcanon
  obtain ⟨c', s', henc'⟩ := DmSession.encrypt_isOk hseal hhdr plaintext' ad'
  exact ⟨c, s, c', s', henc, henc'⟩

/-- Two more messages carry one counter. A recipient that gets the second first tries the secret of the
other. -/
theorem InOrder.overrun_refused (h : A.InOrder u64Max u64Max st G lvl rc slot) {s' : DmSession}
    {c' : DmCiphertext} {plaintext' ad' : Bytes}
    (henc : (st.party true).encrypt P plaintext ad = .ok (c, s))
    (henc' : s.encrypt P plaintext' ad' = .ok (c', s'))
    (hwrong : ∀ canonical keys keys' nonce aad msg sealed,
      P.deriveMessageKeys (A.schedule.secretAt G.key 1 u64Max) (P.messageContext A.schedule.sessionId
        (directionAt 1) u64Max canonical ad') = .ok keys →
      P.deriveMessageKeys (P.chainStep (A.schedule.chainAt G.key 1 (u64Max + 1))
        (A.schedule.contextAt G.key 1 u64Max)).2 (P.messageContext A.schedule.sessionId
        (directionAt 1) u64Max canonical ad') = .ok keys' →
      P.aeadEncrypt keys'.aeadKey nonce aad msg = some sealed →
      P.aeadDecrypt keys.aeadKey nonce aad sealed = none) (random : Except CryptoError Key32) :
    ¬ (st.party false).NeedsRatchet c'.header ∧ (st.party false).WithinLimits c'.header ∧
      (st.party false).decrypt P random c' ad' = (.error .aeadFailed, st.party false) := by
  have hp := h.inv.party true
  have hq := h.inv.party false
  rw [h.initiatorLevel] at hp
  rw [h.recipientLevel, h.receiveCounter, if_neg (by decide)] at hq
  obtain ⟨ck, hck, rfl⟩ := h.encrypt_overrun henc
  rw [hck] at hwrong
  obtain ⟨next, secret, canonical, keys', hkdf, hcanon, hkeys', hseal, hnonce, -, -, -, -, -, -, -,
    -, hhash, -, -⟩ := encrypt_inv henc'
  have hhdr : c'.header = (st.party true).nextHeader := by
    have hprev : (st.party true).previousSendingChainLength = 0 := hp.previous
    have hlocal := hp.ident.epochLocal
    have := encrypt_header henc' h.sendCounter.le (hprev.trans_le (Nat.zero_le _))
      (hlocal.trans_le (Nat.zero_le _))
    exact this
  have hn : c'.header.n = u64Max := by
    rw [hhdr]
    exact h.sendCounter
  have hpublic : c'.header.dhRatchetPublic = A.schedule.publicAt G.key 1 := by
    rw [hhdr, nextHeader, hp.dhsPublic]
    rfl
  have hepoch : c'.header.deviceEpoch = 0 := by
    rw [hhdr]
    exact hp.ident.epochLocal
  have hsame : ¬ (st.party false).NeedsRatchet c'.header := by
    rintro ⟨-, hne⟩
    rw [hq.dhrPublic, if_neg (by decide), hpublic] at hne
    exact hne rfl
  have hlimits : (st.party false).WithinLimits c'.header := by
    refine withinLimits_of_no_gap (if_neg hsame) ?_
    rw [counterGap, if_neg hsame, hn, hq.receiveCounter, Nat.sub_self]
  refine ⟨hsame, hlimits, ?_⟩
  have hkeys := h.inv.keys false
  rw [h.recipientLevel, if_neg (by decide)] at hkeys
  obtain ⟨hsecs, hstore⟩ := hq.notMem_stores le_rfl hkeys (show 1 ≤ 2 by decide)
    (G.not_passed_next 2 u64Max)
  rw [← hpublic, ← hn] at hsecs hstore
  have hsecret : secret = (P.chainStep ck (A.schedule.contextAt G.key 1 u64Max)).2 := by
    change P.kdfCk ck ((st.party true).directionContext (st.party true).sendDirectionTag
      ((st.party true).dhsPublic.getD zeroKey) (st.party true).sendCounter
      (st.party true).deviceEpochRemote) = _ at hkdf
    rw [hp.ident.epochRemote, hp.ident.directionContext_eq, hp.ident.sendDirectionTag_eq hp.owns,
      hp.dhsPublic, h.sendCounter] at hkdf
    have := hkdf.symm.trans (P.kdfCk_eq ck (A.schedule.contextAt G.key 1 u64Max))
    exact congrArg Prod.snd (Except.ok.inj this)
  change P.deriveMessageKeys secret (P.messageContext (st.party true).sessionId
    (st.party true).sendDirectionTag (st.party true).sendCounter canonical ad') = _ at hkeys'
  rw [hsecret, hp.ident.sessionId, hp.ident.sendDirectionTag_eq hp.owns, h.sendCounter] at hkeys'
  obtain ⟨keys, hderive⟩ := P.deriveMessageKeys_isOk (A.schedule.secretAt G.key 1 u64Max)
    (P.messageContext A.schedule.sessionId (directionAt 1) u64Max canonical ad')
  have htag : (st.party false).recvDirectionTag = directionAt 1 := hq.ident.recvDirectionTag_eq rfl
  have hchain : P.kdfCk (st.party false).receivingChainKey ((st.party false).directionContext
      (st.party false).recvDirectionTag c'.header.dhRatchetPublic c'.header.n c'.header.deviceEpoch) =
      .ok (ck, A.schedule.secretAt G.key 1 u64Max) := by
    rw [hq.receivingChain le_rfl, hpublic, hn, hepoch, hq.ident.directionContext_eq, htag, ← hck]
    exact A.schedule.kdfCk_chainAt G.key 1 u64Max
  have hcontext : P.messageContext (st.party false).sessionId (st.party false).recvDirectionTag
      c'.header.n canonical ad' = P.messageContext A.schedule.sessionId (directionAt 1)
        u64Max canonical ad' := by
    rw [hq.ident.sessionId, htag, hn]
  have hopen : openMessage P c' ad' canonical keys = .error .aeadFailed := by
    unfold openMessage
    rw [hnonce, hwrong _ _ _ _ _ _ _ hderive hkeys' hseal]
  exact decrypt_refused (DmCiphertext.checkedHeader_eq (hhdr ▸ hcanon) hhash) hsecs hstore
    hsame (hn.trans hq.receiveCounter.symm) hchain (hcontext ▸ hderive) hopen

end PairSetup
end Ramflux
