import Ramflux.Crypto.RatchetParty

/-! Receiving on the key schedule: skipping, ratcheting, and opening from the store or the chain. -/
namespace Ramflux
open Schedule Std.ExtTreeMap DmSession
variable {seed : Key32} {t : DmSession} {canonical : Bytes} {random : Except CryptoError Key32}

namespace Party
variable {S : Schedule} {G : Ghost} {side : Bool} {ℓ rc : ℕ} {s s' : DmSession}

theorem evict_of_lt {s : DmSession} (h : s.storedCount < s.maxSkip) : s.evict = s := by
  rw [evict]
  cases s.skippedOrder.length + s.storedCount with
  | zero => rfl
  | succ fuel => rw [evictLoop, if_neg (by omega)]

section
variable (hp : Party S G side ℓ rc s)
include hp

theorem owns_below (hℓ : 1 ≤ ℓ) : initiatorOwns (ℓ - 1) = !side := by
  have hsucc := initiatorOwns_succ (ℓ - 1)
  rw [Nat.sub_add_cancel hℓ, hp.owns] at hsucc
  rw [hsucc, Bool.not_not]

theorem passed_succ (hpeer : initiatorOwns (ℓ - 1) = !side) (hℓ : 1 ≤ ℓ)
    (m j n : ℕ) : G.Passed ℓ (m + 1) j n ↔ G.Passed ℓ m j n ∨ (j, n) = (ℓ - 1, m) := by
  rw [Prod.mk.injEq]
  constructor
  · rintro ⟨ho, h | ⟨hj, hn⟩⟩
    · exact .inl ⟨ho, .inl h⟩
    · by_cases hnm : n < m
      · exact .inl ⟨ho, .inr ⟨hj, hnm⟩⟩
      · exact .inr ⟨by omega, by omega⟩
  · rintro (⟨ho, h⟩ | ⟨rfl, rfl⟩)
    · exact ⟨ho, h.imp_right fun h => ⟨h.1, by omega⟩⟩
    · exact ⟨by rw [hpeer, hp.owns], .inr ⟨by omega, by omega⟩⟩

theorem skip_one (hlt : rc < G.len (ℓ - 1)) (hzero : G.len 0 = 0)
    (hlen : ∀ j, G.len j ≤ u64Max) (hkeys : KeysDistinct S G ℓ) (hroom : s.storedCount < s.maxSkip)
    (rounds : ℕ) : ∃ s', skipLoop S.prims (S.publicAt G.key (ℓ - 1)) (rounds + 1) s =
        skipLoop S.prims (S.publicAt G.key (ℓ - 1)) rounds s' ∧
      Party S G side ℓ (rc + 1) s' ∧ s'.storedCount ≤ s.storedCount + 1 ∧ s'.maxSkip = s.maxSkip := by
  have hℓ : 2 ≤ ℓ := by
    by_contra h
    have h0 : ℓ - 1 = 0 := by omega
    rw [h0, hzero] at hlt
    omega
  have hpeer := hp.owns_below (by omega)
  have hcontext : s.directionContext s.recvDirectionTag (S.publicAt G.key (ℓ - 1)) rc
      s.deviceEpochRemote = S.contextAt G.key (ℓ - 1) rc := by
    rw [hp.ident.epochRemote, hp.ident.directionContext_eq, hp.ident.recvDirectionTag_eq hpeer]
    rfl
  have hkdf := S.kdfCk_chainAt G.key (ℓ - 1) rc
  have hctr : satAdd rc 1 = rc + 1 := satAdd_one_of_lt (lt_of_lt_of_le hlt (hlen _))
  let id := skippedKeyId (S.publicAt G.key (ℓ - 1)) rc
  have hnew := G.not_passed_next ℓ rc
  have hgrow := hp.passed_succ hpeer (by omega) rc
  refine ⟨{ s with
    skippedOrder := s.skippedOrder ++ [id]
    skippedMessageSecrets := s.skippedMessageSecrets.insert id (S.secretAt G.key (ℓ - 1) rc)
    receivingChainKey := S.chainAt G.key (ℓ - 1) (rc + 1)
    receiveCounter := rc + 1 }, ?_, ?_, ?_, rfl⟩
  · rw [skipLoop]
    simp only [evict_of_lt hroom, hcontext, hp.receivingChain hℓ, hkdf,
      S.prims.advanceChainKey_eq hkdf, hctr, hp.receiveCounter, id]
  · exact
      { hp with
        ident := ⟨hp.ident.1, hp.ident.2, hp.ident.3, hp.ident.4, hp.ident.5, hp.ident.6⟩
        receiveCounter := rfl
        receivingChain := fun _ => rfl
        read_le := hlt
        stored := fun j n h hnd => by
          rcases (hgrow j n).mp h with h | h
          · have hne : id ≠ skippedKeyId (S.publicAt G.key j) n := by
              intro heq
              obtain ⟨hpub, rfl⟩ := skippedKeyId_inj heq
              have hj : j ≤ ℓ := by rcases h.2 with h | h <;> omega
              obtain rfl := hkeys _ (by omega) _ hj hpub
              exact hnew h
            rw [OrdMap.getElem?_insert_of_ne _ _ hne]
            exact hp.stored j n h hnd
          · cases h
            rw [OrdMap.getElem?_insert_eq, if_pos rfl]
        storedOnly := fun k hk => by
          rcases mem_insert.mp hk with hk | hk
          · refine ⟨ℓ - 1, rc, (hgrow _ _).mpr (.inr rfl), ?_, (Std.LawfulEqCmp.eq_of_compare hk).symm⟩
            exact fun hd => hnew (hp.deliveredOnly _ _ hd hpeer)
          · obtain ⟨j, n, h, hnd, heq⟩ := hp.storedOnly k hk
            exact ⟨j, n, (hgrow j n).mpr (.inl h), hnd, heq⟩
        deliveredOnly := fun j n hd hj => (hgrow j n).mpr (.inl (hp.deliveredOnly j n hd hj)) }
  · have hsize : (s.skippedMessageSecrets.insert id (S.secretAt G.key (ℓ - 1) rc)).size ≤
        s.skippedMessageSecrets.size + 1 := size_insert_le
    simp only [storedCount]
    omega

end

theorem skip_rounds (hzero : G.len 0 = 0) (hlen : ∀ j, G.len j ≤ u64Max) (hkeys : KeysDistinct S G ℓ)
    (rounds : ℕ) {rc : ℕ} {s : DmSession} (hp : Party S G side ℓ rc s)
    (hle : rc + rounds ≤ G.len (ℓ - 1)) (hroom : ∀ i < rounds, s.storedCount + i < s.maxSkip) :
    ∃ s', skipLoop S.prims (S.publicAt G.key (ℓ - 1)) rounds s = (.ok (), s') ∧
      Party S G side ℓ (rc + rounds) s' ∧ s'.storedCount ≤ s.storedCount + rounds ∧
      s'.maxSkip = s.maxSkip := by
  induction rounds generalizing rc s with
  | zero => exact ⟨s, rfl, hp, le_rfl, rfl⟩
  | succ rounds ih =>
    obtain ⟨t, hloop, ht, hcount, hmax⟩ := hp.skip_one (by omega) hzero hlen hkeys
      (by simpa using hroom 0 (by omega)) rounds
    obtain ⟨s', hrest, hs', hcount', hmax'⟩ := ih ht (by omega) (fun i hi => by
      have := hroom (i + 1) (by omega)
      omega)
    refine ⟨s', by rw [hloop, hrest], ?_, by omega, by rw [hmax', hmax]⟩
    rwa [Nat.add_right_comm, Nat.add_assoc] at hs'

/-- Skipping ahead within the limits, without eviction, leaves the party on its level. -/
theorem skip (hp : Party S G side ℓ rc s) (hzero : G.len 0 = 0) (hlen : ∀ j, G.len j ≤ u64Max)
    (hkeys : KeysDistinct S G ℓ) {untilCounter : ℕ} (hle : rc ≤ untilCounter)
    (huntil : untilCounter ≤ G.len (ℓ - 1)) (hgap : untilCounter - rc ≤ s.maxSkip)
    (hroom : ∀ i < untilCounter - rc, s.storedCount + i < s.maxSkip) :
    ∃ s', s.skipMessageKeys S.prims untilCounter = (.ok (), s') ∧
      Party S G side ℓ untilCounter s' ∧ s'.storedCount ≤ s.storedCount + (untilCounter - rc) ∧
      s'.maxSkip = s.maxSkip := by
  rw [skipMessageKeys, hp.receiveCounter, if_neg (by omega)]
  rw [if_neg (by omega)]
  obtain ⟨s', hloop, hs', hcount, hmax⟩ := skip_rounds hzero hlen hkeys (untilCounter - rc) hp
    (by omega) hroom
  rw [Nat.add_sub_cancel' hle] at hs'
  refine ⟨s', ?_, hs', hcount, hmax⟩
  by_cases h0 : ℓ = 0
  · -- A recipient that has heard nothing has no chain to skip on.
    have hrounds : untilCounter - rc = 0 := by
      subst h0
      rw [hzero] at huntil
      omega
    rw [hrounds] at hloop ⊢
    exact hloop
  · rw [hp.dhrPublic, if_neg h0]
    exact hloop

theorem satAdd_min_one (j : ℕ) : satAdd (min j u64Max) 1 = min (j + 1) u64Max := by
  simp only [satAdd]
  omega

variable {header : DmHeader} {j n : ℕ} {c : DmCiphertext} {plaintext ad : Bytes}

theorem ratchetReceive_eq {P : Primitives} {localPrivate : Key32}
    {derived : Key32 × Key32} {s₀ : DmSession} (hprivate : s.dhsPrivate = some localPrivate)
    (hs₀ : s₀ = { s with
      dhrPublic := some header.dhRatchetPublic, deviceEpochRemote := header.deviceEpoch })
    (hderived : P.deriveRootAndChain s₀.rootKey (P.diffieHellman localPrivate header.dhRatchetPublic)
      s₀.ratchetContextParts s₀.remoteSenderRoleTag = .ok derived) :
    s.ratchetReceive P header = (.ok (), { s₀ with
      rootKey := derived.1
      receivingChainKey := derived.2
      dhRatchetStep := satAdd s₀.dhRatchetStep 1
      receiveCounter := 0 }) := by
  subst hs₀
  unfold ratchetReceive
  dsimp only at hderived ⊢
  split
  · next hnone => rw [hprivate] at hnone; cases hnone
  · next other hsome =>
    cases hprivate.symm.trans hsome
    rw [hderived]

theorem ratchetSend_eq {P : Primitives} {seed : Key32} {derived : Key32 × Key32} {s₀ : DmSession}
    (hs₀ : s₀ = { s with previousSendingChainLength := s.sendCounter })
    (hderived : P.deriveRootAndChain s₀.rootKey (P.diffieHellman seed header.dhRatchetPublic)
      s₀.ratchetContextParts s₀.localSenderRoleTag = .ok derived) :
    s.ratchetSend P (.ok seed) header = (.ok (), { s₀ with
      rootKey := derived.1
      sendingChainKey := derived.2
      dhRatchetStep := satAdd s₀.dhRatchetStep 1
      dhsPrivate := some seed
      dhsPublic := some (P.x25519Public seed)
      sendCounter := 0 }) := by
  subst hs₀
  unfold ratchetSend
  dsimp only [Primitives.keyPairFromSeed] at hderived ⊢
  rw [hderived]

/-- Between the halves of a ratchet: on the root key of the level it answers, with the stores of `s`. -/
structure Answering (S : Schedule) (G : Ghost) (side : Bool) (ℓ : ℕ) (s t : DmSession) : Prop where
  ident : Identified S side t
  root : t.rootKey = (S.rootChain G.key (ℓ + 1)).1
  step : t.dhRatchetStep = min (ℓ + 1) u64Max
  dhrPublic : t.dhrPublic = some (S.publicAt G.key (ℓ + 1))
  sendCounter : t.sendCounter = G.len ℓ
  receiveCounter : t.receiveCounter = 0
  receivingChain : t.receivingChainKey = S.chainAt G.key (ℓ + 1) 0
  keys : t.skippedMessageKeys = s.skippedMessageKeys
  secrets : t.skippedMessageSecrets = s.skippedMessageSecrets
  maxSkip : t.maxSkip = s.maxSkip

/-- Both ends compute one shared secret for the level being answered. -/
theorem ratchet_receive (hp : Party S G side ℓ rc s) (hS : S.prims.Sound)
    (hpublic : header.dhRatchetPublic = S.publicAt G.key (ℓ + 1)) (hepoch : header.deviceEpoch = 0) :
    ∃ t, s.ratchetReceive S.prims header = (.ok (), t) ∧ Answering S G side ℓ s t := by
  have hid : Identified S side { s with
      dhrPublic := some header.dhRatchetPublic, deviceEpochRemote := header.deviceEpoch } :=
    ⟨hp.ident.1, hp.ident.2, hp.ident.3, hp.ident.4, hp.ident.5, hepoch⟩
  have hpeer : initiatorOwns (ℓ + 1) = !side := by rw [initiatorOwns_succ, hp.owns]
  have hderived : S.prims.rootAndChain s.rootKey (S.prims.diffieHellman (G.key ℓ)
      header.dhRatchetPublic) (S.partsAt ℓ) (roleAt (ℓ + 1)) = S.rootChain G.key (ℓ + 1) := by
    rw [rootChain_succ, hp.root, hpublic, publicAt, hS.diffieHellman_comm, publicAt]
  have hok := S.prims.deriveRootAndChain_eq s.rootKey (S.prims.diffieHellman (G.key ℓ)
    header.dhRatchetPublic) (S.partsAt ℓ) (roleAt (ℓ + 1))
  rw [hderived, ← hid.ratchetContextParts_eq hp.step, ← hid.remoteSenderRoleTag_eq hpeer] at hok
  refine ⟨_, ratchetReceive_eq hp.dhsPrivate rfl hok, ?_⟩
  exact
    { ident := ⟨hp.ident.1, hp.ident.2, hp.ident.3, hp.ident.4, hp.ident.5, hepoch⟩
      root := rfl
      step := (congrArg (satAdd · 1) hp.step).trans (satAdd_min_one ℓ)
      dhrPublic := congrArg some hpublic
      sendCounter := hp.sendCounter
      receiveCounter := rfl
      receivingChain := rfl
      keys := rfl
      secrets := rfl
      maxSkip := rfl }

theorem ratchet_send (hp : Party S G side ℓ (G.len (ℓ - 1)) s)
    (ht : Answering S G side ℓ s t) (hfresh : G.len (ℓ + 2) = 0)
    (hpublic : header.dhRatchetPublic = S.publicAt G.key (ℓ + 1)) (seed : Key32) :
    ∃ s', t.ratchetSend S.prims (.ok seed) header = (.ok (), s') ∧
      Party S (G.draw (ℓ + 2) seed) side (ℓ + 2) 0 s' ∧ s'.storedCount = s.storedCount ∧
      s'.maxSkip = s.maxSkip := by
  have hkey : ∀ j < ℓ + 2, ∀ i ≤ j, (G.draw (ℓ + 2) seed).key i = G.key i := fun j hj i hi =>
    G.draw_key_of_lt seed (by omega)
  have hpub := S.publicAt_congr (hkey (ℓ + 1) (by omega))
  have hroot := S.rootChain_congr (hkey (ℓ + 1) (by omega))
  have howns : initiatorOwns (ℓ + 2) = side := by rw [initiatorOwns_add_two, hp.owns]
  have hderived : S.prims.rootAndChain t.rootKey (S.prims.diffieHellman seed
      header.dhRatchetPublic) (S.partsAt (ℓ + 1)) (roleAt (ℓ + 2)) =
      S.rootChain (G.draw (ℓ + 2) seed).key (ℓ + 2) := by
    rw [rootChain_succ, hroot, hpub, G.draw_key_self, ht.root, hpublic]
  have hpassed := G.passed_next_level ℓ
  have hid : Identified S side { t with previousSendingChainLength := t.sendCounter } :=
    ⟨ht.ident.1, ht.ident.2, ht.ident.3, ht.ident.4, ht.ident.5, ht.ident.6⟩
  have hok := S.prims.deriveRootAndChain_eq t.rootKey (S.prims.diffieHellman seed
    header.dhRatchetPublic) (S.partsAt (ℓ + 1)) (roleAt (ℓ + 2))
  rw [hderived, ← hid.ratchetContextParts_eq ht.step, ← hid.localSenderRoleTag_eq howns] at hok
  refine ⟨_, ratchetSend_eq rfl hok, ?_, ?_, ht.maxSkip⟩
  · exact
      { ident := ⟨ht.ident.1, ht.ident.2, ht.ident.3, ht.ident.4, ht.ident.5, ht.ident.6⟩
        owns := howns
        root := rfl
        step := (congrArg (satAdd · 1) ht.step).trans (satAdd_min_one (ℓ + 1))
        dhsPrivate := congrArg some (G.draw_key_self (ℓ + 2) seed).symm
        dhsPublic := congrArg (fun k => some (S.prims.x25519Public k))
          (G.draw_key_self (ℓ + 2) seed).symm
        dhrPublic := by
          rw [if_neg (by omega), Nat.add_sub_cancel (n := ℓ + 1) (m := 1), hpub]
          exact ht.dhrPublic
        sendCounter := hfresh.symm
        sendingChain := fun _ => by
          have h0 : (G.draw (ℓ + 2) seed).len (ℓ + 2) = 0 := hfresh
          rw [h0]
          rfl
        previous := by
          exact ht.sendCounter
        receiveCounter := ht.receiveCounter
        receivingChain := fun _ => by
          rw [Nat.add_sub_cancel (n := ℓ + 1) (m := 1), S.chainAt_congr (hkey (ℓ + 1) (by omega))]
          exact ht.receivingChain
        read_le := Nat.zero_le _
        noKeys := by
          have := hp.noKeys
          rw [← ht.keys] at this
          exact this
        stored := fun j n h hnd => by
          have h := (hpassed j n).mp h
          have hj : j < ℓ + 2 := by rcases h.2 with h | h <;> omega
          have hs := hp.stored j n h hnd
          rw [← ht.secrets] at hs
          rw [S.publicAt_congr (hkey j hj), S.secretAt_congr (hkey j hj)]
          exact hs
        storedOnly := fun id hid => by
          have hmem : id ∈ s.skippedMessageSecrets := by
            rw [← ht.secrets]
            exact hid
          obtain ⟨j, n, h, hnd, heq⟩ := hp.storedOnly id hmem
          have hj : j < ℓ + 2 := by rcases h.2 with h | h <;> omega
          refine ⟨j, n, (hpassed j n).mpr h, hnd, ?_⟩
          rw [S.publicAt_congr (hkey j hj), heq]
        deliveredOnly := fun j n hd hj => (hpassed j n).mpr (hp.deliveredOnly j n hd hj) }
  · unfold storedCount
    rw [← ht.keys, ← ht.secrets]

theorem peer_of_passed (hp : Party S G side ℓ rc s) (h : G.Passed ℓ rc j n) :
    initiatorOwns j = !side ∧ j ≤ ℓ :=
  ⟨hp.owns ▸ h.1, by rcases h.2 with h | h <;> omega⟩

theorem eq_of_skippedKeyId (hkeys : KeysDistinct S G ℓ) {j' n' : ℕ} (hj : j ≤ ℓ) (hj' : j' ≤ ℓ)
    (h : skippedKeyId (S.publicAt G.key j) n = skippedKeyId (S.publicAt G.key j') n') :
    j = j' ∧ n = n' := by
  obtain ⟨hpub, hn⟩ := skippedKeyId_inj h
  exact ⟨hkeys j hj j' hj' hpub, hn⟩

section
variable (hp : Party S G side ℓ rc s)
include hp

theorem forget (hkeys : KeysDistinct S G ℓ)
    (hpassed : G.Passed ℓ rc j n) : Party S (G.deliver j n) side ℓ rc
      (s.forgetSkipped (skippedKeyId (S.publicAt G.key j) n)) := by
  obtain ⟨-, hj⟩ := hp.peer_of_passed hpassed
  exact
    { hp with
      ident := ⟨hp.ident.1, hp.ident.2, hp.ident.3, hp.ident.4, hp.ident.5, hp.ident.6⟩
      noKeys := by
        unfold forgetSkipped
        rw [hp.noKeys]
        exact erase_empty
      stored := fun j' n' h hnd => by
        rw [G.mem_deliver, not_or] at hnd
        obtain ⟨-, hj'⟩ := hp.peer_of_passed h
        have hne : skippedKeyId (S.publicAt G.key j) n ≠ skippedKeyId (S.publicAt G.key j') n' := by
          intro heq
          obtain ⟨rfl, rfl⟩ := eq_of_skippedKeyId hkeys hj hj' heq
          exact hnd.1 rfl
        have hget := OrdMap.getElem?_erase_of_ne s.skippedMessageSecrets hne
        exact hget.trans (hp.stored j' n' h hnd.2)
      storedOnly := fun id hid => by
        obtain ⟨hne, hmem⟩ := mem_erase.mp hid
        obtain ⟨j', n', h, hnd, rfl⟩ := hp.storedOnly id hmem
        refine ⟨j', n', h, ?_, rfl⟩
        rw [G.mem_deliver, not_or]
        refine ⟨fun heq => hne ?_, hnd⟩
        cases heq
        exact Std.compare_self
      deliveredOnly := fun j' n' hd hj' => by
        rcases (G.mem_deliver j n _).mp hd with heq | hd
        · cases heq
          exact hpassed
        · exact hp.deliveredOnly j' n' hd hj' }

theorem decrypt_passed (hkeys : KeysDistinct S G ℓ) (hg : Genuine S G j n c plaintext ad)
    (hpassed : G.Passed ℓ rc j n) (hnew : (j, n) ∉ G.delivered) (random : Except CryptoError Key32) :
    ∃ s', s.decrypt S.prims random c ad = (.ok plaintext, s') ∧
      Party S (G.deliver j n) side ℓ rc s' ∧ s'.dhsPublic = s.dhsPublic := by
  obtain ⟨canonical, keys, hhdr, hkeysOk, hopen⟩ := hg.opens
  obtain ⟨hpeer, -⟩ := hp.peer_of_passed hpassed
  have hsecret := hp.stored j n hpassed hnew
  refine ⟨_, ?_, hp.forget hkeys hpassed, rfl⟩
  unfold decrypt decryptWithFrankingKeys
  simp only [hhdr, hg.header_public, hg.header_n, hsecret, hp.ident.sessionId,
    hp.ident.recvDirectionTag_eq hpeer]
  unfold decryptSkipped
  simp only [hkeysOk, hopen, hg.header_public, hg.header_n, Bind.bind, Except.bind, Pure.pure,
    Except.pure]
  rfl

/-- A message at or ahead of the reading position: the skip reaches it, its secret is the schedule's,
and the chain then stands right after it. -/
theorem read (hzero : G.len 0 = 0) (hlen : ∀ j, G.len j ≤ u64Max) (hkeys : KeysDistinct S G ℓ)
    (hg : Genuine S G j n c plaintext ad) (hj : j + 1 = ℓ) (hle : rc ≤ n)
    (hgap : n - rc ≤ s.maxSkip) (hroom : ∀ i < n - rc, s.storedCount + i < s.maxSkip) :
    ∃ t s', s.skipMessageKeys S.prims n = (.ok (), t) ∧ t.receiveCounter = n ∧
      t.sessionId = S.sessionId ∧ t.recvDirectionTag = directionAt j ∧
      S.prims.kdfCk t.receivingChainKey (t.directionContext t.recvDirectionTag
        c.header.dhRatchetPublic n 0) = .ok (S.chainAt G.key j (n + 1), S.secretAt G.key j n) ∧
      t.advanceReceiving S.prims c.header = .ok s' ∧ Party S (G.deliver j n) side ℓ (n + 1) s' := by
  obtain rfl : j = ℓ - 1 := by omega
  have hlt := hg.lt_len
  obtain ⟨t, hskip, ht, -, -⟩ := hp.skip hzero hlen hkeys hle hlt.le hgap hroom
  have hℓ : 2 ≤ ℓ := by
    by_contra h
    have h0 : ℓ - 1 = 0 := by omega
    rw [h0, hzero] at hlt
    omega
  have hpeer := hp.owns_below (by omega)
  have htag := ht.ident.recvDirectionTag_eq hpeer
  have hkdf : S.prims.kdfCk t.receivingChainKey (t.directionContext t.recvDirectionTag
      c.header.dhRatchetPublic n 0) =
      .ok (S.chainAt G.key (ℓ - 1) (n + 1), S.secretAt G.key (ℓ - 1) n) := by
    rw [ht.receivingChain hℓ, ht.ident.directionContext_eq, htag, hg.header_public]
    exact S.kdfCk_chainAt G.key (ℓ - 1) n
  have hctr : satAdd t.receiveCounter 1 = n + 1 := by
    rw [ht.receiveCounter]
    exact satAdd_one_of_lt (lt_of_lt_of_le hlt (hlen _))
  have hnot := G.not_passed_next ℓ n
  have hgrow := hp.passed_succ hpeer (by omega) n
  refine ⟨t, { t with
    receivingChainKey := S.chainAt G.key (ℓ - 1) (n + 1), receiveCounter := n + 1 }, hskip,
    ht.receiveCounter, ht.ident.sessionId, htag, hkdf, ?_, ?_⟩
  · unfold advanceReceiving
    dsimp only
    rw [hg.header_n, hg.header_epoch, S.prims.advanceChainKey_eq hkdf, hctr]
    rfl
  · exact
      { ht with
        ident := ⟨ht.ident.1, ht.ident.2, ht.ident.3, ht.ident.4, ht.ident.5, ht.ident.6⟩
        receiveCounter := rfl
        receivingChain := fun _ => rfl
        read_le := hlt
        stored := fun j m h hnd => by
          rw [G.mem_deliver, not_or] at hnd
          rcases (hgrow j m).mp h with h | h
          · exact ht.stored j m h hnd.2
          · exact absurd h hnd.1
        storedOnly := fun id hid => by
          obtain ⟨j, m, h, hnd, heq⟩ := ht.storedOnly id hid
          refine ⟨j, m, (hgrow j m).mpr (.inl h), ?_, heq⟩
          rw [G.mem_deliver, not_or]
          refine ⟨fun heq => hnot ?_, hnd⟩
          cases heq
          exact h
        deliveredOnly := fun j m hd hj => by
          rcases (G.mem_deliver _ _ _).mp hd with heq | hd
          · exact (hgrow j m).mpr (.inr heq)
          · exact (hgrow j m).mpr (.inl (ht.deliveredOnly j m hd hj)) }

end

/-- Opening a message from the chain once the session is ratcheted for its header. -/
theorem decryptOnChain_eq (hratchet : s.ratchetForHeader S.prims random c.header = (.ok (), t))
    (hp : Party S G side ℓ rc t) (hzero : G.len 0 = 0) (hlen : ∀ j, G.len j ≤ u64Max)
    (hkeys : KeysDistinct S G ℓ) {keys : MessageKeys} (hg : Genuine S G j n c plaintext ad)
    (hderive : S.prims.deriveMessageKeys (S.secretAt G.key j n)
      (S.prims.messageContext S.sessionId (directionAt j) n canonical ad) = .ok keys)
    (hopen : openMessage S.prims c ad canonical keys = .ok plaintext)
    (hj : j + 1 = ℓ) (hle : rc ≤ n) (hgap : n - rc ≤ t.maxSkip)
    (hroom : ∀ i < n - rc, t.storedCount + i < t.maxSkip) :
    ∃ s', s.decryptOnChain S.prims random c ad canonical =
        (.ok ⟨plaintext, keys.openingKey, keys.commitmentKey⟩, s') ∧
      Party S (G.deliver j n) side ℓ (n + 1) s' := by
  obtain ⟨u, s', hskip, hctr, hsession, htag, hkdf, hadvance, hs'⟩ :=
    hp.read hzero hlen hkeys hg hj hle hgap hroom
  refine ⟨s', ?_, hs'⟩
  have hmsg : s.chainMessageKeys S.prims random c.header canonical ad = (.ok keys, u) := by
    unfold chainMessageKeys
    rw [hratchet]
    dsimp only
    rw [hg.header_n, hp.receiveCounter, if_neg (by omega), hskip]
    dsimp only
    rw [hg.header_epoch, hkdf, hsession, htag]
    simp only [Bind.bind, Except.bind, hderive]
  unfold decryptOnChain
  rw [hmsg]
  simp only [hopen, hadvance, Bind.bind, Except.bind, Pure.pure, Except.pure]

end Party

/-- Gap met on the old chain when a header starts a new one. -/
def DmSession.pnGap (s : DmSession) (header : DmHeader) : ℕ :=
  if s.NeedsRatchet header then header.pn - s.receiveCounter else 0

/-- Gap met before the message on its own chain. -/
def DmSession.counterGap (s : DmSession) (header : DmHeader) : ℕ :=
  if s.NeedsRatchet header then header.n else header.n - s.receiveCounter

/-- A message read from the chain meets only gaps within the skip limit, and the store has room for
each skipped secret, so that none is evicted. -/
structure DmSession.WithinLimits (s : DmSession) (header : DmHeader) : Prop where
  pnGap : s.pnGap header ≤ s.maxSkip
  counterGap : s.counterGap header ≤ s.maxSkip
  noEviction : ∀ i < s.pnGap header + s.counterGap header, s.storedCount + i < s.maxSkip

namespace Party
variable {S : Schedule} {G : Ghost} {side : Bool} {ℓ rc : ℕ} {s : DmSession}

variable {j n top : ℕ} {c : DmCiphertext} {plaintext ad : Bytes}

theorem notMem_stores (hp : Party S G side ℓ rc s) (htop : ℓ ≤ top)
    (hkeys : KeysDistinct S G top) (hj : j ≤ top) (hnot : ¬ G.Passed ℓ rc j n) :
    s.skippedMessageSecrets[skippedKeyId (S.publicAt G.key j) n]? = none ∧
      s.skippedMessageKeys[skippedKeyId (S.publicAt G.key j) n]? = none := by
  refine ⟨?_, by simp [hp.noKeys]⟩
  rw [← Option.not_isSome_iff_eq_none, isSome_getElem?_iff_mem]
  intro hmem
  obtain ⟨j', n', h, -, heq⟩ := hp.storedOnly _ hmem
  obtain ⟨-, hj'⟩ := hp.peer_of_passed h
  obtain ⟨rfl, rfl⟩ := eq_of_skippedKeyId hkeys hj (hj'.trans htop) heq
  exact hnot h

theorem decrypt_eq_onChain {keys : MessageKeys} {s' : DmSession}
    (hhdr : c.checkedHeader S.prims = .ok canonical)
    (hsecs : s.skippedMessageSecrets[skippedKeyId c.header.dhRatchetPublic c.header.n]? = none)
    (hstore : s.skippedMessageKeys[skippedKeyId c.header.dhRatchetPublic c.header.n]? = none)
    (hchain : s.decryptOnChain S.prims random c ad canonical =
      (.ok ⟨plaintext, keys.openingKey, keys.commitmentKey⟩, s')) :
    s.decrypt S.prims random c ad = (.ok plaintext, s') := by
  unfold decrypt decryptWithFrankingKeys
  simp only [hhdr, hsecs, hstore, hchain]
  rfl

theorem decrypt_current (hp : Party S G side ℓ rc s) (hzero : G.len 0 = 0)
    (hlen : ∀ j, G.len j ≤ u64Max) (hkeys : KeysDistinct S G ℓ) (hg : Genuine S G j n c plaintext ad)
    (hj : j + 1 = ℓ) (hle : rc ≤ n) (hlimits : s.WithinLimits c.header)
    (random : Except CryptoError Key32) :
    ∃ s', s.decrypt S.prims random c ad = (.ok plaintext, s') ∧
      Party S (G.deliver j n) side ℓ (n + 1) s' ∧ s'.dhsPublic = s.dhsPublic := by
  obtain ⟨canonical, keys, hhdr, hderive, hopen⟩ := hg.opens
  have hnot : ¬ G.Passed ℓ rc j n := by
    intro h
    rcases h.2 with h | h <;> omega
  have hsame : ¬ s.NeedsRatchet c.header := by
    rintro ⟨-, hne⟩
    rw [hp.dhrPublic, if_neg (by omega), hg.header_public, ← hj] at hne
    exact hne rfl
  have hpn : s.pnGap c.header = 0 := if_neg hsame
  have hn : s.counterGap c.header = n - rc := by
    rw [counterGap, if_neg hsame, hg.header_n, hp.receiveCounter]
  have hratchet : s.ratchetForHeader S.prims random c.header = (.ok (), s) := if_neg hsame
  obtain ⟨hsecs, hstore⟩ := hp.notMem_stores le_rfl hkeys (show j ≤ ℓ by omega) hnot
  rw [← hg.header_public, ← hg.header_n] at hsecs hstore
  have hroom := hlimits.noEviction
  rw [hpn, hn, Nat.zero_add] at hroom
  obtain ⟨s', hchain, hs'⟩ := decryptOnChain_eq hratchet hp hzero hlen hkeys hg hderive hopen hj hle
    (hn ▸ hlimits.counterGap) hroom
  refine ⟨s', decrypt_eq_onChain hhdr hsecs hstore hchain, hs', ?_⟩
  rw [hs'.dhsPublic, hp.dhsPublic]
  rfl

theorem keysDistinct_draw (hkeys : KeysDistinct S G top)
    (hseed : ∀ i ≤ top, S.publicAt G.key i ≠ S.prims.x25519Public seed) :
    KeysDistinct S (G.draw (top + 1) seed) (top + 1) := by
  have hlow : ∀ i ≤ top, S.publicAt (G.draw (top + 1) seed).key i = S.publicAt G.key i :=
    fun i hi => by rw [publicAt, G.draw_key_of_lt seed (by omega), publicAt]
  have htop : S.publicAt (G.draw (top + 1) seed).key (top + 1) = S.prims.x25519Public seed := by
    rw [publicAt, G.draw_key_self]
  intro i hi j hj heq
  by_cases hit : i = top + 1
  · by_cases hjt : j = top + 1
    · rw [hit, hjt]
    · rw [hit, htop, hlow j (by omega)] at heq
      exact absurd heq.symm (hseed j (by omega))
  · by_cases hjt : j = top + 1
    · rw [hjt, htop, hlow i (by omega)] at heq
      exact absurd heq (hseed i (by omega))
    · rw [hlow i (by omega), hlow j (by omega)] at heq
      exact hkeys i (by omega) j (by omega) heq

theorem genuine_draw (hg : Genuine S G j n c plaintext ad) (hj : j < top) (seed : Key32) :
    Genuine S (G.draw top seed) j n c plaintext ad := by
  have hlow : ∀ i ≤ j, (G.draw top seed).key i = G.key i := fun i hi =>
    G.draw_key_of_lt seed (by omega)
  obtain ⟨canonical, keys, hhdr, hderive, hopen⟩ := hg.opens
  exact ⟨hg.lt_len, hg.header_n, by rw [S.publicAt_congr hlow, hg.header_public], hg.header_pn,
    hg.header_epoch, canonical, keys, hhdr, by rw [S.secretAt_congr hlow, hderive], hopen⟩

theorem decrypt_next (hp : Party S G side ℓ rc s) (hS : S.prims.Sound) (hzero : G.len 0 = 0)
    (hlen : ∀ j, G.len j ≤ u64Max) (hkeys : KeysDistinct S G (ℓ + 1))
    (hnonzero : S.publicAt G.key (ℓ + 1) ≠ zeroKey) (hfresh : G.len (ℓ + 2) = 0)
    (hg : Genuine S G (ℓ + 1) n c plaintext ad) (hlimits : s.WithinLimits c.header)
    (hseed : ∀ i ≤ ℓ + 1, S.publicAt G.key i ≠ S.prims.x25519Public seed) :
    ∃ s', s.decrypt S.prims (.ok seed) c ad = (.ok plaintext, s') ∧
      Party S ((G.draw (ℓ + 2) seed).deliver (ℓ + 1) n) side (ℓ + 2) (n + 1) s' := by
  have hneeds : s.NeedsRatchet c.header := by
    refine ⟨hg.header_public ▸ hnonzero, ?_⟩
    rw [hp.dhrPublic, hg.header_public]
    split_ifs with h0
    · simp
    · intro heq
      have := hkeys _ (by omega) _ le_rfl (Option.some.inj heq)
      omega
  have hpn : c.header.pn = G.len (ℓ - 1) := by
    rw [hg.header_pn, Ghost.previousLen]
    split_ifs with h2
    · rfl
    · obtain rfl : ℓ = 0 := by omega
      exact hzero.symm
  have hpnGap : s.pnGap c.header = G.len (ℓ - 1) - rc := by
    rw [pnGap, if_pos hneeds, hpn, hp.receiveCounter]
  have hnGap : s.counterGap c.header = n := by
    rw [counterGap, if_pos hneeds, hg.header_n]
  have hroom := hlimits.noEviction
  rw [hpnGap, hnGap] at hroom
  have hlow : KeysDistinct S G ℓ := fun i hi j hj => hkeys i (by omega) j (by omega)
  obtain ⟨t, hskip, ht, hcount, hmax⟩ := hp.skip hzero hlen hlow hp.read_le le_rfl
    (hpnGap ▸ hlimits.pnGap) (fun i hi => hroom i (by omega))
  obtain ⟨u, hreceive, hu⟩ := ht.ratchet_receive hS hg.header_public hg.header_epoch
  obtain ⟨v, hsend, hv, hcount', hmax'⟩ := ht.ratchet_send hu hfresh hg.header_public seed
  have hratchet : s.ratchetForHeader S.prims (.ok seed) c.header = (.ok (), v) := by
    rw [ratchetForHeader, if_pos hneeds, hpn, hskip]
    dsimp only
    rw [hreceive]
    exact hsend
  have hg' := genuine_draw hg (show ℓ + 1 < ℓ + 2 by omega) seed
  obtain ⟨canonical, keys, hhdr, hderive, hopen⟩ := hg'.opens
  have hgap : n - 0 ≤ v.maxSkip := by
    rw [hmax', hmax, Nat.sub_zero, ← hnGap]
    exact hlimits.counterGap
  obtain ⟨s', hchain, hs'⟩ := decryptOnChain_eq hratchet hv hzero hlen (keysDistinct_draw hkeys hseed)
    hg' hderive hopen rfl (Nat.zero_le n) hgap (fun i hi => by
      have := hroom (G.len (ℓ - 1) - rc + i) (by omega)
      omega)
  have hnot : ¬ G.Passed ℓ rc (ℓ + 1) n := by
    intro h
    rcases h.2 with h | h <;> omega
  obtain ⟨hsecs, hstore⟩ := hp.notMem_stores (Nat.le_succ ℓ) hkeys le_rfl hnot
  rw [← hg.header_public, ← hg.header_n] at hsecs hstore
  exact ⟨s', decrypt_eq_onChain hhdr hsecs hstore hchain, hs'⟩

end Party
end Ramflux
