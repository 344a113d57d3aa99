import Ramflux.Crypto.DoubleRatchet

/-! What a failed decryption leaves behind in a session. -/
namespace Ramflux
namespace DmSession
variable (P : Primitives)

theorem evictLoop_eq (fuel : ℕ) (s : DmSession) : ∃ keys secrets order, evictLoop fuel s =
    { s with skippedMessageKeys := keys, skippedMessageSecrets := secrets, skippedOrder := order } := by
  induction fuel generalizing s with
  | zero => exact ⟨_, _, _, rfl⟩
  | succ fuel ih =>
    rw [evictLoop]
    split_ifs with hfull
    · cases s.oldestSkipped with
      | none => exact ⟨_, _, _, rfl⟩
      | some entry =>
        obtain ⟨keys, secrets, order, heq⟩ := ih { s with
          skippedOrder := entry.2
          skippedMessageKeys := s.skippedMessageKeys.erase entry.1
          skippedMessageSecrets := s.skippedMessageSecrets.erase entry.1 }
        exact ⟨keys, secrets, order, heq⟩
    · exact ⟨_, _, _, rfl⟩

/-- The skip loop completes, moves the chain by the rounds asked for, and touches only it and the stores. -/
theorem skipLoop_eq (remotePublic : Key32) (rounds : ℕ) (s : DmSession)
    (hle : s.receiveCounter + rounds ≤ u64Max) : ∃ chain keys secrets order,
    skipLoop P remotePublic rounds s = (.ok (), { s with
      receivingChainKey := chain
      receiveCounter := s.receiveCounter + rounds
      skippedMessageKeys := keys
      skippedMessageSecrets := secrets
      skippedOrder := order }) := by
  induction rounds generalizing s with
  | zero => exact ⟨_, _, _, _, rfl⟩
  | succ rounds ih =>
    obtain ⟨next, secret, hkdf⟩ := P.kdfCk_isOk s.receivingChainKey
      (s.directionContext s.recvDirectionTag remotePublic s.receiveCounter s.deviceEpochRemote)
    obtain ⟨keys, secrets, order, hevict⟩ := evictLoop_eq (s.skippedOrder.length + s.storedCount) s
    have hstep : satAdd s.receiveCounter 1 = s.receiveCounter + 1 := satAdd_one_of_lt (by omega)
    rw [skipLoop]
    simp only [hkdf, evict, hevict, P.advanceChainKey_eq hkdf, hstep]
    obtain ⟨chain, keys, secrets, order, heq⟩ := ih { s with
      receivingChainKey := next
      receiveCounter := s.receiveCounter + 1
      skippedMessageKeys := keys
      skippedMessageSecrets := secrets.insert (skippedKeyId remotePublic s.receiveCounter) secret
      skippedOrder := order ++ [skippedKeyId remotePublic s.receiveCounter] } (by simp only; omega)
    refine ⟨chain, keys, secrets, order, ?_⟩
    rw [heq]
    simp only [Nat.add_assoc, Nat.add_comm 1]

variable {s : DmSession} {untilCounter : ℕ} {header : DmHeader} {e : CryptoError}

theorem skipMessageKeys_of_gap_gt (h : s.maxSkip < untilCounter - s.receiveCounter) :
    s.skipMessageKeys P untilCounter = (.error .maxSkipExceeded, s) := by
  rw [skipMessageKeys, if_neg (by omega), if_pos h]

/-- A gap within the limit is skipped, and the counter ends at the larger of the two. -/
theorem skipMessageKeys_of_gap_le
    (h : untilCounter - s.receiveCounter ≤ s.maxSkip) (hmax : untilCounter ≤ u64Max) :
    ∃ chain keys secrets order, s.skipMessageKeys P untilCounter = (.ok (), { s with
      receivingChainKey := chain
      receiveCounter := max s.receiveCounter untilCounter
      skippedMessageKeys := keys
      skippedMessageSecrets := secrets
      skippedOrder := order }) := by
  rw [skipMessageKeys]
  split_ifs with hlt
  · exact ⟨_, _, _, _, by rw [max_eq_left (by omega)]⟩
  · obtain ⟨chain, keys, secrets, order, heq⟩ := skipLoop_eq P (s.dhrPublic.getD zeroKey)
      (untilCounter - s.receiveCounter) s (by omega)
    refine ⟨chain, keys, secrets, order, ?_⟩
    rw [if_neg (by omega), heq, Nat.add_sub_cancel' (by omega), max_eq_right (by omega)]

theorem ratchetReceive_dhrPublic (s : DmSession) (header : DmHeader) :
    (s.ratchetReceive P header).2.dhrPublic = some header.dhRatchetPublic := by
  unfold ratchetReceive
  cases s.dhsPrivate with
  | none => rfl
  | some localPrivate => dsimp only; split <;> rfl

variable (random : Except CryptoError Key32)

theorem ratchetSend_dhrPublic (s : DmSession)
    (header : DmHeader) : (s.ratchetSend P random header).2.dhrPublic = s.dhrPublic := by
  unfold ratchetSend
  cases random with
  | error e => rfl
  | ok seed => dsimp only; split <;> rfl

/-- A ratchet within the skip limit has replaced the remembered remote key, whatever happens next. -/
theorem ratchetForHeader_dhrPublic (hneeds : s.NeedsRatchet header)
    (hgap : header.pn - s.receiveCounter ≤ s.maxSkip) (hmax : header.pn ≤ u64Max) :
    (s.ratchetForHeader P random header).2.dhrPublic = some header.dhRatchetPublic := by
  obtain ⟨chain, keys, secrets, order, hskip⟩ := skipMessageKeys_of_gap_le P hgap hmax
  rw [ratchetForHeader, if_pos hneeds, hskip]
  dsimp only
  generalize { s with
    receivingChainKey := chain
    receiveCounter := max s.receiveCounter header.pn
    skippedMessageKeys := keys
    skippedMessageSecrets := secrets
    skippedOrder := order } = t
  have hdhr := ratchetReceive_dhrPublic P t header
  cases hr : t.ratchetReceive P header with
  | mk result u =>
    rw [hr] at hdhr
    cases result with
    | error e => exact hdhr
    | ok _ => exact (ratchetSend_dhrPublic P random u header).trans hdhr

theorem skipMessageKeys_dhrPublic (s : DmSession) (hmax : untilCounter ≤ u64Max) :
    (s.skipMessageKeys P untilCounter).2.dhrPublic = s.dhrPublic := by
  by_cases hgap : untilCounter - s.receiveCounter ≤ s.maxSkip
  · obtain ⟨chain, keys, secrets, order, hskip⟩ := skipMessageKeys_of_gap_le P hgap hmax
    rw [hskip]
  · rw [skipMessageKeys_of_gap_gt P (by omega)]

theorem chainMessageKeys_dhrPublic (s : DmSession) (canonical ad : Bytes) (hmax : header.n ≤ u64Max) :
    (s.chainMessageKeys P random header canonical ad).2.dhrPublic =
      (s.ratchetForHeader P random header).2.dhrPublic := by
  rw [chainMessageKeys]
  cases s.ratchetForHeader P random header with
  | mk result t =>
    cases result with
    | error e => rfl
    | ok _ =>
      dsimp only
      split_ifs with hlt
      · rfl
      · have hdhr := skipMessageKeys_dhrPublic P t hmax
        cases hskip : t.skipMessageKeys P header.n with
        | mk result u =>
          rw [hskip] at hdhr
          cases result with
          | error e | ok _ => exact hdhr

theorem decryptOnChain_error (s : DmSession) (c : DmCiphertext) (ad canonical : Bytes)
    (h : (s.decryptOnChain P random c ad canonical).1 = .error e) :
    (s.decryptOnChain P random c ad canonical).2 =
      (s.chainMessageKeys P random c.header canonical ad).2 := by
  rw [decryptOnChain] at h ⊢
  cases hkeys : s.chainMessageKeys P random c.header canonical ad with
  | mk result t =>
    rw [hkeys] at h
    cases result with
    | error e => rfl
    | ok keys =>
      dsimp only at h ⊢
      cases hopen : (do
          let plaintext ← openMessage P c ad canonical keys
          pure (plaintext, ← t.advanceReceiving P c.header)) with
      | error e => rfl
      | ok out =>
        rw [hopen] at h
        cases h

theorem decryptSkipped_error (s : DmSession) (c : DmCiphertext) (ad canonical : Bytes)
    (keys : Except CryptoError MessageKeys)
    (h : (s.decryptSkipped P c ad canonical keys).1 = .error e) :
    (s.decryptSkipped P c ad canonical keys).2 = s := by
  rw [decryptSkipped] at h ⊢
  cases hopen : (do
      let keys ← keys
      pure (← openMessage P c ad canonical keys, keys)) with
  | error e => rfl
  | ok out =>
    rw [hopen] at h
    cases h

/-- The header asks for a ratchet, or for a skip, within the limit. -/
def MovesChain (s : DmSession) (header : DmHeader) : Prop :=
  if s.NeedsRatchet header then header.pn - s.receiveCounter ≤ s.maxSkip
  else s.receiveCounter < header.n ∧ header.n - s.receiveCounter ≤ s.maxSkip

theorem chainMessageKeys_of_not_movesChain (canonical ad : Bytes) (h : ¬ s.MovesChain header) :
    (s.chainMessageKeys P random header canonical ad).2 = s := by
  unfold MovesChain at h
  unfold chainMessageKeys ratchetForHeader
  by_cases hneeds : s.NeedsRatchet header
  · rw [if_pos hneeds] at h ⊢
    rw [skipMessageKeys_of_gap_gt P (by omega)]
  · rw [if_neg hneeds] at h ⊢
    dsimp only
    split_ifs with hlt
    · rfl
    · by_cases hgap : header.n - s.receiveCounter ≤ s.maxSkip
      · -- Only the next message in order is left, and it skips nothing.
        have hrounds : header.n - s.receiveCounter = 0 := by omega
        rw [skipMessageKeys, if_neg hlt]
        simp only [hrounds, Nat.not_lt_zero, if_false, skipLoop]
      · rw [skipMessageKeys_of_gap_gt P (by omega)]

theorem chainMessageKeys_of_movesChain (canonical ad : Bytes) (hn : header.n ≤ u64Max)
    (hpn : header.pn ≤ u64Max) (h : s.MovesChain header) :
    (s.chainMessageKeys P random header canonical ad).2 ≠ s := by
  unfold MovesChain at h
  intro heq
  by_cases hneeds : s.NeedsRatchet header
  · rw [if_pos hneeds] at h
    have hdhr := chainMessageKeys_dhrPublic P random s canonical ad hn
    rw [heq, ratchetForHeader_dhrPublic P random hneeds h hpn] at hdhr
    exact hneeds.2 hdhr
  · rw [if_neg hneeds] at h
    obtain ⟨chain, keys, secrets, order, hskip⟩ := skipMessageKeys_of_gap_le P h.2 hn
    have hctr : (s.chainMessageKeys P random header canonical ad).2.receiveCounter =
        max s.receiveCounter header.n := by
      rw [chainMessageKeys, ratchetForHeader, if_neg hneeds]
      dsimp only
      rw [if_neg (by omega), hskip]
    rw [heq] at hctr
    omega

/-- The message changes the session before anything is authenticated: its header hash is right, its key
is not stored, and its header moves the receiving chain. -/
def HeaderMoves (s : DmSession) (c : DmCiphertext) : Prop :=
  (c.checkedHeader P).isOk ∧
  skippedKeyId c.header.dhRatchetPublic c.header.n ∉ s.skippedMessageSecrets ∧
  skippedKeyId c.header.dhRatchetPublic c.header.n ∉ s.skippedMessageKeys ∧
  s.MovesChain c.header

instance (s : DmSession) (header : DmHeader) : Decidable (s.MovesChain header) := by
  unfold MovesChain
  infer_instance

instance (s : DmSession) (c : DmCiphertext) : Decidable (s.HeaderMoves P c) :=
  inferInstanceAs (Decidable (_ ∧ _ ∧ _ ∧ _))

theorem header_n_le (c : DmCiphertext) : c.header.n ≤ u64Max := by
  have h := c.counter.toNat_lt
  simp only [DmCiphertext.header, u64Max]
  omega

theorem header_pn_le (c : DmCiphertext) : c.header.pn ≤ u64Max := by
  have h := c.previousChainLength.toNat_lt
  simp only [DmCiphertext.header, u64Max]
  omega

theorem decryptWithFrankingKeys_error_iff (s : DmSession) (c : DmCiphertext) (ad : Bytes)
    (h : (s.decryptWithFrankingKeys P random c ad).1 = .error e) :
    (s.decryptWithFrankingKeys P random c ad).2 = s ↔ ¬ s.HeaderMoves P c := by
  unfold HeaderMoves
  rw [decryptWithFrankingKeys] at h ⊢
  cases hhdr : c.checkedHeader P with
  | error e => simp [Except.isOk, Except.toBool]
  | ok canonical =>
    simp only [hhdr] at h ⊢
    simp only [Std.ExtTreeMap.mem_iff_isSome_getElem?]
    cases hsecret : s.skippedMessageSecrets[skippedKeyId c.header.dhRatchetPublic c.header.n]? with
    | some secret =>
      simp only [hsecret] at h ⊢
      simp [decryptSkipped_error P s c ad canonical _ h]
    | none =>
      simp only [hsecret] at h ⊢
      cases hkeys : s.skippedMessageKeys[skippedKeyId c.header.dhRatchetPublic c.header.n]? with
      | some keys =>
        simp only [hkeys] at h ⊢
        simp [decryptSkipped_error P s c ad canonical _ h]
      | none =>
        simp only [hkeys] at h ⊢
        rw [decryptOnChain_error P random s c ad canonical h]
        by_cases hmoves : s.MovesChain c.header
        · have hne := chainMessageKeys_of_movesChain P random canonical ad (header_n_le c)
            (header_pn_le c) hmoves
          simp [hne, hmoves, Except.isOk, Except.toBool]
        · have heq := chainMessageKeys_of_not_movesChain P random canonical ad hmoves
          simp [heq, hmoves]

/-- A failed decryption leaves the session as it was unless the header alone already moved it. -/
theorem decrypt_error_unchanged_iff (s : DmSession) (c : DmCiphertext) (ad : Bytes) {e : CryptoError}
    (h : (s.decrypt P random c ad).1 = .error e) :
    (s.decrypt P random c ad).2 = s ↔ ¬ s.HeaderMoves P c := by
  cases hfull : s.decryptWithFrankingKeys P random c ad with
  | mk result t =>
    have hiff := decryptWithFrankingKeys_error_iff P random s c ad (e := e)
    rw [decrypt, hfull] at h ⊢
    rw [hfull] at hiff
    cases result with
    | error e' =>
      obtain rfl : e' = e := by simpa [Except.map] using h
      exact hiff rfl
    | ok out => cases h

/-- A fresh recipient and the first two messages its initiator sends to it. -/
def openingExchange : Except CryptoError (DmSession × DmCiphertext × DmCiphertext) := do
  let key (n : UInt8) : Key32 := Vector.replicate 32 n
  let recipient ← recipientWithLocalRatchet transparent (key 1) (key 3) (key 2) (key 4)
    (transparent.keyPairFromSeed (key 6))
  let initiator ← initiatorWithRemoteRatchet transparent (key 1) (key 2) (key 3) (key 4)
    (transparent.keyPairFromSeed (key 5)) (transparent.x25519Public (key 6))
  let (first, initiator) ← initiator.encrypt transparent [10] [1]
  let (second, _) ← initiator.encrypt transparent [20] [2]
  pure (recipient, first, second)

def opening : DmSession × DmCiphertext × DmCiphertext :=
  openingExchange.toOption.get (by decide +kernel)

def freshSeed : Except CryptoError Key32 := .ok (Vector.replicate 32 7)

/-- The first message under another ratchet key and header hash: no secret is needed. -/
def forged (first : DmCiphertext) : DmCiphertext :=
  let c := { first with ratchetPublicKey := some (Vector.replicate 32 9) }
  match transparent.headerHashBase64url .dmMessage c.header.fields with
  | .ok headerHash => { c with headerHash }
  | .error _ => c

/-- With the next message in order, a broken body is refused and nothing has moved. -/
theorem decrypt_error_unchanged_second :
    (((opening.1.decrypt transparent freshSeed opening.2.1 [1]).2.decrypt transparent freshSeed
      { opening.2.2 with ciphertext := [] } [2]).2) =
        (opening.1.decrypt transparent freshSeed opening.2.1 [1]).2 := by
  refine (decrypt_error_unchanged_iff transparent freshSeed _ _ [2] (e := .aeadFailed) ?_).mpr ?_
  all_goals decide +kernel

/-- A forged message is refused, and the authentic first message no longer opens. -/
theorem decrypt_error_breaks_session :
    (opening.1.decrypt transparent freshSeed (forged opening.2.1) [1]).1 = .error .aeadFailed ∧
    (opening.1.decrypt transparent freshSeed (forged opening.2.1) [1]).2.rootKey ≠ opening.1.rootKey ∧
    (opening.1.decrypt transparent freshSeed opening.2.1 [1]).1 = .ok [10] ∧
    ((opening.1.decrypt transparent freshSeed (forged opening.2.1) [1]).2.decrypt transparent freshSeed
      opening.2.1 [1]).1 = .error .aeadFailed := by
  decide +kernel

end DmSession
end Ramflux
