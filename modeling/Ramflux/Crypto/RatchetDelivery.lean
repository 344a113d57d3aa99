import Ramflux.Crypto.RatchetInOrder

/-! Every message of a pair of sessions opens as long as no sending chain runs out of counters. -/
namespace Ramflux
open Schedule List

namespace PairSetup
variable {P : Primitives} (A : PairSetup P)

theorem run_inv (hP : P.Sound) {events : List PairEvent} {st : PairState}
    (hrun : Run (BoundedStep P) A.start events st) :
    ∃ G lvl rc slot, PairInv A.schedule st G lvl rc slot := by
  refine hrun.preserves (P := fun st => ∃ G lvl rc slot, PairInv A.schedule st G lvl rc slot)
    ⟨_, _, _, _, A.start_inv⟩ ?_
  rintro st e st' ⟨G, lvl, rc, slot, hinv⟩ ⟨hstep, hbound⟩
  cases hstep with
  | encrypt hready henc => exact ⟨_, _, _, _, hinv.send hP hready (hbound _ _ _ rfl) henc⟩
  | encryptFailed henc => exact ⟨_, _, _, _, hinv⟩
  | deliver hsent hnew hadmits hdec =>
    obtain ⟨s, G', lvl', rc', hok, hinv'⟩ := hinv.receive hP hsent hnew hadmits
    cases hdec.symm.trans hok
    exact ⟨_, _, _, _, hinv'⟩

theorem sent_mono {e : PairEvent} {st st' : PairState} (hstep : PairStep P st e st') {index : ℕ}
    {m : Sent} (hm : st.sent[index]? = some m) : st'.sent[index]? = some m := by
  cases hstep with
  | encrypt hready henc =>
    rw [PairState.send, List.getElem?_append_left (List.getElem?_eq_some_iff.mp hm).1]
    exact hm
  | encryptFailed henc | deliver hsent hnew hadmits hdec => exact hm

/-- For every interleaving of encryptions and order of deliveries within the skip limits, with at most
`2^64 - 1` messages on a chain, each delivered message decrypts to its plaintext. -/
theorem delivered_plaintext (hP : P.Sound) {events : List PairEvent} {st : PairState}
    (hrun : Run (BoundedStep P) A.start events st) {index : ℕ} {seed : Key32}
    {result : Except CryptoError Bytes} (hmem : .deliver index seed result ∈ events) :
    ∃ m, st.sent[index]? = some m ∧ result = .ok m.plaintext := by
  induction hrun with
  | nil => simp at hmem
  | @snoc events st st' e hrun hstep ih =>
    rcases mem_append.mp hmem with hold | hlast
    · obtain ⟨m, hm, hres⟩ := ih hold
      exact ⟨m, sent_mono hstep.1 hm, hres⟩
    · obtain rfl : .deliver index seed result = e := by simpa using hlast
      obtain ⟨G, lvl, rc, slot, hinv⟩ := A.run_inv hP hrun
      obtain ⟨hstep, -⟩ := hstep
      cases hstep with
      | deliver hsent hnew hadmits hdec =>
        obtain ⟨s, G', lvl', rc', hok, -⟩ := hinv.receive hP hsent hnew hadmits
        exact ⟨_, hsent, (Prod.mk.inj (hdec.symm.trans hok)).1⟩

/-- The second of two messages is read first and leaves the secret that opens the first one. -/
theorem crossed_run {c c' : DmCiphertext} {plaintext plaintext' ad ad' : Bytes} {s s' t : DmSession}
    {seed : Key32} {result : Except CryptoError Bytes}
    (henc : A.initiator.encrypt P plaintext ad = .ok (c, s))
    (henc' : s.encrypt P plaintext' ad' = .ok (c', s')) (hctr : A.initiator.sendCounter < u64Max)
    (hctr' : s.sendCounter < u64Max) (hadmits : A.recipient.Admits P A.start.publics seed c'.header)
    (hdec : A.recipient.decrypt P (.ok seed) c' ad' = (result, t))
    (hstored : t.skippedMessageSecrets[skippedKeyId c.header.dhRatchetPublic c.header.n]?.isSome) :
    ∃ result' st, Run (BoundedStep P) A.start [.encrypt true plaintext ad,
        .encrypt true plaintext' ad', .deliver 1 seed result, .deliver 0 seed result'] st ∧
      st.sent = [⟨true, c, plaintext, ad⟩, ⟨true, c', plaintext', ad'⟩] := by
  have hfirst : BoundedStep P A.start _ _ := .encrypt (.inl rfl) hctr henc
  have hsecond : BoundedStep P (A.start.send true s ⟨true, c, plaintext, ad⟩) _ _ :=
    .encrypt (.inl rfl) hctr' henc'
  have hthird : BoundedStep P ((A.start.send true s ⟨true, c, plaintext, ad⟩).send true s'
      ⟨true, c', plaintext', ad'⟩) (.deliver 1 seed result) _ :=
    .deliver rfl not_mem_nil hadmits hdec
  have hnew : 0 ∉ [1] := by decide
  exact ⟨_, _, (((Run.single hfirst).snoc hsecond).snoc hthird).snoc (.deliver rfl hnew
    (fun h => absurd h (Option.isSome_iff_ne_none.mp hstored)) rfl), rfl⟩

end PairSetup

/-- A conversation over the transparent primitives. -/
def meeting : PairSetup transparent where
  rootSeed := Vector.replicate 32 7
  initiatorHash := Vector.replicate 32 8
  recipientHash := Vector.replicate 32 9
  transcriptHash := Vector.replicate 32 10
  initiatorSeed := Vector.replicate 32 2
  recipientSeed := Vector.replicate 32 1
  initiator := (DmSession.initiatorWithRemoteRatchet transparent (Vector.replicate 32 7)
    (Vector.replicate 32 8) (Vector.replicate 32 9) (Vector.replicate 32 10)
    (transparent.keyPairFromSeed (Vector.replicate 32 2)) (Vector.replicate 32 1)).toOption.get
      (by decide +kernel)
  recipient := (DmSession.recipientWithLocalRatchet transparent (Vector.replicate 32 7)
    (Vector.replicate 32 9) (Vector.replicate 32 8) (Vector.replicate 32 10)
    (transparent.keyPairFromSeed (Vector.replicate 32 1))).toOption.get (by decide +kernel)
  initiator_eq := Fallible.eq_ok_get _
  recipient_eq := Fallible.eq_ok_get _
  keys_ne := by decide +kernel
  recipient_ne_zero := by decide +kernel
  initiator_ne_zero := by decide +kernel

theorem meeting_unused : transparent.x25519Public (Vector.replicate 32 3) ∉ meeting.start.publics := by
  decide +kernel

theorem meeting_nonzero : transparent.x25519Public (Vector.replicate 32 3) ≠ zeroKey := by
  decide +kernel

theorem transparent_seals (key : Key32) (nonce : Nonce12) (aad msg : Bytes) :
    (transparent.aeadEncrypt key nonce aad msg).isSome := rfl

/-- Two messages, and what the recipient meets when the second one arrives first. -/
theorem meeting_crossed : (meeting.initiator.encrypt transparent [104, 105] [1]).toOption.map
    (fun first => (first.2.encrypt transparent [121, 111] [2]).toOption.map fun second =>
      (first.2.sendCounter, meeting.recipient.pnGap second.1.header,
        meeting.recipient.counterGap second.1.header, (meeting.recipient.decrypt transparent
          (.ok (Vector.replicate 32 3)) second.1 [2]).2.skippedMessageSecrets[
            skippedKeyId first.1.header.dhRatchetPublic first.1.header.n]?.isSome)) =
      some (some (1, 0, 1, true)) := by
  decide +kernel

theorem PairSetup.delivered_plaintext_crossed : ∃ first second st,
    Run (BoundedStep transparent) meeting.start [.encrypt true [104, 105] [1],
      .encrypt true [121, 111] [2], .deliver 1 (Vector.replicate 32 3) second,
      .deliver 0 (Vector.replicate 32 3) first] st ∧
    first = .ok [104, 105] ∧ second = .ok [121, 111] := by
  obtain ⟨⟨c, s⟩, henc, hrest⟩ := Fallible.map_toOption_eq_some meeting_crossed
  obtain ⟨⟨c', s'⟩, henc', hfacts⟩ := Fallible.map_toOption_eq_some hrest
  obtain ⟨hctr, hpn, hgap, hstored⟩ := by simpa only [Prod.mk.injEq] using hfacts
  have hlimits : meeting.recipient.WithinLimits c'.header := by
    refine ⟨hpn.trans_le (by decide +kernel), hgap.trans_le (by decide +kernel), ?_⟩
    rw [hpn, hgap]
    decide +kernel
  obtain ⟨first, st, hrun, hsent⟩ := meeting.crossed_run henc henc' (by decide +kernel)
    (hctr.trans_lt (by decide)) (fun _ => ⟨hlimits, fun _ => ⟨meeting_unused, meeting_nonzero⟩⟩) rfl hstored
  obtain ⟨_, hm, hres⟩ := meeting.delivered_plaintext transparent_sound hrun
    (mem_cons_of_mem _ (mem_cons_of_mem _ (mem_cons_of_mem _ (mem_singleton.mpr rfl))))
  obtain ⟨_, hm', hres'⟩ := meeting.delivered_plaintext transparent_sound hrun
    (mem_cons_of_mem _ (mem_cons_of_mem _ mem_cons_self))
  rw [hsent] at hm hm'
  cases hm
  cases hm'
  exact ⟨_, _, st, hrun, hres, hres'⟩

section
variable (key : Key32)

theorem turned_ne : turned key ≠ key := by
  intro h
  have hbyte : key[0] ^^^ (1 : UInt8) = key[0] := by
    simpa [turned] using congrArg (fun k : Key32 => k[0]) h
  have hone : (1 : UInt8) = 0 := by
    have hcancel := congrArg (key[0] ^^^ ·) hbyte
    rwa [← UInt8.xor_assoc, UInt8.xor_self, UInt8.zero_xor] at hcancel
  exact absurd hone (by decide)

theorem turned_turned : turned (turned key) = key := by
  ext i hi
  by_cases h0 : i = 0
  · subst h0
    rw [turned, turned, Vector.getElem_set_self, Vector.getElem_set_self, UInt8.xor_assoc, UInt8.xor_self,
      UInt8.xor_zero]
  · rw [turned, turned, Vector.getElem_set_ne _ _ (Ne.symm h0), Vector.getElem_set_ne _ _ (Ne.symm h0)]

theorem sliceBytes_append_left (rest : Bytes) : sliceBytes (key.toList ++ rest) 0 32 = key := by
  refine Vector.ext fun i hi => ?_
  rw [sliceBytes, Vector.getElem_ofFn, Nat.zero_add, getD_eq_getElem?_getD,
    getElem?_append_left (by simpa using hi)]
  simp [hi]

end

theorem sliceBytes_append_right (block key : Key32) (rest : Bytes) :
    sliceBytes (block.toList ++ (key.toList ++ rest)) 32 32 = key := by
  refine Vector.ext fun i hi => ?_
  rw [sliceBytes, Vector.getElem_ofFn, getD_eq_getElem?_getD,
    getElem?_append_right (by simp), getElem?_append_left (by simpa using hi)]
  simp [hi]

theorem transparent_hmac_extract (salt : Bytes) (key : Key32) :
    transparent.hmacSha256 salt key.toList = key := by
  have hkey := sliceBytes_append_left key []
  rw [append_nil] at hkey
  simp only [transparent]
  rw [if_pos (by simp), hkey]

theorem transparent_hmac_block {key : Key32} {info : Bytes} (h : 32 ≤ info.length) (previous : Bytes)
    (counter : UInt8) : transparent.hmacSha256 key.toList (previous ++ info ++ [counter]) =
      if counter = 1 then turned key else key := by
  have hlen : (previous ++ info ++ [counter]).length ≠ 32 := by
    simp only [length_append, length_singleton]
    omega
  have hkey := sliceBytes_append_left key []
  rw [append_nil] at hkey
  simp only [transparent]
  rw [if_neg hlen, hkey, getLast?_concat]
  simp only [Option.some.injEq]

theorem transparent_hkdf (salt : Bytes) (key : Key32) {info : Bytes} (h : 32 ≤ info.length)
    {length : ℕ} (hlow : 64 ≤ length) (hhigh : length ≤ 8128) :
    ∃ rest, transparent.hkdfSha256 salt key.toList info length =
      .ok ((turned key).toList ++ (key.toList ++ rest)) := by
  obtain ⟨blocks, hblocks⟩ : ∃ blocks, (length + 31) / 32 = blocks + 2 :=
    ⟨(length + 31) / 32 - 2, by omega⟩
  obtain ⟨out, hout⟩ := transparent.hkdfExpand_isOk key.toList info blocks key.toList 3 (by omega)
  refine ⟨out.take (length - 64), ?_⟩
  rw [Primitives.hkdfSha256, transparent_hmac_extract, hblocks]
  simp only [Primitives.hkdfExpand, Nat.reduceAdd, transparent_hmac_block h]
  simp [hout, Bind.bind, Except.bind, Pure.pure, Except.pure, take_append, Nat.sub_sub]
  rw [take_of_length_le (by rw [Vector.length_toList]; omega),
    take_of_length_le (by rw [Vector.length_toList]; omega)]

theorem transparent_chainStep (chainKey : Key32) {context : Bytes} (h : 32 ≤ context.length) :
    transparent.chainStep chainKey context = (turned chainKey, chainKey) := by
  have hinfo : 32 ≤ (utf8 Domain.dmRatchetChain ++ context).length := by
    rw [length_append]
    omega
  obtain ⟨rest, hrest⟩ := transparent_hkdf
    (transparent.blake3_256 Domain.dmRatchetChain context).toList chainKey hinfo le_rfl (by decide)
  have hkdf := transparent.kdfCk_eq chainKey context
  rw [Primitives.kdfCk, hrest] at hkdf
  rw [← Except.ok.inj hkdf, sliceBytes_append_left, sliceBytes_append_right]

theorem transparent_aeadKey {secret : Key32} {context : Bytes} {keys : MessageKeys}
    (h : 32 ≤ context.length) (hkeys : transparent.deriveMessageKeys secret context = .ok keys) :
    keys.aeadKey = turned secret := by
  have hinfo : 32 ≤ (utf8 Domain.dmRatchetMessage ++ context).length := by
    rw [length_append]
    omega
  obtain ⟨rest, hrest⟩ := transparent_hkdf
    (transparent.blake3_256 Domain.dmRatchetMessage context).toList secret hinfo
    (show 64 ≤ 108 by decide) (by decide)
  rw [Primitives.deriveMessageKeys, hrest] at hkeys
  rw [← Except.ok.inj hkeys]
  exact sliceBytes_append_left _ _

theorem transparent_wrong_key {key key' : Key32} (hne : key' ≠ key) {nonce : Nonce12}
    {aad msg sealed : Bytes} (hseal : transparent.aeadEncrypt key' nonce aad msg = some sealed) :
    transparent.aeadDecrypt key nonce aad sealed = none := by
  obtain rfl : key'.toList ++ msg = sealed := by simpa [transparent] using hseal
  have htake : (key'.toList ++ msg).take 32 = key'.toList := by simp
  simp only [transparent]
  rw [htake, if_neg fun h => hne (Vector.toList_inj.mp h)]

/-- A message sealed with the secret after the one its counter names does not open. -/
theorem transparent_overrun (S : Schedule) (hS : S.prims = transparent) (K : ℕ → Key32) (n : ℕ)
    {canonical ad aad msg sealed : Bytes} {keys keys' : MessageKeys} {nonce : Nonce12}
    (hkeys : transparent.deriveMessageKeys (S.secretAt K 1 n) (transparent.messageContext S.sessionId
      (directionAt 1) n canonical ad) = .ok keys)
    (hkeys' : transparent.deriveMessageKeys (transparent.chainStep (S.chainAt K 1 (n + 1))
      (S.contextAt K 1 n)).2 (transparent.messageContext S.sessionId (directionAt 1) n canonical
      ad) = .ok keys') (hseal : transparent.aeadEncrypt keys'.aeadKey nonce aad msg = some sealed) :
    transparent.aeadDecrypt keys.aeadKey nonce aad sealed = none := by
  have hcontext : 32 ≤ (S.contextAt K 1 n).length := by
    simp only [Schedule.contextAt, directionContext, length_append, Vector.length_toList]
    omega
  have hmsg : 32 ≤ (transparent.messageContext S.sessionId (directionAt 1) n canonical
      ad).length := by
    simp only [Primitives.messageContext, length_append, Vector.length_toList]
    omega
  have hkey := transparent_aeadKey hmsg hkeys
  have hkey' := transparent_aeadKey hmsg hkeys'
  rw [Schedule.secretAt, hS, transparent_chainStep _ hcontext] at hkey
  rw [Schedule.chainAt, hS, transparent_chainStep _ hcontext, transparent_chainStep _ hcontext,
    turned_turned] at hkey'
  refine transparent_wrong_key ?_ hseal
  rw [hkey, hkey']
  exact (turned_ne _).symm

/-- At the counter's limit two messages share it, and the second does not open if it arrives first. -/
theorem PairSetup.overrun_not_delivered : ¬ ∀ events st,
    Run (PairStep transparent) meeting.start events st →
      ∀ index seed result, PairEvent.deliver index seed result ∈ events →
        ∃ m, st.sent[index]? = some m ∧ result = .ok m.plaintext := by
  intro hall
  obtain ⟨events, st, G, lvl, rc, slot, hrun, h⟩ := meeting.exists_inOrder transparent_sound
    transparent_seals meeting_unused meeting_nonzero le_rfl
  obtain ⟨c, s, c', s', henc, henc'⟩ := h.exists_overrun transparent_seals [1] [] [2] []
  obtain ⟨hsame, hlimits, hdec⟩ := h.overrun_refused henc henc'
    (fun _ _ _ _ _ _ _ => transparent_overrun meeting.schedule rfl G.key u64Max)
    (.ok (Vector.replicate 32 3))
  have hfirst : PairStep transparent st (.encrypt true [1] []) (st.send true s ⟨true, c, [1], []⟩) :=
    .encrypt (.inl rfl) henc
  have hparty : (st.send true s ⟨true, c, [1], []⟩).party true = s := by
    simp [PairState.send]
  have hsecond : PairStep transparent (st.send true s ⟨true, c, [1], []⟩) (.encrypt true [2] [])
      ((st.send true s ⟨true, c, [1], []⟩).send true s' ⟨true, c', [2], []⟩) :=
    .encrypt (.inl rfl) (by rw [hparty, henc'])
  generalize hst' : (st.send true s ⟨true, c, [1], []⟩).send true s' ⟨true, c', [2], []⟩ = st'
    at hsecond
  have hsent : st'.sent[st.sent.length + 1]? = some ⟨true, c', [2], []⟩ := by
    simp [← hst', PairState.send]
  have hreceiver : st'.party false = st.party false := by
    simp [← hst', PairState.send]
  have hnew : st.sent.length + 1 ∉ st'.delivered := by
    intro hmem
    rw [← hst'] at hmem
    have := h.inv.delivered_lt _ hmem
    omega
  have hadmits : (st'.party false).Admits transparent st'.publics (Vector.replicate 32 3) c'.header := by
    intro _
    rw [hreceiver]
    exact ⟨hlimits, fun hneeds => absurd hneeds hsame⟩
  rw [← hreceiver] at hdec
  have hthird := PairStep.deliver hsent hnew hadmits hdec
  have hlonger := (((hrun.mono fun _ _ _ hstep => hstep.1).snoc hfirst).snoc hsecond).snoc hthird
  obtain ⟨m, -, hres⟩ := hall _ _ hlonger (st.sent.length + 1) (Vector.replicate 32 3)
    (.error .aeadFailed) (mem_append_right _ (mem_singleton.mpr rfl))
  cases hres

end Ramflux
