import Ramflux.Crypto.RatchetReceive
import Ramflux.Lib.Run

/-! Two sessions that encrypt and deliver in any order stay on one key schedule. -/
namespace Ramflux
open Schedule List Function

structure Sent where
  fromInitiator : Bool
  ciphertext : DmCiphertext
  plaintext : Bytes
  ad : Bytes

/-- Two sessions, the messages in flight, which of them were delivered, the ratchet keys used so far,
and whether the recipient has decrypted one. `party true` is the initiator. -/
structure PairState where
  party : Bool → DmSession
  sent : List Sent
  delivered : List ℕ
  publics : List Key32
  heard : Bool

inductive PairEvent
  | encrypt (fromInitiator : Bool) (plaintext ad : Bytes)
  | deliver (index : ℕ) (seed : Key32) (result : Except CryptoError Bytes)

namespace PairState

def start (initiator recipient : DmSession) (publics : List Key32) : PairState where
  party side := if side then initiator else recipient
  sent := []
  delivered := []
  publics := publics
  heard := false

def send (st : PairState) (side : Bool) (s : DmSession) (m : Sent) : PairState :=
  { st with party := update st.party side s, sent := st.sent ++ [m] }

def receive (st : PairState) (index : ℕ) (m : Sent) (ok : Bool) (s : DmSession) : PairState :=
  { st with
    party := update st.party (!m.fromInitiator) s
    delivered := index :: st.delivered
    publics := if s.dhsPublic = (st.party (!m.fromInitiator)).dhsPublic then st.publics
      else st.publics ++ s.dhsPublic.toList
    heard := st.heard || (m.fromInitiator && ok) }

end PairState

/-- A message not in the store is read within the skip limits, with a fresh key if one is drawn. -/
def DmSession.Admits (P : Primitives) (publics : List Key32) (seed : Key32) (s : DmSession)
    (header : DmHeader) : Prop :=
  s.skippedMessageSecrets[skippedKeyId header.dhRatchetPublic header.n]? = none →
    s.WithinLimits header ∧ (s.NeedsRatchet header →
      P.x25519Public seed ∉ publics ∧ P.x25519Public seed ≠ zeroKey)

/-- The recipient sends only after it has decrypted; a message is delivered at most once, in any order. -/
inductive PairStep (P : Primitives) (st : PairState) : PairEvent → PairState → Prop
  | encrypt {side : Bool} {plaintext ad : Bytes} {c : DmCiphertext} {s : DmSession}
      (hready : side = true ∨ st.heard = true)
      (henc : (st.party side).encrypt P plaintext ad = .ok (c, s)) :
      PairStep P st (.encrypt side plaintext ad)
        (st.send side s ⟨side, c, plaintext, ad⟩)
  | encryptFailed {side : Bool} {plaintext ad : Bytes} {e : CryptoError}
      (henc : (st.party side).encrypt P plaintext ad = .error e) :
      PairStep P st (.encrypt side plaintext ad) st
  | deliver {index : ℕ} {seed : Key32} {m : Sent} {result : Except CryptoError Bytes} {s : DmSession}
      (hsent : st.sent[index]? = some m) (hnew : index ∉ st.delivered)
      (hadmits : (st.party (!m.fromInitiator)).Admits P st.publics seed m.ciphertext.header)
      (hdec : (st.party (!m.fromInitiator)).decrypt P (.ok seed) m.ciphertext m.ad = (result, s)) :
      PairStep P st (.deliver index seed result) (st.receive index m result.isOk s)

/-- Steps in which a sending chain that has used up its counters sends no more. -/
def BoundedStep (P : Primitives) (st : PairState) (e : PairEvent) (st' : PairState) : Prop :=
  PairStep P st e st' ∧
    ∀ side plaintext ad, e = .encrypt side plaintext ad →
      (st.party side).sendCounter < u64Max

variable {seed : Key32} {c : DmCiphertext}

namespace BoundedStep
variable {P : Primitives} {st : PairState} {s : DmSession}

theorem encrypt {side : Bool} {plaintext ad : Bytes}
    (hready : side = true ∨ st.heard = true) (hctr : (st.party side).sendCounter < u64Max)
    (henc : (st.party side).encrypt P plaintext ad = .ok (c, s)) :
    BoundedStep P st (.encrypt side plaintext ad) (st.send side s ⟨side, c, plaintext, ad⟩) := by
  refine ⟨.encrypt hready henc, fun _ _ _ he => ?_⟩
  obtain ⟨rfl, -, -⟩ := PairEvent.encrypt.inj he
  exact hctr

theorem deliver {index : ℕ} {m : Sent} {result : Except CryptoError Bytes}
    (hsent : st.sent[index]? = some m) (hnew : index ∉ st.delivered)
    (hadmits : (st.party (!m.fromInitiator)).Admits P st.publics seed m.ciphertext.header)
    (hdec : (st.party (!m.fromInitiator)).decrypt P (.ok seed) m.ciphertext m.ad = (result, s)) :
    BoundedStep P st (.deliver index seed result) (st.receive index m result.isOk s) :=
  ⟨.deliver hsent hnew hadmits hdec, nofun⟩

end BoundedStep

/-- Both parties are at neighbouring levels; message `k` in flight is `(slot k).2` of level `(slot k).1`. -/
structure PairInv (S : Schedule) (st : PairState) (G : Ghost) (lvl rc : Bool → ℕ)
    (slot : ℕ → ℕ × ℕ) : Prop where
  party : ∀ side, Party S G side (lvl side) (rc side) (st.party side)
  apart : ∀ side, lvl side + 1 = lvl (!side) ∨ lvl (!side) + 1 = lvl side
  keys : ∀ side, KeysDistinct S G (lvl side)
  nonzero : ∀ side, ∀ i ≤ lvl side, S.publicAt G.key i ≠ zeroKey
  publics : ∀ side, ∀ i ≤ lvl side, S.publicAt G.key i ∈ st.publics
  len_zero : G.len 0 = 0
  len_le : ∀ j, G.len j ≤ u64Max
  len_future : ∀ j, (∀ side, lvl side < j) → G.len j = 0
  sent : ∀ k m, st.sent[k]? = some m →
    Genuine S G (slot k).1 (slot k).2 m.ciphertext m.plaintext m.ad ∧
    initiatorOwns (slot k).1 = m.fromInitiator ∧ (slot k).1 ≤ lvl m.fromInitiator ∧
    (slot k ∈ G.delivered ↔ k ∈ st.delivered)
  delivered_lt : ∀ k ∈ st.delivered, k < st.sent.length
  slots : ∀ k < st.sent.length, ∀ k' < st.sent.length, slot k = slot k' → k = k'
  heard : st.heard = true → 1 ≤ lvl false

theorem Genuine.send {S : Schedule} {G : Ghost} {j n ℓ : ℕ}
    {plaintext ad : Bytes} (hg : Genuine S G j n c plaintext ad)
    (hj : j < ℓ + 2) : Genuine S (G.send ℓ) j n c plaintext ad := by
  have hmono : G.len j ≤ (G.send ℓ).len j := by
    by_cases h : j = ℓ
    · rw [h, G.send_len_self]
      omega
    · rw [G.send_len_of_ne h]
  exact ⟨lt_of_lt_of_le hg.lt_len hmono, hg.header_n, hg.header_public,
    by rw [hg.header_pn, Ghost.previousLen_send hj], hg.header_epoch, hg.opens⟩

namespace PairInv
variable {S : Schedule} {st : PairState} {G : Ghost} {lvl rc : Bool → ℕ} {slot : ℕ → ℕ × ℕ}

theorem len_future_level (h : PairInv S st G lvl rc slot) (side : Bool) :
    G.len (max (lvl side) (lvl (!side)) + 1) = 0 := by
  refine h.len_future _ fun other => ?_
  rcases Bool.eq_or_eq_not other side with rfl | rfl <;> omega

variable {m : Sent} {s : DmSession} {index : ℕ}

section
variable (h : PairInv S st G lvl rc slot)
include h

theorem slot_le {k : ℕ} (hm : st.sent[k]? = some m)
    (side : Bool) : (slot k).1 ≤ max (lvl side) (lvl (!side)) := by
  obtain ⟨-, -, hle, -⟩ := h.sent k m hm
  rcases Bool.eq_or_eq_not m.fromInitiator side with heq | heq <;> rw [heq] at hle <;> omega

theorem send (hS : S.prims.Sound) {side : Bool} (hready : side = true ∨ st.heard = true)
    (hlt : (st.party side).sendCounter < u64Max) {plaintext ad : Bytes}
    (henc : (st.party side).encrypt S.prims plaintext ad = .ok (c, s)) :
    PairInv S (st.send side s ⟨side, c, plaintext, ad⟩) (G.send (lvl side)) lvl rc
      (update slot st.sent.length (lvl side, G.len (lvl side))) := by
  have hp := h.party side
  have hlevel : 1 ≤ lvl side := by
    cases side with
    | false => exact h.heard (hready.resolve_left nofun)
    | true =>
      by_contra h0
      have hown := hp.owns
      rw [show lvl true = 0 by omega] at hown
      simp [initiatorOwns] at hown
  rw [hp.sendCounter] at hlt
  have hapart := h.apart side
  have hgenuine := hp.encrypt_genuine hS hlevel h.len_le henc
  have hundelivered : (lvl side, G.len (lvl side)) ∉ G.delivered := by
    intro hd
    have hq := h.party (!side)
    have hpassed := hq.deliveredOnly _ _ hd (by rw [hp.owns, Bool.not_not])
    have hread := hq.read_le
    rcases hpassed.2 with ⟨-, hlt⟩ | ⟨heq, hlt⟩
    · omega
    · rw [← heq, Nat.add_sub_cancel] at hread
      omega
  have hslot : ∀ k < st.sent.length, update slot st.sent.length
      (lvl side, G.len (lvl side)) k = slot k := fun k hk =>
    update_of_ne (by omega) _ _
  have hlast : update slot st.sent.length (lvl side, G.len (lvl side)) st.sent.length =
      (lvl side, G.len (lvl side)) := update_self _ _ _
  have hearlier : ∀ k < st.sent.length, slot k ≠ (lvl side, G.len (lvl side)) := by
    intro k hk heq
    obtain ⟨m, hm⟩ : ∃ m, st.sent[k]? = some m := ⟨_, getElem?_eq_getElem hk⟩
    have hlt := (h.sent k m hm).1.lt_len
    rw [heq] at hlt
    exact lt_irrefl _ hlt
  have hlen : (st.send side s ⟨side, c, plaintext, ad⟩).sent.length = st.sent.length + 1 := by
    rw [PairState.send, length_append, length_singleton]
  refine ⟨?_, h.apart, h.keys, h.nonzero, h.publics, ?_, ?_, ?_, ?_, ?_, ?_, h.heard⟩
  · intro other
    rcases Bool.eq_or_eq_not other side with rfl | rfl
    · rw [PairState.send]
      simpa using hp.encrypt_party hlevel hlt henc
    · have hq : Party S (G.send (lvl side)) (!side) (lvl (!side)) (rc (!side)) (st.party (!side)) := by
        refine (h.party (!side)).congr (fun i _ => rfl) ?_ ?_ (fun j n _ => Iff.rfl)
        · intro i hi hne
          exact G.send_len_of_ne (by omega)
        · by_cases heq : lvl (!side) - 1 = lvl side
          · rw [heq, G.send_len_self]
            omega
          · rw [G.send_len_of_ne heq]
      simpa [PairState.send] using hq
  · rw [G.send_len_of_ne (by omega)]
    exact h.len_zero
  · intro j
    by_cases hj : j = lvl side
    · rw [hj, G.send_len_self]
      omega
    · rw [G.send_len_of_ne hj]
      exact h.len_le j
  · intro j hj
    rw [G.send_len_of_ne (by have := hj side; omega)]
    exact h.len_future j hj
  · intro k m hm
    rw [PairState.send, getElem?_append] at hm
    split_ifs at hm with hk
    · rw [hslot k hk]
      obtain ⟨hg, hown, hle, hdel⟩ := h.sent k m hm
      have hj := h.slot_le hm side
      exact ⟨hg.send (by omega), hown, hle, hdel⟩
    · obtain ⟨hk', rfl⟩ : k = st.sent.length ∧ _ = m := by
        have hlt := (List.getElem?_eq_some_iff.mp hm).1
        simp only [length_singleton] at hlt
        have hk0 : k - st.sent.length = 0 := by omega
        rw [hk0] at hm
        exact ⟨by omega, Option.some.inj hm⟩
      rw [hk', hlast]
      refine ⟨hgenuine, hp.owns, le_rfl, iff_of_false hundelivered fun hmem => ?_⟩
      exact lt_irrefl _ (h.delivered_lt _ hmem)
  · intro k hk
    rw [hlen]
    exact Nat.lt_succ_of_lt (h.delivered_lt k hk)
  · rw [hlen]
    intro k hk k' hk' heq
    rcases Nat.lt_succ_iff_lt_or_eq.mp hk with hk | rfl
    · rcases Nat.lt_succ_iff_lt_or_eq.mp hk' with hk' | rfl
      · rw [hslot k hk, hslot k' hk'] at heq
        exact h.slots k hk k' hk' heq
      · rw [hslot k hk, hlast] at heq
        exact absurd heq (hearlier k hk)
    · rcases Nat.lt_succ_iff_lt_or_eq.mp hk' with hk' | rfl
      · rw [hslot k' hk', hlast] at heq
        exact absurd heq.symm (hearlier k' hk')
      · rfl

/-- A receiver that stayed on its level: only the delivered message changes the history. -/
theorem receive_same (hm : st.sent[index]? = some m) {rc' : ℕ}
    (hs : Party S (G.deliver (slot index).1 (slot index).2) (!m.fromInitiator)
      (lvl (!m.fromInitiator)) rc' s) (hlevel : 1 ≤ lvl (!m.fromInitiator))
    (hpub : s.dhsPublic = (st.party (!m.fromInitiator)).dhsPublic) :
    PairInv S (st.receive index m true s) (G.deliver (slot index).1 (slot index).2) lvl
      (update rc (!m.fromInitiator) rc') slot := by
  obtain ⟨-, hown, -, -⟩ := h.sent index m hm
  have hindex := (List.getElem?_eq_some_iff.mp hm).1
  have hpublics : (st.receive index m true s).publics = st.publics := if_pos hpub
  refine ⟨?_, h.apart, h.keys, h.nonzero, ?_, h.len_zero, h.len_le, h.len_future, ?_, ?_, h.slots, ?_⟩
  · intro side
    rcases Bool.eq_or_eq_not side (!m.fromInitiator) with rfl | rfl
    · rw [PairState.receive]
      simpa using hs
    · rw [PairState.receive, Bool.not_not]
      have hq : Party S (G.deliver (slot index).1 (slot index).2) m.fromInitiator
          (lvl m.fromInitiator) (rc m.fromInitiator) (st.party m.fromInitiator) := by
        refine (h.party m.fromInitiator).congr (fun i _ => rfl) (fun i _ _ => rfl) le_rfl ?_
        intro j n hj
        refine or_iff_right fun heq => ?_
        rw [(Prod.mk.inj heq).1, hown] at hj
        simp at hj
      simpa using hq
  · rw [hpublics]
    exact h.publics
  · intro k m' hm'
    obtain ⟨hg, hown', hle, hdel⟩ := h.sent k m' hm'
    refine ⟨⟨hg.1, hg.2, hg.3, hg.4, hg.5, hg.6⟩, hown', hle, ?_⟩
    rw [G.mem_deliver, hdel, PairState.receive, mem_cons]
    refine or_congr_left ⟨fun heq => ?_, fun heq => by rw [heq]⟩
    exact h.slots k (List.getElem?_eq_some_iff.mp hm').1 index hindex heq
  · intro k hk
    rcases mem_cons.mp hk with rfl | hk
    · exact hindex
    · exact h.delivered_lt k hk
  · intro hheard
    cases hside : m.fromInitiator with
    | true => rwa [hside] at hlevel
    | false =>
      refine h.heard ?_
      simpa [PairState.receive, hside] using hheard

theorem receive_next {ℓ rc' : ℕ} (hm : st.sent[index]? = some m)
    (hℓ : lvl (!m.fromInitiator) = ℓ) (hslot : (slot index).1 = ℓ + 1)
    (hs : Party S ((G.draw (ℓ + 2) seed).deliver (ℓ + 1) (slot index).2) (!m.fromInitiator) (ℓ + 2)
      rc' s) (hunused : S.prims.x25519Public seed ∉ st.publics)
    (hnonzero : S.prims.x25519Public seed ≠ zeroKey) :
    PairInv S (st.receive index m true s) ((G.draw (ℓ + 2) seed).deliver (ℓ + 1) (slot index).2)
      (update lvl (!m.fromInitiator) (ℓ + 2)) (update rc (!m.fromInitiator) rc') slot := by
  obtain ⟨-, hown, hle, -⟩ := h.sent index m hm
  have hindex := (List.getElem?_eq_some_iff.mp hm).1
  have hsender : lvl m.fromInitiator = ℓ + 1 := by
    have := h.apart m.fromInitiator
    omega
  have hlow : ∀ i ≤ ℓ + 1, (G.draw (ℓ + 2) seed).key i = G.key i := fun i hi =>
    G.draw_key_of_lt seed (by omega)
  have hpubLow : ∀ i ≤ ℓ + 1, S.publicAt (G.draw (ℓ + 2) seed).key i = S.publicAt G.key i :=
    fun i hi => S.publicAt_congr fun i' hi' => hlow i' (by omega)
  have hpubTop : S.publicAt (G.draw (ℓ + 2) seed).key (ℓ + 2) = S.prims.x25519Public seed := by
    rw [publicAt, G.draw_key_self]
  have hkeysSender := h.keys m.fromInitiator
  have husedSender := h.publics m.fromInitiator
  have hnonzeroSender := h.nonzero m.fromInitiator
  rw [hsender] at hkeysSender husedSender hnonzeroSender
  have hseed : ∀ i ≤ ℓ + 1, S.publicAt G.key i ≠ S.prims.x25519Public seed := by
    intro i hi heq
    exact hunused (heq ▸ husedSender i hi)
  have hkeys : KeysDistinct S (G.draw (ℓ + 2) seed) (ℓ + 2) := Party.keysDistinct_draw hkeysSender hseed
  have hpublics : (st.receive index m true s).publics =
      st.publics ++ [S.prims.x25519Public seed] := by
    have hne : s.dhsPublic ≠ (st.party (!m.fromInitiator)).dhsPublic := by
      rw [hs.dhsPublic, (h.party _).dhsPublic, hℓ]
      intro heq
      exact hseed ℓ (by omega) (hpubTop ▸ (Option.some.inj heq).symm)
    rw [PairState.receive, if_neg hne, hs.dhsPublic]
    exact congrArg (fun k => st.publics ++ [k]) hpubTop
  -- Levels after the step, by side.
  have hlvl : ∀ side, update lvl (!m.fromInitiator) (ℓ + 2) side =
      if side = !m.fromInitiator then ℓ + 2 else ℓ + 1 := by
    intro side
    rcases Bool.eq_or_eq_not side (!m.fromInitiator) with rfl | rfl
    · simp
    · simp [hsender]
  have hlvl_le : ∀ side, update lvl (!m.fromInitiator) (ℓ + 2) side ≤ ℓ + 2 := by
    intro side
    rw [hlvl]
    split_ifs <;> omega
  have hpubNonzero : ∀ i ≤ ℓ + 2, S.publicAt (G.draw (ℓ + 2) seed).key i ≠ zeroKey := by
    intro i hi
    by_cases htop : i = ℓ + 2
    · rw [htop, hpubTop]
      exact hnonzero
    · rw [hpubLow i (by omega)]
      exact hnonzeroSender i (by omega)
  have hpubUsed : ∀ i ≤ ℓ + 2, S.publicAt (G.draw (ℓ + 2) seed).key i ∈
      st.publics ++ [S.prims.x25519Public seed] := by
    intro i hi
    rw [mem_append, mem_singleton]
    by_cases htop : i = ℓ + 2
    · rw [htop, hpubTop]
      exact .inr rfl
    · rw [hpubLow i (by omega)]
      exact .inl (husedSender i (by omega))
  refine ⟨?_, ?_, ?_, ?_, ?_, h.len_zero, h.len_le, ?_, ?_, ?_, h.slots, ?_⟩
  · intro side
    rcases Bool.eq_or_eq_not side (!m.fromInitiator) with rfl | rfl
    · rw [PairState.receive]
      simpa using hs
    · rw [PairState.receive, Bool.not_not]
      have hq : Party S ((G.draw (ℓ + 2) seed).deliver (ℓ + 1) (slot index).2) m.fromInitiator
          (lvl m.fromInitiator) (rc m.fromInitiator) (st.party m.fromInitiator) := by
        refine (h.party m.fromInitiator).congr (fun i hi => hlow i (by omega)) (fun i _ _ => rfl)
          le_rfl ?_
        intro j n hj
        refine or_iff_right fun heq => ?_
        rw [(Prod.mk.inj heq).1, ← hslot, hown] at hj
        simp at hj
      simpa using hq
  · intro side
    rw [hlvl, hlvl]
    rcases Bool.eq_or_eq_not side (!m.fromInitiator) with rfl | rfl <;> simp
  · intro side i hi j hj
    exact hkeys i (hi.trans (hlvl_le side)) j (hj.trans (hlvl_le side))
  · intro side i hi
    exact hpubNonzero i (hi.trans (hlvl_le side))
  · intro side i hi
    rw [hpublics]
    exact hpubUsed i (hi.trans (hlvl_le side))
  · intro j hj
    refine h.len_future j fun side => ?_
    have hr := hj (!m.fromInitiator)
    rw [hlvl, if_pos rfl] at hr
    rcases Bool.eq_or_eq_not side m.fromInitiator with rfl | rfl <;> omega
  · intro k m' hm'
    obtain ⟨hg, hown', hle', hdel⟩ := h.sent k m' hm'
    have hj := h.slot_le hm' m.fromInitiator
    have hg' := Party.genuine_draw hg (show (slot k).1 < ℓ + 2 by omega) seed
    refine ⟨⟨hg'.1, hg'.2, hg'.3, hg'.4, hg'.5, hg'.6⟩, hown', ?_, ?_⟩
    · rw [hlvl]
      split_ifs with hside
      · omega
      · omega
    · rw [Ghost.mem_deliver, ← hslot]
      change slot k = slot index ∨ slot k ∈ G.delivered ↔ _
      rw [hdel, PairState.receive, mem_cons]
      refine or_congr_left ⟨fun heq => ?_, fun heq => by rw [heq]⟩
      exact h.slots k (List.getElem?_eq_some_iff.mp hm').1 index hindex heq
  · intro k hk
    rcases mem_cons.mp hk with rfl | hk
    · exact hindex
    · exact h.delivered_lt k hk
  · intro _
    rw [hlvl]
    split_ifs <;> omega

theorem receive (hS : S.prims.Sound) (hm : st.sent[index]? = some m) (hnew : index ∉ st.delivered)
    (hadmits : (st.party (!m.fromInitiator)).Admits S.prims st.publics seed m.ciphertext.header) :
    ∃ s G' lvl' rc', (st.party (!m.fromInitiator)).decrypt S.prims (.ok seed) m.ciphertext
        m.ad = (.ok m.plaintext, s) ∧ PairInv S (st.receive index m true s) G' lvl' rc' slot := by
  obtain ⟨hg, hown, hle, hdel⟩ := h.sent index m hm
  have hundelivered : slot index ∉ G.delivered := fun hd => hnew (hdel.mp hd)
  have hp := h.party (!m.fromInitiator)
  have hapart := h.apart m.fromInitiator
  have hpeer : initiatorOwns (slot index).1 = !initiatorOwns (lvl (!m.fromInitiator)) := by
    rw [hown, hp.owns, Bool.not_not]
  have hlevel : (slot index).1 ≠ lvl (!m.fromInitiator) := by
    intro heq
    rw [heq] at hpeer
    simp at hpeer
  by_cases hpassed : G.Passed (lvl (!m.fromInitiator)) (rc (!m.fromInitiator)) (slot index).1
      (slot index).2
  · obtain ⟨s, hdec, hs, hpub⟩ := hp.decrypt_passed (h.keys _) hg hpassed hundelivered (.ok seed)
    refine ⟨s, _, _, _, hdec, h.receive_same hm hs ?_ hpub⟩
    rcases hpassed.2 with hlt | heq <;> omega
  · by_cases hahead : (slot index).1 = lvl (!m.fromInitiator) + 1
    · have hsender : lvl m.fromInitiator = lvl (!m.fromInitiator) + 1 := by omega
      have hkeys := h.keys m.fromInitiator
      have hnonzero := h.nonzero m.fromInitiator
      have hused := h.publics m.fromInitiator
      rw [hsender] at hkeys hnonzero hused
      obtain ⟨hsecs, -⟩ := hp.notMem_stores (Nat.le_succ _) hkeys (le_of_eq hahead) hpassed
      rw [← hg.header_public, ← hg.header_n] at hsecs
      obtain ⟨hlimits, hfresh⟩ := hadmits hsecs
      have hneeds : (st.party (!m.fromInitiator)).NeedsRatchet m.ciphertext.header := by
        refine ⟨?_, ?_⟩
        · rw [hg.header_public, hahead]
          exact hnonzero _ le_rfl
        · rw [hp.dhrPublic, hg.header_public, hahead]
          split_ifs with h0
          · simp
          · intro heq
            have := hkeys _ (by omega) _ le_rfl (Option.some.inj heq)
            omega
      obtain ⟨hunused, hseedNonzero⟩ := hfresh hneeds
      have hfuture := h.len_future_level m.fromInitiator
      rw [hsender, Nat.max_eq_left (Nat.le_succ _)] at hfuture
      rw [hahead] at hg
      obtain ⟨s, hdec, hs⟩ := hp.decrypt_next hS h.len_zero h.len_le hkeys (hnonzero _ le_rfl) hfuture
        hg hlimits (fun i hi heq => hunused (heq ▸ hused i hi))
      exact ⟨s, _, _, _, hdec, h.receive_next hm rfl hahead hs hunused hseedNonzero⟩
    · have hcur : (slot index).1 + 1 = lvl (!m.fromInitiator) := by
        by_contra hne
        exact hpassed ⟨hpeer, .inl ⟨by omega, hg.lt_len⟩⟩
      have hread : rc (!m.fromInitiator) ≤ (slot index).2 := by
        by_contra hlt
        exact hpassed ⟨hpeer, .inr ⟨hcur, by omega⟩⟩
      obtain ⟨hsecs, -⟩ := hp.notMem_stores le_rfl (h.keys _)
        (show (slot index).1 ≤ lvl (!m.fromInitiator) by omega) hpassed
      rw [← hg.header_public, ← hg.header_n] at hsecs
      obtain ⟨s, hdec, hs, hpub⟩ := hp.decrypt_current h.len_zero h.len_le (h.keys _) hg hcur hread
        (hadmits hsecs).1 (.ok seed)
      exact ⟨s, _, _, _, hdec, h.receive_same hm hs (by omega) hpub⟩

end

end PairInv

end Ramflux
