import Ramflux.Protocol.Header
import Ramflux.Lib.Fallible
import Mathlib.Data.Nat.Digits.Lemmas

/-! The header of a media frame: two integers, each in the fewest bytes, share a configuration byte, so
that headers and accepted encodings correspond. -/
namespace Ramflux
open List Fallible

def ofBigEndian (bytes : Bytes) : ℕ := ofLittleEndian bytes.reverse

theorem ofBigEndian_bigEndian {width n : ℕ} (h : n < 256 ^ width) :
    ofBigEndian (bigEndian width n) = n := by
  rw [ofBigEndian, reverse_bigEndian, ofLittleEndian_littleEndian h]

theorem ofLittleEndian_eq_ofDigits (bytes : Bytes) :
    ofLittleEndian bytes = Nat.ofDigits 256 (bytes.map UInt8.toNat) := by
  induction bytes with
  | nil => rfl
  | cons b bytes ih =>
    rw [ofLittleEndian, ih, map_cons, Nat.ofDigits_cons]

theorem ofBigEndian_lt (bytes : Bytes) : ofBigEndian bytes < 256 ^ bytes.length := by
  have hlt := @Nat.ofDigits_lt_base_pow_length 256 (bytes.reverse.map UInt8.toNat) (by decide) (by
    intro digit hdigit
    obtain ⟨byte, -, rfl⟩ := mem_map.mp hdigit
    exact byte.toNat_lt)
  rwa [length_map, length_reverse, ← ofLittleEndian_eq_ofDigits] at hlt

theorem digits_ofBigEndian {b : UInt8} {bytes : Bytes} (hb : b ≠ 0) :
    Nat.digits 256 (ofBigEndian (b :: bytes)) = (b :: bytes).reverse.map UInt8.toNat := by
  rw [ofBigEndian, ofLittleEndian_eq_ofDigits]
  apply Nat.digits_ofDigits 256 (by decide)
  · intro digit hdigit
    obtain ⟨byte, -, rfl⟩ := mem_map.mp hdigit
    exact byte.toNat_lt
  · intro hne
    simpa [← UInt8.toNat_inj] using hb

/-- Without a leading zero byte, the bytes of a number are determined. -/
theorem ofBigEndian_inj {b c : UInt8} {bytes bytes' : Bytes} (hb : b ≠ 0) (hc : c ≠ 0)
    (h : ofBigEndian (b :: bytes) = ofBigEndian (c :: bytes')) : b :: bytes = c :: bytes' := by
  have hdigits : Nat.digits 256 (ofBigEndian (b :: bytes)) = _ := digits_ofBigEndian hb
  rw [h, digits_ofBigEndian hc] at hdigits
  exact (reverse_injective (map_injective_iff.mpr (fun _ _ => UInt8.toNat_inj.mp) hdigits)).symm

theorem ofLittleEndian_append (low high : Bytes) :
    ofLittleEndian (low ++ high) = ofLittleEndian low + 256 ^ low.length * ofLittleEndian high := by
  simp only [ofLittleEndian_eq_ofDigits, map_append, Nat.ofDigits_append, length_map]

theorem ofBigEndian_zeros {zeros bytes : Bytes} (h : ∀ z ∈ zeros, z = 0) :
    ofBigEndian (zeros ++ bytes) = ofBigEndian bytes := by
  have hzero : ofLittleEndian zeros.reverse = 0 := by
    rw [eq_replicate_of_mem h, reverse_replicate, ofLittleEndian_eq_ofDigits, map_replicate]
    exact Nat.ofDigits_replicate_zero
  rw [ofBigEndian, reverse_append, ofLittleEndian_append, hzero, Nat.mul_zero, Nat.add_zero]
  rfl

structure SFrameHeader where
  kid : UInt64
  counter : UInt64
  deriving DecidableEq

namespace SFrameHeader

/-- One round of the loop of `encode`, on the configuration byte and the bytes after it. -/
def put (acc : UInt8 × Bytes) (value : UInt64) (flag shift : UInt8) : UInt8 × Bytes :=
  let encoded := bigEndian 8 value.toNat
  if value < 8 then (acc.1 ||| encoded.getD 7 0 <<< shift, acc.2)
  else
    let first := (encoded.findIdx? (· ≠ 0)).getD 7
    let lengths : Bytes := [7, 6, 5, 4, 3, 2, 1, 0]
    (acc.1 ||| (flag ||| lengths.getD first 0 <<< shift), acc.2 ++ encoded.drop first)

def encode (h : SFrameHeader) : Bytes :=
  let (config, bytes) := put (put (0, []) h.kid 0x80 4) h.counter 0x08 0
  config :: bytes

/-- The closure of `decode`; `pos` is its position. -/
def field (bytes : Bytes) (config flag shift : UInt8) (pos : ℕ) : Except String (UInt64 × ℕ) :=
  let bits := config >>> shift &&& 7
  if config &&& flag = 0 then .ok (bits.toUInt64, pos)
  else
    let width := bits.toNat + 1
    let encoded := (bytes.drop pos).take width
    if encoded.length < width then .error "truncated header"
    else
      let value := UInt64.ofNat (ofBigEndian encoded)
      if encoded.head? = some 0 ∨ value < 8 then .error "nonminimal header"
      else .ok (value, pos + width)

def decode : Bytes → Except String (SFrameHeader × ℕ)
  | [] => .error "empty header"
  | config :: rest => do
    let (kid, pos) ← field (config :: rest) config 0x80 4 1
    let (counter, pos) ← field (config :: rest) config 0x08 0 pos
    pure (⟨kid, counter⟩, pos)

/-- The four bits of one field. -/
def nibble (config shift : UInt8) : ℕ := (config >>> shift &&& 15).toNat

/-- Four bits of the configuration byte and the bytes after it that stand for a value. -/
def Denotes (n : ℕ) (bytes : Bytes) (value : UInt64) : Prop :=
  if n < 8 then bytes = [] ∧ value.toNat = n
  else n < 16 ∧ bytes.length = n - 7 ∧ bytes.head? ≠ some 0 ∧ 8 ≤ value.toNat ∧
    ofBigEndian bytes = value.toNat

variable {value : UInt64} {n m : ℕ} {bytes bytes' : Bytes} {config flag shift : UInt8}

theorem Denotes.unique (h : Denotes n bytes value) (h' : Denotes m bytes' value) :
    n = m ∧ bytes = bytes' := by
  unfold Denotes at h h'
  split_ifs at h h' with hn hm hm
  · exact ⟨h.2.symm.trans h'.2, h.1.trans h'.1.symm⟩
  · omega
  · omega
  · obtain ⟨-, hlen, hhead, -, hvalue⟩ := h
    obtain ⟨-, hlen', hhead', -, hvalue'⟩ := h'
    have heq : bytes = bytes' := by
      cases bytes with
      | nil => exact absurd hlen (by simp; omega)
      | cons b bytes =>
        cases bytes' with
        | nil => exact absurd hlen' (by simp; omega)
        | cons c bytes' =>
          exact ofBigEndian_inj (by simpa using hhead) (by simpa using hhead') (hvalue.trans hvalue'.symm)
    rw [heq] at hlen
    exact ⟨by omega, heq⟩

theorem Denotes.lt (h : Denotes n bytes value) : n < 16 := by
  unfold Denotes at h
  split_ifs at h with hn
  · omega
  · exact h.1

/-- What both fields of the configuration byte have in common. -/
structure Placed (flag shift : UInt8) : Prop where
  write : ∀ k < 8, flag ||| UInt8.ofNat k <<< shift = UInt8.ofNat (8 + k) <<< shift
  read : ∀ config : UInt8, config &&& flag = 0 ↔ nibble config shift < 8
  bits : ∀ config : UInt8, (config >>> shift &&& 7).toNat = nibble config shift % 8

theorem forall_uint8 {p : UInt8 → Prop} (h : ∀ n < 256, p (UInt8.ofNat n)) (config : UInt8) : p config := by
  have hp := h config.toNat config.toNat_lt
  rwa [UInt8.ofNat_toNat] at hp

theorem placed_kid : Placed 0x80 4 :=
  ⟨by decide, forall_uint8 (by decide +kernel), forall_uint8 (by decide +kernel)⟩

theorem placed_counter : Placed 0x08 0 :=
  ⟨by decide, forall_uint8 (by decide +kernel), forall_uint8 (by decide +kernel)⟩

theorem put_spec (hplaced : Placed flag shift) (acc : UInt8 × Bytes) (value : UInt64) :
    ∃ n bytes, Denotes n bytes value ∧
      put acc value flag shift = (acc.1 ||| UInt8.ofNat n <<< shift, acc.2 ++ bytes) := by
  have hround : ofBigEndian (bigEndian 8 value.toNat) = value.toNat := ofBigEndian_bigEndian value.toNat_lt
  by_cases hlt : value < 8
  · have hsmall : value.toNat < 8 := UInt64.lt_iff_toNat_lt.mp hlt
    refine ⟨value.toNat, [], by simp [Denotes, hsmall], ?_⟩
    have hlast : (bigEndian 8 value.toNat).getD 7 0 = UInt8.ofNat value.toNat := by
      simp [bigEndian]
    rw [put, if_pos hlt, hlast, append_nil]
  · have hlarge : 8 ≤ value.toNat := not_lt.mp fun h => hlt (UInt64.lt_iff_toNat_lt.mpr h)
    cases hfirst : (bigEndian 8 value.toNat).findIdx? (· ≠ 0) with
    | none =>
      -- a number of eight zero bytes is zero
      have hzeros : ∀ z ∈ bigEndian 8 value.toNat, z = 0 := by simpa using hfirst
      rw [← append_nil (bigEndian _ _), ofBigEndian_zeros hzeros] at hround
      rw [← hround] at hlarge
      exact absurd hlarge (by decide)
    | some first =>
      obtain ⟨hbound, hb, hbefore⟩ := findIdx?_eq_some_iff_getElem.mp hfirst
      have hdrop := drop_eq_getElem_cons hbound
      have hzeros : ∀ z ∈ (bigEndian 8 value.toNat).take first, z = 0 := by
        intro z hz
        obtain ⟨i, hi, rfl⟩ := mem_take_iff_getElem.mp hz
        simpa using hbefore i (by omega)
      rw [length_bigEndian] at hbound
      rw [← take_append_drop first (bigEndian _ _), ofBigEndian_zeros hzeros] at hround
      have hdenotes : Denotes (8 + (7 - first)) ((bigEndian 8 value.toNat).drop first) value := by
        rw [Denotes, if_neg (by omega)]
        refine ⟨by omega, ?_, ?_, hlarge, hround⟩
        · rw [length_drop, length_bigEndian]
          omega
        · rw [hdrop, head?_cons]
          simpa using hb
      refine ⟨_, _, hdenotes, ?_⟩
      rw [put, if_neg hlt, hfirst, ← hplaced.write _ (by omega)]
      interval_cases first <;> rfl

theorem field_eq_ok (hplaced : Placed flag shift) {pos pos' : ℕ} :
    field bytes config flag shift pos = .ok (value, pos') ↔
      ∃ read rest, Denotes (nibble config shift) read value ∧
        bytes.drop pos = read ++ rest ∧ pos' = pos + read.length := by
  have hbits := hplaced.bits config
  unfold field Denotes
  by_cases hn : nibble config shift < 8
  · simp only [if_pos ((hplaced.read config).mpr hn), if_pos hn]
    rw [Nat.mod_eq_of_lt hn] at hbits
    constructor
    · intro h
      cases h
      exact ⟨[], bytes.drop pos, ⟨rfl, hbits⟩, rfl, rfl⟩
    · rintro ⟨read, rest, ⟨rfl, hvalue⟩, -, rfl⟩
      have heq : (config >>> shift &&& 7).toUInt64 = value :=
        UInt64.toNat_inj.mp (hbits.trans hvalue.symm)
      rw [heq]
  · have hle : nibble config shift ≤ 15 := by
      rw [nibble, UInt8.toNat_and]
      exact Nat.and_le_right
    have hwidth : (config >>> shift &&& 7).toNat + 1 = nibble config shift - 7 := by omega
    have hfits : nibble config shift - 7 ≤ 8 := by omega
    simp only [if_neg (mt (hplaced.read config).mp hn), if_neg hn, hwidth, Nat.lt_succ_of_le hle, true_and]
    generalize nibble config shift - 7 = width at hfits
    have hround : ∀ read : Bytes, read.length = width →
        (UInt64.ofNat (ofBigEndian read)).toNat = ofBigEndian read := by
      intro read hlen
      have hlt := (ofBigEndian_lt read).trans_le (Nat.pow_le_pow_right (by decide) (hlen.trans_le hfits))
      rw [UInt64.toNat_ofNat', Nat.mod_eq_of_lt hlt]
    constructor
    · intro h
      split_ifs at h with hshort hminimal
      cases h
      obtain ⟨hhead, hlarge⟩ := not_or.mp hminimal
      have hlen : ((bytes.drop pos).take width).length = width :=
        (length_take_le _ _).antisymm (not_lt.mp hshort)
      have hlarge := not_lt.mp (mt UInt64.lt_iff_toNat_lt.mpr hlarge)
      refine ⟨_, _, ⟨hlen, hhead, hlarge, (hround _ hlen).symm⟩, (take_append_drop width _).symm, ?_⟩
      rw [hlen]
    · rintro ⟨read, rest, ⟨rfl, hhead, hlarge, hvalue⟩, hdrop, rfl⟩
      have heq : UInt64.ofNat (ofBigEndian read) = value :=
        UInt64.toNat_inj.mp ((hround read rfl).trans hvalue)
      rw [hdrop, take_left, if_neg (lt_irrefl _), heq, if_neg]
      rintro (hzero | hsmall)
      · exact hhead hzero
      · exact absurd (UInt64.lt_iff_toNat_lt.mp hsmall) (not_lt.mpr hlarge)

theorem encode_spec (h : SFrameHeader) : ∃ n m kid counter, Denotes n kid h.kid ∧
    Denotes m counter h.counter ∧
    h.encode = (UInt8.ofNat n <<< 4 ||| UInt8.ofNat m) :: (kid ++ counter) := by
  obtain ⟨n, kid, hkid, hput⟩ := put_spec placed_kid (0, []) h.kid
  obtain ⟨m, counter, hctr, hput'⟩ := put_spec placed_counter (put (0, []) h.kid 0x80 4) h.counter
  refine ⟨n, m, kid, counter, hkid, hctr, ?_⟩
  rw [encode, hput', hput]
  simp

/-- Bytes are read as a header exactly when they start with one of its encodings. -/
theorem decode_eq_ok {h : SFrameHeader} {len : ℕ} : decode (config :: bytes) = .ok (h, len) ↔
      ∃ kid counter rest, Denotes (nibble config 4) kid h.kid ∧
        Denotes (nibble config 0) counter h.counter ∧ bytes = kid ++ (counter ++ rest) ∧
        len = 1 + kid.length + counter.length := by
  constructor
  · intro hdecode
    obtain ⟨⟨kid, pos⟩, hkid, hdecode⟩ := bind_eq_ok.mp hdecode
    obtain ⟨⟨counter, pos'⟩, hctr, hdecode⟩ := bind_eq_ok.mp hdecode
    cases hdecode
    obtain ⟨read, rest, hread, hbytes, rfl⟩ := (field_eq_ok placed_kid).mp hkid
    obtain ⟨read', rest', hread', hrest, rfl⟩ := (field_eq_ok placed_counter).mp hctr
    rw [drop_succ_cons, drop_zero] at hbytes
    rw [Nat.add_comm 1, drop_succ_cons, hbytes, drop_left] at hrest
    exact ⟨read, read', rest', hread, hread', hrest ▸ hbytes, rfl⟩
  · rintro ⟨kid, counter, rest, hkid, hctr, rfl, rfl⟩
    apply bind_eq_ok.mpr
    refine ⟨_, (field_eq_ok placed_kid).mpr ⟨kid, counter ++ rest, hkid, rfl, rfl⟩, bind_eq_ok.mpr ?_⟩
    refine ⟨_, (field_eq_ok placed_counter).mpr ⟨counter, rest, hctr, ?_, rfl⟩, rfl⟩
    rw [Nat.add_comm 1, drop_succ_cons, drop_left]

theorem nibble_or : ∀ n < 16, ∀ m < 16, nibble (UInt8.ofNat n <<< 4 ||| UInt8.ofNat m) 4 = n ∧
    nibble (UInt8.ofNat n <<< 4 ||| UInt8.ofNat m) 0 = m := by
  decide +kernel

theorem or_nibble : ∀ config : UInt8,
    UInt8.ofNat (nibble config 4) <<< 4 ||| UInt8.ofNat (nibble config 0) = config :=
  forall_uint8 (by decide +kernel)

theorem decode_encode (h : SFrameHeader) (rest : Bytes) :
    decode (h.encode ++ rest) = .ok (h, h.encode.length) := by
  obtain ⟨n, m, kid, counter, hkid, hctr, hencode⟩ := h.encode_spec
  obtain ⟨hn, hm⟩ := nibble_or n hkid.lt m hctr.lt
  rw [hencode, cons_append]
  apply decode_eq_ok.mpr
  refine ⟨kid, counter, rest, hn.symm ▸ hkid, hm.symm ▸ hctr, append_assoc .., ?_⟩
  rw [length_cons, length_append]
  omega

theorem encode_decode {h : SFrameHeader} {len : ℕ} (hdecode : decode bytes = .ok (h, len)) :
    bytes.take len = h.encode := by
  cases bytes with
  | nil => cases hdecode
  | cons config bytes =>
    obtain ⟨kid, counter, rest, hkid, hctr, rfl, rfl⟩ := decode_eq_ok.mp hdecode
    obtain ⟨n, m, kid', counter', hkid', hctr', hencode⟩ := h.encode_spec
    -- a value has one form, so the parts read are the parts written
    obtain ⟨rfl, rfl⟩ := hkid'.unique hkid
    obtain ⟨rfl, rfl⟩ := hctr'.unique hctr
    rw [hencode, or_nibble, Nat.add_assoc, Nat.add_comm 1, take_succ_cons, ← append_assoc, ← length_append,
      take_left]

theorem codec_canonical :
    (∀ (h : SFrameHeader) (rest : Bytes), decode (h.encode ++ rest) = .ok (h, h.encode.length)) ∧
    (∀ (bytes : Bytes) (h : SFrameHeader) (n : ℕ), decode bytes = .ok (h, n) → bytes.take n = h.encode) ∧
    (∀ (bytes bytes' : Bytes) (h : SFrameHeader) (n n' : ℕ), decode bytes = .ok (h, n) →
      decode bytes' = .ok (h, n') → bytes.take n = bytes'.take n') := by
  refine ⟨decode_encode, fun _ _ _ => encode_decode, ?_⟩
  intro bytes bytes' h n n' hdecode hdecode'
  rw [encode_decode hdecode, encode_decode hdecode']

end SFrameHeader
end Ramflux
