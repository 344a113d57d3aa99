import Ramflux.Lib.Fallible
import Ramflux.Lib.Varint
import Ramflux.Protocol.Types

/-! Canonical wire traversal of a message. -/
namespace Ramflux.Message
open Except

inductive ValidationError
  | malformed
  | nonCanonical
  | limit
  | missingChoice
  | operation
  | content
  | descriptor
  | unsupported
  deriving DecidableEq

namespace Wire

/-- Groups of a varint from bit `shift` on. -/
def varintFrom : ℕ → ℕ → ℕ → Bytes → Except ValidationError (ℕ × Bytes)
  | 0, _, _, _ => .error .malformed
  | _ + 1, _, _, [] => .error .malformed
  | rounds + 1, shift, value, byte :: rest =>
    if shift = 63 ∧ 1 < byte.toNat then .error .malformed
    else
      let value := value ||| (byte.toNat &&& 0x7f) <<< shift
      if byte.toNat &&& 0x80 = 0 then
        if 0 < shift ∧ byte.toNat = 0 then .error .nonCanonical else .ok (value, rest)
      else varintFrom rounds (shift + 7) value rest

def varint (input : Bytes) : Except ValidationError (ℕ × Bytes) := varintFrom 10 0 0 input

def take (input : Bytes) (length : ℕ) : Except ValidationError (Bytes × Bytes) :=
  if length ≤ input.length then .ok (input.take length, input.drop length) else .error .malformed

structure Field where
  tag : ℕ
  wire : ℕ
  scalar : ℕ
  bytes : Bytes
  deriving DecidableEq

def field (input : Bytes) : Except ValidationError (Field × Bytes) := do
  let (key, input) ← varint input
  let tag := key >>> 3
  if 2 ^ 32 ≤ tag then .error .malformed
  else if tag = 0 ∨ 536870911 < tag ∨ 19000 ≤ tag ∧ tag < 20000 then .error .malformed
  else
    match key &&& 7 with
    | 0 => do
      let (scalar, input) ← varint input
      return (⟨tag, 0, scalar, []⟩, input)
    | 1 => do
      let (bytes, input) ← take input 8
      return (⟨tag, 1, 0, bytes⟩, input)
    | 2 => do
      let (length, input) ← varint input
      let (bytes, input) ← take input length
      return (⟨tag, 2, 0, bytes⟩, input)
    | 5 => do
      let (bytes, input) ← take input 4
      return (⟨tag, 5, 0, bytes⟩, input)
    | _ => .error .malformed

theorem and_low (byte : UInt8) : byte.toNat &&& 0x7f = byte.toNat % 128 :=
  Nat.and_two_pow_sub_one_eq_mod byte.toNat 7

theorem and_high (byte : UInt8) : byte.toNat &&& 0x80 = 0 ↔ byte.toNat < 128 := by
  have hlt := byte.toNat_lt
  revert hlt
  generalize byte.toNat = n
  revert n
  decide +kernel

theorem add_group_lt {value shift group : ℕ} (hvalue : value < 2 ^ shift) (hgroup : group < 128)
    (hshift : shift ≤ 56 ∨ shift = 63) (hlast : ¬(shift = 63 ∧ 1 < group)) :
    value + 2 ^ shift * group < 2 ^ 64 := by
  rcases hshift with hle | rfl
  · have hpow : 2 ^ (shift + 7) ≤ 2 ^ 63 := Nat.pow_le_pow_right (by decide) (by omega)
    have hmul : 2 ^ shift * (group + 1) ≤ 2 ^ shift * 128 := Nat.mul_le_mul_left _ (by omega)
    rw [Nat.pow_add] at hpow
    rw [Nat.mul_add, Nat.mul_one] at hmul
    omega
  · have hone : group ≤ 1 := not_lt.mp fun hlt => hlast ⟨rfl, hlt⟩
    omega

/-- The groups read are the minimal writing of a number, not zero after the first. -/
theorem varintFrom_ok {rounds shift value : ℕ} {input rest : Bytes} {v : ℕ} (hshift : shift + 7 * rounds = 70)
    (hvalue : value < 2 ^ shift) (h : varintFrom rounds shift value input = .ok (v, rest)) :
    v < 2 ^ 64 ∧ ∃ m, v = value + 2 ^ shift * m ∧ (0 < shift → 0 < m) ∧ input = Varint.encode m ++ rest := by
  induction rounds generalizing shift value input with
  | zero => cases h
  | succ rounds ih =>
    cases input with
    | nil => cases h
    | cons byte input =>
      unfold varintFrom at h
      rw [and_low] at h
      have hor : value ||| (byte.toNat % 128) <<< shift = value + 2 ^ shift * (byte.toNat % 128) := by
        rw [Nat.or_comm, Nat.shiftLeft_eq, Nat.mul_comm, ← Nat.two_pow_add_eq_or_of_lt hvalue, Nat.add_comm]
      rw [hor] at h
      have hbyte := byte.toNat_lt
      split_ifs at h with hlast hend hzero
      · -- The last group of the number.
        have hlow := (and_high byte).mp hend
        cases h
        have hmod : byte.toNat % 128 = byte.toNat := Nat.mod_eq_of_lt hlow
        rw [hmod]
        refine ⟨?_, byte.toNat, rfl, by omega, ?_⟩
        · exact add_group_lt hvalue hlow (by omega) hlast
        · rw [Varint.encode_of_lt hlow, UInt8.ofNat_toNat]
          rfl
      · have hhigh : 128 ≤ byte.toNat := not_lt.mp fun hlt => hend ((and_high byte).mpr hlt)
        have hmod : byte.toNat % 128 = byte.toNat - 128 := by omega
        rw [hmod] at h
        have hnext : value + 2 ^ shift * (byte.toNat - 128) < 2 ^ (shift + 7) := by
          have hgroup : byte.toNat - 128 + 1 ≤ 128 := by omega
          calc value + 2 ^ shift * (byte.toNat - 128) < 2 ^ shift * (byte.toNat - 128 + 1) := by
                rw [Nat.mul_add, Nat.mul_one]
                omega
            _ ≤ 2 ^ shift * 128 := Nat.mul_le_mul_left _ hgroup
            _ = 2 ^ (shift + 7) := by rw [Nat.pow_add]
        obtain ⟨hv, m, hm, hpos, hinput⟩ := ih (by omega) hnext h
        refine ⟨hv, byte.toNat - 128 + 128 * m, ?_, by have := hpos (by omega); omega, ?_⟩
        · rw [hm, Nat.pow_add]
          ring
        · rw [Varint.encode_group hhigh (hpos (by omega)), hinput]
          rfl

theorem varint_ok {input rest : Bytes} {v : ℕ} (h : varint input = .ok (v, rest)) :
    v < 2 ^ 64 ∧ input = Varint.encode v ++ rest := by
  obtain ⟨hv, m, hm, -, hinput⟩ := varintFrom_ok rfl Nat.one_pos h
  have heq : v = m := by
    omega
  exact ⟨hv, heq ▸ hinput⟩

theorem take_ok {input bytes rest : Bytes} {length : ℕ} (h : take input length = .ok (bytes, rest)) :
    bytes.length = length ∧ input = bytes ++ rest := by
  unfold take at h
  split_ifs at h with hle
  cases h
  exact ⟨List.length_take_of_le hle, (List.take_append_drop length input).symm⟩

/-- The only writing of a field that is read. -/
def Field.encode (f : Field) : Bytes :=
  Varint.encode (8 * f.tag + f.wire) ++ if f.wire = 0 then Varint.encode f.scalar
    else if f.wire = 2 then Varint.encode f.bytes.length ++ f.bytes
    else f.bytes

/-- A field as it is read: only one of its contents is used. -/
structure Field.Read (f : Field) : Prop where
  tag_pos : 0 < f.tag
  scalar_lt : f.scalar < 2 ^ 64
  scalar : f.wire ≠ 0 → f.scalar = 0
  bytes : f.wire = 0 → f.bytes = []

theorem shiftRight_and (key : ℕ) : 8 * (key >>> 3) + (key &&& 7) = key := by
  have hlow : key &&& 7 = key % 8 := Nat.and_two_pow_sub_one_eq_mod key 3
  have hhigh : key >>> 3 = key / 8 := Nat.shiftRight_eq_div_pow key 3
  rw [hlow, hhigh]
  exact Nat.div_add_mod key 8

theorem field_ok {input rest : Bytes} {f : Field} (h : field input = .ok (f, rest)) :
    f.Read ∧ input = f.encode ++ rest := by
  obtain ⟨⟨key, input₁⟩, hkey, hbody⟩ := Fallible.bind_eq_ok.mp h
  obtain ⟨-, hinput⟩ := varint_ok hkey
  have hsum := shiftRight_and key
  dsimp only at hbody
  split_ifs at hbody with hlarge htag
  have hpos : 0 < key >>> 3 := Nat.pos_of_ne_zero fun hzero => htag (.inl hzero)
  split at hbody
  · rename_i hwire
    obtain ⟨⟨scalar, input₂⟩, hscalar, hres⟩ := Fallible.bind_eq_ok.mp hbody
    obtain ⟨hlt, hrest⟩ := varint_ok hscalar
    cases hres
    refine ⟨⟨hpos, hlt, fun hne => absurd rfl hne, fun _ => rfl⟩, ?_⟩
    rw [hwire] at hsum
    simp [Field.encode, hsum, hinput, hrest]
  · rename_i hwire
    obtain ⟨⟨bytes, input₂⟩, hbytes, hres⟩ := Fallible.bind_eq_ok.mp hbody
    obtain ⟨-, hrest⟩ := take_ok hbytes
    cases hres
    refine ⟨⟨hpos, Nat.two_pow_pos 64, fun _ => rfl, fun hzero => by cases hzero⟩, ?_⟩
    rw [hwire] at hsum
    simp [Field.encode, hsum, hinput, hrest]
  · rename_i hwire
    obtain ⟨⟨length, input₂⟩, hlen, hbody₂⟩ := Fallible.bind_eq_ok.mp hbody
    obtain ⟨⟨bytes, input₃⟩, hbytes, hres⟩ := Fallible.bind_eq_ok.mp hbody₂
    obtain ⟨-, hmid⟩ := varint_ok hlen
    obtain ⟨rfl, hrest⟩ := take_ok hbytes
    dsimp only at hrest
    cases hres
    refine ⟨⟨hpos, Nat.two_pow_pos 64, fun _ => rfl, fun hzero => by cases hzero⟩, ?_⟩
    rw [hwire] at hsum
    simp [Field.encode, hsum, hinput, hmid, hrest]
  · rename_i hwire
    obtain ⟨⟨bytes, input₂⟩, hbytes, hres⟩ := Fallible.bind_eq_ok.mp hbody
    obtain ⟨-, hrest⟩ := take_ok hbytes
    cases hres
    refine ⟨⟨hpos, Nat.two_pow_pos 64, fun _ => rfl, fun hzero => by cases hzero⟩, ?_⟩
    rw [hwire] at hsum
    simp [Field.encode, hsum, hinput, hrest]
  · cases hbody

end Wire
end Ramflux.Message
