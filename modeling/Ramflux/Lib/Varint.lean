import Mathlib.Data.Nat.Bitwise
import Mathlib.Tactic.Ring

/-! Minimal base-128 writing of a number, least significant group first. -/
namespace Ramflux.Varint

/-- Groups of seven bits; all but the last have the high bit set. -/
def encode (n : ℕ) : List UInt8 :=
  if n < 128 then [UInt8.ofNat n] else UInt8.ofNat (n % 128 + 128) :: encode (n / 128)
termination_by n
decreasing_by omega

theorem encode_of_lt {n : ℕ} (h : n < 128) : encode n = [UInt8.ofNat n] := by
  rw [encode, if_pos h]

theorem encode_group {byte : UInt8} {m : ℕ} (hbyte : 128 ≤ byte.toNat) (hm : 0 < m) :
    encode (byte.toNat - 128 + 128 * m) = byte :: encode m := by
  have hlt := byte.toNat_lt
  have hmod : (byte.toNat - 128 + 128 * m) % 128 + 128 = byte.toNat := by omega
  have hdiv : (byte.toNat - 128 + 128 * m) / 128 = m := by omega
  rw [encode, if_neg (by omega), hmod, hdiv, UInt8.ofNat_toNat]

end Ramflux.Varint
