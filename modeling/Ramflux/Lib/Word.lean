import Mathlib.Data.Nat.Basic
import Mathlib.Algebra.Order.Ring.Int
import Mathlib.Tactic.Common

/-! Saturating and wrapping arithmetic on fixed-width integers kept as `ℕ` and `ℤ`. -/
namespace Ramflux

def u64Max : ℕ := 2 ^ 64 - 1

def u32Max : ℕ := 2 ^ 32 - 1

def i64Max : ℤ := 2 ^ 63 - 1

def i64Min : ℤ := -2 ^ 63

def satAdd (a b : ℕ) : ℕ := min (a + b) u64Max

def satAddI (a b : ℤ) : ℤ := max i64Min (min (a + b) i64Max)

def satSubI (a b : ℤ) : ℤ := max i64Min (min (a - b) i64Max)

/-- Two's complement wrap-around of a 64-bit signed result. -/
def wrapI (a : ℤ) : ℤ := (a + 2 ^ 63) % 2 ^ 64 - 2 ^ 63

theorem satAdd_one_of_lt {a : ℕ} (h : a < u64Max) : satAdd a 1 = a + 1 :=
  Nat.min_eq_left h

theorem le_satAdd_one {a : ℕ} (h : a ≤ u64Max) : a ≤ satAdd a 1 :=
  le_min (Nat.le_succ a) h

theorem satAdd_le_add (a b : ℕ) : satAdd a b ≤ a + b := min_le_left _ _

end Ramflux
