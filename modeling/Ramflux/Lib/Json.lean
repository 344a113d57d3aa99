import Mathlib.Data.Nat.Digits.Defs
import Mathlib.Algebra.BigOperators.Group.List.Basic
import Mathlib.Tactic.Common

/-! Compact JSON text, and how the lengths of its parts add up. -/
namespace Ramflux.Json
open List

/-- Escapes inside a JSON string, on UTF-8 bytes. -/
def escapeByte (b : UInt8) : List UInt8 :=
  if b = 34 ∨ b = 92 then [92, b]
  else if b = 8 then [92, 98]
  else if b = 9 then [92, 116]
  else if b = 10 then [92, 110]
  else if b = 12 then [92, 102]
  else if b = 13 then [92, 114]
  else if b < 32 then
    [92, 117, 48, 48, 48 + b / 16, if b % 16 < 10 then 48 + b % 16 else 87 + b % 16]
  else [b]

def text (s : String) : List UInt8 := 34 :: (s.toUTF8.data.toList.flatMap escapeByte ++ [34])

def number (n : ℕ) : List UInt8 := (Nat.toDigits 10 n).map fun c => c.toNat.toUInt8

def null : List UInt8 := [110, 117, 108, 108]

def bool : Bool → List UInt8
  | true => [116, 114, 117, 101]
  | false => [102, 97, 108, 115, 101]

def option {α : Type*} (write : α → List UInt8) : Option α → List UInt8
  | none => null
  | some a => write a

def separated : List (List UInt8) → List UInt8
  | [] => []
  | item :: items => item ++ items.flatMap (44 :: ·)

variable (members : List (String × List UInt8)) (items : List (List UInt8))

def array : List UInt8 := 91 :: (separated items ++ [93])

def object : List UInt8 :=
  123 :: (separated (members.map fun member => text member.1 ++ 58 :: member.2) ++ [125])

/-- Object whose keys are numbers; they are written as text. -/
def numberedObject (members : List (ℕ × List UInt8)) : List UInt8 :=
  123 :: (separated (members.map fun member => 34 :: number member.1 ++ 34 :: 58 :: member.2) ++ [125])

theorem length_separated :
    (separated items).length = (items.map List.length).sum + (items.length - 1) := by
  cases items with
  | nil => rfl
  | cons item items =>
    have htail : (items.flatMap (44 :: ·)).length = (items.map List.length).sum + items.length := by
      induction items with
      | nil => rfl
      | cons next items ih =>
        rw [flatMap_cons, length_append, ih, map_cons, sum_cons, length_cons, length_cons]
        omega
    rw [separated, length_append, htail, map_cons, sum_cons, length_cons]
    omega

theorem length_array :
    (array items).length = 2 + (items.map List.length).sum + (items.length - 1) := by
  unfold array
  rw [length_cons, length_append, length_separated, length_singleton]
  omega

theorem length_object : (object members).length =
    2 + (members.map fun member => (text member.1).length + 1).sum + (members.length - 1) +
      (members.map fun member => member.2.length).sum := by
  have hmembers : ((members.map fun member => text member.1 ++ 58 :: member.2).map List.length).sum =
      (members.map fun member => (text member.1).length + 1).sum +
        (members.map fun member => member.2.length).sum := by
    induction members with
    | nil => rfl
    | cons member members ih =>
      rw [map_cons, map_cons, sum_cons, ih, map_cons, sum_cons, map_cons,
        sum_cons, length_append, length_cons]
      omega
  unfold object
  rw [length_cons, length_append, length_separated, hmembers, length_map, length_singleton]
  omega

theorem length_numberedObject (members : List (ℕ × List UInt8)) : (numberedObject members).length =
    2 + (members.map fun member => (number member.1).length + 3 + member.2.length).sum +
      (members.length - 1) := by
  have hmember : (fun member : ℕ × List UInt8 => (number member.1).length + 3 + member.2.length) =
      List.length ∘ fun member => 34 :: number member.1 ++ 34 :: 58 :: member.2 := by
    funext member
    simp only [Function.comp_apply, cons_append, length_cons, length_append]
    omega
  unfold numberedObject
  rw [length_cons, length_append, length_separated, length_map, map_map, hmember, length_singleton]
  omega

theorem length_escapeByte_le (b : UInt8) : (escapeByte b).length ≤ 6 := by
  unfold escapeByte
  split_ifs <;> simp

theorem length_text_le (s : String) : (text s).length ≤ 6 * s.toUTF8.data.toList.length + 2 := by
  have hescape : ∀ bytes : List UInt8, (bytes.flatMap escapeByte).length ≤ 6 * bytes.length := by
    intro bytes
    induction bytes with
    | nil => simp
    | cons b bytes ih =>
      have hb := length_escapeByte_le b
      rw [flatMap_cons, length_append, length_cons]
      omega
  have hbytes := hescape s.toUTF8.data.toList
  unfold text
  rw [length_cons, length_append, length_singleton]
  omega

theorem length_number (n : ℕ) : (number n).length = (Nat.toDigits 10 n).length :=
  length_map _

theorem length_number_le {n : ℕ} (h : n < 2 ^ 64) : (number n).length ≤ 20 := by
  rw [length_number]
  exact Nat.toDigits_length 10 n 20 (by norm_num) (h.trans (by norm_num))

theorem length_bool_le (b : Bool) : (bool b).length ≤ 5 := by
  cases b <;> decide

end Ramflux.Json
