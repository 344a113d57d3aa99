import Mathlib.Data.List.Basic
import Mathlib.Tactic.Common

/-! JSON values as trees over arbitrary numbers. A key of an object stands for its first member. -/
namespace Ramflux
open List

inductive JsonTree (ν : Type) : Type
  | null
  | bool (b : Bool)
  | number (n : ν)
  | string (s : String)
  | array (items : List (JsonTree ν))
  | object (members : List (String × JsonTree ν))

namespace JsonTree
variable {ν : Type}

section
variable [DecidableEq ν]

mutual

def decEq : (a b : JsonTree ν) → Decidable (a = b)
  | .null, .null => isTrue rfl
  | .bool a, .bool b => decidable_of_iff (a = b) ⟨congrArg _, fun h => by cases h; rfl⟩
  | .number a, .number b => decidable_of_iff (a = b) ⟨congrArg _, fun h => by cases h; rfl⟩
  | .string a, .string b => decidable_of_iff (a = b) ⟨congrArg _, fun h => by cases h; rfl⟩
  | .array a, .array b =>
    match decEqItems a b with
    | isTrue h => isTrue (congrArg _ h)
    | isFalse h => isFalse fun heq => h (by cases heq; rfl)
  | .object a, .object b =>
    match decEqMembers a b with
    | isTrue h => isTrue (congrArg _ h)
    | isFalse h => isFalse fun heq => h (by cases heq; rfl)
  | .null, .bool _ | .null, .number _ | .null, .string _ | .null, .array _ | .null, .object _
  | .bool _, .null | .bool _, .number _ | .bool _, .string _ | .bool _, .array _ | .bool _, .object _
  | .number _, .null | .number _, .bool _ | .number _, .string _ | .number _, .array _ | .number _, .object _
  | .string _, .null | .string _, .bool _ | .string _, .number _ | .string _, .array _ | .string _, .object _
  | .array _, .null | .array _, .bool _ | .array _, .number _ | .array _, .string _ | .array _, .object _
  | .object _, .null | .object _, .bool _ | .object _, .number _ | .object _, .string _ | .object _, .array _ =>
    isFalse nofun

def decEqItems : (a b : List (JsonTree ν)) → Decidable (a = b)
  | [], [] => isTrue rfl
  | [], _ :: _ => isFalse nofun
  | _ :: _, [] => isFalse nofun
  | a :: as, b :: bs =>
    match decEq a b, decEqItems as bs with
    | isTrue h, isTrue hs => isTrue (by rw [h, hs])
    | isFalse h, _ => isFalse fun heq => h (List.cons.inj heq).1
    | _, isFalse hs => isFalse fun heq => hs (List.cons.inj heq).2

def decEqMembers : (a b : List (String × JsonTree ν)) → Decidable (a = b)
  | [], [] => isTrue rfl
  | [], _ :: _ => isFalse nofun
  | _ :: _, [] => isFalse nofun
  | (k, a) :: as, (l, b) :: bs =>
    match decEq a b, decEqMembers as bs with
    | isTrue h, isTrue hs =>
      if hk : k = l then isTrue (by rw [h, hs, hk])
      else isFalse fun heq => hk (Prod.mk.inj (List.cons.inj heq).1).1
    | isFalse h, _ => isFalse fun heq => h (Prod.mk.inj (List.cons.inj heq).1).2
    | _, isFalse hs => isFalse fun heq => hs (List.cons.inj heq).2

end

instance : DecidableEq (JsonTree ν) := decEq

end

def get (v : JsonTree ν) (key : String) : Option (JsonTree ν) :=
  match v with
  | .object members => members.lookup key
  | _ => none

def asStr : JsonTree ν → Option String
  | .string s => some s
  | _ => none

def setMember (key : String) (x : JsonTree ν) : List (String × JsonTree ν) → List (String × JsonTree ν)
  | [] => []
  | (k, v) :: members => if k = key then (k, x) :: members else (k, v) :: setMember key x members

def set (v : JsonTree ν) (key : String) (x : JsonTree ν) : JsonTree ν :=
  match v with
  | .object members => .object (setMember key x members)
  | v => v

theorem lookup_setMember_of_ne {key other : String} {x : JsonTree ν} (members : List (String × JsonTree ν))
    (h : key ≠ other) : (setMember key x members).lookup other = members.lookup other := by
  induction members with
  | nil => rfl
  | cons member members ih =>
    obtain ⟨k, v⟩ := member
    unfold setMember
    split_ifs with hk
    · have hne : (other == k) = false := beq_false_of_ne (hk ▸ Ne.symm h)
      rw [lookup_cons, lookup_cons, hne]
    · rw [lookup_cons, lookup_cons, ih]

theorem get_set_of_ne (v x : JsonTree ν) {key other : String} (h : key ≠ other) :
    (v.set key x).get other = v.get other := by
  cases v with
  | object members => exact lookup_setMember_of_ne members h
  | null | bool b | number n | string s | array items => rfl

end JsonTree
end Ramflux
