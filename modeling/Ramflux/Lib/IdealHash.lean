import Mathlib.Tactic.DeriveCountable
import Mathlib.Tactic.Common
import Mathlib.Logic.Equiv.List
import Mathlib.Data.Countable.Basic

/-! An ideal hash: texts that tell all values of a countable type apart. -/
namespace Ramflux
open List

instance instCountableChar : Countable Char := Function.Injective.countable fun _ _ => Char.toNat_inj.mp

instance instCountableString : Countable String := Function.Injective.countable fun _ _ => String.toList_inj.mp

noncomputable def idealHash {α : Type} [Countable α] (a : α) : String :=
  String.ofList (List.replicate ((exists_injective_nat α).choose a) 'h')

theorem idealHash_injective {α : Type} [Countable α] :
    Function.Injective (idealHash : α → String) := by
  intro a b h
  have hlist := String.ofList_injective h
  have hcode := (replicate_inj.mp hlist).1
  exact (exists_injective_nat α).choose_spec hcode

/-- Injective digest that gives every listed item 32 bytes. -/
noncomputable def idealDigest {α : Type} [DecidableEq α] [Countable α] (items : List α) (a : α) :
    List UInt8 :=
  if a ∈ items then List.replicate 32 (UInt8.ofNat (items.idxOf a))
  else List.replicate (33 + (exists_injective_nat α).choose a) 0

theorem idealDigest_injective {α : Type} [DecidableEq α] [Countable α] {items : List α}
    (hitems : items.length ≤ 256) : Function.Injective (idealDigest items) := by
  intro a b h
  unfold idealDigest at h
  split_ifs at h with ha hb hb
  · have hlta := idxOf_lt_length_of_mem ha
    have hltb := idxOf_lt_length_of_mem hb
    have hbyte : UInt8.ofNat (items.idxOf a) = UInt8.ofNat (items.idxOf b) :=
      replicate_right_inj (by decide) |>.mp h
    have hindex : items.idxOf a = items.idxOf b := by
      have hnat := congrArg UInt8.toNat hbyte
      rwa [UInt8.toNat_ofNat_of_lt' (hlta.trans_le hitems),
        UInt8.toNat_ofNat_of_lt' (hltb.trans_le hitems)] at hnat
    exact (idxOf_inj ha).mp hindex
  · have hlen := congrArg List.length h
    simp only [length_replicate] at hlen
    omega
  · have hlen := congrArg List.length h
    simp only [length_replicate] at hlen
    omega
  · have hlen := congrArg List.length h
    simp only [length_replicate] at hlen
    exact (exists_injective_nat α).choose_spec (Nat.add_left_cancel hlen)

end Ramflux
