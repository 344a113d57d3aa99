import Ramflux.Lib.OrdMap

/-! Counting and folding over ordered maps: an entry contributes once, under its key. -/
namespace Ramflux.OrdMap
open Std List
variable {κ ν : Type*} [Ord κ] [TransOrd κ] [LawfulEqOrd κ]

def count (m : OrdMap κ ν) (p : κ → ν → Bool) : ℕ := m.toList.countP fun e => p e.1 e.2

theorem erase_insert [DecidableEq κ] (m : OrdMap κ ν) (k : κ) (v : ν) :
    ExtTreeMap.erase (m.insert k v) k = m.erase k := by
  refine ExtTreeMap.ext_getElem? fun a => ?_
  rw [getElem?_erase_eq, getElem?_erase_eq, getElem?_insert_eq]
  split_ifs with h
  · rfl
  · rfl

theorem erase_eq_self [DecidableEq κ] (m : OrdMap κ ν) {k : κ} (h : m[k]? = none) : m.erase k = m := by
  refine ExtTreeMap.ext_getElem? fun a => ?_
  rw [getElem?_erase_eq]
  split_ifs with hk
  · rw [← hk, h]
  · rfl

theorem toList_insert_perm [DecidableEq κ] (m : OrdMap κ ν) (k : κ) (v : ν) :
    (m.insert k v).toList.Perm ((k, v) :: (m.erase k).toList) := by
  have hperm := toList_perm_cons_erase (m.insert k v) (k := k) ExtTreeMap.getElem?_insert_self
  rwa [erase_insert] at hperm

section
variable (m : OrdMap κ ν) (p q : κ → ν → Bool) {k : κ} {v old : ν}

theorem count_erase [DecidableEq κ] (h : m[k]? = some v) :
    m.count p = count (m.erase k) p + (p k v).toNat := by
  have hperm := (toList_perm_cons_erase m h).countP_eq fun e => p e.1 e.2
  unfold count
  rw [hperm, countP_cons]
  cases p k v with
  | false | true => rfl

theorem count_insert_erase [DecidableEq κ] :
    count (m.insert k v) p = count (m.erase k) p + (p k v).toNat := by
  have hperm := (toList_insert_perm m k v).countP_eq fun e => p e.1 e.2
  unfold count
  rw [hperm, countP_cons]
  cases p k v with
  | false | true => rfl

theorem count_insert [DecidableEq κ] (h : m[k]? = none) :
    count (m.insert k v) p = m.count p + (p k v).toNat := by
  rw [count_insert_erase, erase_eq_self m h]

theorem count_le_count (h : ∀ (k : κ) v, m[k]? = some v → p k v → q k v) : m.count p ≤ m.count q := by
  refine countP_mono_left fun e he => ?_
  exact h e.1 e.2 (mem_toList_iff.mp he)

theorem count_eq_zero (h : ∀ (k : κ) v, m[k]? = some v → p k v = false) : m.count p = 0 := by
  refine countP_eq_zero.mpr fun e he => ?_
  rw [h e.1 e.2 (mem_toList_iff.mp he)]
  exact Bool.false_ne_true

omit [LawfulEqOrd κ] in
theorem count_add_count (h : ∀ (k : κ) v, ¬ (p k v ∧ q k v)) :
    m.count p + m.count q = m.count fun k v => p k v || q k v := by
  unfold count
  induction m.toList with
  | nil => rfl
  | cons e rest ih =>
    have hdisjoint := h e.1 e.2
    simp only [countP_cons]
    cases hp : p e.1 e.2 with
    | false =>
      cases hq : q e.1 e.2 with
      | false => simpa using ih
      | true =>
        simp only [Bool.false_or, Bool.false_eq_true, if_false, if_true] at ih ⊢
        omega
    | true =>
      cases hq : q e.1 e.2 with
      | false =>
        simp only [Bool.true_or, Bool.false_eq_true, if_false, if_true] at ih ⊢
        omega
      | true => exact absurd ⟨hp, hq⟩ hdisjoint

end

theorem foldl_of_fixed {α β : Type*} {f : β → α → β} {l : List α} (h : ∀ a ∈ l, ∀ b, f b a = b) (b : β) :
    l.foldl f b = b := by
  induction l with
  | nil => rfl
  | cons a l ih =>
    rw [foldl_cons, h a (.head _)]
    exact ih fun other hother => h other (.tail _ hother)

/-- A fold in which only one key matters sees that key's entry once. -/
theorem foldl_toList_of_key (m : OrdMap κ ν) {β : Type*} (f : β → κ × ν → β) (k : κ)
    (hf : ∀ e ∈ m.toList, e.1 ≠ k → ∀ b, f b e = b) (b : β) :
    m.toList.foldl f b = (m[k]?.map fun v => f b (k, v)).getD b := by
  cases hk : m[k]? with
  | none =>
    have hskip : ∀ e ∈ m.toList, ∀ b, f b e = b := by
      intro e he
      refine hf e he ?_
      rintro rfl
      have hentry := mem_toList_iff.mp he
      rw [hk] at hentry
      cases hentry
    exact foldl_of_fixed hskip b
  | some v =>
    obtain ⟨before, after, hlist⟩ := append_of_mem (mem_toList_iff.mpr hk)
    have hdistinct := m.distinct_keys_toList
    rw [hlist] at hdistinct hf ⊢
    obtain ⟨-, hafter, hbefore⟩ := pairwise_append.mp hdistinct
    have hskipBefore : ∀ e ∈ before, ∀ b, f b e = b := by
      intro e he
      refine hf e (mem_append_left _ he) ?_
      rintro rfl
      exact hbefore e he _ (.head _) ReflCmp.compare_self
    have hskipAfter : ∀ e ∈ after, ∀ b, f b e = b := by
      intro e he
      refine hf e (mem_append_right _ (.tail _ he)) ?_
      rintro rfl
      exact (pairwise_cons.mp hafter).1 e he ReflCmp.compare_self
    rw [foldl_append, foldl_of_fixed hskipBefore, foldl_cons, foldl_of_fixed hskipAfter]
    rfl

end Ramflux.OrdMap
