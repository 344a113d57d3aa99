import Mathlib.Tactic.Common
import Mathlib.Order.Basic
import Mathlib.Data.List.Nodup
import Mathlib.Data.List.Perm.Subperm
import Mathlib.Data.Finset.Card
import Std.Data.ExtTreeMap
import Std.Data.ExtTreeSet

/-! Ordered maps and sets: extensional equality, iteration in key order, and ends of ranges read from
the sorted listing, so that every query evaluates. -/
namespace Ramflux
open Std List

abbrev OrdMap (κ : Type*) (ν : Type*) [Ord κ] := ExtTreeMap κ ν (compare : κ → κ → Ordering)

abbrev OrdSet (κ : Type*) [Ord κ] := ExtTreeSet κ (compare : κ → κ → Ordering)

section
variable {α β : Type*} [Ord α] [Ord β]

/-- Pairs are ordered lexicographically. -/
instance instOrdProd : Ord (α × β) := ⟨compareLex (compareOn Prod.fst) (compareOn Prod.snd)⟩

instance instTransOrdProd [TransOrd α] [TransOrd β] : TransOrd (α × β) :=
  inferInstanceAs (TransCmp (compareLex (compareOn Prod.fst) (compareOn Prod.snd)))

instance instLawfulEqOrdProd [LawfulEqOrd α] [LawfulEqOrd β] : LawfulEqOrd (α × β) where
  compare_self {a} := by
    show ((compare a.1 a.1).then (compare a.2 a.2)) = .eq
    rw [Ordering.then_eq_eq]
    exact ⟨ReflOrd.compare_self, ReflOrd.compare_self⟩
  eq_of_compare {a b} h := by
    change ((compare a.1 b.1).then (compare a.2 b.2)) = .eq at h
    rw [Ordering.then_eq_eq] at h
    exact Prod.ext (LawfulEqOrd.eq_of_compare h.1) (LawfulEqOrd.eq_of_compare h.2)

end

namespace OrdMap
variable {κ ν : Type*} [Ord κ] [TransOrd κ] [LawfulEqOrd κ]

def first? (m : OrdMap κ ν) : Option (κ × ν) := m.toList.head?

def firstFrom? (m : OrdMap κ ν) (k : κ) : Option (κ × ν) :=
  m.toList.find? fun e => (compare k e.1).isLE

def lastUpTo? (m : OrdMap κ ν) (k : κ) : Option (κ × ν) :=
  m.toList.reverse.find? fun e => (compare e.1 k).isLE

/-- Insert-or-update through the value already stored under the key, if any. -/
def upsert (m : OrdMap κ ν) (k : κ) (f : Option ν → ν) : OrdMap κ ν := m.insert k (f m[k]?)

/-- Remove least entries until at most `limit` are left. -/
def dropFirst (m : OrdMap κ ν) (limit : ℕ) : OrdMap κ ν :=
  (m.toList.take (m.size - limit)).foldl (fun m e => m.erase e.1) m

theorem getElem?_insert_eq [DecidableEq κ] (m : OrdMap κ ν) (k a : κ) (v : ν) :
    (m.insert k v)[a]? = if k = a then some v else m[a]? := by
  simp [ExtTreeMap.getElem?_insert]

theorem getElem?_erase_eq [DecidableEq κ] (m : OrdMap κ ν) (k a : κ) :
    (m.erase k)[a]? = if k = a then none else m[a]? := by
  simp [ExtTreeMap.getElem?_erase]

variable {k a : κ}

section
variable (m : OrdMap κ ν)

theorem getElem?_insert_of_ne (v : ν) (h : k ≠ a) : (m.insert k v)[a]? = m[a]? := by
  simp [ExtTreeMap.getElem?_insert, h]

theorem getElem?_erase_of_ne (h : k ≠ a) : (m.erase k)[a]? = m[a]? := by
  simp [ExtTreeMap.getElem?_erase, h]

theorem getElem?_filter_eq (p : κ → ν → Bool) (a : κ) : (m.filter p)[a]? = m[a]?.filter (p a) := by
  simp

end

omit [LawfulEqOrd κ] in
theorem first?_eq_none_iff (m : OrdMap κ ν) : m.first? = none ↔ m = ∅ := by
  simp [first?]

/-- The first entry is stored, and no stored key is below it. -/
theorem first?_eq_some_iff (m : OrdMap κ ν) (k : κ) (v : ν) :
    m.first? = some (k, v) ↔ m[k]? = some v ∧ ∀ k' ∈ m, (compare k k').isLE := by
  have hord := m.ordered_keys_toList
  have hmem : ∀ a b, (a, b) ∈ m.toList ↔ m[a]? = some b := fun a b =>
    ExtTreeMap.mem_toList_iff_getElem?_eq_some
  have hkeys : ∀ a, a ∈ m ↔ ∃ b, (a, b) ∈ m.toList := by
    intro a
    simp only [hmem, ExtTreeMap.mem_iff_isSome_getElem?, Option.isSome_iff_exists]
  simp only [first?, ← hmem, hkeys]
  cases hl : m.toList with
  | nil => simp
  | cons e tl =>
    rw [hl, pairwise_cons] at hord
    constructor
    · intro h
      obtain rfl : e = (k, v) := by simpa using h
      refine ⟨by simp, ?_⟩
      rintro k' ⟨b, hb⟩
      rcases mem_cons.mp hb with hb | hb
      · cases hb
        simp
      · have := hord.1 _ hb
        simp_all
    · rintro ⟨hkv, hle⟩
      rcases mem_cons.mp hkv with hb | hb
      · simp [← hb]
      · have hlt := hord.1 _ hb
        have hge := hle e.1 ⟨e.2, by simp⟩
        rw [@OrientedCmp.eq_swap _ compare] at hge
        simp_all

omit [LawfulEqOrd κ] in
theorem size_erase_lt (m : OrdMap κ ν) (h : k ∈ m) : (m.erase k).size < m.size := by
  have hpos : m.size ≠ 0 := by
    intro h0
    rw [← ExtTreeMap.eq_empty_iff_size_eq_zero] at h0
    simp [h0] at h
  rw [ExtTreeMap.size_erase, if_pos (ExtTreeMap.contains_iff_mem.mpr h)]
  omega

theorem mem_of_first? (m : OrdMap κ ν) {e : κ × ν} (h : m.first? = some e) : e.1 ∈ m := by
  rw [ExtTreeMap.mem_iff_isSome_getElem?, ((first?_eq_some_iff m e.1 e.2).mp h).1]
  rfl

variable {m : OrdMap κ ν} {v : ν}

theorem mem_toList_iff : (k, v) ∈ m.toList ↔ m[k]? = some v :=
  ExtTreeMap.mem_toList_iff_getElem?_eq_some

theorem nodup_toList (m : OrdMap κ ν) : m.toList.Nodup := by
  refine m.distinct_keys_toList.imp ?_
  intro a b hne heq
  exact hne (heq ▸ ReflCmp.compare_self)

theorem toList_perm_cons_erase [DecidableEq κ] (m : OrdMap κ ν)
    (h : m[k]? = some v) : m.toList.Perm ((k, v) :: (m.erase k).toList) := by
  have hnew : (k, v) ∉ (m.erase k).toList := by
    rw [mem_toList_iff, getElem?_erase_eq, if_pos rfl]
    exact nofun
  apply (perm_ext_iff_of_nodup m.nodup_toList (nodup_cons.mpr ⟨hnew, nodup_toList (m.erase k)⟩)).mpr
  rintro ⟨a, b⟩
  rw [mem_cons, mem_toList_iff, mem_toList_iff, getElem?_erase_eq]
  by_cases hk : k = a
  · subst hk
    simp [h, eq_comm]
  · simp [hk, Ne.symm hk]

theorem filter_toList_eq_singleton (m : OrdMap κ ν) (p : κ × ν → Bool) (k : κ) (v : ν) :
    m.toList.filter p = [(k, v)] ↔
      (m[k]? = some v ∧ p (k, v)) ∧ ∀ row ∈ m.toList, p row → row.1 = k := by
  constructor
  · intro hlist
    have hmem : ∀ row, row ∈ m.toList ∧ p row ↔ row = (k, v) := by
      intro row
      rw [← mem_filter, hlist, mem_singleton]
    obtain ⟨hin, hp⟩ := (hmem (k, v)).mpr rfl
    refine ⟨⟨mem_toList_iff.mp hin, hp⟩, ?_⟩
    intro row hrow hprow
    rw [(hmem row).mp ⟨hrow, hprow⟩]
  · rintro ⟨⟨hget, hp⟩, hall⟩
    have hin : (k, v) ∈ m.toList.filter p :=
      mem_filter.mpr ⟨mem_toList_iff.mpr hget, hp⟩
    have heq : ∀ row ∈ m.toList.filter p, row = (k, v) := by
      rintro ⟨a, b⟩ hrow
      obtain ⟨hrow, hprow⟩ := mem_filter.mp hrow
      obtain rfl : a = k := hall _ hrow hprow
      rw [mem_toList_iff, hget] at hrow
      rw [Option.some.inj hrow]
    have hlen : (m.toList.filter p).length ≤ 1 := by
      have hrep := eq_replicate_of_mem heq
      have hnodup := m.nodup_toList.filter p
      rw [hrep] at hnodup
      exact nodup_replicate.mp hnodup
    obtain ⟨row, hrow⟩ := length_eq_one_iff.mp
      (Nat.le_antisymm hlen (length_pos_of_mem hin))
    rw [hrow] at hin ⊢
    rw [mem_singleton.mp hin]

omit [LawfulEqOrd κ] in
theorem mem_iff_exists : k ∈ m ↔ ∃ v, m[k]? = some v := by
  rw [ExtTreeMap.mem_iff_isSome_getElem?, Option.isSome_iff_exists]

omit [LawfulEqOrd κ] in
theorem mem_of_eq_some (h : m[k]? = some v) : k ∈ m := mem_iff_exists.mpr ⟨v, h⟩

theorem eq_some_of_insert {w : ν} (h : (m.insert k v)[a]? = some w) :
    k = a ∧ v = w ∨ k ≠ a ∧ m[a]? = some w := by
  by_cases hkey : k = a
  · rw [hkey, ExtTreeMap.getElem?_insert_self] at h
    exact .inl ⟨hkey, Option.some.inj h⟩
  · rw [getElem?_insert_of_ne m v hkey] at h
    exact .inr ⟨hkey, h⟩

theorem eq_some_of_erase (h : (m.erase k)[a]? = some v) : k ≠ a ∧ m[a]? = some v := by
  have hkey : k ≠ a := by
    rintro rfl
    rw [ExtTreeMap.getElem?_erase_self] at h
    cases h
  exact ⟨hkey, getElem?_erase_of_ne m hkey ▸ h⟩

theorem mem_insert_iff : a ∈ m.insert k v ↔ a = k ∨ a ∈ m := by
  rw [ExtTreeMap.mem_insert, LawfulEqCmp.compare_eq_iff_eq, eq_comm]

theorem mem_insert_of_mem (h : k ∈ m) (a : κ) (v : ν) : a ∈ m.insert k v ↔ a ∈ m := by
  rw [mem_insert_iff]
  exact or_iff_right_of_imp fun heq => heq ▸ h

theorem mem_erase_iff : a ∈ m.erase k ↔ a ≠ k ∧ a ∈ m := by
  rw [ExtTreeMap.mem_erase, ne_eq, LawfulEqCmp.compare_eq_iff_eq, eq_comm]

section
variable {key : ν → κ} {l : List ν}

theorem eq_some_of_foldl_insert (h : (l.foldl (fun m v => m.insert (key v) v) m)[a]? = some v) :
    v ∈ l ∧ key v = a ∨ m[a]? = some v := by
  induction l generalizing m with
  | nil => exact .inr h
  | cons first l ih =>
    rcases ih h with ⟨hmem, hkey⟩ | hget
    · exact .inl ⟨.tail _ hmem, hkey⟩
    · exact (eq_some_of_insert hget).imp (fun ⟨hkey, heq⟩ => heq ▸ ⟨.head _, hkey⟩) And.right

theorem mem_foldl_insert :
    a ∈ l.foldl (fun m v => m.insert (key v) v) m ↔ a ∈ m ∨ ∃ v ∈ l, key v = a := by
  induction l generalizing m with
  | nil => simp
  | cons first l ih =>
    rw [foldl_cons, ih, mem_insert_iff, exists_mem_cons_iff, or_assoc, or_left_comm, eq_comm]

end

theorem size_eq_card [DecidableEq κ] {keys : Finset κ}
    (h : ∀ k, k ∈ m ↔ k ∈ keys) : m.size = keys.card := by
  have hlist : m.keys.toFinset = keys := by
    ext k
    rw [mem_toFinset, ExtTreeMap.mem_keys, h]
  have hnodup : m.keys.Nodup := by
    refine m.distinct_keys.imp ?_
    intro a b hne heq
    exact hne (heq ▸ ReflCmp.compare_self)
  rw [← hlist, toFinset_card_of_nodup hnodup, ExtTreeMap.length_keys]

section

theorem find?_of_pairwise {α : Type*} {r : α → α → Prop} {l : List α} (hl : l.Pairwise r) {p : α → Bool}
    {a : α} (h : l.find? p = some a) : a ∈ l ∧ p a ∧ ∀ b ∈ l, p b → b = a ∨ r a b := by
  obtain ⟨ha, before, after, rfl, hbefore⟩ := find?_eq_some_iff_append.mp h
  refine ⟨by simp, ha, ?_⟩
  intro b hb hpb
  rcases mem_append.mp hb with hb | hb
  · have := hbefore b hb
    simp [hpb] at this
  · rcases mem_cons.mp hb with hb | hb
    · exact .inl hb
    · exact .inr ((pairwise_cons.mp (pairwise_append.mp hl).2.1).1 b hb)

variable {k : κ}

section
variable (m : OrdMap κ ν)

theorem exists_mem_toList (h : k ∈ m) : ∃ v, (k, v) ∈ m.toList := by
  obtain ⟨v, hv⟩ := mem_iff_exists.mp h
  exact ⟨v, mem_toList_iff.mpr hv⟩

theorem firstFrom?_eq_some {a : κ} {v : ν} (h : m.firstFrom? k = some (a, v)) :
    m[a]? = some v ∧ (compare k a).isLE ∧ ∀ b ∈ m, (compare k b).isLE → (compare a b).isLE := by
  obtain ⟨hmem, hle, hfirst⟩ := find?_of_pairwise m.ordered_keys_toList h
  refine ⟨mem_toList_iff.mp hmem, hle, ?_⟩
  intro b hb hkb
  obtain ⟨w, hw⟩ := exists_mem_toList m hb
  rcases hfirst (b, w) hw hkb with heq | hlt
  · rw [(Prod.mk.inj heq).1]
    simp
  · simp [hlt]

theorem firstFrom?_eq_none (h : m.firstFrom? k = none) : ∀ b ∈ m, ¬ (compare k b).isLE := by
  intro b hb
  obtain ⟨w, hw⟩ := exists_mem_toList m hb
  exact find?_eq_none.mp h (b, w) hw

theorem lastUpTo?_eq_some_iff (k a : κ) (v : ν) : m.lastUpTo? k = some (a, v) ↔
    m[a]? = some v ∧ (compare a k).isLE ∧ ∀ b ∈ m, (compare b k).isLE → (compare b a).isLE := by
  have hforward : ∀ {a : κ} {v : ν}, m.lastUpTo? k = some (a, v) →
      m[a]? = some v ∧ (compare a k).isLE ∧ ∀ b ∈ m, (compare b k).isLE → (compare b a).isLE := by
    intro a v h
    obtain ⟨hmem, hle, hlast⟩ :=
      find?_of_pairwise (pairwise_reverse.mpr m.ordered_keys_toList) h
    refine ⟨mem_toList_iff.mp (mem_reverse.mp hmem), hle, ?_⟩
    intro b hb hbk
    obtain ⟨w, hw⟩ := exists_mem_toList m hb
    rcases hlast (b, w) (mem_reverse.mpr hw) hbk with heq | hlt
    · rw [(Prod.mk.inj heq).1]
      simp
    · simp [hlt]
  refine ⟨hforward, ?_⟩
  rintro ⟨hget, hle, hlast⟩
  cases hfind : m.lastUpTo? k with
  | none =>
    have hmem := mem_reverse.mpr (mem_toList_iff.mpr hget)
    exact absurd hle (find?_eq_none.mp hfind (a, v) hmem)
  | some e =>
    obtain ⟨b, w⟩ := e
    obtain ⟨hget', hle', hlast'⟩ := hforward hfind
    have hab := hlast' a (mem_iff_exists.mpr ⟨v, hget⟩) hle
    have hba := hlast b (mem_iff_exists.mpr ⟨w, hget'⟩) hle'
    obtain rfl : a = b := LawfulEqCmp.eq_of_compare (OrientedCmp.isLE_antisymm hab hba)
    rw [Option.some.inj (hget.symm.trans hget')]

theorem lastUpTo?_eq_none_iff (k : κ) : m.lastUpTo? k = none ↔ ∀ b ∈ m, ¬ (compare b k).isLE := by
  unfold lastUpTo?
  rw [find?_eq_none]
  constructor
  · intro h b hb
    obtain ⟨w, hw⟩ := exists_mem_toList m hb
    exact h (b, w) (mem_reverse.mpr hw)
  · rintro h ⟨b, w⟩ hb
    exact h b (mem_iff_exists.mpr ⟨w, mem_toList_iff.mp (mem_reverse.mp hb)⟩)

end

end

section
variable {ι : Type*} [Ord ι] [TransOrd ι] [LawfulEqOrd ι]

/-- A missing inner map reads as the empty one. -/
def submap (m : OrdMap κ (OrdMap ι ν)) (k : κ) : OrdMap ι ν := m[k]?.getD ∅

/-- Replace an inner map, and drop it from the outer one when it has become empty. -/
def setSubmap (m : OrdMap κ (OrdMap ι ν)) (k : κ) (r : OrdMap ι ν) : OrdMap κ (OrdMap ι ν) :=
  if r.isEmpty then m.erase k else m.insert k r

omit [TransOrd ι] [LawfulEqOrd ι] in
theorem submap_insert [DecidableEq κ] (m : OrdMap κ (OrdMap ι ν)) (k k' : κ) (r : OrdMap ι ν) :
    submap (m.insert k r) k' = if k = k' then r else m.submap k' := by
  unfold submap
  rw [getElem?_insert_eq]
  split_ifs <;> rfl

omit [LawfulEqOrd ι] in
theorem submap_setSubmap [DecidableEq κ] (m : OrdMap κ (OrdMap ι ν)) (k k' : κ) (r : OrdMap ι ν) :
    submap (m.setSubmap k r) k' = if k = k' then r else m.submap k' := by
  unfold setSubmap
  split_ifs with hempty hk hk
  · rw [submap, getElem?_erase_eq, if_pos hk, ExtTreeMap.isEmpty_iff.mp hempty]
    rfl
  · rw [submap, getElem?_erase_eq, if_neg hk, submap]
  · rw [submap_insert, if_pos hk]
  · rw [submap_insert, if_neg hk]

end
end OrdMap

namespace OrdSet
variable {κ : Type*} [Ord κ] [TransOrd κ] [LawfulEqOrd κ]

def first? (s : OrdSet κ) : Option κ := s.toList.head?

/-- Remove least members until at most `limit` are left. -/
def dropFirst (s : OrdSet κ) (limit : ℕ) : OrdSet κ :=
  (s.toList.take (s.size - limit)).foldl (fun s k => s.erase k) s

variable {s : OrdSet κ} {k a : κ}

theorem mem_insert_iff : a ∈ s.insert k ↔ a = k ∨ a ∈ s := by
  rw [ExtTreeSet.mem_insert, LawfulEqCmp.compare_eq_iff_eq, eq_comm]

theorem mem_erase_iff : a ∈ s.erase k ↔ a ≠ k ∧ a ∈ s := by
  rw [ExtTreeSet.mem_erase, ne_eq, LawfulEqCmp.compare_eq_iff_eq, eq_comm]

theorem mem_filter_iff {p : κ → Bool} : a ∈ s.filter p ↔ a ∈ s ∧ p a = true := by
  rw [ExtTreeSet.mem_filter]
  constructor
  · rintro ⟨h, hp⟩
    exact ⟨h, by rwa [ExtTreeSet.get_eq] at hp⟩
  · rintro ⟨h, hp⟩
    exact ⟨h, by rwa [ExtTreeSet.get_eq]⟩

theorem mem_of_first? (s : OrdSet κ) (h : s.first? = some k) : k ∈ s :=
  ExtTreeSet.mem_toList.mp (mem_of_mem_head? h)

theorem first?_le (s : OrdSet κ) (h : s.first? = some k) (ha : a ∈ s) : (compare k a).isLE := by
  have hord := s.ordered_toList
  have hmem : a ∈ s.toList := ExtTreeSet.mem_toList.mpr ha
  unfold first? at h
  cases hl : s.toList with
  | nil => simp [hl] at h
  | cons b tl =>
    rw [hl] at h hmem hord
    obtain rfl : b = k := by simpa using h
    rcases mem_cons.mp hmem with rfl | htl
    · simp
    · have hlt := (pairwise_cons.mp hord).1 a htl
      simp [hlt]

omit [LawfulEqOrd κ] in
theorem first?_eq_none_iff (s : OrdSet κ) : s.first? = none ↔ s = ∅ := by
  unfold first?
  rw [head?_eq_none_iff, ExtTreeSet.toList_eq_nil_iff]

theorem nodup_toList (s : OrdSet κ) : s.toList.Nodup := by
  refine s.distinct_toList.imp ?_
  intro a b hne heq
  exact hne (heq ▸ ReflCmp.compare_self)

theorem size_le_of_subset {t : OrdSet κ} (h : ∀ k ∈ s, k ∈ t) : s.size ≤ t.size := by
  have hsub : s.toList ⊆ t.toList := by
    intro k hk
    exact ExtTreeSet.mem_toList.mpr (h k (ExtTreeSet.mem_toList.mp hk))
  have hlen := (s.nodup_toList.subperm hsub).length_le
  rwa [ExtTreeSet.length_toList, ExtTreeSet.length_toList] at hlen

theorem size_eq_card [DecidableEq κ] {members : Finset κ}
    (h : ∀ k, k ∈ s ↔ k ∈ members) : s.size = members.card := by
  have hlist : s.toList.toFinset = members := by
    ext k
    rw [mem_toFinset, ExtTreeSet.mem_toList, h]
  rw [← hlist, toFinset_card_of_nodup s.nodup_toList, ExtTreeSet.length_toList]

omit [LawfulEqOrd κ] in
theorem size_insert_le (s : OrdSet κ) (k : κ) : (s.insert k).size ≤ s.size + 1 := by
  rw [ExtTreeSet.size_insert]
  split_ifs <;> omega

theorem mem_foldl_insert {α : Type*} (f : α → κ) (l : List α) (s : OrdSet κ) (k : κ) :
    k ∈ l.foldl (fun s a => s.insert (f a)) s ↔ k ∈ s ∨ ∃ a ∈ l, f a = k := by
  induction l generalizing s with
  | nil => simp
  | cons a l ih =>
    rw [foldl_cons, ih, mem_insert_iff]
    simp only [mem_cons, exists_eq_or_imp]
    tauto

end OrdSet
end Ramflux
