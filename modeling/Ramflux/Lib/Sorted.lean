import Mathlib.Data.List.Basic
import Mathlib.Order.Basic
import Mathlib.Algebra.Order.Group.Nat

/-! Lists that are sorted by a relation or by a key. -/
namespace Ramflux.Sorted
open List
variable {α : Type}

theorem pairwise_cases {r : α → α → Prop} {l : List α} (h : l.Pairwise r) {a b : α} (ha : a ∈ l)
    (hb : b ∈ l) : a = b ∨ r a b ∨ r b a := by
  induction h with
  | nil => cases ha
  | @cons first rest hfirst _ ih =>
    rcases mem_cons.mp ha with rfl | ha'
    · rcases mem_cons.mp hb with rfl | hb'
      · exact .inl rfl
      · exact .inr (.inl (hfirst b hb'))
    · rcases mem_cons.mp hb with rfl | hb'
      · exact .inr (.inr (hfirst a ha'))
      · exact ih ha' hb'

theorem snd_unique {l : List (ℕ × α)} (h : l.Pairwise (·.1 < ·.1)) {k : ℕ} {a b : α} (ha : (k, a) ∈ l)
    (hb : (k, b) ∈ l) : a = b := by
  rcases pairwise_cases h ha hb with heq | hlt | hlt
  · exact (Prod.mk.inj heq).2
  · exact absurd hlt (lt_irrefl k)
  · exact absurd hlt (lt_irrefl k)

/-- A list sorted by a key is known from its items of each key. -/
theorem eq_of_filter_eq {key : α → ℕ} {l l' : List α} (h : l.Pairwise (key · ≤ key ·))
    (h' : l'.Pairwise (key · ≤ key ·)) (heq : ∀ k, l.filter (key · = k) = l'.filter (key · = k)) : l = l' := by
  have hmem : ∀ a, a ∈ l ↔ a ∈ l' := by
    intro a
    have hiff : a ∈ l.filter (key · = key a) ↔ a ∈ l'.filter (key · = key a) := by rw [heq]
    simpa using hiff
  induction l generalizing l' with
  | nil =>
    cases l' with
    | nil => rfl
    | cons b l' => exact absurd ((hmem b).mpr (.head _)) (not_mem_nil)
  | cons a l ih =>
    cases l' with
    | nil => exact absurd ((hmem a).mp (.head _)) (not_mem_nil)
    | cons b l' =>
      obtain ⟨ha, hl⟩ := pairwise_cons.mp h
      obtain ⟨hb, hl'⟩ := pairwise_cons.mp h'
      have hkey : key a = key b := by
        apply le_antisymm
        · rcases mem_cons.mp ((hmem b).mpr (.head _)) with rfl | hin
          · exact le_rfl
          · exact ha b hin
        · rcases mem_cons.mp ((hmem a).mp (.head _)) with rfl | hin
          · exact le_rfl
          · exact hb a hin
      have hheads := heq (key a)
      rw [filter_cons_of_pos (by simp), filter_cons_of_pos (by simp [hkey])] at hheads
      obtain ⟨rfl, -⟩ := List.cons.inj hheads
      have htails : ∀ k, l.filter (key · = k) = l'.filter (key · = k) := by
        intro k
        have hk := heq k
        by_cases hak : key a = k
        · rw [filter_cons_of_pos (by simpa using hak), filter_cons_of_pos (by simpa using hak)] at hk
          exact (List.cons.inj hk).2
        · rwa [filter_cons_of_neg (by simpa using hak), filter_cons_of_neg (by simpa using hak)] at hk
      have hmem' : ∀ c, c ∈ l ↔ c ∈ l' := by
        intro c
        have hiff : c ∈ l.filter (key · = key c) ↔ c ∈ l'.filter (key · = key c) := by rw [htails]
        simpa using hiff
      rw [ih hl hl' htails hmem']

end Ramflux.Sorted
