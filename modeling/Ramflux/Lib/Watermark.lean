import Mathlib.Order.Bounds.Basic
import Ramflux.Lib.OrdMap

/-! Watermarks: the highest mark under a bound that no blocking position has been passed for. -/
namespace Ramflux.Watermark
variable {blocks blocks' : ℕ → Prop} {floor bound : ℕ} {head head' : Option ℕ}

/-- The first blocking position above `floor`, if there is one. -/
def IsHead (blocks : ℕ → Prop) (floor : ℕ) : Option ℕ → Prop
  | none => ∀ n, floor < n → ¬blocks n
  | some h => floor < h ∧ blocks h ∧ ∀ n, floor < n → n < h → ¬blocks n

/-- Stay right below a blocking position. -/
def cap (bound : ℕ) : Option ℕ → ℕ
  | none => bound
  | some h => min bound (h - 1)

/-- Marks up to `bound` with no blocking position above `floor` at or below them. -/
def Clear (blocks : ℕ → Prop) (floor bound : ℕ) : Set ℕ :=
  {mark | mark ≤ bound ∧ ∀ n, floor < n → n ≤ mark → ¬blocks n}

theorem cap_le (bound : ℕ) (head : Option ℕ) : cap bound head ≤ bound := by
  cases head with
  | none => exact le_rfl
  | some h => exact min_le_left _ _

section
variable (h : IsHead blocks floor head)
include h

theorem IsHead.not_blocks {n : ℕ} (hfloor : floor < n) (hcap : n ≤ cap bound head) : ¬blocks n := by
  cases head with
  | none => exact h n hfloor
  | some first =>
    have hn : n ≤ first - 1 := hcap.trans (min_le_right _ _)
    exact h.2.2 n hfloor (by omega)

theorem IsHead.le_cap {mark : ℕ}
    (hmark : mark ∈ Clear blocks floor bound) : mark ≤ cap bound head := by
  obtain ⟨hbound, hclear⟩ := hmark
  cases head with
  | none => exact hbound
  | some first =>
    have hlt : mark < first := by
      by_contra hge
      exact hclear first h.1 (not_lt.mp hge) h.2.1
    exact le_min hbound (by omega)

/-- Two sources of blocking positions, capped one after the other. -/
theorem isGreatest_cap_cap (h' : IsHead blocks' floor head') :
    IsGreatest (Clear (fun n => blocks n ∨ blocks' n) floor bound) (cap (cap bound head) head') := by
  constructor
  · have hle : cap (cap bound head) head' ≤ cap bound head := cap_le _ _
    refine ⟨hle.trans (cap_le _ _), ?_⟩
    rintro n hfloor hn (hblocks | hblocks)
    · exact h.not_blocks hfloor (hn.trans hle) hblocks
    · exact h'.not_blocks hfloor hn hblocks
  · rintro mark ⟨hbound, hclear⟩
    have hfirst : mark ≤ cap bound head :=
      h.le_cap ⟨hbound, fun n hfloor hn hblocks => hclear n hfloor hn (.inl hblocks)⟩
    exact h'.le_cap ⟨hfirst, fun n hfloor hn hblocks => hclear n hfloor hn (.inr hblocks)⟩

theorem IsHead.congr (hiff : ∀ n, floor < n → (blocks n ↔ blocks' n)) : IsHead blocks' floor head := by
  cases head with
  | none =>
    intro n hfloor
    rw [← hiff n hfloor]
    exact h n hfloor
  | some first =>
    obtain ⟨hlt, hfirst, hbelow⟩ := h
    refine ⟨hlt, (hiff first hlt).mp hfirst, ?_⟩
    intro n hfloor hn
    rw [← hiff n hfloor]
    exact hbelow n hfloor hn

end

/-- The first unretired item of a sorted list is the head of its unretired items. -/
theorem isHead_find? {items : List ℕ} (hsorted : items.Pairwise (· < ·))
    (hfloor : ∀ n ∈ items, floor < n) (retired : ℕ → Prop) [DecidablePred retired] :
    IsHead (fun n => n ∈ items ∧ ¬retired n) floor (items.find? fun n => ¬retired n) := by
  cases hfind : items.find? fun n => ¬retired n with
  | none =>
    rintro n - ⟨hmem, hn⟩
    have hnot := List.find?_eq_none.mp hfind n hmem
    simp [hn] at hnot
  | some first =>
    obtain ⟨hmem, hfirst, hleast⟩ := OrdMap.find?_of_pairwise hsorted hfind
    refine ⟨hfloor first hmem, ⟨hmem, by simpa using hfirst⟩, ?_⟩
    rintro n - hlt ⟨hn, hnot⟩
    rcases hleast n hn (by simpa using hnot) with rfl | hgt
    · exact lt_irrefl n hlt
    · exact lt_asymm hlt hgt

end Ramflux.Watermark
