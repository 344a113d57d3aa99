import Ramflux.Lib.Word
import Mathlib.Data.List.Induction
import Mathlib.Data.List.Sort

/-! What a gateway has offered to a client: all up to a point, and a bounded list of ranges behind it. -/
namespace Ramflux.Gateway
open List

def Listed (ranges : List (ℕ × ℕ)) (seq : ℕ) : Prop := ∃ range ∈ ranges, range.1 ≤ seq ∧ seq ≤ range.2

/-- Ranges in order that neither overlap nor touch. -/
structure Tidy (ranges : List (ℕ × ℕ)) : Prop where
  apart : ranges.Pairwise fun range next => range.2 + 1 < next.1
  proper : ∀ range ∈ ranges, range.1 ≤ range.2 ∧ range.2 ≤ u64Max

variable {ranges init : List (ℕ × ℕ)} {range last : ℕ × ℕ} {seq : ℕ}

@[simp] theorem listed_cons :
    Listed (range :: ranges) seq ↔ range.1 ≤ seq ∧ seq ≤ range.2 ∨ Listed ranges seq := by
  simp [Listed]

theorem listed_concat :
    Listed (init ++ [last]) seq ↔ Listed init seq ∨ last.1 ≤ seq ∧ seq ≤ last.2 := by
  simp [Listed, or_and_right, exists_or]

theorem tidy_concat : Tidy (init ++ [last]) ↔ Tidy init ∧ (∀ range ∈ init, range.2 + 1 < last.1) ∧
    last.1 ≤ last.2 ∧ last.2 ≤ u64Max := by
  constructor
  · intro h
    have hapart := pairwise_append.mp h.apart
    have hproper := forall_mem_append.mp h.proper
    exact ⟨⟨hapart.1, hproper.1⟩, fun range hr => hapart.2.2 range hr last (.head _),
      hproper.2 last (.head _)⟩
  · rintro ⟨hinit, hbefore, hlast⟩
    constructor
    · simpa [pairwise_append] using ⟨hinit.apart, fun a b => hbefore (a, b)⟩
    · exact forall_mem_append.mpr ⟨hinit.proper, forall_mem_singleton.mpr hlast⟩

theorem Tidy.take (h : Tidy ranges) (n : ℕ) : Tidy (ranges.take n) :=
  ⟨h.apart.sublist (take_sublist n ranges), fun range hr => h.proper range (mem_of_mem_take hr)⟩

theorem Tidy.lost_of_take (h : Tidy ranges) {n : ℕ} (hlong : n < ranges.length) :
    ∃ seq, Listed ranges seq ∧ ¬ Listed (ranges.take n) seq := by
  have hapart := h.apart
  rw [← take_append_drop n ranges, pairwise_append] at hapart
  obtain ⟨range, hdrop⟩ := exists_mem_of_ne_nil (ranges.drop n) (by simpa using hlong)
  have hmem := mem_of_mem_drop hdrop
  refine ⟨range.1, ⟨range, hmem, le_rfl, (h.proper range hmem).1⟩, ?_⟩
  rintro ⟨kept, hkept, -, hle⟩
  have := hapart.2.2 kept hkept range hdrop
  omega

theorem Tidy.of_cons (h : Tidy (range :: ranges)) :
    Tidy ranges ∧ range.1 ≤ range.2 ∧ ∀ seq, Listed ranges seq → range.2 + 1 < seq := by
  obtain ⟨hfirst, hapart⟩ := pairwise_cons.mp h.apart
  refine ⟨⟨hapart, fun r hr => h.proper r (.tail _ hr)⟩, (h.proper range (.head _)).1, ?_⟩
  rintro seq ⟨next, hmem, hle, -⟩
  exact (hfirst next hmem).trans_le hle

theorem Tidy.unique {ranges' : List (ℕ × ℕ)} (h : Tidy ranges) (h' : Tidy ranges')
    (hsame : ∀ seq, Listed ranges seq ↔ Listed ranges' seq) : ranges = ranges' := by
  induction ranges generalizing ranges' with
  | nil =>
    cases ranges' with
    | nil => rfl
    | cons b bs => simpa [Listed, h'.of_cons.2.1] using hsame b.1
  | cons a as ih =>
    obtain ⟨htail, ha, hafter⟩ := h.of_cons
    cases ranges' with
    | nil => simpa [Listed, ha] using hsame a.1
    | cons b bs =>
      obtain ⟨htail', hb, hafter'⟩ := h'.of_cons
      simp only [listed_cons] at hsame
      -- The sequence right behind the first range of a list is not listed.
      have hend' := hsame (b.2 + 1)
      obtain rfl : a = b := by grind
      rw [ih htail htail' (by grind)]

def rangeCap : ℕ := 256

/-- The source's `prefix` is `prefixSeq`. -/
structure Coverage where
  prefixSeq : ℕ
  ranges : List (ℕ × ℕ)
  confirmations : ℕ

/-- Order of pairs, by which the ranges are sorted. -/
def rangeLe (a b : ℕ × ℕ) : Bool := a.1 < b.1 ∨ a.1 = b.1 ∧ a.2 ≤ b.2

/-- One round of the loop, with the point reached and the merged ranges. -/
def mergeRange (acc : ℕ × List (ℕ × ℕ)) (range : ℕ × ℕ) : ℕ × List (ℕ × ℕ) :=
  if range.1 ≤ satAdd acc.1 1 then (max acc.1 range.2, acc.2)
  else match acc.2.getLast?.filter (range.1 ≤ satAdd ·.2 1) with
    | some last => (acc.1, acc.2.dropLast ++ [(last.1, max last.2 range.2)])
    | none => (acc.1, acc.2 ++ [range])

namespace Coverage

def default : Coverage := ⟨0, [], 0⟩

variable (c : Coverage) (first last : ℕ)

def merged : ℕ × List (ℕ × ℕ) :=
  ((c.ranges ++ [(first, last)]).mergeSort rangeLe).foldl mergeRange (c.prefixSeq, [])

def offered : Bool × Coverage :=
  if last < first ∨ last ≤ c.prefixSeq then (true, c)
  else
    let merged := c.merged first last
    (merged.2.length ≤ rangeCap, ⟨merged.1, merged.2.take rangeCap,
      if last ≤ merged.1 then 0 else c.confirmations⟩)

/-- Offers one after the other, and whether every one of them returned true. -/
def offeredAll (offers : List (UInt64 × UInt64)) : Bool × Coverage :=
  offers.foldl (fun acc offer =>
    let (bounded, c) := acc.2.offered offer.1.toNat offer.2.toNat
    (acc.1 && bounded, c)) (true, default)

def Covers (seq : ℕ) : Prop := seq ≤ c.prefixSeq ∨ Listed c.ranges seq

end Coverage

/-- The front as one more range. -/
def whole (acc : ℕ × List (ℕ × ℕ)) : List (ℕ × ℕ) := (0, acc.1) :: acc.2

variable {acc : ℕ × List (ℕ × ℕ)}

/-- A round extends the last range, or the front if there is none, or adds one. -/
theorem mergeRange_cases (h : Tidy (whole acc)) (hmax : range.1 ≤ u64Max)
    (hafter : ∀ earlier ∈ whole acc, earlier.1 ≤ range.1) : ∃ init last, whole acc = init ++ [last] ∧
      (range.1 ≤ last.2 + 1 ∧ whole (mergeRange acc range) = init ++ [(last.1, max last.2 range.2)] ∨
        last.2 + 1 < range.1 ∧ whole (mergeRange acc range) = init ++ [last] ++ [range]) := by
  obtain ⟨front, ranges⟩ := acc
  have hsat : ∀ n, range.1 ≤ satAdd n 1 ↔ range.1 ≤ n + 1 := by
    unfold satAdd
    omega
  unfold mergeRange
  simp only [hsat]
  rcases eq_nil_or_concat' ranges with rfl | ⟨init, last, rfl⟩
  · refine ⟨[], (0, front), rfl, ?_⟩
    by_cases hfront : range.1 ≤ front + 1
    · exact .inl ⟨hfront, by rw [if_pos hfront]; rfl⟩
    · exact .inr ⟨not_le.mp hfront, by rw [if_neg hfront]; rfl⟩
  · have hgap := (pairwise_cons.mp h.apart).1 last mem_concat_self
    have hle := hafter last (by simp [whole])
    refine ⟨(0, front) :: init, last, rfl, ?_⟩
    rw [if_neg (by omega), getLast?_concat, Option.filter_some]
    by_cases htouch : range.1 ≤ last.2 + 1
    · rw [if_pos (decide_eq_true htouch), dropLast_concat]
      exact .inl ⟨htouch, rfl⟩
    · rw [if_neg (by simpa using htouch)]
      exact .inr ⟨not_le.mp htouch, rfl⟩

theorem tidy_mergeRange (h : Tidy (whole acc)) (hproper : range.1 ≤ range.2 ∧ range.2 ≤ u64Max)
    (hafter : ∀ earlier ∈ whole acc, earlier.1 ≤ range.1) :
    Tidy (whole (mergeRange acc range)) ∧
      (∀ earlier ∈ whole (mergeRange acc range), earlier.1 ≤ range.1) ∧
      ∀ seq, Listed (whole (mergeRange acc range)) seq ↔
        Listed (whole acc) seq ∨ range.1 ≤ seq ∧ seq ≤ range.2 := by
  obtain ⟨init, last, hacc, hcases⟩ := mergeRange_cases h (hproper.1.trans hproper.2) hafter
  rw [hacc] at h hafter ⊢
  obtain ⟨hinit, hbefore, hle, hend⟩ := tidy_concat.mp h
  obtain ⟨hstart, hlast⟩ := forall_mem_append.mp hafter
  have hlast := forall_mem_singleton.mp hlast
  rcases hcases with ⟨htouch, heq⟩ | ⟨hgap, heq⟩
  · rw [heq]
    refine ⟨tidy_concat.mpr ⟨hinit, hbefore, ?_, ?_⟩, ?_, ?_⟩
    · exact hle.trans (le_max_left _ _)
    · exact max_le hend hproper.2
    · exact forall_mem_append.mpr ⟨hstart, forall_mem_singleton.mpr hlast⟩
    · intro seq
      rw [listed_concat, listed_concat, or_assoc]
      apply or_congr_right
      omega
  · have hbefore' : ∀ earlier ∈ init ++ [last], earlier.2 + 1 < range.1 := by
      refine forall_mem_append.mpr ⟨?_, forall_mem_singleton.mpr hgap⟩
      intro earlier hmem
      have := hbefore earlier hmem
      omega
    rw [heq]
    refine ⟨tidy_concat.mpr ⟨h, hbefore', hproper⟩, ?_, ?_⟩
    · exact forall_mem_append.mpr ⟨hafter, forall_mem_singleton.mpr le_rfl⟩
    · exact fun seq => listed_concat

theorem le_mergeRange_front (range : ℕ × ℕ) : acc.1 ≤ (mergeRange acc range).1 := by
  unfold mergeRange
  split_ifs
  · exact le_max_left _ _
  · split <;> rfl

/-- The whole loop: the sorted ranges are added to the set one after the other. -/
theorem tidy_foldl (h : Tidy (whole acc)) (hproper : ∀ range ∈ ranges, range.1 ≤ range.2 ∧ range.2 ≤ u64Max)
    (hsorted : ranges.Pairwise (·.1 ≤ ·.1))
    (hafter : ∀ earlier ∈ whole acc, ∀ range ∈ ranges, earlier.1 ≤ range.1) :
    Tidy (whole (ranges.foldl mergeRange acc)) ∧ acc.1 ≤ (ranges.foldl mergeRange acc).1 ∧
      ∀ seq, Listed (whole (ranges.foldl mergeRange acc)) seq ↔
        Listed (whole acc) seq ∨ Listed ranges seq := by
  induction ranges generalizing acc with
  | nil => simpa [Listed] using h
  | cons range ranges ih =>
    have hnext := pairwise_cons.mp hsorted
    obtain ⟨htidy, hstart, hlisted⟩ := tidy_mergeRange h (hproper range (.head _))
      fun earlier hmem => hafter earlier hmem range (.head _)
    obtain ⟨htidy', hle, hlisted'⟩ := ih htidy (fun next hn => hproper next (.tail _ hn)) hnext.2
      fun earlier hmem next hn => (hstart earlier hmem).trans (hnext.1 next hn)
    refine ⟨htidy', (le_mergeRange_front range).trans hle, ?_⟩
    intro seq
    rw [foldl_cons, hlisted', hlisted, or_assoc, listed_cons]

namespace Coverage

/-- What holds after any offers. -/
structure Inv (c : Coverage) : Prop where
  tidy : Tidy (whole (c.prefixSeq, c.ranges))
  bounded : c.ranges.length ≤ rangeCap

theorem covers_iff (c : Coverage) : c.Covers seq ↔ Listed (whole (c.prefixSeq, c.ranges)) seq := by
  simp [Covers, whole]

variable {c : Coverage}

/-- An offer that is not covered yet: the merged ranges are the old set with the offer in it. -/
theorem Inv.merged (h : c.Inv) {first last : ℕ} (hle : first ≤ last) (hlast : last ≤ u64Max) :
    Tidy (whole (c.merged first last)) ∧ c.prefixSeq ≤ (c.merged first last).1 ∧ ∀ seq,
      Listed (whole (c.merged first last)) seq ↔ c.Covers seq ∨ first ≤ seq ∧ seq ≤ last := by
  have hperm := mergeSort_perm (c.ranges ++ [(first, last)]) rangeLe
  have hsorted := @pairwise_mergeSort _ rangeLe (by simp [rangeLe]; omega)
    (by simp [rangeLe]; omega) (c.ranges ++ [(first, last)])
  have hfront : Tidy (whole (c.prefixSeq, [])) := by
    have := h.tidy.proper _ (.head _)
    exact ⟨pairwise_singleton _ _, forall_mem_singleton.mpr this⟩
  have hproper : ∀ range ∈ c.ranges ++ [(first, last)], range.1 ≤ range.2 ∧ range.2 ≤ u64Max := by
    refine forall_mem_append.mpr ⟨fun range hr => h.tidy.proper range (.tail _ hr), ?_⟩
    exact forall_mem_singleton.mpr ⟨hle, hlast⟩
  obtain ⟨htidy, hfront, hlisted⟩ := tidy_foldl hfront
    (fun range hr => hproper range (hperm.mem_iff.mp hr)) (hsorted.imp (by simp [rangeLe]; omega))
    (by simp [whole])
  refine ⟨htidy, hfront, ?_⟩
  intro seq
  unfold Coverage.merged
  rw [hlisted, covers_iff]
  simp [whole, Listed, hperm.mem_iff, or_and_right, exists_or, or_assoc]

/-- After an offer, what is covered was covered or offered; it returns false exactly if one is lost. -/
theorem Inv.offered (h : c.Inv) (first : ℕ) {last : ℕ} (hlast : last ≤ u64Max) :
    let after := c.offered first last
    after.2.Inv ∧ c.prefixSeq ≤ after.2.prefixSeq ∧
      (∀ seq, after.2.Covers seq → c.Covers seq ∨ first ≤ seq ∧ seq ≤ last) ∧
      (after.1 = false ↔ ∃ seq, (c.Covers seq ∨ first ≤ seq ∧ seq ≤ last) ∧ ¬ after.2.Covers seq) := by
  unfold Coverage.offered
  split_ifs with hskip
  · refine ⟨h, le_rfl, fun _ => .inl, by simp, ?_⟩
    rintro ⟨seq, hcovered | hoffer, hlost⟩
    · exact absurd hcovered hlost
    · exact absurd (.inl (show seq ≤ c.prefixSeq by omega)) hlost
  · obtain ⟨htidy, hfront, hlisted⟩ := h.merged (not_lt.mp (not_or.mp hskip).1) hlast
    generalize c.merged first last = merged at htidy hfront hlisted ⊢
    have hcut : whole (merged.1, merged.2.take rangeCap) = (whole merged).take (rangeCap + 1) := rfl
    simp only [← hlisted]
    simp only [covers_iff, hcut]
    refine ⟨⟨htidy.take (rangeCap + 1), length_take_le _ _⟩, hfront, ?_, ?_, ?_⟩
    · rintro seq ⟨range, hmem, hin⟩
      exact ⟨range, mem_of_mem_take hmem, hin⟩
    · intro hlong
      have hlong := of_decide_eq_false hlong
      exact htidy.lost_of_take (by simp only [whole, length_cons]; omega)
    · rintro ⟨seq, hin, hlost⟩
      refine decide_eq_false fun hshort => hlost ?_
      rwa [take_of_length_le (by simpa [whole] using hshort)]

variable (offers : List (UInt64 × UInt64))

/-- A sequence of one of the offers. -/
def Offered (seq : ℕ) : Prop :=
  ∃ offer ∈ offers, offer.1.toNat ≤ seq ∧ seq ≤ offer.2.toNat

theorem offeredAll_spec : (offeredAll offers).2.Inv ∧
    (∀ seq, 0 < seq → (offeredAll offers).2.Covers seq → Offered offers seq) ∧
    ((offeredAll offers).1 = true → ∀ seq, Offered offers seq → (offeredAll offers).2.Covers seq) := by
  induction offers using List.reverseRecOn with
  | nil =>
    refine ⟨⟨⟨pairwise_singleton _ _, by simp [whole, offeredAll, default]⟩, Nat.zero_le _⟩, ?_, ?_⟩
    · rintro seq hpos (hle | ⟨_, hmem, _⟩)
      · exact absurd hle (not_le.mpr hpos)
      · exact nomatch hmem
    · rintro - seq ⟨_, hmem, _⟩
      exact nomatch hmem
  | append_singleton offers offer ih =>
    obtain ⟨hinv, hsound, hexact⟩ := ih
    have hstep : offeredAll (offers ++ [offer]) = ((offeredAll offers).1 &&
        ((offeredAll offers).2.offered offer.1.toNat offer.2.toNat).1,
        ((offeredAll offers).2.offered offer.1.toNat offer.2.toNat).2) := by
      simp [offeredAll]
    have hoffered : ∀ seq, Offered (offers ++ [offer]) seq ↔
        Offered offers seq ∨ offer.1.toNat ≤ seq ∧ seq ≤ offer.2.toNat := by
      simp [Offered, or_and_right, exists_or]
    obtain ⟨hnext, -, hsub, hlost⟩ := hinv.offered offer.1.toNat (Nat.le_of_lt_succ offer.2.toNat_lt)
    simp only [hstep, hoffered, Bool.and_eq_true]
    refine ⟨hnext, ?_, ?_⟩
    · intro seq hpos hcovers
      exact (hsub seq hcovers).imp_left (hsound seq hpos)
    · rintro ⟨hkept, hbounded⟩ seq hin
      by_contra hnot
      have := hlost.mpr ⟨seq, hin.imp_left (hexact hkept seq), hnot⟩
      exact absurd (hbounded.symm.trans this) nofun

/-- What is known of a coverage after the offers, `kept` if every one of them returned true. -/
structure CoversOffers (kept : Bool) (c : Coverage) : Prop where
  apart : c.ranges.Pairwise fun range next => range.2 + 1 < next.1
  above : ∀ range ∈ c.ranges, c.prefixSeq + 1 < range.1 ∧ range.1 ≤ range.2
  bounded : c.ranges.length ≤ 256
  sound : ∀ seq, 0 < seq → c.Covers seq → Offered offers seq
  complete : kept = true → ∀ seq, 0 < seq → (c.Covers seq ↔ Offered offers seq)
  /-- one more offer never takes the front back -/
  grows : ∀ first last : UInt64, c.prefixSeq ≤ (c.offered first.toNat last.toNat).2.prefixSeq
  /-- and returns false exactly if a sequence is lost -/
  dropped : ∀ first last : UInt64, (c.offered first.toNat last.toNat).1 = false ↔
    ∃ seq, (c.Covers seq ∨ first.toNat ≤ seq ∧ seq ≤ last.toNat) ∧
      ¬ (c.offered first.toNat last.toNat).2.Covers seq

theorem coverage_exact : CoversOffers offers (offeredAll offers).1 (offeredAll offers).2 := by
  obtain ⟨hinv, hsound, hexact⟩ := offeredAll_spec offers
  obtain ⟨hfront, hapart⟩ := pairwise_cons.mp hinv.tidy.apart
  have hoffer := fun first last : UInt64 =>
    hinv.offered first.toNat (Nat.le_of_lt_succ last.toNat_lt)
  refine ⟨hapart, ?_, hinv.bounded, hsound, ?_, ?_, ?_⟩
  · intro range hr
    exact ⟨hfront range hr, (hinv.tidy.proper range (.tail _ hr)).1⟩
  · intro hkept seq hpos
    exact ⟨hsound seq hpos, hexact hkept seq⟩
  · exact fun first last => (hoffer first last).2.1
  · exact fun first last => (hoffer first last).2.2.2

/-- Sequence 0 of an offer is not among the sequences from one to the front or in a range. -/
theorem zero_not_covered : (offeredAll [(0, 1)]).1 = true ∧ Offered [(0, 1)] 0 ∧
    (offeredAll [(0, 1)]).2.prefixSeq = 1 ∧ (offeredAll [(0, 1)]).2.ranges = [] := by
  have heq : offeredAll [(0, 1)] = (true, ⟨1, [], 0⟩) := by
    simp [offeredAll, offered, merged, default, mergeRange, satAdd, u64Max, rangeCap]
  rw [heq]
  exact ⟨rfl, ⟨(0, 1), .head _, by decide⟩, rfl, rfl⟩

/-- What is kept depends on the sequences that were offered, not on their order or their intervals. -/
theorem coverage_order_free {offers offers' : List (UInt64 × UInt64)}
    (hsame : ∀ seq, 0 < seq → (Offered offers seq ↔ Offered offers' seq))
    (hkept : (offeredAll offers).1 = true) (hkept' : (offeredAll offers').1 = true) :
    (offeredAll offers).2.prefixSeq = (offeredAll offers').2.prefixSeq ∧
      (offeredAll offers).2.ranges = (offeredAll offers').2.ranges := by
  obtain ⟨hinv, hsound, hexact⟩ := offeredAll_spec offers
  obtain ⟨hinv', hsound', hexact'⟩ := offeredAll_spec offers'
  have hwhole := hinv.tidy.unique hinv'.tidy fun seq => by
    rw [← covers_iff, ← covers_iff]
    rcases Nat.eq_zero_or_pos seq with rfl | hpos
    · simp [Covers]
    · exact ⟨fun h => hexact' hkept' seq ((hsame seq hpos).mp (hsound seq hpos h)),
        fun h => hexact hkept seq ((hsame seq hpos).mpr (hsound' seq hpos h))⟩
  simpa [whole] using hwhole

theorem coverage_order_free_swapped :
    (offeredAll [(4, 9), (1, 2)]).2.prefixSeq = (offeredAll [(1, 2), (4, 9)]).2.prefixSeq := by
  refine (coverage_order_free ?_ ?_ ?_).1
  · simp [Offered, or_comm]
  all_goals simp [offeredAll, offered, merged, default, mergeRange, satAdd, u64Max, rangeCap,
    mergeSort, MergeSort.Internal.splitInTwo, rangeLe]

end Ramflux.Gateway.Coverage
