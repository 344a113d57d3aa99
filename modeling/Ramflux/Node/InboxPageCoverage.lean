import Ramflux.Lib.Sorted
import Ramflux.Node.InboxPageSize

/-! What a resume page covers: the merge of the sources stops, and shows every sequence it passed. -/
namespace Ramflux.InboxPage
open List Walk

section
variable {α : Type} {source : Source α} {left rest : List α} {visits : ℕ}

/-- `left` is what a source has to give; it may hold only the front of it. -/
structure Source.Serves (source : Source α) (left : List α) (visits : ℕ) : Prop where
  front : source.items <+: left
  short : source.items.length < left.length → visitCap ≤ visits + source.rest.length
  exhausted : source.head.item? = none → source.head.isSpent = false → left = []

theorem serves_nextCounted (hfront : rest <+: left)
    (hshort : rest.length < left.length → visitCap ≤ visits + rest.length) :
    (nextCounted rest visits).1.Serves left (nextCounted rest visits).2 := by
  unfold nextCounted
  split_ifs with hspent
  · exact ⟨hfront, hshort, fun _ h => by cases h⟩
  cases rest with
  | nil =>
    refine ⟨hfront, ?_, ?_⟩
    · intro hlt
      exact hshort hlt
    · intro _ _
      by_contra hne
      exact hspent (by simpa using hshort (length_pos_of_ne_nil hne))
  | cons a rest =>
    refine ⟨hfront, ?_, fun h => by cases h⟩
    intro hlt
    have hcap := hshort hlt
    rw [length_cons] at hcap
    show visitCap ≤ visits + 1 + rest.length
    omega

theorem Source.Serves.mono {visits' : ℕ} (h : source.Serves left visits) (hle : visits ≤ visits') :
    source.Serves left visits' :=
  ⟨h.front, fun hlt => (h.short hlt).trans (by omega), h.exhausted⟩

variable {a : α}

theorem Source.Serves.of_item (h : source.Serves left visits) (hitem : source.head.item? = some a) :
    left = a :: left.tail ∧ source.rest <+: left.tail := by
  have hfront := h.front
  unfold Source.items at hfront
  rw [hitem] at hfront
  obtain ⟨suffix, rfl⟩ := hfront
  exact ⟨rfl, suffix, rfl⟩

theorem Source.Serves.mem_of_item (h : source.Serves left visits)
    (hitem : source.head.item? = some a) : a ∈ left := by
  rw [(h.of_item hitem).1]
  exact .head _

/-- The number of items that are held but not yet passed. -/
def Source.held (source : Source α) : ℕ := source.head.item?.toList.length

theorem Source.held_le_one (source : Source α) : source.held ≤ 1 := by
  unfold held
  cases source.head.item? <;> simp

/-- A visit is made for the item that is held after it, and only below `visitCap`. -/
theorem visits_nextCounted (rest : List α) (visits : ℕ) :
    (nextCounted rest visits).2 = visits + (nextCounted rest visits).1.held ∧
      ((nextCounted rest visits).2 ≤ visitCap ∨ (nextCounted rest visits).1.held = 0) := by
  unfold nextCounted
  split_ifs with hspent
  · exact ⟨rfl, .inr rfl⟩
  · cases rest with
    | nil => exact ⟨rfl, .inr rfl⟩
    | cons a rest => exact ⟨rfl, .inl (not_le.mp hspent)⟩

theorem le_visits_nextCounted (rest : List α) (visits : ℕ) : visits ≤ (nextCounted rest visits).2 := by
  rw [(visits_nextCounted rest visits).1]
  exact Nat.le_add_right _ _

theorem isSpent_nextCounted (hvisits : visits < visitCap) :
    (nextCounted rest visits).1.head.isSpent = false := by
  unfold nextCounted
  rw [if_neg (not_le.mpr hvisits)]
  cases rest <;> rfl

theorem Source.le_visits_advance (source : Source α) (p : α → Bool) (visits : ℕ) :
    visits ≤ (source.advance p visits).2 := by
  unfold Source.advance
  split_ifs
  · exact le_visits_nextCounted _ _
  · exact le_rfl

theorem Source.Serves.advance (h : source.Serves left visits) (hspent : source.head.isSpent = false)
    (p : α → Bool) :
    (source.advance p visits).1.Serves (if left.head?.any p then left.tail else left)
      (source.advance p visits).2 := by
  unfold Source.advance
  cases hitem : source.head.item? with
  | none =>
    have hleft := h.exhausted hitem hspent
    subst hleft
    exact h
  | some a =>
    obtain ⟨hleft, hrest⟩ := h.of_item hitem
    have hhead : left.head?.any p = p a := by
      rw [hleft]
      rfl
    rw [Option.any_some, hhead]
    by_cases hp : p a = true
    · rw [if_pos hp, if_pos hp]
      apply serves_nextCounted hrest
      intro hlt
      apply h.short
      rw [hleft, Source.items, hitem]
      simpa using hlt
    · rw [if_neg hp, if_neg hp]
      exact h

theorem Source.held_advance (source : Source α) (p : α → Bool) (visits : ℕ) :
    (visitCap - (source.advance p visits).2) + (source.advance p visits).1.held +
      (if source.head.item?.any p then 1 else 0) ≤ (visitCap - visits) + source.held := by
  unfold Source.advance
  split_ifs with hp
  · have hvisits := visits_nextCounted source.rest visits
    have hheld : source.held = 1 := by
      unfold Source.held
      obtain ⟨a, hitem, -⟩ := (Option.any_eq_true _ _).mp hp
      rw [hitem]
      rfl
    omega
  · exact le_rfl

end

section
variable {α : Type} (pos : α → ℕ)

def remaining (all : List α) (c : ℕ) : List α := all.filter (c < pos ·)

variable {pos} {all : List α} {c c' : ℕ}

theorem mem_remaining {a : α} : a ∈ remaining pos all c ↔ a ∈ all ∧ c < pos a := by
  simp [remaining]

/-- Going on to `c'` passes at most the first of the remaining items. -/
theorem remaining_step (hsorted : all.Pairwise (pos · < pos ·)) (hle : c ≤ c')
    (hpos : ∀ a ∈ all, c < pos a → c' ≤ pos a) :
    remaining pos all c' = if (remaining pos all c).head?.any (pos · ≤ c') then
    (remaining pos all c).tail else remaining pos all c := by
  have hfilter : remaining pos all c' = (remaining pos all c).filter (c' < pos ·) := by
    unfold remaining
    rw [filter_filter]
    apply filter_congr
    intro a _
    rw [Bool.eq_iff_iff, Bool.and_eq_true, decide_eq_true_eq, decide_eq_true_eq]
    omega
  have hsorted' : (remaining pos all c).Pairwise (pos · < pos ·) := hsorted.filter _
  have hpos' : ∀ a ∈ remaining pos all c, c' ≤ pos a := by
    intro a ha
    exact hpos a (mem_remaining.mp ha).1 (mem_remaining.mp ha).2
  rw [hfilter]
  cases hleft : remaining pos all c with
  | nil => rfl
  | cons a rest =>
    rw [hleft] at hsorted' hpos'
    have hrest : rest.filter (c' < pos ·) = rest := by
      apply filter_eq_self.mpr
      intro b hb
      exact decide_eq_true ((hpos' a (.head rest)).trans_lt ((pairwise_cons.mp hsorted').1 b hb))
    by_cases ha : pos a ≤ c'
    · simp [hrest, ha]
    · simp [hrest, ha, not_le.mp ha]

/-- The items up to `c'` are those up to `c`, and then some of the remaining ones. -/
theorem filter_upTo (hsorted : all.Pairwise (pos · < pos ·)) (hle : c ≤ c') :
    all.filter (pos · ≤ c') = all.filter (pos · ≤ c) ++ (remaining pos all c).filter (pos · ≤ c') := by
  unfold remaining
  induction all with
  | nil => rfl
  | cons a all ih =>
    obtain ⟨ha, hsorted⟩ := pairwise_cons.mp hsorted
    have ih := ih hsorted
    by_cases hc : pos a ≤ c
    · have hc' : pos a ≤ c' := hc.trans hle
      simp only [filter_cons, hc, hc', not_lt.mpr hc, decide_true, decide_false, if_true,
        Bool.false_eq_true, if_false, cons_append]
      rw [ih]
    · -- Nothing after `a` is up to `c` either.
      have hnone : all.filter (pos · ≤ c) = [] := by
        apply filter_eq_nil_iff.mpr
        intro b hb
        have := ha b hb
        rw [decide_eq_true_eq]
        omega
      rw [hnone, nil_append] at ih
      simp only [filter_cons, hnone, hc, not_le.mp hc, decide_false, decide_true,
        Bool.false_eq_true, if_false, if_true, nil_append]
      rw [ih]

end

/-- No sequence of an aborted range after `start` has a row, and none is cut by the last issued one. -/
structure Evidence (start issued : ℕ) where
  pending : List (ℕ × InboxEntry)
  dead : List (ℕ × DeadLetterRecord)
  aborted : List (ℕ × ℕ)
  pending_sorted : pending.Pairwise (·.1 < ·.1)
  dead_sorted : dead.Pairwise (·.1 < ·.1)
  aborted_sorted : aborted.Pairwise (·.2 < ·.1)
  pending_after : ∀ row ∈ pending, start < row.1
  dead_after : ∀ row ∈ dead, start < row.1
  aborted_after : ∀ range ∈ aborted, start < range.2
  proper : ∀ range ∈ aborted, range.1 ≤ range.2
  uncut : ∀ range ∈ aborted, range.1 ≤ issued → range.2 ≤ issued
  pending_apart : ∀ range ∈ aborted, ∀ row ∈ pending, row.1 < range.1 ∨ range.2 < row.1
  dead_apart : ∀ range ∈ aborted, ∀ row ∈ dead, row.1 < range.1 ∨ range.2 < row.1

namespace Evidence
variable {start issued : ℕ} (ev : Evidence start issued) (deadlineOf : InboxEntry → ℤ) (now : ℤ)

def live (c : ℕ) : List PageEntryRecord :=
  ((ev.pending.filter (·.1 ≤ c)).filter (now < deadlineOf ·.2)).map fun row => ⟨row.2, deadlineOf row.2⟩

/-- A sequence with recorded evidence that it is lost. -/
inductive Lost (seq : ℕ) : PageReason → Prop
  | expired {entry : InboxEntry} : (seq, entry) ∈ ev.pending → deadlineOf entry ≤ now → Lost seq .expired
  | dead {row : DeadLetterRecord} : (∀ entry, (seq, entry) ∉ ev.pending) → (seq, row) ∈ ev.dead →
      now < row.retainUntil → Lost seq (lossOf row.reason)
  | aborted {range : ℕ × ℕ} : range ∈ ev.aborted → range.1 ≤ seq → start < seq → seq ≤ range.2 →
      Lost seq .aborted

def floor (start : ℕ) (range : ℕ × ℕ) : ℕ := max range.1 (satAdd start 1)

/-- Nothing happened at the sequences after `c` up to `n`. -/
structure Clear (c n : ℕ) : Prop where
  pending : ∀ row ∈ ev.pending, c < row.1 → n < row.1
  dead : ∀ row ∈ ev.dead, c < row.1 → n < row.1
  aborted : ∀ range ∈ ev.aborted, c < range.2 → n < floor start range

variable {ev deadlineOf now} {c n seq : ℕ} {reason : PageReason}

variable {range : ℕ × ℕ}

theorem floor_le (hfirst : range.1 ≤ seq) (hstart : start < seq) : floor start range ≤ seq := by
  have := satAdd_le_add start 1
  unfold floor
  omega

theorem Lost.le_of_clear (hlost : ev.Lost deadlineOf now seq reason) (h : ev.Clear c n)
    (hseq : seq ≤ n) : seq ≤ c := by
  by_contra hlt
  have hlt := not_le.mp hlt
  cases hlost with
  | expired hmem _ => exact absurd (h.pending _ hmem hlt) (not_lt.mpr hseq)
  | dead _ hmem _ => exact absurd (h.dead _ hmem hlt) (not_lt.mpr hseq)
  | aborted hmem hfirst hstart hlast =>
    have hfloor := h.aborted _ hmem (hlt.trans_le hlast)
    exact absurd (hfloor.trans_le (floor_le hfirst hstart)) (not_lt.mpr hseq)

/-- Where a row is pending, it is the whole evidence. -/
theorem lost_iff_of_pending {entry : InboxEntry} (hmem : (seq, entry) ∈ ev.pending) :
    ev.Lost deadlineOf now seq reason ↔ reason = .expired ∧ deadlineOf entry ≤ now := by
  constructor
  · intro hlost
    cases hlost with
    | @expired found hfound hdue =>
      obtain rfl := Sorted.snd_unique ev.pending_sorted hfound hmem
      exact ⟨rfl, hdue⟩
    | dead hnone _ _ => exact absurd hmem (hnone entry)
    | aborted hrange hfirst _ hlast =>
      have := ev.pending_apart _ hrange _ hmem
      omega
  · rintro ⟨rfl, hdue⟩
    exact .expired hmem hdue

theorem lost_iff_of_dead {row : DeadLetterRecord} (hnone : ∀ entry, (seq, entry) ∉ ev.pending)
    (hmem : (seq, row) ∈ ev.dead) :
    ev.Lost deadlineOf now seq reason ↔ reason = lossOf row.reason ∧ now < row.retainUntil := by
  constructor
  · intro hlost
    cases hlost with
    | expired hfound _ => exact absurd hfound (hnone _)
    | @dead found _ hfound hkept =>
      obtain rfl := Sorted.snd_unique ev.dead_sorted hfound hmem
      exact ⟨rfl, hkept⟩
    | aborted hrange hfirst _ hlast =>
      have := ev.dead_apart _ hrange _ hmem
      omega
  · rintro ⟨rfl, hkept⟩
    exact .dead hnone hmem hkept

theorem lost_iff_of_aborted (hmem : range ∈ ev.aborted) (hfirst : range.1 ≤ seq)
    (hstart : start < seq) (hlast : seq ≤ range.2) : ev.Lost deadlineOf now seq reason ↔ reason = .aborted := by
  constructor
  · intro hlost
    cases hlost with
    | expired hrow _ =>
      have := ev.pending_apart _ hmem _ hrow
      omega
    | dead _ hrow _ =>
      have := ev.dead_apart _ hmem _ hrow
      omega
    | aborted => rfl
  · rintro rfl
    exact .aborted hmem hfirst hstart hlast

/-- Up to the first remaining row there is one row more, which counts when it is live. -/
theorem live_of_head {entry : InboxEntry} {tail : List (ℕ × InboxEntry)}
    (hleft : remaining (·.1) ev.pending c = (seq, entry) :: tail) :
    ev.live deadlineOf now seq = ev.live deadlineOf now c ++
      if now < deadlineOf entry then [⟨entry, deadlineOf entry⟩] else [] := by
  have hhead : (seq, entry) ∈ remaining (·.1) ev.pending c := hleft ▸ .head tail
  have hlt : c < seq := (mem_remaining.mp hhead).2
  have hsorted : (remaining (·.1) ev.pending c).Pairwise (·.1 < ·.1) := ev.pending_sorted.filter _
  rw [hleft] at hsorted
  have hone : (remaining (·.1) ev.pending c).filter (·.1 ≤ seq) = [(seq, entry)] := by
    have htail : tail.filter (·.1 ≤ seq) = [] := by
      apply filter_eq_nil_iff.mpr
      intro row hrow
      have hafter := (pairwise_cons.mp hsorted).1 row hrow
      rw [decide_eq_true_eq]
      exact not_le.mpr hafter
    rw [hleft, filter_cons_of_pos (by simp), htail]
  unfold live
  rw [filter_upTo ev.pending_sorted hlt.le, hone, filter_append, map_append]
  by_cases hlive : now < deadlineOf entry
  · simp [hlive]
  · simp [hlive]

theorem live_of_not_pending {c : ℕ} (hle : c ≤ seq) (h : ∀ row ∈ ev.pending, c < row.1 → seq < row.1) :
    ev.live deadlineOf now seq = ev.live deadlineOf now c := by
  unfold live
  have hfilter : ev.pending.filter (·.1 ≤ seq) = ev.pending.filter (·.1 ≤ c) := by
    apply filter_congr
    intro row hrow
    have := h row hrow
    rw [decide_eq_decide]
    omega
  rw [hfilter]

end Evidence

def Shown (losses : List KnownLoss) (seq : ℕ) (reason : PageReason) : Prop :=
  ∃ loss ∈ losses, loss.fromSeq ≤ seq ∧ seq ≤ loss.toSeq ∧ loss.reason = reason

variable {c seq start fromSeq : ℕ} {reason : PageReason} {losses : List KnownLoss} {w : Walk}

theorem KnownLoss.of_mergesWith {last : KnownLoss}
    (h : last.mergesWith fromSeq reason = true) : last.toSeq + 1 = fromSeq ∧ last.reason = reason := by
  simp only [mergesWith, Bool.and_eq_true, beq_iff_eq] at h
  exact ⟨h.1.2, h.2⟩

theorem shown_append {losses' : List KnownLoss} :
    Shown (losses ++ losses') seq reason ↔ Shown losses seq reason ∨ Shown losses' seq reason := by
  unfold Shown
  simp only [mem_append, or_and_right, exists_or]

theorem shown_singleton {loss : KnownLoss} :
    Shown [loss] seq reason ↔ loss.fromSeq ≤ seq ∧ seq ≤ loss.toSeq ∧ loss.reason = reason := by
  unfold Shown
  simp only [mem_singleton, exists_eq_left]

variable {toSeq : ℕ}

theorem shown_addLoss (hproper : ∀ loss ∈ losses, loss.fromSeq ≤ loss.toSeq) (hle : fromSeq ≤ toSeq)
    (seq : ℕ) (shown : PageReason) : Shown (addLoss losses fromSeq toSeq reason) seq shown ↔
      Shown losses seq shown ∨ fromSeq ≤ seq ∧ seq ≤ toSeq ∧ reason = shown := by
  rcases addLoss_cases losses fromSeq toSeq reason with ⟨init, last, rfl, hmerges, hadd⟩ | ⟨-, hadd⟩
  · obtain ⟨hnext, rfl⟩ := KnownLoss.of_mergesWith hmerges
    have hlast := hproper last (by simp)
    rw [hadd, shown_append, shown_append, or_assoc, shown_singleton, shown_singleton]
    apply or_congr_right
    dsimp only
    constructor
    · rintro ⟨hfrom, hto, hreason⟩
      rcases lt_or_ge last.toSeq seq with hlt | hge
      · exact .inr ⟨by omega, hto, hreason⟩
      · exact .inl ⟨hfrom, hge, hreason⟩
    · rintro (⟨hfrom, hto, hreason⟩ | ⟨hfrom, hto, hreason⟩)
      · exact ⟨hfrom, by omega, hreason⟩
      · exact ⟨by omega, hto, hreason⟩
  · rw [hadd, shown_append, shown_singleton]

/-- The first loss always fits behind the header. -/
theorem ResumePage.pushLoss_isSome_of_empty (page : ResumePage) (fromSeq toSeq : ℕ)
    (reason : PageReason) {size : ℕ} (hempty : page.knownLosses = []) (hsize : size ≤ headerCap) :
    (page.pushLoss fromSeq toSeq reason size).isSome := by
  have hfits : headerCap + (KnownLoss.json ⟨u64Max, u64Max, reason⟩).length ≤ pageByteCap := by
    cases reason <;> decide +kernel
  unfold pushLoss
  rw [hempty]
  have hcap : ([] : List KnownLoss).length ≠ lossCap := by decide
  have hbytes : ¬pageByteCap < size + ((KnownLoss.json ⟨u64Max, u64Max, reason⟩).length + 0) := by
    omega
  simp only [getLast?_nil, Option.any_none, Bool.false_eq_true, if_false, hcap, isEmpty_nil,
    if_true, hbytes, Option.isSome_some]

/-- Losses stay in order and up to `c`. -/
structure InOrder (losses : List KnownLoss) (c : ℕ) : Prop where
  ordered : losses.Pairwise (·.toSeq < ·.fromSeq)
  proper : ∀ loss ∈ losses, loss.fromSeq ≤ loss.toSeq
  upTo : ∀ loss ∈ losses, loss.toSeq ≤ c

theorem InOrder.mono {c' : ℕ} (h : InOrder losses c) (hle : c ≤ c') : InOrder losses c' :=
  ⟨h.ordered, h.proper, fun loss hloss => (h.upTo loss hloss).trans hle⟩

theorem inOrder_concat {loss : KnownLoss} (hordered : losses.Pairwise (·.toSeq < ·.fromSeq))
    (hproper : ∀ l ∈ losses, l.fromSeq ≤ l.toSeq) (hbefore : ∀ l ∈ losses, l.toSeq < loss.fromSeq)
    (hle : loss.fromSeq ≤ loss.toSeq) : InOrder (losses ++ [loss]) loss.toSeq := by
  refine ⟨pairwise_append.mpr ⟨hordered, pairwise_singleton _ _, ?_⟩, ?_, ?_⟩
  · simpa using hbefore
  · simpa [or_imp, forall_and] using ⟨hproper, hle⟩
  · simpa [or_imp, forall_and] using fun l hl => ((hbefore l hl).trans_le hle).le

theorem InOrder.addLoss (h : InOrder losses c) (hlt : c < fromSeq) (hle : fromSeq ≤ toSeq) :
    InOrder (addLoss losses fromSeq toSeq reason) toSeq := by
  rcases addLoss_cases losses fromSeq toSeq reason with ⟨init, last, rfl, hmerges, hadd⟩ | ⟨-, hadd⟩
  · obtain ⟨hnext, -⟩ := KnownLoss.of_mergesWith hmerges
    obtain ⟨hinit, -, hcross⟩ := pairwise_append.mp h.ordered
    have hlast := h.proper last mem_concat_self
    rw [hadd]
    apply inOrder_concat hinit (fun l hl => h.proper l (mem_append_left _ hl))
    · exact fun l hl => hcross l hl last (.head [])
    · show last.fromSeq ≤ toSeq
      omega
  · rw [hadd]
    exact inOrder_concat h.ordered h.proper (fun l hl => (h.upTo l hl).trans_lt hlt) hle

section
variable {start issued : ℕ} {ev : Evidence start issued} {deadlineOf : InboxEntry → ℤ} {now : ℤ}
  {page : ResumePage} {c n seq : ℕ}

/-- The page shows the live rows and the losses up to `c`, and nothing else. -/
structure Exact (ev : Evidence start issued) (deadlineOf : InboxEntry → ℤ) (now : ℤ) (page : ResumePage)
    (c : ℕ) : Prop where
  entries : page.entries = ev.live deadlineOf now c
  losses : ∀ seq reason, Shown page.knownLosses seq reason ↔ seq ≤ c ∧ ev.Lost deadlineOf now seq reason
  inOrder : InOrder page.knownLosses c

theorem Exact.skip (h : Exact ev deadlineOf now page c) (hclear : ev.Clear c n) (hle : c ≤ n) :
    Exact ev deadlineOf now page n where
  entries := h.entries.trans (Evidence.live_of_not_pending hle hclear.pending).symm
  losses seq reason := by
    rw [h.losses]
    constructor
    · rintro ⟨hseq, hlost⟩
      exact ⟨hseq.trans hle, hlost⟩
    · rintro ⟨hseq, hlost⟩
      exact ⟨hlost.le_of_clear hclear hseq, hlost⟩
  inOrder := h.inOrder.mono hle

theorem Exact.next (h : Exact ev deadlineOf now page c) (hclear : ev.Clear c (seq - 1)) (hlt : c < seq)
    {entries : List PageEntryRecord} (hnone : ∀ reason, ¬ev.Lost deadlineOf now seq reason)
    (hlive : ev.live deadlineOf now seq = ev.live deadlineOf now c ++ entries) :
    Exact ev deadlineOf now { page with entries := page.entries ++ entries } seq where
  entries := by
    rw [hlive, ← h.entries]
  losses s reason := by
    rw [h.losses]
    constructor
    · rintro ⟨hs, hlost⟩
      exact ⟨hs.trans hlt.le, hlost⟩
    · rintro ⟨hs, hlost⟩
      have hne : s ≠ seq := by
        rintro rfl
        exact hnone reason hlost
      exact ⟨hlost.le_of_clear hclear (by omega), hlost⟩
  inOrder := h.inOrder.mono hlt.le

/-- A stretch of sequences more, all lost for one reason. -/
theorem Exact.addLoss (h : Exact ev deadlineOf now page c) (hclear : ev.Clear c (seq - 1))
    (hlt : c < seq) {toSeq : ℕ} {reason : PageReason} (hle : seq ≤ toSeq)
    (hlost : ∀ s shown, seq ≤ s → s ≤ toSeq → (ev.Lost deadlineOf now s shown ↔ reason = shown))
    (hlive : ev.live deadlineOf now toSeq = ev.live deadlineOf now c) :
    Exact ev deadlineOf now
      { page with knownLosses := InboxPage.addLoss page.knownLosses seq toSeq reason } toSeq where
  entries := h.entries.trans hlive.symm
  losses s shown := by
    rw [shown_addLoss h.inOrder.proper hle, h.losses]
    constructor
    · rintro (⟨hs, hlost⟩ | ⟨hfrom, hto, hreason⟩)
      · exact ⟨by omega, hlost⟩
      · exact ⟨hto, (hlost s shown hfrom hto).mpr hreason⟩
    · rintro ⟨hs, hlost'⟩
      rcases lt_or_ge s seq with hbefore | hfrom
      · exact .inl ⟨hlost'.le_of_clear hclear (by omega), hlost'⟩
      · exact .inr ⟨hfrom, hs, (hlost s shown hfrom hs).mp hlost'⟩
  inOrder := h.inOrder.addLoss hlt hle

end

def Walk.heads (start : ℕ) (w : Walk) : List ℕ :=
  [w.pending.head.item?.map (·.1), w.dead.head.item?.map (·.1),
    w.aborted.head.item?.map (Evidence.floor start)].filterMap id

theorem Walk.mem_heads {m : ℕ} : m ∈ w.heads start ↔
    (∃ entry, w.pending.head.item? = some (m, entry)) ∨ (∃ row, w.dead.head.item? = some (m, row)) ∨
      ∃ range, w.aborted.head.item? = some range ∧ Evidence.floor start range = m := by
  unfold heads
  rw [mem_filterMap]
  simp only [mem_cons, not_mem_nil, or_false, id_eq, exists_eq_right]
  rw [eq_comm, Option.map_eq_some_iff, @eq_comm _ (some m), Option.map_eq_some_iff, @eq_comm _ (some m),
    Option.map_eq_some_iff]
  simp only [Prod.exists, exists_and_right, exists_eq_right]

theorem Walk.nextSeq_some (h : w.nextSeq start = some seq) :
    seq ∈ w.heads start ∧ ∀ m ∈ w.heads start, seq ≤ m :=
  min?_eq_some_iff.mp h

theorem Walk.lt_heads_of_finished {issued : ℕ}
    (h : (w.nextSeq start).filter (· ≤ issued) = none) : ∀ m ∈ w.heads start, issued < m := by
  intro m hm
  cases hnext : w.nextSeq start with
  | none =>
    have hnil : w.heads start = [] := min?_eq_none_iff.mp hnext
    rw [hnil] at hm
    cases hm
  | some seq =>
    rw [hnext, Option.filter_some] at h
    have hlt : ¬seq ≤ issued := by
      intro hle
      simp [hle] at h
    exact (not_le.mp hlt).trans_le ((nextSeq_some hnext).2 m hm)

/-- Visits left and items held: every round that goes on takes away from these. -/
def Walk.measure (w : Walk) : ℕ := (visitCap - w.visits) + w.pending.held + w.dead.held + w.aborted.held

theorem Walk.measure_cover_lt (page : ResumePage) (size : ℕ) {last : ℕ}
    (h : (∃ a, w.pending.head.item? = some a ∧ a.1 ≤ last) ∨ (∃ a, w.dead.head.item? = some a ∧ a.1 ≤ last) ∨
      ∃ a, w.aborted.head.item? = some a ∧ a.2 ≤ last) : (w.cover page size last).measure < w.measure := by
  have hpending := w.pending.held_advance (·.1 ≤ last) w.visits
  have hdead := w.dead.held_advance (·.1 ≤ last) (w.pending.advance (·.1 ≤ last) w.visits).2
  have haborted := w.aborted.held_advance (·.2 ≤ last)
    (w.dead.advance (·.1 ≤ last) (w.pending.advance (·.1 ≤ last) w.visits).2).2
  unfold measure
  unfold cover
  dsimp only
  rcases h with ⟨a, hitem, hle⟩ | ⟨a, hitem, hle⟩ | ⟨a, hitem, hle⟩
  · simp only [hitem, Option.any_some, hle, decide_true, if_true] at hpending
    omega
  · simp only [hitem, Option.any_some, hle, decide_true, if_true] at hdead
    omega
  · simp only [hitem, Option.any_some, hle, decide_true, if_true] at haborted
    omega

theorem Source.Serves.lt_of_head {ν : Type} {source : Source (ℕ × ν)} {rows : List (ℕ × ν)}
    {n visits : ℕ}
    (h : source.Serves (remaining (·.1) rows c) visits) (hsorted : rows.Pairwise (·.1 < ·.1))
    (hspent : source.head.isSpent = false) (hhead : ∀ m v, source.head.item? = some (m, v) → n < m) :
    ∀ row ∈ rows, c < row.1 → n < row.1 := by
  intro row hrow hlt
  have hmem : row ∈ remaining (·.1) rows c := mem_remaining.mpr ⟨hrow, hlt⟩
  cases hitem : source.head.item? with
  | none =>
    rw [h.exhausted hitem hspent] at hmem
    cases hmem
  | some first =>
    obtain ⟨m, v⟩ := first
    have hsorted' : (remaining (·.1) rows c).Pairwise (·.1 < ·.1) := hsorted.filter _
    rw [(h.of_item hitem).1] at hmem hsorted'
    rcases mem_cons.mp hmem with rfl | htail
    · exact hhead m v hitem
    · exact (hhead m v hitem).trans ((pairwise_cons.mp hsorted').1 row htail)

section
variable {record : PageEntryRecord → Bytes} {deadlineOf : InboxEntry → ℤ} {request : PageRequest}
  {start issued header : ℕ} {ev : Evidence start issued} {w w' : Walk} {page : ResumePage}

/-- The walk has shown everything up to where it is, and its sources have the rest. -/
structure Covers (ev : Evidence start issued) (deadlineOf : InboxEntry → ℤ) (now : ℤ) (header : ℕ)
    (w : Walk) : Prop where
  pending : w.pending.Serves (remaining (·.1) ev.pending w.page.coveredThroughSeq) w.visits
  dead : w.dead.Serves (remaining (·.1) ev.dead w.page.coveredThroughSeq) w.visits
  aborted : w.aborted.Serves (remaining (·.2) ev.aborted w.page.coveredThroughSeq) w.visits
  start_le : start ≤ w.page.coveredThroughSeq
  le_issued : w.page.coveredThroughSeq ≤ issued
  whole : ∀ range ∈ ev.aborted, w.page.coveredThroughSeq < range.2 →
    w.page.coveredThroughSeq < Evidence.floor start range
  shows : Exact ev deadlineOf now w.page w.page.coveredThroughSeq
  fresh : w.page.coveredThroughSeq = start → w.page.entries = [] ∧ w.page.knownLosses = [] ∧
    w.size = header ∧ w.spent = false

/-- The page shows everything up to `covered_through_seq`, which moves on unless a row is too large. -/
structure Covered (ev : Evidence start issued) (record : PageEntryRecord → Bytes)
    (deadlineOf : InboxEntry → ℤ) (now : ℤ) (header : ℕ) (page : ResumePage) : Prop where
  start_le : start ≤ page.coveredThroughSeq
  le_issued : page.coveredThroughSeq ≤ issued
  shows : Exact ev deadlineOf now page page.coveredThroughSeq
  progress : start < page.coveredThroughSeq ∨ page.coveredThroughSeq = issued ∨
    ∃ (seq : ℕ) (entry : InboxEntry), (seq, entry) ∈ ev.pending ∧ seq ≤ issued ∧ now < deadlineOf entry ∧
      pageByteCap < header + (record ⟨entry, deadlineOf entry⟩).length ∧
      page.oversizeNext = some entry.inboxSeq

theorem Evidence.floor_le_last {range : ℕ × ℕ} (h : range ∈ ev.aborted) : floor start range ≤ range.2 :=
  floor_le (ev.proper range h) (ev.aborted_after range h)

theorem Evidence.aborted_sorted_last (ev : Evidence start issued) : ev.aborted.Pairwise
    (·.2 < ·.2) := by
  apply ev.aborted_sorted.imp_of_mem
  intro range range' _ hmem hlt
  exact hlt.trans_le (ev.proper range' hmem)

theorem Walk.not_spent (h : w.spent = false) :
    w.pending.head.isSpent = false ∧ w.dead.head.isSpent = false ∧ w.aborted.head.isSpent = false := by
  simpa [spent, and_assoc] using h

namespace Covers

theorem clear (h : Covers ev deadlineOf now header w) (hspent : w.spent = false) {n : ℕ}
    (hheads : ∀ m ∈ w.heads start, n < m) : ev.Clear w.page.coveredThroughSeq n := by
  obtain ⟨hpending, hdead, haborted⟩ := not_spent hspent
  refine ⟨?_, ?_, ?_⟩
  · apply h.pending.lt_of_head ev.pending_sorted hpending
    intro m entry hitem
    exact hheads m (mem_heads.mpr (.inl ⟨entry, hitem⟩))
  · apply h.dead.lt_of_head ev.dead_sorted hdead
    intro m row hitem
    exact hheads m (mem_heads.mpr (.inr (.inl ⟨row, hitem⟩)))
  · intro range hrange hlt
    have hmem : range ∈ remaining (·.2) ev.aborted w.page.coveredThroughSeq :=
      mem_remaining.mpr ⟨hrange, hlt⟩
    cases hitem : w.aborted.head.item? with
    | none =>
      rw [h.aborted.exhausted hitem haborted] at hmem
      cases hmem
    | some first =>
      have hfirst := hheads _ (mem_heads.mpr (.inr (.inr ⟨first, hitem, rfl⟩)))
      have hsorted : (remaining (·.2) ev.aborted w.page.coveredThroughSeq).Pairwise (·.2 < ·.1) :=
        ev.aborted_sorted.filter _
      have hle := Evidence.floor_le_last (mem_remaining.mp (h.aborted.mem_of_item hitem)).1
      rw [(h.aborted.of_item hitem).1] at hmem hsorted
      rcases mem_cons.mp hmem with rfl | htail
      · exact hfirst
      · have hafter := (pairwise_cons.mp hsorted).1 range htail
        exact (hfirst.trans_le hle).trans (hafter.trans_le (le_max_left _ _))

variable {seq size : ℕ}

section
variable (h : Covers ev deadlineOf now header w)
include h

theorem lt_heads {m : ℕ} (hm : m ∈ w.heads start) : w.page.coveredThroughSeq < m := by
  rcases mem_heads.mp hm with ⟨entry, hitem⟩ | ⟨row, hitem⟩ | ⟨range, hitem, rfl⟩
  · exact (mem_remaining.mp (h.pending.mem_of_item hitem)).2
  · exact (mem_remaining.mp (h.dead.mem_of_item hitem)).2
  · obtain ⟨hmem, hlt⟩ := mem_remaining.mp (h.aborted.mem_of_item hitem)
    exact h.whole range hmem hlt

theorem before_next (hspent : w.spent = false) (hseq : w.nextSeq start = some seq) :
    w.page.coveredThroughSeq < seq ∧ ev.Clear w.page.coveredThroughSeq (seq - 1) := by
  have hlt := h.lt_heads (nextSeq_some hseq).1
  refine ⟨hlt, h.clear hspent fun m hm => ?_⟩
  have := (nextSeq_some hseq).2 m hm
  omega

/-- Going on to `last` with a page that shows everything up to it. -/
theorem cover (hspent : w.spent = false) {last : ℕ}
    (hlt : w.page.coveredThroughSeq < last) (hissued : last ≤ issued)
    (hpending : ∀ row ∈ ev.pending, w.page.coveredThroughSeq < row.1 → last ≤ row.1)
    (hdead : ∀ row ∈ ev.dead, w.page.coveredThroughSeq < row.1 → last ≤ row.1)
    (haborted : ∀ range ∈ ev.aborted, w.page.coveredThroughSeq < range.2 → last ≤ range.2)
    (hwhole : ∀ range ∈ ev.aborted, last < range.2 → last < range.1)
    (hshows : Exact ev deadlineOf now page last) : Covers ev deadlineOf now header
    (w.cover page size last) := by
  obtain ⟨hspent₁, hspent₂, hspent₃⟩ := not_spent hspent
  have hle₁ := w.pending.le_visits_advance (·.1 ≤ last) w.visits
  have hle₂ := w.dead.le_visits_advance (·.1 ≤ last) (w.pending.advance (·.1 ≤ last) w.visits).2
  have hle₃ := w.aborted.le_visits_advance (·.2 ≤ last)
    (w.dead.advance (·.1 ≤ last) (w.pending.advance (·.1 ≤ last) w.visits).2).2
  have hserves₁ := h.pending.advance hspent₁ (·.1 ≤ last)
  have hserves₂ := (h.dead.mono hle₁).advance hspent₂ (·.1 ≤ last)
  have hserves₃ := (h.aborted.mono (hle₁.trans hle₂)).advance hspent₃ (·.2 ≤ last)
  rw [← remaining_step ev.pending_sorted hlt.le hpending] at hserves₁
  rw [← remaining_step ev.dead_sorted hlt.le hdead] at hserves₂
  rw [← remaining_step ev.aborted_sorted_last hlt.le haborted] at hserves₃
  have hstart := h.start_le.trans_lt hlt
  exact {
    pending := hserves₁.mono (hle₂.trans hle₃)
    dead := hserves₂.mono hle₃
    aborted := hserves₃
    start_le := hstart.le
    le_issued := hissued
    whole := fun range hrange hlast => (hwhole range hrange hlast).trans_le (le_max_left _ _)
    shows := { hshows with }
    fresh := fun heq => absurd heq hstart.ne' }

end

section
variable (h : Covers ev deadlineOf now header w) (hspent : w.spent = false)
  (hseq : w.nextSeq start = some seq)

include h hspent hseq in
theorem pending_after (hnone : ∀ entry, w.pending.head.item? ≠ some (seq, entry)) :
    ∀ row ∈ ev.pending, w.page.coveredThroughSeq < row.1 → seq < row.1 := by
  apply h.pending.lt_of_head ev.pending_sorted (not_spent hspent).1
  intro m entry hitem
  have hle := (nextSeq_some hseq).2 m (mem_heads.mpr (.inl ⟨entry, hitem⟩))
  have hne : m ≠ seq := by
    rintro rfl
    exact hnone entry hitem
  omega

variable {entry : InboxEntry}

include h in
theorem pending_head (hitem : w.pending.head.item? = some (seq, entry)) :
    (seq, entry) ∈ ev.pending ∧ ev.live deadlineOf now seq = ev.live deadlineOf now w.page.coveredThroughSeq ++
      if now < deadlineOf entry then [⟨entry, deadlineOf entry⟩] else [] :=
  ⟨(mem_remaining.mp (h.pending.mem_of_item hitem)).1, Evidence.live_of_head (h.pending.of_item hitem).1⟩

variable (hle : seq ≤ issued) {row : DeadLetterRecord}

include h hspent hseq

theorem dead_head (hnone : ∀ entry, w.pending.head.item? ≠ some (seq, entry))
    (hitem : w.dead.head.item? = some (seq, row)) :
    (seq, row) ∈ ev.dead ∧ (∀ entry, (seq, entry) ∉ ev.pending) ∧
      ev.live deadlineOf now seq = ev.live deadlineOf now w.page.coveredThroughSeq := by
  have hlt := (h.before_next hspent hseq).1
  have hafter := h.pending_after hspent hseq hnone
  refine ⟨(mem_remaining.mp (h.dead.mem_of_item hitem)).1, fun entry hrow => ?_,
    Evidence.live_of_not_pending hlt.le hafter⟩
  exact lt_irrefl seq (hafter _ hrow hlt)

include hle

/-- Going on to the next position, which no range reaches over. -/
theorem cover_next (hwhole : ∀ range ∈ ev.aborted, seq < range.1 ∨ range.2 < seq)
    (hshows : Exact ev deadlineOf now page seq) : Covers ev deadlineOf now header
    (w.cover page size seq) := by
  obtain ⟨hlt, hclear⟩ := h.before_next hspent hseq
  refine h.cover hspent hlt hle ?_ ?_ ?_ ?_ hshows
  · intro row hrow hafter
    have := hclear.pending row hrow hafter
    omega
  · intro row hrow hafter
    have := hclear.dead row hrow hafter
    omega
  · intro range hrange hafter
    have := hclear.aborted range hrange hafter
    have := Evidence.floor_le_last hrange
    omega
  · intro range hrange hafter
    have := hwhole range hrange
    omega

theorem take {entry : InboxEntry}
    (hitem : w.pending.head.item? = some (seq, entry)) (hlive : now < deadlineOf entry) :
    Covers ev deadlineOf now header (w.cover { w.page.upTo seq with
      entries := w.page.entries ++ [⟨entry, deadlineOf entry⟩] } size seq) := by
  obtain ⟨hlt, hclear⟩ := h.before_next hspent hseq
  obtain ⟨hmem, hrows⟩ := h.pending_head hitem
  rw [if_pos hlive] at hrows
  have hnone : ∀ reason, ¬ev.Lost deadlineOf now seq reason := by
    intro reason hlost
    exact absurd ((Evidence.lost_iff_of_pending hmem).mp hlost).2 (not_le.mpr hlive)
  have hshows := h.shows.next hclear hlt hnone hrows
  apply h.cover_next hspent hseq hle _ { hshows with }
  intro range hrange
  exact ev.pending_apart range hrange _ hmem

theorem lose {reason : PageReason} (hwhole : ∀ range ∈ ev.aborted, seq < range.1 ∨ range.2 < seq)
    (hlost : ∀ shown, ev.Lost deadlineOf now seq shown ↔ shown = reason)
    (hrows : ev.live deadlineOf now seq = ev.live deadlineOf now w.page.coveredThroughSeq) :
    Covers ev deadlineOf now header (w.cover { w.page.upTo seq with
      knownLosses := addLoss w.page.knownLosses seq seq reason } size seq) := by
  obtain ⟨hlt, hclear⟩ := h.before_next hspent hseq
  have hlost' : ∀ s shown, seq ≤ s → s ≤ seq → (ev.Lost deadlineOf now s shown ↔ reason = shown) := by
    intro s shown hfrom hto
    rw [le_antisymm hto hfrom, hlost, eq_comm]
  have hshows := h.shows.addLoss hclear hlt le_rfl hlost' hrows
  exact h.cover_next hspent hseq hle hwhole { hshows with }

theorem lose_expired (hitem : w.pending.head.item? = some (seq, entry))
    (hdue : deadlineOf entry ≤ now) :
    Covers ev deadlineOf now header (w.cover { w.page.upTo seq with
      knownLosses := addLoss w.page.knownLosses seq seq .expired } size seq) := by
  obtain ⟨hmem, hrows⟩ := h.pending_head hitem
  rw [if_neg (not_lt.mpr hdue), append_nil] at hrows
  apply h.lose hspent hseq hle (fun range hrange => ev.pending_apart range hrange _ hmem) _ hrows
  intro shown
  rw [Evidence.lost_iff_of_pending hmem, and_iff_left hdue]

theorem lose_dead (hnone : ∀ entry, w.pending.head.item? ≠ some (seq, entry))
    (hitem : w.dead.head.item? = some (seq, row)) (hkept : now < row.retainUntil) :
    Covers ev deadlineOf now header (w.cover { w.page.upTo seq with
      knownLosses := addLoss w.page.knownLosses seq seq (lossOf row.reason) } size seq) := by
  obtain ⟨hmem, hpending, hrows⟩ := h.dead_head hspent hseq hnone hitem
  apply h.lose hspent hseq hle (fun range hrange => ev.dead_apart range hrange _ hmem) _ hrows
  intro shown
  rw [Evidence.lost_iff_of_dead hpending hmem, and_iff_left hkept]

theorem pass (hnone : ∀ entry, w.pending.head.item? ≠ some (seq, entry))
    (hitem : w.dead.head.item? = some (seq, row)) (hgone : row.retainUntil ≤ now) :
    Covers ev deadlineOf now header (w.cover (w.page.upTo seq) size seq) := by
  obtain ⟨hlt, hclear⟩ := h.before_next hspent hseq
  obtain ⟨hmem, hpending, hrows⟩ := h.dead_head hspent hseq hnone hitem
  have hlost : ∀ reason, ¬ev.Lost deadlineOf now seq reason := by
    intro reason hlost
    exact absurd ((Evidence.lost_iff_of_dead hpending hmem).mp hlost).2 (not_lt.mpr hgone)
  have hshows := h.shows.next hclear hlt hlost (hrows.trans (append_nil _).symm)
  rw [append_nil] at hshows
  apply h.cover_next hspent hseq hle _ { hshows with }
  intro range hrange
  exact ev.dead_apart range hrange _ hmem

/-- The next position begins an aborted range, or what is left of it after the first position. -/
theorem lose_aborted {first last : ℕ}
    (hfloor : Evidence.floor start (first, last) = seq) (hitem : w.aborted.head.item? = some (first, last)) :
    last ≤ issued ∧ Covers ev deadlineOf now header (w.cover { w.page.upTo seq with
      knownLosses := addLoss w.page.knownLosses seq last .aborted } size last) := by
  obtain ⟨hlt, hclear⟩ := h.before_next hspent hseq
  have hmem := (mem_remaining.mp (h.aborted.mem_of_item hitem)).1
  have hfirst : first ≤ seq := hfloor ▸ le_max_left _ _
  have hlast : seq ≤ last := hfloor ▸ Evidence.floor_le_last hmem
  have hissued := ev.uncut _ hmem (hfirst.trans hle)
  have hpending : ∀ row ∈ ev.pending, w.page.coveredThroughSeq < row.1 → last < row.1 := by
    intro row hrow hafter
    have := hclear.pending row hrow hafter
    have := ev.pending_apart _ hmem _ hrow
    omega
  have hdead : ∀ row ∈ ev.dead, w.page.coveredThroughSeq < row.1 → last < row.1 := by
    intro row hrow hafter
    have := hclear.dead row hrow hafter
    have := ev.dead_apart _ hmem _ hrow
    omega
  have hlost : ∀ s shown, seq ≤ s → s ≤ last → (ev.Lost deadlineOf now s shown ↔ .aborted = shown) := by
    intro s shown hfrom hto
    have hstart := h.start_le.trans_lt (hlt.trans_le hfrom)
    rw [Evidence.lost_iff_of_aborted hmem (hfirst.trans hfrom) hstart hto, eq_comm]
  have hrows : ev.live deadlineOf now last = ev.live deadlineOf now w.page.coveredThroughSeq :=
    Evidence.live_of_not_pending (hlt.le.trans hlast) hpending
  have hshows := h.shows.addLoss hclear hlt hlast hlost hrows
  -- Another range is wholly before this one or wholly after it.
  have hother : ∀ range ∈ ev.aborted, range = (first, last) ∨ last < range.1 ∨ range.2 < first := by
    intro range hrange
    rcases Sorted.pairwise_cases ev.aborted_sorted hrange hmem with heq | hbefore | hafter
    · exact .inl heq
    · exact .inr (.inr hbefore)
    · exact .inr (.inl hafter)
  refine ⟨hissued, h.cover hspent (hlt.trans_le hlast) hissued (fun row hrow hafter =>
    (hpending row hrow hafter).le) (fun row hrow hafter => (hdead row hrow hafter).le) ?_ ?_ { hshows with }⟩
  · intro range hrange hafter
    have hfloor' := hclear.aborted range hrange hafter
    have hle' := Evidence.floor_le_last hrange
    rcases hother range hrange with rfl | hlt' | hlt'
    · exact le_rfl
    · exact hlt'.le.trans (ev.proper range hrange)
    · omega
  · intro range hrange hafter
    rcases hother range hrange with rfl | hlt' | hlt'
    · exact absurd hafter (lt_irrefl _)
    · exact hlt'
    · omega

end

/-- One round that goes on keeps the walk covering, and comes closer to its end. -/
theorem step (h : Covers ev deadlineOf request.now header w)
    (hround : Round record deadlineOf request issued start header w (.ok w')) :
    Covers ev deadlineOf request.now header w' ∧ w'.measure < w.measure := by
  cases hround with
  | @taken seq entry deadline page size hspent hseq hle hfind hpush =>
    obtain ⟨rfl, -, -⟩ := ResumePage.pushEntry_ok hpush
    obtain ⟨hitem, rfl, hlive⟩ := find_live hfind
    exact ⟨h.take hspent hseq hle hitem hlive, measure_cover_lt _ _ (.inl ⟨_, hitem, le_rfl⟩)⟩
  | @lost seq toSeq reason page size hspent hseq hle hfind hpush =>
    obtain ⟨rfl, -, -⟩ := ResumePage.pushLoss_some hpush
    have hfound := @w.find_spec deadlineOf request issued seq
    rw [hfind] at hfound
    cases hfound with
    | expired hitem hdue =>
      exact ⟨h.lose_expired hspent hseq hle hitem hdue,
        measure_cover_lt _ _ (.inl ⟨_, hitem, le_rfl⟩)⟩
    | dead hnone hitem hkept =>
      exact ⟨h.lose_dead hspent hseq hle hnone hitem hkept,
        measure_cover_lt _ _ (.inr (.inl ⟨_, hitem, le_rfl⟩))⟩
    | @aborted first last hnone hnone' hitem =>
      have hfloor : Evidence.floor start (first, last) = seq := by
        rcases mem_heads.mp (nextSeq_some hseq).1 with ⟨entry, hrow⟩ | ⟨row, hrow⟩ | ⟨range, hrow, hfloor⟩
        · exact absurd hrow (hnone entry)
        · exact absurd hrow (hnone' row)
        · rw [hitem] at hrow
          rw [Option.some.inj hrow, hfloor]
      obtain ⟨hissued, hcovers⟩ := @lose_aborted _ _ _ _ _ _ _ _ size h hspent hseq hle _ _ hfloor hitem
      rw [Nat.min_eq_left hissued]
      exact ⟨hcovers, measure_cover_lt _ _ (.inr (.inr ⟨_, hitem, le_rfl⟩))⟩
  | @passed seq hspent hseq hle hfind =>
    have hfound := @w.find_spec deadlineOf request issued seq
    rw [hfind] at hfound
    cases hfound with
    | forgotten hnone hitem hgone =>
      exact ⟨h.pass hspent hseq hle hnone hitem hgone,
        measure_cover_lt _ _ (.inr (.inl ⟨_, hitem, le_rfl⟩))⟩
    | nothing hnone hnone' hnone'' =>
      rcases mem_heads.mp (nextSeq_some hseq).1 with ⟨entry, hrow⟩ | ⟨row, hrow⟩ | ⟨range, hrow, -⟩
      · exact absurd hrow (hnone entry)
      · exact absurd hrow (hnone' row)
      · rw [hnone''] at hrow
        cases hrow

theorem stop_before (h : Covers ev deadlineOf now header w) (hspent : w.spent = false)
    (hseq : w.nextSeq start = some seq) (hle : seq ≤ issued)
    (hmoved : w.page.coveredThroughSeq ≠ start) :
    Covered ev record deadlineOf now header (w.page.upTo seq) := by
  obtain ⟨hlt, hclear⟩ := h.before_next hspent hseq
  have hcovered : (w.page.upTo seq).coveredThroughSeq = seq - 1 := max_eq_right (Nat.le_sub_one_of_lt hlt)
  have hstart := h.start_le
  have hshows := h.shows.skip hclear (Nat.le_sub_one_of_lt hlt)
  refine ⟨?_, ?_, ?_, .inl ?_⟩
  · omega
  · omega
  · rw [hcovered]
    exact { hshows with }
  · omega

theorem stop (h : Covers ev deadlineOf request.now header w) (hhdr : header ≤ headerCap)
    (hlimit : 0 < request.limit)
    (hround : Round record deadlineOf request issued start header w (.error page)) :
    Covered ev record deadlineOf request.now header page := by
  cases hround with
  | spent hspent =>
    refine ⟨h.start_le, h.le_issued, h.shows, .inl (lt_of_le_of_ne h.start_le ?_)⟩
    intro heq
    rw [(h.fresh heq.symm).2.2.2] at hspent
    cases hspent
  | finished hspent hnext =>
    have hclear := h.clear hspent (lt_heads_of_finished hnext)
    have hshows := h.shows.skip hclear h.le_issued
    exact ⟨h.start_le.trans h.le_issued, le_rfl, { hshows with }, .inr (.inl rfl)⟩
  | full hspent hseq hle hfind hfull =>
    apply h.stop_before hspent hseq hle
    intro heq
    have hempty : w.page.entries.length = 0 := congrArg List.length (h.fresh heq).1
    have hcap : 0 < entryCap := by decide
    omega
  | @stopped seq entry deadline page hspent hseq hle hfind hpush =>
    obtain ⟨hitem, rfl, hlive⟩ := find_live hfind
    rcases ResumePage.pushEntry_error hpush with ⟨rfl, hfits, hfull⟩ | ⟨rfl, hlarge⟩
    · apply h.stop_before hspent hseq hle
      intro heq
      obtain ⟨hempty, -, hsize, -⟩ := h.fresh heq
      have := hfull hempty
      omega
    · obtain ⟨hlt, hclear⟩ := h.before_next hspent hseq
      have hcovered : (w.page.upTo seq).coveredThroughSeq = seq - 1 := max_eq_right (Nat.le_sub_one_of_lt hlt)
      have hstart := h.start_le
      have hmem := (h.pending_head hitem).1
      have hshows := h.shows.skip hclear (Nat.le_sub_one_of_lt hlt)
      rw [← hcovered] at hshows
      exact {
        start_le := by
          show start ≤ (w.page.upTo seq).coveredThroughSeq
          omega
        le_issued := by
          show (w.page.upTo seq).coveredThroughSeq ≤ issued
          omega
        shows := { hshows with }
        progress := .inr (.inr ⟨seq, entry, hmem, hle, hlive, hlarge, rfl⟩) }
  | @lossFull seq toSeq reason hspent hseq hle hfind hpush =>
    apply h.stop_before hspent hseq hle
    intro heq
    obtain ⟨-, hempty, hsize, -⟩ := h.fresh heq
    have hsome := (w.page.upTo seq).pushLoss_isSome_of_empty seq toSeq reason hempty
      (hsize.trans_le hhdr)
    rw [hpush] at hsome
    cases hsome

end Covers

theorem Evidence.Lost.start_lt {seq : ℕ} {reason : PageReason} (h : ev.Lost deadlineOf now seq reason) :
    start < seq := by
  cases h with
  | expired hmem _ => exact ev.pending_after _ hmem
  | dead _ hmem _ => exact ev.dead_after _ hmem
  | aborted _ _ hstart _ => exact hstart

theorem remaining_eq_self {α : Type} {pos : α → ℕ} {all : List α} {c : ℕ} (h : ∀ a ∈ all, c < pos a) :
    remaining pos all c = all := by
  apply filter_eq_self.mpr
  intro a ha
  exact decide_eq_true (h a ha)

theorem Evidence.live_start : ev.live deadlineOf now start = [] := by
  have hnone : ev.pending.filter (·.1 ≤ start) = [] := by
    apply filter_eq_nil_iff.mpr
    intro row hrow
    have := ev.pending_after row hrow
    rw [decide_eq_true_eq]
    exact not_le.mpr this
  unfold live
  rw [hnone]
  rfl

/-- The walk begins with all the evidence, or with as much of its ranges as the visits allow. -/
theorem covers_startWalk {base : ResumePage} {given : List (ℕ × ℕ)}
    (hcovered : base.coveredThroughSeq = start)
    (hents : base.entries = []) (hlosses : base.knownLosses = []) (hle : start ≤ issued)
    (hissued : issued ≤ u64Max) (hgiven : given <+: ev.aborted)
    (hshort : given.length < ev.aborted.length → visitCap ≤ given.length) :
    Covers ev deadlineOf now header (startWalk base header ev.pending ev.dead given) := by
  have hserves₁ : (nextCounted ev.pending 0).1.Serves ev.pending (nextCounted ev.pending 0).2 :=
    serves_nextCounted prefix_rfl (fun h => absurd h (lt_irrefl _))
  have hserves₂ : (nextCounted ev.dead (nextCounted ev.pending 0).2).1.Serves ev.dead
      (nextCounted ev.dead (nextCounted ev.pending 0).2).2 :=
    serves_nextCounted prefix_rfl (fun h => absurd h (lt_irrefl _))
  have hle₁ := le_visits_nextCounted ev.dead (nextCounted ev.pending 0).2
  have hle₂ := le_visits_nextCounted given (nextCounted ev.dead (nextCounted ev.pending 0).2).2
  have hserves₃ : (nextCounted given (nextCounted ev.dead (nextCounted ev.pending 0).2).2).1.Serves
      ev.aborted (nextCounted given (nextCounted ev.dead (nextCounted ev.pending 0).2).2).2 :=
    serves_nextCounted hgiven (fun h => (hshort h).trans (Nat.le_add_left _ _))
  refine {
    pending := ?_
    dead := ?_
    aborted := ?_
    start_le := hcovered.ge
    le_issued := hcovered.trans_le hle
    whole := ?_
    shows := ?_
    fresh := fun _ => ⟨hents, hlosses, rfl, ?_⟩ }
  · unfold startWalk
    rw [hcovered, remaining_eq_self ev.pending_after]
    exact hserves₁.mono (hle₁.trans hle₂)
  · unfold startWalk
    rw [hcovered, remaining_eq_self ev.dead_after]
    exact hserves₂.mono hle₂
  · unfold startWalk
    rw [hcovered, remaining_eq_self ev.aborted_after]
    exact hserves₃
  · unfold startWalk
    dsimp only
    intro range hrange hlast
    rcases lt_or_ge start u64Max with hlt | hmax
    · have hnext := satAdd_one_of_lt hlt
      unfold Evidence.floor
      omega
    · -- The last sequence there can be is issued, and a range after it would be cut.
      have huncut := ev.uncut range hrange
      unfold Evidence.floor
      omega
  · show Exact ev deadlineOf now base base.coveredThroughSeq
    rw [hcovered]
    refine ⟨hents.trans Evidence.live_start.symm, ?_, ?_⟩
    · intro seq reason
      rw [hlosses]
      constructor
      · rintro ⟨loss, hloss, -⟩
        cases hloss
      · rintro ⟨hseq, hlost⟩
        exact absurd hlost.start_lt (not_lt.mpr hseq)
    · rw [hlosses]
      exact ⟨.nil, fun loss h => (not_mem_nil h).elim, fun loss h => (not_mem_nil h).elim⟩
  · have hcap : 3 ≤ visitCap := by decide
    have hvisits₁ := (visits_nextCounted ev.pending 0).1
    have hvisits₂ := (visits_nextCounted ev.dead (nextCounted ev.pending 0).2).1
    have hheld₁ := (nextCounted ev.pending 0).1.held_le_one
    have hheld₂ := (nextCounted ev.dead (nextCounted ev.pending 0).2).1.held_le_one
    unfold spent startWalk
    rw [isSpent_nextCounted (by omega), isSpent_nextCounted (by omega), isSpent_nextCounted (by omega)]
    rfl

theorem measure_startWalk_le (base : ResumePage) (size : ℕ) (pending : List (ℕ × InboxEntry))
    (dead : List (ℕ × DeadLetterRecord)) (given : List (ℕ × ℕ)) :
    (startWalk base size pending dead given).measure ≤ visitCap := by
  have hpending := visits_nextCounted pending 0
  have hdead := visits_nextCounted dead (nextCounted pending 0).2
  have hgiven := visits_nextCounted given (nextCounted dead (nextCounted pending 0).2).2
  unfold Walk.measure startWalk
  dsimp only
  omega

/-- The walk ends before its rounds are used up, on a page that covers what it passed. -/
theorem Covers.run (h : Covers ev deadlineOf request.now header w) (hmeasure : w.measure ≤ visitCap)
    (hhdr : header ≤ headerCap) (hlimit : 0 < request.limit) :
    Covered ev record deadlineOf request.now header
      (w.run record deadlineOf request issued start header roundCap) := by
  apply run_rule record deadlineOf request issued start header
    (P := fun rounds w => Covers ev deadlineOf request.now header w ∧ w.measure < rounds)
  · rintro w ⟨-, hlt⟩
    exact absurd hlt (Nat.not_lt_zero _)
  · rintro rounds w page ⟨hw, -⟩ hround
    exact hw.stop hhdr hlimit hround
  · rintro rounds w w' ⟨hw, hlt⟩ hround
    obtain ⟨hw', hless⟩ := hw.step hround
    exact ⟨hw', by omega⟩
  · have hcap : visitCap < roundCap := by decide
    exact ⟨h, hmeasure.trans_lt hcap⟩

end

end Ramflux.InboxPage
