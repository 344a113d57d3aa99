import Ramflux.Node.Publication

/-! Aborted ranges of an inbox. Recovered ranges may overlap; a sequence counts as aborted when the
lookup by predecessor finds it. -/
namespace Ramflux.Publication
open OrdMap List Std.ExtTreeMap Option

/-- The last range that starts at or before a sequence reaches it. -/
def Aborts (ranges : OrdMap ℕ ℕ) (seq : ℕ) : Prop :=
  (ranges.lastUpTo? seq).any fun row => seq ≤ row.2

instance (ranges : OrdMap ℕ ℕ) (seq : ℕ) : Decidable (Aborts ranges seq) :=
  inferInstanceAs (Decidable (_ = true))

theorem aborts_iff (ranges : OrdMap ℕ ℕ) (seq : ℕ) : Aborts ranges seq ↔ ∃ start last,
    ranges[start]? = some last ∧ start ≤ seq ∧ seq ≤ last ∧ ∀ a ∈ ranges, a ≤ seq → a ≤ start := by
  unfold Aborts
  rw [Option.any_eq_true]
  constructor
  · rintro ⟨⟨start, last⟩, hlast, hle⟩
    obtain ⟨hget, hstart, hmax⟩ := (lastUpTo?_eq_some_iff _ _ _ _).mp hlast
    simp only [Nat.isLE_compare] at hstart hmax
    exact ⟨start, last, hget, hstart, by simpa using hle, hmax⟩
  · rintro ⟨start, last, hget, hstart, hle, hmax⟩
    refine ⟨(start, last), ?_, by simpa using hle⟩
    rw [lastUpTo?_eq_some_iff]
    simp only [Nat.isLE_compare]
    exact ⟨hget, hstart, hmax⟩

theorem satAdd_mono {a b : ℕ} (h : a ≤ b) : satAdd a 1 ≤ satAdd b 1 := by
  unfold satAdd
  omega

/-- The absorbing loop: what is gone was swallowed by the grown range, what is left does not touch it. -/
structure Absorbed (start last : ℕ) (ranges ranges' : OrdMap ℕ ℕ) (last' : ℕ) : Prop where
  grows : last ≤ last'
  kept : ∀ a b : ℕ, ranges'[a]? = some b → ranges[a]? = some b
  gone : ∀ a b : ℕ, ranges[a]? = some b →
    ranges'[a]? = some b ∨ start ≤ a ∧ a ≤ satAdd last' 1 ∧ b ≤ last'
  apart : ∀ a ∈ ranges', start ≤ a → satAdd last' 1 < a
  size : ranges'.size ≤ ranges.size

theorem absorbRanges_spec (start rounds : ℕ) (ranges : OrdMap ℕ ℕ) (last : ℕ)
    (hrounds : ranges.size ≤ rounds) : Absorbed start last ranges
      (absorbRanges start rounds ranges last).1 (absorbRanges start rounds ranges last).2 := by
  have hstop : (∀ a ∈ ranges, start ≤ a → satAdd last 1 < a) →
      Absorbed start last ranges ranges last :=
    fun hapart => ⟨le_rfl, fun _ _ h => h, fun _ _ h => .inl h, hapart, le_rfl⟩
  induction rounds generalizing ranges last with
  | zero =>
    apply hstop
    intro a ha
    have hempty : ranges = ∅ := by
      rw [eq_empty_iff_size_eq_zero]
      omega
    simp [hempty] at ha
  | succ rounds ih =>
    unfold absorbRanges
    cases hfirst : ranges.firstFrom? start with
    | none =>
      apply hstop
      intro a ha hle
      exact absurd (Nat.isLE_compare.mpr hle) (firstFrom?_eq_none _ hfirst a ha)
    | some row =>
      obtain ⟨right, rightLast⟩ := row
      obtain ⟨hget, hle, hmin⟩ := firstFrom?_eq_some _ hfirst
      simp only [Nat.isLE_compare] at hle hmin
      dsimp only
      split_ifs with htouch
      · have hmem : right ∈ ranges := mem_of_eq_some hget
        have hsize := size_erase_lt ranges hmem
        obtain ⟨hgrows, hkept, hgone, hapart, hsize'⟩ :=
          ih (ranges.erase right) (max last rightLast) (by omega)
            fun hapart => ⟨le_rfl, fun _ _ h => h, fun _ _ h => .inl h, hapart, le_rfl⟩
        refine ⟨(le_max_left _ _).trans hgrows, ?_, ?_, hapart, by omega⟩
        · intro a b hab
          have h := hkept a b hab
          exact (eq_some_of_erase h).2
        · intro a b hab
          by_cases heq : right = a
          · subst heq
            cases hget.symm.trans hab
            exact .inr ⟨hle, htouch.trans (satAdd_mono ((le_max_left _ _).trans hgrows)),
              (le_max_right _ _).trans hgrows⟩
          · apply hgone
            rwa [getElem?_erase_of_ne _ heq]
      · apply hstop
        intro a ha hsa
        have := hmin a ha hsa
        omega

/-- Effect of `coalesce`: one range around the new one, and the ranges it did not swallow. -/
structure Coalesced (ranges : OrdMap ℕ ℕ) (start last : ℕ) (ranges' : OrdMap ℕ ℕ) (first end' : ℕ) :
    Prop where
  first_le : first ≤ start
  le_end : last ≤ end'
  merged : ranges'[first]? = some end'
  kept : ∀ a b : ℕ, a ≠ first → ranges'[a]? = some b → ranges[a]? = some b
  gone : ∀ a b : ℕ, ranges[a]? = some b →
    a ≠ first ∧ ranges'[a]? = some b ∨ first ≤ a ∧ a ≤ satAdd end' 1 ∧ b ≤ end'
  apart : ∀ a ∈ ranges', first < a → satAdd end' 1 < a
  left : first ∈ ranges ∨
    first = start ∧ ∀ a b, ranges.lastUpTo? start = some (a, b) → satAdd b 1 < start
  size : ranges'.size ≤ ranges.size + 1

variable {last start : ℕ}

theorem coalesce_spec (ranges : OrdMap ℕ ℕ) (hle : start ≤ last) (hmax : start ≤ u64Max) :
    ∃ first end', Coalesced ranges start last (coalesce ranges start last) first end' := by
  -- The part after the left neighbour was merged, for whatever range that left to insert.
  have hinsert : ∀ (rest : OrdMap ℕ ℕ) (first mid : ℕ), first ≤ start → last ≤ mid →
      (∀ a b : ℕ, rest[a]? = some b → ranges[a]? = some b) →
      (∀ a b : ℕ, ranges[a]? = some b → rest[a]? = some b ∨ a = first ∧ b ≤ mid) →
      (first ∈ ranges ∨
        first = start ∧ ∀ a b, ranges.lastUpTo? start = some (a, b) → satAdd b 1 < start) →
      rest.size ≤ ranges.size →
      ∃ end', Coalesced ranges start last
        ((absorbRanges first rest.size rest mid).1.insert first
          (absorbRanges first rest.size rest mid).2) first end' := by
    intro rest first mid hfirst hmid hkept hgone hleft hsize
    have habsorb := absorbRanges_spec first rest.size rest mid le_rfl
    generalize absorbRanges first rest.size rest mid = r at habsorb
    obtain ⟨ranges', end'⟩ := r
    obtain ⟨hgrows, hkept', hgone', hapart, hsize'⟩ := habsorb
    dsimp only at *
    have hreach : first ≤ satAdd end' 1 := by
      unfold satAdd
      omega
    refine ⟨end', hfirst, hmid.trans hgrows, by simp, ?_, ?_, ?_, hleft, ?_⟩
    · intro a b hne hab
      rw [getElem?_insert_of_ne _ _ (Ne.symm hne)] at hab
      exact hkept a b (hkept' a b hab)
    · intro a b hab
      rcases hgone a b hab with hrest | ⟨rfl, hb⟩
      · rcases hgone' a b hrest with hkeep | hswallowed
        · have hne : a ≠ first := by
            rintro rfl
            have hmem : a ∈ ranges' := mem_of_eq_some hkeep
            have hlt := hapart a hmem le_rfl
            omega
          left
          exact ⟨hne, by rwa [getElem?_insert_of_ne _ _ (Ne.symm hne)]⟩
        · exact .inr hswallowed
      · exact .inr ⟨le_rfl, hreach, hb.trans hgrows⟩
    · intro a ha hlt
      rw [mem_insert] at ha
      rcases ha with heq | hmem
      · have := Std.LawfulEqCmp.eq_of_compare heq
        omega
      · exact hapart a hmem hlt.le
    · have := size_insert_le (t := ranges') (k := first) (v := end')
      omega
  unfold coalesce
  cases hlast : ranges.lastUpTo? start with
  | none =>
    obtain ⟨end', h⟩ := hinsert ranges start last le_rfl le_rfl (fun _ _ h => h)
      (fun _ _ h => .inl h) (.inr ⟨rfl, fun a b hab => by simp [hlast] at hab⟩) le_rfl
    exact ⟨start, end', h⟩
  | some row =>
    obtain ⟨left, right⟩ := row
    obtain ⟨hget, hleft, -⟩ := (lastUpTo?_eq_some_iff _ _ _ _).mp hlast
    rw [Nat.isLE_compare] at hleft
    have hmem : left ∈ ranges := mem_of_eq_some hget
    dsimp only
    split_ifs with htouch
    · have hkept : ∀ a b : ℕ, (ranges.erase left)[a]? = some b → ranges[a]? = some b := by
        intro a b hab
        exact (eq_some_of_erase hab).2
      have hgone : ∀ a b : ℕ, ranges[a]? = some b →
          (ranges.erase left)[a]? = some b ∨ a = left ∧ b ≤ max last right := by
        intro a b hab
        by_cases heq : left = a
        · subst heq
          cases hget.symm.trans hab
          exact .inr ⟨rfl, le_max_right _ _⟩
        · left
          rwa [getElem?_erase_of_ne _ heq]
      obtain ⟨end', h⟩ := hinsert (ranges.erase left) left (max last right) hleft (le_max_left _ _)
        hkept hgone (.inl hmem) (size_erase_lt ranges hmem).le
      exact ⟨left, end', h⟩
    · have hapart : ∀ a b, ranges.lastUpTo? start = some (a, b) → satAdd b 1 < start := by
        intro a b hab
        cases hlast.symm.trans hab
        omega
      obtain ⟨end', h⟩ := hinsert ranges start last le_rfl le_rfl (fun _ _ h => h)
        (fun _ _ h => .inl h) (.inr ⟨rfl, hapart⟩) le_rfl
      exact ⟨start, end', h⟩

theorem Coalesced.aborts_merged {ranges ranges' : OrdMap ℕ ℕ} {first end' : ℕ}
    (h : Coalesced ranges start last ranges' first end') {seq : ℕ} (hfirst : first ≤ seq)
    (hend : seq ≤ end') (hmax : seq ≤ u64Max) : Aborts ranges' seq := by
  rw [aborts_iff]
  refine ⟨first, end', h.merged, hfirst, hend, ?_⟩
  intro a ha hle
  by_contra hlt
  have hapart := h.apart a ha (by omega)
  unfold satAdd at hapart
  omega

theorem Coalesced.aborts {ranges ranges' : OrdMap ℕ ℕ} {first end' : ℕ}
    (h : Coalesced ranges start last ranges' first end') (hmax : start ≤ u64Max) {seq : ℕ}
    (hseq : seq ≤ u64Max) (haborts : Aborts ranges seq) : Aborts ranges' seq := by
  obtain ⟨a, b, hget, ha, hb, hlast⟩ := (aborts_iff _ _).mp haborts
  rcases h.gone a b hget with ⟨hne, hkept⟩ | ⟨hfirst, -, hend⟩
  · -- The range found is still there. Only the merged range could have come between.
    rcases lt_or_ge seq first with hbelow | habove
    · rw [aborts_iff]
      refine ⟨a, b, hkept, ha, hb, ?_⟩
      intro a' ha' hle
      obtain ⟨b', hb'⟩ := mem_iff_exists.mp ha'
      have hold := h.kept a' b' (by omega) hb'
      exact hlast a' (mem_of_eq_some hold) hle
    · have habove' : first < a := by
        by_contra hle
        rcases h.left with hmem | ⟨rfl, hapart⟩
        · have := hlast first hmem habove
          omega
        · have hfound : ranges.lastUpTo? first = some (a, b) := by
            rw [lastUpTo?_eq_some_iff]
            simp only [Nat.isLE_compare]
            exact ⟨hget, by omega, fun a' ha' hle => hlast a' ha' (by omega)⟩
          have := hapart a b hfound
          unfold satAdd at this
          omega
      rw [aborts_iff]
      refine ⟨a, b, hkept, ha, hb, ?_⟩
      intro a' ha' hle
      by_cases heq : a' = first
      · omega
      · obtain ⟨b', hb'⟩ := mem_iff_exists.mp ha'
        have hold := h.kept a' b' heq hb'
        exact hlast a' (mem_of_eq_some hold) hle
  · exact h.aborts_merged (hfirst.trans ha) (hb.trans hend) hseq

def trimRanges (settled : ℕ) (ranges : OrdMap ℕ ℕ) : OrdMap ℕ ℕ :=
  ranges.toList.foldl (fun ranges row =>
    if settled < row.2 then ranges.insert (max row.1 (satAdd settled 1)) row.2 else ranges) ∅

section
variable (settled : ℕ)

/-- The last listed range that is moved to a key decides what is stored there. -/
theorem getElem?_foldl_trim (rows : List (ℕ × ℕ)) (k : ℕ) :
    (rows.foldl (fun (ranges : OrdMap ℕ ℕ) row => if settled < row.2 then
      ranges.insert (max row.1 (satAdd settled 1)) row.2 else ranges) ∅)[k]? =
      (rows.reverse.find? fun row => settled < row.2 ∧ max row.1 (satAdd settled 1) = k).map (·.2) := by
  induction rows using List.reverseRecOn with
  | nil => simp
  | append_singleton rows row ih =>
    rw [foldl_append, reverse_append]
    simp only [foldl_cons, foldl_nil, reverse_cons, reverse_nil, nil_append, cons_append, find?_cons]
    by_cases hlive : settled < row.2
    · rw [if_pos hlive, getElem?_insert_eq]
      by_cases hk : max row.1 (satAdd settled 1) = k
      · simp [hlive, hk]
      · simp [hlive, hk, ih]
    · simp [hlive, ih]

variable {ranges : OrdMap ℕ ℕ}

theorem getElem?_trimRanges_eq_some {k b : ℕ}
    (h : (trimRanges settled ranges)[k]? = some b) : ∃ a, ranges[a]? = some b ∧ settled < b ∧
      max a (satAdd settled 1) = k ∧
      ∀ a' b' : ℕ, ranges[a']? = some b' → settled < b' → max a' (satAdd settled 1) = k → a' ≤ a := by
  rw [trimRanges, getElem?_foldl_trim, map_eq_some_iff] at h
  obtain ⟨⟨a, b'⟩, hfind, rfl⟩ := h
  obtain ⟨hmem, hprop, hlast⟩ :=
    find?_of_pairwise (pairwise_reverse.mpr ranges.ordered_keys_toList) hfind
  have hrow : settled < b' ∧ max a (satAdd settled 1) = k := by simpa using hprop
  refine ⟨a, mem_toList_iff.mp (mem_reverse.mp hmem), hrow.1, hrow.2, ?_⟩
  intro a' b'' hget hlive hk
  have hmem' := mem_reverse.mpr (mem_toList_iff.mpr hget)
  rcases hlast (a', b'') hmem' (by simp [hlive, hk]) with heq | hlt
  · exact (Prod.mk.inj heq).1.le
  · exact (Nat.compare_eq_lt.mp hlt).le

theorem exists_getElem?_trimRanges {a b : ℕ} (hget : ranges[a]? = some b)
    (hlive : settled < b) : ∃ b', (trimRanges settled ranges)[max a (satAdd settled 1)]? = some b' := by
  rw [trimRanges, getElem?_foldl_trim]
  have hmem := mem_reverse.mpr (mem_toList_iff.mpr hget)
  have hsome : (ranges.toList.reverse.find? fun row =>
      settled < row.2 ∧ max row.1 (satAdd settled 1) = max a (satAdd settled 1)).isSome := by
    rw [find?_isSome]
    exact ⟨(a, b), hmem, by simp [hlive]⟩
  obtain ⟨row, hrow⟩ := isSome_iff_exists.mp hsome
  exact ⟨row.2, by rw [hrow]; rfl⟩

theorem Aborts.trimRanges {seq : ℕ} (h : Aborts ranges seq)
    (hlt : settled < seq) : Aborts (trimRanges settled ranges) seq := by
  obtain ⟨a, b, hget, ha, hb, hlast⟩ := (aborts_iff _ _).mp h
  have hfloor : satAdd settled 1 ≤ seq := by
    have := satAdd_le_add settled 1
    omega
  obtain ⟨b', hb'⟩ := exists_getElem?_trimRanges settled hget (hlt.trans_le hb)
  obtain ⟨a', hget', hlive, hk, hlast'⟩ := getElem?_trimRanges_eq_some settled hb'
  -- Nothing between the range found and the sequence, so it is the one that was moved last.
  have haa' : a ≤ a' := hlast' a b hget (hlt.trans_le hb) rfl
  have ha'a : a' ≤ a := by
    apply hlast a' (mem_of_eq_some hget')
    omega
  obtain rfl : a = a' := by omega
  cases hget.symm.trans hget'
  rw [aborts_iff]
  refine ⟨_, b, hb', by omega, hb, ?_⟩
  intro k hmem hle
  obtain ⟨c, hc⟩ := mem_iff_exists.mp hmem
  obtain ⟨d, hd, -, hdk, -⟩ := getElem?_trimRanges_eq_some settled hc
  have := hlast d (mem_of_eq_some hd) (by omega)
  omega

theorem size_trimRanges_le (ranges : OrdMap ℕ ℕ) : (trimRanges settled ranges).size ≤ ranges.size := by
  have hfold : ∀ (rows : List (ℕ × ℕ)) (m : OrdMap ℕ ℕ),
      (rows.foldl (fun (ranges : OrdMap ℕ ℕ) row => if settled < row.2 then
        ranges.insert (max row.1 (satAdd settled 1)) row.2 else ranges) m).size ≤ m.size + rows.length := by
    intro rows
    induction rows with
    | nil => intro m; simp
    | cons row rows ih =>
      intro m
      rw [foldl_cons, length_cons]
      split_ifs
      · have hrest := ih (m.insert (max row.1 (satAdd settled 1)) row.2)
        have hins := size_insert_le (t := m) (k := max row.1 (satAdd settled 1)) (v := row.2)
        omega
      · have hrest := ih m
        omega
  have h := hfold ranges.toList ∅
  simpa [trimRanges] using h

end

end Ramflux.Publication
