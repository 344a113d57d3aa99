import Mathlib.Algebra.Order.BigOperators.Group.List
import Ramflux.Node.InboxPage

/-! Bytes of a resume page: the running size of the walk bounds the page that is finally written. -/
namespace Ramflux.InboxPage
open List Except Json ResumePage

section
variable (record : PageEntryRecord → Bytes) (deadlineOf : InboxEntry → ℤ) (request : PageRequest)
  (issued start header : ℕ)

/-- The page covered up to right before `seq`. -/
def ResumePage.upTo (page : ResumePage) (seq : ℕ) : ResumePage :=
  { page with coveredThroughSeq := max page.coveredThroughSeq (seq - 1) }

def Walk.spent (w : Walk) : Bool :=
  w.pending.head.isSpent || w.dead.head.isSpent || w.aborted.head.isSpent

/-- Outcomes of one round. -/
inductive Round (w : Walk) : Except ResumePage Walk → Prop
  | spent : w.spent = true → Round w (.error w.page)
  | finished : w.spent = false → (w.nextSeq start).filter (· ≤ issued) = none →
      Round w (.error { w.page with coveredThroughSeq := issued })
  | full {seq : ℕ} {entry : InboxEntry} {deadline : ℤ} : w.spent = false → w.nextSeq start = some seq → seq ≤ issued →
      w.find deadlineOf request issued seq = .live entry deadline →
      w.page.entries.length = min request.limit entryCap → Round w (.error (w.page.upTo seq))
  | stopped {seq : ℕ} {entry : InboxEntry} {deadline : ℤ} {page : ResumePage} :
      w.spent = false → w.nextSeq start = some seq → seq ≤ issued →
      w.find deadlineOf request issued seq = .live entry deadline →
      (w.page.upTo seq).pushEntry record entry deadline header w.size = .error page →
      Round w (.error page)
  | taken {seq : ℕ} {entry : InboxEntry} {deadline : ℤ} {page : ResumePage} {size : ℕ} :
      w.spent = false → w.nextSeq start = some seq → seq ≤ issued →
      w.find deadlineOf request issued seq = .live entry deadline →
      (w.page.upTo seq).pushEntry record entry deadline header w.size = .ok (page, size) →
      Round w (.ok (w.cover page size seq))
  | lossFull {seq toSeq : ℕ} {reason : PageReason} : w.spent = false → w.nextSeq start = some seq → seq ≤ issued →
      w.find deadlineOf request issued seq = .loss toSeq reason →
      (w.page.upTo seq).pushLoss seq toSeq reason w.size = none → Round w (.error (w.page.upTo seq))
  | lost {seq toSeq : ℕ} {reason : PageReason} {page : ResumePage} {size : ℕ} :
      w.spent = false → w.nextSeq start = some seq → seq ≤ issued →
      w.find deadlineOf request issued seq = .loss toSeq reason →
      (w.page.upTo seq).pushLoss seq toSeq reason w.size = some (page, size) →
      Round w (.ok (w.cover page size toSeq))
  | passed {seq : ℕ} : w.spent = false → w.nextSeq start = some seq → seq ≤ issued →
      w.find deadlineOf request issued seq = .nothing →
      Round w (.ok (w.cover (w.page.upTo seq) w.size seq))

theorem Walk.round_spec (w : Walk) : Round record deadlineOf request issued start header w
    (w.round record deadlineOf request issued start header) := by
  unfold Walk.round
  split_ifs with hspent
  · exact .spent hspent
  · have hspent : w.spent = false := Bool.eq_false_iff.mpr hspent
    cases hnext : (w.nextSeq start).filter (· ≤ issued) with
    | none => exact .finished hspent hnext
    | some seq =>
      obtain ⟨hseq, hle⟩ := Option.filter_eq_some_iff.mp hnext
      have hle : seq ≤ issued := of_decide_eq_true hle
      dsimp only
      cases hfind : w.find deadlineOf request issued seq with
      | live entry deadline =>
        dsimp only
        split_ifs with hlimit
        · exact .full hspent hseq hle hfind hlimit
        · cases hpush : (w.page.upTo seq).pushEntry record entry deadline header w.size with
          | error page =>
            have heq := congrArg (Except.map fun pushed : ResumePage × ℕ =>
              w.cover pushed.1 pushed.2 seq) hpush
            exact heq ▸ .stopped hspent hseq hle hfind hpush
          | ok pushed =>
            have heq := congrArg (Except.map fun pushed : ResumePage × ℕ =>
              w.cover pushed.1 pushed.2 seq) hpush
            exact heq ▸ .taken hspent hseq hle hfind hpush
      | loss toSeq reason =>
        dsimp only
        split
        · rename_i hpush
          exact .lossFull hspent hseq hle hfind hpush
        · rename_i pushed hpush
          exact .lost hspent hseq hle hfind hpush
      | nothing => exact .passed hspent hseq hle hfind

/-- What every round keeps holds where the walk stops; `P` may count the rounds left. -/
theorem Walk.run_rule {P : ℕ → Walk → Prop} {Q : ResumePage → Prop} (hbudget : ∀ w, P 0 w → Q w.page)
    (hstop : ∀ n w page, P (n + 1) w →
      Round record deadlineOf request issued start header w (.error page) → Q page)
    (hstep : ∀ n w w', P (n + 1) w →
      Round record deadlineOf request issued start header w (.ok w') → P n w')
    (rounds : ℕ) {w : Walk} (hw : P rounds w) :
    Q (w.run record deadlineOf request issued start header rounds) := by
  induction rounds generalizing w with
  | zero => exact hbudget w hw
  | succ rounds ih =>
    have hround := w.round_spec record deadlineOf request issued start header
    unfold Walk.run
    cases hres : w.round record deadlineOf request issued start header with
    | error page =>
      rw [hres] at hround
      exact hstop rounds w page hw hround
    | ok w' =>
      rw [hres] at hround
      exact ih (hstep rounds w w' hw hround)

theorem Walk.run_of_round {w : Walk} {page : ResumePage} (rounds : ℕ)
    (h : w.round record deadlineOf request issued start header = .error page) (hpos : 0 < rounds) :
    w.run record deadlineOf request issued start header rounds = page := by
  cases rounds with
  | zero => exact absurd hpos (lt_irrefl 0)
  | succ rounds => rw [Walk.run, h]

end

/-- Bytes that the entries take besides the brackets of their array. -/
def entriesCost (record : PageEntryRecord → Bytes) (entries : List PageEntryRecord) : ℕ :=
  (entries.map fun entry => (record entry).length).sum + (entries.length - 1)

/-- Bytes set aside for the losses, with numbers at their greatest width. -/
def lossesCost (losses : List KnownLoss) : ℕ :=
  (losses.map fun loss => (KnownLoss.json ⟨u64Max, u64Max, loss.reason⟩).length).sum +
    (losses.length - 1)

variable {n : ℕ}

theorem lt_two_pow_of_le (h : n ≤ u64Max) : n < 2 ^ 64 := by
  unfold u64Max at h
  omega

theorem length_number_le_max (h : n ≤ u64Max) : (number n).length ≤ (number u64Max).length :=
  length_number_le (lt_two_pow_of_le h)

theorem length_json_loss_le {loss : KnownLoss} (hfrom : loss.fromSeq ≤ u64Max)
    (hto : loss.toSeq ≤ u64Max) :
    loss.json.length ≤ (KnownLoss.json ⟨u64Max, u64Max, loss.reason⟩).length := by
  have hfrom := length_number_le_max hfrom
  have hto := length_number_le_max hto
  unfold KnownLoss.json
  rw [length_object, length_object]
  simp only [map_cons, map_nil, sum_cons, sum_nil, length_cons, length_nil]
  omega

/-- A page that was grown from `base`, with numbers in range. -/
structure Grown (base page : ResumePage) : Prop where
  frameType : page.frameType = base.frameType
  target : page.target = base.target
  incarnation : page.incarnationId = base.incarnationId
  after : page.afterInboxSeq ≤ u64Max
  covered : page.coveredThroughSeq ≤ u64Max
  issued : page.issuedInboxSeq ≤ u64Max
  settled : page.settledThroughSeq ≤ u64Max
  oversize : ∀ seq, page.oversizeNext = some seq → seq ≤ u64Max
  losses : ∀ loss ∈ page.knownLosses, loss.fromSeq ≤ u64Max ∧ loss.toSeq ≤ u64Max

theorem length_option_number_le {seq? : Option ℕ} (h : ∀ seq, seq? = some seq → seq ≤ u64Max) :
    (option number seq?).length ≤ (number u64Max).length := by
  cases seq? with
  | none => decide
  | some seq => exact length_number_le_max (h seq rfl)

theorem sum_json_losses_le {losses : List KnownLoss}
    (h : ∀ loss ∈ losses, loss.fromSeq ≤ u64Max ∧ loss.toSeq ≤ u64Max) :
    ((losses.map KnownLoss.json).map List.length).sum ≤
      (losses.map fun loss => (KnownLoss.json ⟨u64Max, u64Max, loss.reason⟩).length).sum := by
  rw [map_map]
  apply sum_le_sum
  intro loss hloss
  exact length_json_loss_le (h loss hloss).1 (h loss hloss).2

theorem Grown.length_json_le {record : PageEntryRecord → Bytes} {base page : ResumePage}
    (h : Grown base page) (hents : base.entries = []) (hlosses : base.knownLosses = []) :
    (page.json record).length ≤
      base.worstHeaderSize record + entriesCost record page.entries + lossesCost page.knownLosses := by
  have hafter := length_number_le_max h.after
  have hcovered := length_number_le_max h.covered
  have hissued := length_number_le_max h.issued
  have hsett := length_number_le_max h.settled
  have hoversize := length_option_number_le h.oversize
  have hmore := length_bool_le page.more
  have hfalse : (bool false).length = 5 := rfl
  have hsome : option number (some u64Max) = number u64Max := rfl
  have hsum := sum_json_losses_le h.losses
  have hrecs : ((page.entries.map record).map List.length).sum =
      (page.entries.map fun entry => (record entry).length).sum := by
    rw [map_map]
    rfl
  unfold worstHeaderSize json entriesCost lossesCost
  rw [length_object, length_object]
  simp only [map_cons, map_nil, sum_cons, sum_nil, length_cons,
    length_nil, length_array, length_map, hents, hlosses, h.frameType, h.target,
    h.incarnation, hsome]
  omega

/-- Items of a source that are still to come, the one last taken first. -/
def Source.items {α : Type} (source : Source α) : List α := source.head.item?.toList ++ source.rest

variable {α : Type}

theorem items_nextCounted (rest : List α) (visits : ℕ) :
    (nextCounted rest visits).1.items = rest := by
  unfold nextCounted
  split_ifs
  · rfl
  · cases rest <;> rfl

theorem items_advance (source : Source α) (p : α → Bool) (visits : ℕ) :
    (source.advance p visits).1.items =
      if source.head.item?.any p then source.rest else source.items := by
  unfold Source.advance
  split_ifs
  · exact items_nextCounted _ _
  · rfl

theorem mem_items_of_advance {source : Source α} {p : α → Bool} {visits : ℕ} {a : α}
    (h : a ∈ (source.advance p visits).1.items) : a ∈ source.items := by
  rw [items_advance] at h
  split_ifs at h
  · exact mem_append_right _ h
  · exact h

section
variable {record : PageEntryRecord → Bytes} {deadlineOf : InboxEntry → ℤ} {request : PageRequest}
  {issued start header : ℕ}

/-- What the walk can find at `seq`, by the heads of its sources. -/
inductive Found (deadlineOf : InboxEntry → ℤ) (request : PageRequest) (issued : ℕ) (w : Walk) (seq : ℕ) :
    Find → Prop
  | live {entry : InboxEntry} : w.pending.head.item? = some (seq, entry) →
      request.now < deadlineOf entry → Found deadlineOf request issued w seq (.live entry (deadlineOf entry))
  | expired {entry : InboxEntry} : w.pending.head.item? = some (seq, entry) →
      deadlineOf entry ≤ request.now → Found deadlineOf request issued w seq (.loss seq .expired)
  | dead {row : DeadLetterRecord} : (∀ entry, w.pending.head.item? ≠ some (seq, entry)) →
      w.dead.head.item? = some (seq, row) → request.now < row.retainUntil →
      Found deadlineOf request issued w seq (.loss seq (lossOf row.reason))
  | forgotten {row : DeadLetterRecord} : (∀ entry, w.pending.head.item? ≠ some (seq, entry)) →
      w.dead.head.item? = some (seq, row) → row.retainUntil ≤ request.now →
      Found deadlineOf request issued w seq .nothing
  | aborted {first last : ℕ} : (∀ entry, w.pending.head.item? ≠ some (seq, entry)) →
      (∀ row, w.dead.head.item? ≠ some (seq, row)) → w.aborted.head.item? = some (first, last) →
      Found deadlineOf request issued w seq (.loss (min last issued) .aborted)
  | nothing : (∀ entry, w.pending.head.item? ≠ some (seq, entry)) →
      (∀ row, w.dead.head.item? ≠ some (seq, row)) → w.aborted.head.item? = none →
      Found deadlineOf request issued w seq .nothing

/-- The head of a source is at `seq`, or nothing at `seq` is its head. -/
theorem filter_head_cases {ν : Type} (head? : Option (ℕ × ν)) (seq : ℕ) :
    (∃ v, head? = some (seq, v) ∧ head?.filter (·.1 = seq) = some (seq, v)) ∨
      (∀ v, head? ≠ some (seq, v)) ∧ head?.filter (·.1 = seq) = none := by
  cases hfilter : head?.filter (·.1 = seq) with
  | some row =>
    obtain ⟨key, v⟩ := row
    obtain ⟨hitem, hkey⟩ := Option.filter_eq_some_iff.mp hfilter
    obtain rfl : key = seq := of_decide_eq_true hkey
    exact .inl ⟨v, hitem, rfl⟩
  | none =>
    refine .inr ⟨?_, rfl⟩
    rintro v rfl
    simp at hfilter

theorem Walk.find_spec (w : Walk) (seq : ℕ) :
    Found deadlineOf request issued w seq (w.find deadlineOf request issued seq) := by
  unfold Walk.find
  rcases filter_head_cases w.pending.head.item? seq with ⟨entry, hitem, hfilter⟩ | ⟨hpending, hfilter⟩
  · rw [hfilter]
    dsimp only
    split_ifs with hlive
    · exact .live hitem hlive
    · exact .expired hitem (not_lt.mp hlive)
  rw [hfilter]
  rcases filter_head_cases w.dead.head.item? seq with ⟨row, hitem, hfilter⟩ | ⟨hdead, hfilter⟩
  · rw [hfilter]
    dsimp only
    split_ifs with hkept
    · exact .dead hpending hitem hkept
    · exact .forgotten hpending hitem (not_lt.mp hkept)
  rw [hfilter]
  cases haborted : w.aborted.head.item? with
  | some range => exact .aborted hpending hdead haborted
  | none => exact .nothing hpending hdead haborted

variable {seq size toSeq : ℕ} {entry : InboxEntry} {deadline : ℤ} {reason : PageReason}
  {page page' : ResumePage}

variable {w : Walk}

theorem Walk.find_live (h : w.find deadlineOf request issued seq = .live entry deadline) :
    w.pending.head.item? = some (seq, entry) ∧ deadline = deadlineOf entry ∧
      request.now < deadline := by
  have hfound := @w.find_spec deadlineOf request issued seq
  rw [h] at hfound
  cases hfound with
  | live hitem hlive => exact ⟨hitem, rfl, hlive⟩

/-- A loss ends at its position or within an aborted range. -/
theorem Walk.find_loss_le (hseq : seq ≤ issued)
    (h : w.find deadlineOf request issued seq = .loss toSeq reason) : toSeq ≤ issued := by
  have hfound := @w.find_spec deadlineOf request issued seq
  rw [h] at hfound
  cases hfound with
  | expired | dead => exact hseq
  | aborted => exact min_le_right _ _

theorem sum_append_singleton (f : α → ℕ) (l : List α) (a : α) :
    ((l ++ [a]).map f).sum + ((l ++ [a]).length - 1) =
      (l.map f).sum + (l.length - 1) + (f a + if l.isEmpty then 0 else 1) := by
  rw [map_append, sum_append, map_singleton, sum_singleton, length_append, length_singleton]
  cases l with
  | nil => simp
  | cons first l =>
    simp only [length_cons, isEmpty_cons, Bool.false_eq_true, if_false]
    omega

theorem entriesCost_append (entries : List PageEntryRecord) (entry : PageEntryRecord) :
    entriesCost record (entries ++ [entry]) =
      entriesCost record entries + ((record entry).length + if entries.isEmpty then 0 else 1) :=
  sum_append_singleton _ _ _

theorem lossesCost_append (losses : List KnownLoss) (loss : KnownLoss) :
    lossesCost (losses ++ [loss]) = lossesCost losses +
      ((KnownLoss.json ⟨u64Max, u64Max, loss.reason⟩).length + if losses.isEmpty then 0 else 1) :=
  sum_append_singleton _ _ _

theorem addLoss_cases (losses : List KnownLoss) (fromSeq toSeq : ℕ) (reason : PageReason) :
    (∃ init last, losses = init ++ [last] ∧ last.mergesWith fromSeq reason ∧
      addLoss losses fromSeq toSeq reason = init ++ [{ last with toSeq }]) ∨
    losses.getLast?.any (·.mergesWith fromSeq reason) = false ∧
      addLoss losses fromSeq toSeq reason = losses ++ [⟨fromSeq, toSeq, reason⟩] := by
  rcases eq_nil_or_concat losses with rfl | ⟨init, last, rfl⟩
  · exact .inr ⟨rfl, rfl⟩
  · rw [concat_eq_append]
    unfold addLoss
    rw [getLast?_concat]
    dsimp only
    split_ifs with hmerges
    · exact .inl ⟨init, last, rfl, hmerges, by rw [dropLast_concat]⟩
    · exact .inr ⟨by simpa using hmerges, rfl⟩

variable {fromSeq size' : ℕ}

theorem ResumePage.pushLoss_some (h : page.pushLoss fromSeq toSeq reason size = some (page', size')) :
    page' = { page with knownLosses := addLoss page.knownLosses fromSeq toSeq reason } ∧
    size' + lossesCost page.knownLosses = size + lossesCost page'.knownLosses ∧
    (size ≤ pageByteCap → size' ≤ pageByteCap) := by
  unfold pushLoss at h
  dsimp only at h
  rcases addLoss_cases page.knownLosses fromSeq toSeq reason with
    ⟨init, last, hlosses, hmerges, hadd⟩ | ⟨hmerges, hadd⟩
  · have hlast : page.knownLosses.getLast?.any (·.mergesWith fromSeq reason) = true := by
      rw [hlosses, getLast?_concat]
      exact hmerges
    rw [if_pos hlast] at h
    cases h
    refine ⟨rfl, ?_, id⟩
    rw [hadd, hlosses, lossesCost_append, lossesCost_append]
  · rw [hmerges, if_neg Bool.false_ne_true] at h
    split_ifs at h with hcap hbytes
    all_goals
      cases h
      refine ⟨rfl, ?_, fun _ => not_lt.mp ‹_›⟩
      rw [hadd, lossesCost_append]
      simp only [*, if_true, if_false, Bool.false_eq_true]
      omega

theorem ResumePage.pushEntry_ok
    (h : page.pushEntry record entry deadline header size = .ok (page', size')) :
    page' = { page with entries := page.entries ++ [⟨entry, deadline⟩] } ∧
    size' + entriesCost record page.entries = size + entriesCost record page'.entries ∧
    size' ≤ pageByteCap := by
  unfold pushEntry at h
  dsimp only at h
  split_ifs at h
  all_goals
    cases h
    refine ⟨rfl, ?_, not_lt.mp ‹_›⟩
    rw [entriesCost_append]
    simp only [*, if_true, if_false, Bool.false_eq_true]
    omega

/-- A refused entry leaves the page as it is, or is too large for any page. -/
theorem ResumePage.pushEntry_error (h : page.pushEntry record entry deadline header size = .error page') :
    page' = page ∧ header + (record ⟨entry, deadline⟩).length ≤ pageByteCap ∧
      (page.entries = [] → pageByteCap < size + (record ⟨entry, deadline⟩).length) ∨
    page' = { page with oversizeNext := some entry.inboxSeq } ∧
      pageByteCap < header + (record ⟨entry, deadline⟩).length := by
  unfold pushEntry at h
  dsimp only at h
  split_ifs at h with hlarge hempty hfull hfull
  · exact .inr ⟨(error.inj h).symm, hlarge⟩
  · exact .inl ⟨(error.inj h).symm, not_lt.mp hlarge, fun _ => hfull⟩
  · exact .inl ⟨(error.inj h).symm, not_lt.mp hlarge, fun hnil => absurd (by rw [hnil]; rfl) hempty⟩

variable {base : ResumePage} {rows : List (ℕ × InboxEntry)}

/-- The running size covers everything added so far. -/
structure Fits (record : PageEntryRecord → Bytes) (base : ResumePage) (rows : List (ℕ × InboxEntry))
    (w : Walk) : Prop where
  grown : Grown base w.page
  cost : base.worstHeaderSize record + entriesCost record w.page.entries +
    lossesCost w.page.knownLosses ≤ w.size
  cap : w.size ≤ pageByteCap
  noOversize : w.page.oversizeNext = none
  rows : ∀ row ∈ w.pending.items, row ∈ rows

/-- A stopped page is within the cap, and a row it names as too large is too large by itself. -/
structure Stopped (record : PageEntryRecord → Bytes) (deadlineOf : InboxEntry → ℤ)
    (request : PageRequest) (base : ResumePage) (rows : List (ℕ × InboxEntry)) (page : ResumePage) :
    Prop where
  grown : Grown base page
  cost : base.worstHeaderSize record + entriesCost record page.entries +
    lossesCost page.knownLosses ≤ pageByteCap
  oversize : ∀ seq, page.oversizeNext = some seq → ∃ row ∈ rows, row.2.inboxSeq = seq ∧
    request.now < deadlineOf row.2 ∧
    pageByteCap < base.worstHeaderSize record + (record ⟨row.2, deadlineOf row.2⟩).length

theorem Grown.upTo (h : Grown base page) (hseq : seq ≤ u64Max) : Grown base (page.upTo seq) :=
  { h with covered := max_le h.covered ((Nat.sub_le _ _).trans hseq) }

theorem Grown.covered_eq (h : Grown base page) (hseq : seq ≤ u64Max) :
    Grown base { page with coveredThroughSeq := seq } :=
  { h with covered := hseq }

theorem Fits.stopped (h : Fits record base rows w) :
    Stopped record deadlineOf request base rows w.page where
  grown := h.grown
  cost := h.cost.trans h.cap
  oversize seq hseq := by
    rw [h.noOversize] at hseq
    cases hseq

theorem Fits.cover (h : Fits record base rows w) {last : ℕ}
    (hgrown : Grown base page) (hlast : last ≤ u64Max)
    (hcost : base.worstHeaderSize record + entriesCost record page.entries +
      lossesCost page.knownLosses ≤ size) (hcap : size ≤ pageByteCap)
    (hoversize : page.oversizeNext = none) : Fits record base rows (w.cover page size last) where
  grown := hgrown.covered_eq hlast
  cost := hcost
  cap := hcap
  noOversize := hoversize
  rows row hrow := h.rows row (mem_items_of_advance hrow)

theorem addLoss_in_range {losses : List KnownLoss}
    (h : ∀ loss ∈ losses, loss.fromSeq ≤ u64Max ∧ loss.toSeq ≤ u64Max) (hfrom : fromSeq ≤ u64Max)
    (hto : toSeq ≤ u64Max) : ∀ loss ∈ addLoss losses fromSeq toSeq reason,
      loss.fromSeq ≤ u64Max ∧ loss.toSeq ≤ u64Max := by
  intro loss hloss
  rcases addLoss_cases losses fromSeq toSeq reason with ⟨init, last, rfl, -, hadd⟩ | ⟨-, hadd⟩
  · rw [hadd] at hloss
    rcases mem_append.mp hloss with hinit | hlast
    · exact h loss (mem_append_left _ hinit)
    · obtain rfl := mem_singleton.mp hlast
      exact ⟨(h last (by simp)).1, hto⟩
  · rw [hadd] at hloss
    rcases mem_append.mp hloss with hold | hnew
    · exact h loss hold
    · obtain rfl := mem_singleton.mp hnew
      exact ⟨hfrom, hto⟩

theorem Fits.step {w' : Walk} (h : Fits record base rows w) (hissued : issued ≤ u64Max)
    (hround : Round record deadlineOf request issued start (base.worstHeaderSize record) w (.ok w')) :
    Fits record base rows w' := by
  cases hround with
  | @taken seq entry deadline page size hspent hseq hle hfind hpush =>
    obtain ⟨rfl, hsize, hcap⟩ := pushEntry_ok hpush
    have hgrown := h.grown.upTo (hle.trans hissued)
    have hcost := h.cost
    refine h.cover { hgrown with } (hle.trans hissued) ?_ hcap h.noOversize
    show base.worstHeaderSize record + entriesCost record (w.page.entries ++ [PageEntryRecord.mk entry deadline]) +
      lossesCost w.page.knownLosses ≤ size
    change size + entriesCost record w.page.entries =
      w.size + entriesCost record (w.page.entries ++ [⟨entry, deadline⟩]) at hsize
    omega
  | @lost seq toSeq reason page size hspent hseq hle hfind hpush =>
    obtain ⟨rfl, hsize, hcap⟩ := pushLoss_some hpush
    have hto := (Walk.find_loss_le hle hfind).trans hissued
    have hgrown := h.grown.upTo (hle.trans hissued)
    have hcost := h.cost
    refine h.cover { hgrown with losses := addLoss_in_range hgrown.losses (hle.trans hissued) hto } hto
      ?_ (hcap h.cap) h.noOversize
    show base.worstHeaderSize record + entriesCost record w.page.entries +
      lossesCost (addLoss w.page.knownLosses seq toSeq reason) ≤ size
    change size + lossesCost w.page.knownLosses =
      w.size + lossesCost (addLoss w.page.knownLosses seq toSeq reason) at hsize
    omega
  | @passed seq hspent hseq hle hfind =>
    exact h.cover (h.grown.upTo (hle.trans hissued)) (hle.trans hissued) h.cost h.cap h.noOversize

theorem Fits.stop (h : Fits record base rows w) (hissued : issued ≤ u64Max)
    (hrows : ∀ row ∈ rows, row.2.inboxSeq ≤ u64Max)
    (hround : Round record deadlineOf request issued start (base.worstHeaderSize record) w
      (.error page)) : Stopped record deadlineOf request base rows page := by
  have hcost := h.cost.trans h.cap
  have hoversize : ∀ seq, w.page.oversizeNext = some seq → ∃ row ∈ rows, row.2.inboxSeq = seq ∧
      request.now < deadlineOf row.2 ∧
      pageByteCap < base.worstHeaderSize record + (record ⟨row.2, deadlineOf row.2⟩).length :=
    h.stopped.oversize
  cases hround with
  | spent hspent => exact h.stopped
  | finished hspent hnext => exact ⟨h.grown.covered_eq hissued, hcost, hoversize⟩
  | @full seq entry deadline hspent hseq hle hfind hlimit
  | @lossFull seq toSeq reason hspent hseq hle hfind hpush =>
    exact ⟨h.grown.upTo (hle.trans hissued), hcost, hoversize⟩
  | @stopped seq entry deadline page hspent hseq hle hfind hpush =>
    have hgrown := h.grown.upTo (hle.trans hissued)
    rcases pushEntry_error hpush with ⟨rfl, -, -⟩ | ⟨rfl, hlarge⟩
    · exact ⟨hgrown, hcost, hoversize⟩
    · obtain ⟨hitem, rfl, hlive⟩ := Walk.find_live hfind
      have hmem : (seq, entry) ∈ rows := by
        apply h.rows
        unfold Source.items
        rw [hitem]
        exact mem_append_left _ (.head _)
      refine ⟨{ hgrown with oversize := ?_ }, hcost, ?_⟩
      · intro n hn
        rw [← Option.some.inj hn]
        exact hrows _ hmem
      · intro n hn
        exact ⟨(seq, entry), hmem, Option.some.inj hn, hlive, hlarge⟩

end

namespace PublishedInbox
variable (record : PageEntryRecord → Bytes) (clock : ℤ) (ib : PublishedInbox) (request : PageRequest)

structure InRange : Prop where
  issued : (ib.view request.target request.after).1 ≤ u64Max
  settled : (ib.view request.target request.after).2.1 ≤ u64Max
  rows : ∀ (seq : ℕ) (entry : InboxEntry), (ib.rows request.target)[seq]? = some entry →
    entry.inboxSeq ≤ u64Max

def walked (base : ResumePage) (issued : ℕ) (aborted : List (ℕ × ℕ)) : ResumePage :=
  (startWalk base (base.worstHeaderSize record)
    (seekRows (ib.rows request.target) base.coveredThroughSeq)
    (seekRows (ib.deadLetterIndex.submap request.target) base.coveredThroughSeq) aborted).run
    record (ib.retainUntilOf clock) request issued base.coveredThroughSeq
    (base.worstHeaderSize record) roundCap

variable {record clock ib request}

section
variable {issued settled : ℕ} (aborted : List (ℕ × ℕ)) (hissued : issued ≤ u64Max)
  (hsett : settled ≤ u64Max)
  (hrows : ∀ (seq : ℕ) (entry : InboxEntry), (ib.rows request.target)[seq]? = some entry →
    entry.inboxSeq ≤ u64Max)
include hissued hsett hrows

theorem stopped_walk (hafter : request.after ≤ issued) {base : ResumePage}
    (hbase : base = .empty request ib.incarnations[request.target]? issued settled)
    (hhdr : base.worstHeaderSize record ≤ headerCap) :
    Stopped record (ib.retainUntilOf clock) request base
      (seekRows (ib.rows request.target) base.coveredThroughSeq)
      (ib.walked record clock request base issued aborted) := by
  subst hbase
  have hgrown : Grown (.empty request ib.incarnations[request.target]? issued settled)
      (.empty request ib.incarnations[request.target]? issued settled) := {
    frameType := rfl
    target := rfl
    incarnation := rfl
    after := hafter.trans hissued
    covered := max_le (hafter.trans hissued) hsett
    issued := hissued
    settled := hsett
    oversize := fun seq h => by cases h
    losses := fun loss h => by cases h }
  have hrows' : ∀ row ∈ seekRows (ib.rows request.target) (max request.after settled),
      row.2.inboxSeq ≤ u64Max := by
    rintro ⟨seq, entry⟩ hrow
    exact hrows seq entry (OrdMap.mem_toList_iff.mp (mem_filter.mp hrow).1)
  refine Walk.run_rule record (ib.retainUntilOf clock) request issued _ _
    (P := fun _ => Fits record (.empty request ib.incarnations[request.target]? issued settled)
      (seekRows (ib.rows request.target) (max request.after settled)))
    (fun w hw => hw.stopped) (fun _ w page hw hround => hw.stop hissued hrows' hround)
    (fun _ w w' hw hround => hw.step hissued hround) roundCap ?_
  have hle : headerCap ≤ pageByteCap := by decide
  exact {
    grown := hgrown
    cost := le_rfl
    cap := hhdr.trans hle
    noOversize := rfl
    rows := fun row hrow => by
      change row ∈ (nextCounted _ 0).1.items at hrow
      rwa [items_nextCounted] at hrow }

/-- A request that is not refused ends with the page of its walk, within the cap. -/
theorem buildPage_ok (hafter : request.after ≤ issued) {base page : ResumePage}
    (hbase : base = .empty request ib.incarnations[request.target]? issued settled)
    (hhdr : base.worstHeaderSize record ≤ headerCap)
    (hpage : page = ib.walked record clock request base issued aborted) :
    ib.buildPage record clock request issued settled aborted =
      .ok { page with more := page.coveredThroughSeq < issued } ∧
    Stopped record (ib.retainUntilOf clock) request base
      (seekRows (ib.rows request.target) base.coveredThroughSeq) page ∧
    ({ page with more := page.coveredThroughSeq < issued : ResumePage }.json record).length ≤
      pageByteCap := by
  have hstopped := @stopped_walk record clock ib request issued settled aborted hissued hsett
    hrows hafter base hbase hhdr
  rw [← hpage] at hstopped
  have hgrown : Grown base { page with more := page.coveredThroughSeq < issued } :=
    { hstopped.grown with }
  have hjson : ({ page with more := page.coveredThroughSeq < issued : ResumePage }.json record).length ≤
      pageByteCap :=
    (hgrown.length_json_le (by rw [hbase]; rfl) (by rw [hbase]; rfl)).trans hstopped.cost
  refine ⟨?_, hstopped, hjson⟩
  unfold buildPage
  rw [if_neg (not_lt.mpr hafter), ← hbase]
  dsimp only
  rw [if_neg (not_lt.mpr hhdr)]
  unfold walked at hpage
  rw [← hpage, if_neg (not_lt.mpr hjson)]

theorem buildPage_cases :
    (∃ error, ib.buildPage record clock request issued settled aborted = .error error ∧
      error ≠ .serialization) ∨
    ∃ base page, base = empty request ib.incarnations[request.target]? issued settled ∧
      ib.buildPage record clock request issued settled aborted =
        .ok { page with more := page.coveredThroughSeq < issued } ∧
      Stopped record (ib.retainUntilOf clock) request base
        (seekRows (ib.rows request.target) base.coveredThroughSeq) page ∧
      ({ page with more := page.coveredThroughSeq < issued : ResumePage }.json record).length ≤
        pageByteCap := by
  by_cases hahead : issued < request.after
  · exact .inl ⟨.cursorAhead, if_pos hahead, by decide⟩
  generalize hbase : empty request ib.incarnations[request.target]? issued settled = base
  by_cases hhdr : headerCap < base.worstHeaderSize record
  · refine .inl ⟨.headerTooLarge, ?_, by decide⟩
    unfold buildPage
    rw [if_neg hahead, hbase]
    exact if_pos hhdr
  · exact .inr ⟨base, _, rfl, buildPage_ok aborted hissued hsett hrows (not_lt.mp hahead) hbase.symm
      (not_lt.mp hhdr) rfl⟩

end
end PublishedInbox

def ResumePage.widest (page : ResumePage) : ResumePage :=
  { page with
    afterInboxSeq := u64Max
    coveredThroughSeq := u64Max
    issuedInboxSeq := u64Max
    settledThroughSeq := u64Max
    oversizeNext := some u64Max
    more := false }

theorem length_json_alone (record : PageEntryRecord → Bytes) {page : ResumePage}
    (h : page.entries = []) (entry : PageEntryRecord) :
    ({ page with entries := [entry] }.json record).length =
      (page.json record).length + (record entry).length := by
  unfold json
  rw [length_object, length_object]
  simp only [map_cons, map_nil, sum_cons, sum_nil, length_cons, length_nil, length_array, h]
  omega

/-- No request ends in the serialization refusal, every page is within the cap, and a row named as too
large does not fit into a page of its own at the greatest widths. -/
theorem resumePage_within_cap (record : PageEntryRecord → Bytes) (clock : ℤ) (ib : PublishedInbox)
    (request : PageRequest) (h : ib.InRange request) :
    ib.resumePage record clock request ≠ .error .serialization ∧
    ∀ page, ib.resumePage record clock request = .ok page →
      (page.json record).length ≤ pageByteCap ∧
      ∀ seq, page.oversizeNext = some seq → ∃ (key : ℕ) (entry : InboxEntry),
        (ib.rows request.target)[key]? = some entry ∧
        entry.inboxSeq = seq ∧ request.now < ib.retainUntilOf clock entry ∧
        pageByteCap < ({ (empty request ib.incarnations[request.target]?
            (ib.view request.target request.after).1 (ib.view request.target request.after).2.1).widest
          with entries := [⟨entry, ib.retainUntilOf clock entry⟩] }.json record).length := by
  by_cases hlimit : request.limit = 0
  · have herror : ib.resumePage record clock request = .error .invalidLimit := if_pos hlimit
    rw [herror]
    exact ⟨by decide, fun page hpage => by cases hpage⟩
  have hbuild : ib.resumePage record clock request = ib.buildPage record clock request
      (ib.view request.target request.after).1 (ib.view request.target request.after).2.1
      (ib.view request.target request.after).2.2 := if_neg hlimit
  rw [hbuild]
  rcases PublishedInbox.buildPage_cases (ib.view request.target request.after).2.2 h.issued h.settled
    h.rows with ⟨error, herror, hne⟩ | ⟨base, page, rfl, hok, hstopped, hjson⟩
  · rw [herror]
    refine ⟨?_, fun page hpage => by cases hpage⟩
    intro heq
    exact hne (Except.error.inj heq)
  · rw [hok]
    refine ⟨by simp, ?_⟩
    intro page' hpage'
    cases hpage'
    refine ⟨hjson, ?_⟩
    intro seq hseq
    obtain ⟨⟨key, entry⟩, hrow, hentry, hlive, hlarge⟩ := hstopped.oversize seq hseq
    have hget := OrdMap.mem_toList_iff.mp (mem_filter.mp hrow).1
    refine ⟨key, entry, hget, hentry, hlive, ?_⟩
    rw [length_json_alone record rfl]
    exact hlarge

section

/-- JSON text of a row whose envelope has empty fields around `payload`. -/
def plainRecord (payload : String) (row : PageEntryRecord) : Bytes :=
  object [
    ("entry", object [
      ("inbox_seq", number row.entry.inboxSeq),
      ("target_delivery_id", text row.entry.target),
      ("envelope", object [
        ("schema", text ""), ("version", number 1), ("domain", text ""),
        ("signing_key_id", text ""), ("signature_alg", text "ed25519"),
        ("signature", text ""), ("envelope_id", text row.entry.envelope.envelopeId),
        ("source_principal_id", text ""),
        ("source_device_id", text row.entry.envelope.sourceDeviceId),
        ("target_delivery_id", text row.entry.envelope.target),
        ("delivery_class", text "opaque_event"), ("priority", text "normal"),
        ("ttl", number row.entry.envelope.ttl.toNat),
        ("created_at", number row.entry.envelope.createdAt.toNat),
        ("encrypted_payload", text payload), ("payload_hash", text "")])]),
    ("retain_until", number row.retainUntil.toNat)]

theorem length_plainRecord (payload : String) (row : PageEntryRecord) :
    (plainRecord payload row).length + 2 = (plainRecord "" row).length + (text payload).length := by
  have hempty : (text "").length = 2 := by decide
  unfold plainRecord
  simp only [map_cons, map_nil, sum_cons, sum_nil, length_cons, length_nil, length_object, hempty]
  omega

theorem length_text_replicate (n : ℕ) :
    (text (String.ofList (List.replicate n 'a'))).length = n + 2 := by
  have hdata : (String.ofList (List.replicate n 'a')).toUTF8.data.toList =
      (List.replicate n 'a').flatMap String.utf8EncodeChar := by
    simp [String.toByteArray_ofList, List.utf8Encode]
  have hbytes : ((List.replicate n 'a').flatMap String.utf8EncodeChar).flatMap escapeByte =
      List.replicate n 97 := by
    clear hdata
    induction n with
    | zero => rfl
    | succ n ih =>
      rw [replicate_succ, flatMap_cons, flatMap_append, ih]
      rfl
  unfold text
  rw [hdata, hbytes]
  simp

def edgeRow : InboxEntry := ⟨1, "d", ⟨∅, "e", "s", "d", 5, 0⟩⟩

def oneRow : PublishedInbox where
  nextSeq := (∅ : OrdMap String ℕ).insert "d" 2
  pending := (∅ : OrdMap String (OrdMap ℕ InboxEntry)).insert "d" ((∅ : OrdMap ℕ InboxEntry).insert 1 edgeRow)
  cursors := ∅
  deadLetterIndex := ∅
  retainUntil := (∅ : OrdMap String (OrdMap ℕ ℤ)).insert "d" ((∅ : OrdMap ℕ ℤ).insert 1 5)
  expiry := ⟨false, ∅⟩
  checkpointDue := ∅
  publication := none
  incarnations := ∅
  abortedRanges := ∅

def edgeRequest : PageRequest := ⟨"d", 0, 1, 0⟩

def edgePage : ResumePage := .empty edgeRequest none 1 0

variable (record : PageEntryRecord → Bytes)

theorem worstHeaderSize_edgePage : edgePage.worstHeaderSize record = 321 := by
  show edgePage.worstHeaderSize (fun _ => []) = 321
  decide +kernel

theorem length_plainRecord_edgeRow (n : ℕ) :
    (plainRecord (String.ofList (List.replicate n 'a')) ⟨edgeRow, 5⟩).length = 384 + n := by
  have hsum := length_plainRecord (String.ofList (List.replicate n 'a')) ⟨edgeRow, 5⟩
  have hempty : (plainRecord "" ⟨edgeRow, 5⟩).length = 384 := by decide +kernel
  rw [length_text_replicate, hempty] at hsum
  omega

/-- The only row is too large: the page stops before it. -/
theorem resumePage_oneRow (h : pageByteCap < 321 + (record ⟨edgeRow, 5⟩).length) :
    oneRow.resumePage record 0 edgeRequest = .ok
    { edgePage with oversizeNext := some 1, more := true } := by
  have hround : (startWalk edgePage 321 (seekRows (oneRow.rows edgeRequest.target) 0)
      (seekRows (oneRow.deadLetterIndex.submap edgeRequest.target) 0) []).round record (oneRow.retainUntilOf 0)
      edgeRequest 1 0 321 = .error { edgePage with oversizeNext := some 1 } := by
    generalize hwalk : startWalk edgePage 321 (seekRows (oneRow.rows edgeRequest.target) 0)
      (seekRows (oneRow.deadLetterIndex.submap edgeRequest.target) 0) [] = w
    have hspent : (w.pending.head.isSpent || w.dead.head.isSpent || w.aborted.head.isSpent) = false := by
      rw [← hwalk]
      decide +kernel
    have hnext : (w.nextSeq 0).filter (· ≤ 1) = some 1 := by
      rw [← hwalk]
      decide +kernel
    have hfind : w.find (oneRow.retainUntilOf 0) edgeRequest 1 1 = .live edgeRow 5 := by
      rw [← hwalk]
      decide +kernel
    have hpage : w.page = edgePage := by
      rw [← hwalk]
      rfl
    unfold Walk.round
    rw [hspent, hnext]
    simp only [Bool.false_eq_true, if_false, hfind, hpage]
    unfold pushEntry
    rw [if_pos h]
    rfl
  have hhdr := worstHeaderSize_edgePage record
  have hfinal : ({ edgePage with oversizeNext := some 1, more := true }.json record).length ≤
      pageByteCap := by
    show ({ edgePage with oversizeNext := some 1, more := true }.json (fun _ => [])).length ≤ pageByteCap
    decide +kernel
  have hbase : empty edgeRequest oneRow.incarnations[edgeRequest.target]? 1 0 = edgePage := by
    decide +kernel
  have hview : oneRow.view edgeRequest.target edgeRequest.after = (1, 0, []) := by decide +kernel
  have hstart : edgePage.coveredThroughSeq = 0 := rfl
  have hrun := Walk.run_of_round record (oneRow.retainUntilOf 0) edgeRequest 1 0 321 roundCap hround
  unfold PublishedInbox.resumePage
  rw [if_neg (by decide), hview]
  dsimp only
  unfold PublishedInbox.buildPage
  rw [if_neg (by decide), hbase]
  dsimp only
  rw [hhdr, if_neg (by decide), hstart, hrun (by decide)]
  exact if_neg (not_lt.mpr hfinal)

theorem PublishedInbox.inRange_of_rows {ib : PublishedInbox} {request : PageRequest}
    (hissued : (ib.view request.target request.after).1 ≤ u64Max)
    (hsett : (ib.view request.target request.after).2.1 ≤ u64Max)
    (hrows : ∀ row ∈ (ib.rows request.target).toList, row.2.inboxSeq ≤ u64Max) : ib.InRange request :=
  ⟨hissued, hsett, fun _ _ hget => hrows _ (OrdMap.mem_toList_iff.mpr hget)⟩

theorem oneRow_inRange : oneRow.InRange edgeRequest :=
  PublishedInbox.inRange_of_rows (by decide +kernel) (by decide +kernel) (by decide +kernel)

theorem resumePage_within_cap_oneRow :
    oneRow.resumePage (plainRecord "") 0 edgeRequest ≠ .error .serialization ∧
    oneRow.resumePage (plainRecord "") 0 edgeRequest =
      .ok { edgePage with coveredThroughSeq := 1, entries := [⟨edgeRow, 5⟩] } ∧
    ({ edgePage with coveredThroughSeq := 1, entries := [⟨edgeRow, 5⟩] }.json (plainRecord "")).length ≤
      pageByteCap := by
  obtain ⟨hne, hpage⟩ := resumePage_within_cap (plainRecord "") 0 oneRow edgeRequest oneRow_inRange
  have hok : oneRow.resumePage (plainRecord "") 0 edgeRequest =
      .ok { edgePage with coveredThroughSeq := 1, entries := [⟨edgeRow, 5⟩] } := by decide +kernel
  exact ⟨hne, hok, (hpage _ hok).1⟩

/-- A payload that passes the worst header, but not the header of its own page. -/
def edgePayload : String := String.ofList (List.replicate 982336 'a')

/-- The row is named as too large although a page with it alone is within the cap. -/
theorem oversize_fits_alone : ¬∀ (record : PageEntryRecord → Bytes) (clock : ℤ) (ib : PublishedInbox)
    (request : PageRequest) (page : ResumePage) (seq : ℕ) (entry : InboxEntry),
    ib.resumePage record clock request = .ok page → page.oversizeNext = some seq →
    (ib.rows request.target)[seq]? = some entry →
    pageByteCap < ({ page with
      coveredThroughSeq := seq
      entries := [⟨entry, ib.retainUntilOf clock entry⟩]
      knownLosses := []
      oversizeNext := none
      more := false }.json record).length := by
  intro h
  have hlen : (plainRecord edgePayload ⟨edgeRow, 5⟩).length = 982720 :=
    length_plainRecord_edgeRow 982336
  have hpage := resumePage_oneRow (plainRecord edgePayload) (by
    rw [hlen]
    decide)
  have hlarge := h (plainRecord edgePayload) 0 oneRow edgeRequest _ 1 edgeRow hpage rfl
    (by decide +kernel)
  have hhdr : ({ edgePage with coveredThroughSeq := 1 }.json (plainRecord edgePayload)).length = 229 := by
    decide +kernel
  have halone : ({ edgePage with coveredThroughSeq := 1, entries := [⟨edgeRow, 5⟩] }.json
      (plainRecord edgePayload)).length = 229 + 982720 := by
    rw [← hhdr, ← hlen]
    exact @length_json_alone (plainRecord edgePayload) { edgePage with coveredThroughSeq := 1 } rfl _
  change pageByteCap < ({ edgePage with coveredThroughSeq := 1, entries := [⟨edgeRow, 5⟩] }.json
      (plainRecord edgePayload)).length at hlarge
  rw [halone] at hlarge
  exact absurd hlarge (by decide)

end

end Ramflux.InboxPage
