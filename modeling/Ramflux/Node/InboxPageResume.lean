import Ramflux.Node.InboxPageCoverage

/-! Resume pages of an inbox: every page is exact, and going on page by page shows every live row. -/
namespace Ramflux.InboxPage
open OrdMap List Publication

namespace PublishedInbox
variable (record : PageEntryRecord → Bytes) (clock : ℤ) (ib : PublishedInbox) (target : String)
  (request : PageRequest)

def issued : ℕ := (ib.view target 0).1
def settled : ℕ := (ib.view target 0).2.1

def start : ℕ := max request.after (ib.settled request.target)

def ranges : List (ℕ × ℕ) :=
  match ib.publication, ib.incarnations[target]? with
  | some core, some id =>
    (core.registry.inboxes[(⟨target, id⟩ : Key)]?.map (·.aborted.toList)).getD []
  | _, _ => ib.abortedRanges[target]?.getD []

/-- Aborted ranges are in order, apart from each other and the rows, and not cut at the last issued. -/
structure Apart : Prop where
  ordered : (ib.ranges target).Pairwise (·.2 < ·.1)
  proper : ∀ range ∈ ib.ranges target, range.1 ≤ range.2
  uncut : ∀ range ∈ ib.ranges target, range.1 ≤ ib.issued target → range.2 ≤ ib.issued target
  rows : ∀ range ∈ ib.ranges target, ∀ seq, range.1 ≤ seq → seq ≤ range.2 →
    seq ∉ ib.rows target ∧ seq ∉ ib.deadLetterIndex.submap target

/-- Live rows after `first` up to `last`, with their deadlines. -/
def liveRows (now : ℤ) (first last : ℕ) : List PageEntryRecord :=
  (((seekRows (ib.rows target) first).filter (·.1 ≤ last)).filter (now < ib.retainUntilOf clock ·.2)).map
    fun row => ⟨row.2, ib.retainUntilOf clock row.2⟩

/-- A sequence with recorded evidence that it is lost. -/
inductive Lost (now : ℤ) (seq : ℕ) : PageReason → Prop
  | expired {entry : InboxEntry} : (ib.rows target)[seq]? = some entry →
      ib.retainUntilOf clock entry ≤ now → Lost now seq .expired
  | dead {row : DeadLetterRecord} : (ib.rows target)[seq]? = none →
      (ib.deadLetterIndex.submap target)[seq]? = some row → now < row.retainUntil →
      Lost now seq (lossOf row.reason)
  | aborted {range : ℕ × ℕ} : range ∈ ib.ranges target → range.1 ≤ seq → seq ≤ range.2 →
      Lost now seq .aborted

/-- The pages from a cursor on, each request going on where the last page ended. -/
def resumeAll : ℕ → PageRequest → Option (List ResumePage)
  | 0, _ => none
  | requests + 1, request =>
    match ib.resumePage record clock request with
    | .error _ => none
    | .ok page =>
      if page.more then
        (resumeAll requests { request with after := page.coveredThroughSeq }).map (page :: ·)
      else some [page]

/-- The page has the live rows and known losses it covers, and goes on unless a row is too large. -/
structure ExactPage (page : ResumePage) : Prop where
  start_le : ib.start request ≤ page.coveredThroughSeq
  le_issued : page.coveredThroughSeq ≤ ib.issued request.target
  entries : page.entries =
    ib.liveRows clock request.target request.now (ib.start request) page.coveredThroughSeq
  losses : ∀ seq reason, Shown page.knownLosses seq reason ↔
    ib.start request < seq ∧ seq ≤ page.coveredThroughSeq ∧
      ib.Lost clock request.target request.now seq reason
  ordered : page.knownLosses.Pairwise (·.toSeq < ·.fromSeq)
  proper : ∀ loss ∈ page.knownLosses, loss.fromSeq ≤ loss.toSeq
  progress : ib.start request < page.coveredThroughSeq ∨
    page.coveredThroughSeq = ib.issued request.target ∨ page.oversizeNext.isSome

variable {record clock ib target request}

theorem view_eq (after : ℕ) : (ib.view target after).1 = ib.issued target ∧
    (ib.view target after).2.1 = ib.settled target := by
  unfold issued settled view
  split
  · unfold Shared.pageView
    split <;> exact ⟨rfl, rfl⟩
  · exact ⟨rfl, rfl⟩

theorem settled_le_issued : ib.settled target ≤ ib.issued target := by
  unfold issued settled view
  split
  · unfold Shared.pageView
    split
    · exact le_rfl
    · exact min_le_right _ _
  · cases ib.cursors[target]? with
    | none => exact Nat.zero_le _
    | some cursor => exact min_le_right _ _

variable {now : ℤ} {ν : Type} (h : ib.Apart target)

theorem toList_sorted (rows : OrdMap ℕ ν) : rows.toList.Pairwise (·.1 < ·.1) := by
  have := rows.ordered_keys_toList
  simpa only [Nat.compare_eq_lt] using this

/-- What the mailbox holds after `start`. -/
def evidence (h : ib.Apart target) (start : ℕ) : Evidence start (ib.issued target) where
  pending := seekRows (ib.rows target) start
  dead := seekRows (ib.deadLetterIndex.submap target) start
  aborted := (ib.ranges target).filter (start < ·.2)
  pending_sorted := (toList_sorted _).filter _
  dead_sorted := (toList_sorted _).filter _
  aborted_sorted := h.ordered.filter _
  pending_after row hrow := of_decide_eq_true (mem_filter.mp hrow).2
  dead_after row hrow := of_decide_eq_true (mem_filter.mp hrow).2
  aborted_after range hrange := of_decide_eq_true (mem_filter.mp hrange).2
  proper range hrange := h.proper range (mem_filter.mp hrange).1
  uncut range hrange := h.uncut range (mem_filter.mp hrange).1
  pending_apart := by
    rintro range hrange ⟨seq, entry⟩ hrow
    have hget := mem_toList_iff.mp (mem_filter.mp hrow).1
    by_contra hin
    have hnot := (h.rows range (mem_filter.mp hrange).1 seq (by omega) (by omega)).1
    exact hnot (mem_of_eq_some hget)
  dead_apart := by
    rintro range hrange ⟨seq, row⟩ hrow
    have hget := mem_toList_iff.mp (mem_filter.mp hrow).1
    by_contra hin
    have hnot := (h.rows range (mem_filter.mp hrange).1 seq (by omega) (by omega)).2
    exact hnot (mem_of_eq_some hget)

theorem mem_seekRows {rows : OrdMap ℕ ν} {start seq : ℕ} {v : ν} :
    (seq, v) ∈ seekRows rows start ↔ rows[seq]? = some v ∧ start < seq := by
  unfold seekRows
  rw [mem_filter, mem_toList_iff, decide_eq_true_eq]

theorem lost_evidence_iff {start seq : ℕ} {reason : PageReason} :
    (ib.evidence h start).Lost (ib.retainUntilOf clock) now seq reason ↔
      start < seq ∧ ib.Lost clock target now seq reason := by
  constructor
  · intro hlost
    refine ⟨hlost.start_lt, ?_⟩
    cases hlost with
    | expired hmem hdue => exact .expired (mem_seekRows.mp hmem).1 hdue
    | dead hnone hmem hkept =>
      obtain ⟨hget, hstart⟩ := mem_seekRows.mp hmem
      refine .dead ?_ hget hkept
      apply Option.eq_none_iff_forall_ne_some.mpr
      intro entry hentry
      exact hnone entry (mem_seekRows.mpr ⟨hentry, hstart⟩)
    | aborted hmem hfirst _ hlast => exact .aborted (mem_filter.mp hmem).1 hfirst hlast
  · rintro ⟨hstart, hlost⟩
    cases hlost with
    | expired hget hdue => exact .expired (mem_seekRows.mpr ⟨hget, hstart⟩) hdue
    | dead hnone hget hkept =>
      refine .dead ?_ (mem_seekRows.mpr ⟨hget, hstart⟩) hkept
      intro entry hmem
      rw [(mem_seekRows.mp hmem).1] at hnone
      cases hnone
    | aborted hmem hfirst hlast =>
      refine .aborted (mem_filter.mpr ⟨hmem, ?_⟩) hfirst hstart hlast
      exact decide_eq_true (hstart.trans_le hlast)

/-- The ranges from the one that reaches over `start` on are those that end after it. -/
theorem filter_lower {aborted : OrdMap ℕ ℕ} (hordered : aborted.toList.Pairwise (·.2 < ·.1))
    (hproper : ∀ range ∈ aborted.toList, range.1 ≤ range.2) (start : ℕ) :
    (aborted.toList.filter fun row =>
      match (aborted.lastUpTo? start).filter fun row => start < row.2 with
      | some range => range.1 ≤ row.1
      | none => start < row.1) = aborted.toList.filter (start < ·.2) := by
  apply filter_congr
  rintro ⟨first, last⟩ hrow
  have hle := hproper _ hrow
  have hget := mem_toList_iff.mp hrow
  have hmem : first ∈ aborted := mem_of_eq_some hget
  cases hlast : aborted.lastUpTo? start with
  | none =>
    have hnone := (lastUpTo?_eq_none_iff _ _).mp hlast first hmem
    simp only [Nat.isLE_compare] at hnone
    dsimp only [Option.filter_none]
    rw [decide_eq_decide]
    omega
  | some lower =>
    obtain ⟨lo, hi⟩ := lower
    obtain ⟨hlower, hlo, hgreatest⟩ := (lastUpTo?_eq_some_iff _ _ _ _).mp hlast
    simp only [Nat.isLE_compare] at hlo hgreatest
    have hcases : (first, last) = (lo, hi) ∨ last < lo ∨ hi < first :=
      Sorted.pairwise_cases hordered hrow (mem_toList_iff.mpr hlower)
    have hle' := hproper _ (mem_toList_iff.mpr hlower)
    have hgreatest := hgreatest first hmem
    rw [Prod.mk.injEq] at hcases
    by_cases hover : start < hi
    · have hfilter : (some (lo, hi)).filter (fun row : ℕ × ℕ => start < row.2) = some (lo, hi) := by
        simp [hover]
      rw [hfilter]
      rw [decide_eq_decide]
      omega
    · have hfilter : (some (lo, hi)).filter (fun row : ℕ × ℕ => start < row.2) = none := by
        simp [not_lt.mp hover]
      rw [hfilter]
      rw [decide_eq_decide]
      omega

theorem pageView_eq {core : Shared} {id : String} {inbox : Inbox} {after cap : ℕ}
    (hinbox : core.registry.inboxes[(⟨target, id⟩ : Key)]? = some inbox)
    (hordered : inbox.aborted.toList.Pairwise (·.2 < ·.1))
    (hproper : ∀ range ∈ inbox.aborted.toList, range.1 ≤ range.2) : core.pageView target id after cap =
      (inbox.published, min inbox.committedSettled inbox.published, (inbox.aborted.toList.filter
        (max after (min inbox.committedSettled inbox.published) < ·.2)).take cap) := by
  unfold Shared.pageView
  rewrite [hinbox, ← filter_lower hordered hproper]
  rfl

theorem dropWhile_eq_filter {ranges : List (ℕ × ℕ)} (hordered : ranges.Pairwise (·.2 < ·.1))
    (hproper : ∀ range ∈ ranges, range.1 ≤ range.2) (start : ℕ) :
    ranges.dropWhile (·.2 ≤ start) = ranges.filter (start < ·.2) := by
  induction ranges with
  | nil => rfl
  | cons range ranges ih =>
    obtain ⟨hfirst, hordered⟩ := pairwise_cons.mp hordered
    have hproper' : ∀ later ∈ ranges, later.1 ≤ later.2 := fun later hlater => hproper later (.tail _ hlater)
    by_cases hle : range.2 ≤ start
    · rw [dropWhile_cons_of_pos (by simpa using hle), ih hordered hproper',
        filter_cons_of_neg (by simpa using hle)]
    · have hall : ∀ later ∈ range :: ranges, (decide (start < later.2)) = true := by
        intro later hlater
        rcases mem_cons.mp hlater with rfl | hlater
        · exact decide_eq_true (not_le.mp hle)
        · have := hfirst later hlater
          have := hproper' later hlater
          exact decide_eq_true (by omega)
      rw [dropWhile_cons_of_neg (by simpa using hle), filter_eq_self.mpr hall]

theorem view_recovered (h : ib.publication = none ∨ ib.incarnations[target]? = none) (after : ℕ) :
    ib.ranges target = ib.abortedRanges[target]?.getD [] ∧ (ib.view target after).2.2 =
        (ib.ranges target).dropWhile (·.2 ≤ max after (ib.view target after).2.1) := by
  unfold ranges view
  cases hcore : ib.publication with
  | none => exact ⟨rfl, rfl⟩
  | some core =>
    rw [hcore] at h
    rw [h.resolve_left (by simp)]
    exact ⟨rfl, rfl⟩

/-- A page is handed the ranges that end after its start, or more of them than it can visit. -/
theorem view_ranges (after : ℕ) :
    (ib.view target after).2.2 <+: (ib.evidence h (max after (ib.settled target))).aborted ∧
      ((ib.view target after).2.2.length < (ib.evidence h (max after (ib.settled target))).aborted.length →
        visitCap ≤ (ib.view target after).2.2.length) := by
  show _ <+: (ib.ranges target).filter _ ∧ (_ < ((ib.ranges target).filter _).length → _)
  rw [← (@view_eq ib target after).2]
  by_cases hnone : ib.publication = none ∨ ib.incarnations[target]? = none
  · rw [(view_recovered hnone after).2, dropWhile_eq_filter h.ordered h.proper]
    exact ⟨prefix_rfl, fun hlt => absurd hlt (lt_irrefl _)⟩
  rw [not_or, ← ne_eq, ← ne_eq, Option.ne_none_iff_exists', Option.ne_none_iff_exists'] at hnone
  obtain ⟨⟨core, hcore⟩, id, hid⟩ := hnone
  have hranges : ib.ranges target =
      (core.registry.inboxes[(⟨target, id⟩ : Key)]?.map (·.aborted.toList)).getD [] := by
    unfold ranges
    rw [hcore, hid]
  have hview : ib.view target after = core.pageView target id after visitCap := by
    unfold view
    rw [hcore, hid]
  cases hinbox : core.registry.inboxes[(⟨target, id⟩ : Key)]? with
  | none =>
    have hpage : core.pageView target id after visitCap = (0, 0, []) := by
      unfold Shared.pageView
      rw [hinbox]
    rw [hview, hpage, hranges, hinbox]
    exact ⟨prefix_rfl, fun hlt => absurd hlt (lt_irrefl _)⟩
  | some inbox =>
    rw [hinbox] at hranges
    have hordered := h.ordered
    have hproper := h.proper
    rw [hranges] at hordered hproper
    rw [hview, pageView_eq hinbox hordered hproper, hranges]
    refine ⟨⟨_, take_append_drop _ _⟩, fun hlt => ?_⟩
    rw [length_take]
    dsimp only [Option.map_some, Option.getD_some] at hlt
    rw [length_take] at hlt
    omega

/-- Bytes of the header with all its numbers at their greatest width; the cursor does not enter. -/
def headerSize (record : PageEntryRecord → Bytes) (ib : PublishedInbox) (target : String) : ℕ :=
  (ResumePage.empty ⟨target, 0, 0, 0⟩ ib.incarnations[target]? 0 0).worstHeaderSize record

structure Accepts (record : PageEntryRecord → Bytes) (ib : PublishedInbox) (request : PageRequest) : Prop where
  inRange : ib.InRange request
  apart : ib.Apart request.target
  header : ib.headerSize record request.target ≤ headerCap
  limit : 0 < request.limit
  after : request.after ≤ ib.issued request.target

theorem Accepts.start_le (h : ib.Accepts record request) : ib.start request ≤ ib.issued request.target :=
  max_le h.after settled_le_issued

/-- The page of a request covers the evidence after its start. -/
theorem Accepts.covered (h : ib.Accepts record request) : ∃ page, ib.resumePage record clock request =
      .ok { page with more := page.coveredThroughSeq < ib.issued request.target } ∧
    Covered (ib.evidence h.apart (ib.start request)) record (ib.retainUntilOf clock) request.now
      (ib.headerSize record request.target) page := by
  have hview := @view_eq ib request.target request.after
  have hissued : ib.issued request.target ≤ u64Max := hview.1 ▸ h.inRange.issued
  have hsett : ib.settled request.target ≤ u64Max := hview.2 ▸ h.inRange.settled
  generalize hbase : ResumePage.empty request ib.incarnations[request.target]? (ib.issued request.target)
    (ib.settled request.target) = base
  have hsize : base.worstHeaderSize record = ib.headerSize record request.target := by
    rw [← hbase]
    rfl
  obtain ⟨hgiven, hshort⟩ := view_ranges h.apart request.after
  have hok := (@buildPage_ok record clock ib request _ _ (ib.view request.target request.after).2.2
    hissued hsett h.inRange.rows h.after base _ hbase.symm (hsize.trans_le h.header) rfl).1
  refine ⟨ib.walked record clock request base (ib.issued request.target)
    (ib.view request.target request.after).2.2, ?_, ?_⟩
  · unfold resumePage
    rw [if_neg h.limit.ne']
    dsimp only
    rw [hview.1, hview.2]
    exact hok
  · have hstart : base.coveredThroughSeq = ib.start request := by
      rw [← hbase]
      rfl
    unfold walked
    rw [hsize, hstart]
    refine Covers.run ?_ (measure_startWalk_le _ _ _ _ _) h.header h.limit
    exact covers_startWalk hstart (by rw [← hbase]; rfl) (by rw [← hbase]; rfl) h.start_le hissued hgiven hshort

theorem Accepts.exactPage (h : ib.Accepts record request) {page : ResumePage} (more : Bool)
    (hpage : Covered (ib.evidence h.apart (ib.start request)) record (ib.retainUntilOf clock) request.now
      (ib.headerSize record request.target) page) :
    ib.ExactPage clock request { page with more } where
  start_le := hpage.start_le
  le_issued := hpage.le_issued
  entries := hpage.shows.entries
  losses seq reason := by
    rw [hpage.shows.losses, lost_evidence_iff]
    constructor
    · rintro ⟨hseq, hstart, hlost⟩
      exact ⟨hstart, hseq, hlost⟩
    · rintro ⟨hstart, hseq, hlost⟩
      exact ⟨hseq, hstart, hlost⟩
  ordered := hpage.shows.inOrder.ordered
  proper := hpage.shows.inOrder.proper
  progress := by
    rcases hpage.progress with hlt | heq | ⟨seq, entry, -, -, -, -, hoversize⟩
    · exact .inl hlt
    · exact .inr (.inl heq)
    · refine .inr (.inr ?_)
      rw [hoversize]
      rfl

theorem liveRows_append {first mid last : ℕ} (hfirst : first ≤ mid) (hlast : mid ≤ last) :
    ib.liveRows clock target now first mid ++ ib.liveRows clock target now mid last =
      ib.liveRows clock target now first last := by
  have hsorted : (seekRows (ib.rows target) first).Pairwise (·.1 < ·.1) := (toList_sorted _).filter _
  have hrest : remaining (·.1) (seekRows (ib.rows target) first) mid = seekRows (ib.rows target) mid := by
    unfold remaining seekRows
    rw [filter_filter]
    apply filter_congr
    intro row _
    rw [Bool.eq_iff_iff, Bool.and_eq_true, decide_eq_true_eq, decide_eq_true_eq]
    dsimp only
    omega
  unfold liveRows
  rw [← map_append, ← filter_append, filter_upTo hsorted hlast, hrest]

/-- No live row from the start of a request on is too large beside the widest header. -/
def RowsFit (record : PageEntryRecord → Bytes) (clock : ℤ) (ib : PublishedInbox) (request : PageRequest) :
    Prop :=
  ∀ (seq : ℕ) (entry : InboxEntry), (ib.rows request.target)[seq]? = some entry →
    ib.start request < seq → seq ≤ ib.issued request.target →
    request.now < ib.retainUntilOf clock entry →
    ib.headerSize record request.target + (record ⟨entry, ib.retainUntilOf clock entry⟩).length ≤ pageByteCap

theorem Accepts.next (h : ib.Accepts record request) {covered : ℕ} (hstart : ib.start request ≤ covered)
    (hissued : covered ≤ ib.issued request.target) :
    ib.Accepts record { request with after := covered } ∧
      ib.start { request with after := covered } = covered := by
  have hview := @view_eq ib request.target request.after
  have hview' := @view_eq ib request.target covered
  refine ⟨{ h with inRange := ?_, after := hissued }, max_eq_left ((le_max_right _ _).trans hstart)⟩
  refine ⟨?_, ?_, h.inRange.rows⟩
  · rw [hview'.1, ← hview.1]
    exact h.inRange.issued
  · rw [hview'.2, ← hview.2]
    exact h.inRange.settled

/-- Going on page by page ends, and shows every live row once. -/
theorem resumeAll_spec (requests : ℕ) : ∀ {request : PageRequest}, ib.Accepts record request →
    ib.RowsFit record clock request → ib.issued request.target - ib.start request < requests →
    ∃ pages, ib.resumeAll record clock requests request = some pages ∧
      pages.flatMap (·.entries) = ib.liveRows clock request.target request.now (ib.start request)
        (ib.issued request.target) := by
  induction requests with
  | zero => exact fun _ _ hlt => absurd hlt (Nat.not_lt_zero _)
  | succ requests ih =>
    intro request h hfit hlt
    obtain ⟨page, hok, hpage⟩ := @h.covered record clock
    unfold resumeAll
    rw [hok]
    dsimp only
    by_cases hmore : page.coveredThroughSeq < ib.issued request.target
    · rw [if_pos (decide_eq_true hmore)]
      have hmoved : ib.start request < page.coveredThroughSeq := by
        rcases hpage.progress with hlt | heq | ⟨seq, entry, hmem, hle, hlive, hlarge, -⟩
        · exact hlt
        · exact absurd heq hmore.ne
        · obtain ⟨hget, hafter⟩ := mem_seekRows.mp hmem
          exact absurd (hfit seq entry hget hafter hle hlive) (not_le.mpr hlarge)
      obtain ⟨hnext, hstart⟩ := h.next hmoved.le hmore.le
      have hfit' : ib.RowsFit record clock { request with after := page.coveredThroughSeq } := by
        intro seq entry hget hafter
        rw [hstart] at hafter
        exact hfit seq entry hget (hmoved.trans hafter)
      obtain ⟨pages, hpages, hents⟩ := ih hnext hfit' (by
        show ib.issued request.target - _ < _
        omega)
      refine ⟨_ :: pages, by rw [hpages]; rfl, ?_⟩
      rw [flatMap_cons, hents, hstart]
      rw [hpage.shows.entries]
      exact liveRows_append hmoved.le hmore.le
    · rw [if_neg (by simpa using hmore)]
      have heq : page.coveredThroughSeq = ib.issued request.target :=
        le_antisymm hpage.le_issued (not_lt.mp hmore)
      refine ⟨_, rfl, ?_⟩
      rw [flatMap_singleton]
      rw [hpage.shows.entries, heq]
      rfl

end PublishedInbox

/-- A page has exactly the live rows and known losses up to where it covers, and going on page by page
shows every live row once when none is too large. -/
theorem resumePage_exact (record : PageEntryRecord → Bytes) (clock : ℤ) (ib : PublishedInbox)
    (request : PageRequest) (h : ib.Accepts record request) :
    (∃ page, ib.resumePage record clock request = .ok page ∧ ib.ExactPage clock request page) ∧
    (ib.RowsFit record clock request → ∃ pages, ib.resumeAll record clock
        (ib.issued request.target - ib.start request + 1) request = some pages ∧
      pages.flatMap (·.entries) = ib.liveRows clock request.target request.now (ib.start request)
        (ib.issued request.target)) := by
  constructor
  · obtain ⟨page, hok, hpage⟩ := @h.covered record clock
    exact ⟨_, hok, h.exactPage _ hpage⟩
  · intro hfit
    exact PublishedInbox.resumeAll_spec _ h hfit (Nat.lt_succ_self _)

theorem headerSize_oneRow (record : PageEntryRecord → Bytes) :
    oneRow.headerSize record edgeRequest.target = 321 := by
  show oneRow.headerSize (fun _ => []) edgeRequest.target = 321
  decide +kernel

theorem oneRow_accepts (record : PageEntryRecord → Bytes) : oneRow.Accepts record edgeRequest where
  inRange := oneRow_inRange
  apart := by
    have hranges : oneRow.ranges edgeRequest.target = [] := by decide +kernel
    constructor
    all_goals
      rw [hranges]
      simp
  header := by
    rw [headerSize_oneRow]
    decide
  limit := by decide
  after := by decide +kernel

/-- Live rows 1 and 6, row 2 expired, a dead letter, and 4 and 5 aborted. -/
def mailboxWith (dead : ℕ) : PublishedInbox :=
  let row (seq : ℕ) : InboxEntry := { edgeRow with inboxSeq := seq }
  { oneRow with
    nextSeq := (∅ : OrdMap String ℕ).insert "d" 7
    pending := (∅ : OrdMap String (OrdMap ℕ InboxEntry)).insert "d"
      ((((∅ : OrdMap ℕ InboxEntry).insert 1 (row 1)).insert 2 (row 2)).insert 6 (row 6))
    retainUntil := (∅ : OrdMap String (OrdMap ℕ ℤ)).insert "d"
      ((((∅ : OrdMap ℕ ℤ).insert 1 5).insert 2 0).insert 6 5)
    deadLetterIndex := (∅ : OrdMap String (OrdMap ℕ DeadLetterRecord)).insert "d"
      ((∅ : OrdMap ℕ DeadLetterRecord).insert dead ⟨dead, "e", .ackWindowOverflow, 5⟩)
    abortedRanges := (∅ : OrdMap String (List (ℕ × ℕ))).insert "d" [(4, 5)] }

def mixedMailbox : PublishedInbox := mailboxWith 3

theorem mixedMailbox_accepts : mixedMailbox.Accepts (plainRecord "") edgeRequest where
  inRange := PublishedInbox.inRange_of_rows (by decide +kernel) (by decide +kernel) (by decide +kernel)
  apart := by
    have hranges : mixedMailbox.ranges edgeRequest.target = [(4, 5)] := by decide +kernel
    have hrows : ∀ seq ≤ 5, 4 ≤ seq → seq ∉ mixedMailbox.rows edgeRequest.target ∧
        seq ∉ mixedMailbox.deadLetterIndex.submap edgeRequest.target := by decide +kernel
    constructor
    all_goals
      rw [hranges]
    · exact pairwise_singleton _ _
    · decide
    · decide +kernel
    · exact forall_mem_singleton.mpr fun seq hfirst hlast => hrows seq hlast hfirst
  header := by decide +kernel
  limit := by decide
  after := by decide +kernel

theorem mixedMailbox_rowsFit : mixedMailbox.RowsFit (plainRecord "") 0 edgeRequest := by
  intro seq entry hget _ _ _
  have hsize : mixedMailbox.headerSize (plainRecord "") edgeRequest.target = 321 := by decide +kernel
  have hall : ∀ row ∈ (mixedMailbox.rows edgeRequest.target).toList, 321 +
      (plainRecord "" ⟨row.2, mixedMailbox.retainUntilOf 0 row.2⟩).length ≤ pageByteCap := by
    decide +kernel
  have hfit := hall _ (mem_toList_iff.mpr hget)
  rw [hsize]
  exact hfit

/-- Two pages, with the three losses between the live rows. -/
theorem resumePage_exact_mixed :
    (∃ page, mixedMailbox.resumePage (plainRecord "") 0 edgeRequest = .ok page ∧
      mixedMailbox.ExactPage 0 edgeRequest page) ∧
    ∃ pages, mixedMailbox.resumeAll (plainRecord "") 0 7 edgeRequest = some pages ∧
      pages.flatMap (·.knownLosses) = [⟨2, 2, .expired⟩, ⟨3, 3, .ackWindowOverflow⟩, ⟨4, 5, .aborted⟩] ∧
      (pages.flatMap (·.entries)).map (·.entry.inboxSeq) = [1, 6] := by
  obtain ⟨hpage, hall⟩ := resumePage_exact (plainRecord "") 0 _ edgeRequest mixedMailbox_accepts
  obtain ⟨pages, hpages, hents⟩ := hall mixedMailbox_rowsFit
  have hlosses : (mixedMailbox.resumeAll (plainRecord "") 0 7 edgeRequest).map
      (·.flatMap (·.knownLosses)) = some [⟨2, 2, .expired⟩, ⟨3, 3, .ackWindowOverflow⟩, ⟨4, 5, .aborted⟩] := by
    decide +kernel
  refine ⟨hpage, pages, hpages, ?_, ?_⟩
  · have hsame := congrArg (Option.map (·.flatMap (·.knownLosses))) hpages
    exact Option.some.inj (hsame.symm.trans hlosses)
  · rw [hents]
    decide +kernel

/-- Going on page by page never gets over a row that is too large. -/
theorem resumeAll_oneRow (record : PageEntryRecord → Bytes)
    (h : pageByteCap < 321 + (record ⟨edgeRow, 5⟩).length) (requests : ℕ) :
    oneRow.resumeAll record 0 requests edgeRequest = none := by
  induction requests with
  | zero => rfl
  | succ requests ih =>
    unfold PublishedInbox.resumeAll
    rw [resumePage_oneRow record h]
    show (oneRow.resumeAll record 0 requests edgeRequest).map _ = none
    rw [ih]
    rfl

/-- A row that is too large beside the widest header is never got over; and a sequence with two
dispositions, here a dead letter in an aborted range, is shown as one of them only. -/
theorem resumeAll_incomplete :
    (¬∀ (record : PageEntryRecord → Bytes) (clock : ℤ) (ib : PublishedInbox) (request : PageRequest),
      ib.Accepts record request → ∃ requests pages,
        ib.resumeAll record clock requests request = some pages ∧
        pages.flatMap (·.entries) = ib.liveRows clock request.target request.now (ib.start request)
          (ib.issued request.target)) ∧
    ¬∀ (record : PageEntryRecord → Bytes) (clock : ℤ) (ib : PublishedInbox) (request : PageRequest),
      ib.InRange request → ib.headerSize record request.target ≤ headerCap → 0 < request.limit →
      request.after ≤ ib.issued request.target →
        ∃ page, ib.resumePage record clock request = .ok page ∧ ib.ExactPage clock request page := by
  constructor
  · intro h
    have hlen : (plainRecord edgePayload ⟨edgeRow, 5⟩).length = 982720 :=
      length_plainRecord_edgeRow 982336
    obtain ⟨requests, pages, hpages, -⟩ := h (plainRecord edgePayload) 0 oneRow edgeRequest (oneRow_accepts _)
    rw [resumeAll_oneRow (plainRecord edgePayload) (by rw [hlen]; decide) requests] at hpages
    cases hpages
  · intro h
    obtain ⟨page, hok, hexact⟩ := h (plainRecord "") 0 (mailboxWith 5) edgeRequest
      (PublishedInbox.inRange_of_rows (by decide +kernel) (by decide +kernel) (by decide +kernel))
      (by decide +kernel) (by decide) (by decide +kernel)
    have hshown : ((mailboxWith 5).resumePage (plainRecord "") 0 edgeRequest).toOption.map
        (fun page => (page.coveredThroughSeq, page.knownLosses)) =
          some (5, [⟨2, 2, .expired⟩, ⟨4, 5, .aborted⟩]) := by
      decide +kernel
    obtain ⟨found, hfound, hfields⟩ := Fallible.map_toOption_eq_some hshown
    cases hok.symm.trans hfound
    obtain ⟨hcovered, hlosses⟩ := Prod.mk.inj hfields
    have hdead : ((mailboxWith 5).deadLetterIndex.submap edgeRequest.target)[5]? =
      some ⟨5, "e", .ackWindowOverflow, 5⟩ := by decide +kernel
    have hlost : (mailboxWith 5).Lost 0 edgeRequest.target edgeRequest.now 5 .ackWindowOverflow :=
      .dead (by decide +kernel) hdead (by decide)
    obtain ⟨loss, hmem, -, -, hreason⟩ := (hexact.losses 5 .ackWindowOverflow).mpr ⟨by decide +kernel, by omega, hlost⟩
    rw [hlosses] at hmem
    have hother : ∀ loss ∈ [KnownLoss.mk 2 2 .expired, ⟨4, 5, .aborted⟩], loss.reason ≠ .ackWindowOverflow := by
      decide
    exact hother loss hmem hreason

end Ramflux.InboxPage
