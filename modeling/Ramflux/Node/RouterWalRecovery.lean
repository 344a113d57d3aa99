import Ramflux.Node.RouterWalReplay

/-! Crash recovery of one shard of the router log finds exactly the whole records. -/
namespace Ramflux.RouterWal
open List LogRecord
variable {codec : Codec} {digest : ContentDigest} {now : ℤ}

/-- Bytes behind the last whole record: none, or the beginning of one. -/
def Torn (codec : Codec) (tail : Bytes) : Prop :=
  tail = [] ∨ ∃ (r : LogRecord) (segmentId n : ℕ), r.Logged codec segmentId ∧
    n < (r.chunk codec).length ∧ tail = (r.chunk codec).take n

/-- A segment holds a header, these records and the given tail. -/
structure SegmentHolds (codec : Codec) (segment : Segment) (headerLen : ℕ) (records : List LogRecord)
    (tail : Bytes) : Prop where
  bytes : ∃ h, HeaderOk h ∧ h.length = headerLen ∧
    segment.bytes = h ++ (records.flatMap (chunk codec) ++ tail)
  contiguous : Contiguous (·.location.offset) (chunk codec) headerLen records
  logged : ∀ r ∈ records, r.Logged codec segment.id

theorem Torn.readFrame_eq_none {tail : Bytes} (h : Torn codec tail) : readFrame crc32 tail = none := by
  rcases h with rfl | ⟨r, segmentId, n, hr, hn, rfl⟩
  · rfl
  · exact readFrame_take_frame hr.small hn

theorem Torn.take {tail : Bytes} (h : Torn codec tail) (m : ℕ) : Torn codec (tail.take m) := by
  rcases h with rfl | ⟨r, segmentId, n, hr, hn, rfl⟩
  · left
    simp
  · right
    exact ⟨r, segmentId, min m n, hr, by omega, by rw [take_take]⟩

section
variable {segment : Segment} {headerLen : ℕ} {records : List LogRecord} {tail : Bytes}

theorem SegmentHolds.readHeader (h : SegmentHolds codec segment headerLen records tail) :
    ∃ info, readHeader segment.bytes = .ok (headerLen, info) := by
  obtain ⟨hd, hok, hlen, hbytes⟩ := h.bytes
  obtain ⟨info, hread⟩ := readHeader_append hok (records.flatMap (chunk codec) ++ tail)
  exact ⟨info, by rw [hbytes, hread, hlen]⟩

theorem SegmentHolds.length_bytes (h : SegmentHolds codec segment headerLen records tail) :
    segment.bytes.length = headerLen + ((records.flatMap (chunk codec)).length + tail.length) := by
  obtain ⟨hd, -, hlen, hbytes⟩ := h.bytes
  rw [hbytes, length_append, length_append, hlen]

theorem wholeUpTo_eq_filter {segmentId : ℕ} (hlogged : ∀ r ∈ records, r.Logged codec segmentId)
    (keep : ℕ) : wholeUpTo (·.location.offset) (chunk codec) keep records =
      records.filter fun r => r.stop ≤ keep := by
  apply filter_congr
  intro r hr
  rw [(hlogged r hr).stop_eq]

section
variable (h : SegmentHolds codec segment headerLen records tail)
include h

theorem SegmentHolds.stop_le {r : LogRecord}
    (hr : r ∈ records) : r.stop ≤ headerLen + (records.flatMap (chunk codec)).length := by
  obtain ⟨before, after, rfl⟩ := append_of_mem hr
  have hcontig := contiguous_append.mp h.contiguous
  have hstart : r.location.offset = headerLen + (before.flatMap (chunk codec)).length :=
    hcontig.2.1
  rw [← (h.logged r hr).stop_eq, hstart, flatMap_append, flatMap_cons, length_append, length_append]
  omega

/-- Cutting a segment keeps the records that end within the bytes left. -/
theorem SegmentHolds.cut (htorn : Torn codec tail) {keep : ℕ} (hkeep : headerLen ≤ keep) :
    ∃ tail', Torn codec tail' ∧
      SegmentHolds codec { segment with bytes := segment.bytes.take keep } headerLen
        (records.filter fun r => r.stop ≤ keep) tail' := by
  obtain ⟨hd, hok, hlen, hbytes⟩ := h.bytes
  have hlogged : ∀ r ∈ records.filter (fun r => r.stop ≤ keep), r.Logged codec segment.id :=
    fun r hr => h.logged r (mem_of_mem_filter hr)
  have hcontig : Contiguous (·.location.offset) (chunk codec) headerLen
      (records.filter fun r => r.stop ≤ keep) := by
    rw [← wholeUpTo_eq_filter h.logged]
    exact h.contiguous.filter_whole (fun r _ => length_chunk_pos r) keep
  have htake : segment.bytes.take keep =
      hd ++ (records.flatMap (chunk codec) ++ tail).take (keep - headerLen) := by
    rw [hbytes, take_append, take_of_length_le (by omega), hlen]
  by_cases hwhole : headerLen + (records.flatMap (chunk codec)).length ≤ keep
  · -- The cut is behind the last whole record.
    have hall : records.filter (fun r => r.stop ≤ keep) = records := by
      rw [filter_eq_self]
      intro r hr
      simpa using le_trans (h.stop_le hr) hwhole
    refine ⟨tail.take (keep - headerLen - (records.flatMap (chunk codec)).length),
      htorn.take _, ⟨hd, hok, hlen, ?_⟩, hcontig, hlogged⟩
    rw [hall]
    rw [htake, take_append, take_of_length_le (by omega)]
  · obtain ⟨cut, hcut, hshape⟩ :=
      h.contiguous.take_flatMap (fun r _ => length_chunk_pos r) hkeep
    rw [wholeUpTo_eq_filter h.logged] at hcut
    refine ⟨cut, ?_, ⟨hd, hok, hlen, ?_⟩, hcontig, hlogged⟩
    · rcases hshape with hnil | ⟨r, hr, n, hn, hcut⟩
      · exact .inl hnil
      · exact .inr ⟨r, segment.id, n, h.logged r hr, hn, hcut⟩
    · rw [htake, take_append_of_le_length (by omega), hcut]

/-- A segment replays to its whole records and is cut behind them. -/
theorem SegmentHolds.recover (htorn : Torn codec tail) (newest : Bool) (s : State) :
    recoverRouterWalSegment codec digest now segment newest s =
      .ok (⟨segment.id, segment.bytes.take (headerLen + (records.flatMap (chunk codec)).length)⟩,
        headerLen + (records.flatMap (chunk codec)).length,
        records.foldl (State.reread digest now) s) := by
  obtain ⟨hd, hok, hlen, hbytes⟩ := h.bytes
  obtain ⟨info, hhdr⟩ := readHeader_append hok (records.flatMap (chunk codec) ++ tail)
  have hfuel : records.length < segment.bytes.length + 1 := by
    have hcount : records.length ≤ (records.flatMap (chunk codec)).length :=
      length_le_length_flatMap fun r _ => length_chunk_pos r
    rw [h.length_bytes]
    omega
  have hloop := recoverRecords_chunks digest now h.logged h.contiguous
    htorn.readFrame_eq_none hfuel s
  unfold recoverRouterWalSegment
  dsimp only
  rw [hbytes, replaceEmptyHeader_append hok, repairEmptyHeader_append hok, hhdr, ← hbytes]
  have hdrop : segment.bytes.drop hd.length = records.flatMap (chunk codec) ++ tail := by
    rw [hbytes, drop_left' rfl]
  simp only [Except.mapError, bind, Except.bind]
  rw [hdrop, hlen, hloop]
  rfl

end

end

/-- The segments hold the given records, each its own part, with nothing behind the last. -/
def Holds (codec : Codec) (segments : List Segment) (groups : List (List LogRecord)) : Prop :=
  List.Forall₂ (fun segment records => ∃ headerLen, SegmentHolds codec segment headerLen records [])
    segments groups

/-- Segments of a shard: whole ones in ascending order, and a newest one with a tail. -/
structure Laid (codec : Codec) (segments older : List Segment) (newest : Segment) (headerLen : ℕ)
    (groups : List (List LogRecord)) (late : List LogRecord) (tail : Bytes) : Prop where
  segments_eq : segments = older ++ [newest]
  ascending : ∀ segment ∈ older, segment.id < newest.id
  older : Holds codec older groups
  newest : SegmentHolds codec newest headerLen late tail
  torn : Torn codec tail

theorem Holds.logged {segments : List Segment} {groups : List (List LogRecord)}
    (h : Holds codec segments groups) {r : LogRecord} (hr : r ∈ groups.flatten) :
    ∃ segment ∈ segments, r.Logged codec segment.id := by
  induction h with
  | nil => cases hr
  | @cons segment records segments groups hseg hrest ih =>
    obtain ⟨headerLen, hseg⟩ := hseg
    rw [flatten_cons, mem_append] at hr
    rcases hr with hr | hr
    · exact ⟨segment, .head _, hseg.logged r hr⟩
    · obtain ⟨other, hother, hlogged⟩ := ih hr
      exact ⟨other, .tail _ hother, hlogged⟩

theorem Holds.foldlM_recoverNext (digest : ContentDigest) (now : ℤ)
    {segments : List Segment} {groups : List (List LogRecord)}
    (h : Holds codec segments groups) (last : Option Segment) (recovered : Recovery) :
    ∃ lastSegmentId offset, segments.foldlM (recoverNext codec digest now last) recovered =
        .ok ⟨recovered.segments ++ segments,
          groups.flatten.foldl (State.reread digest now) recovered.state, lastSegmentId, offset⟩ := by
  induction h generalizing recovered with
  | nil => exact ⟨recovered.lastSegmentId, recovered.currentOffset, by simp; rfl⟩
  | @cons segment records segments groups hseg hrest ih =>
    obtain ⟨headerLen, hseg⟩ := hseg
    have htorn : Torn codec [] := .inl rfl
    have hall : segment.bytes.take
        (headerLen + (records.flatMap (chunk codec)).length) = segment.bytes := by
      rw [take_of_length_le]
      rw [hseg.length_bytes]
      simp
    have hnext : recoverNext codec digest now last recovered segment =
        .ok ⟨recovered.segments ++ [segment],
          records.foldl (State.reread digest now) recovered.state, some segment.id,
          headerLen + (records.flatMap (chunk codec)).length⟩ := by
      unfold recoverNext
      rw [hseg.recover htorn, hall]
      rfl
    obtain ⟨lastSegmentId, offset, hfold⟩ := ih _
    refine ⟨lastSegmentId, offset, ?_⟩
    rw [foldlM_cons, hnext]
    show List.foldlM _ _ _ = _
    rw [hfold]
    simp [foldl_append]

section
variable {segments older : List Segment} {newest : Segment} {headerLen : ℕ}
  {groups : List (List LogRecord)} {late : List LogRecord} {tail : Bytes}

section
variable (h : Laid codec segments older newest headerLen groups late tail)
include h

/-- Recovery replays all whole records and cuts the newest segment behind them. -/
theorem Laid.recover :
    recoverRouterWalDirectory codec digest now segments =
      .ok ⟨older ++ [⟨newest.id, newest.bytes.take (headerLen + (late.flatMap (chunk codec)).length)⟩],
        (groups.flatten ++ late).foldl (State.reread digest now) default,
        some newest.id, headerLen + (late.flatMap (chunk codec)).length⟩ := by
  obtain ⟨lastSegmentId, offset, hfold⟩ := h.older.foldlM_recoverNext digest now
    segments.getLast? ⟨[], default, none, 0⟩
  unfold recoverRouterWalDirectory
  rw [h.segments_eq, foldlM_append, ← h.segments_eq, hfold]
  show recoverNext codec digest now segments.getLast? _ newest >>= pure = _
  rw [bind_pure, recoverNext, h.newest.recover h.torn, foldl_append]
  rfl

theorem Laid.segmentId_early : ∀ r ∈ groups.flatten, r.location.segmentId ≠ newest.id := by
  intro r hr
  obtain ⟨segment, hseg, hlogged⟩ := h.older.logged hr
  rw [hlogged.segment]
  exact (h.ascending segment hseg).ne

theorem Laid.segmentId_late : ∀ r ∈ late, r.location.segmentId = newest.id :=
  fun r hr => (h.newest.logged r hr).segment

theorem Laid.filter_newest :
    (groups.flatten ++ late).filter (·.location.segmentId == newest.id) = late := by
  rw [filter_append, filter_eq_nil_iff.mpr, filter_eq_self.mpr, nil_append]
  · intro r hr
    simpa using h.segmentId_late r hr
  · intro r hr
    simpa using h.segmentId_early r hr

theorem Laid.writtenEnd_eq :
    writtenEnd headerLen newest.id (groups.flatten ++ late) =
      headerLen + (late.flatMap (chunk codec)).length := by
  unfold writtenEnd
  rw [h.filter_newest]
  rcases eq_nil_or_concat' late with rfl | ⟨init, r, rfl⟩
  · simp
  · obtain ⟨-, hstart⟩ := contiguous_concat.mp h.newest.contiguous
    have hr := h.newest.logged r (by simp)
    rw [getLast?_concat, Option.map_some, Option.getD_some, ← hr.stop_eq, hstart,
      flatMap_append, length_append, flatMap_singleton]
    omega

/-- A crash keeps the older segments and the records that end within the bytes left. -/
theorem Laid.crash {keep : ℕ} (hkeep : headerLen ≤ keep) :
    ∃ tail', Laid codec (cutNewest keep segments) older
        { newest with bytes := newest.bytes.take keep } headerLen groups
        (late.filter fun r => r.stop ≤ keep) tail' ∧
      (groups.flatten ++ late).filter (survives newest.id keep) =
        groups.flatten ++ late.filter fun r => r.stop ≤ keep := by
  obtain ⟨tail', htorn, hcut⟩ := h.newest.cut h.torn hkeep
  refine ⟨tail', ⟨?_, h.ascending, h.older, hcut, htorn⟩, ?_⟩
  · rw [cutNewest, h.segments_eq, dropLast_concat, getLast?_concat]
    rfl
  · have hearly : groups.flatten.filter (survives newest.id keep) = groups.flatten := by
      rw [filter_eq_self]
      intro r hr
      simp [survives, h.segmentId_early r hr]
    have hlate : late.filter (survives newest.id keep) = late.filter fun r => r.stop ≤ keep := by
      apply filter_congr
      intro r hr
      simp [survives, h.segmentId_late r hr]
    rw [filter_append, hearly, hlate]

end

theorem bytesOf_concat (h : ∀ segment ∈ older, segment.id < newest.id) :
    bytesOf (older ++ [newest]) newest.id = newest.bytes := by
  have hnone : older.find? (·.id == newest.id) = none := by
    rw [find?_eq_none]
    intro segment hseg
    simpa using (h segment hseg).ne
  rw [bytesOf, find?_append, hnone]
  simp

theorem writeTo_concat (h : ∀ segment ∈ older, segment.id < newest.id) (bytes : Bytes) :
    writeTo (older ++ [newest]) newest.id bytes =
      older ++ [{ newest with bytes := newest.bytes ++ bytes }] := by
  have hkeep : older.map (fun segment => if segment.id = newest.id then
      { segment with bytes := segment.bytes ++ bytes } else segment) = older := by
    rw [map_congr_left (g := id), map_id]
    intro segment hseg
    rw [if_neg (h segment hseg).ne]
    rfl
  rw [writeTo, if_pos (by simp), map_append, hkeep]
  simp

theorem writeTo_of_new {id : ℕ} (h : ∀ segment ∈ segments, segment.id < id) (bytes : Bytes) :
    writeTo segments id bytes = segments ++ [⟨id, bytes⟩] := by
  rw [writeTo, if_neg]
  simp only [any_eq_true, beq_iff_eq, not_exists, not_and]
  intro segment hseg
  exact (h segment hseg).ne

/-- The writer stands at the end of the newest segment. -/
def Writer.AtEnd (w : Writer) (newest : Segment) : Prop :=
  w.segmentId = newest.id ∧ w.offset = newest.bytes.length

theorem segmentHolds_header (association : Option Association) (id : ℕ) :
    SegmentHolds codec ⟨id, header association id⟩ (header association id).length [] [] where
  bytes := ⟨_, headerOk_header association id, rfl, by simp⟩
  contiguous := trivial
  logged := by simp

theorem Laid.roll {w : Writer} (h : Laid codec segments older newest headerLen groups late [])
    (hw : w.AtEnd newest) : Laid codec (w.rollSegment segments).2 segments
        ⟨w.segmentId + 1, header w.association (w.segmentId + 1)⟩
        (header w.association (w.segmentId + 1)).length (groups ++ [late]) [] [] ∧
      (w.rollSegment segments).1.AtEnd ⟨w.segmentId + 1, header w.association (w.segmentId + 1)⟩ := by
  have hbelow : ∀ segment ∈ segments, segment.id < w.segmentId + 1 := by
    intro segment hseg
    rw [h.segments_eq, mem_append, mem_singleton] at hseg
    rw [hw.1]
    rcases hseg with hseg | rfl
    · exact Nat.lt_succ_of_lt (h.ascending segment hseg)
    · exact Nat.lt_succ_self _
  constructor
  · constructor
    · exact writeTo_of_new hbelow _
    · exact hbelow
    · rw [h.segments_eq]
      exact rel_append h.older (.cons ⟨headerLen, h.newest⟩ .nil)
    · exact segmentHolds_header _ _
    · exact .inl rfl
  · exact ⟨rfl, rfl⟩

theorem Laid.write {w w' : Writer} {r : LogRecord} {segments' : List Segment}
    (h : Laid codec segments older newest headerLen groups late []) (hw : w.AtEnd newest)
    (hwrite : w.writeRecord (r.encoded codec) segments = .ok (r.location, w', segments'))
    (hacc : r.payload.acceptedAt.isSome) (hencodes : ∃ stored, codec.store r.payload = .ok stored ∧
      codec.toAllocvec (stored.tag r.incarnation) = .ok (r.encoded codec))
    (hincarnated : ∀ id ∈ r.incarnation, identityOk id ∧ r.payload.entry.isSome) :
    Laid codec segments' older { newest with bytes := newest.bytes ++ r.chunk codec } headerLen groups
        (late ++ [r]) [] ∧
      w'.AtEnd { newest with bytes := newest.bytes ++ r.chunk codec } ∧
      w'.association = w.association := by
  unfold Writer.writeRecord at hwrite
  split_ifs at hwrite with hsmall
  obtain ⟨hloc, hwriter, hsegs⟩ : _ ∧ _ ∧ _ := by simpa using hwrite
  have hlen : r.location.len = (r.encoded codec).length := by rw [← hloc]
  have hoffset : r.location.offset = newest.bytes.length := by rw [← hloc, ← hw.2]
  have hlogged : r.Logged codec newest.id := {
    segment := by rw [← hloc, ← hw.1]
    accepted := hacc
    encodes := hencodes
    len := hlen
    small := by
      unfold u32Max at hsmall
      omega
    incarnated := hincarnated }
  have hnewest : SegmentHolds codec { newest with bytes := newest.bytes ++ r.chunk codec } headerLen
      (late ++ [r]) [] := by
    obtain ⟨hd, hok, hhd, hbytes⟩ := h.newest.bytes
    constructor
    · refine ⟨hd, hok, hhd, ?_⟩
      rw [hbytes]
      simp
    · rw [contiguous_concat]
      refine ⟨h.newest.contiguous, ?_⟩
      rw [hoffset, h.newest.length_bytes, length_nil, Nat.add_zero]
    · intro r' hr'
      rcases mem_append.mp hr' with hr' | hr'
      · exact h.newest.logged r' hr'
      · rw [mem_singleton.mp hr']
        exact hlogged
  refine ⟨⟨?_, h.ascending, h.older, hnewest, .inl rfl⟩, ?_, ?_⟩
  · rw [← hsegs, hw.1, h.segments_eq, writeTo_concat h.ascending]
    rfl
  · rw [← hwriter]
    constructor
    · exact hw.1
    · rw [length_append, hlogged.length_chunk, hlen, hw.2]
  · rw [← hwriter]

end

end Ramflux.RouterWal
