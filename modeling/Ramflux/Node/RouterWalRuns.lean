import Ramflux.Node.RouterWalRecovery

/-! The shard over whole runs of appends, crashes and reopenings. -/
namespace Ramflux.RouterWal
open List Except Option Shard State LogRecord
variable {codec : Codec} {digest : ContentDigest}

/-- A mailbox of a record and the incarnation it is logged under. -/
def LogRecord.Names (r : LogRecord) (target id : String) : Prop :=
  ∃ entry ∈ r.payload.entry, entry.target = target ∧ id ∈ r.incarnation

/-- Records of one mailbox that name an incarnation name the same one. -/
def Consistent (records : List LogRecord) : Prop :=
  ∀ r ∈ records, ∀ r' ∈ records, ∀ (target id id' : String),
    r.Names target id → r'.Names target id' → id = id'

variable {id : String} {association : Option Association} {payload : Payload}
  {older segments : List Segment} {now : ℤ} {newest : Segment} {headerLen : ℕ}
  {groups : List (List LogRecord)} {late : List LogRecord}

variable {r : LogRecord} {target : String}

theorem LogRecord.Names.unique {id' : String} (h : r.Names target id)
    (h' : r.Names target id') : id = id' := by
  obtain ⟨-, -, -, hid⟩ := h
  obtain ⟨-, -, -, hid'⟩ := h'
  exact mem_unique hid hid'

variable {records : List LogRecord}

theorem Consistent.of_subset {records' : List LogRecord} (h : Consistent records)
    (hsub : ∀ r ∈ records', r ∈ records) : Consistent records' :=
  fun r hr r' hr' => h r (hsub r hr) r' (hsub r' hr')

theorem Consistent.concat (h : Consistent records) (hnew : ∀ r' ∈ records, ∀ (target id id' : String),
      r'.Names target id' → r.Names target id → id' = id) : Consistent (records ++ [r]) := by
  intro a ha b hb target id id' hid hid'
  rw [mem_append, mem_singleton] at ha hb
  rcases ha with ha | rfl
  · rcases hb with hb | rfl
    · exact h a ha b hb target id id' hid hid'
    · exact hnew a ha target id' id hid hid'
  · rcases hb with hb | rfl
    · exact (hnew b hb target id id' hid' hid).symm
    · exact hid.unique hid'

section
variable (digest) (now : ℤ)

theorem incarnations_applyWithSenderAssignment (s : State) (payload : Payload) (location : Location)
    (flag : Bool) :
    (s.applyWithSenderAssignment digest now payload location flag).incarnations = s.incarnations := by
  have hindex : ∀ (s : State) (record : SubmissionRecord),
      (s.index digest now record).incarnations = s.incarnations := by
    intro s record
    unfold index
    cases record.entry <;> cases record.localDelivery <;> rfl
  have hunindex : ∀ (s : State) (record : SubmissionRecord),
      (s.unindex now record).incarnations = s.incarnations := by
    intro s record
    unfold unindex
    cases record.entry <;> cases record.localDelivery <;> rfl
  have hissue : (s.issue payload.entry).incarnations = s.incarnations := by
    cases payload.entry <;> rfl
  unfold State.applyWithSenderAssignment State.replace
  rw [hindex]
  cases (s.issue payload.entry).submissions[
      (payload.record location flag).replayKey]? with
  | none => exact hissue
  | some previous => exact (hunindex _ _).trans hissue

theorem getElem?_incarnations_replay (s : State) (r : LogRecord) (target id : String) :
    (s.replay digest now r).incarnations[target]? = some id ↔ r.Names target id ∨
        (∀ id', ¬r.Names target id') ∧ s.incarnations[target]? = some id := by
  unfold replay
  rw [incarnations_applyWithSenderAssignment]
  unfold prepareSenderIdentity Names
  cases r.incarnation with
  | none => simp
  | some id' =>
    cases r.payload.entry with
    | none => simp
    | some entry =>
      rw [OrdMap.getElem?_insert_eq]
      by_cases htgt : entry.target = target
      · simp [htgt, eq_comm]
      · simp [htgt]

/-- What the log says of a mailbox is what its records name. -/
theorem getElem?_incarnations_foldl {records : List LogRecord} (h : Consistent records)
    (target id : String) :
    (records.foldl (replay digest now) default).incarnations[target]? = some id ↔
      ∃ r ∈ records, r.Names target id := by
  induction records using List.reverseRecOn with
  | nil =>
    have hempty : (default : State).incarnations = ∅ := rfl
    rw [foldl_nil, hempty]
    simp
  | append_singleton records r ih =>
    have hinit := ih (h.of_subset fun r' hr' => mem_append_left _ hr')
    rw [foldl_concat, getElem?_incarnations_replay, hinit]
    constructor
    · rintro (hr | ⟨-, r', hr', hnames⟩)
      · exact ⟨r, by simp, hr⟩
      · exact ⟨r', mem_append_left _ hr', hnames⟩
    · rintro ⟨r', hr', hnames⟩
      by_cases hlast : ∃ id', r.Names target id'
      · obtain ⟨id', hnames'⟩ := hlast
        have hsame : id = id' := h r' hr' r (by simp) target id id' hnames hnames'
        exact .inl (hsame ▸ hnames')
      · have hne : r' ∈ records := by
          rcases mem_append.mp hr' with hr' | hr'
          · exact hr'
          · rw [mem_singleton.mp hr'] at hnames
            exact absurd ⟨id, hnames⟩ hlast
        exact .inr ⟨not_exists.mp hlast, r', hne, hnames⟩

/-- Reading a record back notes its incarnation without a conflict when the log agrees on it. -/
theorem reread_eq_replay {s : State} {r : LogRecord}
    (h : ∀ target id id', r.Names target id → s.incarnations[target]? = some id' → id' = id) :
    s.reread digest now r = s.replay digest now r := by
  have hnote : s.note r = s.prepareSenderIdentity r.incarnation r.payload := by
    unfold note prepareSenderIdentity
    cases hinc : r.incarnation with
    | none => rfl
    | some id =>
      cases hentry : r.payload.entry with
      | none => rfl
      | some entry =>
        have hagree : s.incarnations[entry.target]?.any (· != id) = false := by
          cases hget : s.incarnations[entry.target]? with
          | none => rfl
          | some id' =>
            have hid : id' = id := h entry.target id id'
              ⟨entry, by simp [hentry], rfl, by simp [hinc]⟩ hget
            simp [hid]
        show s.noteIncarnation entry id = _
        rw [noteIncarnation, hagree, Bool.or_false]
  unfold reread replay
  rw [hnote]

theorem foldl_reread_eq_replay {records : List LogRecord} (h : Consistent records) :
    records.foldl (reread digest now) default = records.foldl (replay digest now) default := by
  induction records using List.reverseRecOn with
  | nil => rw [foldl_nil, foldl_nil]
  | append_singleton records r ih =>
    have hinit : Consistent records := h.of_subset fun r' hr' => mem_append_left _ hr'
    rw [foldl_concat, foldl_concat, ih hinit]
    apply reread_eq_replay
    intro target id id' hnames hget
    obtain ⟨r', hr', hnames'⟩ :=
      (getElem?_incarnations_foldl digest now hinit target id').mp hget
    exact h r' (mem_append_left _ hr') r (by simp) target id' id hnames' hnames

end

theorem incarnationOf_ok
    (h : id ∈ incarnationOf association payload) : identityOk id ∧ payload.entry.isSome := by
  unfold incarnationOf at h
  cases association with
  | none => simp at h
  | some association =>
    cases hentry : payload.entry with
    | none => simp [hentry] at h
    | some entry =>
      have hid : association.reserve entry.target = id := by simpa [hentry] using h
      rw [← hid]
      exact ⟨association.reserve_ok _, rfl⟩

theorem encodePayload_eq {stored : StoredPayload} (h : codec.store payload = .ok stored) :
    codec.encodePayload association payload = .ok (stored.tag (incarnationOf association payload)) := by
  unfold Codec.encodePayload
  rw [h]
  cases hinc : incarnationOf association payload <;> rfl

theorem encode_eq {encoded : Bytes}
    (h : codec.encode association payload = .ok encoded) (location : Location) :
    (∃ stored, codec.store payload = .ok stored ∧
      codec.toAllocvec (stored.tag (incarnationOf association payload)) = .ok encoded) ∧
    LogRecord.encoded codec ⟨payload, incarnationOf association payload, location⟩ = encoded := by
  obtain ⟨_, hpayload, h⟩ := Fallible.bind_eq_ok.mp h
  obtain ⟨stored, hstore, -⟩ := Fallible.bind_eq_ok.mp hpayload
  cases (encodePayload_eq hstore).symm.trans hpayload
  have htag := Fallible.mapError_eq_ok.mp h
  refine ⟨⟨stored, hstore, htag⟩, ?_⟩
  unfold LogRecord.encoded
  rw [hstore]
  dsimp only
  rw [htag]

section
variable {segments segments' older : List Segment} {newest : Segment} {headerLen : ℕ}
  {groups : List (List LogRecord)} {late : List LogRecord} {w w' : Writer}

/-- An append adds one record, in the newest segment or in a new one behind it. -/
theorem Laid.append (h : Laid codec segments older newest headerLen groups late [])
    (hw : w.AtEnd newest) {aged : Bool} {payload : Payload} {location : Location}
    (happend : w.append codec aged segments payload = .ok (location, w', segments'))
    (hacc : payload.acceptedAt.isSome) : ∃ older' newest' headerLen' groups' late',
      Laid codec segments' older' newest' headerLen' groups' late' [] ∧ w'.AtEnd newest' ∧
      groups'.flatten ++ late' =
        groups.flatten ++ late ++ [⟨payload, incarnationOf w.association payload, location⟩] ∧
      (w'.association = w.association ∨
        w'.association = recordHead w.association (w.segmentId + 1)) := by
  obtain ⟨encoded, hencode, happend⟩ := Fallible.bind_eq_ok.mp happend
  obtain ⟨hencodes, henc⟩ := encode_eq hencode location
  rw [← henc] at hencodes
  by_cases hroll : w.rolls (8 + encoded.length) aged
  · -- The record opens a new segment.
    obtain ⟨hlaid, hend⟩ := h.roll hw
    have hwrite : (w.rollSegment segments).1.writeRecord encoded (w.rollSegment segments).2 =
        .ok (location, w', segments') := by
      simpa only [bind, Except.bind, hroll, if_true] using happend
    rw [← henc] at hwrite
    obtain ⟨hlaid', hend', hassoc⟩ :=
      hlaid.write hend hwrite hacc hencodes fun id hid => incarnationOf_ok hid
    refine ⟨_, _, _, _, _, hlaid', hend', ?_, .inr hassoc⟩
    simp
  · have hwrite : w.writeRecord encoded segments = .ok (location, w', segments') := by
      simpa only [bind, Except.bind, hroll, Bool.false_eq_true, if_false] using happend
    rw [← henc] at hwrite
    obtain ⟨hlaid', hend', hassoc⟩ :=
      h.write hw hwrite hacc hencodes fun id hid => incarnationOf_ok hid
    refine ⟨_, _, _, _, _, hlaid', hend', ?_, .inl hassoc⟩
    simp

end

@[simp] theorem survivors_append (events : List Event) (record : LogRecord) :
    survivors (events ++ [.append record]) = survivors events ++ [record] := by
  unfold survivors
  rw [foldl_concat]

@[simp] theorem survivors_crash (events : List Event) (newest keep : ℕ) :
    survivors (events ++ [.crash newest keep]) = (survivors events).filter (survives newest keep) := by
  unfold survivors
  rw [foldl_concat]

@[simp] theorem survivors_reopen (events : List Event) :
    survivors (events ++ [.reopen]) = survivors events := by
  unfold survivors
  rw [foldl_concat]

/-- What holds of a shard after any run. Before the first opening it has no segments. -/
structure Inv (codec : Codec) (digest : ContentDigest) (events : List Event) (s : Shard) : Prop where
  layout : (s.segments = [] ∧ survivors events = [] ∧ s.writer = none) ∨
    ∃ older newest headerLen groups late tail,
      Laid codec s.segments older newest headerLen groups late tail ∧
      groups.flatten ++ late = survivors events ∧
      ∀ w ∈ s.writer, tail = [] ∧ w.AtEnd newest
  accepted : ∀ r ∈ survivors events, r.payload.acceptedAt.isSome
  consistent : Consistent (survivors events)
  reserve : ∀ w ∈ s.writer, ∀ a ∈ w.association, ∀ r ∈ survivors events, ∀ (target id : String),
    r.Names target id → a.reserve target = id
  state : s.writer.isSome → ∀ now, s.state.asStored =
    (survivors events).foldl (replay digest now) default

theorem inv_empty : Inv codec digest [] empty where
  layout := .inl ⟨rfl, rfl, rfl⟩
  accepted := by simp [survivors]
  consistent := by simp [survivors, Consistent]
  reserve := by simp [empty]
  state := by simp [empty]

variable {location : Location}

theorem LogRecord.Names.of_incarnationOf
    (h : Names ⟨payload, incarnationOf association payload, location⟩ target id) :
    ∃ a ∈ association, a.reserve target = id := by
  obtain ⟨entry, hentry, htgt, hid⟩ := h
  cases association with
  | none => simp [incarnationOf] at hid
  | some a =>
    have hentry : payload.entry = some entry := by simpa using hentry
    have hid : a.reserve entry.target = id := by simpa [incarnationOf, hentry] using hid
    exact ⟨a, rfl, htgt ▸ hid⟩

variable {events : List Event} {s t : Shard} {event : Event}

theorem Inv.append (h : Inv codec digest events s) {w w' : Writer} {aged : Bool}
    (hw : s.writer = some w) (hacc : payload.acceptedAt.isSome)
    (happend : w.append codec aged s.segments payload = .ok (location, w', segments)) :
    Inv codec digest (events ++ [.append ⟨payload, incarnationOf w.association payload, location⟩])
      ⟨segments, some w', s.state.live digest now
        ⟨payload, incarnationOf w.association payload, location⟩⟩ := by
  obtain ⟨-, -, hnone⟩ | ⟨older, newest, headerLen, groups, late, tail, hlaid, hrecs, hend⟩ :=
    h.layout
  · rw [hw] at hnone
    cases hnone
  obtain ⟨rfl, hwend⟩ := hend w hw
  obtain ⟨older', newest', headerLen', groups', late', hlaid', hend', hrecs', hassoc⟩ :=
    hlaid.append hwend happend hacc
  -- The association may have noted a new head, but hands out the same incarnations.
  have hreserve : ∀ a' ∈ w'.association, ∃ a ∈ w.association, a'.reserve = a.reserve := by
    intro a' ha'
    rcases hassoc with hsame | hhead
    · exact ⟨a', by rwa [← hsame], rfl⟩
    · rw [hhead, recordHead, Option.mem_map] at ha'
      obtain ⟨a, ha, rfl⟩ := ha'
      exact ⟨a, ha, rfl⟩
  constructor
  · right
    refine ⟨older', newest', headerLen', groups', late', [], hlaid', ?_, ?_⟩
    · rw [survivors_append, hrecs', hrecs]
    · intro w'' hw''
      obtain rfl : w' = w'' := by simpa using hw''
      exact ⟨rfl, hend'⟩
  · intro r hr
    rw [survivors_append, mem_append, mem_singleton] at hr
    rcases hr with hr | rfl
    · exact h.accepted r hr
    · exact hacc
  · rw [survivors_append]
    apply h.consistent.concat
    intro r' hr' target id id' hnames' hnames
    obtain ⟨a, ha, hid⟩ := hnames.of_incarnationOf
    rw [← hid, ← h.reserve w hw a ha r' hr' target id' hnames']
  · intro w'' hw'' a' ha' r hr target id hnames
    obtain rfl : w' = w'' := by simpa using hw''
    obtain ⟨a, ha, hsame⟩ := hreserve a' ha'
    rw [hsame]
    rw [survivors_append, mem_append, mem_singleton] at hr
    rcases hr with hr | rfl
    · exact h.reserve w hw a ha r hr target id hnames
    · obtain ⟨b, hb, hid⟩ := hnames.of_incarnationOf
      rw [mem_unique ha hb, hid]
  · intro _ now'
    have hstate := h.state (by simp [hw]) now'
    rw [survivors_append, foldl_concat, ← hstate]
    rw [asStored_live]
    apply replay_of_accepted
    · rw [hstate]
      exact accepted_foldl_replay digest accepted_default h.accepted
    · exact hacc

theorem Inv.laid (h : Inv codec digest events s) {header : ℕ × Option (String × ℕ × ℕ)}
    (hsegs : s.segments = older ++ [newest]) (hhdr : readHeader newest.bytes = .ok header) :
    ∃ groups late tail, Laid codec s.segments older newest header.1 groups late tail ∧
      groups.flatten ++ late = survivors events := by
  obtain ⟨hnil, -, -⟩ | ⟨older', segment, headerLen, groups, late, tail, hlaid, hrecs, -⟩ := h.layout
  · simp [hnil] at hsegs
  obtain ⟨rfl, hnewest⟩ := append_inj' (hsegs.symm.trans hlaid.segments_eq) rfl
  obtain rfl : newest = segment := by simpa using hnewest
  obtain ⟨info, hread⟩ := hlaid.newest.readHeader
  have hlen : headerLen = header.1 := by
    rw [hhdr] at hread
    rw [ok.inj hread]
  exact ⟨groups, late, tail, hlen ▸ hlaid, hrecs⟩

variable {keep : ℕ}

theorem Inv.crash (h : Inv codec digest events s) {segment : Segment}
    {header : ℕ × Option (String × ℕ × ℕ)} (hsegs : s.segments = older ++ [segment])
    (hhdr : readHeader segment.bytes = .ok header) (hkeep : header.1 ≤ keep) :
    Inv codec digest (events ++ [.crash segment.id keep])
      ⟨cutNewest keep s.segments, none, default⟩ := by
  obtain ⟨groups, late, tail, hlaid, hrecs⟩ := h.laid hsegs hhdr
  obtain ⟨tail', hlaid', hsurvive⟩ := hlaid.crash hkeep
  have hsub : ∀ r ∈ survivors (events ++ [.crash segment.id keep]), r ∈ survivors events := by
    intro r hr
    rw [survivors_crash] at hr
    exact mem_of_mem_filter hr
  constructor
  · right
    refine ⟨_, _, _, _, _, _, hlaid', ?_, by simp⟩
    rw [survivors_crash, ← hrecs, hsurvive]
  · exact fun r hr => h.accepted r (hsub r hr)
  · exact h.consistent.of_subset hsub
  · simp
  · simp

/-- What recovery leaves: the older segments, and the newest one with its whole records only. -/
theorem Laid.trim {tail : Bytes} (h : Laid codec segments older newest headerLen groups late tail) :
    Laid codec (older ++ [⟨newest.id, newest.bytes.take
        (headerLen + (late.flatMap (chunk codec)).length)⟩]) older
      ⟨newest.id, newest.bytes.take (headerLen + (late.flatMap (chunk codec)).length)⟩
      headerLen groups late [] := by
  obtain ⟨hd, hok, hlen, hbytes⟩ := h.newest.bytes
  constructor
  · rfl
  · exact h.ascending
  · exact h.older
  · refine ⟨⟨hd, hok, hlen, ?_⟩, h.newest.contiguous, h.newest.logged⟩
    rw [hbytes, ← append_assoc, take_left' (by rw [length_append, hlen]), append_nil]
  · exact .inl rfl

theorem Laid.stop_pos {tail : Bytes} (h : Laid codec segments older newest headerLen groups late tail) :
    0 < headerLen + (late.flatMap (chunk codec)).length := by
  obtain ⟨hd, hok, hlen, -⟩ := h.newest.bytes
  have hle := hok.le_length
  omega

theorem Laid.openAssociated (h : Laid codec segments older newest headerLen groups late [])
    {offset : ℕ} (hoffset : 0 < offset) (segmentBytes : ℕ) (association : Option Association) :
    ∃ w, Writer.openAssociated segments newest.id offset segmentBytes association =
        .ok (w, segments) ∧ w.AtEnd newest ∧ w.segmentBytes = segmentBytes ∧
      w.association = recordHead association newest.id := by
  have hopen : writeTo segments newest.id [] = segments := by
    rw [h.segments_eq, writeTo_concat h.ascending, append_nil]
  have hbytes : bytesOf segments newest.id = newest.bytes := by
    rw [h.segments_eq, bytesOf_concat h.ascending]
  obtain ⟨info, hread⟩ := h.newest.readHeader
  refine ⟨⟨segmentBytes, newest.id, newest.bytes.length, headerLen,
    recordHead association newest.id⟩, ?_, ⟨rfl, rfl⟩, rfl, rfl⟩
  unfold Writer.openAssociated
  rw [if_neg (fun hfresh => hoffset.ne' hfresh.1), hopen]
  dsimp only
  rw [hbytes, hread]
  rfl

theorem openAssociated_nil (segmentBytes : ℕ) (association : Option Association) :
    Writer.openAssociated [] 0 0 segmentBytes association =
      .ok (⟨segmentBytes, 0, (header association 0).length, (header association 0).length,
        recordHead association 0⟩, [⟨0, header association 0⟩]) := by
  have hcreate : writeTo [] 0 (header association 0) = [⟨0, header association 0⟩] := by
    simp [writeTo]
  have hbytes : bytesOf [⟨0, header association 0⟩] 0 = header association 0 := by simp [bytesOf]
  obtain ⟨info, hread⟩ := readHeader_append (headerOk_header association 0) []
  rw [append_nil] at hread
  unfold Writer.openAssociated
  rw [if_pos ⟨rfl, by simp [bytesOf]⟩, hcreate]
  dsimp only
  rw [hbytes, hread]
  rfl

section
variable (h : Inv codec digest events s)
include h

/-- Recovered projection of the surviving records. -/
theorem Inv.recovered_state (now now' : ℤ) :
    (survivors events).foldl (reread digest now) default =
      (liveProjection digest now' (survivors events)).asStored := by
  rw [foldl_reread_eq_replay digest now h.consistent, asStored_liveProjection]
  exact foldl_replay_of_accepted digest now now' accepted_default h.accepted

theorem Inv.recovered_asStored (now now' : ℤ) :
    ((survivors events).foldl (reread digest now) default).asStored =
      (survivors events).foldl (replay digest now') default := by
  have hfold : ∀ (records : List LogRecord) (s : State),
      (records.foldl (replay digest now) s).asStored =
        records.foldl (replay digest now) s.asStored := by
    intro records s
    exact (foldl_hom asStored fun s r => (asStored_replay digest s r).symm).symm
  rw [foldl_reread_eq_replay digest now h.consistent, hfold, asStored_default]
  exact foldl_replay_of_accepted digest now now' accepted_default h.accepted

/-- An association that agrees with the recovered projection agrees with every record. -/
theorem Inv.reserve_of_agrees (hagrees : Agrees association ((survivors events).foldl
    (reread digest now) default)) {segment : ℕ} :
    ∀ a ∈ recordHead association segment, ∀ r ∈ survivors events, ∀ (target id : String),
      r.Names target id → a.reserve target = id := by
  intro a ha r hr target id hnames
  rw [recordHead, Option.mem_map] at ha
  obtain ⟨a', ha', rfl⟩ := ha
  apply hagrees a' ha' target id
  rw [foldl_reread_eq_replay digest now h.consistent,
    getElem?_incarnations_foldl digest now h.consistent]
  exact ⟨r, hr, hnames⟩

end

variable {recovered : Recovery}

section
variable (h : Inv codec digest events s)
include h

theorem Inv.reopen {w : Writer} {segmentBytes : ℕ}
    (hrecover : recoverRouterWalDirectory codec digest now s.segments = .ok recovered)
    (hagrees : Agrees association recovered.state)
    (hopen : Writer.openAssociated recovered.segments (recovered.lastSegmentId.getD 0)
      recovered.currentOffset segmentBytes association = .ok (w, segments)) :
    Inv codec digest (events ++ [.reopen]) ⟨segments, some w, recovered.state⟩ := by
  obtain ⟨hnil, hnone, -⟩ | ⟨older, newest, headerLen, groups, late, tail, hlaid, hrecs, -⟩ :=
    h.layout
  · rw [hnil] at hrecover
    cases hrecover
    rw [show ((none : Option ℕ).getD 0) = 0 from rfl, openAssociated_nil] at hopen
    obtain ⟨rfl, rfl⟩ : _ = w ∧ _ = segments := by simpa using hopen
    constructor
    · right
      refine ⟨[], ⟨0, header association 0⟩, (header association 0).length, [], [], [],
        ⟨rfl, by simp, .nil, segmentHolds_header _ _, .inl rfl⟩, ?_, ?_⟩
      · rw [survivors_reopen, hnone]
        rfl
      · intro w hw
        cases hw
        exact ⟨rfl, rfl, rfl⟩
    · simp [hnone]
    · simp [hnone, Consistent]
    · simp [hnone]
    · intro _ now'
      rw [survivors_reopen, hnone, foldl_nil]
      exact asStored_default
  · rw [hlaid.recover, hrecs] at hrecover
    cases hrecover
    obtain ⟨w', hopen', hend, -, hassoc⟩ :=
      hlaid.trim.openAssociated hlaid.stop_pos segmentBytes association
    obtain ⟨rfl, rfl⟩ := Prod.mk.inj (ok.inj (hopen'.symm.trans hopen))
    constructor
    · right
      refine ⟨_, _, _, _, _, _, hlaid.trim, ?_, ?_⟩
      · rw [survivors_reopen, hrecs]
      · intro w'' hw''
        obtain rfl : w' = w'' := by simpa using hw''
        exact ⟨rfl, hend⟩
    · simpa using h.accepted
    · simpa using h.consistent
    · intro w'' hw'' a ha r hr target id hnames
      obtain rfl : w' = w'' := by simpa using hw''
      rw [hassoc] at ha
      rw [survivors_reopen] at hr
      exact h.reserve_of_agrees hagrees a ha r hr target id hnames
    · intro _ now'
      rw [survivors_reopen]
      exact h.recovered_asStored now now'

/-- A recovered shard opens under any association that agrees with its log. -/
theorem Inv.exists_reopen (hwriter : s.writer = none) (hne : s.segments ≠ [])
    (hrecover : recoverRouterWalDirectory codec digest now s.segments = .ok recovered)
    (hagrees : Agrees association recovered.state) (segmentBytes : ℕ) :
    ∃ w, Step codec digest s .reopen ⟨recovered.segments, some w, recovered.state⟩ ∧
      w.segmentBytes = segmentBytes ∧
      w.association = recordHead association (recovered.lastSegmentId.getD 0) := by
  obtain ⟨hnil, -, -⟩ | ⟨older, newest, headerLen, groups, late, tail, hlaid, -, -⟩ := h.layout
  · exact absurd hnil hne
  have hres := hrecover
  rw [hlaid.recover] at hres
  cases hres
  obtain ⟨w, hopen, -, hbytes, hassoc⟩ :=
    hlaid.trim.openAssociated hlaid.stop_pos segmentBytes association
  exact ⟨w, .reopen now segmentBytes hwriter hrecover hagrees hopen, hbytes, hassoc⟩

theorem Inv.step (hstep : Step codec digest s event t) : Inv codec digest (events ++ [event]) t := by
  cases hstep with
  | append now aged hw hacc happend => exact h.append hw hacc happend
  | crash keep hsegs hhdr hkeep => exact h.crash hsegs hhdr hkeep
  | reopen now segmentBytes hw hrecover hagrees hopen => exact h.reopen hrecover hagrees hopen

end

theorem inv_of_run (hrun : Run (Step codec digest) empty events s) : Inv codec digest events s :=
  hrun.invariant inv_empty fun _ _ _ _ _ h hstep => h.step hstep

theorem survivors_append_map (events : List Event) (more : List LogRecord) :
    survivors (events ++ more.map .append) = survivors events ++ more := by
  induction more using List.reverseRecOn with
  | nil => simp
  | append_singleton more r ih =>
    rw [map_append, ← append_assoc]
    show survivors (_ ++ [Event.append r]) = _
    rw [survivors_append, ih, append_assoc]

/-- Recovery of a crashed shard, in terms of the segment before it was cut. -/
theorem Inv.recover_cut {header : ℕ × Option (String × ℕ × ℕ)} (h : Inv codec digest events s)
    (hsegs : s.segments = older ++ [newest]) (hhdr : readHeader newest.bytes = .ok header)
    (hkeep : header.1 ≤ keep) (now now' : ℤ) :
    recoverRouterWalDirectory codec digest now (cutNewest keep s.segments) =
      .ok ⟨older ++ [⟨newest.id, newest.bytes.take (writtenEnd header.1 newest.id
          (survivors (events ++ [.crash newest.id keep])))⟩],
        (liveProjection digest now' (survivors (events ++ [.crash newest.id keep]))).asStored,
        some newest.id,
        writtenEnd header.1 newest.id (survivors (events ++ [.crash newest.id keep]))⟩ := by
  have hcrashed := h.crash hsegs hhdr hkeep
  obtain ⟨groups, late, tail, hlaid, hrecs⟩ := h.laid hsegs hhdr
  obtain ⟨tail', hlaid', hsurvive⟩ := hlaid.crash hkeep
  have hrecs' : groups.flatten ++ late.filter (fun r => r.stop ≤ keep) =
      survivors (events ++ [.crash newest.id keep]) := by
    rw [survivors_crash, ← hrecs, hsurvive]
  have hstop := hlaid'.writtenEnd_eq
  rw [hrecs'] at hstop
  have hwithin : header.1 +
      ((late.filter fun r => r.stop ≤ keep).flatMap (chunk codec)).length ≤ keep := by
    have hcut := hlaid'.newest.length_bytes
    rw [length_take] at hcut
    omega
  rw [hlaid'.recover, hrecs', hcrashed.recovered_state now now', hstop]
  rw [take_take, min_eq_left hwithin]

/-- After any run of appends, crashes and reopenings, a crash that leaves the newest segment's header is
recovered from: whole records are applied in order, the segment is cut behind them, and the projection is
that of a process that logged them, with the flag as stored. Later appends add to the same list. -/
theorem recovery_after_crash (hrun : Run (Step codec digest) empty events s)
    {older : List Segment} {newest : Segment} {header : ℕ × Option (String × ℕ × ℕ)} {keep : ℕ}
    (hsegs : s.segments = older ++ [newest]) (hhdr : readHeader newest.bytes = .ok header)
    (hkeep : header.1 ≤ keep) (now now' : ℤ) :
    let records := survivors (events ++ [.crash newest.id keep])
    let stop := writtenEnd header.1 newest.id records
    records = (survivors events).filter (survives newest.id keep) ∧
      recoverRouterWalDirectory codec digest now (cutNewest keep s.segments) =
        .ok ⟨older ++ [⟨newest.id, newest.bytes.take stop⟩],
          (liveProjection digest now' records).asStored, some newest.id, stop⟩ ∧
      (∀ (association : Option Association) (segmentBytes : ℕ),
        Agrees association (liveProjection digest now' records) →
        ∃ w, Step codec digest ⟨cutNewest keep s.segments, none, default⟩ .reopen
            ⟨older ++ [⟨newest.id, newest.bytes.take stop⟩], some w,
              (liveProjection digest now' records).asStored⟩ ∧
          w.segmentBytes = segmentBytes ∧ w.association = recordHead association newest.id) ∧
      (∀ more : List LogRecord,
        survivors (events ++ [.crash newest.id keep, .reopen] ++ more.map .append) =
          records ++ more) ∧
      (s.writer.isSome →
        s.state.asStored = (liveProjection digest now' (survivors events)).asStored) := by
  have hinv := inv_of_run hrun
  have hcrashed := hinv.crash hsegs hhdr hkeep
  have hrecover := hinv.recover_cut hsegs hhdr hkeep now now'
  refine ⟨survivors_crash _ _ _, hrecover, ?_, ?_, ?_⟩
  · intro association segmentBytes hagrees
    have hne : cutNewest keep s.segments ≠ [] := by
      rw [cutNewest, hsegs, getLast?_concat]
      simp
    exact hcrashed.exists_reopen rfl hne hrecover hagrees segmentBytes
  · intro more
    rw [survivors_append_map, append_cons, survivors_reopen]
  · intro hwriter
    rw [hinv.state hwriter now', asStored_liveProjection]

/-- Codec of finitely many records, each stored as its place in a table. -/
def tableCodec (table : List StoredPayload) : Codec where
  toAllocvec stored :=
    match table.findIdx? (· == stored) with
    | some i => .ok (List.replicate i 0)
    | none => .error "not in the table"
  fromBytes bytes :=
    match table[bytes.length]? with
    | some stored => .ok stored
    | none => .error "not in the table"
  toVec _ := .error "no members"
  fromSlice _ := .error "not in the table"
  fromBytes_toAllocvec := by
    intro stored bytes h
    cases hidx : table.findIdx? (· == stored) with
    | none => simp [hidx] at h
    | some i =>
      obtain rfl : List.replicate i 0 = bytes := by simpa [hidx] using h
      obtain ⟨hi, hstored, -⟩ := findIdx?_eq_some_iff_getElem.mp hidx
      have heq : table[i] = stored := by simpa using hstored
      simp [hi, heq]
  fromSlice_toVec := by simp

def receipt : Payload := ⟨"k", 9, none, some 0, none⟩

def delivery : LocalDelivery := ⟨"r", "e", "t"⟩

def delivered : Payload := ⟨"d", 9, none, some 0, some delivery⟩

def twoCodec : Codec :=
  tableCodec [.submissionAccepted "" 0 0 none, .submissionAccepted "k" 9 0 none,
    .senderAssigned (.submissionClassified "d" 9 0 none delivery)]

def noDigest : ContentDigest := fun _ => .error "no digest"

/-- The second record is appended an hour later and opens a new segment. -/
def twoSegments : List Event :=
  [.reopen, .append ⟨receipt, none, ⟨0, 22, 1⟩⟩, .append ⟨delivered, none, ⟨1, 22, 2⟩⟩]

theorem agrees_none (s : State) : Agrees none s := by
  intro a ha
  cases ha

theorem exists_run_twoSegments :
    ∃ s older newest header, Run (Step twoCodec noDigest) empty twoSegments s ∧
      s.segments = older ++ [newest] ∧ readHeader newest.bytes = .ok header ∧ newest.id = 1 ∧
      header.1 = 22 := by
  have hrun : ∃ s, Run (Step twoCodec noDigest) empty twoSegments s ∧ s.segments =
      [⟨0, routerWalMagic ++ frame crc32 [0]⟩, ⟨1, routerWalMagic ++ frame crc32 [0, 0]⟩] := by
    apply Exists.intro
    constructor
    · exact .cons (.reopen 0 100 rfl rfl (agrees_none _) (openAssociated_nil 100 none)) <|
        .cons (.append (w := ⟨100, 0, 22, 22, none⟩) 0 false rfl rfl rfl) <|
        .cons (.append (w := ⟨100, 0, 31, 22, none⟩) 0 true rfl rfl rfl) .nil
    · rfl
  obtain ⟨s, hrun, hsegs⟩ := hrun
  exact ⟨s, [⟨0, routerWalMagic ++ frame crc32 [0]⟩], ⟨1, routerWalMagic ++ frame crc32 [0, 0]⟩,
    (22, none), hrun, hsegs, by rfl, rfl, rfl⟩

/-- The crash falls into the second record: its segment keeps the header, the first is recovered. -/
theorem recovery_after_crash_twoSegments :
    ∃ s older newest header, Run (Step twoCodec noDigest) empty twoSegments s ∧
      s.segments = older ++ [newest] ∧ readHeader newest.bytes = .ok header ∧ header.1 ≤ 26 ∧
      recoverRouterWalDirectory twoCodec noDigest 5 (cutNewest 26 s.segments) =
        .ok ⟨older ++ [⟨1, newest.bytes.take 22⟩],
          (liveProjection noDigest 0 [⟨receipt, none, ⟨0, 22, 1⟩⟩]).asStored, some 1, 22⟩ := by
  obtain ⟨s, older, newest, header, hrun, hsegs, hhdr, hid, hlen⟩ := exists_run_twoSegments
  have hkeep : header.1 ≤ 26 := by omega
  obtain ⟨-, hrecover, -⟩ := recovery_after_crash hrun hsegs hhdr hkeep 5 0
  have hrecs : survivors (twoSegments ++ [.crash 1 26]) = [⟨receipt, none, ⟨0, 22, 1⟩⟩] := by
    decide +kernel
  have hstop : writtenEnd 22 1 [⟨receipt, none, ⟨0, 22, 1⟩⟩] = 22 := by decide +kernel
  refine ⟨s, older, newest, header, hrun, hsegs, hhdr, hkeep, ?_⟩
  rw [hid, hlen, hrecs, hstop] at hrecover
  exact hrecover

/-- Recovery can run again at any time, on the files as they were or as it left them, to the same end. -/
theorem recovery_repeatable (hrun : Run (Step codec digest) empty events s) (now now' : ℤ) :
    ∃ recovered, recoverRouterWalDirectory codec digest now s.segments = .ok recovered ∧
      recoverRouterWalDirectory codec digest now' s.segments = .ok recovered ∧
      recoverRouterWalDirectory codec digest now' recovered.segments = .ok recovered := by
  have hinv := inv_of_run hrun
  obtain ⟨hnil, -, -⟩ | ⟨older, newest, headerLen, groups, late, tail, hlaid, hrecs, -⟩ := hinv.layout
  · rw [hnil]
    exact ⟨_, rfl, rfl, rfl⟩
  · have hstate := (hinv.recovered_state now now).trans (hinv.recovered_state now' now).symm
    rw [← hrecs] at hstate
    refine ⟨_, hlaid.recover, ?_, ?_⟩
    · rw [hlaid.recover, hstate]
    · rw [hlaid.trim.recover, hstate, take_take, min_self]

theorem recovery_repeatable_twoSegments : ∃ s recovered, Run (Step twoCodec noDigest) empty
    (twoSegments ++ [.crash 1 26]) s ∧
    recoverRouterWalDirectory twoCodec noDigest 0 s.segments = .ok recovered ∧
    recoverRouterWalDirectory twoCodec noDigest 5 recovered.segments = .ok recovered := by
  obtain ⟨s, older, newest, header, hrun, hsegs, hhdr, hid, hlen⟩ := exists_run_twoSegments
  have hcrash := hrun.snoc (.crash 26 hsegs hhdr (by omega))
  obtain ⟨recovered, hfirst, -, hagain⟩ := recovery_repeatable hcrash 0 5
  exact ⟨_, recovered, hid ▸ hcrash, hfirst, hagain⟩

/-- A record without a local delivery is flagged as sender-assigned by the process that logged it, and
not by the one that reads it back. -/
theorem recovered_state_ne_live :
    ¬∀ (codec : Codec) (digest : ContentDigest) (events : List Event)
      (s : Shard) (older : List Segment) (newest : Segment) (header : ℕ × Option (String × ℕ × ℕ))
      (keep : ℕ) (now : ℤ) (recovered : Recovery),
      Run (Step codec digest) empty events s → s.segments = older ++ [newest] →
      readHeader newest.bytes = .ok header → header.1 ≤ keep →
      recoverRouterWalDirectory codec digest now (cutNewest keep s.segments) = .ok recovered →
      recovered.state =
        liveProjection digest now (survivors (events ++ [.crash newest.id keep])) := by
  intro h
  obtain ⟨s, older, newest, header, hrun, hsegs, hhdr, hid, hlen⟩ := exists_run_twoSegments
  have hkeep : header.1 ≤ 26 := by omega
  have hrecover := (inv_of_run hrun).recover_cut hsegs hhdr hkeep 0 0
  have heq := h _ _ _ _ _ _ _ _ _ _ hrun hsegs hhdr hkeep hrecover
  rw [hid] at heq
  have hstored : ((liveProjection noDigest 0 (survivors
      (twoSegments ++ [.crash 1 26]))).asStored.submissions["k"]?).map
      SubmissionRecord.senderAssigned = some false := by decide +kernel
  have hlive : ((liveProjection noDigest 0 (survivors (twoSegments ++ [.crash 1 26]))).submissions["k"]?).map
      SubmissionRecord.senderAssigned = some true := by decide +kernel
  change (liveProjection noDigest 0 (survivors (twoSegments ++ [.crash 1 26]))).asStored = _ at heq
  rw [heq, hlive] at hstored
  cases hstored

end Ramflux.RouterWal
