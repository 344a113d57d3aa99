import Ramflux.Node.NotifyWal
import Ramflux.Node.RouterWalRecovery

/-! Appends of the wake log. Recovery stops at the first record that does not read, so what a failed
append leaves decides over everything behind it. -/
namespace Ramflux.NotifyWal
open Fallible List Except
open RouterWal (WalError Location Segment crc32 writeTo writeTo_concat writeTo_of_new)

variable {codec : Codec}

theorem loadExt_storeExt {ext : Ext} {bytes : Option Bytes} (h : codec.storeExt ext = .ok bytes) :
    codec.loadExt bytes = .ok ext := by
  unfold Codec.storeExt at h
  split_ifs at h with hempty
  · cases h
    rw [Std.ExtTreeMap.isEmpty_iff.mp hempty]
    rfl
  · obtain ⟨vec, hvec, rfl⟩ := map_eq_ok.mp (mapError_eq_ok.mp h)
    change (codec.fromSlice vec).mapError _ = _
    rw [codec.fromSlice_toVec ext vec hvec]
    rfl

theorem decode_encode {payload : Payload} {encoded : Bytes} (h : codec.encode payload = .ok encoded) :
    codec.decode encoded = .ok payload := by
  obtain ⟨stored, hstore, h⟩ := bind_eq_ok.mp h
  have hstored := codec.fromBytes_toAllocvec stored encoded (mapError_eq_ok.mp h)
  refine bind_eq_ok.mpr ⟨stored, ?_, ?_⟩
  · rw [hstored]
    rfl
  · cases payload with
    | queueEntry entry =>
      obtain ⟨storedEntry, hentry, rfl⟩ := map_eq_ok.mp hstore
      obtain ⟨wake, hwake, hentry⟩ := bind_eq_ok.mp hentry
      obtain ⟨ext, hext, hwake⟩ := bind_eq_ok.mp hwake
      cases hwake
      cases hentry
      refine map_eq_ok.mpr ⟨entry, bind_eq_ok.mpr ⟨entry.wake, ?_, rfl⟩, rfl⟩
      exact bind_eq_ok.mpr ⟨entry.wake.ext, loadExt_storeExt hext, rfl⟩
    | rawWake raw | providerAttempt attempt | delivered queueId =>
      cases hstore
      rfl

abbrev Line := Payload × Bytes

def Fits (codec : Codec) (line : Line) : Prop := codec.encode line.1 = .ok line.2 ∧ line.2.length ≤ u32Max

def chunk (line : Line) : Bytes := frame crc32 line.2

variable {line : Line} {lines : List Line}

theorem readRecord_chunk (h : Fits codec line) (rest : Bytes) :
    readRecord codec (chunk line ++ rest) = .ok (some (line.1, line.2.length)) := by
  have hlen : line.2.length < 2 ^ 32 := Nat.lt_of_le_pred (by decide) h.2
  unfold readRecord chunk
  rw [readFrame_frame_append hlen]
  exact bind_eq_ok.mpr ⟨line.1, decode_encode h.1, rfl⟩

def located (segmentId : ℕ) : ℕ → List Line → List RecoveredRecord
  | _, [] => []
  | offset, line :: lines =>
    ⟨line.1, ⟨segmentId, offset, line.2.length⟩⟩ :: located segmentId (offset + (8 + line.2.length)) lines

theorem map_payload_located (segmentId offset : ℕ) (lines : List Line) :
    (located segmentId offset lines).map (·.payload) = lines.map (·.1) := by
  induction lines generalizing offset with
  | nil => rfl
  | cons line lines ih =>
    rw [located, map_cons, ih, map_cons]

theorem readRecords_lines {segmentId fuel offset : ℕ} {lines : List Line}
    (h : ∀ line ∈ lines, Fits codec line) (hfuel : (lines.flatMap chunk).length < fuel) :
    readRecords codec segmentId fuel offset (lines.flatMap chunk) =
      .ok (located segmentId offset lines, offset + (lines.flatMap chunk).length) := by
  induction lines generalizing fuel offset with
  | nil =>
    cases fuel with
    | zero | succ fuel => rfl
  | cons line lines ih =>
    have hfits := h line (.head _)
    have hlen : (chunk line).length = 8 + line.2.length := length_frame line.2
    rw [flatMap_cons, length_append, hlen] at hfuel
    cases fuel with
    | zero => omega
    | succ fuel =>
      refine bind_eq_ok.mpr ⟨_, readRecord_chunk hfits (lines.flatMap chunk), ?_⟩
      have hdrop : (chunk line ++ lines.flatMap chunk).drop (8 + line.2.length) = lines.flatMap chunk :=
        drop_left' hlen
      have hrest := @ih fuel (offset + (8 + line.2.length)) (fun other hother => h other (.tail _ hother))
        (by omega)
      refine bind_eq_ok.mpr ⟨_, by rw [flatMap_cons, hdrop]; exact hrest, ?_⟩
      rw [flatMap_cons, length_append, hlen, ← Nat.add_assoc offset (8 + line.2.length)]
      rfl

abbrev Group := ℕ × List Line

variable {w : Writer} {older : List Group} {logged : List Payload}

def Group.segment (group : Group) : Segment := ⟨group.1, notifyWalMagic ++ group.2.flatMap chunk⟩

def Group.records (group : Group) : List RecoveredRecord :=
  located group.1 notifyWalMagic.length group.2

/-- Segments that hold whole lines and nothing else. -/
structure Holds (codec : Codec) (segments : List Segment) (groups : List Group) : Prop where
  segments : segments = groups.map Group.segment
  fits : ∀ group ∈ groups, ∀ line ∈ group.2, Fits codec line

theorem recoverSegment_segment {group : Group} (h : ∀ line ∈ group.2, Fits codec line) :
    recoverSegment codec group.segment =
      .ok (group.records, group.segment, group.segment.bytes.length) := by
  have hmagic : readMagic group.segment.bytes = .ok group.segment.bytes := by
    have hne : group.segment.bytes ≠ [] := append_ne_nil_of_left_ne_nil (by decide) _
    have htake : group.segment.bytes.take notifyWalMagic.length = notifyWalMagic := take_left' rfl
    unfold readMagic
    rw [if_neg hne, if_neg (not_not.mpr htake)]
  have hdrop : group.segment.bytes.drop notifyWalMagic.length = group.2.flatMap chunk := drop_left' rfl
  have hlen : group.segment.bytes.length = notifyWalMagic.length + (group.2.flatMap chunk).length :=
    length_append
  have hread := @readRecords_lines codec group.1 (group.segment.bytes.length + 1) notifyWalMagic.length
    group.2 h (by omega)
  refine bind_eq_ok.mpr ⟨_, hmagic, bind_eq_ok.mpr ⟨_, by rw [hdrop]; exact hread, ?_⟩⟩
  dsimp only
  rw [← hlen, take_length]
  rfl

theorem recoverNext_groups {groups : List Group} (h : ∀ group ∈ groups, ∀ line ∈ group.2, Fits codec line)
    (recovered : Recovery) : ∃ offset,
      (groups.map Group.segment).foldlM (recoverNext codec) recovered = .ok
        ⟨recovered.segments ++ groups.map Group.segment,
          recovered.records ++ groups.flatMap Group.records,
          (groups.getLast?.map (·.1)).or recovered.lastSegmentId, offset⟩ := by
  induction groups generalizing recovered with
  | nil =>
    refine ⟨recovered.currentOffset, ?_⟩
    rw [map_nil, flatMap_nil, append_nil, append_nil]
    rfl
  | cons group groups ih =>
    have hseg := recoverSegment_segment (h group (.head _))
    obtain ⟨offset, hrest⟩ := ih (fun other hother => h other (.tail _ hother))
      ⟨recovered.segments ++ [group.segment], recovered.records ++ group.records, some group.1,
        group.segment.bytes.length⟩
    have hlast : (groups.getLast?.map (·.1)).or (some group.1) =
        ((group :: groups).getLast?.map (·.1)).or recovered.lastSegmentId := by
      rw [getLast?_cons]
      cases groups.getLast? with
      | none | some last => rfl
    refine ⟨offset, bind_eq_ok.mpr ⟨_, bind_eq_ok.mpr ⟨_, hseg, rfl⟩, ?_⟩⟩
    refine hrest.trans ?_
    rw [hlast, map_cons, flatMap_cons, append_assoc, append_assoc]
    rfl

theorem Holds.recover {directory : Directory} {groups : List Group}
    (h : Holds codec directory.segments groups) : ∃ r, recoverNotifyWal codec directory = .ok r ∧
      r.segments = directory.segments ∧ r.records = groups.flatMap Group.records ∧
      r.lastSegmentId = groups.getLast?.map (·.1) := by
  obtain ⟨offset, hfold⟩ := recoverNext_groups h.fits ⟨[], [], none, 0⟩
  rw [← h.segments] at hfold
  exact ⟨_, hfold, rfl, rfl, Option.or_none⟩

def payloads (groups : List Group) : List Payload := groups.flatMap fun group => group.2.map (·.1)

theorem map_payload_records (groups : List Group) :
    (groups.flatMap Group.records).map (·.payload) = payloads groups := by
  rw [map_flatMap]
  exact congrArg (fun f => List.flatMap f groups) (funext fun group => map_payload_located _ _ _)

/-- A writer whose open segment is the newest of a directory of whole lines. -/
structure Writing (codec : Codec) (w : Writer) (older : List Group) (lines : List Line) : Prop where
  holds : Holds codec w.directory.segments (older ++ [(w.file, lines)])
  newest : ∀ group ∈ older, group.1 < w.file
  file_le : w.file ≤ w.segmentId

section
variable (h : Writing codec w older lines)
include h

theorem Writing.put (bytes : Bytes) : (w.put bytes).directory.segments =
    older.map Group.segment ++ [⟨w.file, (Group.segment (w.file, lines)).bytes ++ bytes⟩] := by
  have hsegs := h.holds.segments
  have hnewest : ∀ segment ∈ older.map Group.segment,
      segment.id < (Group.segment (w.file, lines)).id := by
    intro segment hseg
    obtain ⟨group, hgroup, rfl⟩ := mem_map.mp hseg
    exact h.newest group hgroup
  unfold Writer.put
  rw [hsegs, map_append]
  exact writeTo_concat hnewest bytes

theorem Writing.put_nil : Writing codec (w.put []) older lines := by
  refine ⟨⟨?_, h.holds.fits⟩, h.newest, h.file_le⟩
  rw [h.put, append_nil, map_append]
  rfl

theorem Writing.wrote (hline : Fits codec line) :
    Writing codec (w.wrote line.2) older (lines ++ [line]) := by
  refine ⟨⟨?_, fun group hgroup => ?_⟩, h.newest, h.file_le⟩
  · refine (h.put (frame crc32 line.2)).trans ?_
    rw [map_append]
    unfold Group.segment
    rw [map_singleton, flatMap_append, flatMap_singleton, append_assoc]
    rfl
  · obtain hgroup | hgroup := mem_append.mp hgroup
    · exact h.holds.fits group (mem_append_left _ hgroup)
    · rw [mem_singleton.mp hgroup]
      intro other hother
      obtain hother | hother := mem_append.mp hother
      · exact h.holds.fits _ (mem_append_right _ (.head _)) other hother
      · exact mem_singleton.mp hother ▸ hline

theorem Writing.rollSegment :
    Writing codec (w.rollSegment none).1 (older ++ [(w.file, lines)]) [] := by
  have hnewest : ∀ group ∈ older ++ [(w.file, lines)], group.1 < w.segmentId + 1 := by
    intro group hgroup
    have hfile := h.file_le
    obtain hgroup | hgroup := mem_append.mp hgroup
    · have hlt := h.newest group hgroup
      omega
    · rw [mem_singleton.mp hgroup]
      exact Nat.lt_succ_of_le hfile
  have hnew : ∀ segment ∈ w.directory.segments, segment.id < w.segmentId + 1 := by
    rw [h.holds.segments]
    intro segment hseg
    obtain ⟨group, hgroup, rfl⟩ := mem_map.mp hseg
    exact hnewest group hgroup
  refine ⟨⟨?_, fun group hgroup => ?_⟩, hnewest, le_rfl⟩
  · change writeTo w.directory.segments (w.segmentId + 1) notifyWalMagic = _
    have hmagic : Group.segment (w.segmentId + 1, []) = ⟨w.segmentId + 1, notifyWalMagic⟩ :=
      congrArg _ (append_nil _)
    rw [writeTo_of_new hnew, h.holds.segments, ← hmagic]
    exact (@List.map_append _ _ Group.segment (older ++ [(w.file, lines)]) [(w.segmentId + 1, [])]).symm
  · obtain hgroup | hgroup := mem_append.mp hgroup
    · exact h.holds.fits group hgroup
    · rw [mem_singleton.mp hgroup]
      exact fun line hline => absurd hline not_mem_nil

end

theorem payloads_concat (groups : List Group) (id : ℕ) (lines : List Line) :
    payloads (groups ++ [(id, lines)]) = payloads groups ++ lines.map (·.1) := by
  unfold payloads
  rw [flatMap_append, flatMap_singleton]

/-- A writer over a directory of whole lines whose payloads are the given ones. -/
def Logs (codec : Codec) (w : Writer) (logged : List Payload) : Prop :=
  ∃ older lines, Writing codec w older lines ∧ payloads (older ++ [(w.file, lines)]) = logged

/-- The new segment does not stay open without its header. -/
def RollFault.spares : RollFault → Bool
  | .sync | .openFile => true
  | .magic _ => false

theorem Logs.put_nil (h : Logs codec w logged) : Logs codec (w.put []) logged := by
  obtain ⟨older, lines, hwriting, hlogged⟩ := h
  exact ⟨older, lines, hwriting.put_nil, hlogged⟩

theorem Logs.rollSegment (h : Logs codec w logged) {fault : Option RollFault}
    (hfault : fault.all RollFault.spares) : Logs codec (w.rollSegment fault).1 logged := by
  obtain ⟨older, lines, hwriting, hlogged⟩ := h
  match fault with
  | none =>
    refine ⟨_, [], hwriting.rollSegment, ?_⟩
    rw [payloads_concat, map_nil, append_nil, hlogged]
  | some .sync => exact ⟨older, lines, hwriting, hlogged⟩
  | some .openFile =>
    exact ⟨older, lines, ⟨hwriting.holds, hwriting.newest, Nat.le_succ_of_le hwriting.file_le⟩, hlogged⟩
  | some (.magic written) => cases hfault

theorem Logs.ready (h : Logs codec w logged) (frameLen : ℕ) {fault : Option Fault}
    (hfault : ∀ found ∈ fault, found.roll.all RollFault.spares) :
    Logs codec (w.ready frameLen fault).1 logged := by
  unfold Writer.ready
  split_ifs
  · apply h.rollSegment
    cases fault with
    | none => rfl
    | some fault =>
      rw [Option.bind_some]
      split_ifs
      · exact hfault fault rfl
      · rfl
  · exact h

theorem Logs.wrote (h : Logs codec w logged)
    (hline : Fits codec line) : Logs codec (w.wrote line.2) (logged ++ [line.1]) := by
  obtain ⟨older, lines, hwriting, hlogged⟩ := h
  refine ⟨older, lines ++ [line], hwriting.wrote hline, ?_⟩
  rw [payloads_concat, map_append, ← append_assoc, ← payloads_concat older w.file, hlogged]
  rfl

/-- The fault falls between two records: what reached the files is a whole number of them. -/
def cutsWhole (codec : Codec) : List Payload → ℕ → Bool
  | [], _ => true
  | payload :: payloads, left =>
    match codec.encode payload with
    | .error _ => true
    | .ok encoded =>
      u32Max < encoded.length || left = 0 ||
        8 + encoded.length ≤ left && cutsWhole codec payloads (left - (8 + encoded.length))

/-- The fault strikes between two records, and not the header of a new segment. -/
def Fault.spares (codec : Codec) (payloads : List Payload) (fault : Fault) : Bool :=
  cutsWhole codec payloads fault.written && fault.roll.all RollFault.spares

/-- Inside a record such a fault takes nothing of it; behind it, it spares the rest. -/
theorem Fault.spares_cons {payload : Payload} {payloads : List Payload} {encoded : Bytes} {fault : Fault}
    (h : fault.spares codec (payload :: payloads)) (hencode : codec.encode payload = .ok encoded)
    (hlarge : ¬ u32Max < encoded.length) :
    if fault.written < 8 + encoded.length then fault.written = 0
    else { fault with written := fault.written - (8 + encoded.length) }.spares codec payloads := by
  obtain ⟨hcut, hroll⟩ := Bool.and_eq_true_iff.mp h
  unfold cutsWhole at hcut
  rw [hencode] at hcut
  simp only [Bool.or_eq_true, Bool.and_eq_true, decide_eq_true_eq] at hcut
  obtain (hlarge' | hzero) | ⟨hle, hrest⟩ := hcut
  · exact absurd hlarge' hlarge
  · rw [if_pos (by omega)]
    exact hzero
  · rw [if_neg (by omega)]
    exact Bool.and_eq_true_iff.mpr ⟨hrest, hroll⟩

/-- A batch whose fault spares the records leaves whole ones, all of them if it is acknowledged. -/
theorem Logs.appendBatch {w : Writer} {logged : List Payload} (h : Logs codec w logged)
    {payloads : List Payload} {fault : Option Fault} (hfault : ∀ found ∈ fault, found.spares codec payloads) :
    ∃ written, Logs codec (appendBatch codec w payloads fault).1 (logged ++ written) ∧
      ∀ locations, (appendBatch codec w payloads fault).2 = .ok locations → written = payloads := by
  induction payloads generalizing w logged fault with
  | nil =>
    refine ⟨[], ?_, fun _ _ => rfl⟩
    rw [append_nil]
    cases fault with
    | none | some left => exact h
  | cons payload payloads ih =>
    have hready := fun frameLen =>
      h.ready frameLen fun found hfound => (Bool.and_eq_true_iff.mp (hfault found hfound)).2
    unfold NotifyWal.appendBatch
    split
    · exact ⟨[], (append_nil logged).symm ▸ h, nofun⟩
    · next encoded hencode =>
      have hlen : (frame crc32 encoded).length = 8 + encoded.length := length_frame encoded
      specialize hready (8 + encoded.length)
      split
      · next hroll =>
        rw [hroll] at hready
        exact ⟨[], (append_nil logged).symm ▸ hready, nofun⟩
      · next hroll =>
        rw [hroll] at hready
        split_ifs with hlarge
        · exact ⟨[], (append_nil logged).symm ▸ hready, nofun⟩
        · have hspares := fun found hfound => Fault.spares_cons (hfault found hfound) hencode hlarge
          dsimp only
          rw [hlen]
          split
          · next found hfound =>
            obtain ⟨hmem, hlt⟩ := Option.filter_eq_some_iff.mp hfound
            have hzero := hspares found hmem
            rw [if_pos (of_decide_eq_true hlt)] at hzero
            rw [hzero]
            exact ⟨[], (append_nil logged).symm ▸ hready.put_nil, nofun⟩
          · next hnone =>
            have hfits : Fits codec (payload, encoded) := ⟨hencode, not_lt.mp hlarge⟩
            obtain ⟨written, hlogs, hacked⟩ := ih (hready.wrote hfits) fun found hfound => by
              obtain ⟨first, hfirst, rfl⟩ := Option.mem_map.mp hfound
              have hrest := hspares first hfirst
              rwa [if_neg fun hlt => Option.filter_eq_none_iff.mp hnone first hfirst (decide_eq_true hlt)] at hrest
            rw [append_assoc] at hlogs
            refine ⟨payload :: written, hlogs, fun locations hok => ?_⟩
            obtain ⟨rest, hok, -⟩ := map_eq_ok.mp hok
            rw [hacked rest hok]

/-- An append batch with the fault that strikes it, if any. -/
abbrev Batch := List Payload × Option Fault

def acked (codec : Codec) (w : Writer) (batch : Batch) : List Payload :=
  match (appendBatch codec w batch.1 batch.2).2 with
  | .ok _ => batch.1
  | .error _ => []

/-- Batches one after the other. A failed batch does not stop the writer. -/
def appendAll (codec : Codec) (w : Writer) : List Batch → Writer × List Payload
  | [] => (w, [])
  | batch :: batches =>
    let (last, rest) := appendAll codec (appendBatch codec w batch.1 batch.2).1 batches
    (last, acked codec w batch ++ rest)

theorem Logs.appendAll (h : Logs codec w logged)
    {batches : List Batch} (hfaults : ∀ batch ∈ batches, ∀ fault ∈ batch.2, fault.spares codec batch.1) :
    ∃ written, Logs codec (appendAll codec w batches).1 (logged ++ written) ∧
      (appendAll codec w batches).2.Sublist written := by
  induction batches generalizing w logged with
  | nil =>
    refine ⟨[], ?_, .refl _⟩
    rw [append_nil]
    exact h
  | cons batch batches ih =>
    obtain ⟨written, hlogs, hacked⟩ := h.appendBatch (hfaults batch (.head _))
    obtain ⟨rest, hlogs', hsub⟩ := ih hlogs fun other hother => hfaults other (.tail _ hother)
    rw [append_assoc] at hlogs'
    refine ⟨written ++ rest, hlogs', List.Sublist.append ?_ hsub⟩
    unfold acked
    cases hres : (NotifyWal.appendBatch codec w batch.1 batch.2).2 with
    | error e => exact nil_sublist _
    | ok locations =>
      rw [hacked locations hres]

def Writer.create (segmentBytes : ℕ) : Writer := .open ⟨[], []⟩ 0 0 (max segmentBytes (1024 * 1024))

theorem create_logs (segmentBytes : ℕ) : Logs codec (.create segmentBytes) [] := by
  refine ⟨[], [], ⟨⟨rfl, fun group hgroup => ?_⟩, nofun, le_rfl⟩, rfl⟩
  rw [mem_singleton.mp hgroup]
  exact fun line hline => absurd hline not_mem_nil

/-- Recovery finds all acknowledged appends, in order, if failed ones stop between two records and no
failed roll leaves a segment open without its header. -/
theorem acked_appends_recovered (codec : Codec) (segmentBytes : ℕ) (batches : List Batch)
    (hfaults : ∀ batch ∈ batches, ∀ fault ∈ batch.2, fault.spares codec batch.1) :
    ∃ r, recoverNotifyWal codec (appendAll codec (.create segmentBytes) batches).1.directory = .ok r ∧
      (appendAll codec (.create segmentBytes) batches).2.Sublist (r.records.map (·.payload)) := by
  obtain ⟨written, ⟨older, lines, hwriting, hlogged⟩, hsub⟩ :=
    (@create_logs codec segmentBytes).appendAll hfaults
  obtain ⟨r, hrecover, -, hrecs, -⟩ := hwriting.holds.recover
  refine ⟨r, hrecover, ?_⟩
  rw [hrecs, map_payload_records, hlogged]
  exact hsub

def bigWake : RawWake := ⟨"big", [], 0⟩

def smallWake : RawWake := ⟨"small", [], 0⟩

def pushAttempt : ProviderPushAttempt :=
  ⟨"big", "phone", .apns, "", "", .userContentNotification, .accept, 0, true, none⟩

def encodings : List (StoredPayload × Bytes) :=
  [(.rawWake bigWake, List.replicate 40 0), (.rawWake smallWake, [1]), (.providerAttempt pushAttempt, [2])]

/-- Codec of two wakes, one with a long and one with a short encoding, and an attempt. -/
def twoWakes : Codec where
  toAllocvec stored := (encodings.find? (·.1 = stored)).elim (.error "not in the table") (.ok ·.2)
  fromBytes bytes := (encodings.find? (·.2 = bytes)).elim (.error "not in the table") (.ok ·.1)
  toVec _ := .error "not in the table"
  fromSlice _ := .error "not in the table"
  fromBytes_toAllocvec stored bytes h := by
    cases hfind : encodings.find? (·.1 = stored) with
    | none =>
      rw [hfind] at h
      cases h
    | some found =>
      rw [hfind] at h
      cases h
      obtain rfl : found.1 = stored := by simpa using find?_some hfind
      have htable : ∀ e ∈ encodings, (encodings.find? (·.2 = e.2)).map (·.1) = some e.1 := by decide
      obtain ⟨e, he, hsame⟩ := Option.map_eq_some_iff.mp (htable found (mem_of_find?_eq_some hfind))
      rw [he, ← hsame]
      rfl
  fromSlice_toVec _ _ h := nomatch h

/-- The first batch fails after one record, where the next segment cannot be opened. -/
def fullDisk : List Batch :=
  [([.rawWake smallWake, .rawWake bigWake], some ⟨9, some .openFile⟩), ([.rawWake bigWake], none)]

theorem acked_appends_recovered_full :
    ∃ r, recoverNotifyWal twoWakes (appendAll twoWakes (.create 0) fullDisk).1.directory = .ok r ∧
      [Payload.rawWake bigWake].Sublist (r.records.map (·.payload)) := by
  obtain ⟨r, hrecover, hsub⟩ := acked_appends_recovered twoWakes 0 fullDisk (by decide +kernel)
  exact ⟨r, hrecover, hsub⟩

/-- A failed append that got as far as its header, and an acknowledged one behind it. -/
def tornHeader : List Batch := [([.rawWake bigWake], some { written := 8 }), ([.rawWake smallWake], none)]

/-- A failed append hides the acknowledged append behind it. -/
theorem acked_append_lost : (appendAll twoWakes (.create 0) tornHeader).2 = [.rawWake smallWake] ∧
    ∃ r, recoverNotifyWal twoWakes (appendAll twoWakes (.create 0) tornHeader).1.directory = .ok r ∧
      r.records = [] := by
  have hacked : (appendAll twoWakes (.create 0) tornHeader).2 = [.rawWake smallWake] := by
    decide +kernel
  have hrecs : ((recoverNotifyWal twoWakes
      (appendAll twoWakes (.create 0) tornHeader).1.directory).toOption.map (·.records)) = some [] := by
    decide +kernel
  generalize recoverNotifyWal twoWakes (appendAll twoWakes (.create 0) tornHeader).1.directory = result at hrecs ⊢
  cases result with
  | error e => cases hrecs
  | ok r => exact ⟨hacked, r, rfl, Option.some.inj hrecs⟩

end Ramflux.NotifyWal
