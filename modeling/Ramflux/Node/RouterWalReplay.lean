import Ramflux.Node.RouterWalState

/-! Payloads survive their conversions, and a segment replays to exactly its whole records. -/
namespace Ramflux.RouterWal
open List Except Fallible LogRecord
variable {codec : Codec}

theorem loadEnvelope_storeEnvelope {envelope : FullEnvelope} {stored : StoredEnvelope}
    (h : codec.storeEnvelope envelope = .ok stored) : codec.loadEnvelope stored = .ok envelope := by
  unfold Codec.storeEnvelope at h
  by_cases hempty : envelope.ext.isEmpty
  · have hext : envelope.ext = ∅ := by simpa using hempty
    rw [if_pos hempty] at h
    cases h
    have hload : (Except.ok { envelope with ext := ∅ } : Except WalError FullEnvelope) = .ok envelope := by
      rw [← hext]
    exact hload
  · rw [if_neg hempty] at h
    obtain ⟨_, hjson, h⟩ := bind_eq_ok.mp h
    obtain ⟨json, hvec, rfl⟩ := map_eq_ok.mp (mapError_eq_ok.mp hjson)
    cases h
    have hback := codec.fromSlice_toVec _ _ hvec
    unfold Codec.loadEnvelope
    dsimp only
    rw [hback]
    rfl

theorem loadEntry_storeEntry {entry : Entry} {stored : StoredEntry}
    (h : codec.storeEntry entry = .ok stored) : codec.loadEntry stored = .ok entry := by
  obtain ⟨envelope, henv, h⟩ := bind_eq_ok.mp h
  cases h
  unfold Codec.loadEntry
  rw [loadEnvelope_storeEnvelope henv]
  rfl

theorem load_store_entry {entry : Option Entry} {stored : Option StoredEntry}
    (h : transposeMap codec.storeEntry entry = .ok stored) :
    transposeMap codec.loadEntry stored = .ok entry := by
  cases entry with
  | none =>
    cases h
    rfl
  | some entry =>
    obtain ⟨row, hentry, rfl⟩ := map_eq_ok.mp h
    exact map_eq_ok.mpr ⟨entry, loadEntry_storeEntry hentry, rfl⟩

/-- A payload with acceptance time is read back as stored; its shape tells a local delivery. -/
theorem load_store {payload : Payload} {stored : StoredPayload} (h : codec.store payload = .ok stored)
    (hacc : payload.acceptedAt.isSome) :
    codec.load stored = .ok payload ∧ stored.isSenderAssigned = payload.localDelivery.isSome ∧
      ∀ id inner, stored ≠ .incarnated id inner := by
  obtain ⟨key, expires, entry, accepted, delivery⟩ := payload
  obtain ⟨acceptedAt, rfl⟩ := Option.isSome_iff_exists.mp hacc
  obtain ⟨storedEntry, hentry, h⟩ := bind_eq_ok.mp h
  have hback := load_store_entry hentry
  cases delivery with
  | none =>
    obtain rfl : StoredPayload.submissionAccepted key expires acceptedAt storedEntry = stored := ok.inj h
    refine ⟨?_, rfl, by simp⟩
    rw [Codec.load, hback]
    rfl
  | some delivery =>
    obtain rfl : StoredPayload.senderAssigned
        (.submissionClassified key expires acceptedAt storedEntry delivery) = stored := ok.inj h
    refine ⟨?_, rfl, by simp⟩
    rw [Codec.load, Codec.load, hback]
    rfl

def StoredPayload.tag (incarnation : Option String) (stored : StoredPayload) : StoredPayload :=
  match incarnation with
  | some id => .incarnated id stored
  | none => stored

def LogRecord.encoded (codec : Codec) (r : LogRecord) : Bytes :=
  match codec.store r.payload with
  | .error _ => []
  | .ok stored =>
    match codec.toAllocvec (stored.tag r.incarnation) with
    | .error _ => []
    | .ok bytes => bytes

def LogRecord.chunk (codec : Codec) (r : LogRecord) : Bytes := frame crc32 (r.encoded codec)

/-- What the writer guarantees of a record it has put into a segment. -/
structure LogRecord.Logged (codec : Codec) (segmentId : ℕ) (r : LogRecord) : Prop where
  segment : r.location.segmentId = segmentId
  accepted : r.payload.acceptedAt.isSome
  encodes : ∃ stored, codec.store r.payload = .ok stored ∧
    codec.toAllocvec (stored.tag r.incarnation) = .ok (r.encoded codec)
  len : r.location.len = (r.encoded codec).length
  small : (r.encoded codec).length < 2 ^ 32
  incarnated : ∀ id ∈ r.incarnation, identityOk id ∧ r.payload.entry.isSome

theorem length_chunk_pos (r : LogRecord) : 0 < (r.chunk codec).length := by
  rw [chunk, length_frame]
  omega

def State.note (s : State) (r : LogRecord) : State :=
  match r.incarnation, r.payload.entry with
  | some id, some entry => s.noteIncarnation entry id
  | _, _ => s

def State.reread (digest : ContentDigest) (now : ℤ) (s : State) (r : LogRecord) : State :=
  (s.note r).applyWithSenderAssignment digest now r.payload r.location
    r.payload.localDelivery.isSome

variable {segmentId : ℕ} {r : LogRecord}

section
variable (h : r.Logged codec segmentId)
include h

theorem LogRecord.Logged.length_chunk : (r.chunk codec).length = 8 + r.location.len := by
  rw [chunk, length_frame, h.len]

theorem LogRecord.Logged.stop_eq : r.location.offset + (r.chunk codec).length = r.stop := by
  rw [h.length_chunk, stop]

theorem LogRecord.Logged.decode {stored : StoredPayload} (hstore : codec.store r.payload = .ok stored)
    (s : State) : codec.decodePayload (stored.tag r.incarnation) s = .ok (r.payload, s.note r) := by
  obtain ⟨hload, -, hplain⟩ := load_store hstore h.accepted
  cases hinc : r.incarnation with
  | none =>
    have hnote : s.note r = s := by simp [State.note, hinc]
    rw [hnote]
    show codec.decodePayload stored s = _
    unfold Codec.decodePayload
    split
    · exact absurd rfl (hplain _ _)
    · rw [hload]
      rfl
  | some id =>
    obtain ⟨hid, hentry⟩ := h.incarnated id (by simp [hinc])
    obtain ⟨entry, hentry⟩ := Option.isSome_iff_exists.mp hentry
    have hnote : s.note r = s.noteIncarnation entry id := by simp [State.note, hinc, hentry]
    rw [hnote]
    show codec.decodePayload (.incarnated id stored) s = _
    unfold Codec.decodePayload
    cases stored with
    | incarnated id' inner => exact absurd rfl (hplain id' inner)
    | _ => simp [hid, hload, hentry, bind, Except.bind, pure, Except.pure]

theorem LogRecord.Logged.read (rest : Bytes) :
    ∃ stored, readRouterWalRecord codec (r.chunk codec ++ rest) = .ok (some (stored, r.location.len)) ∧
      stored.isSenderAssigned = r.payload.localDelivery.isSome ∧
      ∀ s, codec.decodePayload stored s = .ok (r.payload, s.note r) := by
  obtain ⟨stored, hstore, hencode⟩ := h.encodes
  refine ⟨stored.tag r.incarnation, ?_, ?_, h.decode hstore⟩
  · unfold readRouterWalRecord chunk
    rw [readFrame_frame_append h.small]
    dsimp only
    rw [codec.fromBytes_toAllocvec _ _ hencode, h.len]
  · obtain ⟨-, hflag, -⟩ := load_store hstore h.accepted
    rw [← hflag]
    cases r.incarnation <;> rfl

end

section
variable (digest : ContentDigest) (now : ℤ)

/-- The loop applies the records in front of a tail that holds no frame, and stops there. -/
theorem recoverRecords_chunks {records : List LogRecord} {offset fuel : ℕ} {tail : Bytes}
    (hlogged : ∀ r ∈ records, r.Logged codec segmentId)
    (hcontig : Contiguous (·.location.offset) (chunk codec) offset records)
    (htail : readFrame crc32 tail = none) (hfuel : records.length < fuel) (s : State) :
    recoverRecords codec digest now segmentId fuel offset (records.flatMap (chunk codec) ++ tail) s =
      .ok (offset + (records.flatMap (chunk codec)).length,
        records.foldl (State.reread digest now) s) := by
  induction records generalizing offset fuel s with
  | nil =>
    obtain ⟨fuel, rfl⟩ := Nat.exists_eq_add_one.mpr hfuel
    have hread : readRouterWalRecord codec tail = .ok none := by
      unfold readRouterWalRecord
      rw [htail]
    simp [recoverRecords, hread]
  | cons r records ih =>
    obtain ⟨fuel, rfl⟩ : ∃ fuel', fuel = fuel' + 1 := ⟨fuel - 1, by omega⟩
    have hr := hlogged r (.head _)
    obtain ⟨stored, hread, hflag, hdecode⟩ :=
      hr.read (records.flatMap (chunk codec) ++ tail)
    have hloc : (⟨segmentId, offset, r.location.len⟩ : Location) = r.location := by
      rw [← hr.segment, ← hcontig.1]
    have hrest := ih (fun r' hr' => hlogged r' (.tail _ hr')) hcontig.2
      (Nat.lt_of_succ_lt_succ hfuel) (s.reread digest now r)
    rw [flatMap_cons, append_assoc, recoverRecords, hread]
    dsimp only
    rw [hdecode]
    rw [hflag, hloc, drop_left' hr.length_chunk, ← hr.length_chunk, foldl_cons,
      length_append, ← Nat.add_assoc]
    exact hrest

end

/-- Headers the writer produces. -/
def HeaderOk (bytes : Bytes) : Prop :=
  bytes = routerWalMagic ∨ ∃ id segment previous, identityOk id ∧ bytes = headerBytes id segment previous

theorem length_routerWalMagic : routerWalMagic.length = 22 := by decide +kernel

theorem length_chainedMagic : chainedMagic.length = 22 := by decide +kernel

theorem routerWalMagic_ne_chainedMagic : routerWalMagic ≠ chainedMagic := by decide +kernel

theorem chainedHeaderLen_eq : chainedHeaderLen = 70 := by
  rw [chainedHeaderLen, length_chainedMagic]

variable {id : String}

theorem length_utf8_of_identityOk (h : identityOk id) : (utf8 id).length = 32 := by
  simp only [identityOk, Bool.and_eq_true, beq_iff_eq] at h
  exact h.1

theorem length_headerBytes (h : identityOk id) (segment previous : ℕ) :
    (headerBytes id segment previous).length = chainedHeaderLen := by
  have hid := length_utf8_of_identityOk h
  rw [headerBytes, chainedHeaderLen]
  simp [hid]

variable {h : Bytes}

theorem HeaderOk.le_length (hok : HeaderOk h) : 22 ≤ h.length := by
  rcases hok with rfl | ⟨id, segment, previous, hid, rfl⟩
  · rw [length_routerWalMagic]
  · rw [length_headerBytes hid, chainedHeaderLen_eq]
    omega

theorem headerOk_header (association : Option Association) (segment : ℕ) :
    HeaderOk (header association segment) := by
  cases association with
  | none => exact .inl rfl
  | some association => exact .inr ⟨_, _, _, association.directoryId_ok, rfl⟩

theorem fromUTF8?_utf8 (s : String) : String.fromUTF8? ⟨(utf8 s).toArray⟩ = some s := by
  simp only [String.fromUTF8?, Option.dite_none_right_eq_some]
  exact ⟨s.isValidUTF8, rfl⟩

section
variable (hok : HeaderOk h)
include hok

theorem readHeader_append (rest : Bytes) : ∃ info, readHeader (h ++ rest) = .ok (h.length, info) := by
  rcases hok with rfl | ⟨id, segment, previous, hid, rfl⟩
  · refine ⟨none, ?_⟩
    have htake : (routerWalMagic ++ rest).take chainedMagic.length = routerWalMagic :=
      take_left' (by rw [length_routerWalMagic, length_chainedMagic])
    unfold readHeader
    rw [htake, if_neg (by rw [length_routerWalMagic, length_chainedMagic]; omega), if_pos rfl]
  · have hlen := length_headerBytes hid segment previous
    have hid' := length_utf8_of_identityOk hid
    have hsplit : headerBytes id segment previous ++ rest = chainedMagic ++
        (utf8 id ++ (littleEndian 8 segment ++ littleEndian 8 previous ++ rest)) := by
      simp [headerBytes]
    have htake : (headerBytes id segment previous ++ rest).take chainedMagic.length = chainedMagic := by
      rw [hsplit, take_left' rfl]
    have hdrop : ((headerBytes id segment previous ++ rest).drop chainedMagic.length).take 32 =
        utf8 id := by
      rw [hsplit, drop_left' rfl, take_left' hid']
    have hsize : ¬(headerBytes id segment previous ++ rest).length < chainedHeaderLen := by
      rw [length_append, hlen]
      omega
    rw [hlen]
    unfold readHeader
    dsimp only
    rw [htake, if_neg (lt_irrefl _), if_neg routerWalMagic_ne_chainedMagic.symm, if_neg (by simp),
      if_neg hsize, hdrop, fromUTF8?_utf8]
    dsimp only
    rw [if_pos hid]
    exact ⟨_, rfl⟩

theorem replaceEmptyHeader_append (newest : Bool) (rest : Bytes) :
    replaceEmptyHeader newest (h ++ rest) = h ++ rest := by
  unfold replaceEmptyHeader
  rw [if_neg]
  rintro ⟨-, hshort, hne⟩
  rw [length_routerWalMagic, length_append] at hshort
  rcases hok with rfl | ⟨id, segment, previous, hid, rfl⟩
  · rw [length_routerWalMagic] at hshort
    have hrest : rest = [] := eq_nil_of_length_eq_zero (by omega)
    exact hne (by rw [hrest, append_nil])
  · rw [length_headerBytes hid, chainedHeaderLen_eq] at hshort
    omega

theorem repairEmptyHeader_append (newest : Bool) (rest : Bytes) :
    repairEmptyHeader newest (h ++ rest) = .ok () := by
  unfold repairEmptyHeader
  rw [if_neg]
  rintro ⟨-, -, hmagic, hshort⟩
  rcases hok with rfl | ⟨id, segment, previous, hid, rfl⟩
  · have htake := prefix_iff_eq_take.mp <| isPrefixOf_iff_prefix.mp hmagic
    exact routerWalMagic_ne_chainedMagic htake.symm
  · rw [length_append, length_headerBytes hid] at hshort
    omega

end

end Ramflux.RouterWal
