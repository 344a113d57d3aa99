import Ramflux.Protocol.MessageValue

/-! The fields of a supported message: in order, known, and without repetition where there is none. -/
namespace Ramflux.Message
open Wire List Except Option Fallible ScanState

variable {x : Field} {done : List Field} {f : FieldDescriptor}

namespace ScanState
variable {st st' : ScanState}

/-- States that agree on what the order of the fields depends on. -/
structure Agrees (st st' : ScanState) : Prop where
  previous : st.previous = st'.previous
  counts : st.counts = st'.counts
  choices : st.choices = st'.choices
  mapKeys : st.mapKeys = st'.mapKeys

theorem Agrees.trans {st'' : ScanState} (h : Agrees st st') (h' : Agrees st' st'') : Agrees st st'' :=
  ⟨h.previous.trans h'.previous, h.counts.trans h'.counts, h.choices.trans h'.choices,
    h.mapKeys.trans h'.mapKeys⟩

theorem doubt_agrees (unsupported : Bool) : Agrees (st.doubt unsupported) st := by
  cases unsupported with
  | false | true => exact ⟨rfl, rfl, rfl, rfl⟩

theorem doubt_outcome {unsupported : Bool} (h : (st.doubt unsupported).outcome = .supported) :
    unsupported = false ∧ st.outcome = .supported := by
  cases unsupported with
  | false => exact ⟨rfl, h⟩
  | true => cases h

theorem noteControl_agrees (message : String) (field : Field) :
    Agrees (st.noteControl message field) st ∧ (st.noteControl message field).outcome = st.outcome := by
  unfold noteControl
  split_ifs <;> exact ⟨⟨rfl, rfl, rfl, rfl⟩, rfl⟩

/-- What choosing a field of a oneof does. -/
structure Chosen (f : FieldDescriptor) (choices choices' : OrdSet String) : Prop where
  none : f.oneof = none → choices' = choices
  some : ∀ oneof, f.oneof = some oneof → oneof ∉ choices ∧ choices' = choices.insert oneof

theorem choose_ok (h : st.choose f = .ok st') :
    ∃ choices, st' = { st with choices } ∧ Chosen f st.choices choices := by
  unfold choose at h
  cases honeof : f.oneof with
  | none =>
    rw [honeof] at h
    refine ⟨st.choices, (ok.inj h).symm, fun _ => rfl, ?_⟩
    intro oneof hsome
    rw [honeof] at hsome
    cases hsome
  | some oneof =>
    rw [honeof] at h
    dsimp only at h
    split_ifs at h with hmem
    refine ⟨st.choices.insert oneof, (ok.inj h).symm, ?_, ?_⟩
    · intro hnone
      rw [honeof] at hnone
      cases hnone
    · intro oneof' hsome
      obtain rfl := mem_unique honeof hsome
      exact ⟨hmem, rfl⟩

end ScanState

def memberKey (field : Field) : Except ValidationError Bytes := jsonMemberKey field.bytes.length [] field.bytes

namespace ScanState
variable {st st' : ScanState}

/-- What the order of the entries of a map does. -/
structure Ordered (f : FieldDescriptor) (field : Field) (mapKeys mapKeys' : OrdMap ℕ Bytes) : Prop where
  other : f.cardinality ≠ .map → mapKeys' = mapKeys
  entry : f.cardinality = .map → ∃ key, memberKey field = .ok key ∧
    (∀ previous, mapKeys[field.tag]? = some previous → textLt previous key) ∧
    mapKeys' = mapKeys.insert field.tag key

theorem orderEntry_ok {field : Field} (h : st.orderEntry f field = .ok st') :
    ∃ mapKeys, st' = { st with mapKeys } ∧ Ordered f field st.mapKeys mapKeys := by
  unfold orderEntry at h
  split_ifs at h with hmap
  · obtain ⟨key, hkey, hbody⟩ := bind_eq_ok.mp h
    split_ifs at hbody with horder
    refine ⟨st.mapKeys.insert field.tag key, (ok.inj hbody).symm, fun hne => absurd hmap hne, ?_⟩
    intro _
    refine ⟨key, hkey, ?_, rfl⟩
    intro previous hprev
    rw [hprev] at horder
    simpa using horder
  · exact ⟨st.mapKeys, (ok.inj h).symm, fun _ => rfl, fun heq => absurd heq hmap⟩

theorem orderMember_ok {message : String} {field : Field}
    (h : st.orderMember message f field = .ok st') : ∃ objectKey, st' = { st with objectKey } := by
  unfold orderMember at h
  split_ifs at h
  · obtain ⟨key, -, hbody⟩ := bind_eq_ok.mp h
    split_ifs at hbody
    exact ⟨some key, (ok.inj hbody).symm⟩
  · exact ⟨st.objectKey, (ok.inj h).symm⟩

variable {s : Schema} {layer : ℕ} {child : ChildScan} {d : MessageDescriptor} {field : Field}

/-- A step that leaves the message supported. -/
structure Stepped (s : Schema) (child : ChildScan)
    (d : MessageDescriptor) (field : Field) (f : FieldDescriptor) (st st' : ScanState) : Prop where
  known : d.getField field.tag = some f
  supported : scanField s child d.name f field = .ok .supported
  before : st.outcome = .supported
  order : st.previous ≤ field.tag
  previous : st'.previous = field.tag
  once : f.cardinality ≠ .list → f.cardinality ≠ .map → st.counts[field.tag]?.getD 0 = 0
  counts : st'.counts = st.counts.insert field.tag (st.counts[field.tag]?.getD 0 + 1)
  chosen : Chosen f st.choices st'.choices
  ordered : Ordered f field st.mapKeys st'.mapKeys

theorem step_supported (h : st.step s layer child d field = .ok st') (hout : st'.outcome = .supported) :
    ∃ f, Stepped s child d field f st st' := by
  unfold step at h
  split_ifs at h with horder
  cases hfield : d.getField field.tag with
  | none =>
    rw [hfield] at h
    rw [← ok.inj h] at hout
    cases hout
  | some f =>
    rw [hfield] at h
    dsimp only at h
    split_ifs at h with hcount
    obtain ⟨st₁, hchoose, h₁⟩ := bind_eq_ok.mp h
    obtain ⟨-, -, h₂⟩ := bind_eq_ok.mp h₁
    obtain ⟨st₂, hentry, h₃⟩ := bind_eq_ok.mp h₂
    obtain ⟨st₃, hmember, h₄⟩ := bind_eq_ok.mp h₃
    obtain ⟨inner, hinner, h₅⟩ := bind_eq_ok.mp h₄
    obtain ⟨choices, rfl, hchosen⟩ := choose_ok hchoose
    obtain ⟨mapKeys, rfl, hordered⟩ := orderEntry_ok hentry
    obtain ⟨objectKey, rfl⟩ := orderMember_ok hmember
    rw [← ok.inj h₅] at hout ⊢
    obtain ⟨hagrees, houtcome⟩ := @noteControl_agrees (doubt _ (inner = .unsupported)) d.name field
    rw [houtcome] at hout
    obtain ⟨hsupported, hout₁⟩ := doubt_outcome hout
    have hout₂ := (doubt_outcome hout₁).2
    have hout₃ := (doubt_outcome hout₂).2
    have hagrees := ((hagrees.trans (doubt_agrees _)).trans (doubt_agrees _)).trans (doubt_agrees _)
    have hinner' : inner = .supported := by
      cases inner with
      | supported => rfl
      | unsupported => simp at hsupported
    refine ⟨f, hfield, hinner' ▸ hinner, hout₃, not_lt.mp horder, hagrees.previous, ?_, hagrees.counts, ?_, ?_⟩
    · intro hlist hmap
      by_contra hne
      exact hcount ⟨by omega, hlist, hmap⟩
    · rw [hagrees.choices]
      exact hchosen
    · rw [hagrees.mapKeys]
      exact hordered

end ScanState

section
variable {s : Schema} {layer : ℕ} {child : ChildScan}
  {d : MessageDescriptor} {st st' : ScanState} {fields : List Field}

def Rivals (d : MessageDescriptor) (x y : Field) : Prop :=
  ∃ f g oneof, d.getField x.tag = some f ∧ d.getField y.tag = some g ∧ f.oneof = some oneof ∧
    g.oneof = some oneof

/-- Entries of one map whose keys are in order. -/
def InKeyOrder (d : MessageDescriptor) (x y : Field) : Prop :=
  x.tag = y.tag → ∀ f, d.getField x.tag = some f → f.cardinality = .map →
    ∃ first second, memberKey x = .ok first ∧ memberKey y = .ok second ∧ textLt first second

/-- Fields of a supported message. -/
structure Canonical (s : Schema) (child : ChildScan)
    (d : MessageDescriptor) (fields : List Field) : Prop where
  sorted : fields.Pairwise (·.tag ≤ ·.tag)
  known : ∀ x ∈ fields, ∃ f, d.getField x.tag = some f ∧ scanField s child d.name f x = .ok .supported
  once : ∀ x ∈ fields, ∀ f, d.getField x.tag = some f → f.cardinality ≠ .list → f.cardinality ≠ .map →
    (fields.filter (·.tag = x.tag)).length = 1
  exclusive : fields.Pairwise fun x y => ¬Rivals d x y
  keys : fields.Pairwise (InKeyOrder d)

/-- The state after the fields `done`. -/
structure Tracks (d : MessageDescriptor) (done : List Field) (st : ScanState) : Prop where
  below : ∀ x ∈ done, x.tag ≤ st.previous
  counts : ∀ tag, st.counts[tag]?.getD 0 = (done.filter (·.tag = tag)).length
  choices : ∀ x ∈ done, ∀ f oneof, d.getField x.tag = some f → f.oneof = some oneof → oneof ∈ st.choices
  keys : ∀ x ∈ done, ∀ f, d.getField x.tag = some f → f.cardinality = .map →
    ∃ key last, memberKey x = .ok key ∧ st.mapKeys[x.tag]? = some last ∧ (key = last ∨ textLt key last)

theorem textLt_trans {a b c : Bytes} (hab : textLt a b) (hbc : textLt b c) : textLt a c :=
  List.lt_trans hab hbc

theorem textLt_irrefl (a : Bytes) : ¬textLt a a :=
  List.lt_irrefl _

theorem Tracks.step (h : Tracks d done st)
    (hstep : Stepped s child d x f st st') : Tracks d (done ++ [x]) st' where
  below y hy := by
    rw [hstep.previous]
    rcases mem_append.mp hy with hold | hnew
    · exact (h.below y hold).trans hstep.order
    · rw [mem_singleton.mp hnew]
  counts tag := by
    rw [hstep.counts, OrdMap.getElem?_insert_eq, filter_append, length_append]
    by_cases heq : x.tag = tag
    · subst heq
      rw [if_pos rfl, getD_some, h.counts]
      simp
    · rw [if_neg heq, h.counts]
      simp [heq]
  choices y hy g oneof hg honeof := by
    have hkeep : ∀ o ∈ st.choices, o ∈ st'.choices := by
      intro o ho
      cases hf : f.oneof with
      | none =>
        rw [hstep.chosen.none hf]
        exact ho
      | some chosen =>
        rw [(hstep.chosen.some chosen hf).2]
        exact OrdSet.mem_insert_iff.mpr (.inr ho)
    rcases mem_append.mp hy with hold | hnew
    · exact hkeep oneof (h.choices y hold g oneof hg honeof)
    · obtain rfl := mem_singleton.mp hnew
      obtain rfl := mem_unique hstep.known hg
      rw [(hstep.chosen.some oneof honeof).2]
      exact OrdSet.mem_insert_iff.mpr (.inl rfl)
  keys y hy g hg hmap := by
    rcases mem_append.mp hy with hold | hnew
    · obtain ⟨key, last, hkey, hlast, hle⟩ := h.keys y hold g hg hmap
      by_cases hf : f.cardinality = .map
      · obtain ⟨new, -, hgreater, hkeys⟩ := hstep.ordered.entry hf
        rw [hkeys, OrdMap.getElem?_insert_eq]
        by_cases heq : x.tag = y.tag
        · have hlt := hgreater last (heq ▸ hlast)
          refine ⟨key, new, hkey, if_pos heq, .inr ?_⟩
          rcases hle with rfl | hlt'
          · exact hlt
          · exact textLt_trans hlt' hlt
        · exact ⟨key, last, hkey, by rw [if_neg heq, hlast], hle⟩
      · rw [hstep.ordered.other hf]
        exact ⟨key, last, hkey, hlast, hle⟩
    · obtain rfl := mem_singleton.mp hnew
      obtain rfl := mem_unique hstep.known hg
      obtain ⟨key, hkey, -, hkeys⟩ := hstep.ordered.entry hmap
      refine ⟨key, key, hkey, ?_, .inl rfl⟩
      rw [hkeys, OrdMap.getElem?_insert_eq, if_pos rfl]

theorem Canonical.step (h : Canonical s child d done) (htracks : Tracks d done st)
    (hstep : Stepped s child d x f st st') : Canonical s child d (done ++ [x]) where
  sorted := by
    apply pairwise_append.mpr ⟨h.sorted, pairwise_singleton _ _, ?_⟩
    intro y hy z hz
    rw [mem_singleton.mp hz]
    exact (htracks.below y hy).trans hstep.order
  known y hy := by
    rcases mem_append.mp hy with hold | hnew
    · exact h.known y hold
    · rw [mem_singleton.mp hnew]
      exact ⟨f, hstep.known, hstep.supported⟩
  once y hy g hg hlist hmap := by
    rw [filter_append, length_append]
    by_cases heq : x.tag = y.tag
    · -- The new field is the first of its tag.
      rw [← heq, hstep.known] at hg
      cases hg
      have hzero := hstep.once hlist hmap
      rw [htracks.counts] at hzero
      rw [← heq, hzero]
      simp
    · rcases mem_append.mp hy with hold | hnew
      · rw [h.once y hold g hg hlist hmap]
        simp [heq]
      · exact absurd (congrArg Field.tag (mem_singleton.mp hnew).symm) heq
  exclusive := by
    apply pairwise_append.mpr ⟨h.exclusive, pairwise_singleton _ _, ?_⟩
    intro y hy z hz
    rw [mem_singleton.mp hz]
    rintro ⟨f', g, oneof, hf', hg, hoy, hox⟩
    obtain rfl := mem_unique hstep.known hg
    exact (hstep.chosen.some oneof hox).1 (htracks.choices y hy f' oneof hf' hoy)
  keys := by
    apply pairwise_append.mpr ⟨h.keys, pairwise_singleton _ _, ?_⟩
    intro y hy z hz
    rw [mem_singleton.mp hz]
    intro heq g hg hmap
    obtain ⟨key, last, hkey, hlast, hle⟩ := htracks.keys y hy g hg hmap
    rw [heq, hstep.known] at hg
    cases hg
    obtain ⟨new, hnew, hgreater, -⟩ := hstep.ordered.entry hmap
    have hlt := hgreater last (heq ▸ hlast)
    refine ⟨key, new, hkey, hnew, ?_⟩
    rcases hle with rfl | hlt'
    · exact hlt
    · exact textLt_trans hlt' hlt

theorem outcome_of_foldlM (hrun : fields.foldlM (fun st x => step s layer child d st x) st = .ok st')
    (hout : st'.outcome = .supported) : st.outcome = .supported := by
  induction fields generalizing st with
  | nil =>
    cases hrun
    exact hout
  | cons x fields ih =>
    obtain ⟨mid, hmid, hrest⟩ := bind_eq_ok.mp hrun
    obtain ⟨f, hstep⟩ := step_supported hmid (ih hrest)
    exact hstep.before

/-- A run over the fields that ends supported was supported all along. -/
theorem Canonical.foldlM (h : Canonical s child d done) (htracks : Tracks d done st)
    (hrun : fields.foldlM (fun st x => ScanState.step s layer child d st x) st = .ok st')
    (hout : st'.outcome = .supported) : Canonical s child d (done ++ fields) := by
  induction fields generalizing st done with
  | nil =>
    rw [append_nil]
    exact h
  | cons x fields ih =>
    obtain ⟨mid, hmid, hrest⟩ := bind_eq_ok.mp hrun
    obtain ⟨f, hstep⟩ := step_supported hmid (outcome_of_foldlM hrest hout)
    have hall := ih (h.step htracks hstep) (htracks.step hstep) hrest
    rwa [append_assoc] at hall

/-- The loop goes over the fields that a decoder reads, and these are written in one way. -/
theorem scanLoop_ok {step : ScanState → Field → Except ValidationError ScanState} {rounds : ℕ} {input : Bytes}
    (h : scanLoop step rounds input st = .ok st') : ∃ fields, Proto3.fields rounds input = some fields ∧
      input = fields.flatMap Field.encode ∧ (∀ x ∈ fields, x.Read) ∧ fields.foldlM step st = .ok st' := by
  induction rounds generalizing input st with
  | zero =>
    cases input with
    | nil => exact ⟨[], rfl, rfl, fun x hx => (not_mem_nil hx).elim, h⟩
    | cons byte input => cases h
  | succ rounds ih =>
    cases input with
    | nil => exact ⟨[], rfl, rfl, fun x hx => (not_mem_nil hx).elim, h⟩
    | cons byte input =>
      obtain ⟨⟨x, rest⟩, hfield, hbody⟩ := bind_eq_ok.mp h
      obtain ⟨mid, hmid, hloop⟩ := bind_eq_ok.mp hbody
      obtain ⟨fields, hfields, hrest, hread, hrun⟩ := ih hloop
      obtain ⟨hx, hinput⟩ := field_ok hfield
      have hfirst := Proto3.field_of_ok hfield
      refine ⟨x :: fields, ?_, ?_, ?_, ?_⟩
      · unfold Proto3.fields
        rw [hfirst]
        show (Proto3.fields rounds rest >>= _) = _
        rw [hfields]
        rfl
      · rw [hinput, hrest]
        rfl
      · intro y hy
        rcases mem_cons.mp hy with rfl | hy
        · exact hx
        · exact hread y hy
      · exact bind_eq_ok.mpr ⟨mid, hmid, hrun⟩

/-- A supported message is the writing of its fields, which are canonical. -/
theorem scan_supported {room : ℕ} {bytes : Bytes} (h : scan s layer (room + 1) d bytes = .ok .supported) :
    ∃ fields, Proto3.fields bytes.length bytes = some fields ∧ bytes = fields.flatMap Field.encode ∧
      (∀ x ∈ fields, x.Read) ∧ Canonical s (scan s layer room) d fields := by
  unfold scan at h
  split_ifs at h
  obtain ⟨st, hloop, hfinish⟩ := bind_eq_ok.mp h
  have hout : st.outcome = .supported := by
    unfold ScanState.finish at hfinish
    split_ifs at hfinish with hout
    · exact hout
    · exact ok.inj hfinish
  obtain ⟨fields, hfields, hbytes, hread, hrun⟩ := scanLoop_ok hloop
  refine ⟨fields, hfields, hbytes, hread, ?_⟩
  have hinit : Canonical s (scan s layer room) d [] :=
    ⟨.nil, fun x hx => (not_mem_nil hx).elim, fun x hx => (not_mem_nil hx).elim, .nil, .nil⟩
  have htracks : Tracks d [] .new :=
    ⟨fun x hx => (not_mem_nil hx).elim, fun tag => by simp [ScanState.new],
      fun x hx => (not_mem_nil hx).elim, fun x hx => (not_mem_nil hx).elim⟩
  exact hinit.foldlM htracks hrun hout

end
end Ramflux.Message
