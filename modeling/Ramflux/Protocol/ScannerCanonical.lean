import Mathlib.Data.List.Sort
import Mathlib.Data.List.TakeWhile
import Ramflux.Lib.Sorted
import Ramflux.Protocol.ScannerFields

/-! Supported messages with the same value have the same bytes. -/
namespace Ramflux.Message
open Wire List Option

def Kind.Admits (kind : Kind) (n : ℕ) : Prop :=
  n < 2 ^ 64 ∧
    match kind with
    | .bool => n ≤ 1
    | .uint32 | .sint32 => n < 2 ^ 32
    | .int32 | .enum _ => -2 ^ 31 ≤ signed64 n ∧ signed64 n < 2 ^ 31
    | _ => True

variable {m n : ℕ}

theorem zigzag_injective (h : zigzag n = zigzag m) : n = m := by
  unfold zigzag at h
  split_ifs at h <;> omega

theorem signed64_injective (hn : n < 2 ^ 64) (hm : m < 2 ^ 64) (h : signed64 n = signed64 m) :
    n = m := by
  unfold signed64 at h
  split_ifs at h <;> omega

theorem signed32_eq (hn : n < 2 ^ 64) (hlow : -2 ^ 31 ≤ signed64 n) (hhigh : signed64 n < 2 ^ 31) :
    signed32 n = signed64 n := by
  unfold signed32
  unfold signed64 at *
  split_ifs at * <;> omega

theorem Kind.number_injective (kind : Kind) (hn : kind.Admits n) (hm : kind.Admits m)
    (h : kind.number n = kind.number m) : n = m := by
  obtain ⟨hn64, hn⟩ := hn
  obtain ⟨hm64, hm⟩ := hm
  cases kind with
  | bool =>
    dsimp only [number] at h hn hm
    split_ifs at h <;> omega
  | uint32 =>
    dsimp only [number] at h hn hm
    rw [Nat.mod_eq_of_lt hn, Nat.mod_eq_of_lt hm] at h
    exact Int.ofNat.inj h
  | sint32 =>
    dsimp only [number] at h hn hm
    rw [Nat.mod_eq_of_lt hn, Nat.mod_eq_of_lt hm] at h
    exact zigzag_injective h
  | int32 | enum values =>
    dsimp only [number] at h hn hm
    rw [signed32_eq hn64 hn.1 hn.2, signed32_eq hm64 hm.1 hm.2] at h
    exact signed64_injective hn64 hm64 h
  | int64 => exact signed64_injective hn64 hm64 h
  | sint64 => exact zigzag_injective h
  | _ => exact Int.ofNat.inj h

theorem Kind.admits_zero (kind : Kind) : kind.Admits 0 := by
  refine ⟨by decide, ?_⟩
  cases kind with
  | bool | uint32 | sint32 | int32 => decide
  | enum values =>
    show -2 ^ 31 ≤ signed64 0 ∧ signed64 0 < 2 ^ 31
    decide
  | _ => trivial

theorem isI32_iff {n : ℤ} : isI32 n = true ↔ -2 ^ 31 ≤ n ∧ n < 2 ^ 31 := by
  unfold isI32
  rw [Bool.and_eq_true, decide_eq_true_eq, decide_eq_true_eq]

section
variable {α β : Type} {g : α → Option β}

variable {l : List α} {values : List β}

theorem collect_map_eq_some (h : ∀ a ∈ l, (g a).isSome) : ∃ values, collect (l.map g) = some values := by
  induction l with
  | nil => exact ⟨[], rfl⟩
  | cons a l ih =>
    obtain ⟨values, hvalues⟩ := ih fun b hb => h b (.tail _ hb)
    obtain ⟨value, hvalue⟩ := isSome_iff_exists.mp (h a (.head _))
    refine ⟨value :: values, ?_⟩
    rw [map_cons, hvalue, collect, hvalues]
    rfl

theorem forall₂_of_collect (h : collect (l.map g) = some values) :
    List.Forall₂ (fun a value => g a = some value) l values := by
  induction l generalizing values with
  | nil =>
    cases h
    exact .nil
  | cons a l ih =>
    rw [map_cons] at h
    cases ha : g a with
    | none =>
      rw [ha] at h
      cases h
    | some value =>
      rw [ha, collect] at h
      obtain ⟨rest, hrest, rfl⟩ := map_eq_some_iff.mp h
      exact .cons ha (ih hrest)

theorem exists_of_forall₂ {r : α → β → Prop} (h : List.Forall₂ r l values)
    {value : β} (hvalue : value ∈ values) : ∃ a ∈ l, r a value := by
  induction h with
  | nil => cases hvalue
  | @cons a first l values ha _ ih =>
    rcases mem_cons.mp hvalue with rfl | hrest
    · exact ⟨a, .head _, ha⟩
    · obtain ⟨b, hb, hr⟩ := ih hrest
      exact ⟨b, .tail _ hb, hr⟩

theorem exists_eq_of_collect {g' : α → Option β}
    (h : collect (l.map g) = some values) (h' : collect (l.map g') = some values) {a : α} (ha : a ∈ l) :
    ∃ value, g a = some value ∧ g' a = some value := by
  have hl := forall₂_of_collect h
  have hl' := forall₂_of_collect h'
  clear h h'
  induction hl with
  | nil => cases ha
  | @cons b value l values hb _ ih =>
    cases hl' with
    | cons hb' hrest' =>
      rcases mem_cons.mp ha with rfl | ha
      · exact ⟨value, hb, hb'⟩
      · exact ih ha hrest'

theorem eq_of_collect_eq {l' : List α} (h : collect (l.map g) = some values)
    (h' : collect (l'.map g) = some values)
    (hinj : ∀ a ∈ l, ∀ b ∈ l', ∀ value, g a = some value → g b = some value → a = b) : l = l' := by
  have hl := forall₂_of_collect h
  have hl' := forall₂_of_collect h'
  clear h h'
  induction hl generalizing l' with
  | nil =>
    cases hl'
    rfl
  | @cons a value l values ha _ ih =>
    cases hl' with
    | @cons b _ l' _ hb hrest =>
      obtain rfl := hinj a (.head _) b (.head _) value ha hb
      rw [ih (fun x hx y hy => hinj x (.tail _ hx) y (.tail _ hy)) hrest]

end

section
variable {s : Schema} {child : ChildScan}
  {d : MessageDescriptor} {fields : List Field} {f : FieldDescriptor}

theorem getField_of_mem (hdistinct : (d.fields.map (·.number)).Nodup) (hf : f ∈ d.fields) :
    d.getField f.number = some f := by
  unfold MessageDescriptor.getField
  have hinj := inj_on_of_nodup_map hdistinct
  cases hfind : d.fields.find? (·.number = f.number) with
  | none =>
    have := find?_eq_none.mp hfind f hf
    simp at this
  | some g =>
    have hg : g.number = f.number := by simpa using find?_some hfind
    rw [hinj (mem_of_find?_eq_some hfind) hf hg]

theorem mem_of_getField {tag : ℕ} (h : d.getField tag = some f) : f ∈ d.fields ∧ f.number = tag :=
  ⟨mem_of_find?_eq_some h, by simpa using find?_some h⟩

theorem occurrences_of_none (h : f.oneof = none) : occurrences d f fields = fields.filter (·.tag = f.number) := by
  have hall : fields.reverse.takeWhile (fun x => !decide (x.tag ≠ f.number ∧ f.oneof.isSome ∧
      (d.getField x.tag).any (·.oneof = f.oneof))) = fields.reverse := by
    apply takeWhile_eq_self_iff.mpr
    simp [h]
  unfold occurrences
  dsimp only
  rw [hall, reverse_reverse]

theorem Canonical.occurrences_eq (h : Canonical s child d fields) (hf : d.getField f.number = some f) :
    occurrences d f fields = fields.filter (·.tag = f.number) := by
  cases honeof : f.oneof with
  | none => exact occurrences_of_none honeof
  | some oneof =>
    by_cases hclears : ∃ x ∈ fields, x.tag ≠ f.number ∧ (d.getField x.tag).any (·.oneof = f.oneof)
    · -- Another choice was made, so that this one was not.
      obtain ⟨x, hx, hne, hrival⟩ := hclears
      obtain ⟨g, hg, hgo⟩ := (any_eq_true _ _).mp hrival
      have hgo : g.oneof = some oneof := by simpa [honeof] using hgo
      have habsent : ∀ y ∈ fields, y.tag ≠ f.number := by
        intro y hy htag
        rcases Sorted.pairwise_cases h.exclusive hx hy with rfl | hnot | hnot
        · exact hne htag
        · exact hnot ⟨g, f, oneof, hg, htag ▸ hf, hgo, honeof⟩
        · exact hnot ⟨f, g, oneof, htag ▸ hf, hg, honeof, hgo⟩
      have hnone : fields.filter (·.tag = f.number) = [] := by
        apply filter_eq_nil_iff.mpr
        intro y hy
        simpa using habsent y hy
      rw [hnone]
      apply filter_eq_nil_iff.mpr
      intro y hy
      have hin := (takeWhile_sublist _).subset (mem_reverse.mp hy)
      simpa using habsent y (mem_reverse.mp hin)
    · have hall : fields.reverse.takeWhile (fun x => !decide (x.tag ≠ f.number ∧ f.oneof.isSome ∧
          (d.getField x.tag).any (·.oneof = f.oneof))) = fields.reverse := by
        apply takeWhile_eq_self_iff.mpr
        intro x hx
        rw [Bool.not_eq_true', decide_eq_false_iff_not]
        rintro ⟨hne, -, hrival⟩
        exact hclears ⟨x, mem_reverse.mp hx, hne, hrival⟩
      unfold occurrences
      dsimp only
      rw [hall, reverse_reverse]

end

section
variable {s : Schema} {child : ChildScan}
  {meaning : MessageDescriptor → Bytes → Option Value} {parent : String} {f : FieldDescriptor} {x y : Field}

/-- Inner messages are known from their values. -/
structure Faithful (s : Schema) (child : ChildScan)
    (meaning : MessageDescriptor → Bytes → Option Value) : Prop where
  total : ∀ name d bytes, s.message name = some d → child d bytes = .ok .supported →
    (meaning d bytes).isSome
  injective : ∀ name d bytes bytes' v, s.message name = some d → child d bytes = .ok .supported →
    child d bytes' = .ok .supported → meaning d bytes = some v → meaning d bytes' = some v → bytes = bytes'
  message : ∀ d bytes v, meaning d bytes = some v → ∃ fields, v = .message fields
  entry : ∀ name d bytes value, s.message name = some d → d.fields = entryFields value →
    child d bytes = .ok .supported → ∃ key v, meaning d bytes = some (.message [.bytes key, v]) ∧
      ∀ key', jsonMemberKey bytes.length [] bytes = .ok key' → key' = key

/-- What the scan of one field says about it. -/
structure Scanned (s : Schema) (child : ChildScan) (f : FieldDescriptor) (x : Field) : Prop where
  wire : x.wire = f.kind.wire
  notDefault : f.cardinality = .singular false → Field.isDefault x = false
  admits : f.kind.wire = 0 → x.scalar < 2 ^ 64 → f.kind.Admits x.scalar
  message : ∀ name, f.kind = .message name → ∃ d, s.message name = some d ∧ child d x.bytes = .ok .supported

theorem scanned_of_supported (h : scanField s child parent f x = .ok .supported) : Scanned s child f x := by
  unfold scanField at h
  by_cases hwire : x.wire ≠ f.kind.wire
  · rw [if_pos hwire] at h
    cases h
  rw [if_neg hwire] at h
  by_cases hdefault : f.cardinality = .singular false ∧ Field.isDefault x
  · rw [if_pos hdefault] at h
    cases h
  rw [if_neg hdefault] at h
  refine ⟨not_not.mp hwire, ?_, ?_, ?_⟩
  · intro hsingular
    exact Bool.eq_false_iff.mpr fun htrue => hdefault ⟨hsingular, htrue⟩
  · intro _ hlt
    refine ⟨hlt, ?_⟩
    cases hkind : f.kind with
    | bool =>
      rw [hkind] at h
      dsimp only at h
      split_ifs at h with hle
      exact not_lt.mp hle
    | uint32 | sint32 =>
      rw [hkind] at h
      dsimp only at h
      split_ifs at h with hle
      exact not_le.mp hle
    | int32 =>
      rw [hkind] at h
      dsimp only at h
      split_ifs at h with hint
      exact isI32_iff.mp hint
    | enum values =>
      rw [hkind] at h
      dsimp only at h
      split_ifs at h with hint
      · exact isI32_iff.mp hint.1
      · cases Except.ok.inj h
    | _ => trivial
  · intro name hkind
    rw [hkind] at h
    dsimp only at h
    split at h
    · cases h
    · next d hd => exact ⟨d, hd, h⟩

/-- What a field means depends on the part of it that its kind uses. -/
theorem single_eq (h : x.wire = f.kind.wire) : single s meaning f x = match f.kind with
    | .message name =>
      match s.message name with
      | none => none
      | some d => meaning d x.bytes
    | .string | .bytes | .double | .fixed64 | .sfixed64 | .float | .fixed32 | .sfixed32 => some (.bytes x.bytes)
    | kind => some (.number (kind.number x.scalar)) := by
  unfold single
  rewrite [if_neg (not_not.mpr h)]
  cases f.kind <;> rfl

theorem single_isSome (hfaithful : Faithful s child meaning) (hx : Scanned s child f x) :
    (single s meaning f x).isSome := by
  rw [single_eq hx.wire]
  cases hkind : f.kind with
  | message name =>
    obtain ⟨d, hd, hchild⟩ := hx.message name hkind
    dsimp only
    rw [hd]
    exact hfaithful.total name d _ hd hchild
  | _ => rfl

theorem field_ext (htag : x.tag = y.tag) (hwire : x.wire = y.wire) (hscalar : x.scalar = y.scalar)
    (hbytes : x.bytes = y.bytes) : x = y := by
  cases x
  simp_all

variable {v : Value} {value : Kind} {name : String} {d : MessageDescriptor}

/-- A field is known from its value. -/
theorem single_injective (hfaithful : Faithful s child meaning) (hx : Scanned s child f x)
    (hy : Scanned s child f y) (hxread : x.Read) (hyread : y.Read) (htag : x.tag = y.tag)
    (hxv : single s meaning f x = some v) (hyv : single s meaning f y = some v) : x = y := by
  have hwire : x.wire = y.wire := hx.wire.trans hy.wire.symm
  rw [single_eq hx.wire] at hxv
  rw [single_eq hy.wire] at hyv
  -- A field with bytes has no scalar, and one with a scalar no bytes.
  have hlong : f.kind.wire ≠ 0 → x.bytes = y.bytes → x = y := by
    intro hne hbytes
    have hxscalar := hxread.scalar (hx.wire ▸ hne)
    have hyscalar := hyread.scalar (hy.wire ▸ hne)
    exact field_ext htag hwire (hxscalar.trans hyscalar.symm) hbytes
  have hshort : f.kind.wire = 0 → f.kind.number x.scalar = f.kind.number y.scalar → x = y := by
    intro hzero hnumber
    have hscalar := f.kind.number_injective (hx.admits hzero hxread.scalar_lt)
      (hy.admits hzero hyread.scalar_lt) hnumber
    have hxbytes := hxread.bytes (hx.wire.trans hzero)
    have hybytes := hyread.bytes (hy.wire.trans hzero)
    exact field_ext htag hwire hscalar (hxbytes.trans hybytes.symm)
  cases hkind : f.kind with
  | message name =>
    obtain ⟨d, hd, hchildx⟩ := hx.message name hkind
    obtain ⟨d', hd', hchildy⟩ := hy.message name hkind
    rw [hkind] at hxv hyv hlong
    dsimp only at hxv hyv
    rw [hd] at hxv hyv hd'
    cases hd'
    exact hlong (Nat.succ_ne_zero 1) (hfaithful.injective name d _ _ v hd hchildx hchildy hxv hyv)
  | string | bytes | double | fixed64 | sfixed64 | float | fixed32 | sfixed32 =>
    rw [hkind] at hxv hyv hlong
    have heq := (some.inj hxv).trans (some.inj hyv).symm
    exact hlong (by decide) (Value.bytes.inj heq)
  | int32 | int64 | uint32 | uint64 | sint32 | sint64 | bool | enum =>
    rw [hkind] at hxv hyv hshort
    have heq := (some.inj hxv).trans (some.inj hyv).symm
    exact hshort rfl (Value.number.inj heq)

variable {presence : Bool} {entries : List (Bytes × Value)}

theorem single_ne_absent (hfaithful : Faithful s child meaning) (hx : Scanned s child f x) (hread : x.Read)
    (hsingular : f.cardinality = .singular presence) :
    single s meaning f x ≠ some (if presence then .unset else f.kind.default) := by
  rw [single_eq hx.wire]
  cases presence with
  | true =>
    cases hkind : f.kind with
    | message name =>
      obtain ⟨d, hd, -⟩ := hx.message name hkind
      dsimp only
      rw [hd]
      intro hunset
      obtain ⟨fields, hfields⟩ := hfaithful.message d x.bytes _ hunset
      cases hfields
    | _ => exact fun heq => Value.noConfusion (some.inj heq)
  | false =>
    have hwire := hx.wire
    have hdefault := hx.notDefault hsingular
    have hadmits := hx.admits
    unfold Field.isDefault at hdefault
    cases hkind : f.kind with
    | message name =>
      obtain ⟨d, hd, -⟩ := hx.message name hkind
      dsimp only
      rw [hd]
      intro hunset
      obtain ⟨fields, hfields⟩ := hfaithful.message d x.bytes _ hunset
      cases hfields
    | string | bytes =>
      intro heq
      have hbytes : x.bytes = [] := Value.bytes.inj (some.inj heq)
      rw [hkind] at hwire
      change x.wire = 2 at hwire
      simp [hwire, hbytes] at hdefault
    | double | fixed64 | sfixed64 =>
      intro heq
      have hbytes : x.bytes = List.replicate 8 0 := Value.bytes.inj (some.inj heq)
      rw [hkind] at hwire
      change x.wire = 1 at hwire
      simp [hwire, hbytes] at hdefault
    | float | fixed32 | sfixed32 =>
      intro heq
      have hbytes : x.bytes = List.replicate 4 0 := Value.bytes.inj (some.inj heq)
      rw [hkind] at hwire
      change x.wire = 5 at hwire
      simp [hwire, hbytes] at hdefault
    | int32 | int64 | uint32 | uint64 | sint32 | sint64 | bool | enum =>
      intro heq
      rw [hkind] at hwire hadmits
      change x.wire = 0 at hwire
      have hscalar := Kind.number_injective _ (hadmits rfl hread.scalar_lt) (Kind.admits_zero _)
        (Value.number.inj (some.inj heq))
      simp [hwire, hscalar] at hdefault

/-- Occurrences that the scan has admitted. -/
structure Admitted (s : Schema) (child : ChildScan)
    (f : FieldDescriptor) (tag : ℕ) (l : List Field) : Prop where
  tag : ∀ x ∈ l, x.tag = tag
  read : ∀ x ∈ l, x.Read
  scanned : ∀ x ∈ l, Scanned s child f x
  once : ∀ presence, f.cardinality = .singular presence → l.length ≤ 1
  keys : f.cardinality = .map → l.Pairwise fun x y =>
    ∃ first second, memberKey x = .ok first ∧ memberKey y = .ok second ∧ textLt first second

theorem content_one (h : f.cardinality = .singular presence) :
    content s meaning f [x] = single s meaning f x := by
  unfold content
  rw [h]
  have hsame : { x with bytes := [x].flatMap (·.bytes) } = x := by
    simp
  dsimp only [getLast?_singleton]
  rw [hsame]
  cases f.kind <;> rfl

theorem content_nil (h : f.cardinality = .singular presence) :
    content s meaning f [] = some (if presence then .unset else f.kind.default) := by
  unfold content
  rw [h]
  rfl

variable {tag : ℕ} {l l' : List Field}

theorem Admitted.cases (h : Admitted s child f tag l)
    (hsingular : f.cardinality = .singular presence) : l = [] ∨ ∃ x, l = [x] := by
  have hle := h.once presence hsingular
  match l, hle with
  | [], _ => exact .inl rfl
  | [x], _ => exact .inr ⟨x, rfl⟩

theorem entry_of_scanned
    (hfaithful : Faithful s child meaning) (hx : Scanned s child f x) (hkind : f.kind = .message name)
    (hd : s.message name = some d) (hfields : d.fields = entryFields value) : ∃ key v,
      single s meaning f x = some (.message [.bytes key, v]) ∧ entry s meaning f x = some (key, v) ∧
      ∀ key', memberKey x = .ok key' → key' = key := by
  obtain ⟨d', hd', hchild⟩ := hx.message name hkind
  obtain rfl := mem_unique hd hd'
  obtain ⟨key, v, hmeaning, hkey⟩ := hfaithful.entry name d x.bytes value hd hfields hchild
  have hsingle : single s meaning f x = some (.message [.bytes key, v]) := by
    rw [single_eq hx.wire, hkind]
    dsimp only
    rw [hd]
    exact hmeaning
  refine ⟨key, v, hsingle, ?_, hkey⟩
  unfold entry
  rw [hsingle]

theorem Admitted.content_isSome (hfaithful : Faithful s child meaning) (h : Admitted s child f tag l)
    (hmap : f.cardinality = .map → ∃ name d value, f.kind = .message name ∧ s.message name = some d ∧
      d.fields = entryFields value) : (content s meaning f l).isSome := by
  cases hcard : f.cardinality with
  | singular presence =>
    rcases h.cases hcard with rfl | ⟨x, rfl⟩
    · rw [content_nil hcard]
      rfl
    · rw [content_one hcard]
      exact single_isSome hfaithful (h.scanned x (.head _))
  | list =>
    obtain ⟨values, hvalues⟩ := collect_map_eq_some fun x hx =>
      single_isSome hfaithful (h.scanned x hx)
    unfold content
    rw [hcard]
    rw [hvalues]
    rfl
  | map =>
    obtain ⟨name, d, value, hkind, hd, hfields⟩ := hmap hcard
    have hents : ∀ x ∈ l, (entry s meaning f x).isSome := by
      intro x hx
      obtain ⟨key, v, -, hentry, -⟩ := entry_of_scanned hfaithful (h.scanned x hx) hkind hd hfields
      rw [hentry]
      rfl
    obtain ⟨values, hvalues⟩ := collect_map_eq_some hents
    unfold content
    rw [hcard]
    rw [hvalues]
    rfl

theorem lookup_eq_some_iff (hsorted : entries.Pairwise (textLt ·.1 ·.1)) (key : Bytes) (v : Value) :
    (entries.reverse.find? (·.1 = key)).map (·.2) = some v ↔ (key, v) ∈ entries := by
  rw [map_eq_some_iff]
  constructor
  · rintro ⟨⟨key', v'⟩, hfind, rfl⟩
    have hkey : key' = key := by simpa using find?_some hfind
    rw [← hkey]
    exact mem_reverse.mp (mem_of_find?_eq_some hfind)
  · intro hmem
    cases hfind : entries.reverse.find? (·.1 = key) with
    | none =>
      have := find?_eq_none.mp hfind _ (mem_reverse.mpr hmem)
      simp at this
    | some found =>
      have hkey : found.1 = key := by simpa using find?_some hfind
      have hin := mem_reverse.mp (mem_of_find?_eq_some hfind)
      refine ⟨found, rfl, ?_⟩
      rcases Sorted.pairwise_cases hsorted hin hmem with rfl | hlt | hlt
      · rfl
      · exact absurd (hkey ▸ hlt) (textLt_irrefl _)
      · exact absurd (hkey ▸ hlt) (textLt_irrefl _)

/-- Entries in the order of their keys are known from what is found under each key. -/
theorem entries_eq_of_lookup_eq {entries' : List (Bytes × Value)}
    (h : entries.Pairwise (textLt ·.1 ·.1)) (h' : entries'.Pairwise (textLt ·.1 ·.1))
    (heq : (fun key => (entries.reverse.find? (·.1 = key)).map (·.2)) =
      fun key => (entries'.reverse.find? (·.1 = key)).map (·.2)) : entries = entries' := by
  have hirrefl : Std.Irrefl fun a b : Bytes × Value => textLt a.1 b.1 := ⟨fun a => textLt_irrefl a.1⟩
  have hantisymm : Std.Antisymm fun a b : Bytes × Value => textLt a.1 b.1 :=
    ⟨fun a b hab hba => absurd (textLt_trans hab hba) (textLt_irrefl a.1)⟩
  apply List.Pairwise.eq_of_mem_iff h h'
  rintro ⟨key, v⟩
  rw [← lookup_eq_some_iff h, ← lookup_eq_some_iff h']
  exact Eq.congr_left (congrFun heq key)

/-- The entries of a map, with its keys in order. -/
theorem Admitted.entries_sorted (hfaithful : Faithful s child meaning) (h : Admitted s child f tag l)
    (hcard : f.cardinality = .map) (hkind : f.kind = .message name) (hd : s.message name = some d)
    (hfields : d.fields = entryFields value)
    (hents : collect (l.map (entry s meaning f)) = some entries) :
    entries.Pairwise (textLt ·.1 ·.1) := by
  have hall := forall₂_of_collect hents
  have hkeys := h.keys hcard
  have hscanned := h.scanned
  clear hents h
  induction hall with
  | nil => exact .nil
  | @cons x first l entries hx hrest ih =>
    obtain ⟨hbefore, hkeys⟩ := pairwise_cons.mp hkeys
    refine .cons ?_ (ih hkeys fun y hy => hscanned y (.tail _ hy))
    intro later hlater
    obtain ⟨y, hy, hlater⟩ := exists_of_forall₂ hrest hlater
    obtain ⟨key, v, -, hentry, hkey⟩ := entry_of_scanned hfaithful (hscanned x (.head _)) hkind hd hfields
    obtain ⟨key', v', -, hentry', hkey'⟩ := entry_of_scanned hfaithful (hscanned y (.tail _ hy)) hkind hd hfields
    cases hx.symm.trans hentry
    cases hlater.symm.trans hentry'
    obtain ⟨first, second, hfirst, hsecond, hlt⟩ := hbefore y hy
    rw [hkey first hfirst, hkey' second hsecond] at hlt
    exact hlt

/-- The occurrences of a field are known from its value. -/
theorem content_injective (hfaithful : Faithful s child meaning) (h : Admitted s child f tag l)
    (h' : Admitted s child f tag l')
    (hmap : f.cardinality = .map → ∃ name d value, f.kind = .message name ∧ s.message name = some d ∧
      d.fields = entryFields value) (hv : content s meaning f l = some v)
    (hv' : content s meaning f l' = some v) : l = l' := by
  have hinj : ∀ x ∈ l, ∀ y ∈ l', ∀ w, single s meaning f x = some w → single s meaning f y = some w →
      x = y := by
    intro x hx y hy w hxw hyw
    exact single_injective hfaithful (h.scanned x hx) (h'.scanned y hy) (h.read x hx) (h'.read y hy)
      ((h.tag x hx).trans (h'.tag y hy).symm) hxw hyw
  cases hcard : f.cardinality with
  | singular presence =>
    have habsent : ∀ x, Scanned s child f x → x.Read → content s meaning f [x] ≠ content s meaning f [] := by
      intro x hx hread
      rw [content_one hcard, content_nil hcard]
      exact single_ne_absent hfaithful hx hread hcard
    rcases h.cases hcard with rfl | ⟨x, rfl⟩
    · rcases h'.cases hcard with rfl | ⟨y, rfl⟩
      · rfl
      · exact absurd (hv'.trans hv.symm) (habsent y (h'.scanned y (.head _)) (h'.read y (.head _)))
    · rcases h'.cases hcard with rfl | ⟨y, rfl⟩
      · exact absurd (hv.trans hv'.symm) (habsent x (h.scanned x (.head _)) (h.read x (.head _)))
      · rw [content_one hcard] at hv hv'
        rw [hinj x (.head _) y (.head _) v hv hv']
  | list =>
    unfold content at hv hv'
    rw [hcard] at hv hv'
    obtain ⟨items, hitems, rfl⟩ := map_eq_some_iff.mp hv
    obtain ⟨items', hitems', heq⟩ := map_eq_some_iff.mp hv'
    obtain rfl := Value.list.inj heq
    exact eq_of_collect_eq hitems hitems' hinj
  | map =>
    obtain ⟨name, d, value, hkind, hd, hfields⟩ := hmap hcard
    unfold content at hv hv'
    rw [hcard] at hv hv'
    obtain ⟨entries, hents, rfl⟩ := map_eq_some_iff.mp hv
    obtain ⟨entries', hents', heq⟩ := map_eq_some_iff.mp hv'
    have hsorted := h.entries_sorted hfaithful hcard hkind hd hfields hents
    have hsorted' := h'.entries_sorted hfaithful hcard hkind hd hfields hents'
    obtain rfl := entries_eq_of_lookup_eq hsorted' hsorted (Value.map.inj heq)
    apply eq_of_collect_eq hents hents'
    intro x hx y hy pair hxpair hypair
    obtain ⟨key, w, hsingle, hentry, -⟩ := entry_of_scanned hfaithful (h.scanned x hx) hkind hd hfields
    obtain ⟨key', w', hsingle', hentry', -⟩ := entry_of_scanned hfaithful (h'.scanned y hy) hkind hd hfields
    cases hxpair.symm.trans hentry
    cases hypair.symm.trans hentry'
    exact hinj x hx y hy _ hsingle hsingle'

end

section
variable {s : Schema} {child : ChildScan} {layer room : ℕ}
  {d : MessageDescriptor} {name : String} {fields : List Field} {v : Value} {f : FieldDescriptor}

theorem Canonical.admitted (h : Canonical s child d fields) (hread : ∀ x ∈ fields, x.Read)
    {tag : ℕ} (hf : d.getField tag = some f) :
    Admitted s child f tag (fields.filter (·.tag = tag)) := by
  have hmem : ∀ x ∈ fields.filter (·.tag = tag), x ∈ fields ∧ x.tag = tag := by
    intro x hx
    simpa using hx
  refine ⟨fun x hx => (hmem x hx).2, fun x hx => hread x (hmem x hx).1, ?_, ?_, ?_⟩
  · intro x hx
    obtain ⟨hin, rfl⟩ := hmem x hx
    obtain ⟨g, hg, hsupported⟩ := h.known x hin
    obtain rfl := mem_unique hf hg
    exact scanned_of_supported hsupported
  · intro presence hsingular
    cases hlist : fields.filter (·.tag = tag) with
    | nil => exact Nat.zero_le 1
    | cons x rest =>
      obtain ⟨hin, rfl⟩ := hmem x (hlist ▸ .head _)
      have hone := h.once x hin f hf (by simp [hsingular]) (by simp [hsingular])
      rw [hlist] at hone
      exact hone.le
  · intro hmap
    apply (h.keys.filter _).imp_of_mem
    intro x y hx hy hkeys
    obtain ⟨-, hxtag⟩ := hmem x hx
    obtain ⟨-, hytag⟩ := hmem y hy
    exact hkeys (hxtag.trans hytag.symm) f (hxtag ▸ hf) hmap

/-- The key that the order of the entries is about is the key that is decoded. -/
theorem jsonMemberKey_ok {rounds : ℕ} {key key' input : Bytes}
    (h : jsonMemberKey rounds key input = .ok key') : ∃ fields, Proto3.fields rounds input = some fields ∧
      key' = ((fields.filter (·.tag = 1)).getLast?.map (·.bytes)).getD key := by
  induction rounds generalizing key input with
  | zero =>
    cases input with
    | nil => exact ⟨[], rfl, (Except.ok.inj h).symm⟩
    | cons byte input => cases h
  | succ rounds ih =>
    cases input with
    | nil => exact ⟨[], rfl, (Except.ok.inj h).symm⟩
    | cons byte input =>
      obtain ⟨⟨x, rest⟩, hfield, hbody⟩ := Fallible.bind_eq_ok.mp h
      have hfirst := Proto3.field_of_ok hfield
      have hcons : ∀ {fields : List Field}, Proto3.fields rounds rest = some fields →
          Proto3.fields (rounds + 1) (byte :: input) = some (x :: fields) := by
        intro fields hfields
        unfold Proto3.fields
        rw [hfirst]
        show (Proto3.fields rounds rest >>= _) = _
        rw [hfields]
        rfl
      dsimp only at hbody
      by_cases htag : x.tag = 1
      · rw [if_pos htag] at hbody
        split at hbody
        · cases hbody
        · obtain ⟨fields, hfields, rfl⟩ := ih hbody
          refine ⟨x :: fields, hcons hfields, ?_⟩
          rw [filter_cons_of_pos (by simpa using htag), getLast?_cons]
          cases (fields.filter (·.tag = 1)).getLast? <;> rfl
      · rw [if_neg htag] at hbody
        obtain ⟨fields, hfields, rfl⟩ := ih hbody
        refine ⟨x :: fields, hcons hfields, ?_⟩
        rw [filter_cons_of_neg (by simpa using htag)]

variable {bytes : Bytes}

theorem value_eq_some_iff : value s (room + 1) d bytes = some v ↔
    ∃ fields contents, Proto3.fields bytes.length bytes = some fields ∧
      collect (d.fields.map fun f => content s (value s room) f (occurrences d f fields)) = some contents ∧
      v = .message contents := by
  constructor
  · intro h
    obtain ⟨fields, hfields, hbody⟩ := bind_eq_some_iff.mp h
    obtain ⟨contents, hcontents, hv⟩ := bind_eq_some_iff.mp hbody
    exact ⟨fields, contents, hfields, hcontents, (some.inj hv).symm⟩
  · rintro ⟨fields, contents, hfields, hcontents, rfl⟩
    exact bind_eq_some_iff.mpr ⟨fields, hfields, bind_eq_some_iff.mpr ⟨contents, hcontents, rfl⟩⟩

theorem Schema.entryFields_of_map (s : Schema) (hd : s.message name = some d)
    (hf : f ∈ d.fields) (hmap : f.cardinality = .map) : ∃ entry d' value, f.kind = .message entry ∧
      s.message entry = some d' ∧ d'.fields = entryFields value := by
  obtain ⟨entry, d', value, hkind, hd', hfields, -⟩ := s.entries name d hd f hf hmap
  exact ⟨entry, d', value, hkind, hd', hfields⟩

section
variable (ih : Faithful s (scan s layer room) (value s room)) (hd : s.message name = some d)
  (h : scan s layer (room + 1) d bytes = .ok .supported)
include ih hd h

/-- A supported message has a value. -/
theorem value_isSome : (value s (room + 1) d bytes).isSome := by
  obtain ⟨fields, hfields, -, hread, hcanon⟩ := scan_supported h
  have hcontents : ∀ f ∈ d.fields, (content s (value s room) f (occurrences d f fields)).isSome := by
    intro f hf
    have hget := getField_of_mem (s.distinct name d hd) hf
    rw [hcanon.occurrences_eq hget]
    exact (hcanon.admitted hread hget).content_isSome ih (s.entryFields_of_map hd hf)
  obtain ⟨contents, hcontents⟩ := collect_map_eq_some hcontents
  exact isSome_iff_exists.mpr ⟨_, value_eq_some_iff.mpr ⟨fields, contents, hfields, hcontents, rfl⟩⟩

/-- A supported message is known from its value. -/
theorem value_injective {bytes' : Bytes} (h' : scan s layer (room + 1) d bytes' = .ok .supported)
    (hv : value s (room + 1) d bytes = some v) (hv' : value s (room + 1) d bytes' = some v) : bytes = bytes' := by
  obtain ⟨fields, hfields, hbytes, hread, hcanon⟩ := scan_supported h
  obtain ⟨fields', hfields', hbytes', hread', hcanon'⟩ := scan_supported h'
  obtain ⟨found, contents, hfound, hcontents, rfl⟩ := value_eq_some_iff.mp hv
  obtain ⟨found', contents', hfound', hcontents', heq⟩ := value_eq_some_iff.mp hv'
  obtain rfl := Value.message.inj heq
  cases hfields.symm.trans hfound
  cases hfields'.symm.trans hfound'
  have hall : ∀ tag, fields.filter (·.tag = tag) = fields'.filter (·.tag = tag) := by
    intro tag
    cases hget : d.getField tag with
    | none =>
      have hnone : ∀ l, Canonical s (scan s layer room) d l → l.filter (·.tag = tag) = [] := by
        intro l hl
        apply filter_eq_nil_iff.mpr
        intro x hx
        obtain ⟨f, hf, -⟩ := hl.known x hx
        have hne : x.tag ≠ tag := by
          rintro rfl
          rw [hget] at hf
          cases hf
        simpa using hne
      rw [hnone fields hcanon, hnone fields' hcanon']
    | some f =>
      obtain ⟨hf, rfl⟩ := mem_of_getField hget
      obtain ⟨w, hw, hw'⟩ := exists_eq_of_collect hcontents hcontents' hf
      rw [hcanon.occurrences_eq hget] at hw
      rw [hcanon'.occurrences_eq hget] at hw'
      exact content_injective ih (hcanon.admitted hread hget) (hcanon'.admitted hread' hget)
        (s.entryFields_of_map hd hf) hw hw'
  rw [hbytes, hbytes', Sorted.eq_of_filter_eq hcanon.sorted hcanon'.sorted hall]

theorem value_entry {kind : Kind} (hfields : d.fields = entryFields kind) :
    ∃ key v, value s (room + 1) d bytes = some (.message [.bytes key, v]) ∧
      ∀ key', jsonMemberKey bytes.length [] bytes = .ok key' → key' = key := by
  obtain ⟨v, hv⟩ := isSome_iff_exists.mp (value_isSome ih hd h)
  obtain ⟨fields, contents, hread, hcontents, rfl⟩ := value_eq_some_iff.mp hv
  rw [hfields] at hcontents
  have hall := forall₂_of_collect hcontents
  cases hall with
  | @cons _ first _ _ hfirst hrest =>
    cases hrest with
    | @cons _ second _ _ hsecond hnil =>
      cases hnil
      rw [occurrences_of_none rfl] at hfirst
      -- The key is the last field 1, or empty.
      have hkey : first = .bytes (((fields.filter (·.tag = 1)).getLast?.map (·.bytes)).getD []) := by
        unfold content at hfirst
        cases hlast : (fields.filter (·.tag = 1)).getLast? with
        | none =>
          rw [hlast] at hfirst
          exact (some.inj hfirst).symm
        | some x =>
          rw [hlast] at hfirst
          dsimp only at hfirst
          unfold single at hfirst
          split_ifs at hfirst
          exact (some.inj hfirst).symm
      refine ⟨_, second, hkey ▸ hv, ?_⟩
      intro key' hkey'
      obtain ⟨fields', hread', rfl⟩ := jsonMemberKey_ok hkey'
      rw [some.inj (hread'.symm.trans hread)]

end

theorem faithful_scan (s : Schema) (layer room : ℕ) : Faithful s (scan s layer room) (value s room) := by
  induction room with
  | zero =>
    refine ⟨?_, ?_, ?_, ?_⟩
    · intro name d bytes _ h
      cases h
    · intro name d bytes bytes' v _ h
      cases h
    · intro d bytes v h
      cases h
    · intro name d bytes kind _ _ h
      cases h
  | succ room ih =>
    refine ⟨?_, ?_, ?_, ?_⟩
    · intro name d bytes hd h
      exact value_isSome ih hd h
    · intro name d bytes bytes' v hd h h' hv hv'
      exact value_injective ih hd h h' hv hv'
    · intro d bytes v hv
      obtain ⟨fields, contents, -, -, rfl⟩ := value_eq_some_iff.mp hv
      exact ⟨contents, rfl⟩
    · intro name d bytes kind hd hfields h
      exact value_entry ih hd h hfields

/-- At every depth and layer, supported byte strings mean a message, and are equal if they mean the same
one. -/
theorem scan_canonical (s : Schema) (layer depth : ℕ) (name : String) (d : MessageDescriptor)
    (hd : s.message name = some d) (bytes bytes' : Bytes)
    (h : scanAt s layer depth d bytes = .ok .supported)
    (h' : scanAt s layer depth d bytes' = .ok .supported) :
    (value s (maxDepth + 1 - depth) d bytes).isSome ∧
      (value s (maxDepth + 1 - depth) d bytes = value s (maxDepth + 1 - depth) d bytes' → bytes = bytes') := by
  have hfaithful := faithful_scan s layer (maxDepth + 1 - depth)
  obtain ⟨v, hv⟩ := isSome_iff_exists.mp (hfaithful.total name d bytes hd h)
  refine ⟨by rw [hv]; rfl, ?_⟩
  intro heq
  exact hfaithful.injective name d bytes bytes' v hd h h' hv (heq ▸ hv)

end

/-- The message of the schema that has its one map. -/
def exportDescriptor : MessageDescriptor where
  name := "SurfaceExportMetadata"
  fields := [⟨1, "truncated", .bool, .singular false, none⟩,
    ⟨2, "next_before", .int64, .singular true, some "ramflux.message.v1.SurfaceExportMetadata._next_before"⟩,
    ⟨3, "skipped", .message "SkippedEntry", .map, none⟩]
  oneofs := [⟨"ramflux.message.v1.SurfaceExportMetadata._next_before", true⟩]

def exportSchema : Schema where
  message name :=
    if name = "SurfaceExportMetadata" then some exportDescriptor
    else if name = "SkippedEntry" then some ⟨"SkippedEntry", entryFields .uint32, []⟩
    else none
  fieldLayer _ _ := some 1
  graphemes _ := 1
  jsonValue _ := none
  iJson _ := false
  distinct := by
    intro name d h
    split_ifs at h <;> obtain rfl := some.inj h <;> decide
  entries := by
    intro name d h f hf hmap
    split_ifs at h
    · cases h
      simp only [exportDescriptor, mem_cons, not_mem_nil, or_false] at hf
      rcases hf with rfl | rfl | rfl
      · cases hmap
      · cases hmap
      · exact ⟨"SkippedEntry", _, .uint32, rfl, rfl, rfl, fun inner hinner => by cases hinner⟩
    · cases h
      simp only [entryFields, mem_cons, not_mem_nil, or_false] at hf
      rcases hf with rfl | rfl <;> cases hmap

/-- A truncated export with skipped entries under two keys, one of them at its default. -/
def exportBytes : Bytes := [0x08, 0x01, 0x1a, 0x05, 0x0a, 0x01, 0x61, 0x10, 0x07, 0x1a, 0x03, 0x0a, 0x01, 0x62]

theorem scan_canonical_export :
    scanAt exportSchema 2 0 exportDescriptor exportBytes = .ok .supported ∧
    (value exportSchema 33 exportDescriptor exportBytes).isSome ∧
    ∀ bytes, scanAt exportSchema 2 0 exportDescriptor bytes = .ok .supported →
      value exportSchema 33 exportDescriptor exportBytes = value exportSchema 33 exportDescriptor bytes →
      exportBytes = bytes := by
  have hscan : scanAt exportSchema 2 0 exportDescriptor exportBytes = .ok .supported := by decide +kernel
  have hd : exportSchema.message "SurfaceExportMetadata" = some exportDescriptor := rfl
  refine ⟨hscan, (scan_canonical exportSchema 2 0 _ _ hd exportBytes exportBytes hscan hscan).1, ?_⟩
  intro bytes hbytes
  exact (scan_canonical exportSchema 2 0 _ _ hd exportBytes bytes hscan hbytes).2

end Ramflux.Message
