import Ramflux.Protocol.Types
import Ramflux.Lib.Fallible
import Ramflux.Lib.Framing

/-! Canonical header bytes of direct and group messages. -/
namespace Ramflux
open Fallible

def bigEndian (width n : ℕ) : Bytes :=
  (List.range width).reverse.map fun i => UInt8.ofNat (n / 256 ^ i)

theorem reverse_bigEndian (width n : ℕ) : (bigEndian width n).reverse = littleEndian width n := by
  unfold bigEndian
  rw [← List.map_reverse, List.reverse_reverse]
  induction width generalizing n with
  | zero => rfl
  | succ width ih =>
    rw [List.range_succ_eq_map, List.map_cons, List.map_map, littleEndian, ← ih]
    simp [Function.comp_def, pow_succ', Nat.div_div_eq_div_mul]

@[simp] theorem length_bigEndian (width n : ℕ) : (bigEndian width n).length = width := by
  simp [bigEndian]

theorem bigEndian_inj {width m n : ℕ} (hm : m < 256 ^ width) (hn : n < 256 ^ width)
    (h : bigEndian width m = bigEndian width n) : m = n := by
  have hreverse := congrArg List.reverse h
  rw [reverse_bigEndian, reverse_bigEndian] at hreverse
  rw [← ofLittleEndian_littleEndian hm, hreverse, ofLittleEndian_littleEndian hn]

inductive HeaderKind
  | dmMessage
  | groupMessage
  deriving DecidableEq

def HeaderKind.toByte : HeaderKind → UInt8
  | dmMessage => 0x01
  | groupMessage => 0x02

inductive HeaderFieldValue
  | u64 (value : ℕ)
  | bytes32 (value : Vector UInt8 32)
  | string (value : String)
  deriving DecidableEq

structure HeaderField where
  fieldId : ℕ
  value : HeaderFieldValue
  deriving DecidableEq

def fieldValueBytes : HeaderFieldValue → Bytes
  | .u64 value => bigEndian 8 value
  | .bytes32 value => value.toList
  | .string value => utf8 value

def magic : Bytes := utf8 "RFH1"

def encodeFields : List HeaderField → Except ProtocolError Bytes
  | [] => .ok []
  | field :: fields =>
    let value := fieldValueBytes field.value
    if u32Max < value.length then .error .headerFieldValueTooLong
    else do
      let rest ← encodeFields fields
      pure (bigEndian 2 field.fieldId ++ bigEndian 4 value.length ++ value ++ rest)

def canonicalHeaderBytes (kind : HeaderKind) (fields : List HeaderField) :
    Except ProtocolError Bytes :=
  if 2 ^ 16 ≤ fields.length then .error .headerFieldCountOverflow
  else do
    let body ← encodeFields fields
    pure (magic ++ [kind.toByte, 1] ++ bigEndian 2 fields.length ++ body)

theorem encodeFields_isOk (fields : List HeaderField)
    (h : ∀ f ∈ fields, (fieldValueBytes f.value).length ≤ u32Max) :
    ∃ body, encodeFields fields = .ok body := by
  induction fields with
  | nil => exact ⟨[], rfl⟩
  | cons field fields ih =>
    obtain ⟨rest, hrest⟩ := ih fun f hf => h f (List.mem_cons_of_mem _ hf)
    have hle := h field (List.mem_cons_self ..)
    simp only [encodeFields, if_neg (not_lt.mpr hle), hrest]
    exact ⟨_, rfl⟩

/-- A header encodes when its fields are few and each value fits a 32-bit length. -/
theorem canonicalHeaderBytes_isOk (kind : HeaderKind) (fields : List HeaderField)
    (hcount : fields.length < 2 ^ 16) (h : ∀ f ∈ fields, (fieldValueBytes f.value).length ≤ u32Max) :
    ∃ canonical, canonicalHeaderBytes kind fields = .ok canonical := by
  obtain ⟨body, hbody⟩ := encodeFields_isOk fields h
  rw [canonicalHeaderBytes, if_neg (not_le.mpr hcount), hbody]
  exact ⟨_, rfl⟩

def HeaderField.encoded (field : HeaderField) : ℕ × Bytes := (field.fieldId, fieldValueBytes field.value)

theorem encodeFields_cons_ok {field : HeaderField} {fields : List HeaderField} {body : Bytes}
    (h : encodeFields (field :: fields) = .ok body) :
    (fieldValueBytes field.value).length < 256 ^ 4 ∧ ∃ rest, encodeFields fields = .ok rest ∧
      body = bigEndian 2 field.fieldId ++ (bigEndian 4 (fieldValueBytes field.value).length ++
        (fieldValueBytes field.value ++ rest)) := by
  unfold encodeFields at h
  dsimp only at h
  split_ifs at h with hlong
  obtain ⟨rest, hrest, hbody⟩ := bind_eq_ok.mp h
  cases hbody
  refine ⟨?_, rest, hrest, by simp⟩
  unfold u32Max at hlong
  omega

/-- Id and length have a fixed width, and the length says where the value ends. -/
theorem encodeFields_inj {fields fields' : List HeaderField} {body : Bytes}
    (hcount : fields.length = fields'.length) (hids : ∀ f ∈ fields, f.fieldId < 2 ^ 16)
    (hids' : ∀ f ∈ fields', f.fieldId < 2 ^ 16) (h : encodeFields fields = .ok body)
    (h' : encodeFields fields' = .ok body) : fields.map (·.encoded) = fields'.map (·.encoded) := by
  induction fields generalizing fields' body with
  | nil => rw [List.eq_nil_of_length_eq_zero hcount.symm]
  | cons field fields ih =>
    cases fields' with
    | nil => cases hcount
    | cons field' fields' =>
      obtain ⟨hvalue, rest, hrest, rfl⟩ := encodeFields_cons_ok h
      obtain ⟨hvalue', rest', hrest', heq⟩ := encodeFields_cons_ok h'
      obtain ⟨hid, heq⟩ := List.append_inj heq (by simp)
      obtain ⟨hlen, heq⟩ := List.append_inj heq (by simp)
      have hlen := bigEndian_inj hvalue hvalue' hlen
      obtain ⟨hbytes, rfl⟩ := List.append_inj heq hlen
      have hid := bigEndian_inj (hids field (.head _)) (hids' field' (.head _)) hid
      have hfields := ih (Nat.succ.inj hcount) (fun f hf => hids f (.tail _ hf))
        (fun f hf => hids' f (.tail _ hf)) hrest hrest'
      rw [List.map_cons, List.map_cons, hfields]
      unfold HeaderField.encoded
      rw [hid, hbytes]

/-- Accepted headers with the same bytes have the same kind, ids and value bytes. Ids are 16-bit. -/
theorem canonicalHeaderBytes_inj {kind kind' : HeaderKind} {fields fields' : List HeaderField}
    {canonical : Bytes} (hids : ∀ f ∈ fields, f.fieldId < 2 ^ 16)
    (hids' : ∀ f ∈ fields', f.fieldId < 2 ^ 16) (h : canonicalHeaderBytes kind fields = .ok canonical)
    (h' : canonicalHeaderBytes kind' fields' = .ok canonical) :
    kind = kind' ∧ fields.map (·.encoded) = fields'.map (·.encoded) := by
  unfold canonicalHeaderBytes at h h'
  split_ifs at h h' with hmany hmany'
  obtain ⟨body, hbody, hcanon⟩ := bind_eq_ok.mp h
  obtain ⟨body', hbody', hcanon'⟩ := bind_eq_ok.mp h'
  have heq := Except.ok.inj (hcanon.trans hcanon'.symm)
  obtain ⟨hfront, rfl⟩ := List.append_inj heq (by simp)
  obtain ⟨hhead, hcount⟩ := List.append_inj hfront (by simp)
  have hkind : kind.toByte = kind'.toByte := by simpa using hhead
  have hcount := bigEndian_inj (not_le.mp hmany) (not_le.mp hmany') hcount
  refine ⟨?_, encodeFields_inj hcount hids hids' hbody hbody'⟩
  cases kind <;> cases kind' <;> first | rfl | cases hkind

/-- The number zero and a string of eight zero bytes are told apart by nothing but their type. -/
theorem canonicalHeaderBytes_inj_zero :
    [HeaderField.encoded ⟨1, .u64 0⟩] = [HeaderField.encoded ⟨1, .string ("".pushn '\x00' 8)⟩] := by
  have hnumber : canonicalHeaderBytes .dmMessage [⟨1, .u64 0⟩] =
      .ok (magic ++ [1, 1, 0, 1, 0, 1, 0, 0, 0, 8] ++ List.replicate 8 0) := by decide +kernel
  have hstring : canonicalHeaderBytes .dmMessage [⟨1, .string ("".pushn '\x00' 8)⟩] =
      .ok (magic ++ [1, 1, 0, 1, 0, 1, 0, 0, 0, 8] ++ List.replicate 8 0) := by decide +kernel
  exact (canonicalHeaderBytes_inj (by simp) (by simp) hnumber hstring).2

end Ramflux
