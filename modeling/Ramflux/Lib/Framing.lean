import Mathlib.Tactic.Common
import Mathlib.Data.List.Basic
import Mathlib.Data.Nat.Basic
import Mathlib.Algebra.Order.Group.Nat

/-! Checksummed frames end to end in a byte log, and what a reader finds after an arbitrary cut. -/
namespace Ramflux
open List

def littleEndian : ℕ → ℕ → List UInt8
  | 0, _ => []
  | width + 1, n => UInt8.ofNat n :: littleEndian width (n / 256)

def ofLittleEndian : List UInt8 → ℕ
  | [] => 0
  | b :: bytes => b.toNat + 256 * ofLittleEndian bytes

@[simp] theorem length_littleEndian (width n : ℕ) : (littleEndian width n).length = width := by
  induction width generalizing n with
  | zero => rfl
  | succ width ih => simp [littleEndian, ih]

theorem ofLittleEndian_littleEndian {width n : ℕ} (h : n < 256 ^ width) :
    ofLittleEndian (littleEndian width n) = n := by
  induction width generalizing n with
  | zero =>
    have hn : n = 0 := by simpa using h
    simp [littleEndian, ofLittleEndian, hn]
  | succ width ih =>
    have hhigh : n / 256 < 256 ^ width := by
      rw [Nat.div_lt_iff_lt_mul (by decide)]
      rwa [pow_succ] at h
    have hlow : (UInt8.ofNat n).toNat = n % 256 := by simp
    rw [littleEndian, ofLittleEndian, ih hhigh, hlow]
    omega

section
variable (checksum : List UInt8 → UInt32)

/-- Length, checksum and payload of one record. -/
def frame (payload : List UInt8) : List UInt8 :=
  littleEndian 4 payload.length ++ littleEndian 4 (checksum payload).toNat ++ payload

/-- Payload of the first frame; `none` when the bytes end inside it or the checksum differs. -/
def readFrame (bytes : List UInt8) : Option (List UInt8) :=
  let len := ofLittleEndian (bytes.take 4)
  let expected := ofLittleEndian ((bytes.drop 4).take 4)
  let payload := (bytes.drop 8).take len
  if bytes.length < 8 then none
  else if payload.length < len then none
  else if (checksum payload).toNat ≠ expected then none
  else some payload

variable {checksum}

@[simp] theorem length_frame (payload : List UInt8) :
    (frame checksum payload).length = 8 + payload.length := by
  simp [frame]
  omega

/-- The fixed eight bytes of a frame, whatever follows them. -/
theorem frame_append (payload rest : List UInt8) :
    frame checksum payload ++ rest = littleEndian 4 payload.length ++
      (littleEndian 4 (checksum payload).toNat ++ (payload ++ rest)) := by
  simp [frame]

theorem take_four_frame_append (payload rest : List UInt8) :
    (frame checksum payload ++ rest).take 4 = littleEndian 4 payload.length := by
  rw [frame_append, take_left' (by simp)]

variable {payload : List UInt8}

theorem readFrame_frame_append (hlen : payload.length < 2 ^ 32)
    (rest : List UInt8) : readFrame checksum (frame checksum payload ++ rest) = some payload := by
  have hdrop : (frame checksum payload ++ rest).drop 4 =
      littleEndian 4 (checksum payload).toNat ++ (payload ++ rest) := by
    rw [frame_append, drop_left' (by simp)]
  have hbody : (frame checksum payload ++ rest).drop 8 = payload ++ rest := by
    have h : (frame checksum payload ++ rest).drop 8 =
        ((frame checksum payload ++ rest).drop 4).drop 4 := by simp
    rw [h, hdrop, drop_left' (by simp)]
  have hsum : ofLittleEndian (littleEndian 4 (checksum payload).toNat) = (checksum payload).toNat :=
    ofLittleEndian_littleEndian (lt_of_lt_of_eq (checksum payload).toNat_lt (by decide))
  unfold readFrame
  dsimp only
  rw [take_four_frame_append, ofLittleEndian_littleEndian (by omega), hdrop,
    take_left' (by simp), hsum, hbody, take_left' rfl]
  have hsize : ¬(frame checksum payload ++ rest).length < 8 := by
    rw [length_append, length_frame]
    omega
  simp only [hsize, if_false, lt_irrefl, ne_eq, not_true_eq_false]

/-- A frame cut short is never read, whatever its checksum. -/
theorem readFrame_take_frame (hlen : payload.length < 2 ^ 32) {n : ℕ}
    (hn : n < (frame checksum payload).length) :
    readFrame checksum ((frame checksum payload).take n) = none := by
  rw [length_frame] at hn
  unfold readFrame
  by_cases hshort : n < 8
  · have hsize : ((frame checksum payload).take n).length < 8 := by
      simp
      omega
    rw [if_pos hsize]
  · -- The whole length field is there, and it announces more bytes than are left.
    have hfour : ((frame checksum payload).take n).take 4 = littleEndian 4 payload.length := by
      rw [take_take, min_eq_left (by omega)]
      simpa using @take_four_frame_append checksum payload []
    have hsize : ¬((frame checksum payload).take n).length < 8 := by
      simp
      omega
    have hbody : ((((frame checksum payload).take n).drop 8).take payload.length).length <
        payload.length := by
      simp
      omega
    rw [if_neg hsize, hfour, ofLittleEndian_littleEndian (by omega), if_pos hbody]

end

section
variable {ι β : Type*} (start : ι → ℕ) (chunk : ι → List β)

/-- Each item starts where the one before it ends, the first at the given offset. -/
def Contiguous : ℕ → List ι → Prop
  | _, [] => True
  | offset, i :: items => start i = offset ∧ Contiguous (offset + (chunk i).length) items

variable {start chunk} {offset : ℕ} {items : List ι}

/-- Items that end by `limit`. -/
def wholeUpTo (start : ι → ℕ) (chunk : ι → List β) (limit : ℕ) (items : List ι) : List ι :=
  items.filter fun i => start i + (chunk i).length ≤ limit

variable {limit : ℕ} {i : ι}

theorem wholeUpTo_cons_of_le (h : start i + (chunk i).length ≤ limit) :
    wholeUpTo start chunk limit (i :: items) = i :: wholeUpTo start chunk limit items :=
  filter_cons_of_pos (by simpa using h)

theorem wholeUpTo_cons_of_lt (h : limit < start i + (chunk i).length) :
    wholeUpTo start chunk limit (i :: items) = wholeUpTo start chunk limit items :=
  filter_cons_of_neg (by simpa using h)

theorem contiguous_append {more : List ι} : Contiguous start chunk offset (items ++ more) ↔
    Contiguous start chunk offset items ∧
      Contiguous start chunk (offset + (items.flatMap chunk).length) more := by
  induction items generalizing offset with
  | nil => simp [Contiguous]
  | cons a items ih =>
    rw [cons_append, Contiguous, Contiguous, ih, flatMap_cons, length_append,
      Nat.add_assoc, and_assoc]

theorem contiguous_concat : Contiguous start chunk offset (items ++ [i]) ↔
    Contiguous start chunk offset items ∧ start i = offset + (items.flatMap chunk).length := by
  rw [contiguous_append]
  simp [Contiguous]

theorem length_le_length_flatMap (hpos : ∀ i ∈ items, 0 < (chunk i).length) :
    items.length ≤ (items.flatMap chunk).length := by
  induction items with
  | nil => simp
  | cons a items ih =>
    have ha := hpos a (.head _)
    have hrest := ih fun i hi => hpos i (.tail _ hi)
    rw [flatMap_cons, length_append, length_cons]
    omega

section
variable (h : Contiguous start chunk offset items)
include h

theorem Contiguous.le_start (hi : i ∈ items) : offset ≤ start i := by
  induction items generalizing offset with
  | nil => cases hi
  | cons a items ih =>
    rcases mem_cons.mp hi with rfl | hi
    · exact h.1.ge
    · exact le_trans (Nat.le_add_right _ _) (ih h.2 hi)

section
variable (hpos : ∀ i ∈ items, 0 < (chunk i).length)
include hpos

theorem Contiguous.wholeUpTo_eq_nil (hlimit : limit ≤ offset) :
    wholeUpTo start chunk limit items = [] := by
  rw [Ramflux.wholeUpTo, filter_eq_nil_iff]
  intro i hi
  have hstart := h.le_start hi
  have hlen := hpos i hi
  simp
  omega

/-- Bytes before `limit`: the items that end by then, and an empty tail or a cut item. -/
theorem Contiguous.take_flatMap (hlimit : offset ≤ limit) :
    ∃ tail, (items.flatMap chunk).take (limit - offset) =
        (wholeUpTo start chunk limit items).flatMap chunk ++ tail ∧
      (tail = [] ∨ ∃ i ∈ items, ∃ n < (chunk i).length, tail = (chunk i).take n) := by
  induction items generalizing offset with
  | nil => exact ⟨[], by simp [wholeUpTo], .inl rfl⟩
  | cons a items ih =>
    have htail : ∀ i ∈ items, 0 < (chunk i).length := fun i hi => hpos i (.tail _ hi)
    by_cases ha : start a + (chunk a).length ≤ limit
    · have hstart := h.1
      obtain ⟨tail, htake, hcut⟩ := ih h.2 htail (by omega)
      refine ⟨tail, ?_, ?_⟩
      · rw [wholeUpTo_cons_of_le ha, flatMap_cons, flatMap_cons, take_append,
          take_of_length_le (by omega), append_assoc, ← htake]
        congr 2
        omega
      · rcases hcut with htail | ⟨i, hi, hn⟩
        · exact .inl htail
        · exact .inr ⟨i, .tail _ hi, hn⟩
    · -- The cut falls into the first item: nothing after it is left either.
      have hstart := h.1
      refine ⟨(chunk a).take (limit - offset), ?_, .inr ⟨a, .head _, limit - offset, by omega, rfl⟩⟩
      rw [wholeUpTo_cons_of_lt (by omega), h.2.wholeUpTo_eq_nil htail (by omega),
        flatMap_cons, take_append_of_le_length (by omega)]
      simp

theorem Contiguous.filter_whole (limit : ℕ) :
    Contiguous start chunk offset (wholeUpTo start chunk limit items) := by
  induction items generalizing offset with
  | nil => trivial
  | cons a items ih =>
    have hstart := h.1
    have htail : ∀ i ∈ items, 0 < (chunk i).length := fun i hi => hpos i (.tail _ hi)
    by_cases ha : start a + (chunk a).length ≤ limit
    · rw [wholeUpTo_cons_of_le ha]
      exact ⟨hstart, ih h.2 htail⟩
    · rw [wholeUpTo_cons_of_lt (by omega), h.2.wholeUpTo_eq_nil htail (by omega)]
      trivial

end

end

end
end Ramflux
