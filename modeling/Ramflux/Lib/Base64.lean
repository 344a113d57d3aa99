import Mathlib.Tactic.Common
import Mathlib.Data.List.Basic

/-! Unpadded base64url text: the encoding is injective, and leaves out the separators of joined parts. -/
namespace Ramflux

def base64Char (n : ℕ) : Char :=
  if n < 26 then Char.ofNat (65 + n)
  else if n < 52 then Char.ofNat (71 + n)
  else if n < 62 then Char.ofNat (n - 4)
  else if n = 62 then '-' else '_'

def base64Chars : List UInt8 → List Char
  | [] => []
  | [a] => [base64Char (a.toNat / 4), base64Char (a.toNat % 4 * 16)]
  | [a, b] => [base64Char (a.toNat / 4), base64Char (a.toNat % 4 * 16 + b.toNat / 16),
      base64Char (b.toNat % 16 * 4)]
  | a :: b :: c :: rest => base64Char (a.toNat / 4) :: base64Char (a.toNat % 4 * 16 + b.toNat / 16) ::
      base64Char (b.toNat % 16 * 4 + c.toNat / 64) ::
      base64Char (c.toNat % 64) :: base64Chars rest

/-- `URL_SAFE_NO_PAD.encode`. -/
def encodeBase64url (bytes : List UInt8) : String := String.ofList (base64Chars bytes)

private def base64Value (c : Char) : ℕ := (List.range 64).findIdx (base64Char · == c)

private theorem base64Value_base64Char : ∀ n < 64, base64Value (base64Char n) = n := by
  decide +kernel

theorem base64Char_inj {m n : ℕ} (hm : m < 64) (hn : n < 64)
    (h : base64Char m = base64Char n) : m = n := by
  rw [← base64Value_base64Char m hm, ← base64Value_base64Char n hn, h]

private theorem byte_eq {a b : UInt8} (hq : a.toNat / 4 = b.toNat / 4)
    (hr : a.toNat % 4 = b.toNat % 4) : a = b := by
  apply UInt8.toNat_inj.mp
  omega

theorem base64Chars_inj {x y : List UInt8} (h : base64Chars x = base64Chars y) : x = y := by
  fun_induction base64Chars x generalizing y with
  | case1 =>
    match y with
    | [] => rfl
    | [_] | [_, _] | _ :: _ :: _ :: _ => simp [base64Chars] at h
  | case2 a =>
    match y with
    | [] | [_, _] | _ :: _ :: _ :: _ => simp [base64Chars] at h
    | [b] =>
      simp only [base64Chars, List.cons.injEq, and_true] at h
      have ha := a.toNat_lt
      have hb := b.toNat_lt
      have h1 := base64Char_inj (by omega) (by omega) h.1
      have h2 := base64Char_inj (by omega) (by omega) h.2
      rw [byte_eq h1 (by omega)]
  | case3 a b =>
    match y with
    | [] | [_] | _ :: _ :: _ :: _ => simp [base64Chars] at h
    | [c, d] =>
      simp only [base64Chars, List.cons.injEq, and_true] at h
      have ha := a.toNat_lt
      have hb := b.toNat_lt
      have hc := c.toNat_lt
      have hd := d.toNat_lt
      have h1 := base64Char_inj (by omega) (by omega) h.1
      have h2 := base64Char_inj (by omega) (by omega) h.2.1
      have h3 := base64Char_inj (by omega) (by omega) h.2.2
      have hbd : b = d := UInt8.toNat_inj.mp (by omega)
      rw [byte_eq h1 (by omega), hbd]
  | case4 a b c rest ih =>
    match y with
    | [] | [_] | [_, _] => simp [base64Chars] at h
    | d :: e :: f :: rest' =>
      simp only [base64Chars, List.cons.injEq] at h
      obtain ⟨h1, h2, h3, h4, hrest⟩ := h
      have ha := a.toNat_lt
      have hb := b.toNat_lt
      have hc := c.toNat_lt
      have hd := d.toNat_lt
      have he := e.toNat_lt
      have hf := f.toNat_lt
      have h1 := base64Char_inj (by omega) (by omega) h1
      have h2 := base64Char_inj (by omega) (by omega) h2
      have h3 := base64Char_inj (by omega) (by omega) h3
      have h4 := base64Char_inj (by omega) (by omega) h4
      have hbe : b = e := UInt8.toNat_inj.mp (by omega)
      have hcf : c = f := UInt8.toNat_inj.mp (by omega)
      rw [byte_eq h1 (by omega), hbe, hcf, ih hrest]

theorem encodeBase64url_inj {x y : List UInt8} (h : encodeBase64url x = encodeBase64url y) :
    x = y := base64Chars_inj (String.ofList_injective h)

private theorem base64Char_ne_colon : ∀ n < 64, base64Char n ≠ ':' := by
  decide +kernel

theorem colon_notMem_base64Chars (x : List UInt8) : ':' ∉ base64Chars x := by
  fun_induction base64Chars x with
  | case1 => simp
  | case2 a =>
    have ha := a.toNat_lt
    have h1 := base64Char_ne_colon (a.toNat / 4) (by omega)
    have h2 := base64Char_ne_colon (a.toNat % 4 * 16) (by omega)
    simp [h1.symm, h2.symm]
  | case3 a b =>
    have ha := a.toNat_lt
    have hb := b.toNat_lt
    have h1 := base64Char_ne_colon (a.toNat / 4) (by omega)
    have h2 := base64Char_ne_colon (a.toNat % 4 * 16 + b.toNat / 16) (by omega)
    have h3 := base64Char_ne_colon (b.toNat % 16 * 4) (by omega)
    simp [h1.symm, h2.symm, h3.symm]
  | case4 a b c rest ih =>
    have ha := a.toNat_lt
    have hb := b.toNat_lt
    have hc := c.toNat_lt
    have h1 := base64Char_ne_colon (a.toNat / 4) (by omega)
    have h2 := base64Char_ne_colon (a.toNat % 4 * 16 + b.toNat / 16) (by omega)
    have h3 := base64Char_ne_colon (b.toNat % 16 * 4 + c.toNat / 64) (by omega)
    have h4 := base64Char_ne_colon (c.toNat % 64) (by omega)
    simp [h1.symm, h2.symm, h3.symm, h4.symm, ih]

theorem length_base64Chars_le (x : List UInt8) : (base64Chars x).length ≤ 2 * x.length := by
  fun_induction base64Chars x with
  | case1 | case2 a | case3 a b => simp
  | case4 a b c rest ih =>
    simp only [List.length_cons]
    omega

/-- Value of a letter's byte, `none` outside the alphabet. -/
def base64Digit (byte : UInt8) : Option ℕ :=
  let n := byte.toNat
  if 65 ≤ n ∧ n ≤ 90 then some (n - 65)
  else if 97 ≤ n ∧ n ≤ 122 then some (n - 71)
  else if 48 ≤ n ∧ n ≤ 57 then some (n + 4)
  else if n = 45 then some 62
  else if n = 95 then some 63
  else none

def base64Bytes : List ℕ → Option (List UInt8)
  | [] => some []
  | [_] => none
  | [a, b] =>
    -- the bits that fill up the last letter are zero
    if b % 16 = 0 then some [UInt8.ofNat (a * 4 + b / 16)] else none
  | [a, b, c] =>
    if c % 4 = 0 then some [UInt8.ofNat (a * 4 + b / 16), UInt8.ofNat (b % 16 * 16 + c / 4)]
    else none
  | a :: b :: c :: d :: rest => do
    let bytes ← base64Bytes rest
    some (UInt8.ofNat (a * 4 + b / 16) :: UInt8.ofNat (b % 16 * 16 + c / 4) ::
      UInt8.ofNat (c % 4 * 64 + d) :: bytes)

/-- `URL_SAFE_NO_PAD.decode`. -/
def decodeBase64url (text : String) : Option (List UInt8) := do
  let digits ← text.toByteArray.data.toList.mapM base64Digit
  base64Bytes digits

theorem append_cons_inj {α : Type*} {x : α} {l₁ l₂ r₁ r₂ : List α} (h₁ : x ∉ l₁) (h₂ : x ∉ l₂)
    (h : l₁ ++ x :: r₁ = l₂ ++ x :: r₂) : l₁ = l₂ ∧ r₁ = r₂ := by
  induction l₁ generalizing l₂ with
  | nil =>
    cases l₂ with
    | nil => simpa using h
    | cons b l₂ =>
      obtain ⟨rfl, -⟩ := List.cons.inj h
      simp at h₂
  | cons a l₁ ih =>
    cases l₂ with
    | nil =>
      obtain ⟨rfl, -⟩ := List.cons.inj h
      simp at h₁
    | cons b l₂ =>
      obtain ⟨rfl, htail⟩ := List.cons.inj h
      obtain ⟨rfl, hr⟩ := ih (fun hm => h₁ (List.mem_cons_of_mem _ hm))
        (fun hm => h₂ (List.mem_cons_of_mem _ hm)) htail
      exact ⟨rfl, hr⟩

end Ramflux
