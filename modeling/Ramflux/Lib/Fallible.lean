import Mathlib.Tactic.Common

/-! Inversion rules for computations that may fail. -/
namespace Ramflux.Fallible
open Except
variable {ε : Type*} {α β : Type}

variable {x : Except ε α} {b : β}

theorem bind_eq_ok {f : α → Except ε β} : (x >>= f) = .ok b ↔ ∃ a, x = .ok a ∧ f a = .ok b := by
  cases x with
  | error e =>
    constructor
    · intro h
      cases h
    · rintro ⟨a, h, -⟩
      cases h
  | ok a =>
    constructor
    · intro h
      exact ⟨a, rfl, h⟩
    · rintro ⟨a', h, hf⟩
      rw [ok.inj h]
      exact hf

variable {y : Except ε β} {f : β → α → Except ε β} {items : List α}

/-- What follows a check whose answer is not used. -/
theorem ok_after (h : (x >>= fun _ => y) = .ok b) : y = .ok b := by
  obtain ⟨_, -, hy⟩ := bind_eq_ok.mp h
  exact hy

variable {e : ε}

theorem bind_eq_error {f : α → Except ε β} :
    x >>= f = .error e ↔ x = .error e ∨ ∃ a, x = .ok a ∧ f a = .error e := by
  cases x with
  | error e' =>
    constructor
    · intro h
      exact .inl (congrArg Except.error (error.inj h))
    · rintro (h | ⟨_, h, -⟩)
      · exact congrArg Except.error (error.inj h)
      · cases h
  | ok a =>
    constructor
    · intro h
      exact .inr ⟨a, rfl, h⟩
    · rintro (h | ⟨_, h, hf⟩)
      · cases h
      · cases h
        exact hf

theorem map_eq_ok {f : α → β} : (f <$> x) = .ok b ↔ ∃ a, x = .ok a ∧ f a = b := by
  cases x with
  | error e =>
    constructor
    · intro h
      cases h
    · rintro ⟨a, h, -⟩
      cases h
  | ok a =>
    constructor
    · intro h
      exact ⟨a, rfl, ok.inj h⟩
    · rintro ⟨a', h, hf⟩
      rw [ok.inj h, ← hf]
      rfl

variable {a : α}

theorem mapError_eq_ok {ε' : Type*} {f : ε → ε'} : x.mapError f = .ok a ↔ x = .ok a := by
  cases x with
  | error e => exact ⟨nofun, nofun⟩
  | ok b => exact ⟨fun h => congrArg _ (ok.inj h), fun h => congrArg _ (ok.inj h)⟩

theorem pure_eq_ok {b : α} : (pure a : Except ε α) = .ok b ↔ a = b :=
  ⟨ok.inj, congrArg _⟩

theorem eq_ok_get (h : x.toOption.isSome) : x = .ok (x.toOption.get h) := by
  cases x with
  | error e => cases h
  | ok a => rfl

theorem map_toOption_eq_some {f : α → β} {b : β} (h : x.toOption.map f = some b) : ∃ a, x = .ok a ∧ f a = b := by
  obtain ⟨a, ha, hf⟩ := Option.map_eq_some_iff.mp h
  cases x with
  | error e => cases ha
  | ok _ =>
    cases ha
    exact ⟨a, rfl, hf⟩

/-- A check that fails with `e` under the condition. -/
def refuseWhen (c : Prop) [Decidable c] (e : ε) : Except ε Unit :=
  if c then .error e else .ok ()

variable {c : Prop}

theorem refuseWhen_eq_ok [Decidable c] {u : Unit} : refuseWhen c e = .ok u ↔ ¬ c := by
  unfold refuseWhen
  split_ifs with hc
  · simp [hc]
  · simp [hc]

/-- A check that was passed, and what follows it. -/
theorem not_refused [Decidable c] (h :
    (refuseWhen c e >>= fun _ => y) = .ok b) : ¬ c ∧ y = .ok b := by
  obtain ⟨_, hpassed, hy⟩ := bind_eq_ok.mp h
  exact ⟨refuseWhen_eq_ok.mp hpassed, hy⟩

theorem passed [Decidable c] (hc : ¬ c) (h : y = .ok b) : (refuseWhen c e >>= fun _ => y) = .ok b :=
  bind_eq_ok.mpr ⟨(), refuseWhen_eq_ok.mpr hc, h⟩

theorem refuseWhen_eq_error [Decidable c] {e' : ε} : refuseWhen c e = .error e' ↔ c ∧ e = e' := by
  unfold refuseWhen
  split_ifs with h
  · exact ⟨fun heq => ⟨h, error.inj heq⟩, fun heq => congrArg _ heq.2⟩
  · exact ⟨nofun, fun heq => absurd heq.1 h⟩

/-- What every successful round of a loop keeps holds at its end. -/
theorem foldlM_ok {P : β → Prop} {c : β} (hrun : items.foldlM f b = .ok c) (hinit : P b)
    (hstep : ∀ b a c, a ∈ items → P b → f b a = .ok c → P c) : P c := by
  induction items generalizing b with
  | nil =>
    cases hrun
    exact hinit
  | cons a items ih =>
    obtain ⟨mid, hmid, hrest⟩ := bind_eq_ok.mp hrun
    have hP : P mid := hstep b a mid (.head _) hinit hmid
    exact ih hrest hP fun b a c ha => hstep b a c (.tail _ ha)

theorem forM_eq_ok {f : α → Except ε Unit} : items.forM f = .ok () ↔ ∀ a ∈ items, f a = .ok () := by
  induction items with
  | nil => simp [List.forM, Pure.pure, Except.pure]
  | cons a items ih =>
    cases hfa : f a with
    | error e => simp [hfa, Bind.bind, Except.bind]
    | ok u => simpa [hfa, Bind.bind, Except.bind] using ih

theorem exists_of_forM_eq_error {f : α → Except ε Unit} (h : items.forM f = .error e) :
    ∃ a ∈ items, f a = .error e := by
  induction items with
  | nil => cases h
  | cons a items ih =>
    rcases bind_eq_error.mp h with ha | ⟨_, -, hrest⟩
    · exact ⟨a, .head _, ha⟩
    · obtain ⟨b, hb, he⟩ := ih hrest
      exact ⟨b, .tail _ hb, he⟩

theorem exists_foldlM_ok
    (h : ∀ a ∈ items, ∀ b, ∃ c, f b a = .ok c) (b : β) : ∃ c, items.foldlM f b = .ok c := by
  induction items generalizing b with
  | nil => exact ⟨b, rfl⟩
  | cons a items ih =>
    obtain ⟨mid, hmid⟩ := h a (.head _) b
    obtain ⟨c, hrest⟩ := ih (fun a' ha' => h a' (.tail _ ha')) mid
    refine ⟨c, ?_⟩
    exact bind_eq_ok.mpr ⟨mid, hmid, hrest⟩

/-- Every item of a loop that came through had a successful round. -/
theorem exists_round_of_foldlM_ok {c : β}
    (hrun : items.foldlM f b = .ok c) : ∀ a ∈ items, ∃ b' c', f b' a = .ok c' := by
  induction items generalizing b with
  | nil => simp
  | cons a items ih =>
    obtain ⟨mid, hmid, hrest⟩ := bind_eq_ok.mp hrun
    exact List.forall_mem_cons.mpr ⟨⟨b, mid, hmid⟩, ih hrest⟩

end Ramflux.Fallible
