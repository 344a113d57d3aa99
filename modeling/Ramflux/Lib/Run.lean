import Mathlib.Data.List.Basic
import Mathlib.Data.List.Induction
import Mathlib.Order.Basic
import Ramflux.Lib.Fallible

/-! Finite runs of labelled transition relations and the induction rules used on them. -/
namespace Ramflux
open List
variable {σ ι : Type*}

/-- Runs of a labelled transition relation; the newest label is last. -/
inductive Run (step : σ → ι → σ → Prop) (s : σ) : List ι → σ → Prop
  | nil : Run step s [] s
  | snoc {labels : List ι} {t u : σ} {label : ι} :
      Run step s labels t → step t label u → Run step s (labels ++ [label]) u

namespace Run
variable {step step' : σ → ι → σ → Prop} {s t : σ} {labels : List ι}

/-- A predicate on history and state that every step extends holds at the end of every run. -/
theorem invariant {P : List ι → σ → Prop} (hrun : Run step s labels t) (hinit : P [] s)
    (hstep : ∀ labels t label u, Run step s labels t → P labels t → step t label u →
      P (labels ++ [label]) u) : P labels t := by
  induction hrun with
  | nil => exact hinit
  | snoc hrun hlast ih => exact hstep _ _ _ _ hrun ih hlast

/-- A state predicate kept by every step holds at the end of every run. -/
theorem preserves {P : σ → Prop} (hrun : Run step s labels t) (hinit : P s)
    (hstep : ∀ t label u, P t → step t label u → P u) : P t :=
  hrun.invariant (P := fun _ => P) hinit fun _ t label u _ => hstep t label u

theorem mono (hrun : Run step s labels t) (h : ∀ t label u, step t label u → step' t label u) :
    Run step' s labels t := by
  induction hrun with
  | nil => exact .nil
  | snoc _ hlast ih => exact ih.snoc (h _ _ _ hlast)

variable {label : ι} {u : σ}

theorem snoc_inv (hrun : Run step s (labels ++ [label]) u) :
    ∃ t, Run step s labels t ∧ step t label u := by
  generalize hl : labels ++ [label] = all at hrun
  cases hrun with
  | nil => simp at hl
  | snoc hrun hlast =>
    obtain ⟨rfl, hlabel⟩ := append_inj' hl rfl
    obtain rfl : label = _ := by simpa using hlabel
    exact ⟨_, hrun, hlast⟩

theorem single (h : step s label t) : Run step s [label] t :=
  Run.nil.snoc h

variable {labels' : List ι}

theorem append (h₁ : Run step s labels t)
    (h₂ : Run step t labels' u) : Run step s (labels ++ labels') u := by
  induction h₂ with
  | nil => simpa using h₁
  | snoc _ hlast ih => simpa [← append_assoc] using ih.snoc hlast

theorem cons {label : ι} {u : σ} (h : step s label t) (hrun : Run step t labels u) :
    Run step s (label :: labels) u :=
  (single h).append hrun

theorem append_inv (hrun : Run step s (labels ++ labels') u) :
    ∃ t, Run step s labels t ∧ Run step t labels' u := by
  induction labels' using List.reverseRecOn generalizing u with
  | nil => exact ⟨u, by simpa using hrun, .nil⟩
  | append_singleton labels' label ih =>
    rw [← append_assoc] at hrun
    obtain ⟨v, hinit, hlast⟩ := hrun.snoc_inv
    obtain ⟨t, h₁, h₂⟩ := ih hinit
    exact ⟨t, h₁, h₂.snoc hlast⟩

/-- A loop over a fallible step is a run of its successes. -/
theorem of_foldlM {σ ι ε : Type} {f : σ → ι → Except ε σ} {s t : σ} {labels : List ι}
    (h : labels.foldlM f s = .ok t) : Run (fun s label t => f s label = .ok t) s labels t := by
  induction labels generalizing s with
  | nil =>
    cases h
    exact .nil
  | cons label labels ih =>
    obtain ⟨mid, hstep, hrest⟩ := Fallible.bind_eq_ok.mp h
    exact cons hstep (ih hrest)

section
variable {α : Type*} (f : σ → α → ι × σ)

/-- Labels shown by a deterministic system on a list of inputs, and the state it ends in. -/
def trace (s : σ) : List α → List ι × σ
  | [] => ([], s)
  | a :: as => ((f s a).1 :: (trace (f s a).2 as).1, (trace (f s a).2 as).2)

/-- Every input is presented in a state that satisfies `ok` with it. -/
def Along (ok : σ → α → Prop) (s : σ) : List α → Prop
  | [] => True
  | a :: as => ok s a ∧ Along ok (f s a).2 as

instance decidableAlong (ok : σ → α → Prop) [∀ s a, Decidable (ok s a)] :
    ∀ (s : σ) (as : List α), Decidable (Along f ok s as)
  | _, [] => isTrue trivial
  | s, a :: as =>
    have := decidableAlong ok (f s a).2 as
    inferInstanceAs (Decidable (ok s a ∧ Along f ok (f s a).2 as))

variable {f}

theorem of_trace_along (ok : σ → α → Prop) (h : ∀ s a, ok s a → step s (f s a).1 (f s a).2) {s : σ}
    {as : List α} (hok : Along f ok s as) : Run step s (trace f s as).1 (trace f s as).2 := by
  induction as generalizing s with
  | nil => exact .nil
  | cons a as ih => exact (single (h s a hok.1)).append (ih hok.2)

theorem of_trace (h : ∀ s a, step s (f s a).1 (f s a).2) (s : σ) (as : List α) :
    Run step s (trace f s as).1 (trace f s as).2 := by
  induction as generalizing s with
  | nil => exact .nil
  | cons a as ih => exact (single (h s a)).append (ih (f s a).2)

end

section
variable {α τ : Type*} [Preorder τ] {time : ι → τ} {accepts : ι → Option α}
  (remembers : σ → τ → α → Prop)

/-- Once-only acceptance with a monotone clock: it suffices that acceptances are remembered, memories
survive later steps, and remembered items are refused. -/
theorem nodup_accepted (hrun : Run step s labels t)
    (hmono : labels.Pairwise fun a b => time a ≤ time b)
    (hrec : ∀ t i u a, step t i u → accepts i = some a → remembers u (time i) a)
    (hkeep : ∀ t i u a τ, step t i u → τ ≤ time i → remembers t τ a → remembers u (time i) a)
    (hrefuse : ∀ t i u a τ, step t i u → τ ≤ time i → remembers t τ a → accepts i ≠ some a) :
    (labels.filterMap accepts).Nodup := by
  -- Carried along: every accepted item is remembered at some time that later labels do not precede.
  suffices h : (labels.filterMap accepts).Nodup ∧ ∀ a ∈ labels.filterMap accepts,
      ∃ i ∈ labels, remembers t (time i) a ∧ ∀ j ∈ labels, time j ≤ time i from h.1
  induction hrun with
  | nil => simp
  | @snoc labels t u label hrun hlast ih =>
    rw [pairwise_append] at hmono
    obtain ⟨hmono, -, hle⟩ := hmono
    obtain ⟨hnodup, hrem⟩ := ih hmono
    have hle : ∀ j ∈ labels, time j ≤ time label := fun j hj => hle j hj label (by simp)
    have hlater : ∀ j ∈ labels ++ [label], time j ≤ time label := by
      simpa [or_imp, forall_and] using hle
    have hold : ∀ a ∈ labels.filterMap accepts, accepts label ≠ some a := by
      intro a ha
      obtain ⟨i, hi, hra, -⟩ := hrem a ha
      exact hrefuse t label u a (time i) hlast (hle i hi) hra
    rw [filterMap_append]
    refine ⟨nodup_append.mpr ⟨hnodup, ?_, ?_⟩, ?_⟩
    · cases h : accepts label <;> simp [h]
    · intro a ha b hb hab
      subst hab
      exact hold a ha (by simpa using hb)
    · intro a ha
      refine ⟨label, by simp, ?_, hlater⟩
      rcases mem_append.mp ha with ha | ha
      · obtain ⟨i, hi, hra, -⟩ := hrem a ha
        exact hkeep t label u a (time i) hlast (hle i hi) hra
      · exact hrec t label u a hlast (by simpa using ha)

end
end Run

section
variable {ε : Type*} {P : List ε → ε → Prop} {trace : List ε}

/-- Every event of a trace satisfies `P` with the events before it. -/
def History (P : List ε → ε → Prop) (trace : List ε) : Prop :=
  ∀ before event after, trace = before ++ event :: after → P before event

theorem history_nil : History P [] := by
  intro before event after h
  simp at h

theorem History.concat {event : ε} (h : History P trace) (hevent : P trace event) :
    History P (trace ++ [event]) := by
  intro before e after heq
  rcases eq_nil_or_concat after with rfl | ⟨init, last, rfl⟩
  · obtain ⟨rfl, hlast⟩ := append_inj' heq rfl
    obtain rfl : event = e := by simpa using hlast
    exact hevent
  · rw [concat_eq_append, ← cons_append, ← append_assoc] at heq
    obtain ⟨rfl, -⟩ := append_inj' heq rfl
    exact h before e init rfl

theorem History.append {more : List ε} (h : History P trace)
    (hmore : ∀ event ∈ more, ∀ before, P before event) : History P (trace ++ more) := by
  induction more generalizing trace with
  | nil => simpa using h
  | cons event more ih =>
    have hfirst : History P (trace ++ [event]) := h.concat (hmore event (.head _) trace)
    have hrest := ih hfirst fun e he => hmore e (.tail _ he)
    rwa [append_assoc] at hrest

end
end Ramflux
