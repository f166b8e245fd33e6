/-
  Runs of a labelled transition system.

  `Run step s es t`: from `s`, steps labelled `es` (the first one first) lead to
  `t`.  Two rules prove a property of every run: `Run.invariant` for a property
  of the state, and `Run.history` for one that also speaks of the labels so far.
  `Run.simulate` carries a run over to another system, label by label.
-/
import Mathlib.Data.List.Basic

variable {σ ε : Type} {step : σ → ε → σ → Prop}

inductive Run (step : σ → ε → σ → Prop) (s : σ) : List ε → σ → Prop
  | nil : Run step s [] s
  | snoc {es e t u} : Run step s es t → step t e u → Run step s (es ++ [e]) u

namespace Run

variable {s t u : σ} {es fs : List ε} {e : ε}

/-- What every step preserves holds at the end of a run. -/
theorem invariant {I : σ → Prop} (h : Run step s es t) (h₀ : I s)
    (hstep : ∀ {t e u}, I t → step t e u → I u) : I t := by
  induction h with
  | nil => exact h₀
  | snoc _ he ih => exact hstep ih he

/-- The same for a property of the labels so far and the state. -/
theorem history {I : List ε → σ → Prop} (h : Run step s es t) (h₀ : I [] s)
    (hstep : ∀ {es t e u}, I es t → step t e u → I (es ++ [e]) u) : I es t := by
  induction h with
  | nil => exact h₀
  | snoc _ he ih => exact hstep ih he

/-- If every step has one with the same label from any related state, so has every run. -/
theorem simulate {τ : Type} {step' : τ → ε → τ → Prop} {R : σ → τ → Prop} {s' : τ}
    (h : Run step s es t) (h₀ : R s s')
    (hstep : ∀ {t t' e u}, R t t' → step t e u → ∃ u', step' t' e u' ∧ R u u') :
    ∃ t', Run step' s' es t' ∧ R t t' := by
  induction h with
  | nil => exact ⟨s', .nil, h₀⟩
  | snoc _ he ih =>
    obtain ⟨t', hrun, ht⟩ := ih
    obtain ⟨u', he', hu⟩ := hstep ht he
    exact ⟨u', .snoc hrun he', hu⟩

theorem append (h : Run step s es t) (h' : Run step t fs u) : Run step s (es ++ fs) u := by
  induction h' with
  | nil => simpa using h
  | snoc _ he ih => rw [← List.append_assoc]; exact .snoc ih he

theorem single (h : step s e t) : Run step s [e] t := .snoc .nil h

end Run
