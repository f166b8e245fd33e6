/-
  Pre- and postconditions of programs that may speak of the calls made so far.

  `Prog.Triple P p Q E`: started after the calls `es` in a state `s` with
  `P es s`, a run of `p` that returns `a` ends with `Q a` and one that stops for
  the reason `why` ends with `E why`, both of all the calls up to then.  There is
  one rule for each way of building a program.
-/
import Slirp4netns.Lib.Prog

namespace Prog

variable {σ ε φ α β : Type}

/-- Pre- and postconditions on the calls so far and the state. -/
def Triple (P : List ε → σ → Prop) (p : Prog σ ε φ α) (Q : α → List ε → σ → Prop)
    (E : φ → List ε → σ → Prop) : Prop :=
  ∀ es s, P es s → match (p.run s).out with
    | .ret a => Q a (es ++ (p.run s).calls) (p.run s).st
    | .stop why => E why (es ++ (p.run s).calls) (p.run s).st

namespace Triple

variable {P P' : List ε → σ → Prop} {Q Q' : α → List ε → σ → Prop} {E : φ → List ε → σ → Prop}
  {p q : Prog σ ε φ α}

theorem conseq (h : Triple P p Q E) (hP : ∀ es s, P' es s → P es s)
    (hQ : ∀ a es s, Q a es s → Q' a es s) : Triple P' p Q' E := by
  intro es s hs
  have hrun := h es s (hP es s hs)
  split at hrun
  · exact hQ _ _ _ hrun
  · exact hrun

theorem conseq_stop {E' : φ → List ε → σ → Prop} (h : Triple P p Q E)
    (hE : ∀ why es s, E why es s → E' why es s) : Triple P p Q E' := by
  intro es s hs
  have hrun := h es s hs
  split at hrun
  · exact hrun
  · exact hE _ _ _ hrun

/-- A fact that does not depend on the run. -/
theorem fact {c : Prop} (h : c → Triple P p Q E) : Triple (fun es s => c ∧ P es s) p Q E :=
  fun es s hs => h hs.1 es s hs.2

/-- A value that does not depend on the run. -/
theorem of_exists {ι : Type} {P : ι → List ε → σ → Prop} (h : ∀ i, Triple (P i) p Q E) :
    Triple (fun es s => ∃ i, P i es s) p Q E :=
  fun es s ⟨i, hi⟩ => h i es s hi

protected theorem pure {a : α} (h : ∀ es s, P es s → Q a es s) :
    Triple P (pure a : Prog σ ε φ α) Q E := by
  intro es s hs
  rw [pure_run, List.append_nil]
  exact h es s hs

protected theorem bind {f : α → Prog σ ε φ β} {R : β → List ε → σ → Prop} (hp : Triple P p Q E)
    (hf : ∀ a, Triple (Q a) (f a) R E) : Triple P (p >>= f) R E := by
  intro es s hs
  have h₁ := hp es s hs
  rw [bind_run]
  rcases hr : p.run s with ⟨a | why, s', fs⟩
  · rw [hr] at h₁
    have h₂ := hf a _ _ h₁
    rw [List.append_assoc] at h₂
    exact h₂
  · rw [hr] at h₁
    exact h₁

protected theorem call {e : ε} {Q : Unit → List ε → σ → Prop}
    (h : ∀ es s, P es s → Q () (es ++ [e]) s) : Triple P (call e : Prog σ ε φ Unit) Q E :=
  fun es s hs => h es s hs

protected theorem callAll {fs : List ε} {Q : Unit → List ε → σ → Prop}
    (h : ∀ es s, P es s → Q () (es ++ fs) s) : Triple P (callAll fs : Prog σ ε φ Unit) Q E :=
  fun es s hs => h es s hs

protected theorem update {f : σ → σ} {Q : Unit → List ε → σ → Prop}
    (h : ∀ es s, P es s → Q () es (f s)) : Triple P (update f : Prog σ ε φ Unit) Q E := by
  intro es s hs
  have := h es s hs
  rw [← List.append_nil es] at this
  exact this

/-- A change of the state before other code. -/
protected theorem update_bind {f : σ → σ} {g : Unit → Prog σ ε φ α}
    (h : Triple (fun es s => ∃ s₀, P es s₀ ∧ s = f s₀) (g ()) Q E) :
    Triple P (update f >>= g) Q E :=
  Triple.bind (Triple.update fun _ s hs => ⟨s, hs, rfl⟩) fun _ => h

/-- After reading the state, it is known. -/
protected theorem state_bind {f : σ → Prog σ ε φ α}
    (h : ∀ s₀, Triple (fun es s => P es s ∧ s = s₀) (f s₀) Q E) : Triple P (state >>= f) Q E :=
  fun es s hs => h s es s ⟨hs, rfl⟩

protected theorem stop {why : φ} (h : ∀ es s, P es s → E why es s) :
    Triple P (stop why : Prog σ ε φ α) Q E := by
  intro es s hs
  have := h es s hs
  rw [← List.append_nil es] at this
  exact this

protected theorem ite {c : Prop} [Decidable c] (hp : c → Triple P p Q E)
    (hq : ¬ c → Triple P q Q E) : Triple P (if c then p else q) Q E := by
  split
  · next h => exact hp h
  · next h => exact hq h

/-- Code whose calls all keep an invariant keeps it. -/
theorem of_allCalls {I : List ε → Prop} {A : ε → Prop} (hp : AllCalls A p)
    (hI : ∀ es e, A e → I es → I (es ++ [e])) :
    Triple (fun es _ => I es) p (fun _ es _ => I es) (fun _ es _ => I es) := by
  intro es s hes
  have hall : ∀ fs : List ε, (∀ e ∈ fs, A e) → ∀ es, I es → I (es ++ fs) := by
    intro fs
    induction fs with
    | nil => intro _ es h; rwa [List.append_nil]
    | cons f fs ih =>
      intro hfs es h
      have := ih (fun e he => hfs e (List.mem_cons_of_mem _ he)) _ (hI es f (hfs f (by simp)) h)
      rwa [List.append_assoc] at this
  have := hall _ (hp s) es hes
  split <;> exact this

/-- The same, with a part of the state that the code leaves as it is. -/
theorem of_keeps {γ : Type} {g : σ → γ} {I : List ε → Prop} {A : ε → Prop} {c : γ}
    (hp : Keeps g A p) (hI : ∀ es e, A e → I es → I (es ++ [e])) :
    Triple (fun es s => I es ∧ g s = c) p (fun _ es s => I es ∧ g s = c)
      (fun _ es s => I es ∧ g s = c) := by
  rintro es s ⟨hes, hs⟩
  have hcalls := of_allCalls hp.calls hI es s hes
  have hsame := (hp.same s).trans hs
  split at hcalls <;> exact ⟨hcalls, hsame⟩

/-- Two results about the same code. -/
theorem and {P₂ : List ε → σ → Prop} {Q₂ : α → List ε → σ → Prop} {E₂ : φ → List ε → σ → Prop}
    (h : Triple P p Q E) (h₂ : Triple P₂ p Q₂ E₂) :
    Triple (fun es s => P es s ∧ P₂ es s) p (fun a es s => Q a es s ∧ Q₂ a es s)
      (fun why es s => E why es s ∧ E₂ why es s) := by
  rintro es s ⟨hP, hP₂⟩
  have hrun := h es s hP
  have hrun₂ := h₂ es s hP₂
  split at hrun
  · next a ha => rw [ha] at hrun₂; exact ⟨hrun, hrun₂⟩
  · next why hwhy => rw [hwhy] at hrun₂; exact ⟨hrun, hrun₂⟩

/-- Code that always returns does so after any change of the stop condition. -/
theorem of_returns (h : Triple P p Q E) (hret : ∀ s, ∃ a, (p.run s).out = .ret a)
    {E' : φ → List ε → σ → Prop} : Triple P p Q E' := by
  intro es s hs
  have hrun := h es s hs
  obtain ⟨a, ha⟩ := hret s
  rw [ha] at hrun ⊢
  exact hrun

/-- A call that was made stays made. -/
theorem mem {e : ε} :
    Triple (fun es _ => e ∈ es) p (fun _ es _ => e ∈ es) (fun _ es _ => e ∈ es) := by
  intro es s h
  split <;> exact List.mem_append_left _ h

/-- What a program that cannot stop returns. -/
theorem value {p : Prog σ ε Empty α} {E : Empty → List ε → σ → Prop} (h : Triple P p Q E)
    {es : List ε} {s : σ} (hs : P es s) :
    Q (p.run s).value (es ++ (p.run s).calls) (p.run s).st := by
  have hrun := h es s hs
  rwa [Ran.out_eq_value] at hrun

protected theorem when {c : Prop} [Decidable c] {p : Prog σ ε φ Unit}
    (hp : Triple P p (fun _ => P) E) : Triple P (when c p) (fun _ => P) E :=
  .ite (fun _ => hp) fun _ => .pure fun _ _ h => h

end Triple

end Prog
