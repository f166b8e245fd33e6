/-
  Traces of events, the first one first.

  * `latest p es`: the last event of a trace that satisfies `p`;
  * `Always P es`: every event of a trace stands in the relation `P` to the
    events before it.  `always_snoc` reduces it to the last event.
-/
import Mathlib.Data.List.Basic

variable {ε : Type} {p : ε → Bool} {es : List ε} {e : ε}

def latest (p : ε → Bool) (es : List ε) : Option ε := es.reverse.find? p

theorem latest_snoc_pos (h : p e = true) : latest p (es ++ [e]) = some e := by
  simp [latest, h]

theorem latest_snoc_neg (h : ¬ p e = true) : latest p (es ++ [e]) = latest p es := by
  simp [latest, h]

theorem mem_of_latest (h : latest p es = some e) : e ∈ es ∧ p e = true :=
  ⟨List.mem_reverse.1 (List.mem_of_find?_eq_some h), List.find?_some h⟩

def Always (P : List ε → ε → Prop) (es : List ε) : Prop := ∀ a e b, es = a ++ e :: b → P a e

section
variable {P Q : List ε → ε → Prop}

theorem Always.nil : Always P [] := by
  intro a e b h
  simp at h

theorem always_snoc : Always P (es ++ [e]) ↔ Always P es ∧ P es e := by
  constructor
  · intro h
    exact ⟨fun a f b hab => h a f (b ++ [e]) (by simp [hab]), h es e [] rfl⟩
  · rintro ⟨hes, he⟩ a f b hab
    -- the event is the last one or one of `es`
    rcases List.append_eq_append_iff.1 hab with ⟨c, rfl, hc⟩ | ⟨_ | ⟨g, c⟩, rfl, hc⟩
    · obtain ⟨rfl, rfl, rfl⟩ : c = [] ∧ e = f ∧ b = [] := by
        cases c <;> simp_all
      rwa [List.append_nil]
    · obtain ⟨rfl, -⟩ : f = e ∧ b = [] := by simpa using hc
      rwa [List.append_nil] at he
    · obtain ⟨rfl, -⟩ : f = g ∧ b = c ++ [e] := by simpa using hc
      exact hes a f c rfl

theorem Always.snoc (h : Always P es) (he : P es e) : Always P (es ++ [e]) := always_snoc.2 ⟨h, he⟩

end
