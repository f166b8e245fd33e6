/-
  Programs with a state, a trace of calls and an early end.

  `Prog σ ε φ α` is code that runs on a state of type `σ`: a run gives how it
  ended (a returned value, or the reason `φ` for which the whole process
  stopped), the state at that moment and the calls made on the way, in order.

  * a program goes on with the returned value of the one before it
    (`Prog.bind_of_ret`), and after a `stop` nothing else runs
    (`Prog.bind_of_stop`);
  * `Prog.AllCalls P p`: every call of every run of `p` satisfies `P`, with one
    rule for each way of building a program;
  * `Prog.Keeps g P p`: moreover every run of `p` leaves the part `g` of the state
    as it is.
-/
import Mathlib.Data.List.Basic

/-- How code ends: it returns a value or stops the process. -/
inductive Outcome (φ α : Type) where
  | ret (a : α)
  | stop (why : φ)
  deriving DecidableEq

/-- The run of a program: its outcome, the state at the end and the calls. -/
structure Ran (σ ε φ α : Type) where
  out : Outcome φ α
  st : σ
  calls : List ε

/-- The same run, after some calls. -/
def Ran.after {σ ε φ α : Type} (es : List ε) (r : Ran σ ε φ α) : Ran σ ε φ α :=
  ⟨r.out, r.st, es ++ r.calls⟩

/-- The value of a run that cannot stop. -/
def Ran.value {σ ε α : Type} (r : Ran σ ε Empty α) : α :=
  match r.out with
  | .ret a => a
  | .stop why => why.elim

theorem Ran.eq_of_out {σ ε φ α : Type} {r : Ran σ ε φ α} {out : Outcome φ α} (h : r.out = out) :
    r = ⟨out, r.st, r.calls⟩ := by
  rw [← h]

theorem Ran.out_eq_value {σ ε α : Type} (r : Ran σ ε Empty α) : r.out = .ret r.value := by
  rcases r with ⟨a | why, s, es⟩
  · rfl
  · exact why.elim

/-- A program, given by its runs. -/
structure Prog (σ ε φ α : Type) where
  run : σ → Ran σ ε φ α

namespace Prog

variable {σ ε φ α β : Type}

/-- Run the continuation on a returned value; a stopped program stays stopped. -/
def andThen (r : Ran σ ε φ α) (f : α → Prog σ ε φ β) : Ran σ ε φ β :=
  match r.out with
  | .ret a => ((f a).run r.st).after r.calls
  | .stop why => ⟨.stop why, r.st, r.calls⟩

instance : Monad (Prog σ ε φ) where
  pure a := ⟨fun s => ⟨.ret a, s, []⟩⟩
  bind p f := ⟨fun s => andThen (p.run s) f⟩

/-- Make a call. -/
def call (e : ε) : Prog σ ε φ Unit := ⟨fun s => ⟨.ret (), s, [e]⟩⟩

/-- Make several calls. -/
def callAll (es : List ε) : Prog σ ε φ Unit := ⟨fun s => ⟨.ret (), s, es⟩⟩

/-- Stop the process. -/
def stop (why : φ) : Prog σ ε φ α := ⟨fun s => ⟨.stop why, s, []⟩⟩

/-- Read the state. -/
def state : Prog σ ε φ σ := ⟨fun s => ⟨.ret s, s, []⟩⟩

/-- Change the state. -/
def update (f : σ → σ) : Prog σ ε φ Unit := ⟨fun s => ⟨.ret (), f s, []⟩⟩

/-- Run a program only if a condition holds. -/
def when (c : Prop) [Decidable c] (p : Prog σ ε φ Unit) : Prog σ ε φ Unit :=
  if c then p else pure ()

/-- Code for a part of the state, with its calls and stops as those of the whole. -/
def lift {τ ε' φ' : Type} (get : τ → σ) (set : τ → σ → τ) (call : ε → ε') (stop : φ → φ')
    (p : Prog σ ε φ α) : Prog τ ε' φ' α :=
  ⟨fun t =>
    let r := p.run (get t)
    let out := match r.out with
      | .ret a => .ret a
      | .stop why => .stop (stop why)
    ⟨out, set t r.st, r.calls.map call⟩⟩

/-! ## Runs of composed programs -/

theorem pure_run (a : α) (s : σ) : (pure a : Prog σ ε φ α).run s = ⟨.ret a, s, []⟩ := rfl

theorem bind_run (p : Prog σ ε φ α) (f : α → Prog σ ε φ β) (s : σ) :
    (p >>= f).run s = andThen (p.run s) f := rfl

theorem bind_of_ret {p : Prog σ ε φ α} {s s' : σ} {a : α} {es : List ε}
    (h : p.run s = ⟨.ret a, s', es⟩) (f : α → Prog σ ε φ β) :
    (p >>= f).run s = ((f a).run s').after es := by
  rw [bind_run, h]; rfl

theorem bind_of_stop {p : Prog σ ε φ α} {s s' : σ} {why : φ} {es : List ε}
    (h : p.run s = ⟨.stop why, s', es⟩) (f : α → Prog σ ε φ β) :
    (p >>= f).run s = ⟨.stop why, s', es⟩ := by
  rw [bind_run, h]; rfl

@[simp] theorem state_bind_run (f : σ → Prog σ ε φ β) (s : σ) :
    ((state : Prog σ ε φ σ) >>= f).run s = (f s).run s := rfl

@[simp] theorem update_bind_run (g : σ → σ) (f : Unit → Prog σ ε φ β) (s : σ) :
    ((update g : Prog σ ε φ Unit) >>= f).run s = (f ()).run (g s) := rfl

@[simp] theorem call_bind_run (e : ε) (f : Unit → Prog σ ε φ β) (s : σ) :
    ((call e : Prog σ ε φ Unit) >>= f).run s = ((f ()).run s).after [e] := rfl

@[simp] theorem andThen_ret (a : α) (s : σ) (es : List ε) (f : α → Prog σ ε φ β) :
    andThen ⟨.ret a, s, es⟩ f = ((f a).run s).after es := rfl

theorem andThen_after (es : List ε) (r : Ran σ ε φ α) (f : α → Prog σ ε φ β) :
    andThen (r.after es) f = (andThen r f).after es := by
  rcases r with ⟨a | why, s, fs⟩
  · simp [andThen, Ran.after]
  · rfl

theorem map_bind_run {γ : Type} (g : β → γ) (p : Prog σ ε φ α) (f : α → Prog σ ε φ β) (s : σ) :
    (g <$> (p >>= f)).run s = (p >>= fun a => g <$> f a).run s := by
  show andThen (andThen (p.run s) f) _ = andThen (p.run s) _
  rcases p.run s with ⟨a | why, s', es⟩
  · exact andThen_after es _ _
  · rfl

theorem bind_out {p : Prog σ ε φ α} {f : α → Prog σ ε φ β} {s : σ} {a : α}
    (hp : (p.run s).out = .ret a) : ((p >>= f).run s).out = ((f a).run (p.run s).st).out := by
  rw [bind_run, andThen, hp]
  rfl

/-- The calls of the first part. -/
theorem mem_bind_left {p : Prog σ ε φ α} {s : σ} {e : ε} (h : e ∈ (p.run s).calls)
    (f : α → Prog σ ε φ β) : e ∈ ((p >>= f).run s).calls := by
  rw [bind_run, andThen]
  split
  · exact List.mem_append_left _ h
  · exact h

/-- The calls of the second part, if the first one returns. -/
theorem mem_bind_right {p : Prog σ ε φ α} {f : α → Prog σ ε φ β} {s : σ} {a : α} {e : ε}
    (hp : (p.run s).out = .ret a) (h : e ∈ ((f a).run (p.run s).st).calls) :
    e ∈ ((p >>= f).run s).calls := by
  rw [bind_run, andThen, hp]
  exact List.mem_append_right _ h

theorem ite_run {c : Prop} [Decidable c] (p q : Prog σ ε φ α) (s : σ) :
    (if c then p else q).run s = if c then p.run s else q.run s := by
  split <;> rfl

end Prog

namespace Ran

variable {σ ε φ α : Type}

@[simp] theorem after_nil (r : Ran σ ε φ α) : r.after [] = r := rfl

@[simp] theorem after_after (es fs : List ε) (r : Ran σ ε φ α) :
    (r.after fs).after es = r.after (es ++ fs) := by
  simp [after]

@[simp] theorem after_value (es : List ε) (r : Ran σ ε Empty α) :
    (r.after es).value = r.value := rfl

end Ran

namespace Prog

variable {σ ε φ α β : Type}

/-! ## Properties of every call -/

/-- Every call of every run satisfies `P`. -/
def AllCalls (P : ε → Prop) (p : Prog σ ε φ α) : Prop := ∀ s, ∀ e ∈ (p.run s).calls, P e

section
variable {P : ε → Prop}

theorem AllCalls.pure (a : α) : AllCalls P (pure a : Prog σ ε φ α) := by
  intro s e he; exact absurd he List.not_mem_nil

theorem AllCalls.bind {p : Prog σ ε φ α} {f : α → Prog σ ε φ β} (hp : AllCalls P p)
    (hf : ∀ a, AllCalls P (f a)) : AllCalls P (p >>= f) := by
  intro s e he
  rw [bind_run] at he
  have h := hp s
  rcases hr : p.run s with ⟨a | w, s', es⟩
  · rw [hr] at he h
    rcases List.mem_append.1 he with he | he
    · exact h e he
    · exact hf a s' e he
  · rw [hr] at he h; exact h e he

theorem AllCalls.call {e : ε} (h : P e) : AllCalls P (call e : Prog σ ε φ Unit) := by
  intro s e' he; exact List.mem_singleton.1 he ▸ h

theorem AllCalls.stop (why : φ) : AllCalls P (stop why : Prog σ ε φ α) := by
  intro s e he; exact absurd he List.not_mem_nil

theorem AllCalls.state : AllCalls P (state : Prog σ ε φ σ) := by
  intro s e he; exact absurd he List.not_mem_nil

theorem AllCalls.update (f : σ → σ) : AllCalls P (update f : Prog σ ε φ Unit) := by
  intro s e he; exact absurd he List.not_mem_nil

theorem AllCalls.ite {c : Prop} [Decidable c] {p q : Prog σ ε φ α} (hp : AllCalls P p)
    (hq : AllCalls P q) : AllCalls P (if c then p else q) := by
  split
  exacts [hp, hq]

theorem AllCalls.lift {τ ε' φ' : Type} {P : ε' → Prop} {get : τ → σ} {set : τ → σ → τ}
    {call : ε → ε'} {stop : φ → φ'} {p : Prog σ ε φ α} (h : AllCalls (fun e => P (call e)) p) :
    AllCalls P (p.lift get set call stop) := by
  intro s e he
  obtain ⟨f, hf, rfl⟩ := List.mem_map.1 he
  exact h _ f hf

theorem AllCalls.when {c : Prop} [Decidable c] {p : Prog σ ε φ Unit} (hp : AllCalls P p) :
    AllCalls P (when c p) := .ite hp (.pure ())

theorem AllCalls.mono {P' : ε → Prop} {p : Prog σ ε φ α} (hp : AllCalls P p)
    (h : ∀ e, P e → P' e) : AllCalls P' p := fun s e he => h e (hp s e he)

end

/-! ## Parts of the state -/

/-- Every run keeps a part of the state, and every call satisfies `P`. -/
structure Keeps {γ : Type} (g : σ → γ) (P : ε → Prop) (p : Prog σ ε φ α) : Prop where
  same : ∀ s, g (p.run s).st = g s
  calls : AllCalls P p

namespace Keeps

variable {γ : Type} {g : σ → γ} {P : ε → Prop} {p q : Prog σ ε φ α}

protected theorem pure (a : α) : Keeps g P (pure a : Prog σ ε φ α) := ⟨fun _ => rfl, .pure a⟩

protected theorem call {e : ε} (h : P e) : Keeps g P (call e : Prog σ ε φ Unit) :=
  ⟨fun _ => rfl, .call h⟩

protected theorem stop (why : φ) : Keeps g P (stop why : Prog σ ε φ α) :=
  ⟨fun _ => rfl, .stop why⟩

protected theorem state : Keeps g P (state : Prog σ ε φ σ) := ⟨fun _ => rfl, .state⟩

protected theorem update {f : σ → σ} (h : ∀ s, g (f s) = g s) :
    Keeps g P (update f : Prog σ ε φ Unit) := ⟨h, .update f⟩

protected theorem bind {f : α → Prog σ ε φ β} (hp : Keeps g P p) (hf : ∀ a, Keeps g P (f a)) :
    Keeps g P (p >>= f) := by
  refine ⟨fun s => ?_, hp.calls.bind fun a => (hf a).calls⟩
  have hsame := hp.same s
  rw [bind_run]
  rcases hr : p.run s with ⟨a | why, s', es⟩
  · rw [hr] at hsame
    exact ((hf a).same s').trans hsame
  · rw [hr] at hsame
    exact hsame

protected theorem ite {c : Prop} [Decidable c] (hp : Keeps g P p) (hq : Keeps g P q) :
    Keeps g P (if c then p else q) := by
  split
  exacts [hp, hq]

protected theorem when {c : Prop} [Decidable c] {p : Prog σ ε φ Unit} (hp : Keeps g P p) :
    Keeps g P (when c p) := .ite hp (.pure ())

protected theorem lift {τ ε' φ' : Type} {g : τ → γ} {P : ε' → Prop} {get : τ → σ}
    {set : τ → σ → τ} {call : ε → ε'} {stop : φ → φ'} (hset : ∀ t s, g (set t s) = g t)
    (h : AllCalls (fun e => P (call e)) p) : Keeps g P (p.lift get set call stop) :=
  ⟨fun t => hset t _, .lift h⟩

end Keeps

end Prog
