/-
  Programs that allocate memory, and who owns it.

  A `Heap` knows which blocks are live and which calls of `malloc` fail; a block
  has the number of the call that made it, so that no number is used twice.  To
  free a block that is not live, or to access one, stops the program.

  `Owned pre p post`: started with the blocks `pre` and any others, `p` returns,
  and `post` holds of the result, of the blocks that it then has in place of
  `pre`, and of whether an allocation has failed; the other blocks are as they
  were.  So a program with `post` of no blocks at all leaks nothing, and none that
  has a triple frees a block twice or uses it afterwards.  There is one rule for
  each way of building a program, and `Owned.frame` adds blocks that a part does
  not touch.  `Reads s p a` is for code that only looks at the blocks `s`.
-/
import Mathlib.Algebra.Order.Group.Multiset
import Slirp4netns.Lib.Prog

/-- The memory of a process, as `malloc` and `free` see it. -/
structure Heap where
  /-- the number of calls of `malloc` so far -/
  next : ℕ
  /-- which calls of `malloc` return `NULL` -/
  fails : ℕ → Bool
  /-- whether one of them did -/
  failed : Bool
  live : Multiset ℕ
  nodup : live.Nodup
  live_lt : ∀ b ∈ live, b < next

/-- Behaviour that C does not define, and recursion beyond the depth that is allowed for. -/
inductive Fault where
  | badFree
  | badAccess
  | nullPointer
  | outOfBounds
  | overflow
  | tooDeep
  deriving DecidableEq

/-- Code on memory. -/
abbrev HeapProg := Prog Heap Empty Fault

namespace Heap

/-- Nothing is allocated yet. -/
def init (fails : ℕ → Bool) : Heap := ⟨0, fails, false, 0, Multiset.nodup_zero, by simp⟩

/-- The heap after a `malloc` that fails. -/
def refuse (h : Heap) : Heap :=
  { h with
    next := h.next + 1
    failed := true
    live_lt := fun b hb => Nat.lt_succ_of_lt (h.live_lt b hb) }

/-- The heap after a `malloc` that succeeds. -/
def grant (h : Heap) : Heap :=
  { h with
    next := h.next + 1
    live := h.next ::ₘ h.live
    nodup := Multiset.nodup_cons.2 ⟨fun hb => lt_irrefl _ (h.live_lt _ hb), h.nodup⟩
    live_lt := by
      intro b hb
      rcases Multiset.mem_cons.1 hb with rfl | hb
      · exact Nat.lt_succ_self _
      · exact Nat.lt_succ_of_lt (h.live_lt b hb) }

/-- A block is freed. -/
def release (h : Heap) (b : ℕ) : Heap :=
  { h with
    live := h.live.erase b
    nodup := h.nodup.erase b
    live_lt := fun c hc => h.live_lt c (Multiset.mem_of_mem_erase hc) }

end Heap

namespace HeapProg

variable {α β : Type}

/-- The block, or `none` for `NULL`. -/
def malloc : HeapProg (Option ℕ) where
  run h := if h.fails h.next then ⟨.ret none, h.refuse, []⟩ else ⟨.ret (some h.next), h.grant, []⟩

/-- `free`, which does nothing on `NULL`. -/
def free : Option ℕ → HeapProg Unit
  | none => pure ()
  | some b => ⟨fun h => if b ∈ h.live then ⟨.ret (), h.release b, []⟩ else ⟨.stop .badFree, h, []⟩⟩

/-- Read or write a block. -/
def access (b : ℕ) : HeapProg Unit where
  run h := if b ∈ h.live then ⟨.ret (), h, []⟩ else ⟨.stop .badAccess, h, []⟩

/-- The element of an array, of which the pointer may be `NULL`. -/
def index (block : Option ℕ) (array : List α) (i : ℕ) : HeapProg α :=
  match block with
  | none => Prog.stop .nullPointer
  | some b => do
    access b
    match array[i]? with
    | none => Prog.stop .outOfBounds
    | some a => return a

/-- The program, and whether an allocation fails in its run. -/
def watch (p : HeapProg α) : HeapProg (α × Bool) where
  run h :=
    let ran := p.run { h with failed := false }
    let out := match ran.out with
      | .ret a => .ret (a, ran.st.failed)
      | .stop why => .stop why
    ⟨out, { ran.st with failed := h.failed || ran.st.failed }, ran.calls⟩

/-! ## Ownership -/

/-- Started with the blocks `pre`, the program returns, with `post`. -/
def Owned (pre : Multiset ℕ) (p : HeapProg α) (post : α → Multiset ℕ → Bool → Prop) : Prop :=
  ∀ (h : Heap) (frame : Multiset ℕ), h.live = pre + frame →
    ∃ a own bad, (p.run h).out = .ret a ∧ post a own bad ∧
      (p.run h).st.live = own + frame ∧ (p.run h).st.failed = (h.failed || bad)

/-- The block of a pointer that may be `NULL`. -/
def optBlock : Option ℕ → Multiset ℕ
  | none => 0
  | some b => {b}

/-- The program looks at the blocks `s`, changes nothing and returns `a`. -/
def Reads (s : Multiset ℕ) (p : HeapProg α) (a : α) : Prop :=
  ∀ h : Heap, (∀ b ∈ s, b ∈ h.live) → p.run h = ⟨.ret a, h, []⟩

namespace Owned

variable {pre pre' own : Multiset ℕ} {p : HeapProg α} {q : α → HeapProg β}
  {post post' : α → Multiset ℕ → Bool → Prop} {after : β → Multiset ℕ → Bool → Prop}

theorem conseq (h : Owned pre p post) (hpost : ∀ a own bad, post a own bad → post' a own bad) :
    Owned pre p post' := by
  intro hp frame hlive
  obtain ⟨a, own, bad, hout, ha, hown, hbad⟩ := h hp frame hlive
  exact ⟨a, own, bad, hout, hpost a own bad ha, hown, hbad⟩

theorem of_eq (h : Owned pre p post) (heq : pre' = pre) : Owned pre' p post := heq ▸ h

/-- Blocks that the program does not touch. -/
theorem frame (h : Owned pre p post) (rest : Multiset ℕ) :
    Owned (pre + rest) p fun a own bad => ∃ own', own = own' + rest ∧ post a own' bad := by
  intro hp frame hlive
  obtain ⟨a, own, bad, hout, ha, hown, hbad⟩ := h hp (rest + frame) (by rw [hlive, add_assoc])
  exact ⟨a, own + rest, bad, hout, ⟨own, rfl, ha⟩, by rw [hown, add_assoc], hbad⟩

protected theorem pure {a : α} (h : post a pre false) : Owned pre (pure a) post :=
  fun _ _ hlive => ⟨a, pre, false, rfl, h, hlive, (Bool.or_false _).symm⟩

protected theorem bind {mid : α → Multiset ℕ → Bool → Prop} (hp : Owned pre p mid)
    (hq : ∀ a own bad, mid a own bad → Owned own (q a) fun b o bad' => after b o (bad || bad')) :
    Owned pre (p >>= q) after := by
  intro h frame hlive
  obtain ⟨a, own, bad, hout, ha, hown, hbad⟩ := hp h frame hlive
  obtain ⟨b, own', bad', hout', hb, hown', hbad'⟩ := hq a own bad ha _ frame hown
  refine ⟨b, own', bad || bad', ?_, hb, ?_, ?_⟩
  · rw [Prog.bind_out hout, hout']
  · rw [Prog.bind_run, Prog.andThen, hout]
    exact hown'
  · rw [Prog.bind_run, Prog.andThen, hout]
    exact hbad'.trans (by rw [hbad, Bool.or_assoc])

protected theorem ite {c : Prop} [Decidable c] {p' : HeapProg α} (hp : c → Owned pre p post)
    (hp' : ¬ c → Owned pre p' post) : Owned pre (if c then p else p') post := by
  split
  · next h => exact hp h
  · next h => exact hp' h

protected theorem malloc : Owned pre malloc fun r own bad =>
    (r = none ∧ own = pre ∧ bad = true) ∨ ∃ b, r = some b ∧ own = b ::ₘ pre ∧ bad = false := by
  intro h frame hlive
  by_cases hf : h.fails h.next
  · refine ⟨none, pre, true, ?_, .inl ⟨rfl, rfl, rfl⟩, ?_, ?_⟩
    all_goals simp [malloc, hf, Heap.refuse, hlive]
  · refine ⟨some h.next, h.next ::ₘ pre, false, ?_, .inr ⟨_, rfl, rfl, rfl⟩, ?_, ?_⟩
    all_goals simp [malloc, hf, Heap.grant, hlive]

theorem malloc_bind {q : Option ℕ → HeapProg β}
    (hnone : Owned pre (q none) fun b own _ => after b own true)
    (hsome : ∀ b, Owned (b ::ₘ pre) (q (some b)) after) : Owned pre (malloc >>= q) after := by
  refine Owned.malloc.bind fun r own bad hr => ?_
  rcases hr with ⟨rfl, rfl, rfl⟩ | ⟨b, rfl, rfl, rfl⟩
  · exact hnone.conseq fun b own bad h => h
  · exact (hsome b).conseq fun b own bad h => h

/-- `malloc` whose result is looked at later. -/
theorem malloc_bind_opt {q : Option ℕ → HeapProg β}
    (h : ∀ r, Owned (optBlock r + pre) (q r) fun b own bad => after b own (r.isNone || bad)) :
    Owned pre (malloc >>= q) after := by
  refine malloc_bind ?_ fun b => ?_
  · exact ((h none).of_eq (zero_add pre).symm).conseq fun b own bad hb => by simpa using hb
  · exact ((h (some b)).of_eq (Multiset.singleton_add b pre).symm).conseq
      fun b own bad hb => by simpa using hb

protected theorem free {post : Unit → Multiset ℕ → Bool → Prop} {b : ℕ} (h : post () pre false) :
    Owned (b ::ₘ pre) (free (some b)) post := by
  intro hp frame hlive
  have hmem : b ∈ hp.live := by
    rw [hlive]
    exact Multiset.mem_add.2 (.inl (Multiset.mem_cons_self b pre))
  have hrun : (free (some b)).run hp = ⟨.ret (), hp.release b, []⟩ := if_pos hmem
  rw [hrun]
  refine ⟨(), pre, false, rfl, h, ?_, (Bool.or_false _).symm⟩
  show hp.live.erase b = pre + frame
  rw [hlive, Multiset.cons_add, Multiset.erase_cons_head]

theorem free_bind {q : Unit → HeapProg β} {b : ℕ} (h : Owned pre (q ()) after) :
    Owned (b ::ₘ pre) (free (some b) >>= q) after := by
  have hfree : Owned (b ::ₘ pre) (free (some b)) fun _ own bad => own = pre ∧ bad = false :=
    Owned.free ⟨rfl, rfl⟩
  refine hfree.bind fun _ own bad hown => ?_
  obtain ⟨rfl, rfl⟩ := hown
  exact h.conseq fun b own bad hb => hb

/-- `free(NULL)` -/
theorem free_none_bind {q : Unit → HeapProg β} (h : Owned pre (q ()) after) :
    Owned pre (free none >>= q) after := h

theorem of_reads {s : Multiset ℕ} {a : α} (h : Reads s p a) (hs : s ≤ pre)
    (hpost : post a pre false) : Owned pre p post := by
  intro hp frame hlive
  have hrun := h hp fun b hb => by
    rw [hlive]
    exact Multiset.mem_add.2 (.inl (Multiset.mem_of_le hs hb))
  rw [hrun]
  exact ⟨a, pre, false, rfl, hpost, hlive, (Bool.or_false _).symm⟩

/-- `watch` gives what `post` says of the allocations. -/
protected theorem watch (h : Owned pre p post) :
    Owned pre (watch p) fun r own bad => r.2 = bad ∧ post r.1 own bad := by
  intro hp frame hlive
  obtain ⟨a, own, bad, hout, ha, hown, hbad⟩ := h { hp with failed := false } frame hlive
  rw [Bool.false_or] at hbad
  refine ⟨(a, bad), own, bad, ?_, ⟨rfl, ha⟩, hown, ?_⟩
  · simp only [HeapProg.watch, hout, hbad]
  · simp only [HeapProg.watch, hbad]

/-- Code that only reads, before other code. -/
theorem reads_bind {s : Multiset ℕ} {a : α} (h : Reads s p a) (hs : s ≤ pre)
    (hq : Owned pre (q a) after) : Owned pre (p >>= q) after := by
  have hread : Owned pre p fun a' own bad => a' = a ∧ own = pre ∧ bad = false :=
    of_reads h hs ⟨rfl, rfl, rfl⟩
  refine hread.bind fun a' own bad h => ?_
  obtain ⟨rfl, rfl, rfl⟩ := h
  exact hq.conseq fun b own bad hb => hb

end Owned

/-- The program frees the blocks `own`, with the help of others that it keeps. -/
def Frees (keep own : Multiset ℕ) (p : HeapProg α) : Prop :=
  Owned (own + keep) p fun _ own' bad => own' = keep ∧ bad = false

namespace Frees

variable {keep keep' own own' : Multiset ℕ} {p : HeapProg α} {q : α → HeapProg β}
  {post : β → Multiset ℕ → Bool → Prop}

theorem mono (hp : Frees keep own p) (hle : keep ≤ keep') : Frees keep' own p := by
  obtain ⟨more, rfl⟩ := Multiset.le_iff_exists_add.1 hle
  refine ((Owned.frame hp more).of_eq (add_assoc _ _ _).symm).conseq fun a own' bad h => ?_
  obtain ⟨own'', rfl, rfl, rfl⟩ := h
  exact ⟨rfl, rfl⟩

/-- Blocks are freed before other code. -/
theorem then_owned (hp : Frees keep own p) (hq : ∀ a, Owned keep (q a) post) :
    Owned (own + keep) (p >>= q) post := by
  refine Owned.bind hp fun a own' bad h => ?_
  obtain ⟨rfl, rfl⟩ := h
  exact (hq a).conseq fun b own bad hb => hb

/-- Some of the blocks that are kept are freed later. -/
theorem then_frees (hp : Frees (own' + keep) own p) (hq : ∀ a, Frees keep own' (q a)) :
    Frees keep (own + own') (p >>= q) :=
  Owned.of_eq (hp.then_owned hq) (add_assoc _ _ _)

protected theorem bind (hp : Frees keep own p) (hq : ∀ a, Frees keep own' (q a)) :
    Frees keep (own + own') (p >>= q) :=
  (hp.mono (Multiset.le_add_left _ _)).then_frees hq

theorem of_eq (hp : Frees keep own p) (heq : own' = own) : Frees keep own' p := heq ▸ hp

protected theorem pure {a : α} : Frees keep 0 (pure a) :=
  Owned.pure ⟨zero_add keep, rfl⟩

protected theorem free (b : ℕ) : Frees keep {b} (free (some b)) := by
  have h : Owned (b ::ₘ keep) (HeapProg.free (some b)) fun _ own' bad =>
      own' = keep ∧ bad = false := Owned.free ⟨rfl, rfl⟩
  exact h.of_eq (Multiset.singleton_add b keep)

/-- The block of a pointer is freed, unless it is `NULL`. -/
theorem free_opt (block : Option ℕ) : Frees keep (optBlock block) (HeapProg.free block) := by
  cases block with
  | none => exact .pure
  | some b => exact .free b

/-- An access to a block that is freed afterwards, or kept. -/
theorem reads_bind {s : Multiset ℕ} {a : α} (h : Reads s p a) (hs : s ≤ own + keep)
    (hq : Frees keep own (q a)) : Frees keep own (p >>= q) := Owned.reads_bind h hs hq

end Frees

namespace Reads

variable {s : Multiset ℕ} {p : HeapProg α} {q : α → HeapProg β} {a : α} {b : β}

protected theorem pure : Reads s (pure a) a := fun _ _ => rfl

protected theorem bind (hp : Reads s p a) (hq : Reads s (q a) b) : Reads s (p >>= q) b := by
  intro h hs
  rw [Prog.bind_of_ret (hp h hs), hq h hs]
  rfl

theorem mono {s' : Multiset ℕ} (hp : Reads s p a) (hs : s ⊆ s') : Reads s' p a :=
  fun h hs' => hp h fun b hb => hs' b (hs hb)

protected theorem access {b : ℕ} (hb : b ∈ s) : Reads s (access b) () := by
  intro h hs
  simp [HeapProg.access, hs b hb]

protected theorem index {array : List α} {i : ℕ} {b : ℕ} (hb : b ∈ s) (hi : array[i]? = some a) :
    Reads s (index (some b) array i) a := by
  refine Reads.bind (.access hb) ?_
  rw [hi]
  exact .pure

end Reads

end HeapProg
