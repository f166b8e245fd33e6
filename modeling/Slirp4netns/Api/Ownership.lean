/-
  slirp4netns formalization — who owns what in the API.

  `Answers`: what a handler in memory may do, next to the handler on values.  It does
  the same, and has the blocks of the context; or it stops as that one does; or an
  allocation has failed.  Then the process may end, or it goes on with the registry as
  it was, and may have lost blocks.  The only error in the use of memory that this may
  come to is the use of `NULL`, and `null` is when.
-/
import Slirp4netns.Api.Memory

namespace Slirp4netns.ApiHeap

open HeapProg
open Parson (HeapValue ObjectTable ArrayItems ObjectPtr StringPtr ObjectIn StringIn ValueIn)

variable {L : Libslirp} {α : Type}

/-- A handler in memory does what the one on values does, with result `r`, or fails for want of
memory. `null`: it may use a NULL. -/
inductive Answers (s : State L) (keep : Multiset ℕ) (null : Prop)
    (r : Ran (ApiState L) Call Stop α) :
    Outcome Halt α → State L → List Call → Multiset ℕ → Bool → Prop
  | same {a : α} {s' : State L} {calls : List Call} {own : Multiset ℕ}
      (hr : r = ⟨.ret a, s'.abs, calls⟩) (hown : own = s'.ctx.blocks + keep) :
      Answers s keep null r (.ret a) s' calls own false
  | stopped {why : Stop} {s' : State L} {calls : List Call} {own : Multiset ℕ}
      (hr : r.out = .stop why) (hcalls : r.calls = calls) :
      Answers s keep null r (.stop (.of why)) s' calls own false
  | starved {a : α} {s' : State L} {calls : List Call} {own leaked : Multiset ℕ}
      (hreg : s'.abs.registry = s.abs.registry) (hown : own = s'.ctx.blocks + keep + leaked) :
      Answers s keep null r (.ret a) s' calls own true
  | died {why : Halt} {s' : State L} {calls : List Call} {own : Multiset ℕ}
      (hwhy : ∀ f, why = .fault f → f = .nullPointer ∧ null) :
      Answers s keep null r (.stop why) s' calls own true

/-- The process may end so for less reason. -/
theorem Answers.mono {s : State L} {keep : Multiset ℕ} {null null' : Prop}
    {r : Ran (ApiState L) Call Stop α} {out : Outcome Halt α} {s' : State L} {calls : List Call}
    {own : Multiset ℕ} {bad : Bool} (h : Answers s keep null r out s' calls own bad)
    (hnull : null → null') : Answers s keep null' r out s' calls own bad := by
  cases h with
  | same hr hown => exact .same hr hown
  | stopped hr hcalls => exact .stopped hr hcalls
  | starved hreg hown => exact .starved hreg hown
  | died hwhy => exact .died fun f hf => ⟨(hwhy f hf).1, hnull (hwhy f hf).2⟩

/-! ## Parts of the code -/

section
variable {β : Type} {own : Multiset ℕ} {s : State L} {q : α → Api L β}
  {after : Outcome Halt β → State L → List Call → Multiset ℕ → Bool → Prop}

theorem Ctx.block_mem (ctx : Ctx) : ctx.block ∈ ctx.blocks := Multiset.mem_cons_self _ _

theorem Ctx.bufBlock_mem (ctx : Ctx) : ctx.bufBlock ∈ ctx.blocks :=
  Multiset.mem_cons_of_mem (Multiset.mem_cons_self _ _)

theorem access_bind {b : ℕ} {q : Unit → Api L β} (hb : b ∈ own) (hq : Runs own s (q ()) after) :
    Runs own s (heap (access b) >>= q) after := .reads_bind (.access hb) le_rfl hq

theorem call_bind {e : Call} {q : Unit → Api L β}
    (hq : Runs own s (q ()) fun out s' es own' bad => after out s' (e :: es) own' bad) :
    Runs own s (other (Prog.call e) >>= q) after := .beside_bind rfl hq

theorem Ctx.abs_of {block bufBlock : ℕ} {nodes : List HostfwdNode} {ctx : ApiCtx}
    (h : ctx.hostfwds = nodes.map HostfwdNode.fwd) : (Ctx.of block bufBlock nodes ctx).abs = ctx := by
  obtain ⟨buf, buflen, fwds, nextid, cfg, h₁, h₂, h₃⟩ := ctx
  obtain rfl : fwds = nodes.map HostfwdNode.fwd := h
  rfl

/-- The values are those that the code has left. -/
theorem State.abs_withValues {t : ApiState L} (h : t.ctx.hostfwds = s.abs.ctx.hostfwds) :
    (s.withValues t).abs = t := by
  rw [State.abs, State.withValues, Ctx.abs_of h]

theorem lift_run {p : Slirp4netns.Api L α} {out : Outcome Stop α} {t : ApiState L} {es : List Call}
    (hr : p.run s.abs = ⟨out, t, es⟩) :
    (p.lift State.abs State.withValues id id).run s = ⟨out, s.withValues t, es⟩ := by
  cases out <;> simp only [Prog.lift, hr, List.map_id, id]

/-- Code on values, at the end. -/
theorem values {p : Slirp4netns.Api L α} {a : α} {t : ApiState L} {es : List Call}
    {post : Outcome Halt α → State L → List Call → Multiset ℕ → Bool → Prop}
    (hr : p.run s.abs = ⟨.ret a, t, es⟩) (hpost : post (.ret a) (s.withValues t) es own false) :
    Runs own s (onValues p) post := .beside (lift_run hr) hpost

theorem values_bind {p : Slirp4netns.Api L α} {a : α} {t : ApiState L} {es : List Call}
    (hr : p.run s.abs = ⟨.ret a, t, es⟩)
    (hq : Runs own (s.withValues t) (q a) fun out s' es' own' bad =>
      after out s' (es ++ es') own' bad) : Runs own s (onValues p >>= q) after :=
  .beside_bind (lift_run hr) hq

theorem values_stop {p : Slirp4netns.Api L α} {why : Stop} {t : ApiState L} {es : List Call}
    (hr : p.run s.abs = ⟨.stop why, t, es⟩)
    (hafter : after (.stop (.of why)) (s.withValues t) es own false) :
    Runs own s (onValues p >>= q) after := .beside_stop (lift_run hr) hafter

theorem readCtx_bind {q : Ctx → Api L β} (hb : s.ctx.block ∈ own)
    (hq : Runs own s (q s.ctx) after) : Runs own s (readCtx >>= q) after := by
  have hread : Runs own s (readCtx : Api L Ctx) (Runs.Exactly s.ctx s [] own) :=
    .beside_bind rfl (access_bind hb (.pure ⟨rfl, rfl, rfl, rfl, rfl⟩))
  exact hread.exactly_bind (hq.conseq fun _ _ _ _ _ h => h)

/-- There is a new block, or the process has aborted. -/
def Allocates (s : State L) (own : Multiset ℕ) :
    Outcome Halt ℕ → State L → List Call → Multiset ℕ → Bool → Prop :=
  fun out s' es own' bad => s' = s ∧ es = [] ∧ ((out = .stop .abort ∧ own' = own ∧ bad = true) ∨
    ∃ b, out = .ret b ∧ own' = b ::ₘ own ∧ bad = false)

theorem alloc_bind {p : Api L ℕ} {q : ℕ → Api L β} (hp : Runs own s p (Allocates s own))
    (habort : after (.stop .abort) s [] own true) (hq : ∀ b, Runs (b ::ₘ own) s (q b) after) :
    Runs own s (p >>= q) after := by
  refine hp.bind (fun why s' es own' bad h => ?_) fun b s' es own' bad h => ?_
  · obtain ⟨rfl, rfl, ⟨hwhy, rfl, rfl⟩ | ⟨b, hwhy, -⟩⟩ := h
    · cases hwhy
      exact habort
    · cases hwhy
  · obtain ⟨rfl, rfl, ⟨hb, -⟩ | ⟨b', hb, rfl, rfl⟩⟩ := h
    · cases hb
    · cases hb
      exact (hq b).conseq fun _ _ _ _ _ h => h

theorem gMalloc0_allocates : Runs own s (gMalloc0 : Api L ℕ) (Allocates s own) := by
  refine Runs.inside_bind Owned.malloc fun r own' bad hr => ?_
  rcases hr with ⟨rfl, rfl, rfl⟩ | ⟨b, rfl, rfl, rfl⟩
  · exact .stop ⟨rfl, rfl, .inl ⟨rfl, rfl, rfl⟩⟩
  · exact .pure ⟨rfl, rfl, .inr ⟨b, rfl, rfl, rfl⟩⟩

end

/-! ## Lists -/

theorem nodeBlocks_append (nodes nodes' : List HostfwdNode) :
    nodeBlocks (nodes ++ nodes') = nodeBlocks nodes + nodeBlocks nodes' := by
  induction nodes with
  | nil => rw [List.nil_append, nodeBlocks, zero_add]
  | cons n nodes ih => rw [List.cons_append, nodeBlocks, nodeBlocks, ih, add_assoc]

theorem HostfwdNode.node_mem (n : HostfwdNode) : n.node ∈ n.blocks := Multiset.mem_cons_self _ _

theorem HostfwdNode.data_mem (n : HostfwdNode) : n.data ∈ n.blocks :=
  Multiset.mem_cons_of_mem (Multiset.mem_cons_self _ _)

theorem walk_reads (nodes : List HostfwdNode) : Reads (nodeBlocks nodes) (walk nodes) () := by
  induction nodes with
  | nil => exact .pure
  | cons n nodes ih =>
    exact .bind (.access (Multiset.mem_add.2 (.inl n.node_mem)))
      (ih.mono (Multiset.subset_of_le (Multiset.le_add_left _ _)))

theorem gListAppend_allocates {own : Multiset ℕ} {s : State L} {nodes : List HostfwdNode}
    (h : nodeBlocks nodes ≤ own) : Runs own s (gListAppend nodes : Api L ℕ) (Allocates s own) := by
  refine alloc_bind gMalloc0_allocates ⟨rfl, rfl, .inl ⟨rfl, rfl, rfl⟩⟩ fun b => ?_
  refine .reads_bind (walk_reads nodes) (h.trans (Multiset.le_cons_self _ _)) ?_
  exact .pure ⟨rfl, rfl, .inr ⟨b, rfl, rfl, rfl⟩⟩

theorem gListFindCustom_reads (id : ℤ) (nodes : List HostfwdNode) :
    Reads (nodeBlocks nodes) (gListFindCustom id nodes)
      (nodes.find? fun n => id = n.fwd.id) := by
  induction nodes with
  | nil => exact .pure
  | cons n nodes ih =>
    refine .bind (.access (Multiset.mem_add.2 (.inl n.node_mem)))
      (.bind (.access (Multiset.mem_add.2 (.inl n.data_mem))) ?_)
    by_cases hid : id = n.fwd.id
    · rw [if_pos hid, List.find?_cons_of_pos (by simpa using hid)]
      exact .pure
    · rw [if_neg hid, List.find?_cons_of_neg (by simpa using hid)]
      exact ih.mono (Multiset.subset_of_le (Multiset.le_add_left _ _))

/-- The element with this address is taken out; its entry is still there. -/
theorem gListRemove_owned (n : HostfwdNode) (a b : List HostfwdNode)
    (ha : ∀ m ∈ a, m.data ≠ n.data) :
    Owned (nodeBlocks (a ++ n :: b)) (gListRemove n.data (a ++ n :: b)) fun r own bad =>
      r = a ++ b ∧ own = n.data ::ₘ nodeBlocks (a ++ b) ∧ bad = false := by
  induction a with
  | nil =>
    refine .reads_bind (.access (Multiset.mem_add.2 (.inl n.node_mem))) le_rfl ?_
    rw [if_pos rfl]
    have hnext : nodeBlocks (b.take 1) ≤ nodeBlocks (n :: b) := by
      refine le_trans ?_ (Multiset.le_add_left _ _)
      calc nodeBlocks (b.take 1) ≤ nodeBlocks (b.take 1) + nodeBlocks (b.drop 1) :=
            Multiset.le_add_right _ _
        _ = nodeBlocks b := by rw [← nodeBlocks_append, List.take_append_drop]
    refine .reads_bind (walk_reads _) hnext ?_
    refine Owned.of_eq (.free_bind (.pure ⟨rfl, rfl, rfl⟩)) ?_
    rw [List.nil_append, List.nil_append, nodeBlocks, HostfwdNode.blocks, Multiset.cons_add,
      Multiset.cons_add, zero_add]
  | cons m a ih =>
    refine .reads_bind (.access (Multiset.mem_add.2 (.inl m.node_mem))) le_rfl ?_
    rw [if_neg (ha m List.mem_cons_self)]
    have ih := (ih fun m' hm' => ha m' (List.mem_cons_of_mem _ hm')).frame m.blocks
    refine Owned.bind (ih.of_eq (add_comm _ _)) fun r own bad hr => ?_
    obtain ⟨own, rfl, rfl, rfl, rfl⟩ := hr
    refine .pure ⟨rfl, ?_, rfl⟩
    rw [List.cons_append, nodeBlocks, Multiset.cons_add, add_comm]

theorem nodeBlocks_eq (nodes : List HostfwdNode) : nodeBlocks nodes =
    (nodes.map HostfwdNode.data : Multiset ℕ) + (nodes.map HostfwdNode.node : Multiset ℕ) := by
  induction nodes with
  | nil => rfl
  | cons n nodes ih =>
    rw [nodeBlocks, ih, HostfwdNode.blocks, List.map_cons, List.map_cons, ← Multiset.cons_coe,
      ← Multiset.cons_coe, Multiset.cons_add, Multiset.cons_add, zero_add, Multiset.cons_add,
      Multiset.add_cons, Multiset.cons_swap]

theorem freeEntries_frees {keep : Multiset ℕ} {nodes : List HostfwdNode}
    (h : ∀ n ∈ nodes, n.node ∈ keep) :
    Frees keep (nodes.map HostfwdNode.data : Multiset ℕ) (freeEntries nodes) := by
  induction nodes with
  | nil => exact .pure
  | cons n nodes ih =>
    have hn : n.node ∈ (n.data ::ₘ (nodes.map HostfwdNode.data : Multiset ℕ)) + keep :=
      Multiset.mem_add.2 (.inr (h n List.mem_cons_self))
    refine Frees.of_eq ?_ (Multiset.cons_coe n.data (nodes.map HostfwdNode.data)).symm
    refine .reads_bind (.access hn) le_rfl ?_
    refine Frees.of_eq ?_ (Multiset.singleton_add n.data _).symm
    exact (Frees.free n.data).bind fun _ => ih fun m hm => h m (List.mem_cons_of_mem _ hm)

theorem freeNodes_frees {keep : Multiset ℕ} (nodes : List HostfwdNode) :
    Frees keep (nodes.map HostfwdNode.node : Multiset ℕ) (freeNodes nodes) := by
  induction nodes with
  | nil => exact .pure
  | cons n nodes ih =>
    refine Frees.of_eq ((Frees.free n.node).bind fun _ => ih) ?_
    rw [Multiset.singleton_add, Multiset.cons_coe, List.map_cons]

/-- Every entry is freed, and every element. -/
theorem gListFreeFull_frees (nodes : List HostfwdNode) :
    Frees 0 (nodeBlocks nodes) (gListFreeFull nodes) := by
  rw [nodeBlocks_eq]
  refine Frees.then_frees (freeEntries_frees fun n hn => ?_) fun _ => freeNodes_frees nodes
  rw [add_zero]
  exact Multiset.mem_coe.2 (List.mem_map_of_mem hn)

/-! ## The context -/

theorem apiCtxAlloc_owned (cfg : Slirp4netnsConfig) (contents : ℕ → UInt8) :
    Owned 0 (apiCtxAlloc cfg contents) fun r own bad => (r = none ∧ own = 0 ∧ bad = true) ∨
      ∃ ctx : Ctx, r = some ctx ∧ own = ctx.blocks ∧ bad = false ∧
        ctx.abs = Slirp4netns.apiCtxAlloc cfg contents := by
  refine .malloc_bind (.pure (.inl ⟨rfl, rfl, rfl⟩)) fun block => ?_
  refine .malloc_bind (.free_bind (.pure (.inl ⟨rfl, rfl, rfl⟩))) fun bufBlock => ?_
  have hempty : (Slirp4netns.apiCtxAlloc cfg contents).hostfwds = [] := rfl
  exact .pure (.inr ⟨_, rfl, Multiset.cons_swap _ _ _, rfl, Ctx.abs_of hempty⟩)

theorem apiCtxFree_frees (ctx : Ctx) : Frees 0 ctx.blocks (apiCtxFree ctx) := by
  refine .reads_bind (.access (Multiset.mem_add.2 (.inl ctx.block_mem))) le_rfl ?_
  refine Frees.of_eq ((Frees.free ctx.bufBlock).bind fun _ =>
    (gListFreeFull_frees ctx.hostfwds).bind fun _ => Frees.free ctx.block) ?_
  rw [Ctx.blocks, Multiset.singleton_add, add_comm (nodeBlocks _), Multiset.singleton_add,
    Multiset.cons_swap]

/-! ## add_hostfwd -/

section
variable {C : Libc} {conn : Conn} {s : State L} {keep : Multiset ℕ} {null : Prop}

/-- An error that changes nothing. -/
theorem writeError_answers {r : Ran (ApiState L) Call Stop ℤ} (e : ApiError)
    (hr : r = Done.ran C conn s.abs ⟨[], s.abs.registry, .ret (.error e)⟩) :
    Runs (s.ctx.blocks + keep) s (onValues (writeResponse conn (errorText e.desc)))
      (Answers s keep null r) :=
  values (writeResponse_run conn _ _)
    (.same (hr.trans (writeError_run C conn e s.abs).symm) rfl)

theorem refuse_runs {own : Multiset ℕ} {b : ℕ} (desc : String) :
    Runs (b ::ₘ own) s (refuse conn b desc : Api L ℤ)
      (Runs.Exactly (conn.writeRc (cstr (errorText desc))) s
        [.write .conn (cstr (errorText desc)) (conn.writeRc (cstr (errorText desc)))] own) := by
  refine values_bind (writeResponse_run conn _ _) ?_
  have hfree : Owned (b ::ₘ own) (free (some b)) fun _ own' bad => own' = own ∧ bad = false :=
    .free ⟨rfl, rfl⟩
  refine .inside_bind hfree fun _ own bad h => ?_
  obtain ⟨rfl, rfl⟩ := h
  exact .pure ⟨rfl, rfl, rfl, rfl, rfl⟩

theorem refuse_answers {r : Ran (ApiState L) Call Stop ℤ} {b : ℕ} (e : ApiError)
    (hr : r = Done.ran C conn s.abs ⟨[], s.abs.registry, .ret (.error e)⟩) :
    Runs (b ::ₘ (s.ctx.blocks + keep)) s (refuse conn b e.desc) (Answers s keep null r) := by
  refine (refuse_runs e.desc).conseq fun out s' es own bad h => ?_
  obtain ⟨rfl, rfl, rfl, rfl, rfl⟩ := h
  exact .same (hr.trans (writeError_run C conn e s'.abs).symm) rfl

theorem protoIsUdp_runs {own : Multiset ℕ} {b : ℕ} {chars : Bytes} (hb : b ∈ own) :
    Runs own s (protoIsUdp (some (b, chars)) : Api L ℤ)
      (Runs.Exactly ((protoCode (cstr chars)).getD (-1)) s [] own) := by
  have hcmp : ∀ lit, Runs own s (strcmpPtr (some (b, chars)) lit : Api L ℤ)
      (Runs.Exactly (strcmp (cstr chars) lit) s [] own) := fun lit =>
    access_bind hb (.pure ⟨rfl, rfl, rfl, rfl, rfl⟩)
  refine (hcmp (bytes "udp")).exactly_bind ?_
  unfold protoCode
  refine .ite (fun hudp => ?_) fun hudp => ?_
  · rw [if_pos (strcmp_eq_zero.1 hudp)]
    exact .pure ⟨rfl, rfl, rfl, rfl, rfl⟩
  rw [if_neg (mt strcmp_eq_zero.2 hudp)]
  refine (hcmp (bytes "tcp")).exactly_bind ?_
  refine .ite (fun htcp => ?_) fun htcp => ?_
  · rw [if_pos (strcmp_eq_zero.1 htcp)]
    exact .pure ⟨rfl, rfl, rfl, rfl, rfl⟩
  · rw [if_neg (mt strcmp_eq_zero.2 htcp)]
    exact .pure ⟨rfl, rfl, rfl, rfl, rfl⟩

theorem addrOr_reads {blocks : Multiset ℕ} {p : StringPtr} (hp : StringIn blocks p)
    (dflt : InAddr) :
    Reads blocks (addrOr (some dflt) p) (Slirp4netns.addrOr dflt p.text) := by
  cases p with
  | none => exact .pure
  | some p =>
    obtain ⟨b, chars⟩ := p
    refine .bind (.access (hp _ rfl)) ?_
    rw [Slirp4netns.addrOr, StringPtr.text, Option.map_some, givenAddr]
    cases hchars : cstr chars with
    | nil => exact .pure
    | cons c chars' =>
      rw [if_neg (List.cons_ne_nil _ _)]
      exact .pure

end

section
variable {C : Libc} {conn : Conn} {s : State L} {keep : Multiset ℕ} {null : Prop}

theorem registerHostfwd_answers {b : ℕ} (fwd : ApiHostfwd) :
    Runs (b ::ₘ (s.ctx.blocks + keep)) s (registerHostfwd conn b fwd)
      (Answers s keep null ((register fwd s.abs.registry).ran C conn s.abs)) := by
  obtain ⟨ctx, slirp⟩ := s
  rcases hres : L.slirpAddHostfwd slirp fwd.key fwd.guest with ⟨rc, slirp'⟩
  have hadd : (slirpAddHostfwd fwd.key fwd.guest).run (State.abs ⟨ctx, slirp⟩) =
      ⟨.ret rc, State.abs ⟨ctx, slirp'⟩, [.slirpAddHostfwd fwd.key fwd.guest rc]⟩ := by
    simp only [slirpAddHostfwd, State.abs, hres]
  have hregister : register fwd (State.abs ⟨ctx, slirp⟩).registry =
      if rc < 0 then ⟨[.slirpAddHostfwd fwd.key fwd.guest rc],
        (State.abs ⟨ctx, slirp'⟩).registry, .ret (.error (.add .slirpFailed))⟩
      else if h : ctx.hostfwdsNextid < intMax then
        ⟨[.slirpAddHostfwd fwd.key fwd.guest rc],
          ApiState.registry ⟨(ctx.abs.nextId h).append { fwd with id := ctx.hostfwdsNextid }, slirp'⟩,
          .ret (.added { fwd with id := ctx.hostfwdsNextid })⟩
      else ⟨[.slirpAddHostfwd fwd.key fwd.guest rc], (State.abs ⟨ctx, slirp'⟩).registry,
        .stop .signedOverflow⟩ := by
    simp only [register, State.abs, ApiState.registry, hres, Ctx.abs, ApiCtx.nextId, ApiCtx.append]
  rw [hregister]
  have hctx : ctx.block ∈ b ::ₘ (ctx.blocks + keep) :=
    Multiset.mem_cons_of_mem (Multiset.mem_add.2 (.inl ctx.block_mem))
  refine values_bind hadd (.ite (fun hrc => ?_) fun hrc => ?_)
  · refine (refuse_runs _).conseq fun out s' es own bad h => ?_
    obtain ⟨rfl, rfl, rfl, rfl, rfl⟩ := h
    rw [if_pos hrc]
    refine .same ?_ rfl
    have hcstr : cstr (errorText "add_hostfwd: slirp_add_hostfwd failed") = _ :=
      cstr_errorText (.add .slirpFailed)
    rw [hcstr]
    rfl
  rw [if_neg hrc]
  refine readCtx_bind hctx ?_
  by_cases hid : ctx.hostfwdsNextid < intMax
  · rw [dif_pos hid]
    have htake : takeId.run (State.abs ⟨ctx, slirp'⟩) = ⟨.ret ctx.hostfwdsNextid,
        ⟨ctx.abs.nextId hid, slirp'⟩, []⟩ := dif_pos hid
    refine values_bind htake (access_bind (Multiset.mem_cons_self _ _) ?_)
    have hle : nodeBlocks ctx.hostfwds ≤ b ::ₘ (ctx.blocks + keep) :=
      ((Multiset.le_cons_self _ _).trans (Multiset.le_cons_self _ _)).trans
        ((Multiset.le_add_right _ _).trans (Multiset.le_cons_self _ _))
    refine alloc_bind (gListAppend_allocates hle) (.died fun _ hf => Halt.noConfusion hf) fun node => ?_
    refine .beside_bind rfl ?_
    obtain ⟨hlen, hcstr⟩ := cstr_idText ctx.nextid_isInt
    refine .ite (fun hlong => absurd hlen (Nat.not_lt.2 (Nat.le_of_lt hlong))) fun _ => ?_
    rw [List.take_of_length_le (Nat.le_of_lt_succ hlen)]
    refine values (writeResponse_run conn _ _) (.same ?_ ?_)
    · rw [hcstr]
      simp only [Done.ran, Reply.text, State.abs, State.withValues, ApiState.registry,
        ApiState.withRegistry, Ctx.abs, Ctx.of, Ctx.setHostfwds, ApiCtx.nextId, ApiCtx.append,
        List.map_append, List.map_cons, List.map_nil, List.singleton_append, List.nil_append]
    · simp only [State.withValues, State.abs, Ctx.of, Ctx.blocks, Ctx.setHostfwds,
        nodeBlocks_append, nodeBlocks, HostfwdNode.blocks]
      simp only [← Multiset.singleton_add]
      rw [add_zero, add_zero]
      ac_rfl
  · rw [dif_neg hid]
    have htake : takeId.run (State.abs ⟨ctx, slirp'⟩) = ⟨.stop .signedOverflow,
        State.abs ⟨ctx, slirp'⟩, []⟩ := dif_neg hid
    exact values_stop htake (.stopped rfl rfl)

/-- The blocks that are kept are there, next to those of the context and a new entry. -/
theorem keep_le (ctx : Ctx) (b : ℕ) : keep ≤ b ::ₘ (ctx.blocks + keep) :=
  (Multiset.le_add_left _ _).trans (Multiset.le_cons_self _ _)

theorem apiHandleReqAddHostfwd_answers {o : ℕ} {t : ObjectTable HeapValue}
    (ho : ObjectIn keep (some (o, t))) :
    Runs (s.ctx.blocks + keep) s (apiHandleReqAddHostfwd C conn (some (o, t)))
      (Answers s keep null ((Slirp4netns.apiHandleReqAddHostfwd C conn t.members).run s.abs)) := by
  obtain ⟨protoS, hproto, hprotoIn, hprotoText⟩ :=
    Parson.jsonObjectDotgetString_reads ho (bytes "arguments.proto")
  obtain ⟨hostS, hhost, hhostIn, hhostText⟩ :=
    Parson.jsonObjectDotgetString_reads ho (bytes "arguments.host_addr")
  obtain ⟨guestS, hguest, hguestIn, hguestText⟩ :=
    Parson.jsonObjectDotgetString_reads ho (bytes "arguments.guest_addr")
  rw [Slirp4netns.apiHandleReqAddHostfwd_run, serveAdd, checkAdd, ← hprotoText, ← hhostText,
    ← hguestText]
  have hle : keep ≤ s.ctx.blocks + keep := Multiset.le_add_left _ _
  refine .reads_bind hproto hle (.reads_bind hhost hle (.reads_bind hguest hle ?_))
  refine alloc_bind gMalloc0_allocates (.died fun _ hf => Halt.noConfusion hf) fun b => ?_
  have hle : keep ≤ b ::ₘ (s.ctx.blocks + keep) := keep_le s.ctx b
  cases protoS with
  | none =>
    -- `strcmp(NULL, "udp")`
    show Runs _ _ (Prog.stop (Halt.of .nullPointer)) _
    exact .stop (.stopped rfl rfl)
  | some p =>
    obtain ⟨pb, proto⟩ := p
    have hpb : pb ∈ b ::ₘ (s.ctx.blocks + keep) := Multiset.mem_of_le hle (hprotoIn _ rfl)
    refine (protoIsUdp_runs hpb).exactly_bind (access_bind (Multiset.mem_cons_self _ _) ?_)
    have htext : StringPtr.text (some (pb, proto)) = some (cstr proto) := rfl
    rw [htext]
    dsimp only
    rcases hcode : protoCode (cstr proto) with _ | isUdp
    · exact .ite (fun _ => refuse_answers (.add .badProto) rfl) fun h => absurd rfl h
    refine .ite (fun h => ?_) fun _ => ?_
    · rcases protoCode_cases hcode with rfl | rfl <;> cases h
    have hany : inetPton (bytes "0.0.0.0") = some anyAddr := by decide
    rw [hany]
    refine .reads_bind (addrOr_reads hhostIn anyAddr) hle ?_
    rcases Slirp4netns.addrOr anyAddr hostS.text with _ | hostAddr
    · exact refuse_answers (.add .badHostAddr) rfl
    refine .reads_bind (Parson.jsonObjectDotgetNumber_reads ho _) hle ?_
    simp only
    refine .ite (fun h => ?_) fun h => ?_
    · rw [if_pos h]
      exact refuse_answers (.add .badHostPort) rfl
    rw [if_neg h]
    refine readCtx_bind (Multiset.mem_cons_of_mem (Multiset.mem_add.2 (.inl s.ctx.block_mem))) ?_
    refine .reads_bind (addrOr_reads hguestIn _) hle ?_
    have hcfg : s.abs.ctx.cfg = s.ctx.cfg := rfl
    rw [hcfg]
    rcases Slirp4netns.addrOr s.ctx.cfg.recommendedVguest guestS.text with _ | guestAddr
    · exact refuse_answers (.add .badGuestAddr) rfl
    refine .reads_bind (Parson.jsonObjectDotgetNumber_reads ho _) hle ?_
    simp only
    refine .ite (fun h => ?_) fun h => ?_
    · rw [if_pos h]
      exact refuse_answers (.add .badGuestPort) rfl
    rw [if_neg h]
    exact registerHostfwd_answers _

/-! ## remove_hostfwd -/

theorem data_mem_nodeBlocks {n : HostfwdNode} {nodes : List HostfwdNode} (hn : n ∈ nodes) :
    n.data ∈ nodeBlocks nodes := by
  rw [nodeBlocks_eq]
  exact Multiset.mem_add.2 (.inl (Multiset.mem_coe.2 (List.mem_map_of_mem hn)))

/-- The entries have different addresses. -/
theorem data_ne_of_nodup {n : HostfwdNode} {a b : List HostfwdNode}
    (h : (nodeBlocks (a ++ n :: b)).Nodup) : ∀ m ∈ a, m.data ≠ n.data := by
  intro m hm heq
  rw [nodeBlocks_append, Multiset.nodup_add] at h
  refine Multiset.disjoint_left.1 h.2.2 (data_mem_nodeBlocks hm) ?_
  rw [heq]
  exact data_mem_nodeBlocks List.mem_cons_self

theorem apiHandleReqRemoveHostfwd_answers {o : ℕ} {t : ObjectTable HeapValue}
    (ho : ObjectIn keep (some (o, t))) :
    Runs (s.ctx.blocks + keep) s (apiHandleReqRemoveHostfwd C conn (some (o, t)))
      (Answers s keep null ((Slirp4netns.apiHandleReqRemoveHostfwd C conn t.members).run s.abs)) := by
  obtain ⟨ctx, slirp⟩ := s
  rw [Slirp4netns.apiHandleReqRemoveHostfwd_run, serveRemove]
  have hnodes : nodeBlocks ctx.hostfwds ≤ ctx.blocks + keep :=
    ((Multiset.le_cons_self _ _).trans (Multiset.le_cons_self _ _)).trans
      (Multiset.le_add_right _ _)
  refine .of_nodup fun hnodup => ?_
  refine .reads_bind (Parson.jsonObjectDotgetNumber_reads ho _) (Multiset.le_add_left _ _) ?_
  refine readCtx_bind (Multiset.mem_add.2 (.inl ctx.block_mem)) ?_
  refine .reads_bind (gListFindCustom_reads _ _) hnodes ?_
  have hfind : (State.abs ⟨ctx, slirp⟩).registry.hostfwds.find?
      (fun fwd => removeId C t.members = fwd.id) =
      (ctx.hostfwds.find? fun n => removeId C t.members = n.fwd.id).map HostfwdNode.fwd := by
    show (ctx.hostfwds.map HostfwdNode.fwd).find? _ = _
    rw [List.find?_map]
    rfl
  rw [hfind, ← removeId]
  cases hn : ctx.hostfwds.find? fun n => removeId C t.members = n.fwd.id with
  | none => exact writeError_answers (.remove .badId) rfl
  | some n =>
    obtain ⟨hid, a, b, hab, ha⟩ := List.find?_eq_some_iff_append.1 hn
    have hdata : n.data ∈ ctx.blocks + keep := by
      refine Multiset.mem_of_le hnodes (data_mem_nodeBlocks ?_)
      rw [hab]
      exact List.mem_append.2 (.inr List.mem_cons_self)
    refine access_bind hdata ?_
    rcases hres : L.slirpRemoveHostfwd slirp n.fwd.key with ⟨rc, slirp'⟩
    have hremove : (slirpRemoveHostfwd n.fwd.key).run (State.abs ⟨ctx, slirp⟩) =
        ⟨.ret rc, State.abs ⟨ctx, slirp'⟩, [.slirpRemoveHostfwd n.fwd.key rc]⟩ := by
      simp only [slirpRemoveHostfwd, State.abs, hres]
    have hres' : L.slirpRemoveHostfwd (State.abs ⟨ctx, slirp⟩).registry.slirp n.fwd.key =
        (rc, slirp') := hres
    simp only [Option.map_some, hres']
    refine values_bind hremove (.ite (fun hrc => ?_) fun hrc => ?_)
    · rw [if_pos hrc]
      refine values (writeResponse_run conn _ _) (.same ?_ rfl)
      have hcstr : cstr (errorText "remove_hostfwd: slirp_remove_hostfwd failed") = _ :=
        cstr_errorText (.remove .slirpFailed)
      rw [hcstr]
      rfl
    rw [if_neg hrc]
    have hnodup' : (nodeBlocks (a ++ n :: b)).Nodup := by
      rw [← hab]
      exact Multiset.nodup_of_le hnodes hnodup
    have hremoved := (gListRemove_owned n a b (data_ne_of_nodup hnodup')).frame
      (ctx.block ::ₘ ctx.bufBlock ::ₘ keep)
    rw [← hab] at hremoved
    refine .inside_bind (hremoved.of_eq ?_) fun r own bad hr => ?_
    · rw [Ctx.blocks]
      simp only [← Multiset.singleton_add]
      ac_rfl
    obtain ⟨own, rfl, rfl, rfl, rfl⟩ := hr
    refine .beside_bind rfl ?_
    have hfree : Owned (n.data ::ₘ nodeBlocks (a ++ b) + (ctx.block ::ₘ ctx.bufBlock ::ₘ keep))
        (free (some n.data)) fun _ own bad =>
          own = nodeBlocks (a ++ b) + (ctx.block ::ₘ ctx.bufBlock ::ₘ keep) ∧ bad = false := by
      rw [Multiset.cons_add]
      exact .free ⟨rfl, rfl⟩
    refine .inside_bind hfree fun _ own bad h => ?_
    obtain ⟨rfl, rfl⟩ := h
    have herase : (ctx.hostfwds.map HostfwdNode.fwd).eraseP
        (fun fwd => removeId C t.members = fwd.id) = (a ++ b).map HostfwdNode.fwd := by
      have ha' : ∀ e ∈ a.map HostfwdNode.fwd, ¬ decide (removeId C t.members = e.id) = true := by
        intro e he
        obtain ⟨m, hm, rfl⟩ := List.mem_map.1 he
        simpa using ha m hm
      rw [hab, List.map_append, List.map_cons, List.eraseP_append_right _ ha',
        List.eraseP_cons_of_pos (by simpa using hid), List.map_append]
    refine values (writeResponse_run conn _ _) (.same ?_ ?_)
    · have hcstr : cstr (bytes "\x7b\"return\":\x7b\x7d\x7d") =
          bytes "\x7b\"return\":\x7b\x7d\x7d" := by decide
      rw [hcstr]
      simp only [Done.ran, Reply.text, State.abs, State.withValues, ApiState.registry,
        ApiState.withRegistry, Ctx.abs, Ctx.of, Ctx.setHostfwds, herase, List.singleton_append,
        List.nil_append]
    · simp only [State.withValues, State.abs, Ctx.of, Ctx.blocks, Ctx.setHostfwds]
      simp only [← Multiset.singleton_add]
      ac_rfl

end

end Slirp4netns.ApiHeap
