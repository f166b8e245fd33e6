/-
  slirp4netns formalization — the order in which `do_slirp` locks itself down.

  `Secured` is a law of the trace, for each act and the acts before it:

  * no event is handled before the sandbox and the filter that were asked for are
    in place;
  * the ready descriptor gets its byte once, and only when every step that was
    asked for has succeeded;
  * once the filter is loaded, no system call of its rules is made.

  The acts of a run fall into those of the startup (`Act.Early`), for which the
  law holds as long as the filter is not loaded, and those of the loop
  (`Act.Tame`), for which it holds once everything is in place.
  `doSlirp_secured` puts them together.
-/
import Slirp4netns.Api.Registry
import Slirp4netns.DoSlirp

namespace Slirp4netns

variable {L : Libslirp}

/-! ## The law -/

/-- Calls that handle an event. -/
def Call.Event : Call → Prop
  | write .ready _ _ => False
  | close .ready => False
  | fprintf _ => False
  | perror _ => False
  | _ => True

/-- Acts that handle an event: all that is done with the tap device, the API socket and its
    connections, the calls of libslirp from the loop, and the timers. -/
def Act.Event : Act → Prop
  | call c => c.Event
  | cb (.fire _) => True
  | cb (.pass _) => True
  | slirpPollfdsFill => True
  | addPoll .. => True
  | gPoll .. => True
  | getRevents .. => True
  | slirpInput _ => True
  | slirpPollfdsPoll _ => True
  | _ => False

/-- The filter is loaded. -/
def Loaded (es : List Act) : Prop := .seccomp (.load 0) ∈ es

/-- The sandbox and the filter are in place, if they were asked for. -/
structure Locked (args : Args) (es : List Act) : Prop where
  sandbox : args.cfg.enableSandbox = true → ∃ rc, 0 ≤ rc ∧ .createSandbox rc ∈ es
  seccomp : args.cfg.enableSeccomp = true → (∃ rc, 0 ≤ rc ∧ .enableSeccomp rc ∈ es) ∧ Loaded es

/-- Every step that was asked for has succeeded. -/
structure Ready (args : Args) (es : List Act) : Prop extends Locked args es where
  slirp : .slirpNew true ∈ es
  malloc : .malloc true ∈ es
  api : args.apiSocket.isSome = true →
    (∃ fd, 0 ≤ fd ∧ .apiBindlisten fd ∈ es) ∧ .apiCtxAlloc true ∈ es

/-- The law, for an act and the acts before it. -/
structure Secured (args : Args) (before : List Act) (e : Act) : Prop where
  events : e.Event → Locked args before
  ready : ∀ data rc, e = .call (.write .ready data rc) → data = bytes "1" ∧ 0 ≤ args.readyfd ∧
    Ready args before ∧ ∀ data' rc', .call (.write .ready data' rc') ∈ before → rc' ≤ 0
  syscalls : Loaded before → e.Harmless

/-- The steps that were asked for succeed. -/
structure Startup.Succeeds (args : Args) (env : Startup) : Prop where
  slirp : env.slirpNew = true
  malloc : env.malloc = true
  api : args.apiSocket.isSome = true → 0 ≤ env.apiBindlisten ∧ env.apiCtxAlloc.isSome = true
  sandbox : args.cfg.enableSandbox = true → 0 ≤ env.createSandbox
  seccomp : args.cfg.enableSeccomp = true → 0 ≤ env.seccomp.rc

/-- Nothing was written to the ready descriptor. -/
def Silent (es : List Act) : Prop := ∀ data rc, .call (.write .ready data rc) ∉ es

/-! ## Kinds of acts -/

/-- A write to the ready descriptor. -/
def Act.ToReady (e : Act) : Prop := ∃ data rc, e = .call (.write .ready data rc)

/-- Neither an event of the sandbox and the filter, nor a write to the ready descriptor. -/
def Act.Quiet (e : Act) : Prop := ¬ e.Event ∧ ¬ e.ToReady

/-- Acts of the startup. -/
def Act.Early (e : Act) : Prop := e.Quiet ∧ e ≠ .seccomp (.load 0)

/-- Acts of the loop. -/
def Act.Tame (e : Act) : Prop := ¬ e.ToReady ∧ e.Harmless

/-- Acts that may come at any time. -/
def Act.Bland (e : Act) : Prop := e.Quiet ∧ e.Harmless

def Act.isCall : Act → Bool
  | .call _ => true
  | _ => false

theorem Act.not_toReady {e : Act} (h : e.isCall = false) : ¬ e.ToReady := by
  rintro ⟨data, rc, rfl⟩
  cases h

theorem Act.quiet_of {e : Act} (hev : ¬ e.Event) (h : e.isCall = false) : e.Quiet :=
  ⟨hev, Act.not_toReady h⟩

theorem Act.quiet_fprintf (text : Bytes) : (Act.call (.fprintf text)).Quiet :=
  ⟨id, fun ⟨_, _, h⟩ => by cases h⟩

theorem Act.OfSeccomp.bland {e : Act} (h : e.OfSeccomp) : e.Bland := by
  refine ⟨?_, h.harmless⟩
  cases e with
  | call c =>
    cases c with
    | fprintf text => exact Act.quiet_fprintf text
    | _ => exact h.elim
  | seccomp c => exact Act.quiet_of id rfl
  | _ => exact h.elim

theorem Act.OfSeccomp.early {e : Act} (h : e.OfSeccomp) : e.Early :=
  ⟨h.bland.1, fun he => by rw [he] at h; exact h⟩

section
variable {args : Args} {es : List Act} {e : Act}

theorem Locked.snoc (h : Locked args es) : Locked args (es ++ [e]) where
  sandbox hs := by
    obtain ⟨rc, hrc, hmem⟩ := h.sandbox hs
    exact ⟨rc, hrc, List.mem_append_left _ hmem⟩
  seccomp hs := by
    obtain ⟨⟨rc, hrc, hmem⟩, hloaded⟩ := h.seccomp hs
    exact ⟨⟨rc, hrc, List.mem_append_left _ hmem⟩, List.mem_append_left _ hloaded⟩

theorem Ready.snoc (h : Ready args es) : Ready args (es ++ [e]) where
  toLocked := h.toLocked.snoc
  slirp := List.mem_append_left _ h.slirp
  malloc := List.mem_append_left _ h.malloc
  api ha := by
    obtain ⟨⟨fd, hfd, hmem⟩, hctx⟩ := h.api ha
    exact ⟨⟨fd, hfd, List.mem_append_left _ hmem⟩, List.mem_append_left _ hctx⟩

theorem Silent.snoc (h : Silent es) (he : ¬ e.ToReady) : Silent (es ++ [e]) := by
  intro data rc hmem
  rcases List.mem_append.1 hmem with hmem | hmem
  · exact h data rc hmem
  · exact he ⟨data, rc, (List.mem_singleton.1 hmem).symm⟩

theorem Act.Quiet.secured (he : e.Quiet) (h : Loaded es → e.Harmless) : Secured args es e :=
  ⟨fun hev => absurd hev he.1, fun data rc hr => absurd ⟨data, rc, hr⟩ he.2, h⟩

theorem Act.Tame.secured (he : e.Tame) (h : Locked args es) : Secured args es e :=
  ⟨fun _ => h, fun data rc hr => absurd ⟨data, rc, hr⟩ he.1, fun _ => he.2⟩

/-- A run so far that kept to the law and said nothing. -/
structure Unheard (args : Args) (es : List Act) : Prop where
  secured : Always (Secured args) es
  silent : Silent es

theorem Unheard.snoc (h : Unheard args es) (he : e.Quiet) (hl : Loaded es → e.Harmless) :
    Unheard args (es ++ [e]) :=
  ⟨h.secured.snoc (he.secured hl), h.silent.snoc he.2⟩

/-- What holds in the startup before the filter is loaded, after the acts `done`. -/
structure Starting (args : Args) (done es : List Act) : Prop extends Unheard args es where
  unloaded : ¬ Loaded es
  done_mem : ∀ e ∈ done, e ∈ es

variable {done : List Act}

theorem Starting.snoc (h : Starting args done es) (he : e.Early) :
    Starting args done (es ++ [e]) where
  toUnheard := h.toUnheard.snoc he.1 fun hl => absurd hl h.unloaded
  unloaded hl := by
    rcases List.mem_append.1 hl with hl | hl
    · exact h.unloaded hl
    · exact he.2 (List.mem_singleton.1 hl).symm
  done_mem f hf := List.mem_append_left _ (h.done_mem f hf)

/-- An act that is to be remembered. -/
theorem Starting.record (h : Starting args done es) (he : e.Early) :
    Starting args (done ++ [e]) (es ++ [e]) := by
  obtain ⟨hunheard, hunloaded, hdone⟩ := h.snoc he
  refine ⟨hunheard, hunloaded, fun f hf => ?_⟩
  rcases List.mem_append.1 hf with hf | hf
  · exact hdone f hf
  · exact List.mem_append_right _ hf

theorem Starting.forget {acts : List Act} (h : Starting args (done ++ acts) es) :
    Starting args done es :=
  ⟨h.toUnheard, h.unloaded, fun e he => h.done_mem e (List.mem_append_left _ he)⟩

end

/-! ## Startup -/

/-- A step of the startup succeeds exactly if `ok`, and has then made the calls `acts`. -/
def Step (args : Args) (ok : Prop) (acts : List Act) (p : SlirpProg L Bool) : Prop :=
  ∀ done, Prog.Triple (fun es _ => Starting args done es) p
    (fun b es _ => if b then ok ∧ Starting args (done ++ acts) es
      else ¬ ok ∧ Starting args done es)
    fun _ _ _ => False

theorem Step.unlessErr {args : Args} {ok : Prop} {acts done : List Act} {p q : SlirpProg L Bool}
    {Q F : List Act → Prop} (hp : Step args ok acts p)
    (hq : ok → Prog.Triple (fun es _ => Starting args (done ++ acts) es) q
      (fun b es _ => if b then Q es else F es) fun _ _ _ => False)
    (hF : ¬ ok → ∀ es, Starting args done es → F es) :
    Prog.Triple (fun es _ => Starting args done es) (unlessErr p q)
      (fun b es _ => if b then Q es else F es) fun _ _ _ => False := by
  refine .bind (hp done) fun b => ?_
  cases b with
  | true => exact .fact hq
  | false => exact .pure fun es _ h => hF h.1 es h.2

/-- The callbacks return, and fire no timer. -/
theorem slirpCbs_run (caller : Option TimerId) (cbs : List SlirpCb) (s : LibslirpData) :
    (∃ a, ((slirpCbs caller cbs).run s).out = .ret a) ∧
      ∀ e ∈ ((slirpCbs caller cbs).run s).calls, ¬ (Act.cb e).Event := by
  have htriple : Prog.Triple (fun es _ => ∀ e ∈ es, ¬ (Act.cb e).Event) (slirpCbs caller cbs)
      (fun _ es _ => ∀ e ∈ es, ¬ (Act.cb e).Event) fun _ _ _ => False := by
    have hsnoc (es : List CbEvent) (e : CbEvent) (he : ¬ (Act.cb e).Event)
        (h : ∀ f ∈ es, ¬ (Act.cb f).Event) : ∀ f ∈ es ++ [e], ¬ (Act.cb f).Event := by
      simpa [or_imp, forall_and] using ⟨h, he⟩
    induction cbs with
    | nil => exact .pure fun _ _ h => h
    | cons c cbs ih =>
      refine .bind (c.exec_triple ?_ ?_ ?_ ?_) fun _ => ih
      · intro es s e he
        exact hsnoc es e (by cases e <;> first | exact id | exact he.elim)
      · intro _
        exact .state_bind fun _ => .update_bind <| .bind (Q := fun _ es _ => _)
          (.call fun es _ ⟨_, h, _⟩ => hsnoc es _ id h.1) fun _ => .pure fun _ _ h => h
      · intro t _
        exact .update_bind <| .call fun es _ ⟨_, h, _⟩ => hsnoc es _ id h
      · intro t d _
        exact .update_bind <| .call fun es _ ⟨_, h, _⟩ => hsnoc es _ id h
  have h := htriple [] s (by simp)
  split at h
  · next a ha => exact ⟨⟨a, ha⟩, h⟩
  · exact h.elim

section
variable {args : Args} {env : Startup} {done : List Act}
  {E : End → List Act → SlirpState L → Prop}

theorem record_triple {e : Act} (hev : ¬ e.Event) (hcall : e.isCall = false)
    (hload : e ≠ .seccomp (.load 0)) :
    Prog.Triple (fun es _ => Starting args done es) (Prog.call e : SlirpProg L Unit)
      (fun _ es _ => Starting args (done ++ [e]) es) E :=
  .call fun _ _ h => h.record ⟨Act.quiet_of hev hcall, hload⟩

theorem eprintf_triple (text : Bytes) :
    Prog.Triple (fun es _ => Starting args done es) (eprintf text : SlirpProg L Unit)
      (fun _ es _ => Starting args done es) E :=
  .call fun _ _ h => h.snoc ⟨Act.quiet_fprintf text, nofun⟩

theorem update_triple (f : SlirpState L → SlirpState L) :
    Prog.Triple (fun es _ => Starting args done es) (Prog.update f)
      (fun _ es _ => Starting args done es) E :=
  .update fun _ _ h => h

theorem slirpCbs_starting (cbs : List SlirpCb) :
    Prog.Triple (fun es _ => Starting args done es) (onData (slirpCbs none cbs) : SlirpProg L Unit)
      (fun _ es _ => Starting args done es) E := by
  refine .of_returns (.of_allCalls (A := Act.Early) (.lift fun s e he => ?_)
    fun es e he h => h.snoc he) fun s => ?_
  · exact ⟨Act.quiet_of ((slirpCbs_run none cbs s).2 e he) rfl, nofun⟩
  · obtain ⟨a, ha⟩ := (slirpCbs_run none cbs s.data).1
    exact ⟨a, by simp only [Prog.lift, ha]⟩

/-- What a step returns after its calls. -/
theorem Starting.result {es acts : List Act} {ok : Prop} {b : Bool}
    (h : Starting args (done ++ acts) es) (hb : b = true ↔ ok) :
    if b then ok ∧ Starting args (done ++ acts) es else ¬ ok ∧ Starting args done es := by
  cases b with
  | true => exact ⟨hb.1 rfl, h⟩
  | false => exact ⟨fun hok => Bool.false_ne_true (hb.2 hok), h.forget⟩

theorem createSlirp_step :
    Step args (env.slirpNew = true) [.slirpNew env.slirpNew] (createSlirp (L := L) env) := by
  intro done
  refine .bind (slirpCbs_starting _) fun _ => .bind (record_triple id rfl nofun) fun _ => ?_
  refine .bind (.when (eprintf_triple _)) fun _ => .bind (.when (eprintf_triple _)) fun _ => ?_
  exact .pure fun es _ h => h.result Iff.rfl

theorem mallocBuf_step :
    Step args (env.malloc = true) [.malloc env.malloc] (mallocBuf (L := L) env) := by
  intro done
  refine .bind (record_triple id rfl nofun) fun _ => .bind (update_triple _) fun _ => ?_
  exact .pure fun es _ h => h.result Iff.rfl

theorem addFixedFds_step : Step args True [] (addFixedFds (L := L) args) := by
  intro done
  refine .bind (update_triple _) fun _ => .bind (.when (update_triple _)) fun _ => ?_
  exact .pure fun es _ h => by simpa using h

theorem allocApiCtx_step : Step args (env.apiCtxAlloc.isSome = true)
    [.apiCtxAlloc env.apiCtxAlloc.isSome] (allocApiCtx (L := L) args env) := by
  intro done
  unfold allocApiCtx
  split
  · next hctx =>
    rw [hctx]
    exact .bind (record_triple id rfl nofun) fun _ => .bind (eprintf_triple _) fun _ =>
      .pure fun _ _ h => h.result (by simp)
  · next hctx =>
    rw [hctx]
    exact .bind (record_triple id rfl nofun) fun _ => .bind (update_triple _) fun _ =>
      .pure fun _ _ h => h.result (by simp)

/-- A step that is only made if it was asked for. -/
theorem Step.optional {c : Bool} {ok : Prop} {acts : List Act} {p : SlirpProg L Bool}
    (hp : Step args ok acts p) :
    Step args (c = true → ok) (if c then acts else []) (if c then p else return true) := by
  cases c with
  | true => simpa using hp
  | false =>
    intro done
    exact .pure fun es _ h => ⟨nofun, by simpa using h⟩

theorem openApi_step : Step args
    (args.apiSocket.isSome = true → 0 ≤ env.apiBindlisten ∧ env.apiCtxAlloc.isSome = true)
    (if args.apiSocket.isSome then
      [.apiBindlisten env.apiBindlisten, .apiCtxAlloc env.apiCtxAlloc.isSome] else [])
    (openApi (L := L) args env) := by
  refine .optional ?_
  intro done
  refine .bind (record_triple id rfl nofun) fun _ => .ite (fun hrc => ?_) fun hrc => ?_
  · exact .pure fun es _ h => ⟨fun hok => absurd hok.1 (by omega), h.forget⟩
  · refine (allocApiCtx_step _).conseq (fun _ _ h => h) fun b es _ h => ?_
    cases b with
    | true => exact ⟨⟨by omega, h.1⟩, by simpa using h.2⟩
    | false => exact ⟨fun hok => h.1 hok.2, Starting.forget h.2⟩

theorem ignoreSigpipe_step : Step args True [.signal] (ignoreSigpipe (L := L)) := by
  intro done
  exact .bind (record_triple id rfl nofun) fun _ => .pure fun es _ h => h.result (by simp)

theorem sandboxStep_step : Step args (args.cfg.enableSandbox = true → 0 ≤ env.createSandbox)
    (if args.cfg.enableSandbox then [.createSandbox env.createSandbox] else [])
    (sandboxStep (L := L) args env) := by
  refine .optional ?_
  intro done
  refine .bind (record_triple id rfl nofun) fun _ => .bind (.when (eprintf_triple _)) fun _ => ?_
  exact .pure fun es _ h => h.result (by simp)

/-- What holds from the moment at which `enable_seccomp` has loaded the filter, or not. -/
structure Filtered (args : Args) (env : Startup) (done es : List Act) : Prop
    extends Unheard args es where
  loaded : 0 ≤ env.seccomp.rc → Loaded es
  done_mem : ∀ e ∈ done, e ∈ es

theorem Filtered.snoc {es : List Act} {e : Act} (h : Filtered args env done es) (he : e.Bland) :
    Filtered args env done (es ++ [e]) where
  toUnheard := h.toUnheard.snoc he.1 fun _ => he.2
  loaded hrc := List.mem_append_left _ (h.loaded hrc)
  done_mem f hf := List.mem_append_left _ (h.done_mem f hf)

theorem enableSeccomp_filtered : Prog.Triple (fun es _ => Starting args done es)
    (enableSeccomp env.seccomp : SlirpProg L ℤ)
    (fun rc es _ => rc = env.seccomp.rc ∧ Filtered args env done es) E := by
  refine enableSeccomp_triple env.seccomp (fun es e he h => h.snoc he.early)
    (fun es e he h => h.snoc he.bland) (fun hinit es h => ?_) fun hinit es h => ?_
  · -- the call that loads the filter is made while it is not yet loaded
    refine ⟨h.toUnheard.snoc (Act.quiet_of id rfl) fun hl => absurd hl h.unloaded, ?_, ?_⟩
    · intro hrc
      rw [SeccompEnv.rc, if_pos hinit] at hrc
      have hload : env.seccomp.load = 0 := le_antisymm env.seccomp.load_nonpos hrc
      rw [hload]
      exact List.mem_append_right _ (by simp)
    · intro f hf
      exact List.mem_append_left _ (h.done_mem f hf)
  · refine ⟨h.toUnheard, fun hrc => ?_, h.done_mem⟩
    rw [SeccompEnv.rc, if_neg (by simp [hinit])] at hrc
    omega

/-- What holds after the last step, if it succeeds. -/
structure Prepared (args : Args) (env : Startup) (done es : List Act) : Prop
    extends Unheard args es where
  seccomp : args.cfg.enableSeccomp = true →
    0 ≤ env.seccomp.rc ∧ .enableSeccomp env.seccomp.rc ∈ es ∧ Loaded es
  done_mem : ∀ e ∈ done, e ∈ es

theorem seccompStep_triple : Prog.Triple (fun es _ => Starting args done es)
    (seccompStep (L := L) args env)
    (fun b es _ => if b then Prepared args env done es
      else ¬ (args.cfg.enableSeccomp = true → 0 ≤ env.seccomp.rc) ∧ Unheard args es) E := by
  refine .ite (fun hs => .bind enableSeccomp_filtered fun rc => ?_) fun hs => ?_
  · have hcall : Prog.Triple (fun es _ => rc = env.seccomp.rc ∧ Filtered args env done es)
        (Prog.call (.enableSeccomp rc) : SlirpProg L Unit) (fun _ es _ => rc = env.seccomp.rc ∧
          Filtered args env done es ∧ .enableSeccomp env.seccomp.rc ∈ es) E := by
      refine .call ?_
      rintro es _ ⟨rfl, h⟩
      have hbland : (Act.enableSeccomp env.seccomp.rc).Bland :=
        ⟨Act.quiet_of id rfl, Act.harmless_of_own nofun⟩
      exact ⟨rfl, h.snoc hbland, List.mem_append_right _ (by simp)⟩
    refine .bind hcall fun _ => .bind (.when (.call ?_)) fun _ => .pure ?_
    · rintro es _ ⟨hrc, h, hmem⟩
      exact ⟨hrc, h.snoc ⟨Act.quiet_fprintf _, Act.harmless_call _⟩, List.mem_append_left _ hmem⟩
    · rintro es _ ⟨rfl, h, hmem⟩
      by_cases hrc : 0 ≤ env.seccomp.rc
      · simp only [hrc, decide_true, if_true]
        exact ⟨h.toUnheard, fun _ => ⟨hrc, hmem, h.loaded hrc⟩, h.done_mem⟩
      · simp only [hrc, decide_false]
        exact ⟨fun hok => hok hs, h.toUnheard⟩
  · exact .pure fun es _ h => ⟨h.toUnheard, fun hs' => absurd hs' hs, h.done_mem⟩

/-- **The startup** returns, and succeeds exactly if every step does. -/
theorem startup_triple : Prog.Triple (fun es _ => Starting args [] es) (startup (L := L) args env)
    (fun b es _ => if b then env.Succeeds args ∧ Unheard args es ∧ Ready args es
      else ¬ env.Succeeds args ∧ Unheard args es) fun _ _ _ => False := by
  refine createSlirp_step.unlessErr (fun hslirp => ?_)
    fun hno es h => ⟨fun hs => hno hs.slirp, h.toUnheard⟩
  refine mallocBuf_step.unlessErr (fun hmalloc => ?_)
    fun hno es h => ⟨fun hs => hno hs.malloc, h.toUnheard⟩
  refine addFixedFds_step.unlessErr (fun _ => ?_) fun hno => absurd trivial hno
  refine openApi_step.unlessErr (fun hapi => ?_)
    fun hno es h => ⟨fun hs => hno hs.api, h.toUnheard⟩
  refine ignoreSigpipe_step.unlessErr (fun _ => ?_) fun hno => absurd trivial hno
  refine sandboxStep_step.unlessErr (fun hsandbox => ?_)
    fun hno es h => ⟨fun hs => hno hs.sandbox, h.toUnheard⟩
  refine seccompStep_triple.conseq (fun _ _ h => h) fun b es _ h => ?_
  cases b with
  | false => exact ⟨fun hs => h.1 hs.seccomp, h.2⟩
  | true =>
    refine ⟨⟨hslirp, hmalloc, hapi, hsandbox, fun hs => (h.seccomp hs).1⟩, h.toUnheard, ?_⟩
    have hdone := h.done_mem
    refine ⟨⟨fun hs => ?_, fun hs => ?_⟩, ?_, ?_, fun ha => ?_⟩
    · exact ⟨_, hsandbox hs, hdone _ (by simp [hs])⟩
    · obtain ⟨hrc, hmem, hloaded⟩ := h.seccomp hs
      exact ⟨⟨_, hrc, hmem⟩, hloaded⟩
    · exact hdone _ (by simp [hslirp])
    · exact hdone _ (by simp [hmalloc])
    · obtain ⟨hfd, hctx⟩ := hapi ha
      exact ⟨⟨_, hfd, hdone _ (by simp [ha])⟩, hdone _ (by simp [ha, hctx])⟩

/-! ## The report -/

/-- What holds while the byte is not delivered. -/
structure Reporting (args : Args) (es : List Act) : Prop where
  secured : Always (Secured args) es
  ready : Ready args es
  undelivered : ∀ data rc, .call (.write .ready data rc) ∈ es → rc ≤ 0

theorem Reporting.write {es : List Act} (h : Reporting args es) (hfd : 0 ≤ args.readyfd) (rc : ℤ) :
    Always (Secured args) (es ++ [writeReady rc]) ∧ Ready args (es ++ [writeReady rc]) := by
  refine ⟨h.secured.snoc ⟨False.elim, ?_, fun _ => Act.harmless_call _⟩, h.ready.snoc⟩
  rintro data rc' hr
  obtain ⟨rfl, rfl⟩ : bytes "1" = data ∧ rc = rc' := by simpa [writeReady] using hr
  exact ⟨rfl, hfd, h.ready, h.undelivered⟩

theorem signalReady_triple : Prog.Triple (fun es _ => Unheard args es ∧ Ready args es)
    (signalReady (L := L) args env)
    (fun _ es _ => Always (Secured args) es ∧ Ready args es)
    fun _ es _ => Always (Secured args) es := by
  refine .ite (fun hfd => ?_) fun _ => .pure fun es _ h => ⟨h.1.secured, h.2⟩
  have hretry : Prog.Triple (fun es _ => Reporting args es)
      (retry (L := L) (writeReady (-1)) writeReady env.ready)
      (fun _ es _ => Always (Secured args) es ∧ Ready args es)
      fun _ es _ => Always (Secured args) es := by
    refine .bind (repeatCall_triple (fun es _ h => ?_) _) fun _ => ?_
    · obtain ⟨hsecured, hready⟩ := h.write hfd (-1)
      refine ⟨hsecured, hready, fun data rc hmem => ?_⟩
      rcases List.mem_append.1 hmem with hmem | hmem
      · exact h.undelivered data rc hmem
      · obtain ⟨-, rfl⟩ : data = bytes "1" ∧ rc = -1 := by simpa [writeReady] using hmem
        omega
    · split
      · exact .stop fun es _ h => h.secured
      · exact .bind (.call fun es _ h => h.write hfd _) fun _ => .pure fun _ _ h => h
  refine .bind (hretry.conseq (fun es _ h => ?_) fun _ _ _ h => h) fun _ => .call fun es _ h => ?_
  · exact ⟨h.1.secured, h.2, fun data rc hmem => absurd hmem (h.1.silent data rc)⟩
  · have hclose : (Act.call (.close .ready)).Quiet := ⟨id, fun ⟨_, _, hr⟩ => by cases hr⟩
    exact ⟨h.1.snoc (hclose.secured fun _ => Act.harmless_call _), h.2.snoc⟩

end

/-! ## The loop -/

/-- The acts of the loop. -/
def Act.OfLoop : Act → Prop
  | call c => ∀ data rc, c ≠ .write .ready data rc
  | cb _ => True
  | slirpPollfdsFill => True
  | addPoll .. => True
  | gPoll .. => True
  | getRevents .. => True
  | slirpInput _ => True
  | slirpPollfdsPoll _ => True
  | _ => False

theorem Act.OfLoop.tame {e : Act} (h : e.OfLoop) : e.Tame := by
  cases e with
  | call c => exact ⟨fun ⟨data, rc, hc⟩ => h data rc (Act.call.inj hc), Act.harmless_call c⟩
  | cb e => exact ⟨Act.not_toReady rfl, Act.harmless_cb e⟩
  | gPoll fds timeout rc =>
    refine ⟨Act.not_toReady rfl, Act.harmless_of_own ?_⟩
    simp only [Act.ownSyscalls]
    decide
  | slirpPollfdsFill | addPoll | getRevents | slirpInput | slirpPollfdsPoll =>
    exact ⟨Act.not_toReady rfl, Act.harmless_of_own fun _ hmem => absurd hmem List.not_mem_nil⟩
  | _ => exact h.elim

/-- The API handler answers on the connection, not on the ready descriptor. -/
theorem apiHandler_no_ready (C : Libc) (conn : Conn) (s : ApiState L) :
    ∀ c ∈ ((apiHandler C conn).run s).calls, ∀ data rc, c ≠ .write .ready data rc := by
  by_cases hu : conn.acceptRc < 0 ∨ conn.readBytes 4096 = none
  · obtain ⟨calls, hrun, hcalls⟩ := apiHandler_unserved C conn hu (s := s)
    rw [hrun]
    exact fun c hc data rc => hcalls c hc .ready data rc
  · obtain ⟨ha, hd⟩ := not_or.1 hu
    obtain ⟨data, hd⟩ := Option.ne_none_iff_exists'.1 hd
    rw [apiHandler_served C conn (by omega) hd]
    have hslirp := serve_slirpCalls C s.ctx.cfg (requestOf C data) s.registry
    rintro c hc data' rc rfl
    unfold Done.handled at hc
    split at hc <;>
    · simp only [List.mem_append, List.mem_cons, List.not_mem_nil] at hc
      simp only [reduceCtorEq, Call.write.injEq, false_and, false_or, or_false] at hc
      exact hslirp _ hc

/-- Code of the loop, which makes no API context and drops none. -/
abbrev KeepsCtx {α : Type} (p : SlirpProg L α) : Prop :=
  Prog.Keeps (fun s => s.apictx.isSome) Act.OfLoop p

theorem call_keeps {c : Call} (h : ∀ data rc, c ≠ .write .ready data rc) :
    KeepsCtx (Prog.call (Act.call c) : SlirpProg L Unit) :=
  Prog.Keeps.call (show (Act.call c).OfLoop from h)

theorem eprintf_keeps (text : Bytes) : KeepsCtx (eprintf text : SlirpProg L Unit) :=
  call_keeps nofun

theorem apiEvent_ofLoop (C : Libc) (tick : Tick) :
    Prog.AllCalls Act.OfLoop (apiEvent (L := L) C tick) := by
  refine .bind .state fun s => .when (.bind (eprintf_keeps _).calls fun _ => ?_)
  split
  · exact .stop _
  · refine .bind (.lift fun t c hc => ?_) fun _ => .when (eprintf_keeps _).calls
    exact apiHandler_no_ready C tick.conn t c hc

theorem apiEvent_keeps (C : Libc) (tick : Tick) : KeepsCtx (apiEvent (L := L) C tick) := by
  refine ⟨fun s => ?_, apiEvent_ofLoop C tick⟩
  -- the handler runs on the context of the state, so there is one before and after it
  have htriple : Prog.Triple (fun _ s' => s' = s) (apiEvent (L := L) C tick)
      (fun _ _ s' => s'.apictx.isSome = s.apictx.isSome)
      fun _ _ s' => s'.apictx.isSome = s.apictx.isSome := by
    refine .state_bind fun s₀ => .ite (fun _ => ?_) fun _ => .pure fun _ _ h => by rw [h.1]
    refine .bind (Q := fun _ _ s' => s' = s ∧ s' = s₀) (.call fun _ _ h => h) fun _ => ?_
    split
    · exact .stop fun _ _ h => by rw [h.1]
    · next ctx hctx =>
      refine .bind ?_ fun _ => .when (.call fun _ _ h => h)
      rintro es s' ⟨rfl, rfl⟩
      rw [hctx]
      split <;> rfl
  have hrun := htriple [] s rfl
  split at hrun <;> exact hrun

theorem turn_keeps (C : Libc) (tick : Tick) : KeepsCtx (turn (L := L) C tick) := by
  have hread : ∀ rc, (Act.call (.read .tap rc)).OfLoop := fun _ => nofun
  have hperror : ∀ msg, (Act.call (.perror msg)).OfLoop := fun _ => nofun
  refine .bind (pollFds_keeps (fun _ _ => rfl) (fun _ _ => rfl) (fun _ => trivial)
    (fun _ _ _ => trivial) trivial (fun _ _ _ => trivial) tick) fun r => ?_
  obtain ⟨_ | ⟨count, revents⟩, idxs⟩ := r
  · exact .pure _
  refine .bind ?_ fun pollout => ?_
  · refine .bind (.update fun _ => rfl) fun _ => .bind (tapEvent_keeps (fun _ _ => rfl)
      (fun _ _ => rfl) (fun _ => trivial) hread hperror (fun _ => trivial) tick _) fun pollout =>
        .bind .state fun s => .ite ?_ ?_
    · exact .bind (eprintf_keeps _) fun _ => .pure _
    · exact .bind (apiEvent_keeps C tick) fun _ => .pure _
  · cases pollout with
    | none => exact .pure _
    | some pollout =>
      exact .bind (afterEvents_keeps (fun _ _ => rfl) (fun _ => trivial) (fun _ => trivial)
        (fun _ _ => trivial) tick _ _) fun _ => .pure _

theorem loop_keeps (C : Libc) (ticks : List Tick) : KeepsCtx (loop (L := L) C ticks) := by
  induction ticks with
  | nil => exact .stop _
  | cons tick ticks ih =>
    refine .bind (turn_keeps C tick) fun r => ?_
    cases r with
    | some ret => exact .pure _
    | none => exact ih

/-! ## The whole -/

section
variable {args : Args} {env : Startup}

theorem exiting_triple {I : List Act → Prop} {E : End → List Act → SlirpState L → Prop}
    (hI : ∀ es e, Act.Bland e → I es → I (es ++ [e])) (ret : ℤ) :
    Prog.Triple (fun es _ => I es) (exiting (L := L) args ret)
      (fun r es _ => r = ret ∧ I es) E := by
  have hcall {e : Act} (he : e.Bland) : Prog.Triple (fun es _ => I es)
      (Prog.call e : SlirpProg L Unit) (fun _ es _ => I es) E := .call fun es _ h => hI es e he h
  have hbland {e : Act} (hev : ¬ e.Event) (h : e.isCall = false)
      (hown : ∀ c ∈ e.ownSyscalls, ¬ c.Blocked) : e.Bland :=
    ⟨Act.quiet_of hev h, Act.harmless_of_own hown⟩
  have hfree : Act.Bland .free := hbland id rfl nofun
  refine .bind (hcall ⟨Act.quiet_fprintf _, Act.harmless_call _⟩) fun _ => .state_bind fun s =>
    .conseq ?_ (fun _ _ h => h.1) fun _ _ _ h => h
  refine .bind (.when (hcall hfree)) fun _ => .bind (.when ?_) fun _ =>
    .bind (hcall hfree) fun _ => .pure fun _ _ h => ⟨rfl, h⟩
  exact .bind (hcall (hbland id rfl nofun)) fun _ =>
    hcall (hbland id rfl (by simp only [Act.ownSyscalls]; decide))

theorem serveLoop_triple (C : Libc) (ticks : List Tick) :
    Prog.Triple (fun es _ => Unheard args es ∧ Ready args es) (serveLoop (L := L) C args env ticks)
      (fun _ es _ => Always (Secured args) es) fun _ es _ => Always (Secured args) es := by
  have hloop : Prog.Triple (fun es _ => Always (Secured args) es ∧ Locked args es)
      (loop (L := L) C ticks) (fun _ es _ => Always (Secured args) es ∧ Locked args es)
      fun _ es _ => Always (Secured args) es ∧ Locked args es :=
    .of_allCalls ((loop_keeps C ticks).calls.mono fun _ => Act.OfLoop.tame) fun es e he h =>
      ⟨h.1.snoc (he.secured h.2), h.2.snoc⟩
  refine .bind signalReady_triple fun _ => (hloop.conseq ?_ ?_).conseq_stop ?_
  · intro es _ h
    exact ⟨h.1, h.2.toLocked⟩
  · intro _ es _ h
    exact h.1
  · intro _ es _ h
    exact h.1

theorem doSlirp_triple (C : Libc) (args : Args) (env : Startup) (ticks : List Tick) :
    Prog.Triple (fun es _ => es = []) (doSlirp (L := L) C args env ticks)
      (fun ret es _ => Always (Secured args) es ∧ (¬ env.Succeeds args → ret = -1 ∧ Silent es))
      fun _ es _ => Always (Secured args) es ∧ env.Succeeds args := by
  have hstart : Starting args [] [] :=
    ⟨⟨.nil, fun _ _ => List.not_mem_nil⟩, List.not_mem_nil, fun _ h => h⟩
  refine .bind ((startup_triple.conseq (fun es _ hes => hes ▸ hstart) fun _ _ _ h => h).conseq_stop
    fun _ _ _ h => h.elim) fun ok => ?_
  cases ok with
  | true =>
    refine .fact fun hok => .bind ((serveLoop_triple C ticks).conseq_stop ?_) fun ret =>
      (exiting_triple (I := Always (Secured args)) (fun es e he h => ?_) ret).conseq ?_ ?_
    · intro _ es _ h
      exact ⟨h, hok⟩
    · exact h.snoc (he.1.secured fun _ => he.2)
    · intro es _ h
      exact h
    · intro _ es _ h
      exact ⟨h.2, fun hno => absurd hok hno⟩
  | false =>
    refine .fact fun hno =>
      (exiting_triple (I := Unheard args) (fun es e he h => ?_) (-1)).conseq ?_ ?_
    · exact h.snoc he.1 fun _ => he.2
    · intro es _ h
      exact h
    · intro _ es _ h
      exact ⟨h.2.secured, fun _ => ⟨h.1, h.2.silent⟩⟩

/-- **Nothing is served before the lockdown, nothing blocked is called after it.**  On every
    run, whatever the steps of the startup give and whatever happens in the loop: no event is
    handled before the sandbox and the filter that were asked for are in place, the byte is
    delivered to the ready descriptor at most once and only after all steps have succeeded, and
    no act after the filter is loaded makes a system call of its rules.  If a step fails, the
    result is -1 and nothing is written to the ready descriptor. -/
theorem doSlirp_secured (C : Libc) (args : Args) (env : Startup) (ticks : List Tick)
    (slirp : L.State) :
    let ran := (doSlirp C args env ticks).run (SlirpState.init slirp)
    Always (Secured args) ran.calls ∧
      (¬ env.Succeeds args → ran.out = .ret (-1) ∧ Silent ran.calls) := by
  intro ran
  have h := doSlirp_triple C args env ticks [] (SlirpState.init slirp) rfl
  split at h
  · next ret hret => exact ⟨h.1, fun hno => ⟨(h.2 hno).1 ▸ hret, (h.2 hno).2⟩⟩
  · exact ⟨h.1, fun hno => absurd h.2 hno⟩

end

/-! ## A sample run -/

example :
    let ran := (doSlirp .exact sampleArgs sampleStartup [sampleTick]).run
      (SlirpState.init sampleStart.slirp)
    ran.out = .ret 0 ∧ ran.calls.dropWhile (· ≠ .enableSeccomp 0) =
      [.enableSeccomp 0, writeReady (-1), writeReady 1, .call (.close .ready), .slirpPollfdsFill,
        .cb .clockGettime, .gPoll [(3, 17), (5, 16)] 1000 2, .call (.read .tap 6),
        .slirpInput [2, 0, 0, 0, 0, 1], .call (.fprintf (bytes "exitfd event\n")),
        .call (.fprintf (bytes "do_slirp is exiting\n")), .free, .free] := by
  decide +kernel

end Slirp4netns
