/-
  slirp4netns formalization — the kinds of target and what is done for them.

  An accepted command line selects exactly one kind of target, and the fields of
  `struct options` are then as `main`, `child`, `child_bess` and `nsenter` need
  them (`parseArgs_target`).

  Two more results say when the options of the command line have their effect:

  * `-c`, `--macaddress` and `--userns-path` are heeded, unless the target is a
    descriptor, and any `--netns-type` but `pid` and `tapfd` stands for `path`
    (`options_heeded`);
  * the user namespace that the parent enters for the sandbox is the one of the
    target pid, whatever `--userns-path` says (`userns_agree`).
-/
import Slirp4netns.Handover

namespace Slirp4netns

variable {L : Libslirp}

/-! ## The calls of the child -/

/-- The texts of two branches that are never taken. -/
def nullTexts : List Bytes :=
  [bytes "tapname is NULL\n", bytes "the specified BESS socket path is NULL\n"]

/-- The calls that the child may make. -/
def ChildCall (o : Options) : Sys → Prop
  | .eprintf text => text ∉ nullTexts
  | .openNs type path fd => o.targetType ≠ some (bytes "bess") ∧
      NsCall (netnsAsked o.targetPid o.netnsPath false) (usernsAsked o.targetPid o.usernsPath)
        (.openNs type path fd)
  | .setns type path rc => o.targetType ≠ some (bytes "bess") ∧
      NsCall (netnsAsked o.targetPid o.netnsPath false) (usernsAsked o.targetPid o.usernsPath)
        (.setns type path rc)
  | _ => True

section
variable {o : Options} {cfg : Config} {env : ChildEnv} {sock : ℤ}

/-- A text that starts with another letter. -/
theorem not_nullText {c : UInt8} {text : Bytes} (h : c ≠ 116) : c :: text ∉ nullTexts := by
  intro hmem
  rcases List.mem_cons.1 hmem with heq | hmem
  · exact h (List.cons.inj heq).1
  · exact h (List.cons.inj (List.mem_singleton.1 hmem)).1

theorem NsCall.childCall {c : Sys} (hbess : o.targetType ≠ some (bytes "bess"))
    (h : NsCall (netnsAsked o.targetPid o.netnsPath false)
      (usernsAsked o.targetPid o.usernsPath) c) : ChildCall o c := by
  cases c <;> first
    | exact trivial
    | exact ⟨hbess, h⟩
    | exact h.elim

theorem openTap_calls (htap : o.tapname.isSome) :
    (openTap env o.tapname).AllCalls (ChildCall o) := by
  obtain ⟨tapname, htapname⟩ := Option.isSome_iff_exists.1 htap
  rw [htapname]
  refine .bind (.call trivial) fun _ => .ite (.bind (.call trivial) fun _ => .pure _) ?_
  refine .bind (.call trivial) fun _ => .ite ?_ (.pure _)
  exact .bind (.call trivial) fun _ => .bind (.call trivial) fun _ => .pure _

theorem ioctls_calls (i : ℕ) (asked : List Ioctl) :
    (ioctls env i asked).AllCalls (ChildCall o) := by
  induction asked generalizing i with
  | nil => exact .pure _
  | cons request asked ih =>
    exact .bind (.call trivial) fun _ => .ite (.bind (.call trivial) fun _ => .pure _) (ih (i + 1))

theorem configureStep_calls : (configureStep env o cfg).AllCalls (ChildCall o) := by
  refine .ite (.bind (.call trivial) fun _ => .ite ?_ ?_) (.pure _)
  · exact .bind (.call trivial) fun _ => .pure _
  · exact .bind (ioctls_calls 0 _) fun _ => .bind (.call trivial) fun _ => .pure _

theorem sendfd_calls (fd : ℤ) : (sendfd env fd).AllCalls (ChildCall o) :=
  .bind (.call trivial) fun _ => .ite (.pure _) (.bind (.call trivial) fun _ => .pure _)

theorem child_calls (hbess : o.targetType ≠ some (bytes "bess")) (htap : o.tapname.isSome) :
    (child env sock o cfg).AllCalls (ChildCall o) := by
  refine .bind (fun s c hc => (nsenter_calls s c hc).childCall hbess) fun _ => .ite (.pure _) ?_
  refine .bind (openTap_calls htap) fun _ => .ite (.pure _) ?_
  refine .bind configureStep_calls fun _ => .ite (.bind (.call trivial) fun _ => .pure _) ?_
  refine .bind (sendfd_calls _) fun _ => .ite ?_ ?_
  · exact .bind (.call trivial) fun _ => .bind (.call trivial) fun _ => .pure _
  · refine .bind (.call (not_nullText (by decide))) fun _ => ?_
    exact .bind (.call trivial) fun _ => .bind (.call trivial) fun _ => .pure _

theorem bessError_calls {acceptfd listenfd : ℤ} :
    (bessError sock acceptfd listenfd).AllCalls (ChildCall o) :=
  .bind (.call trivial) fun _ => .bind (.call trivial) fun _ => .bind (.call trivial) fun _ =>
    .pure _

theorem bessAccept_calls (path : Bytes) : (bessAccept env sock path).AllCalls (ChildCall o) := by
  refine .bind (.call (not_nullText (by decide))) fun _ => .bind (.call trivial) fun _ =>
    .ite (.bind (.call trivial) fun _ => bessError_calls) ?_
  refine .bind (sendfd_calls _) fun _ => .ite bessError_calls ?_
  refine .bind (.call (not_nullText (by decide))) fun _ => ?_
  exact .bind (.call trivial) fun _ => .bind (.call trivial) fun _ => .pure _

theorem childBess_calls (hsocket : o.bessSocket.isSome) :
    (childBess env sock o.bessSocket).AllCalls (ChildCall o) := by
  obtain ⟨path, hpath⟩ := Option.isSome_iff_exists.1 hsocket
  rw [hpath]
  refine .bind (.call trivial) fun _ => .ite (.bind (.call trivial) fun _ => bessError_calls) ?_
  refine .ite (.bind (.call ?_) fun _ => bessError_calls) ?_
  · show _ ∉ nullTexts
    decide +kernel
  · refine .bind (.call trivial) fun _ => .bind (.call trivial) fun _ =>
      .ite (.bind (.call trivial) fun _ => bessError_calls) ?_
    exact .bind (.call trivial) fun _ =>
      .ite (.bind (.call trivial) fun _ => bessError_calls) (bessAccept_calls path)

end

/-! ## The target -/

section
variable {access : Bytes → Bool} {line : CommandLine} {o : Options} {C : Libc} {env : MainEnv L}

theorem Parses.target_bess (h : Parses access line o) :
    line.target = .bess ↔ o.targetType = some (bytes "bess") := by
  rw [CommandLine.target, h.targetType]
  split
  · next hbess => exact ⟨fun _ => hbess, fun _ => rfl⟩
  · next hbess =>
    refine ⟨fun h => ?_, fun h => absurd h hbess⟩
    split at h
    · cases h
    · split at h <;> cases h

theorem Parses.bessSocket (h : Parses access line o)
    (hbess : o.targetType = some (bytes "bess")) : o.bessSocket.isSome := by
  have htarget := h.target
  rw [h.target_bess.2 hbess] at htarget
  exact htarget.1

/-- A child for a network namespace has the name of a tap device. -/
theorem Parses.tapname (h : Parses access line o) (htapfd : o.tapfd < 0)
    (hbess : o.targetType ≠ some (bytes "bess")) : o.tapname.isSome := by
  have htarget := h.target
  cases hk : line.target with
  | bess => exact absurd (h.target_bess.1 hk) hbess
  | pid => rw [hk] at htarget; exact htarget.2.1
  | path => rw [hk] at htarget; exact htarget.2.1
  | tapfd => rw [hk] at htarget; exact absurd htarget.1 (Int.not_le.2 htapfd)

theorem childProcess_calls (h : Parses access line o) (htapfd : o.tapfd < 0) (env : ChildEnv)
    (sock : ℤ) (cfg : Config) : (childProcess env sock o cfg).AllCalls (ChildCall o) := by
  by_cases hbess : o.targetType = some (bytes "bess")
  · rw [childProcess, if_pos hbess]
    exact childBess_calls (h.bessSocket hbess)
  · rw [childProcess, if_neg hbess]
    exact child_calls hbess (h.tapname htapfd hbess)

/-- Every call of the child in a run of `main`. -/
theorem main_child (h : parseArgs env.access line = .ok o) {c : Sys}
    (hc : .child c ∈ ((main C env line).run ()).calls) : o.tapfd < 0 ∧ ChildCall o c := by
  rcases @main_cases _ C _ _ _ h with ⟨printed, -, hrun⟩ | ⟨cfg, why, hcfg, hout, hends⟩
  · rw [hrun] at hc
    simp at hc
  · obtain ⟨before, after, hsplit⟩ := List.append_of_mem hc
    obtain ⟨htapfd, hmem⟩ := hends.law before _ after hsplit
    exact ⟨htapfd, childProcess_calls (parseArgs_parses h) htapfd _ _ _ () c hmem⟩

/-- Every user namespace that the parent enters. -/
theorem main_sys_setns (h : parseArgs env.access line = .ok o) {path : Bytes} {rc : ℤ}
    (hc : .sys (.setns .user path rc) ∈ ((main C env line).run ()).calls) :
    usernsAsked o.targetPid none = some path := by
  rcases @main_cases _ C _ _ _ h with ⟨printed, -, hrun⟩ | ⟨cfg, why, hcfg, hout, hends⟩
  · rw [hrun] at hc
    simp at hc
  · obtain ⟨before, after, hsplit⟩ := List.append_of_mem hc
    exact hends.law before _ after hsplit

/-- The network namespace that is asked for is the path given or that of a positive pid. -/
theorem Parses.netnsAsked (h : Parses access line o) (htapfd : o.tapfd < 0)
    (hbess : o.targetType ≠ some (bytes "bess")) {path : Bytes}
    (hasked : netnsAsked o.targetPid o.netnsPath false = some path) :
    o.netnsPath = some path ∨ (0 < o.targetPid ∧ path = nsPath o.targetPid "net") := by
  have htarget := h.target
  obtain rfl : o.netnsPath.getD (nsPath o.targetPid "net") = path := Option.some.inj hasked
  cases hk : line.target with
  | bess => exact absurd (h.target_bess.1 hk) hbess
  | pid =>
    rw [hk] at htarget
    obtain ⟨hpid, -, -, hpath, -⟩ := htarget
    exact .inr ⟨hpid, by rw [hpath]; rfl⟩
  | path =>
    rw [hk] at htarget
    obtain ⟨⟨path, hpath, -⟩, -⟩ := htarget
    exact .inl (by rw [hpath]; rfl)
  | tapfd => rw [hk] at htarget; exact absurd htarget.1 (Int.not_le.2 htapfd)

/-- What the selected kind of target means for a run. -/
structure Consumed (access : Bytes → Bool) (o : Options) (calls : List MainAct) : Prop where
  /-- unless a descriptor is given, the parent forks -/
  fork : .socketpair true ∈ calls →
    ((∃ ok, .fork ok ∈ calls) ↔ ¬ Target.tapfd.Selected access o)
  child : ∀ c, .child c ∈ calls → ¬ Target.tapfd.Selected access o
  /-- the branches for `NULL` are not taken -/
  nullTexts : ∀ text ∈ nullTexts, .child (.eprintf text) ∉ calls
  netns : ∀ path fd, .child (.openNs .net path fd) ∈ calls →
    o.netnsPath = some path ∨ (0 < o.targetPid ∧ path = nsPath o.targetPid "net")
  /-- the parent enters no network namespace -/
  parent_netns : ∀ path fd, .sys (.openNs .net path fd) ∉ calls

theorem not_selected_tapfd (h : o.tapfd < 0) : ¬ Target.tapfd.Selected access o :=
  fun hselected => absurd hselected.1 (Int.not_le.2 h)

theorem Parses.tapfd_neg (h : Parses access line o) (hne : ¬ Target.tapfd.Selected access o) :
    o.tapfd < 0 := by
  have htarget := h.target
  cases hk : line.target with
  | bess => rw [hk] at htarget; rw [htarget.2.2.1]; decide
  | pid => rw [hk] at htarget; rw [htarget.2.2.1]; decide
  | path => rw [hk] at htarget; rw [htarget.2.2.2.1]; decide
  | tapfd => rw [hk] at htarget; exact absurd htarget hne

theorem main_consumed (h : parseArgs env.access line = .ok o) :
    Consumed env.access o ((main C env line).run ()).calls := by
  have hparses := parseArgs_parses h
  rcases @main_cases _ C _ _ _ h with ⟨printed, -, hrun⟩ | ⟨cfg, why, hcfg, -, hends⟩
  · rw [hrun]
    constructor <;> simp
  · have hlaw {e : MainAct} (he : e ∈ ((main C env line).run ()).calls) :
        ∃ before, MainLaw env o cfg before e := by
      obtain ⟨before, after, hsplit⟩ := List.append_of_mem he
      exact ⟨before, hends.law before e after hsplit⟩
    constructor
    case fork =>
      intro hpair
      obtain ⟨_, hok⟩ := hlaw hpair
      constructor
      · rintro ⟨ok, hfork⟩
        obtain ⟨_, htapfd⟩ := hlaw hfork
        exact not_selected_tapfd htapfd
      · intro hne
        refine ⟨env.fork, ?_⟩
        rw [main_eq_launch h hcfg]
        refine Prog.mem_bind_right rfl ?_
        rw [if_pos hok.symm, if_pos (hparses.tapfd_neg hne)]
        exact Prog.mem_bind_left (by exact List.mem_singleton_self _) _
    case child =>
      intro c hc
      exact not_selected_tapfd (main_child h hc).1
    case nullTexts =>
      intro text htext hc
      exact (main_child h hc).2 htext
    case netns =>
      intro path fd hc
      obtain ⟨htapfd, hbess, hasked⟩ := main_child h hc
      exact hparses.netnsAsked htapfd hbess hasked
    case parent_netns =>
      intro path fd hc
      obtain ⟨_, hasked⟩ := hlaw hc
      cases hasked

/-- **An accepted command line selects exactly one kind of target, in which every consumer finds
    what it needs.** -/
theorem parseArgs_target (access : Bytes → Bool) (line : CommandLine) (o : Options)
    (h : parseArgs access line = .ok o) :
    (∃! k : Target, k.Selected access o) ∧
    (o.macaddress.isSome → o.doConfigNetwork = true) ∧
    ∀ (L : Libslirp) (C : Libc) (env : MainEnv L), env.access = access →
      Consumed access o ((main C env line).run ()).calls := by
  have hparses := parseArgs_parses h
  refine ⟨⟨line.target, hparses.target, fun k hk => hk.unique hparses.target⟩,
    hparses.macaddress_configure, ?_⟩
  rintro L C env rfl
  exact main_consumed h

end

/-- `--netns-type=path /run/netns/a tap0` -/
theorem parseArgs_target_path :
    let line : CommandLine := ⟨[.netnsType (bytes "path")], [bytes "/run/netns/a", bytes "tap0"]⟩
    let env := MainEnv.smooth (fun _ => true) ⟨6, fun _ => none, fun _ => none, some []⟩ 0 []
    ∃ o, parseArgs env.access line = .ok o ∧ Target.path.Selected env.access o ∧
      .child (.openNs .net (bytes "/run/netns/a") 5) ∈ ((main .exact env line).run ()).calls ∧
      Consumed env.access o ((main .exact env line).run ()).calls := by
  intro line env
  obtain ⟨o, ho, hpath⟩ : ∃ o, parseArgs env.access line = .ok o ∧
    Target.path.Selected env.access o := ⟨_, rfl, ⟨_, rfl, rfl⟩, rfl, rfl, rfl, rfl⟩
  refine ⟨o, ho, hpath, ?_, (parseArgs_target env.access line o ho).2.2 _ .exact env rfl⟩
  decide +kernel

/-! ## Runs without failures -/

section
variable {access : Bytes → Bool} {config : ConfigEnv} {euid : ℕ} {ticks : List Tick}
  {line : CommandLine} {o : Options} {cfg : Config} {C : Libc}

theorem nsenter_smooth (targetPid : ℤ) (netns userns : Option Bytes) (onlyUserns : Bool) :
    ((nsenter .smooth targetPid netns userns onlyUserns).run ()).out = .ret 0 := by
  unfold nsenter usernsPathOf
  by_cases hpid : targetPid = 0 <;> cases netns <;> cases userns <;> cases onlyUserns <;>
    simp only [hpid, ne_eq, not_true_eq_false, not_false_eq_true, and_true, and_false, if_true,
      if_false, reduceCtorEq, Bool.false_eq_true] <;> rfl

theorem ioctls_smooth (i : ℕ) (asked : List Ioctl) :
    ((ioctls .smooth i asked).run ()).out = .ret 0 := by
  induction asked generalizing i with
  | nil => rfl
  | cons request asked ih => exact ih (i + 1)

theorem configureStep_smooth : ((configureStep .smooth o cfg).run ()).out = .ret 0 := by
  unfold configureStep
  split
  · rw [configureNetwork, Prog.bind_out rfl]
    exact (Prog.bind_out (ioctls_smooth 0 _)).trans rfl
  · rfl

theorem child_smooth (htap : o.tapname.isSome) (sock : ℤ) :
    ((child .smooth sock o cfg).run ()).out = .ret 0 := by
  obtain ⟨tapname, htapname⟩ := Option.isSome_iff_exists.1 htap
  refine (Prog.bind_out (nsenter_smooth ..)).trans ?_
  show ((tapChild .smooth sock o cfg).run ()).out = _
  have htap : ((openTap .smooth o.tapname).run ()).out = .ret 7 := by rw [htapname]; rfl
  rw [tapChild, Prog.bind_out htap]
  exact (Prog.bind_out configureStep_smooth).trans rfl

/-- The parent gets to `setegid(0)`. -/
theorem parent_setegid (hsandbox : cfg.enableSandbox = true) (heuid : euid ≠ 0) (fd : ℤ) :
    .sys (.setegid 0) ∈
      ((parent C (.smooth access config euid ticks) o cfg fd).run ()).calls := by
  refine Prog.mem_bind_right rfl (Prog.mem_bind_right rfl (Prog.mem_bind_left ?_ _))
  rw [prepareSandbox, if_pos hsandbox]
  refine Prog.mem_bind_right rfl ?_
  rw [if_pos (show (MainEnv.smooth access config euid ticks).euid ≠ 0 from heuid)]
  have hns : ((onSys (nsenter .smooth o.targetPid none none true)).run ()).out = .ret 0 := by
    have hvalue := Ran.out_eq_value ((nsenter .smooth o.targetPid none none true).run ())
    rw [nsenter_smooth] at hvalue
    rw [onSys_run, ← Outcome.ret.inj hvalue]
  refine Prog.mem_bind_right hns (Prog.mem_bind_left ?_ _)
  exact List.mem_singleton_self _

/-- The parent gets to `do_slirp`, if it is root. -/
theorem parent_doSlirp (fd : ℤ) :
    .doSlirp fd ∈ ((parent C (.smooth access config 0 ticks) o cfg fd).run ()).calls := by
  have hsandbox : ((prepareSandbox (.smooth access config 0 ticks) cfg o.targetPid fd).run ()).out =
      .ret 0 := by
    unfold prepareSandbox
    split <;> rfl
  refine Prog.mem_bind_right rfl (Prog.mem_bind_right rfl (Prog.mem_bind_right hsandbox ?_))
  exact Prog.mem_bind_left (List.mem_singleton_self _) _

theorem childRun_smooth (h : Parses access line o) (htapfd : o.tapfd < 0)
    (hbess : o.targetType ≠ some (bytes "bess")) :
    (childRun (.smooth access config euid ticks) o cfg).value = 0 := by
  have hrun : childRun (.smooth access config euid ticks) o cfg =
      (child .smooth 4 o cfg).run () := by
    rw [childRun, childProcess, if_neg hbess]
    rfl
  have hout := @child_smooth o cfg (h.tapname htapfd hbess) 4
  rw [Ran.out_eq_value] at hout
  rw [hrun, Outcome.ret.inj hout]

/-- What is done by the parent is done by `main`. -/
theorem main_smooth (h : parseArgs access line = .ok o)
    (hbess : o.targetType ≠ some (bytes "bess"))
    (hcfg : configFromOptions config o (.stack 0) = .ok cfg) {e : MainAct}
    (he : ∀ fd, o.tapfd < 0 ∨ fd = o.tapfd →
      e ∈ ((parent C (.smooth access config euid ticks) o cfg fd).run ()).calls) :
    e ∈ ((main C (.smooth access config euid ticks) line).run ()).calls := by
  have hparses := parseArgs_parses h
  have hfinish (fd : ℤ) (hfd : o.tapfd < 0 ∨ fd = o.tapfd) :
      e ∈ ((finish C (.smooth access config euid ticks) o cfg fd).run ()).calls :=
    Prog.mem_bind_left (he fd hfd) _
  rw [main_eq_launch h hcfg]
  refine Prog.mem_bind_right rfl ?_
  show e ∈ ((if o.tapfd < 0 then forkChild C (.smooth access config euid ticks) o cfg
    else finish C (.smooth access config euid ticks) o cfg o.tapfd).run ()).calls
  split
  · next htapfd =>
    have hvalue := @childRun_smooth _ config euid ticks _ _ cfg hparses htapfd hbess
    obtain ⟨fd, made, -, hsent, -⟩ := childProcess_delivers .smooth 4 cfg
      (fun h => absurd h hbess) (le_of_eq hvalue.symm)
    have hqueue : (childRun (.smooth access config euid ticks) o cfg).calls.filterMap Sys.sent? =
        [fd] := hsent
    refine Prog.mem_bind_right rfl ?_
    rw [if_pos (show (MainEnv.smooth access config euid ticks).fork = true from rfl)]
    simp only [hvalue, hqueue]
    refine Prog.mem_bind_right (a := .exited 0) rfl ?_
    refine Prog.mem_bind_right (a := 5) rfl ?_
    exact Prog.mem_bind_right rfl (Prog.mem_bind_right rfl (hfinish 5 (.inl htapfd)))
  · exact hfinish _ (.inr rfl)

end

/-! ## Options that are heeded -/

theorem mem_childCalls {c : Sys} {es : List MainAct} : c ∈ childCalls es ↔ .child c ∈ es := by
  rw [childCalls, List.mem_filterMap]
  constructor
  · rintro ⟨e, he, hc⟩
    cases e <;> cases hc
    exact he
  · exact fun h => ⟨_, h, rfl⟩

/-- A child that returns nonnegative has asked for the user namespace. -/
theorem child_enters {env : ChildEnv} {sock : ℤ} {o : Options} {cfg : Config} {path : Bytes}
    (hpath : usernsAsked o.targetPid o.usernsPath = some path)
    (hge : 0 ≤ ((child env sock o cfg).run ()).value) :
    ∃ rc, .setns .user path rc ∈ ((child env sock o cfg).run ()).calls := by
  have htriple : Prog.Triple (fun _ _ => True) (child env sock o cfg)
      (fun rc es _ => 0 ≤ rc → ∃ r, .setns .user path r ∈ es) fun _ _ _ => True := by
    refine .bind nsenter_enters fun rc => .ite (fun hneg => (Fails.error hneg).triple) fun hge => ?_
    refine .conseq (P := fun es _ => ∃ r, Sys.setns .user path r ∈ es) (.of_exists fun r => ?_) ?_
      fun _ _ _ h _ => h
    · exact (Prog.Triple.mem.conseq_stop fun _ _ _ _ => trivial).conseq (fun _ _ h => h)
        fun _ _ _ h => ⟨r, h⟩
    · intro es _ h
      obtain ⟨r, hmem, -⟩ := h (Int.not_lt.1 hge) path hpath
      exact ⟨r, hmem⟩
  exact @Prog.Triple.value _ _ _ _ _ _ _ htriple [] () trivial hge

/-- The types of `--netns-type` in the manual. -/
def documentedTypes : List Bytes := [bytes "path", bytes "pid", bytes "tapfd"]

/-- What was done of the options when `do_slirp` is called. -/
structure Heeded (env : MainEnv L) (line : CommandLine) (o : Options) (before : List MainAct) :
    Prop where
  configure : .configure ∈ line.opts → ∃ tapname cfg, o.tapname = some tapname ∧
    configFromOptions env.config o env.stack = .ok cfg ∧
    Succeeded (networkRequests tapname cfg) ((childCalls before).filterMap Sys.ioctl?)
  macaddress : ∀ macaddr, line.macaddress = some macaddr → ∃ tapname data rc,
    o.tapname = some tapname ∧ macaddrHexstringToData macaddr = .ok data ∧ 0 ≤ rc ∧
    .child (.ioctl (.setHwaddr (tapname.take 15) ⟨afLocal, saData data⟩) rc) ∈ before
  /-- of the child; the parent may enter a user namespace as well -/
  usernsPath : ∀ path, line.usernsPath = some path → ∃ rc, .child (.setns .user path rc) ∈ before

/-- No option is ignored: the type is one of the manual, and the others are heeded whenever
    `do_slirp` is called. -/
def OptionsHeeded (access : Bytes → Bool) (config : ConfigEnv) (line : CommandLine) (o : Options) :
    Prop :=
  (∀ type, line.netnsType = some type → type ∈ documentedTypes) ∧
  ∀ (L : Libslirp) (C : Libc) (env : MainEnv L), env.access = access → env.config = config →
    ∀ before fd after, ((main C env line).run ()).calls = before ++ .doSlirp fd :: after →
      Heeded env line o before

section
variable {access : Bytes → Bool} {config : ConfigEnv} {line : CommandLine} {o : Options}
  {cfg : Config} {env : MainEnv L} {before : List MainAct}

theorem Given.macaddress_opts (h : Given line o) {macaddr : Bytes}
    (hmac : line.macaddress = some macaddr) : .configure ∈ line.opts := by
  have hconf := h.macaddress_configure (by rw [h.macaddress, hmac]; rfl)
  rwa [h.configure, decide_eq_true_eq] at hconf

/-- Options that are not given are heeded. -/
theorem Heeded.of_not_given (h : Given line o) (hconf : .configure ∉ line.opts)
    (huserns : line.usernsPath = none) : Heeded env line o before where
  configure hc := absurd hc hconf
  macaddress _ hmac := absurd (h.macaddress_opts hmac) hconf
  usernsPath path hpath := by
    rw [huserns] at hpath
    cases hpath

/-- A child of a network namespace heeds the options. -/
theorem Heeded.of_child (h : Parses env.access line o)
    (hcfg : configFromOptions env.config o env.stack = .ok cfg)
    (htapfd : o.tapfd < 0) (hbess : o.targetType ≠ some (bytes "bess"))
    (hdone : ChildDone env o cfg before) : Heeded env line o before := by
  obtain ⟨tapname, htapname⟩ := Option.isSome_iff_exists.1 (h.tapname htapfd hbess)
  have hcalls : childCalls before = ((child env.child env.sv.2 o cfg).run ()).calls := by
    rw [hdone.calls, childRun, childProcess, if_neg hbess]
  have hconfigure : .configure ∈ line.opts → Succeeded (networkRequests tapname cfg)
      ((childCalls before).filterMap Sys.ioctl?) := by
    intro hc
    obtain ⟨fd, made, hmade, -, hlog⟩ := childProcess_delivers env.child env.sv.2 cfg
      (fun h => absurd h hbess) hdone.value
    have hasked : askedRequests o cfg = networkRequests tapname cfg := by
      rw [askedRequests, h.configure, decide_eq_true hc, if_pos rfl, htapname]
      rfl
    rw [hasked] at hmade
    rw [hdone.calls]
    exact hlog ▸ hmade
  constructor
  case configure => exact fun hc => ⟨tapname, cfg, htapname, hcfg, hconfigure hc⟩
  case macaddress =>
    intro macaddr hmac
    obtain ⟨data, hdata, hmem⟩ := @mem_networkRequests _ _ _ _ _ tapname hcfg
      (h.macaddress.trans hmac)
    obtain ⟨hfst, hall⟩ := hconfigure (h.macaddress_opts hmac)
    rw [← hfst] at hmem
    obtain ⟨⟨request, rc⟩, hr, rfl⟩ := List.mem_map.1 hmem
    obtain ⟨c, hc, hioctl⟩ := List.mem_filterMap.1 hr
    refine ⟨tapname, data, rc, htapname, hdata, hall _ hr, mem_childCalls.1 ?_⟩
    cases c <;> cases hioctl
    exact hc
  case usernsPath =>
    intro path hpath
    have hasked : usernsAsked o.targetPid o.usernsPath = some path := by
      rw [h.usernsPath, hpath]
      rfl
    have hge : 0 ≤ ((child env.child env.sv.2 o cfg).run ()).value := by
      have := hdone.value
      rwa [childRun, childProcess, if_neg hbess] at this
    obtain ⟨rc, hrc⟩ := child_enters hasked hge
    rw [← hcalls] at hrc
    exact ⟨rc, mem_childCalls.1 hrc⟩

theorem Parses.bess_not_given (h : Parses access line o)
    (hbess : o.targetType = some (bytes "bess")) :
    .configure ∉ line.opts ∧ line.usernsPath = none := by
  have htarget := h.target
  rw [h.target_bess.2 hbess] at htarget
  obtain ⟨-, -, -, -, -, huserns, hconf⟩ := htarget
  rw [h.configure, decide_eq_false_iff_not] at hconf
  exact ⟨hconf, h.usernsPath ▸ huserns⟩

theorem Parses.tapfd_iff (h : Parses access line o) : line.target = .tapfd ↔ 0 ≤ o.tapfd := by
  constructor
  · intro hk
    have htarget := h.target
    rw [hk] at htarget
    exact htarget.1
  · intro hge
    by_contra hne
    refine absurd (h.tapfd_neg fun hselected => ?_) (Int.not_lt.2 hge)
    exact hne (h.target.unique hselected)

/-- **Options are ignored exactly for an undocumented type, and for a target that is a descriptor
    with `-c` or `--userns-path`** (`--macaddress` needs `-c`). -/
theorem options_heeded (access : Bytes → Bool) (config : ConfigEnv) (line : CommandLine)
    (o : Options) (h : parseArgs access line = .ok o) :
    OptionsHeeded access config line o ↔
      (∀ type, line.netnsType = some type → type ∈ documentedTypes) ∧
      (line.target = .tapfd →
        (.configure ∉ line.opts ∧ line.usernsPath = none) ∨ ¬ Accepted config o) := by
  have hparses := parseArgs_parses h
  refine and_congr_right fun _ => ?_
  constructor
  · -- as root, without failures, `do_slirp` is called on the descriptor, and there is no child
    intro hruns htarget
    by_contra hcon
    obtain ⟨hgiven, haccepted⟩ := not_or.1 hcon
    have htapfd := hparses.tapfd_iff.1 htarget
    obtain ⟨cfg, hcfg⟩ := (not_not.1 haccepted).exists_config (.stack 0)
    have hbess : o.targetType ≠ some (bytes "bess") := by
      intro hbess
      rw [hparses.target_bess.2 hbess] at htarget
      cases htarget
    have hmem : .doSlirp o.tapfd ∈
        ((main .exact (.smooth access config 0 []) line).run ()).calls := by
      refine main_smooth h hbess hcfg fun fd hfd => ?_
      rcases hfd with hneg | rfl
      · exact absurd hneg (Int.not_lt.2 htapfd)
      · exact parent_doSlirp _
    obtain ⟨before, after, hsplit⟩ := List.append_of_mem hmem
    have hheeded := hruns _ .exact (.smooth access config 0 []) rfl rfl before _ after hsplit
    have hnochild (c : Sys) : .child c ∉ before := by
      intro hc
      have hc : .child c ∈ ((main .exact (.smooth access config 0 []) line).run ()).calls := by
        rw [hsplit]
        exact List.mem_append_left _ hc
      exact absurd (main_child h hc).1 (Int.not_lt.2 htapfd)
    refine hgiven ⟨fun hconf => ?_, ?_⟩
    · obtain ⟨tapname, cfg, -, -, hfst, -⟩ := hheeded.configure hconf
      have hnil : childCalls before = [] :=
        List.eq_nil_iff_forall_not_mem.2 fun c hc => hnochild c (mem_childCalls.1 hc)
      rw [hnil] at hfst
      cases hfst
    · rw [Option.eq_none_iff_forall_ne_some]
      intro path hpath
      obtain ⟨rc, hc⟩ := hheeded.usernsPath path hpath
      exact hnochild _ hc
  · rintro hcond L C env rfl rfl before fd after hsplit
    rcases @main_cases _ C _ _ _ h with ⟨printed, -, hrun⟩ | ⟨cfg, why, hcfg, -, hends⟩
    · rw [hrun] at hsplit
      rcases before with _ | ⟨_, _⟩ <;> simp at hsplit
    · cases hends.law _ _ _ hsplit with
      | given htapfd _ =>
        rcases hcond (hparses.tapfd_iff.2 htapfd) with ⟨hconf, huserns⟩ | hrefused
        · exact .of_not_given hparses.toGiven hconf huserns
        · exact absurd (configFromOptions_ok.1 hcfg).1 hrefused
      | received htapfd hdone _ _ =>
        by_cases hbess : o.targetType = some (bytes "bess")
        · obtain ⟨hconf, huserns⟩ := hparses.bess_not_given hbess
          exact .of_not_given hparses.toGiven hconf huserns
        · exact .of_child hparses hcfg htapfd hbess hdone

end

/-- `--netns-type=path -c --macaddress=02:00:00:00:00:01 /run/netns/a tap0` -/
theorem options_heeded_path :
    let line : CommandLine := ⟨[.netnsType (bytes "path"), .configure,
      .macaddress (bytes "02:00:00:00:00:01")], [bytes "/run/netns/a", bytes "tap0"]⟩
    ∃ o, parseArgs (fun _ => true) line = .ok o ∧
      OptionsHeeded (fun _ => true) ⟨6, fun _ => none, fun _ => none, some []⟩ line o := by
  intro line
  obtain ⟨o, ho⟩ : ∃ o, parseArgs (fun _ => true) line = .ok o := ⟨_, rfl⟩
  refine ⟨o, ho, (options_heeded _ _ line o ho).2 ⟨?_, fun h => ?_⟩⟩
  · rintro type ⟨⟩
    decide
  · exact absurd h (by decide)

/-- `--netns-type=tapfd -c --macaddress=02:00:00:00:00:01 --userns-path=/proc/42/ns/user 7` is
    accepted and goes to `do_slirp` without a child; and so is `--netns-type=docker`. -/
theorem tapfd_options_ignored :
    let line : CommandLine := ⟨[.netnsType (bytes "tapfd"), .configure,
      .macaddress (bytes "02:00:00:00:00:01"), .usernsPath (bytes "/proc/42/ns/user")],
      [bytes "7"]⟩
    let env := MainEnv.smooth (fun _ => true) ⟨6, fun _ => none, fun _ => none, some []⟩ 0 []
    (parseArgs env.access line).isOk = true ∧
      .doSlirp 7 ∈ ((main .exact env line).run ()).calls ∧
      (∀ e ∈ ((main .exact env line).run ()).calls, e.child? = none) ∧
      (parseArgs env.access ⟨[.netnsType (bytes "docker")],
        [bytes "/run/netns/a", bytes "tap0"]⟩).isOk = true ∧
      bytes "docker" ∉ documentedTypes := by
  decide +kernel

/-! ## The user namespace of the sandbox -/

/-- The user namespace that the command line designates. -/
def designated (o : Options) : Option Bytes :=
  match o.usernsPath with
  | some path => some path
  | none => if 0 < o.targetPid then some (nsPath o.targetPid "user") else none

/-- What a child and a parent with a sandbox may do, where `ns` is the namespace of a path: enter
    the designated user namespace and no other; and the parent goes on to `setegid` only after
    it has entered it. -/
def UsernsLaw {ι : Type} (ns : Bytes → ι) (o : Options) (before : List MainAct) : MainAct → Prop
  | .child (.setns .user path _) => designated o = some path
  | .sys (.setns .user path _) => ∃ d, designated o = some d ∧ ns path = ns d
  | .sys (.setegid _) => ∀ d, designated o = some d →
      ∃ path rc, 0 ≤ rc ∧ ns path = ns d ∧ .sys (.setns .user path rc) ∈ before
  | _ => True

section
variable {access : Bytes → Bool} {config : ConfigEnv} {line : CommandLine} {o : Options}
  {ι : Type} {ns : Bytes → ι}

theorem Parses.targetPid_nonneg (h : Parses access line o) : 0 ≤ o.targetPid := by
  have htarget := h.target
  cases hk : line.target with
  | bess => rw [hk] at htarget; exact le_of_eq htarget.2.1.symm
  | pid => rw [hk] at htarget; exact le_of_lt htarget.1
  | path => rw [hk] at htarget; exact le_of_eq htarget.2.2.1.symm
  | tapfd => rw [hk] at htarget; exact le_of_eq htarget.2.1.symm

/-- The child asks for the designated namespace. -/
theorem Parses.designated (h : Parses access line o) :
    designated o = usernsAsked o.targetPid o.usernsPath := by
  have hpid := h.targetPid_nonneg
  unfold Slirp4netns.designated usernsAsked
  cases o.usernsPath with
  | some path => rfl
  | none =>
    by_cases hzero : o.targetPid = 0
    · simp [hzero]
    · have hpos : 0 < o.targetPid := by omega
      simp [hpos, hzero]

/-- The parent asks for the namespace of the pid. -/
theorem Parses.parent_userns (h : Parses access line o) {path : Bytes}
    (hasked : usernsAsked o.targetPid none = some path) :
    0 < o.targetPid ∧ path = nsPath o.targetPid "user" := by
  have hpid := h.targetPid_nonneg
  by_cases hzero : o.targetPid = 0
  · rw [hzero] at hasked
    cases hasked
  · rw [usernsAsked_none hzero] at hasked
    cases hasked
    exact ⟨by omega, rfl⟩

theorem Parses.pid_iff (h : Parses access line o) : line.target = .pid ↔ 0 < o.targetPid := by
  have htarget := h.target
  cases hk : line.target <;> rw [hk] at htarget <;> simp only [Target.Selected] at htarget <;>
    simp [htarget]

/-- The designated user namespace is the one that the parent asks for. -/
def SameUserns (ns : Bytes → ι) (line : CommandLine) (o : Options) : Prop :=
  ∀ path, line.usernsPath = some path →
    line.target = .pid ∧ ns path = ns (nsPath o.targetPid "user")

theorem SameUserns.designated_iff (h : Parses access line o) (hsame : SameUserns ns line o) :
    (0 < o.targetPid → ∃ d, designated o = some d ∧ ns (nsPath o.targetPid "user") = ns d) ∧
    ∀ d, designated o = some d → 0 < o.targetPid ∧ ns (nsPath o.targetPid "user") = ns d := by
  unfold designated
  cases huserns : o.usernsPath with
  | some path =>
    obtain ⟨htarget, hns⟩ := hsame path (h.usernsPath ▸ huserns)
    refine ⟨fun _ => ⟨path, rfl, hns.symm⟩, ?_⟩
    rintro d ⟨⟩
    exact ⟨h.pid_iff.1 htarget, hns.symm⟩
  | none =>
    refine ⟨fun hpid => ⟨_, if_pos hpid, rfl⟩, fun d hd => ?_⟩
    obtain ⟨hpid, hd⟩ := Option.ite_none_right_eq_some.1 hd
    cases hd
    exact ⟨hpid, rfl⟩

/-- A run of both processes keeps to the law, if the namespaces are the same. -/
theorem SameUserns.law {env : MainEnv L} {C : Libc} (h : parseArgs env.access line = .ok o)
    (hsame : SameUserns ns line o) : Always (UsernsLaw ns o) ((main C env line).run ()).calls := by
  have hparses := parseArgs_parses h
  obtain ⟨hpid, hdesignated⟩ := hsame.designated_iff hparses
  rcases @main_cases _ C _ _ _ h with ⟨printed, -, hrun⟩ | ⟨cfg, why, -, -, hends⟩
  · rw [hrun]
    exact Always.nil.snoc trivial
  · intro before e after hsplit
    have hlaw := hends.law before e after hsplit
    cases e with
    | child c =>
      cases c with
      | setns type path rc =>
        cases type with
        | user =>
          have hc := @main_child _ _ _ C _ h (.setns .user path rc) (by rw [hsplit]; simp)
          exact hparses.designated.trans hc.2.2
        | net => trivial
      | _ => trivial
    | sys c =>
      cases c with
      | setns type path rc =>
        cases type with
        | user =>
          obtain ⟨hpos, rfl⟩ := hparses.parent_userns hlaw
          exact hpid hpos
        | net => trivial
      | setegid rc =>
        intro d hd
        obtain ⟨hpos, hns⟩ := hdesignated d hd
        obtain ⟨rc, hrc, hmem⟩ := hlaw.2 _ (usernsAsked_none (ne_of_gt hpos))
        exact ⟨_, rc, hrc, hns, hmem⟩
      | _ => trivial
    | _ => trivial

/-- **The parent enters the designated user namespace exactly if there is no `--userns-path`, or
    if it names the user namespace of the target pid.** -/
theorem userns_agree (access : Bytes → Bool) (config : ConfigEnv) (line : CommandLine)
    (o : Options) (h : parseArgs access line = .ok o)
    (hsandbox : .enableSandbox ∈ line.opts ∨ .createSandbox ∈ line.opts)
    (hnetns : line.targetType ≠ some (bytes "bess")) (ns : Bytes → ι) :
    (∀ (L : Libslirp) (C : Libc) (env : MainEnv L), env.access = access → env.config = config →
      env.euid ≠ 0 → Always (UsernsLaw ns o) ((main C env line).run ()).calls) ↔
    SameUserns ns line o ∨ ¬ Accepted config o := by
  have hparses := parseArgs_parses h
  constructor
  · -- without failures the parent gets to `setegid`
    intro hruns
    rw [or_iff_not_imp_right, not_not]
    intro haccepted path hpath
    obtain ⟨cfg, hcfg⟩ := haccepted.exists_config (.stack 0)
    have hcfg_sandbox : cfg.enableSandbox = true := by
      rw [configFromOptions_sandbox hcfg, hparses.sandbox, decide_eq_true_eq]
      exact hsandbox
    have hmem : .sys (.setegid 0) ∈
        ((main .exact (.smooth access config 1000 []) line).run ()).calls :=
      main_smooth h (hparses.targetType ▸ hnetns) hcfg fun fd _ =>
        parent_setegid hcfg_sandbox (by decide) fd
    obtain ⟨before, after, hsplit⟩ := List.append_of_mem hmem
    have heuid : (MainEnv.smooth access config 1000 []).euid ≠ 0 := Nat.succ_ne_zero _
    have hlaw := hruns _ .exact (.smooth access config 1000 []) rfl rfl heuid
    have hdesignated : designated o = some path := by
      unfold designated
      rw [hparses.usernsPath, hpath]
    -- what it has entered before is the namespace of the pid
    obtain ⟨entered, rc, -, hns, hentered⟩ := hlaw before _ after hsplit path hdesignated
    have hcalls : .sys (.setns .user entered rc) ∈
        ((main .exact (.smooth access config 1000 []) line).run ()).calls := by
      rw [hsplit]
      exact List.mem_append_left _ hentered
    have hasked : usernsAsked o.targetPid none = some entered := main_sys_setns h hcalls
    obtain ⟨hpos, rfl⟩ := hparses.parent_userns hasked
    exact ⟨hparses.pid_iff.2 hpos, hns.symm⟩
  · rintro (hsame | hrefused) L C env rfl rfl -
    · exact hsame.law h
    · obtain ⟨printed, hprinted⟩ := configFromOptions_error hrefused env.stack
      rcases @main_cases _ C _ _ _ h with ⟨printed, -, hrun⟩ | ⟨cfg, why, hcfg, -, -⟩
      · rw [hrun]
        exact Always.nil.snoc trivial
      · rw [hprinted] at hcfg
        cases hcfg

end

/-- `--enable-sandbox 42 tap0` -/
theorem userns_agree_pid :
    let line : CommandLine := ⟨[.enableSandbox], [bytes "42", bytes "tap0"]⟩
    let config : ConfigEnv := ⟨6, fun _ => none, fun _ => none, some []⟩
    let env := MainEnv.smooth (fun _ => true) config 1000 []
    ∃ o, parseArgs (fun _ => true) line = .ok o ∧
      .sys (.setegid 0) ∈ ((main .exact env line).run ()).calls ∧
      Always (UsernsLaw id o) ((main .exact env line).run ()).calls := by
  intro line config env
  obtain ⟨o, ho⟩ : ∃ o, parseArgs (fun _ => true) line = .ok o := ⟨_, rfl⟩
  refine ⟨o, ho, by decide +kernel, ?_⟩
  refine (userns_agree _ config line o ho (by decide) (by decide) id).2 (.inl ?_) _ _ env rfl rfl
    (by decide)
  rintro path ⟨⟩

/-- The user namespaces that the parent asks for. -/
def MainAct.parentUserns? : MainAct → Option Bytes
  | sys (.setns .user path _) => some path
  | _ => none

/-- `--enable-sandbox --netns-type=path --userns-path=/proc/42/ns/user /proc/42/ns/net tap0`: the
    child asks for the user namespace, and the parent goes on to `setegid` without any; with
    `--enable-sandbox --userns-path=/proc/42/ns/user 43 tap0` it enters another one. -/
theorem parent_userns_differs :
    let user := bytes "/proc/42/ns/user"
    let config : ConfigEnv := ⟨6, fun _ => none, fun _ => none, some []⟩
    let env := MainEnv.smooth (fun _ => true) config 1000 []
    let path : CommandLine := ⟨[.enableSandbox, .netnsType (bytes "path"), .usernsPath user],
      [bytes "/proc/42/ns/net", bytes "tap0"]⟩
    let pid : CommandLine := ⟨[.enableSandbox, .usernsPath user], [bytes "43", bytes "tap0"]⟩
    (.child (.setns .user user 0) ∈ ((main .exact env path).run ()).calls ∧
      .sys (.setegid 0) ∈ ((main .exact env path).run ()).calls ∧
      ((main .exact env path).run ()).calls.filterMap MainAct.parentUserns? = []) ∧
    (.child (.setns .user user 0) ∈ ((main .exact env pid).run ()).calls ∧
      .sys (.setegid 0) ∈ ((main .exact env pid).run ()).calls ∧
      ((main .exact env pid).run ()).calls.filterMap MainAct.parentUserns? =
        [bytes "/proc/43/ns/user"]) := by
  decide +kernel

end Slirp4netns
