/-
  slirp4netns formalization — the system calls of the program and the seccomp
  filter (`seccompfilter.c`, `seccompfilter_rules.h`).

  `Act` is what `do_slirp` and the code that it calls do, as seen from outside:
  calls of the C library, of libslirp and of libseccomp, and the callbacks.
  `Act.syscalls` says which system calls the C library makes for each of them.
  What libslirp does inside its own functions is not part of it.

  `enable_seccomp` builds a filter out of the rules that libseccomp knows and
  accepts, and loads it.  `enableSeccomp_triple`: it returns 0 or more only if the
  filter is loaded, and from then on it makes no system call of the rules.
-/
import Slirp4netns.Timers

namespace Slirp4netns

/-- System calls: those of the filter, then the others that the program makes. -/
inductive Syscall where
  | execve | lookupDcookie | pidfdGetfd | ptrace | processVmReadv | processVmWritev
  | deleteModule | finitModule | initModule | chroot | fsconfig | fsmount | fsopen | fspick | mount
  | moveMount | openTree | pivotRoot | umount | umount2 | openByHandleAt | execveat | pidfdOpen
  | pidfdSendSignal | prctl | setns | unshare | kexecFileLoad | kexecLoad | reboot | nameToHandleAt
  | accept | bind | brk | capset | chdir | clockGettime | close | dup | fcntl | fstat | listen
  | mkdir | mmap | munmap | openat | poll | read | readlink | rmdir | rtSigaction | seccomp
  | shutdown | socket | unlink | write
  deriving DecidableEq

/-- The rules of `seccompfilter_rules.h`, with the names that `BLOCK` makes of them. -/
def seccompfilterRules : List (Syscall × String) :=
  [(.execve, "execve"),
    (.lookupDcookie, "lookup_dcookie"), (.pidfdGetfd, "pidfd_getfd"), (.ptrace, "ptrace"),
    (.processVmReadv, "process_vm_readv"), (.processVmWritev, "process_vm_writev"),
    (.deleteModule, "delete_module"), (.finitModule, "finit_module"), (.initModule, "init_module"),
    (.chroot, "chroot"), (.fsconfig, "fsconfig"), (.fsmount, "fsmount"), (.fsopen, "fsopen"),
    (.fspick, "fspick"), (.mount, "mount"), (.moveMount, "move_mount"), (.openTree, "open_tree"),
    (.pivotRoot, "pivot_root"), (.umount, "umount"), (.umount2, "umount2"),
    (.openByHandleAt, "open_by_handle_at"),
    (.execveat, "execveat"), (.pidfdOpen, "pidfd_open"), (.pidfdSendSignal, "pidfd_send_signal"),
    (.prctl, "prctl"), (.setns, "setns"), (.unshare, "unshare"),
    (.kexecFileLoad, "kexec_file_load"), (.kexecLoad, "kexec_load"), (.reboot, "reboot"),
    (.nameToHandleAt, "name_to_handle_at")]

/-- The system calls that the filter is to block. -/
def Syscall.Blocked (c : Syscall) : Prop := c ∈ seccompfilterRules.map Prod.fst

instance (c : Syscall) : Decidable c.Blocked := inferInstanceAs (Decidable (_ ∈ _))

/-- `SCMP_ACT_KILL_PROCESS` or `SCMP_ACT_KILL`. -/
inductive BlockAction where
  | killProcess
  | kill
  deriving DecidableEq

/-- Calls of `enable_seccomp`, with their results. -/
inductive SeccompCall where
  /-- `syscall(__NR_seccomp, SECCOMP_GET_ACTION_AVAIL, 0, &action)` -/
  | getActionAvail (rc : ℤ)
  | init (ok : Bool)
  | archAdd (rc : ℤ)
  | ruleAdd (action : BlockAction) (num : ℤ) (rc : ℤ)
  | load (rc : ℤ)
  | release
  | printf (text : Bytes)
  deriving DecidableEq

/-- What `do_slirp` does, as far as it is seen from outside. -/
inductive Act where
  | call (c : Call)
  | cb (e : CbEvent)
  | seccomp (c : SeccompCall)
  | slirpNew (ok : Bool)
  | malloc (ok : Bool)
  | free
  | apiBindlisten (rc : ℤ)
  | apiCtxAlloc (ok : Bool)
  | apiCtxFree
  /-- `signal(SIGPIPE, SIG_IGN)` -/
  | signal
  | createSandbox (rc : ℤ)
  /-- `enable_seccomp` returns -/
  | enableSeccomp (rc : ℤ)
  | slirpPollfdsFill
  /-- `libslirp_add_poll`, and the index that it returns -/
  | addPoll (fd : ℤ) (events : BitVec 32) (idx : ℕ)
  /-- `g_poll` on these descriptors and events -/
  | gPoll (fds : List (ℤ × BitVec 16)) (timeout : UInt32) (rc : ℤ)
  /-- `libslirp_get_revents`, and the events that it returns -/
  | getRevents (idx : ℕ) (revents : BitVec 32)
  /-- `slirp_input` of a packet -/
  | slirpInput (pkt : Bytes)
  | slirpPollfdsPoll (selectError : Bool)
  | unlink (path : Bytes)
  deriving DecidableEq

/-! ## System calls -/

/-- The system calls of a call. -/
def Call.syscalls : Call → List Syscall
  | accept .. => [.accept]
  | read .. => [.read]
  | write .. => [.write]
  | shutdown _ => [.shutdown]
  | close _ => [.close]
  | fprintf _ => [.fstat, .write]
  | perror _ => [.fcntl, .dup, .fstat, .write, .close]
  | slirpAddHostfwd .. => []
  | slirpRemoveHostfwd .. => []

/-- The system calls of a callback. -/
def CbEvent.syscalls : CbEvent → List Syscall
  | write .. => [.write]
  | fprintf _ => [.fstat, .write]
  | clockGettime => [.clockGettime]
  | _ => []

/-- The system calls of libseccomp. -/
def SeccompCall.syscalls : SeccompCall → List Syscall
  | getActionAvail _ => [.seccomp]
  | load _ => [.prctl, .seccomp]
  | printf _ => [.fstat, .write]
  | _ => []

/-- The system calls that the C library makes for an act. -/
def Act.ownSyscalls : Act → List Syscall
  | call c => c.syscalls
  | cb e => e.syscalls
  | seccomp c => c.syscalls
  | apiBindlisten _ => [.unlink, .socket, .bind, .listen, .fstat, .write, .close]
  | signal => [.rtSigaction]
  | createSandbox _ => [.unshare, .mount, .mkdir, .readlink, .openat, .close, .chdir, .pivotRoot,
      .umount2, .rmdir, .prctl, .capset, .fstat, .write]
  | gPoll .. => [.poll]
  | unlink _ => [.unlink]
  | _ => []

/-- Any of them may get memory or give it back. -/
def Act.syscalls (e : Act) : List Syscall := [.brk, .mmap, .munmap] ++ e.ownSyscalls

/-- An act without a system call of the filter. -/
def Act.Harmless (e : Act) : Prop := ∀ c ∈ e.syscalls, ¬ c.Blocked

theorem Act.harmless_of_own {e : Act} (h : ∀ c ∈ e.ownSyscalls, ¬ c.Blocked) : e.Harmless := by
  intro c hc
  rcases List.mem_append.1 hc with hc | hc
  · simp only [List.mem_cons, List.not_mem_nil, or_false] at hc
    rcases hc with rfl | rfl | rfl <;> decide
  · exact h c hc

theorem Act.harmless_call (c : Call) : (Act.call c).Harmless := by
  refine Act.harmless_of_own ?_
  cases c <;> simp only [Act.ownSyscalls, Call.syscalls] <;> decide

theorem Act.harmless_cb (e : CbEvent) : (Act.cb e).Harmless := by
  refine Act.harmless_of_own ?_
  cases e <;> simp only [Act.ownSyscalls, CbEvent.syscalls] <;> decide

/-! ## The filter -/

/-- What libseccomp and the kernel answer. -/
structure SeccompEnv where
  actionAvail : ℤ
  /-- `seccomp_init` does not return `NULL` -/
  init : Bool
  /-- for each of `seccomp_extra_archs` -/
  archAdd : List ℤ
  /-- `none` for `__NR_SCMP_ERROR` -/
  resolveName : Syscall → Option ℤ
  ruleAdd : Syscall → ℤ
  load : ℤ
  strerror : ℤ → Bytes
  /-- `seccomp_load` returns 0 or a negative error number -/
  load_nonpos : load ≤ 0

section
variable {σ φ : Type}

/-- `fprintf(stderr, ...)` -/
def eprintf (text : Bytes) : Prog σ Act φ Unit := Prog.call (.call (.fprintf text))

/-- `get_block_action` -/
def getBlockAction (env : SeccompEnv) : Prog σ Act φ BlockAction := do
  Prog.call (.seccomp (.getActionAvail env.actionAvail))
  return if env.actionAvail = 0 then .killProcess else .kill

/-- The three strings of `enable_seccomp`. -/
structure SeccompReport where
  blocked : Bytes
  skippedUndefined : Bytes
  skippedFailed : Bytes

/-- `add_block_rule` -/
def addBlockRule (env : SeccompEnv) (blockAction : BlockAction) (report : SeccompReport)
    (rule : Syscall × String) : Prog σ Act φ SeccompReport :=
  match env.resolveName rule.1 with
  | none =>
    return { report with skippedUndefined := report.skippedUndefined ++ 32 :: bytes rule.2 }
  | some num => do
    let rc := env.ruleAdd rule.1
    Prog.call (.seccomp (.ruleAdd blockAction num rc))
    return if rc ≠ 0 then
      let failed := 32 :: bytes rule.2 ++ 40 :: env.strerror (-rc) ++ [41]
      { report with skippedFailed := report.skippedFailed ++ failed }
    else { report with blocked := report.blocked ++ 32 :: bytes rule.2 }

/-- The calls of `add_block_rule` in `enable_seccomp`. -/
def addBlockRules (env : SeccompEnv) (blockAction : BlockAction) (report : SeccompReport) :
    List (Syscall × String) → Prog σ Act φ SeccompReport
  | [] => return report
  | rule :: rules => do
    let report ← addBlockRule env blockAction report rule
    addBlockRules env blockAction report rules

/-- `EEXIST` -/
def eexist : ℤ := 17

/-- `EDOM` -/
def edom : ℤ := 33

/-- The loop over `seccomp_extra_archs`, from index `i` on. -/
def addExtraArchs (env : SeccompEnv) (i : ℕ) : List ℤ → Prog σ Act φ Unit
  | [] => return ()
  | rc :: rcs => do
    Prog.call (.seccomp (.archAdd rc))
    Prog.when (rc < 0 ∧ rc ≠ -eexist ∧ rc ≠ -edom)
      (eprintf (bytes "seccomp: WARNING: can't add extra arch (i=" ++ decimal i ++ bytes "): " ++
        env.strerror (-rc) ++ [10]))
    addExtraArchs env (i + 1) rcs

/-- What `enable_seccomp` prints before it loads the filter. -/
def printReport (report : SeccompReport) : Prog σ Act φ Unit := do
  Prog.call (.seccomp (.printf
    (bytes "seccomp: The following syscalls are blocked:" ++ report.blocked ++ [10])))
  Prog.when (report.skippedUndefined.length > 0)
    (eprintf (bytes "seccomp: WARNING: the following syscalls are not defined in libseccomp and " ++
      bytes "cannot be blocked:" ++ report.skippedUndefined ++ [10]))
  Prog.when (report.skippedFailed.length > 0)
    (eprintf (bytes "seccomp: WARNING: the following syscalls cannot be blocked due to " ++
      bytes "unexpected errors:" ++ report.skippedFailed ++ [10]))

/-- The filter is loaded. -/
def seccompLoad (env : SeccompEnv) (report : SeccompReport) : Prog σ Act φ ℤ := do
  Prog.call (.seccomp (.load env.load))
  if env.load ≠ 0 then
    eprintf (bytes "seccomp: seccomp_load(): " ++ env.strerror (-env.load) ++ [10])
    return env.load
  else
    printReport report
    return env.load

/-- The part of `enable_seccomp` that `goto ret` skips if `seccomp_init` fails. -/
def buildFilter (env : SeccompEnv) (blockAction : BlockAction) : Prog σ Act φ ℤ :=
  if env.init then do
    addExtraArchs env 0 env.archAdd
    let report ← addBlockRules env blockAction ⟨[], [], []⟩ seccompfilterRules
    seccompLoad env report
  else return -1

/-- `enable_seccomp` -/
def enableSeccomp (env : SeccompEnv) : Prog σ Act φ ℤ := do
  let blockAction ← getBlockAction env
  Prog.call (.seccomp (.init env.init))
  let rc ← buildFilter env blockAction
  Prog.call (.seccomp .release)
  return rc

/-- What `enable_seccomp` returns. -/
def SeccompEnv.rc (env : SeccompEnv) : ℤ := if env.init then env.load else -1

/-- The calls of `enable_seccomp` other than the one that loads the filter. -/
def Act.OfSeccomp : Act → Prop
  | seccomp (.load _) => False
  | seccomp _ => True
  | call (.fprintf _) => True
  | _ => False

theorem Act.OfSeccomp.harmless {e : Act} (h : e.OfSeccomp) : e.Harmless := by
  cases e with
  | call c => exact Act.harmless_call c
  | seccomp c =>
    refine Act.harmless_of_own ?_
    cases c with
    | load rc => exact h.elim
    | _ => simp only [Act.ownSyscalls, SeccompCall.syscalls]; decide
  | _ => exact h.elim

/-! ## What is left alone -/

section
variable {γ : Type} {g : σ → γ} {A : Act → Prop}

theorem addExtraArchs_keeps (hcall : ∀ c, A (.seccomp c))
    (hprint : ∀ text, A (.call (.fprintf text))) (env : SeccompEnv) (i : ℕ) (rcs : List ℤ) :
    Prog.Keeps g A (addExtraArchs env i rcs : Prog σ Act φ Unit) := by
  induction rcs generalizing i with
  | nil => exact .pure ()
  | cons rc rcs ih =>
    exact .bind (.call (hcall _)) fun _ => .bind (.when (.call (hprint _))) fun _ => ih (i + 1)

theorem addBlockRules_keeps (hcall : ∀ c, A (.seccomp c)) (env : SeccompEnv)
    (blockAction : BlockAction) (report : SeccompReport) (rules : List (Syscall × String)) :
    Prog.Keeps g A (addBlockRules env blockAction report rules : Prog σ Act φ SeccompReport) := by
  induction rules generalizing report with
  | nil => exact .pure _
  | cons rule rules ih =>
    refine .bind ?_ fun report => ih report
    unfold addBlockRule
    split
    · exact .pure _
    · exact .bind (.call (hcall _)) fun _ => .pure _

theorem enableSeccomp_keeps (hcall : ∀ c, A (.seccomp c))
    (hprint : ∀ text, A (.call (.fprintf text))) (env : SeccompEnv) :
    Prog.Keeps g A (enableSeccomp env : Prog σ Act φ ℤ) := by
  refine .bind (.bind (.call (hcall _)) fun _ => .pure _) fun blockAction =>
    .bind (.call (hcall _)) fun _ => .bind (.ite ?_ (.pure _)) fun rc =>
      .bind (.call (hcall _)) fun _ => .pure _
  refine .bind (addExtraArchs_keeps hcall hprint env 0 _) fun _ =>
    .bind (addBlockRules_keeps hcall env blockAction _ _) fun report =>
      .bind (.call (hcall _)) fun _ => ?_
  refine .ite (.bind (.call (hprint _)) fun _ => .pure _) (.bind ?_ fun _ => .pure _)
  exact .bind (.call (hcall _)) fun _ => .bind (.when (.call (hprint _))) fun _ =>
    .when (.call (hprint _))

end

/-! ## What is done before and after the filter is loaded -/

variable {I : List Act → Prop} {E : φ → List Act → σ → Prop}

theorem addBlockRules_triple (env : SeccompEnv)
    (hI : ∀ es e, Act.OfSeccomp e → I es → I (es ++ [e])) (blockAction : BlockAction)
    (report : SeccompReport) (rules : List (Syscall × String)) :
    Prog.Triple (fun es _ => I es) (addBlockRules env blockAction report rules : Prog σ Act φ _)
      (fun _ es _ => I es) E := by
  induction rules generalizing report with
  | nil => exact .pure fun _ _ h => h
  | cons rule rules ih =>
    refine .bind (Q := fun _ es _ => I es) ?_ fun report => ih report
    unfold addBlockRule
    split
    · exact .pure fun _ _ h => h
    · exact .bind (Q := fun _ es _ => I es) (.call fun es _ h => hI es _ trivial h) fun _ =>
        .pure fun _ _ h => h

theorem addExtraArchs_triple (env : SeccompEnv)
    (hI : ∀ es e, Act.OfSeccomp e → I es → I (es ++ [e])) (i : ℕ) (rcs : List ℤ) :
    Prog.Triple (fun es _ => I es) (addExtraArchs env i rcs : Prog σ Act φ _)
      (fun _ es _ => I es) E := by
  induction rcs generalizing i with
  | nil => exact .pure fun _ _ h => h
  | cons rc rcs ih =>
    exact .bind (Q := fun _ es _ => I es) (.call fun es _ h => hI es _ trivial h) fun _ =>
      .bind (.when (.call fun es _ h => hI es _ trivial h)) fun _ => ih (i + 1)

theorem printReport_triple (hI : ∀ es e, Act.OfSeccomp e → I es → I (es ++ [e]))
    (report : SeccompReport) :
    Prog.Triple (fun es _ => I es) (printReport report : Prog σ Act φ _) (fun _ es _ => I es) E :=
  .bind (Q := fun _ es _ => I es) (.call fun es _ h => hI es _ trivial h) fun _ =>
    .bind (.when (.call fun es _ h => hI es _ trivial h)) fun _ =>
      .when (.call fun es _ h => hI es _ trivial h)

/-- **`enable_seccomp`**: `I` holds until the filter is loaded, or not, and `J` from then on. -/
theorem enableSeccomp_triple (env : SeccompEnv) {J : List Act → Prop}
    (hI : ∀ es e, Act.OfSeccomp e → I es → I (es ++ [e]))
    (hJ : ∀ es e, Act.OfSeccomp e → J es → J (es ++ [e]))
    (hload : env.init = true → ∀ es, I es → J (es ++ [.seccomp (.load env.load)]))
    (hfail : env.init = false → ∀ es, I es → J es) :
    Prog.Triple (fun es _ => I es) (enableSeccomp env : Prog σ Act φ _)
      (fun rc es _ => rc = env.rc ∧ J es) E := by
  have hseccompLoad (hinit : env.init = true) (report : SeccompReport) :
      Prog.Triple (fun es _ => I es) (seccompLoad env report : Prog σ Act φ ℤ)
        (fun rc es _ => rc = env.rc ∧ J es) E := by
    have hrc : env.load = env.rc := by rw [SeccompEnv.rc, if_pos hinit]
    refine .bind (Q := fun _ es _ => J es) (.call fun es _ h => hload hinit es h) fun _ =>
      .ite (fun _ => ?_) fun _ => ?_
    · exact .bind (Q := fun _ es _ => J es) (.call fun es _ h => hJ es _ trivial h) fun _ =>
        .pure fun _ _ h => ⟨hrc, h⟩
    · exact .bind (printReport_triple hJ report) fun _ => .pure fun _ _ h => ⟨hrc, h⟩
  have hbuild (blockAction : BlockAction) : Prog.Triple (fun es _ => I es)
      (buildFilter env blockAction : Prog σ Act φ ℤ) (fun rc es _ => rc = env.rc ∧ J es) E := by
    refine .ite (fun hinit => ?_) fun hinit => ?_
    · exact .bind (addExtraArchs_triple env hI 0 _) fun _ =>
        .bind (addBlockRules_triple env hI blockAction _ _) fun report => hseccompLoad hinit report
    · have hinit' : env.init = false := by simpa using hinit
      exact .pure fun es _ h => ⟨by rw [SeccompEnv.rc, if_neg hinit], hfail hinit' es h⟩
  refine .bind (Q := fun _ es _ => I es) (.bind (Q := fun _ es _ => I es)
    (.call fun es _ h => hI es _ trivial h) fun _ => .pure fun _ _ h => h) fun blockAction => ?_
  refine .bind (Q := fun _ es _ => I es) (.call fun es _ h => hI es _ trivial h) fun _ =>
    .bind (hbuild blockAction) fun rc => ?_
  exact .bind (Q := fun _ es _ => rc = env.rc ∧ J es)
    (.call fun es _ h => ⟨h.1, hJ es _ trivial h.2⟩) fun _ => .pure fun _ _ h => h

end

end Slirp4netns
