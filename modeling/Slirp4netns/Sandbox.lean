/-
  slirp4netns formalization — `create_sandbox` (`sandbox.c`).

  The code makes its system calls on a `Kernel`, the mounts of all namespaces with
  the root and the working directory of the process; a call that succeeds changes
  it as `Kernel.apply` says, and which calls fail is given by a `SandboxEnv`.
  Paths are resolved through the mounts; symbolic links are not modelled.
-/
import Slirp4netns.Lib.Bytes
import Slirp4netns.Lib.Hoare
import Slirp4netns.Lib.Mounts

namespace Slirp4netns

open MountTable

/-! ## System calls -/

/-- An absolute path, by its components. -/
abbrev Path := List Bytes

/-- The path as a string. -/
def Path.text (path : Path) : Bytes :=
  if path = [] then bytes "/" else path.flatMap fun name => 47 :: name

/-- The flags of `mount`. -/
inductive MsFlag where
  | msPrivate
  | msSlave
  | msRec
  | msBind
  | msRemount
  | msRdonly
  | msNosuid
  | msNodev
  | msNoexec
  deriving DecidableEq

/-- A call of `sandbox.c` with its result, or a line of output. -/
inductive SandboxCall where
  | eprintf (text : Bytes)
  /-- `unshare(CLONE_NEWNS)` -/
  | unshare (rc : ℤ)
  | mount (source target : Path) (fstype : Bytes) (flags : List MsFlag) (data : Bytes) (rc : ℤ)
  | mkdir (path : Path) (rc : ℤ)
  | realpath (path : Path) (result : Option Path)
  | mkdirWithParents (path : Path) (rc : ℤ)
  | creat (path : Path) (rc : ℤ)
  | close (fd : ℤ)
  | chdir (path : Path) (rc : ℤ)
  /-- `pivot_root(".", "old")` -/
  | pivotRoot (rc : ℤ)
  /-- `umount2(path, MNT_DETACH)` -/
  | umount2 (path : Path) (rc : ℤ)
  | rmdir (path : Path) (rc : ℤ)
  /-- `prctl(PR_SET_NO_NEW_PRIVS, 1, …)` -/
  | noNewPrivs (rc : ℤ)
  /-- `prctl(PR_CAP_AMBIENT, PR_CAP_AMBIENT_CLEAR_ALL, …)` -/
  | ambientClearAll (rc : ℤ)
  /-- `prctl(PR_CAPBSET_DROP, cap, …)` -/
  | capbsetDrop (cap : ℕ) (rc : ℤ)
  /-- `capset` with these capabilities in all three sets -/
  | capset (caps : List ℕ) (rc : ℤ)
  deriving DecidableEq

/-! ## The kernel -/

/-- Whose mount namespace a mount is in. -/
inductive Ns where
  | host
  | sandbox
  deriving DecidableEq

/-- The mounts of the host, and those that were made from them or by a call; the number of a
    new one is the size of the table before it. -/
inductive MountId where
  | host (n : ℕ)
  | copy (of : MountId)
  | fresh (n : ℕ)
  | clone (n : ℕ) (of : MountId)
  | replica (peer of : MountId)
  deriving DecidableEq

/-- A mount of the kernel. -/
abbrev KMount := Mount MountId Bytes Ns

/-- What the kernel has of the process and its mounts. -/
structure Kernel where
  mounts : List KMount
  ns : Ns
  root : Location MountId Bytes
  cwd : Location MountId Bytes

namespace Kernel

/-- Where a path leads. -/
def resolve (k : Kernel) (path : Path) : Location MountId Bytes := walk k.mounts path k.root

/-- The named mount, or all below it with `MS_REC`. -/
def scope (k : Kernel) (i : MountId) (flags : List MsFlag) : List MountId :=
  if .msRec ∈ flags then subtree k.mounts i else [i]

/-- A `mount` that succeeds.  A bind is recursive here. -/
def mount (k : Kernel) (source target : Path) (flags : List MsFlag) : Kernel :=
  let dest := k.resolve target
  if .msRemount ∈ flags then k
  else if .msBind ∈ flags then { k with
    mounts := attach .replica k.mounts dest.1
      (cloneTree (.clone k.mounts.length) k.mounts (k.resolve source) dest) }
  else if .msPrivate ∈ flags then { k with
    mounts := setProp k.mounts (k.scope dest.1 flags) fun _ => .isolated }
  else if .msSlave ∈ flags then { k with
    mounts := setProp k.mounts (k.scope dest.1 flags) Propagation.slave }
  else { k with
    mounts := attach .replica k.mounts dest.1
      [⟨.fresh k.mounts.length, dest.1, k.ns, [], dest.2, .isolated⟩] }

/-- What a call does that succeeds. -/
def apply (k : Kernel) : SandboxCall → Kernel
  | .unshare _ => { k with
      mounts := copyTree .copy k.ns .sandbox k.mounts
      ns := .sandbox
      root := (.copy k.root.1, k.root.2)
      cwd := (.copy k.cwd.1, k.cwd.2) }
  | .mount source target _ flags _ _ => k.mount source target flags
  | .chdir path _ => { k with cwd := k.resolve path }
  | .pivotRoot _ => { k with
      mounts := pivot k.mounts k.cwd.1 k.root.1 (walk k.mounts [bytes "old"] k.cwd)
      root := k.cwd }
  | .umount2 path _ => { k with mounts := detach k.mounts (k.resolve path).1 }
  | _ => k

/-- The mounts of the host. -/
def hostTree (k : Kernel) : List KMount := k.mounts.filter fun m => m.ns = .host

end Kernel

/-! ## The code -/

/-- Code of the sandbox. -/
abbrev SandboxProg := Prog Kernel SandboxCall Empty

/-- The outcomes of the calls of `add_mount`. -/
structure AddMountEnv where
  /-- negative for a failure with another reason than `EINVAL` -/
  slaveFrom : ℤ
  bind : ℤ
  errno : ℕ
  slaveTo : ℤ
  remount : ℤ

/-- The outcomes of the calls. -/
structure SandboxEnv where
  unshare : ℤ
  makePrivate : ℤ
  tmpfs : ℤ
  mkdirEtc : ℤ
  mkdirOld : ℤ
  mkdirRun : ℤ
  etc : AddMountEnv
  /-- of `/etc/resolv.conf` -/
  realpath : Option Path
  mkdirWithParents : ℤ
  creat : Path → ℤ
  resolv : AddMountEnv
  run : AddMountEnv
  chdirTmp : ℤ
  pivotRoot : ℤ
  chdirRoot : ℤ
  umount : ℤ
  rmdir : ℤ
  remount : ℤ
  noNewPrivs : ℤ
  ambientClearAll : ℤ
  /-- `CAP_LAST_CAP`; a greater number gives `EINVAL` -/
  capLast : ℕ
  capbsetDrop : ℕ → ℤ
  capset : ℤ
  /-- a file cannot be created in the place of a directory -/
  creat_dir : ∀ path ∈ [[bytes "tmp"], [bytes "tmp", bytes "old"]], creat path < 0

/-- A call, a message if it fails, and else the rest. -/
def attempt (c : ℤ → SandboxCall) (rc : ℤ) (message : Bytes) (next : SandboxProg ℤ) :
    SandboxProg ℤ := do
  Prog.call (c rc)
  if rc < 0 then do
    Prog.call (.eprintf message)
    return rc
  else do
    Prog.update fun k => k.apply (c rc)
    next

/-- `MS_SLAVE | MS_REC`; that the source is not a mount point is not an error. -/
def slaveSource (env : AddMountEnv) (source : Path) (next : SandboxProg ℤ) : SandboxProg ℤ := do
  let k ← Prog.state
  if 0 ≤ env.slaveFrom ∧ ¬ IsMountPoint k.mounts (k.resolve source) then do
    Prog.call (.mount [] source [] [.msSlave, .msRec] [] (-1))
    next
  else
    attempt (.mount [] source [] [.msSlave, .msRec] []) env.slaveFrom
      (bytes "cannot make mount propagation slave " ++ source.text ++ [10]) next

/-- `add_mount` -/
def addMount (env : AddMountEnv) (source target : Path) : SandboxProg ℤ :=
  slaveSource env source <|
  attempt (.mount source target [] [.msBind, .msRec, .msSlave, .msNosuid, .msNodev, .msNoexec] [])
    env.bind (bytes "cannot bind mount " ++ source.text ++ bytes " to " ++ target.text ++
      bytes " (errno: " ++ decimal env.errno ++ bytes ")\n") <|
  attempt (.mount [] target [] [.msSlave, .msRec] []) env.slaveTo
    (bytes "cannot make mount propagation slave " ++ target.text ++ [10]) <|
  attempt (.mount source target []
      [.msRemount, .msBind, .msRdonly, .msNosuid, .msNodev, .msNoexec] []) env.remount
    (bytes "cannot remount ro " ++ target.text ++ [10]) <|
  return 0

/-- `/etc/resolv.conf` leads to a file outside of `/etc` and `/run`. -/
def Escaped (real : Path) : Prop :=
  ¬ bytes "/etc" <+: real.text ∧ ¬ bytes "/run" <+: real.text

instance (real : Path) : Decidable (Escaped real) := inferInstanceAs (Decidable (_ ∧ _))

/-- `bind_escaped_resolv_conf` -/
def bindEscapedResolvConf (env : SandboxEnv) (root : Path) : SandboxProg ℤ := do
  Prog.call (.realpath [bytes "etc", bytes "resolv.conf"] env.realpath)
  match env.realpath with
  | none => return 0
  | some real =>
    if Escaped real then do
      let dest := root ++ real
      Prog.call (.eprintf (bytes "sandbox: /etc/resolv.conf (-> " ++ real.text ++
        bytes ") seems a symlink to a file outside \x7b/etc, /run\x7d, attempting to bind it " ++
        bytes "as well.\n"))
      attempt (.mkdirWithParents dest.dropLast) env.mkdirWithParents
        (bytes "cannot create resolve dest dir path: " ++ Path.text dest.dropLast ++ [10]) <|
        attempt (.creat dest) (env.creat dest)
          (bytes "cannot create empty resolv.conf dest file " ++ dest.text ++ [10]) do
        Prog.call (.close (env.creat dest))
        let ret ← addMount env.resolv real dest
        Prog.when (ret < 0) (Prog.call (.eprintf (bytes "cannot bind mount resolv.conf\n")))
        return ret
    else return 0

/-- `CAP_NET_BIND_SERVICE` -/
def capNetBindService : ℕ := 10

/-- The loop over the capabilities from `i` on, of which `n` exist. -/
def dropCaps (env : SandboxEnv) (next : SandboxProg ℤ) : ℕ → ℕ → SandboxProg ℤ
  | i, 0 => do
    Prog.call (.capbsetDrop (if i = capNetBindService then i + 1 else i) (-1))
    next
  | i, n + 1 =>
    if i = capNetBindService then dropCaps env next (i + 1) n
    else attempt (.capbsetDrop i) (env.capbsetDrop i) (bytes "prctl(PR_CAPBSET_DROP)\n") <|
      dropCaps env next (i + 1) n

/-- The rest, unless the code before it fails. -/
def orReturn (p next : SandboxProg ℤ) : SandboxProg ℤ := do
  let ret ← p
  if ret < 0 then return ret else next

/-- `create_sandbox`, from the second `chdir` on. -/
def leaveOld (env : SandboxEnv) : SandboxProg ℤ :=
  attempt (.chdir []) env.chdirRoot (bytes "cannot chdir to /\n") <|
  attempt (.umount2 [bytes "old"]) env.umount (bytes "cannot umount /old\n") <|
  attempt (.rmdir [bytes "old"]) env.rmdir (bytes "cannot rmdir /old\n") do
  Prog.call (.mount [bytes "tmpfs"] [] (bytes "tmpfs") [.msRemount, .msRdonly] (bytes "size=0k")
    env.remount)
  -- this error is negligible
  Prog.when (env.remount < 0) (Prog.call (.eprintf (bytes "cannot remount / as read-only\n")))
  attempt .noNewPrivs env.noNewPrivs (bytes "prctl(PR_SET_NO_NEW_PRIVS)\n") <|
    attempt .ambientClearAll env.ambientClearAll (bytes "prctl(PR_CAP_AMBIENT_CLEAR_ALL)\n") <|
    dropCaps env (attempt (.capset [capNetBindService]) env.capset (bytes "capset(0)\n") (return 0))
      0 (env.capLast + 1)

/-- `create_sandbox`, from the first `add_mount` on. -/
def bindHost (env : SandboxEnv) : SandboxProg ℤ :=
  orReturn (addMount env.etc [bytes "etc"] [bytes "tmp", bytes "etc"]) <|
  orReturn (bindEscapedResolvConf env [bytes "tmp"]) <|
  orReturn (addMount env.run [bytes "run"] [bytes "tmp", bytes "run"]) <|
  attempt (.chdir [bytes "tmp"]) env.chdirTmp (bytes "cannot chdir to /tmp\n") <|
  attempt .pivotRoot env.pivotRoot (bytes "cannot pivot_root to /tmp\n") <|
  leaveOld env

/-- `create_sandbox` -/
def createSandbox (env : SandboxEnv) : SandboxProg ℤ :=
  attempt .unshare env.unshare (bytes "cannot unshare new mount namespace\n") <|
  attempt (.mount [] [] [] [.msPrivate] []) env.makePrivate (bytes "cannot remount / private\n") <|
  attempt (.mount [bytes "tmpfs"] [bytes "tmp"] (bytes "tmpfs") [.msNosuid, .msNodev, .msNoexec]
      (bytes "size=1k")) env.tmpfs
    (bytes "cannot mount tmpfs on /tmp\n") <|
  attempt (.mkdir [bytes "tmp", bytes "etc"]) env.mkdirEtc (bytes "cannot mkdir /etc\n") <|
  attempt (.mkdir [bytes "tmp", bytes "old"]) env.mkdirOld (bytes "cannot mkdir /old\n") <|
  attempt (.mkdir [bytes "tmp", bytes "run"]) env.mkdirRun (bytes "cannot mkdir /run\n") <|
  bindHost env

/-- No call fails, and `/etc/resolv.conf` does not exist. -/
def SandboxEnv.smooth : SandboxEnv where
  unshare := 0
  makePrivate := 0
  tmpfs := 0
  mkdirEtc := 0
  mkdirOld := 0
  mkdirRun := 0
  etc := ⟨0, 0, 0, 0, 0⟩
  realpath := none
  mkdirWithParents := 0
  creat := fun _ => -1
  resolv := ⟨0, 0, 0, 0, 0⟩
  run := ⟨0, 0, 0, 0, 0⟩
  chdirTmp := 0
  pivotRoot := 0
  chdirRoot := 0
  umount := 0
  rmdir := 0
  remount := 0
  noNewPrivs := 0
  ambientClearAll := 0
  capLast := 40
  capbsetDrop := fun _ => 0
  capset := 0
  creat_dir := fun _ _ => by decide

/-! ## Rules -/

/-- After calls and in a state with `P`, the code returns 0 with `Q`, or a negative value. -/
def Returns (P : List SandboxCall → Kernel → Prop) (p : SandboxProg ℤ)
    (Q : List SandboxCall → Kernel → Prop) : Prop :=
  Prog.Triple P p (fun rc cs k => rc < 0 ∨ rc = 0 ∧ Q cs k) fun _ _ _ => True

namespace Returns

variable {P Q R Q' : List SandboxCall → Kernel → Prop} {p next : SandboxProg ℤ}

theorem value (h : Returns P p Q) {k : Kernel} (hk : P [] k) :
    (p.run k).value < 0 ∨ (p.run k).value = 0 ∧ Q (p.run k).calls (p.run k).st :=
  @Prog.Triple.value _ _ _ _ _ _ _ h [] k hk

protected theorem pure (h : ∀ cs k, P cs k → Q cs k) : Returns P (pure 0) Q :=
  Prog.Triple.pure fun cs k hk => .inr ⟨rfl, h cs k hk⟩

theorem conseq (h : Returns P p Q) (hP : ∀ cs k, R cs k → P cs k)
    (hQ : ∀ cs k, Q cs k → Q' cs k) : Returns R p Q' :=
  Prog.Triple.conseq h hP fun _ cs k hk => hk.imp_right fun hk => ⟨hk.1, hQ cs k hk.2⟩

protected theorem call {e : SandboxCall} (he : ∀ cs k, P cs k → R (cs ++ [e]) k)
    (h : Returns R next Q) : Returns P (do Prog.call e; next) Q :=
  Prog.Triple.bind (Q := fun _ => R) (.call he) fun _ => h

/-- A failure that is only reported. -/
theorem warn {c : Prop} [Decidable c] {e : SandboxCall} (he : ∀ cs k, P cs k → P (cs ++ [e]) k)
    (h : Returns P next Q) : Returns P (do Prog.when c (Prog.call e); next) Q :=
  Prog.Triple.bind (Q := fun _ => P) (.when (.call he)) fun _ => h

protected theorem ite {c : Prop} [Decidable c] (hp : c → Returns P p Q)
    (hnext : ¬ c → Returns P next Q) : Returns P (if c then p else next) Q :=
  Prog.Triple.ite hp hnext

protected theorem attempt {c : ℤ → SandboxCall} {rc : ℤ} {message : Bytes}
    (hstep : 0 ≤ rc → ∀ cs k, P cs k → R (cs ++ [c rc]) (k.apply (c rc)))
    (hnext : 0 ≤ rc → Returns R next Q) : Returns P (attempt c rc message next) Q := by
  by_cases hrc : rc < 0
  · unfold attempt
    rw [if_pos hrc]
    exact Prog.Triple.bind (Q := fun _ _ _ => True) (.call fun _ _ _ => trivial) fun _ =>
      Prog.Triple.bind (Q := fun _ _ _ => True) (.call fun _ _ _ => trivial) fun _ =>
        .pure fun _ _ _ => .inl hrc
  · have hrc' : 0 ≤ rc := Int.not_lt.1 hrc
    unfold attempt
    rw [if_neg hrc]
    refine Prog.Triple.bind (Q := fun _ cs k => R cs (k.apply (c rc)))
      (.call (hstep hrc')) fun _ =>
        Prog.Triple.update_bind ((hnext hrc').conseq ?_ fun _ _ hk => hk)
    rintro cs k ⟨k₀, hk₀, rfl⟩
    exact hk₀

protected theorem orReturn (hp : Returns P p R) (hnext : Returns R next Q) :
    Returns P (orReturn p next) Q := by
  refine Prog.Triple.bind hp fun rc => ?_
  refine .ite (fun hrc => .pure fun _ _ _ => .inl hrc) fun hrc => ?_
  exact Prog.Triple.conseq hnext (fun _ _ hk => (hk.resolve_left hrc).2) fun _ _ _ hk => hk

/-- A message if the code fails. -/
theorem report (h : Returns P p Q) (message : Bytes) :
    Returns P (do
      let ret ← p
      Prog.when (ret < 0) (Prog.call (.eprintf message))
      return ret) Q := by
  refine Prog.Triple.bind h fun rc => ?_
  by_cases hrc : rc < 0
  · refine Prog.Triple.bind (Q := fun _ _ _ => True) ?_ fun _ => .pure fun _ _ _ => .inl hrc
    exact Prog.Triple.conseq (P := fun _ _ => True) (.when (.call fun _ _ _ => trivial))
      (fun _ _ _ => trivial) fun _ _ _ hk => hk
  · unfold Prog.when
    rw [if_neg hrc]
    exact Prog.Triple.bind (.pure fun _ _ hk => hk) fun _ => .pure fun _ _ hk => hk

protected theorem slaveSource {env : AddMountEnv} {source : Path}
    (hpoint : 0 ≤ env.slaveFrom → ∀ cs k, P cs k → IsMountPoint k.mounts (k.resolve source) →
      R (cs ++ [.mount [] source [] [.msSlave, .msRec] [] env.slaveFrom])
        (k.apply (.mount [] source [] [.msSlave, .msRec] [] env.slaveFrom)))
    (hnot : ∀ cs k, P cs k → ¬ IsMountPoint k.mounts (k.resolve source) →
      R (cs ++ [.mount [] source [] [.msSlave, .msRec] [] (-1)]) k)
    (hnext : Returns R next Q) : Returns P (slaveSource env source next) Q := by
  refine Prog.Triple.state_bind fun k₀ => ?_
  refine .ite (fun h => ?_) fun h => ?_
  · refine Returns.call ?_ hnext
    rintro cs k ⟨hk, rfl⟩
    exact hnot cs k hk h.2
  · refine Returns.attempt (fun hrc => ?_) fun _ => hnext
    rintro cs k ⟨hk, rfl⟩
    exact hpoint hrc cs k hk (not_not.1 fun hn => h ⟨hrc, hn⟩)

end Returns

end Slirp4netns
