/-
  slirp4netns formalization — the file of the API socket: `api_bindlisten` (`api.c`)
  makes it, and `do_slirp` is to remove it.

  The file system is a map from places to what is there.  Which place a path names
  is up to the kernel, and changes while `create_sandbox` mounts a tmpfs on `/tmp`
  and makes it the root (`View`); in the new root no path names a place that an
  `unlink` could change.

  What `api_bindlisten` does to the files is its model on them.  A run of
  `do_slirp` acts on the files through three of its acts (`Act.OfFile`), and these
  are the same on every run that returns (`doSlirp_fileActs`).

  `api_bindlisten` unlinks before it checks the path, and `do_slirp` unlinks only
  with an API context, where the path leads to by then: so a failure may cost a
  file, and the socket may be left behind (`socket_cleanup`).
-/
import Slirp4netns.Lockdown
import Slirp4netns.Sandbox

namespace Slirp4netns

/-! ## Path names in the sandbox -/

/-- How the kernel resolves path names. -/
inductive View where
  | host
  /-- with the tmpfs on `/tmp` -/
  | covered
  /-- and as the working directory -/
  | inside
  /-- with the tmpfs as the root, and the old one on `/old` -/
  | pivoted
  /-- without `/old` -/
  | newRoot
  deriving DecidableEq

/-- The view after a call of the sandbox. -/
def View.next (v : View) : SandboxCall → View
  | .mount _ target fstype _ _ rc =>
    if 0 ≤ rc ∧ fstype = bytes "tmpfs" ∧ target = [bytes "tmp"] then .covered else v
  | .chdir path rc => if 0 ≤ rc ∧ path = [bytes "tmp"] then .inside else v
  | .pivotRoot rc => if 0 ≤ rc then .pivoted else v
  | .umount2 _ rc => if 0 ≤ rc then .newRoot else v
  | _ => v

/-- The view after some code of the sandbox. -/
def viewAfter (p : SandboxProg ℤ) (k : Kernel) (v : View) : View :=
  (p.run k).calls.foldl View.next v

/-- Every call of `add_mount` succeeds. -/
def AddMountEnv.Ok (env : AddMountEnv) : Prop :=
  0 ≤ env.slaveFrom ∧ 0 ≤ env.bind ∧ 0 ≤ env.slaveTo ∧ 0 ≤ env.remount

instance (env : AddMountEnv) : Decidable env.Ok := inferInstanceAs (Decidable (_ ∧ _))

/-- `bind_escaped_resolv_conf` has nothing to do, or does it. -/
def SandboxEnv.ResolvOk (env : SandboxEnv) : Prop :=
  ∀ real ∈ env.realpath, Escaped real →
    0 ≤ env.mkdirWithParents ∧ 0 ≤ env.creat (bytes "tmp" :: real) ∧ env.resolv.Ok

instance (env : SandboxEnv) : Decidable env.ResolvOk :=
  inferInstanceAs (Decidable (∀ real ∈ env.realpath, _))

/-- The view after `create_sandbox`, by the outcomes of its calls. -/
def SandboxEnv.view (env : SandboxEnv) : View :=
  if env.unshare < 0 ∨ env.makePrivate < 0 ∨ env.tmpfs < 0 then .host
  else if env.mkdirEtc < 0 ∨ env.mkdirOld < 0 ∨ env.mkdirRun < 0 ∨ ¬ env.etc.Ok ∨ ¬ env.ResolvOk ∨
    ¬ env.run.Ok ∨ env.chdirTmp < 0 then .covered
  else if env.pivotRoot < 0 then .inside
  else if env.chdirRoot < 0 ∨ env.umount < 0 then .pivoted
  else .newRoot

/-- Calls that change no view. -/
def SandboxCall.Still (c : SandboxCall) : Prop := ∀ v : View, v.next c = v

theorem viewAfter_of_still {p : SandboxProg ℤ} (h : p.AllCalls SandboxCall.Still) (k : Kernel)
    (v : View) : viewAfter p k v = v := by
  have hall : ∀ cs : List SandboxCall, (∀ c ∈ cs, c.Still) → cs.foldl View.next v = v := by
    intro cs
    induction cs with
    | nil => exact fun _ => rfl
    | cons c cs ih =>
      intro hcs
      obtain ⟨hc, hcs⟩ := List.forall_mem_cons.1 hcs
      rw [List.foldl_cons, hc v, ih hcs]
  exact hall _ (h k)

theorem attempt_run {c : ℤ → SandboxCall} {rc : ℤ} {message : Bytes} {next : SandboxProg ℤ}
    (k : Kernel) : (attempt c rc message next).run k =
      if rc < 0 then ⟨.ret rc, k, [c rc, .eprintf message]⟩
      else (next.run (k.apply (c rc))).after [c rc] := by
  unfold attempt
  rw [Prog.call_bind_run, Prog.ite_run]
  split <;> rfl

theorem return_value (a : ℤ) (k : Kernel) : ((pure a : SandboxProg ℤ).run k).value = a := rfl

theorem attempt_value {c : ℤ → SandboxCall} {rc : ℤ} {message : Bytes} {next : SandboxProg ℤ}
    (k : Kernel) : 0 ≤ ((attempt c rc message next).run k).value ↔
      0 ≤ rc ∧ 0 ≤ (next.run (k.apply (c rc))).value := by
  rw [attempt_run]
  split
  · next hrc => exact ⟨fun h => absurd h (Int.not_le.2 hrc), fun h => h.1⟩
  · next hrc => exact ⟨fun h => ⟨Int.not_lt.1 hrc, h⟩, fun h => h.2⟩

/-- A call that changes the view if it succeeds. -/
theorem attempt_view {c : ℤ → SandboxCall} {rc : ℤ} {message : Bytes} {next : SandboxProg ℤ}
    {v v' : View} (hc : v.next (c rc) = if 0 ≤ rc then v' else v) (k : Kernel) :
    viewAfter (attempt c rc message next) k v =
      if rc < 0 then v else viewAfter next (k.apply (c rc)) v' := by
  rw [viewAfter, attempt_run]
  split
  · next hrc => exact hc.trans (if_neg (Int.not_le.2 hrc))
  · next hrc =>
    rw [if_pos (Int.not_lt.1 hrc)] at hc
    rw [← hc]
    rfl

theorem attempt_view_still {c : ℤ → SandboxCall} {rc : ℤ} {message : Bytes}
    {next : SandboxProg ℤ} (hc : (c rc).Still) (k : Kernel) (v : View) :
    viewAfter (attempt c rc message next) k v =
      if rc < 0 then v else viewAfter next (k.apply (c rc)) v :=
  attempt_view ((hc v).trans (ite_self v).symm) k

theorem orReturn_view {p next : SandboxProg ℤ} (k : Kernel) (v : View) :
    viewAfter (orReturn p next) k v =
      if (p.run k).value < 0 then viewAfter p k v
      else viewAfter next (p.run k).st (viewAfter p k v) := by
  rcases hrun : p.run k with ⟨ret | why, k', cs⟩
  · rw [viewAfter, viewAfter, orReturn, Prog.bind_of_ret hrun, Prog.ite_run, hrun]
    show _ = if ret < 0 then _ else _
    split
    · exact congrArg (List.foldl View.next v) (List.append_nil cs)
    · exact List.foldl_append
  · exact why.elim

theorem attempt_still {c : ℤ → SandboxCall} {rc : ℤ} {message : Bytes} {next : SandboxProg ℤ}
    (hc : (c rc).Still) (hnext : next.AllCalls SandboxCall.Still) :
    (attempt c rc message next).AllCalls SandboxCall.Still :=
  .bind (.call hc) fun _ => .ite (.bind (.call fun _ => rfl) fun _ => .pure _)
    (.bind (.update _) fun _ => hnext)

/-- The other mounts are no tmpfs. -/
theorem still_mount {source target : Path} {flags : List MsFlag} {data : Bytes} {rc : ℤ} :
    (SandboxCall.mount source target [] flags data rc).Still := by
  intro v
  refine if_neg fun h => ?_
  exact absurd h.2.1 (by decide +kernel)

theorem slaveSource_still {env : AddMountEnv} {source : Path} {next : SandboxProg ℤ}
    (hnext : next.AllCalls SandboxCall.Still) :
    (slaveSource env source next).AllCalls SandboxCall.Still :=
  .bind .state fun _ => .ite (.bind (.call still_mount) fun _ => hnext)
    (attempt_still still_mount hnext)

theorem addMount_still (env : AddMountEnv) (source target : Path) :
    (addMount env source target).AllCalls SandboxCall.Still :=
  slaveSource_still <| attempt_still still_mount <| attempt_still still_mount <|
    attempt_still still_mount <| .pure 0

/-- Whether the source is a mount point does not matter for the result. -/
theorem slaveSource_value {env : AddMountEnv} {source : Path} {next : SandboxProg ℤ} {ok : Prop}
    (hnext : ∀ k, 0 ≤ (next.run k).value ↔ ok) (k : Kernel) :
    0 ≤ ((slaveSource env source next).run k).value ↔ 0 ≤ env.slaveFrom ∧ ok := by
  unfold slaveSource
  rw [Prog.state_bind_run, Prog.ite_run]
  split
  · next hpoint => exact (hnext k).trans (and_iff_right hpoint.1).symm
  · rw [attempt_value, hnext]

theorem addMount_value (env : AddMountEnv) (source target : Path) (k : Kernel) :
    0 ≤ ((addMount env source target).run k).value ↔ env.Ok := by
  refine slaveSource_value (fun k => ?_) k
  rw [attempt_value, attempt_value, attempt_value, return_value, and_iff_left (le_refl 0)]

theorem bindEscapedResolvConf_still (env : SandboxEnv) (root : Path) :
    (bindEscapedResolvConf env root).AllCalls SandboxCall.Still := by
  refine .bind (.call fun _ => rfl) fun _ => ?_
  split
  · exact .pure 0
  · refine .ite (.bind (.call fun _ => rfl) fun _ => ?_) (.pure 0)
    refine attempt_still (fun _ => rfl) (attempt_still (fun _ => rfl) ?_)
    exact .bind (.call fun _ => rfl) fun _ => .bind (addMount_still _ _ _) fun _ =>
      .bind (.when (.call fun _ => rfl)) fun _ => .pure _

theorem report_value {p : SandboxProg ℤ} {message : Bytes} (k : Kernel) :
    ((do
      let ret ← p
      Prog.when (ret < 0) (Prog.call (.eprintf message))
      return ret : SandboxProg ℤ).run k).value = (p.run k).value := by
  rcases hrun : p.run k with ⟨ret | why, k', cs⟩
  · rw [Prog.bind_of_ret hrun]
    unfold Prog.when
    by_cases hret : ret < 0
    · rw [if_pos hret]
      rfl
    · rw [if_neg hret]
      rfl
  · exact why.elim

theorem bindEscapedResolvConf_value (env : SandboxEnv) (k : Kernel) :
    0 ≤ ((bindEscapedResolvConf env [bytes "tmp"]).run k).value ↔ env.ResolvOk := by
  unfold bindEscapedResolvConf SandboxEnv.ResolvOk
  rw [Prog.call_bind_run]
  cases env.realpath with
  | none => exact ⟨fun _ _ h => (nomatch h), fun _ => le_refl 0⟩
  | some real =>
    simp only [Option.mem_some_iff, forall_eq']
    show 0 ≤ ((if Escaped real then _ else _ : SandboxProg ℤ).run k).value ↔ _
    rw [Prog.ite_run]
    split
    · next hescaped =>
      show 0 ≤ ((attempt _ _ _ _ : SandboxProg ℤ).run k).value ↔ _
      rw [attempt_value, attempt_value, forall_prop_of_true hescaped]
      refine and_congr_right' (and_congr_right' ?_)
      rw [Prog.call_bind_run, Ran.after_value, report_value, addMount_value]
    · next hescaped => exact ⟨fun _ h => absurd h hescaped, fun _ => le_refl 0⟩

/-- After `umount2` the view does not change. -/
theorem dropCaps_still (env : SandboxEnv) {next : SandboxProg ℤ}
    (hnext : next.AllCalls SandboxCall.Still) (i n : ℕ) :
    (dropCaps env next i n).AllCalls SandboxCall.Still := by
  induction n generalizing i with
  | zero => exact .bind (.call fun _ => rfl) fun _ => hnext
  | succ n ih => exact .ite (ih (i + 1)) (attempt_still (fun _ => rfl) (ih (i + 1)))

theorem leaveOld_view (env : SandboxEnv) (k : Kernel) : viewAfter (leaveOld env) k .pivoted =
    if env.chdirRoot < 0 ∨ env.umount < 0 then .pivoted else .newRoot := by
  have hchdir : (SandboxCall.chdir [] env.chdirRoot).Still := fun _ => if_neg fun h => by cases h.2
  have hremount : (SandboxCall.mount [bytes "tmpfs"] [] (bytes "tmpfs") [.msRemount, .msRdonly]
      (bytes "size=0k") env.remount).Still := fun _ => if_neg fun h => by cases h.2.2
  have humount : View.next .pivoted (.umount2 [bytes "old"] env.umount) =
      if 0 ≤ env.umount then .newRoot else .pivoted := rfl
  unfold leaveOld
  rw [attempt_view_still hchdir, attempt_view humount, viewAfter_of_still, ite_or]
  refine attempt_still (fun _ => rfl) (.bind (.call hremount) fun _ =>
    .bind (.when (.call fun _ => rfl)) fun _ => ?_)
  refine attempt_still (fun _ => rfl) (attempt_still (fun _ => rfl) ?_)
  exact dropCaps_still env (attempt_still (fun _ => rfl) (.pure 0)) 0 _

theorem bindHost_view (env : SandboxEnv) (k : Kernel) : viewAfter (bindHost env) k .covered =
    if ¬ env.etc.Ok ∨ ¬ env.ResolvOk ∨ ¬ env.run.Ok ∨ env.chdirTmp < 0 then .covered
    else if env.pivotRoot < 0 then .inside
    else if env.chdirRoot < 0 ∨ env.umount < 0 then .pivoted
    else .newRoot := by
  have hmount {env : AddMountEnv} {source target : Path} (k : Kernel) :
      ((addMount env source target).run k).value < 0 ↔ ¬ env.Ok := by
    rw [← addMount_value env source target k, Int.not_le]
  have hresolv (k : Kernel) :
      ((bindEscapedResolvConf env [bytes "tmp"]).run k).value < 0 ↔ ¬ env.ResolvOk := by
    rw [← bindEscapedResolvConf_value env k, Int.not_le]
  have hchdir : View.next .covered (.chdir [bytes "tmp"] env.chdirTmp) =
      if 0 ≤ env.chdirTmp then .inside else .covered := by
    simp only [View.next, and_true]
  have hpivot : View.next .inside (.pivotRoot env.pivotRoot) =
      if 0 ≤ env.pivotRoot then .pivoted else .inside := rfl
  unfold bindHost
  simp only [orReturn_view, hmount, hresolv, viewAfter_of_still (addMount_still _ _ _),
    viewAfter_of_still (bindEscapedResolvConf_still _ _), ite_or]
  rw [attempt_view hchdir, attempt_view hpivot, leaveOld_view]
  simp only [ite_or]

/-- What `create_sandbox` does to path names. -/
theorem createSandbox_view (env : SandboxEnv) (k : Kernel) :
    viewAfter (createSandbox env) k .host = env.view := by
  have htmpfs : View.next .host (.mount [bytes "tmpfs"] [bytes "tmp"] (bytes "tmpfs")
      [.msNosuid, .msNodev, .msNoexec] (bytes "size=1k") env.tmpfs) =
      if 0 ≤ env.tmpfs then .covered else .host := by
    simp only [View.next, and_true]
  unfold createSandbox SandboxEnv.view
  rw [attempt_view_still fun _ => rfl, attempt_view_still still_mount, attempt_view htmpfs,
    attempt_view_still fun _ => rfl, attempt_view_still fun _ => rfl,
    attempt_view_still fun _ => rfl, bindHost_view]
  simp only [ite_or]

theorem orReturn_value {p next : SandboxProg ℤ} {k : Kernel}
    (h : 0 ≤ ((orReturn p next).run k).value) :
    0 ≤ (p.run k).value ∧ 0 ≤ (next.run (p.run k).st).value := by
  rcases hrun : p.run k with ⟨ret | why, k', cs⟩
  · rw [orReturn, Prog.bind_of_ret hrun, Prog.ite_run, Ran.after_value] at h
    split at h
    · next hret => exact absurd h (Int.not_le.2 hret)
    · next hret => exact ⟨Int.not_lt.1 hret, h⟩
  · exact why.elim

/-- If `create_sandbox` succeeds, path names are resolved in the new root. -/
theorem createSandbox_newRoot {env : SandboxEnv} {k : Kernel}
    (h : 0 ≤ ((createSandbox env).run k).value) : env.view = .newRoot := by
  unfold createSandbox bindHost leaveOld at h
  simp only [attempt_value] at h
  obtain ⟨hunshare, hprivate, htmpfs, hetc, hold, hrun, h⟩ := h
  obtain ⟨haddEtc, h⟩ := orReturn_value h
  obtain ⟨hresolv, h⟩ := orReturn_value h
  obtain ⟨haddRun, h⟩ := orReturn_value h
  simp only [attempt_value] at h
  obtain ⟨hchdir, hpivot, hchdirRoot, humount, -⟩ := h
  rw [addMount_value] at haddEtc haddRun
  rw [bindEscapedResolvConf_value] at hresolv
  unfold SandboxEnv.view
  simp only [Int.not_lt.2 hunshare, Int.not_lt.2 hprivate, Int.not_lt.2 htmpfs, Int.not_lt.2 hetc,
    Int.not_lt.2 hold, Int.not_lt.2 hrun, haddEtc, hresolv, haddRun, Int.not_lt.2 hchdir,
    Int.not_lt.2 hpivot, Int.not_lt.2 hchdirRoot, Int.not_lt.2 humount, not_true, or_self, if_false]

/-! ## Files -/

/-- What a path leads to. -/
inductive Node where
  | directory
  | socket
  | other (inode : ℕ)
  deriving DecidableEq

/-- What is in the directories, by place, and where the API socket was bound. -/
structure Files (ι : Type) where
  entry : ι → Option Node
  bound : Option ι

/-- The outcomes of the calls on the API socket. -/
structure SocketEnv (ι : Type) where
  /-- the place in a directory of the host that can be changed, if the path names one -/
  lookup : View → Bytes → Option ι
  /-- the files before the call -/
  entry : ι → Option Node
  /-- of a file that is no directory -/
  mayUnlink : Bool
  socket : ℤ
  /-- to a path on which there is no file -/
  mayBind : Bool
  listen : ℤ
  mayUnlinkAtExit : Bool
  lookup_nil : ∀ view, lookup view [] = none
  /-- only `/etc` and `/run` of the host are there, and they are read-only -/
  lookup_newRoot : ∀ path, lookup .newRoot path = none

/-- The calls of `api_bindlisten`. -/
inductive SocketCall where
  | unlink (path : Bytes)
  | socket (rc : ℤ)
  | bind (fd : ℤ) (path : Bytes) (rc : ℤ)
  | listen (fd rc : ℤ)
  | close (fd : ℤ)
  | perror (text : Bytes)
  | eprintf (text : Bytes)
  deriving DecidableEq

section
variable {ι : Type} [DecidableEq ι]

/-- `unlink` -/
def Files.unlink (files : Files ι) (place : Option ι) (may : Bool) : Files ι :=
  match place with
  | none => files
  | some p =>
    if may = true ∧ files.entry p ≠ some .directory then
      { files with entry := Function.update files.entry p none }
    else files

/-- The result of `bind`; an empty path is an abstract address, which needs no file. -/
def Files.bindRc (files : Files ι) (place : Option ι) (path : Bytes) (may : Bool) : ℤ :=
  if may = true ∧ (path = [] ∨ ∃ p ∈ place, files.entry p = none) then 0 else -1

/-- A `bind` that succeeds. -/
def Files.bind (files : Files ι) (place : Option ι) : Files ι :=
  match place with
  | none => files
  | some p => ⟨Function.update files.entry p (some .socket), some p⟩

/-- Code of `api_bindlisten`. -/
abbrev SocketProg (ι : Type) := Prog (Files ι) SocketCall Empty

/-- From the label `cleanup_and_fail` on. -/
def cleanupAndFail (env : SocketEnv ι) : SocketProg ι ℤ := do
  Prog.call (.close env.socket)
  return -1

/-- `api_bindlisten`, from `listen` on. -/
def listenSocket (env : SocketEnv ι) : SocketProg ι ℤ := do
  Prog.call (.listen env.socket env.listen)
  if env.listen < 0 then do
    Prog.call (.perror (bytes "api_bindlisten: listen"))
    cleanupAndFail env
  else return env.socket

/-- `api_bindlisten`, from `bind` on. -/
def bindSocket (env : SocketEnv ι) (apiSocket : Bytes) : SocketProg ι ℤ := do
  let files ← Prog.state
  let rc := files.bindRc (env.lookup .host apiSocket) apiSocket env.mayBind
  Prog.call (.bind env.socket apiSocket rc)
  if rc < 0 then do
    Prog.call (.perror (bytes "api_bindlisten: bind"))
    cleanupAndFail env
  else do
    Prog.update fun files => files.bind (env.lookup .host apiSocket)
    listenSocket env

/-- `api_bindlisten` -/
def apiBindlisten (env : SocketEnv ι) (apiSocket : Bytes) : SocketProg ι ℤ := do
  Prog.call (.unlink apiSocket)
  Prog.update fun files => files.unlink (env.lookup .host apiSocket) env.mayUnlink
  Prog.call (.socket env.socket)
  if env.socket < 0 then do
    Prog.call (.perror (bytes "api_bindlisten: socket"))
    cleanupAndFail env
  else if apiSocket.length ≥ sunPathSize then do
    Prog.call (.eprintf (bytes "the specified API socket path is too long (>= " ++
      decimal sunPathSize ++ bytes ")\n"))
    cleanupAndFail env
  else bindSocket env apiSocket

/-- The run of `api_bindlisten` on the files before it. -/
def SocketEnv.ran (env : SocketEnv ι) (apiSocket : Bytes) : Ran (Files ι) SocketCall Empty ℤ :=
  (apiBindlisten env apiSocket).run ⟨env.entry, none⟩

end

/-- The first `unlink` removes a file. -/
def SocketEnv.Removes {ι : Type} (env : SocketEnv ι) (apiSocket : Bytes) : Prop :=
  env.mayUnlink = true ∧ ∃ p ∈ env.lookup .host apiSocket,
    env.entry p ≠ none ∧ env.entry p ≠ some .directory

/-- The socket gets a file at this place. -/
structure SocketEnv.BindsAt {ι : Type} (env : SocketEnv ι) (apiSocket : Bytes) (p : ι) : Prop where
  socket : 0 ≤ env.socket
  length : apiSocket.length < sunPathSize
  mayBind : env.mayBind = true
  place : env.lookup .host apiSocket = some p
  free : env.entry p = none ∨ (env.mayUnlink = true ∧ env.entry p ≠ some .directory)

theorem cleanupAndFail_value {ι : Type} (env : SocketEnv ι) (files : Files ι) :
    ((cleanupAndFail env).run files).value < 0 :=
  show (-1 : ℤ) < 0 by decide

theorem listenSocket_run {ι : Type} {env : SocketEnv ι} (files : Files ι) (h : 0 ≤ env.socket) :
    ((listenSocket env).run files).st = files ∧
      (0 ≤ ((listenSocket env).run files).value ↔ 0 ≤ env.listen) := by
  unfold listenSocket
  rw [Prog.call_bind_run, Prog.ite_run]
  split
  · next hrc =>
    refine ⟨rfl, fun hvalue => absurd hvalue ?_, fun hle => absurd hle (Int.not_le.2 hrc)⟩
    exact Int.not_le.2 (cleanupAndFail_value env files)
  · next hrc => exact ⟨rfl, fun _ => Int.not_lt.1 hrc, fun _ => h⟩

section
variable {ι : Type} [DecidableEq ι] {env : SocketEnv ι} {apiSocket : Bytes} {p : ι}

/-- The files after the first `unlink`. -/
def SocketEnv.unlinked (env : SocketEnv ι) (apiSocket : Bytes) : Files ι :=
  (⟨env.entry, none⟩ : Files ι).unlink (env.lookup .host apiSocket) env.mayUnlink

/-- The place is free after it. -/
theorem SocketEnv.unlinked_entry (hplace : env.lookup .host apiSocket = some p) :
    (env.unlinked apiSocket).entry p = none ↔
      env.entry p = none ∨ (env.mayUnlink = true ∧ env.entry p ≠ some .directory) := by
  unfold unlinked Files.unlink
  rw [hplace]
  dsimp only
  split
  · next h => exact ⟨fun _ => .inr h, fun _ => Function.update_self p none env.entry⟩
  · next h => exact ⟨.inl, fun hfree => hfree.resolve_right h⟩

theorem SocketEnv.unlinked_bind (hplace : env.lookup .host apiSocket = some p) :
    (env.unlinked apiSocket).bind (some p) =
      ⟨Function.update env.entry p (some .socket), some p⟩ := by
  unfold unlinked Files.unlink Files.bind
  rw [hplace]
  dsimp only
  split
  · rw [Function.update_idem]
  · rfl

theorem Files.unlink_bound (files : Files ι) (place : Option ι) (may : Bool) :
    (files.unlink place may).bound = files.bound := by
  unfold unlink
  split
  · rfl
  · split <;> rfl

/-- A socket is removed from its own place only. -/
theorem Files.unlink_socket {files : Files ι} (h : files.entry p = some .socket)
    (place : Option ι) (may : Bool) :
    (files.unlink place may).entry p = none ↔ place = some p ∧ may = true := by
  have hstays : files.entry p ≠ none := by
    rw [h]
    exact nofun
  unfold unlink
  cases place with
  | none => exact ⟨fun hnone => absurd hnone hstays, fun hplace => nomatch hplace.1⟩
  | some q =>
    by_cases hq : q = p
    · subst hq
      have hdir : files.entry q ≠ some .directory := by
        rw [h]
        exact nofun
      cases may with
      | true =>
        dsimp only
        rw [if_pos ⟨rfl, hdir⟩]
        exact ⟨fun _ => ⟨rfl, rfl⟩, fun _ => Function.update_self q none files.entry⟩
      | false => exact ⟨fun hnone => absurd hnone hstays, fun hmay => nomatch hmay.2⟩
    · have hkeep : (if may = true ∧ files.entry q ≠ some .directory then
          { files with entry := Function.update files.entry q none } else files).entry p =
          files.entry p := by
        split
        · exact Function.update_of_ne (Ne.symm hq) none files.entry
        · rfl
      dsimp only
      rw [hkeep]
      exact ⟨fun hnone => absurd hnone hstays, fun hplace => absurd (Option.some.inj hplace.1) hq⟩

theorem SocketEnv.unlinked_bound : (env.unlinked apiSocket).bound = none :=
  Files.unlink_bound _ _ _

/-- The first `unlink` leaves the files as they are if it removes none. -/
theorem SocketEnv.unlinked_eq_iff :
    (env.unlinked apiSocket).entry = env.entry ↔ ¬ env.Removes apiSocket := by
  unfold unlinked Files.unlink Removes
  cases hplace : env.lookup .host apiSocket with
  | none => exact ⟨fun _ h => (nomatch h.2), fun _ => rfl⟩
  | some p =>
    dsimp only
    split
    · next h =>
      show Function.update env.entry p none = env.entry ↔ _
      rw [Function.update_eq_self_iff]
      constructor
      · rintro hnone ⟨-, q, hq, hentry, -⟩
        cases hq
        exact hentry hnone.symm
      · intro hnot
        by_contra hentry
        exact hnot ⟨h.1, p, rfl, fun hnone => hentry hnone.symm, h.2⟩
    · next h =>
      refine ⟨fun _ => ?_, fun _ => rfl⟩
      rintro ⟨hmay, q, hq, -, hdir⟩
      cases hq
      exact h ⟨hmay, hdir⟩

theorem bindSocket_run {files : Files ι}
    (h : files.bindRc (env.lookup .host apiSocket) apiSocket env.mayBind = 0) :
    ∃ cs, (bindSocket env apiSocket).run files =
      ((listenSocket env).run (files.bind (env.lookup .host apiSocket))).after cs := by
  unfold bindSocket
  rw [Prog.state_bind_run, h, Prog.call_bind_run]
  exact ⟨_, rfl⟩

theorem bindSocket_fails {files : Files ι}
    (h : files.bindRc (env.lookup .host apiSocket) apiSocket env.mayBind = -1) :
    ((bindSocket env apiSocket).run files).st = files ∧
      ((bindSocket env apiSocket).run files).value < 0 := by
  unfold bindSocket
  rw [Prog.state_bind_run, h, Prog.call_bind_run]
  exact ⟨rfl, cleanupAndFail_value env files⟩

/-- **`api_bindlisten`**: the socket gets its file, or nothing is bound to a path and it fails. -/
theorem SocketEnv.ran_cases (env : SocketEnv ι) (apiSocket : Bytes) :
    (∃ p, env.BindsAt apiSocket p ∧
      (env.ran apiSocket).st = ⟨Function.update env.entry p (some .socket), some p⟩ ∧
      (0 ≤ (env.ran apiSocket).value ↔ 0 ≤ env.listen)) ∨
    ((∀ p, ¬ env.BindsAt apiSocket p) ∧ (env.ran apiSocket).st = env.unlinked apiSocket ∧
      (apiSocket ≠ [] → (env.ran apiSocket).value < 0)) := by
  unfold ran apiBindlisten
  simp only [Prog.call_bind_run, Prog.update_bind_run, Prog.ite_run]
  split
  · next h =>
    refine .inr ⟨fun p hp => absurd hp.socket (Int.not_le.2 h), rfl, fun _ => ?_⟩
    exact cleanupAndFail_value env (env.unlinked apiSocket)
  · next hsocket =>
    split
    · next h =>
      refine .inr ⟨fun p hp => absurd hp.length (Nat.not_lt.2 h), rfl, fun _ => ?_⟩
      exact cleanupAndFail_value env (env.unlinked apiSocket)
    · next hlength =>
      have hsocket' : 0 ≤ env.socket := Int.not_lt.1 hsocket
      show (∃ p, _ ∧ ((bindSocket env apiSocket).run (env.unlinked apiSocket)).st = _ ∧
        (0 ≤ ((bindSocket env apiSocket).run (env.unlinked apiSocket)).value ↔ _)) ∨
        _ ∧ ((bindSocket env apiSocket).run (env.unlinked apiSocket)).st = _ ∧
        (_ → ((bindSocket env apiSocket).run (env.unlinked apiSocket)).value < 0)
      by_cases hbind : env.mayBind = true ∧ (apiSocket = [] ∨
          ∃ p ∈ env.lookup .host apiSocket, (env.unlinked apiSocket).entry p = none)
      · obtain ⟨cs, hrun⟩ := @bindSocket_run ι _ env apiSocket (env.unlinked apiSocket)
          (if_pos hbind)
        rw [hrun]
        cases hplace : env.lookup .host apiSocket with
        | none =>
          refine .inr ⟨fun p hp => ?_, (listenSocket_run _ hsocket').1, fun hne => ?_⟩
          · rw [hp.place] at hplace
            cases hplace
          · obtain ⟨p, hp, -⟩ := hbind.2.resolve_left hne
            rw [hplace] at hp
            cases hp
        | some p =>
          obtain ⟨hst, hvalue⟩ := listenSocket_run ((env.unlinked apiSocket).bind (some p)) hsocket'
          refine .inl ⟨p, ⟨hsocket', Nat.not_le.1 hlength, hbind.1, hplace, ?_⟩,
            hst.trans (unlinked_bind hplace), hvalue⟩
          rcases hbind.2 with hnil | ⟨q, hq, hfree⟩
          · rw [hnil, env.lookup_nil] at hplace
            cases hplace
          · obtain rfl : p = q := Option.some.inj (hplace.symm.trans hq)
            exact (unlinked_entry hplace).1 hfree
      · obtain ⟨hst, hvalue⟩ := @bindSocket_fails ι _ env apiSocket (env.unlinked apiSocket)
          (if_neg hbind)
        refine .inr ⟨fun p hp => hbind ⟨hp.mayBind, .inr ⟨p, hp.place, ?_⟩⟩, hst, fun _ => hvalue⟩
        exact (unlinked_entry hp.place).2 hp.free

/-- A failure before the socket is bound leaves the files as they are. -/
def SocketEnv.FailsClean (env : SocketEnv ι) (apiSocket : Bytes) : Prop :=
  (env.ran apiSocket).value < 0 → (env.ran apiSocket).st.bound = none →
    (env.ran apiSocket).st.entry = env.entry

theorem SocketEnv.failsClean_iff :
    env.FailsClean apiSocket ↔ (∃ p, env.BindsAt apiSocket p) ∨ ¬ env.Removes apiSocket := by
  unfold FailsClean
  rcases env.ran_cases apiSocket with ⟨p, hp, hst, -⟩ | ⟨hnot, hst, hvalue⟩
  · rw [hst]
    exact ⟨fun _ => .inl ⟨p, hp⟩, fun _ _ => nofun⟩
  · rw [hst, unlinked_eq_iff]
    constructor
    · intro hclean
      refine .inr fun hremoves => ?_
      have hne : apiSocket ≠ [] := by
        rintro rfl
        obtain ⟨-, p, hp, -⟩ := hremoves
        rw [env.lookup_nil] at hp
        cases hp
      exact hclean (hvalue hne) unlinked_bound hremoves
    · rintro (⟨p, hp⟩ | hnot') _ _
      · exact absurd hp (hnot p)
      · exact hnot'

end

/-! ## The acts of `do_slirp` on files -/

variable {L : Libslirp}

/-- The acts that read or change directories. -/
def Act.OfFile : Act → Bool
  | apiBindlisten _ => true
  | createSandbox _ => true
  | unlink _ => true
  | _ => false

/-- The acts that change files. -/
def fileActs (es : List Act) : List Act := es.filter Act.OfFile

/-- The acts on files so far, and whether there is an API context. -/
def At (acts : List Act) (ctx : Bool) (es : List Act) (s : SlirpState L) : Prop :=
  fileActs es = acts ∧ s.apictx.isSome = ctx

theorem Act.OfLoop.not_file {e : Act} (h : e.OfLoop) : e.OfFile = false := by
  cases e <;> first | rfl | exact h.elim

section
variable {acts : List Act} {ctx : Bool} {args : Args} {env : Startup}

theorem At.call {e : Act} (he : e.OfFile = false) {E : End → List Act → SlirpState L → Prop} :
    Prog.Triple (At acts ctx) (Prog.call e : SlirpProg L Unit) (fun _ => At acts ctx) E := by
  refine .call fun es s h => ⟨?_, h.2⟩
  rw [fileActs, List.filter_append, List.filter_singleton, he]
  exact (List.append_nil _).trans h.1

/-- An act on files. -/
theorem At.file {e : Act} (he : e.OfFile = true) {E : End → List Act → SlirpState L → Prop} :
    Prog.Triple (At acts ctx) (Prog.call e : SlirpProg L Unit) (fun _ => At (acts ++ [e]) ctx)
      E := by
  refine .call fun es s h => ⟨?_, h.2⟩
  rw [fileActs, List.filter_append, List.filter_singleton, he]
  exact congrArg (· ++ [e]) h.1

theorem At.eprintf (text : Bytes) {E : End → List Act → SlirpState L → Prop} :
    Prog.Triple (At acts ctx) (eprintf text : SlirpProg L Unit) (fun _ => At acts ctx) E :=
  At.call rfl

theorem At.update {f : SlirpState L → SlirpState L} (hf : ∀ s, (f s).apictx = s.apictx)
    {E : End → List Act → SlirpState L → Prop} :
    Prog.Triple (At acts ctx) (Prog.update f) (fun _ => At acts ctx) E :=
  .update fun _ s h => ⟨h.1, (congrArg Option.isSome (hf s)).trans h.2⟩

theorem At.keeps {α : Type} {p : SlirpProg L α}
    (h : Prog.Keeps (fun s => s.apictx.isSome) (fun e => e.OfFile = false) p) :
    Prog.Triple (At acts ctx) p (fun _ => At acts ctx) fun _ _ _ => True := by
  intro es s hs
  have hnone : fileActs (p.run s).calls = [] :=
    List.filter_eq_nil_iff.2 fun e he => by rw [h.calls s e he]; exact Bool.false_ne_true
  have hend : At acts ctx (es ++ (p.run s).calls) (p.run s).st := by
    refine ⟨?_, (h.same s).trans hs.2⟩
    rw [fileActs, List.filter_append]
    exact (congrArg₂ (· ++ ·) hs.1 hnone).trans (List.append_nil _)
  split
  · exact hend
  · trivial

/-- Code of the loop does nothing to files. -/
theorem KeepsCtx.at {α : Type} {p : SlirpProg L α} (h : KeepsCtx p) :
    Prog.Triple (At acts ctx) p (fun _ => At acts ctx) fun _ _ _ => True :=
  At.keeps ⟨h.same, h.calls.mono fun _ => Act.OfLoop.not_file⟩

/-- The next step, unless one that gives `ok` fails. -/
theorem unlessErr_at {ok : Bool} {p q : SlirpProg L Bool} {I J K : List Act → SlirpState L → Prop}
    (hp : Prog.Triple I p (fun b es s => b = ok ∧ J es s) fun _ _ _ => True)
    (hq : ok = true → Prog.Triple J q (fun _ => K) fun _ _ _ => True)
    (hfail : ok = false → ∀ es s, J es s → K es s) :
    Prog.Triple I (unlessErr p q) (fun _ => K) fun _ _ _ => True := by
  refine .bind hp fun b => .fact ?_
  rintro rfl
  cases b with
  | true => exact hq rfl
  | false => exact .pure (hfail rfl)

theorem createSlirp_at : Prog.Triple (At acts ctx) (createSlirp (L := L) env)
    (fun b es s => b = env.slirpNew ∧ At acts ctx es s) fun _ _ _ => True :=
  .bind (At.keeps (onData_keeps (fun _ _ => rfl) (fun _ => rfl) _)) fun _ =>
    .bind (At.call rfl) fun _ => .bind (.when (At.eprintf _)) fun _ => .bind (.when (At.eprintf _)) fun _ => .pure fun _ _ h => ⟨rfl, h⟩

theorem mallocBuf_at : Prog.Triple (At acts ctx) (mallocBuf (L := L) env)
    (fun b es s => b = env.malloc ∧ At acts ctx es s) fun _ _ _ => True :=
  .bind (At.call rfl) fun _ => .bind (At.update (by intro _; rfl)) fun _ =>
    .pure fun _ _ h => ⟨rfl, h⟩

theorem addFixedFds_at : Prog.Triple (At acts ctx) (addFixedFds (L := L) args)
    (fun b es s => b = true ∧ At acts ctx es s) fun _ _ _ => True :=
  .bind (At.update (by intro _; rfl)) fun _ => .bind (.when (At.update (by intro _; rfl))) fun _ =>
    .pure fun _ _ h => ⟨rfl, h⟩

/-- `create_sandbox`, if it was asked for. -/
def sandboxActs (args : Args) (env : Startup) : List Act :=
  if args.cfg.enableSandbox then [.createSandbox env.createSandbox] else []

/-- The startup, after the API socket. -/
theorem lockdown_at : Prog.Triple (At acts ctx)
    (unlessErr (L := L) ignoreSigpipe (unlessErr (sandboxStep args env) (seccompStep args env)))
    (fun _ => At (acts ++ sandboxActs args env) ctx) fun _ _ _ => True := by
  have hsandbox : Prog.Triple (At acts ctx) (sandboxStep (L := L) args env)
      (fun _ => At (acts ++ sandboxActs args env) ctx) fun _ _ _ => True := by
    unfold sandboxStep sandboxActs
    split
    · exact .bind (At.file rfl) fun _ => .bind (.when (At.eprintf _)) fun _ => .pure fun _ _ h => h
    · rw [List.append_nil]
      exact .pure fun _ _ h => h
  have hseccomp {acts : List Act} : Prog.Triple (At acts ctx) (seccompStep (L := L) args env)
      (fun _ => At acts ctx) fun _ _ _ => True := by
    refine .ite (fun _ => ?_) fun _ => .pure fun _ _ h => h
    refine .bind (At.keeps (enableSeccomp_keeps (fun _ => rfl) (fun _ => rfl) _)) fun rc => ?_
    exact .bind (At.call rfl) fun _ => .bind (.when (At.eprintf _)) fun _ => .pure fun _ _ h => h
  have hsignal : Prog.Triple (At acts ctx) (ignoreSigpipe (L := L))
      (fun b es s => b = true ∧ At acts ctx es s) fun _ _ _ => True :=
    .bind (At.call rfl) fun _ => .pure fun _ _ h => ⟨rfl, h⟩
  refine unlessErr_at hsignal (fun _ => ?_) fun h => Bool.noConfusion h
  refine .bind hsandbox fun b => ?_
  cases b with
  | true => exact hseccomp
  | false => exact .pure fun _ _ h => h

/-- There is an API context after the startup. -/
def HasCtx (args : Args) (env : Startup) : Prop :=
  args.apiSocket.isSome = true ∧ 0 ≤ env.apiBindlisten ∧ env.apiCtxAlloc.isSome = true

instance (args : Args) (env : Startup) : Decidable (HasCtx args env) :=
  inferInstanceAs (Decidable (_ ∧ _))

/-- The acts on files from the API socket on, up to the loop. -/
def apiActs (args : Args) (env : Startup) : List Act :=
  if args.apiSocket.isSome then
    .apiBindlisten env.apiBindlisten :: if HasCtx args env then sandboxActs args env else []
  else sandboxActs args env

theorem allocApiCtx_at : Prog.Triple (At acts false) (allocApiCtx (L := L) args env)
    (fun b es s => b = env.apiCtxAlloc.isSome ∧ At acts b es s) fun _ _ _ => True := by
  unfold allocApiCtx
  split
  · next hctx =>
    rw [hctx]
    exact .bind (At.call rfl) fun _ => .bind (At.eprintf _) fun _ => .pure fun _ _ h => ⟨rfl, h⟩
  · next contents hctx =>
    rw [hctx]
    refine .bind (At.call rfl) fun _ => .bind (Q := fun _ => At acts true) ?_ fun _ =>
      .pure fun _ _ h => ⟨rfl, h⟩
    exact .update fun _ s h => ⟨h.1, rfl⟩

theorem openApi_at (hsocket : args.apiSocket.isSome = true) :
    Prog.Triple (At acts false) (openApi (L := L) args env)
      (fun b es s => b = decide (HasCtx args env) ∧
        At (acts ++ [.apiBindlisten env.apiBindlisten]) b es s) fun _ _ _ => True := by
  unfold openApi
  rw [if_pos hsocket]
  refine .bind (At.file rfl) fun _ => .ite (fun hrc => .pure fun es s h => ?_) fun hrc => ?_
  · have hnot : ¬ HasCtx args env := fun hctx => absurd hctx.2.1 (Int.not_le.2 hrc)
    exact ⟨(decide_eq_false hnot).symm, h⟩
  · refine allocApiCtx_at.conseq (fun _ _ h => h) fun b es s h => ⟨?_, h.2⟩
    have hctx : HasCtx args env ↔ env.apiCtxAlloc.isSome = true :=
      ⟨fun h => h.2.2, fun h => ⟨hsocket, Int.not_lt.1 hrc, h⟩⟩
    rw [h.1]
    simp only [hctx, Bool.decide_eq_true]

theorem api_at : Prog.Triple (At [] false)
    (unlessErr (L := L) (openApi args env) (unlessErr ignoreSigpipe
      (unlessErr (sandboxStep args env) (seccompStep args env))))
    (fun _ => At (apiActs args env) (decide (HasCtx args env))) fun _ _ _ => True := by
  unfold apiActs
  by_cases hsocket : args.apiSocket.isSome = true
  · rw [if_pos hsocket]
    refine .bind (openApi_at hsocket) fun b => .fact ?_
    rintro rfl
    by_cases hctx : HasCtx args env
    · rw [decide_eq_true hctx, if_pos hctx]
      exact lockdown_at
    · rw [decide_eq_false hctx, if_neg hctx]
      exact .pure fun _ _ h => h
  · have hnot : ¬ HasCtx args env := fun h => hsocket h.1
    have hopen : Prog.Triple (At [] false) (openApi (L := L) args env)
        (fun b es s => b = true ∧ At [] false es s) fun _ _ _ => True := by
      unfold openApi
      rw [if_neg hsocket]
      exact .pure fun _ _ h => ⟨rfl, h⟩
    rw [if_neg hsocket, decide_eq_false hnot]
    exact unlessErr_at hopen (fun _ => lockdown_at) nofun

/-- The startup gets to the API socket. -/
def Startup.Begun (env : Startup) : Prop := env.slirpNew = true ∧ env.malloc = true

instance (env : Startup) : Decidable env.Begun := inferInstanceAs (Decidable (_ ∧ _))

theorem startup_at : Prog.Triple (At [] false) (startup (L := L) args env)
    (fun _ => At (if env.Begun then apiActs args env else [])
      (decide (env.Begun ∧ HasCtx args env))) fun _ _ _ => True := by
  have hstop (h : ¬ env.Begun) (es : List Act) (s : SlirpState L) (hs : At [] false es s) :
      At (if env.Begun then apiActs args env else []) (decide (env.Begun ∧ HasCtx args env))
        es s := by
    rw [if_neg h, decide_eq_false fun hctx => h hctx.1]
    exact hs
  refine unlessErr_at createSlirp_at (fun hslirp => ?_) fun hslirp => hstop fun h => ?_
  · refine unlessErr_at mallocBuf_at (fun hmalloc => ?_) fun hmalloc => hstop fun h => ?_
    · refine unlessErr_at addFixedFds_at (fun _ => ?_) nofun
      have hbegun : env.Begun := ⟨hslirp, hmalloc⟩
      simp only [hbegun, true_and]
      exact api_at
    · exact Bool.false_ne_true (hmalloc.symm.trans h.2)
  · exact Bool.false_ne_true (hslirp.symm.trans h.1)

/-- The file of the socket is unlinked if there is an API context. -/
theorem exiting_at (ret : ℤ) : Prog.Triple (At acts ctx) (exiting (L := L) args ret)
    (fun _ es _ => fileActs es = acts ++ if ctx then [.unlink (args.apiSocket.getD [])] else [])
    fun _ _ _ => True := by
  refine .bind (At.eprintf _) fun _ => .state_bind fun s₀ => ?_
  have hctx : ∀ es s, At acts ctx es s ∧ s = s₀ → s₀.apictx.isSome = ctx ∧ At acts ctx es s := by
    rintro es s ⟨h, rfl⟩
    exact ⟨h.2, h⟩
  refine .conseq (.fact fun hctx => ?_) hctx fun _ _ _ h => h
  rw [hctx]
  cases ctx with
  | true =>
    refine .bind (.when (At.call rfl)) fun _ =>
      .bind (.bind (At.call rfl) fun _ => At.file rfl) fun _ => ?_
    exact .bind (At.call rfl) fun _ => .pure fun _ _ h => h.1
  | false =>
    refine .bind (.when (At.call rfl)) fun _ => .bind (Q := fun _ => At acts false)
      (.pure fun _ _ h => h) fun _ => ?_
    exact .bind (At.call rfl) fun _ => .pure fun _ _ h => h.1.trans (List.append_nil _).symm

/-- The acts on files of a run that returns. -/
def allFileActs (args : Args) (env : Startup) : List Act :=
  if env.Begun then
    apiActs args env ++ if HasCtx args env then [.unlink (args.apiSocket.getD [])] else []
  else []

theorem doSlirp_at (C : Libc) (ticks : List Tick) :
    Prog.Triple (At [] false) (doSlirp (L := L) C args env ticks)
      (fun _ es _ => fileActs es = allFileActs args env) fun _ _ _ => True := by
  have hserve {acts : List Act} {ctx : Bool} : Prog.Triple (At acts ctx)
      (serveLoop (L := L) C args env ticks) (fun _ => At acts ctx) fun _ _ _ => True := by
    refine .bind (.when (.bind (At.keeps (retry_keeps ?_ (fun _ => ?_) _)) fun _ => At.call rfl))
      fun _ => (loop_keeps C ticks).at <;> rfl
  have hacts : allFileActs args env = (if env.Begun then apiActs args env else []) ++
      if decide (env.Begun ∧ HasCtx args env) then [.unlink (args.apiSocket.getD [])] else [] := by
    unfold allFileActs
    by_cases hbegun : env.Begun <;> simp [hbegun]
  refine .bind startup_at fun b => ?_
  rw [hacts]
  cases b with
  | true => exact .bind hserve fun ret => exiting_at ret
  | false => exact exiting_at (-1)

/-- **A run of `do_slirp` that returns** makes the socket if the startup gets there, sets up the
    sandbox if nothing failed until then, and unlinks the path if it has an API context. -/
theorem doSlirp_fileActs {C : Libc} {ticks : List Tick} {slirp : L.State} {ret : ℤ}
    (h : ((doSlirp C args env ticks).run (.init slirp)).out = .ret ret) :
    fileActs ((doSlirp C args env ticks).run (.init slirp)).calls = allFileActs args env := by
  have hrun := @doSlirp_at L args env C ticks [] (.init slirp) ⟨rfl, rfl⟩
  rw [h] at hrun
  exact hrun

end

/-! ## The files after a run -/

/-- What the acts on files depend on. -/
structure FileEnv (ι : Type) where
  socket : SocketEnv ι
  sandbox : SandboxEnv
  /-- the mounts before `create_sandbox` -/
  kernel : Kernel

/-- The files, and the view that the process has of them. -/
structure Scene (ι : Type) where
  files : Files ι
  view : View

section
variable {ι : Type} [DecidableEq ι]

/-- What an act does to the files and to the way in which paths are resolved. -/
def Scene.act (env : FileEnv ι) (apiSocket : Bytes) (scene : Scene ι) : Act → Scene ι
  | .apiBindlisten _ =>
    { scene with files := ((apiBindlisten env.socket apiSocket).run scene.files).st }
  | .createSandbox _ =>
    { scene with view := viewAfter (createSandbox env.sandbox) env.kernel scene.view }
  | .unlink path =>
    let place := env.socket.lookup scene.view path
    { scene with files := scene.files.unlink place env.socket.mayUnlinkAtExit }
  | _ => scene

/-- The files after the acts of a run. -/
def filesAfter (env : FileEnv ι) (apiSocket : Bytes) (es : List Act) : Files ι :=
  (es.foldl (Scene.act env apiSocket) ⟨⟨env.socket.entry, none⟩, .host⟩).files

theorem filesAfter_fileActs (env : FileEnv ι) (apiSocket : Bytes) (es : List Act) :
    filesAfter env apiSocket (fileActs es) = filesAfter env apiSocket es := by
  unfold filesAfter fileActs
  rw [List.foldl_filter]
  congr 2
  funext scene e
  cases e <;> rfl

/-- The results of the two functions, as `do_slirp` sees them. -/
def FileEnv.startup (env : FileEnv ι) (apiSocket : Bytes) (start : Startup) : Startup :=
  { start with
    apiBindlisten := (env.socket.ran apiSocket).value
    createSandbox := ((createSandbox env.sandbox).run env.kernel).value }

/-- The arguments of `do_slirp` with this API socket. -/
def Args.withSocket (args : Args) (apiSocket : Bytes) : Args :=
  { args with apiSocket := some apiSocket }

/-- How paths are resolved when the socket is to be removed. -/
def FileEnv.exitView (env : FileEnv ι) (args : Args) : View :=
  if args.cfg.enableSandbox then env.sandbox.view else .host

/-- The files after any run that returns. -/
def FileEnv.finalFiles (env : FileEnv ι) (apiSocket : Bytes) (args : Args) (start : Startup) :
    Files ι :=
  if start.Begun then
    if 0 ≤ (env.socket.ran apiSocket).value ∧ start.apiCtxAlloc.isSome = true then
      (env.socket.ran apiSocket).st.unlink (env.socket.lookup (env.exitView args) apiSocket)
        env.socket.mayUnlinkAtExit
    else (env.socket.ran apiSocket).st
  else ⟨env.socket.entry, none⟩

theorem filesAfter_allFileActs (env : FileEnv ι) (apiSocket : Bytes) (args : Args)
    (start : Startup) :
    filesAfter env apiSocket (allFileActs (args.withSocket apiSocket)
      (env.startup apiSocket start)) = env.finalFiles apiSocket args start := by
  unfold allFileActs FileEnv.finalFiles
  by_cases hbegun : start.Begun
  · have hbegun' : (env.startup apiSocket start).Begun := hbegun
    have hsocket : (args.withSocket apiSocket).apiSocket.isSome = true := rfl
    rw [if_pos hbegun, if_pos hbegun', apiActs, if_pos hsocket]
    by_cases hctx : HasCtx (args.withSocket apiSocket) (env.startup apiSocket start)
    · have hctx' : 0 ≤ (env.socket.ran apiSocket).value ∧ start.apiCtxAlloc.isSome = true := hctx.2
      rw [if_pos hctx, if_pos hctx, if_pos hctx']
      unfold sandboxActs FileEnv.exitView
      by_cases hsandbox : args.cfg.enableSandbox = true
      · have hsandbox' : (args.withSocket apiSocket).cfg.enableSandbox = true := hsandbox
        rw [if_pos hsandbox, if_pos hsandbox', ← createSandbox_view env.sandbox env.kernel]
        rfl
      · have hsandbox' : ¬ (args.withSocket apiSocket).cfg.enableSandbox = true := hsandbox
        rw [if_neg hsandbox, if_neg hsandbox']
        rfl
    · have hctx' : ¬ (0 ≤ (env.socket.ran apiSocket).value ∧ start.apiCtxAlloc.isSome = true) :=
        fun h => hctx ⟨rfl, h⟩
      rw [if_neg hctx, if_neg hctx, if_neg hctx']
      rfl
  · have hbegun' : ¬ (env.startup apiSocket start).Begun := hbegun
    rw [if_neg hbegun, if_neg hbegun']
    rfl

end

/-! ## A run that returns -/

/-- The first `g_poll` fails. -/
def failedTick : Tick := { sampleTick with poll := ⟨0, some .failed⟩ }

/-- Code that does not touch the timers. -/
abbrev KeepsData {α : Type} (p : SlirpProg L α) : Prop :=
  Prog.Keeps SlirpState.data (fun _ => True) p

section
variable {args : Args} {env : Startup}

theorem startup_keepsData (h : env.slirpNewCbs = []) : KeepsData (startup (L := L) args env) := by
  have hunless {p q : SlirpProg L Bool} (hp : KeepsData p) (hq : KeepsData q) :
      KeepsData (unlessErr p q) := .bind hp fun _ => .ite hq (.pure _)
  have hcall (e : Act) : KeepsData (Prog.call e : SlirpProg L Unit) := .call trivial
  have hslirp : KeepsData (createSlirp (L := L) env) := by
    unfold createSlirp
    rw [h]
    exact .bind ⟨fun _ => rfl, .lift fun _ _ _ => trivial⟩ fun _ => .bind (hcall _) fun _ =>
      .bind (.when (hcall _)) fun _ => .bind (.when (hcall _)) fun _ => .pure _
  have hapi : KeepsData (openApi (L := L) args env) := by
    refine .ite (.bind (hcall _) fun _ => .ite (.pure _) ?_) (.pure _)
    unfold allocApiCtx
    split
    · exact .bind (hcall _) fun _ => .bind (hcall _) fun _ => .pure _
    · exact .bind (hcall _) fun _ => .bind (.update fun _ => rfl) fun _ => .pure _
  have hsandbox : KeepsData (sandboxStep (L := L) args env) :=
    .ite (.bind (hcall _) fun _ => .bind (.when (hcall _)) fun _ => .pure _) (.pure _)
  have hseccomp : KeepsData (seccompStep (L := L) args env) :=
    .ite (.bind (enableSeccomp_keeps (fun _ => trivial) (fun _ => trivial) _) fun _ =>
      .bind (hcall _) fun _ => .bind (.when (hcall _)) fun _ => .pure _) (.pure _)
  have hfixed : KeepsData (addFixedFds (L := L) args) :=
    .bind (.update fun _ => rfl) fun _ => .bind (.when (.update fun _ => rfl)) fun _ => .pure _
  have hmalloc : KeepsData (mallocBuf (L := L) env) :=
    .bind (hcall _) fun _ => .bind (.update fun _ => rfl) fun _ => .pure _
  exact hunless hslirp <| hunless hmalloc <| hunless hfixed <| hunless hapi <|
    hunless (.bind (hcall _) fun _ => .pure _) <| hunless hsandbox hseccomp

/-- Nothing was done with timers. -/
def NoTimers (_ : List Act) (s : SlirpState L) : Prop := s.data = LibslirpData.init

theorem turn_failed (C : Libc) {s : SlirpState L} (h : s.data = LibslirpData.init) :
    ((turn C failedTick).run s).out = .ret (some (-1)) := by
  rcases s with ⟨data, slirp, apictx, buf, pollfds, nFds, exitIdx, apiIdx⟩
  obtain rfl : data = LibslirpData.init := h
  rfl

/-- The whole run, if the report is delivered. -/
theorem doSlirp_failed (C : Libc) (hcbs : env.slirpNewCbs = []) (hready : env.ready = ⟨0, some 1⟩)
    (slirp : L.State) :
    ∃ ret, ((doSlirp C args env [failedTick]).run (.init slirp)).out = .ret ret := by
  have hstart : Starting args [] [] :=
    ⟨⟨.nil, fun _ _ => List.not_mem_nil⟩, List.not_mem_nil, fun _ h => h⟩
  have hstartup : Prog.Triple (fun es s => es = [] ∧ NoTimers es s) (startup (L := L) args env)
      (fun _ => NoTimers) fun _ _ _ => False := by
    rintro es s ⟨rfl, hs⟩
    have hsame := (@startup_keepsData L args env hcbs).same s
    have hrun := @startup_triple L args env [] s hstart
    split at hrun
    · exact hsame.trans hs
    · exact hrun.elim
  have hsignal : Prog.Triple NoTimers (signalReady (L := L) args env) (fun _ => NoTimers)
      fun _ _ _ => False := by
    unfold signalReady retry
    rw [hready]
    refine .when (.bind (Q := fun _ => NoTimers) (.bind (Q := fun _ => NoTimers)
      (.pure fun _ _ h => h) fun _ => ?_) fun _ => .call fun _ _ h => h)
    exact .bind (Q := fun _ => NoTimers) (.call fun _ _ h => h) fun _ => .pure fun _ _ h => h
  have hloop : Prog.Triple NoTimers (loop (L := L) C [failedTick]) (fun _ _ _ => True)
      fun _ _ _ => False := by
    intro es s hs
    rw [loop, Prog.bind_run, Prog.andThen, turn_failed C hs]
    trivial
  have hexit (ret : ℤ) : Prog.Triple (fun _ _ => True) (exiting (L := L) args ret)
      (fun _ _ _ => True) fun _ _ _ => False :=
    (exiting_triple (I := fun _ => True) (fun _ _ _ _ => trivial) ret).conseq (fun _ _ h => h)
      fun _ _ _ _ => trivial
  have hall : Prog.Triple (fun es s => es = [] ∧ NoTimers es s)
      (doSlirp (L := L) C args env [failedTick]) (fun _ _ _ => True) fun _ _ _ => False := by
    refine .bind hstartup fun b => .ite (fun _ => ?_) fun _ => ?_
    · exact .bind (.bind hsignal fun _ => hloop) fun ret => hexit ret
    · exact (hexit (-1)).conseq (fun _ _ _ => trivial) fun _ _ _ h => h
  have hrun := hall [] (.init slirp) ⟨rfl, rfl⟩
  split at hrun
  · next ret hret => exact ⟨ret, hret⟩
  · exact hrun.elim

end

/-! ## The file of the socket -/

section
variable {ι : Type} [DecidableEq ι]

/-- The same outcomes up to the sandbox, with others elsewhere. -/
def Startup.vary (start : Startup) (slirpNewCbs : List SlirpCb) (seccomp : SeccompEnv)
    (ready : Retried ℤ) : Startup :=
  { start with slirpNewCbs := slirpNewCbs, seccomp := seccomp, ready := ready }

/-- On every run that returns, the file that `bind` made is gone. -/
def SocketRemoved (C : Libc) (args : Args) (start : Startup) (slirp : L.State) (env : FileEnv ι)
    (apiSocket : Bytes) : Prop :=
  ∀ slirpNewCbs seccomp ready ticks ret,
    let start := start.vary slirpNewCbs seccomp ready
    let ran := (doSlirp C (args.withSocket apiSocket) (env.startup apiSocket start) ticks).run
      (SlirpState.init slirp)
    ran.out = .ret ret → ∀ p, (filesAfter env apiSocket ran.calls).bound = some p →
      (filesAfter env apiSocket ran.calls).entry p = none

variable {C : Libc} {args : Args} {start : Startup} {slirp : L.State} {env : FileEnv ι}
  {apiSocket : Bytes}

/-- The files after a run that returns. -/
theorem filesAfter_doSlirp {ticks : List Tick} {ret : ℤ}
    (h : ((doSlirp C (args.withSocket apiSocket) (env.startup apiSocket start) ticks).run
      (.init slirp)).out = .ret ret) :
    filesAfter env apiSocket ((doSlirp C (args.withSocket apiSocket)
      (env.startup apiSocket start) ticks).run (.init slirp)).calls =
      env.finalFiles apiSocket args start := by
  rw [← filesAfter_fileActs, doSlirp_fileActs h, filesAfter_allFileActs]

/-- It is enough to look at one of them. -/
theorem socketRemoved_iff : SocketRemoved C args start slirp env apiSocket ↔
    ∀ p, (env.finalFiles apiSocket args start).bound = some p →
      (env.finalFiles apiSocket args start).entry p = none := by
  constructor
  · intro h
    obtain ⟨ret, hret⟩ := @doSlirp_failed L (args.withSocket apiSocket)
      (env.startup apiSocket (start.vary [] sampleStartup.seccomp ⟨0, some 1⟩)) C rfl rfl slirp
    have hremoved := h [] sampleStartup.seccomp ⟨0, some 1⟩ [failedTick] ret hret
    rw [filesAfter_doSlirp hret] at hremoved
    exact hremoved
  · intro h slirpNewCbs seccomp ready ticks ret start' ran hret
    rw [filesAfter_doSlirp hret]
    exact h

/-- What has to go right for the file to be removed from `p`. -/
structure Removable (args : Args) (start : Startup) (env : FileEnv ι) (apiSocket : Bytes) (p : ι) :
    Prop where
  listen : 0 ≤ env.socket.listen
  ctx : start.apiCtxAlloc.isSome = true
  place : env.socket.lookup (env.exitView args) apiSocket = some p
  unlink : env.socket.mayUnlinkAtExit = true

theorem finalFiles_of_bindsAt (hbegun : start.Begun) {p : ι} (hp : env.socket.BindsAt apiSocket p) :
    (env.finalFiles apiSocket args start).bound = some p ∧
      ((env.finalFiles apiSocket args start).entry p = none ↔
        Removable args start env apiSocket p) := by
  rcases env.socket.ran_cases apiSocket with ⟨q, hq, hst, hvalue⟩ | ⟨hnot, -⟩
  · obtain rfl : p = q := Option.some.inj (hp.place.symm.trans hq.place)
    have hentry : (env.socket.ran apiSocket).st.entry p = some .socket := by
      rw [hst]
      exact Function.update_self p (some .socket) env.socket.entry
    unfold FileEnv.finalFiles
    rw [if_pos hbegun]
    split
    · next hctx =>
      rw [Files.unlink_bound, Files.unlink_socket hentry, hst]
      refine ⟨rfl, fun h => ?_, fun h => ⟨h.place, h.unlink⟩⟩
      exact ⟨hvalue.1 hctx.1, hctx.2, h.1, h.2⟩
    · next hctx =>
      rw [hentry, hst]
      refine ⟨rfl, nofun, fun h => ?_⟩
      exact absurd ⟨hvalue.2 h.listen, h.ctx⟩ hctx
  · exact absurd hp (hnot p)

/-- Nothing else is bound. -/
theorem bindsAt_of_finalFiles {p : ι} (h : (env.finalFiles apiSocket args start).bound = some p) :
    start.Begun ∧ env.socket.BindsAt apiSocket p := by
  unfold FileEnv.finalFiles at h
  split at h
  · next hbegun =>
    have hbound : (env.socket.ran apiSocket).st.bound = some p := by
      split at h
      · rwa [Files.unlink_bound] at h
      · exact h
    rcases env.socket.ran_cases apiSocket with ⟨q, hq, hst, -⟩ | ⟨-, hst, -⟩
    · rw [hst] at hbound
      cases hbound
      exact ⟨hbegun, hq⟩
    · rw [hst, SocketEnv.unlinked_bound] at hbound
      cases hbound
  · cases h

/-- **The file system is left clean** exactly if the first `unlink` of `api_bindlisten` removes
    nothing or the socket is bound, and if a socket that was bound also gets a backlog and a
    context, and its path still leads to it at the end. -/
theorem socket_cleanup (C : Libc) (args : Args) (start : Startup) (slirp : L.State)
    (env : FileEnv ι) (apiSocket : Bytes) :
    env.socket.FailsClean apiSocket ∧ SocketRemoved C args start slirp env apiSocket ↔
      ((∃ p, env.socket.BindsAt apiSocket p) ∨ ¬ env.socket.Removes apiSocket) ∧
      (start.Begun → ∀ p, env.socket.BindsAt apiSocket p →
        Removable args start env apiSocket p) := by
  rw [SocketEnv.failsClean_iff, socketRemoved_iff]
  refine and_congr_right' ⟨fun h hbegun p hp => ?_, fun h p hbound => ?_⟩
  · obtain ⟨hbound, hentry⟩ := @finalFiles_of_bindsAt ι _ args start env apiSocket hbegun p hp
    exact hentry.1 (h p hbound)
  · obtain ⟨hbegun, hp⟩ := bindsAt_of_finalFiles hbound
    exact (finalFiles_of_bindsAt hbegun hp).2.2 (h hbegun p hp)

/-- Once the sandbox is in place, the file stays. -/
theorem sandboxed_socket_stays (hbegun : start.Begun) (hsandbox : args.cfg.enableSandbox = true)
    (hdone : 0 ≤ ((createSandbox env.sandbox).run env.kernel).value) {p : ι}
    (hp : env.socket.BindsAt apiSocket p) : ¬ SocketRemoved C args start slirp env apiSocket := by
  intro hremoved
  obtain ⟨hbound, hentry⟩ := @finalFiles_of_bindsAt ι _ args start env apiSocket hbegun p hp
  have hplace := (hentry.1 (socketRemoved_iff.1 hremoved p hbound)).place
  rw [FileEnv.exitView, if_pos hsandbox, createSandbox_newRoot hdone,
    env.socket.lookup_newRoot] at hplace
  cases hplace

end

/-- A host with one place, on which there is a file, and with one mount. -/
def sampleFileEnv (listen : ℤ) : FileEnv Unit where
  socket :=
    { lookup := fun view path => if view = .host ∧ path ≠ [] then some () else none
      entry := fun _ => some (.other 1)
      mayUnlink := true
      socket := 6
      mayBind := true
      listen := listen
      mayUnlinkAtExit := true
      lookup_nil := fun _ => if_neg fun h => h.2 rfl
      lookup_newRoot := fun _ => if_neg fun h => by cases h.1 }
  sandbox := .smooth
  kernel := ⟨[⟨.host 0, .host 0, .host, [], [], .isolated⟩], .host, (.host 0, []), (.host 0, [])⟩

/-- For a path that is too long, a file is removed before the length is checked; a socket on which
    `listen` fails stays; and so does that of a run in the sandbox which ends with success. -/
theorem api_socket_left :
    let long : Bytes := List.replicate 108 97
    let path : Bytes := bytes "/tmp/s4n.sock"
    let start : Startup := { sampleStartup with apiCtxAlloc := some fun _ => 0 }
    let ran (env : FileEnv Unit) :=
      (doSlirp .exact (sampleArgs.withSocket path) (env.startup path start) [sampleTick]).run
        (SlirpState.init sampleStart.slirp)
    let overlong := (sampleFileEnv 0).socket.ran long
    (overlong.value = -1 ∧ overlong.st.bound = none ∧ overlong.st.entry () = none ∧
      (sampleFileEnv 0).socket.entry () = some (.other 1)) ∧
    ((ran (sampleFileEnv (-1))).out = .ret (-1) ∧
      (filesAfter (sampleFileEnv (-1)) path (ran (sampleFileEnv (-1))).calls).entry () =
        some .socket) ∧
    (ran (sampleFileEnv 0)).out = .ret 0 ∧
      (filesAfter (sampleFileEnv 0) path (ran (sampleFileEnv 0)).calls).entry () =
        some .socket := by
  decide +kernel

end Slirp4netns
