/-
  slirp4netns formalization — what is visible in the sandbox.

  The sandbox shows `/etc` and `/run` of the host, and the file to which
  `/etc/resolv.conf` leads if it is outside of them.

  * `binds_restricted`: the remount of `add_mount` changes one mount, so what is
    mounted below `/etc` and `/run` keeps the flags that it has in the host;
  * `resolv_conf_visible`: "outside" is decided on the text of the path, so a file
    in a directory like `/etcetera` is not there.
-/
import Slirp4netns.Staging

namespace Slirp4netns

open MountTable

/-! ## The end of create_sandbox -/

/-- What is watched in a run of `create_sandbox`. -/
def Watch.final (env : SandboxEnv) (host : List HostMount) (r : HostMount)
    (fl : ℕ → List MsFlag) : Watch :=
  ((createSandbox env).run (.ofHost host r)).calls.foldl step (.start host r fl)

section
variable {host : List HostMount} {r : HostMount} {w : Watch} {fl : ℕ → List MsFlag}
  {env : SandboxEnv}

theorem final_shown (fl : ℕ → List MsFlag) (htree : IsTree r host) (hlaw : env.Lawful host r)
    (hvalue : ((createSandbox env).run (.ofHost host r)).value = 0) :
    (Watch.final env host r fl).kernel = ((createSandbox env).run (.ofHost host r)).st ∧
      TmpUnshared host r ∧ 0 ≤ env.rmdir ∧ Shown host r fl env (.final env host r fl) := by
  have hrun := (createSandbox_watched fl htree hlaw).value (k := .ofHost host r) ⟨rfl, rfl⟩
  exact (hrun.resolve_left (Int.not_lt.2 (Int.le_of_eq hvalue.symm))).2

/-- It can succeed if `/tmp` is not on a shared mount. -/
theorem smooth_value (real : Option Path) (h : ∀ path ∈ real, ¬ Escaped path)
    (htree : IsTree r host) (htmp : TmpUnshared host r) :
    SandboxEnv.Lawful { SandboxEnv.smooth with realpath := real } host r ∧
      ((createSandbox { SandboxEnv.smooth with realpath := real }).run (.ofHost host r)).value =
        0 := by
  have hlaw : SandboxEnv.Lawful { SandboxEnv.smooth with realpath := real } host r :=
    ⟨fun hnot => absurd htmp hnot, fun path hpath hescaped => absurd hescaped (h path hpath)⟩
  have hrun := (createSandbox_watched (fun _ => []) htree hlaw).value (k := .ofHost host r)
    ⟨rfl, rfl⟩
  exact ⟨hlaw, (hrun.resolve_left ((Succeeds.createSandbox h).not_neg _)).1⟩

/-- A directory of the host in the sandbox. -/
theorem Shown.resolve_dir (h : Shown host r fl env w) {name : Bytes}
    (hname : name ∈ [bytes "run", bytes "etc"]) : ∃ n, ∀ path,
      w.kernel.resolve (name :: path) =
        (.clone n (copyAt host r (name :: path)).1, (copyAt host r (name :: path)).2) ∧
      w.flags (.clone n (copyAt host r (name :: path)).1) =
        if (walk host (name :: path) (r.id, r.root)).1 = (walk host [name] (r.id, r.root)).1 then
          remountFlags
        else fl (walk host (name :: path) (r.id, r.root)).1 := by
  obtain ⟨entries, hlayout, hrooted⟩ := h
  obtain ⟨e, he, hdir⟩ := hlayout.dirs name hname
  refine ⟨e.number, fun path => ⟨?_, ?_⟩⟩
  · have hold : ¬ [bytes "old"] <+: e.point ++ path := by
      rw [hdir.point]
      intro hpre
      have hne : bytes "old" ∉ [bytes "run", bytes "etc"] := by decide
      exact hne ((List.cons_prefix_cons.1 hpre).1 ▸ hname)
    have hresolve := hrooted.resolve_entry he path hold
    rwa [hdir.point, hdir.source] at hresolve
  · rw [(hrooted.records e he).flags]
    exact hdir.flags _

end

/-! ## The flags of the binds -/

/-- Everything visible at or below a path has the flag. -/
def Watch.Covers (w : Watch) (flag : MsFlag) (path : Path) : Prop :=
  ∀ rest, flag ∈ w.flags (w.kernel.resolve (path ++ rest)).1

/-- What is watched in a run of `add_mount`. -/
def Watch.after (w : Watch) (env : AddMountEnv) (source target : Path) : Watch :=
  ((Slirp4netns.addMount env source target).run w.kernel).calls.foldl step w

section
variable {w : Watch} {source target : Path}

/-- The run fails, or makes the four calls. -/
theorem after_cases (w : Watch) (env : AddMountEnv) (source target : Path) :
    ((addMount env source target).run w.kernel).value < 0 ∨
      ((addMount env source target).run w.kernel).value = 0 ∧
        w.after env source target = w.addMount source target := by
  have hwatched : Returns (Watched w fun w' => w' = w) (addMount env source target)
      (Watched w fun w' => w' = w.addMount source target) :=
    addMount_watched (fun w' hw => by rw [hw]) env
  exact (hwatched.value ⟨rfl, rfl⟩).imp_right fun hrun => ⟨hrun.1, hrun.2.2⟩

theorem mem_remounted {flag : MsFlag} (h : flag ∈ restrictions) {c : Prop} [Decidable c]
    {flags : List MsFlag} :
    flag ∈ (if c then remountFlags else flags) ↔ (¬ c → flag ∈ flags) := by
  have hmem : flag ∈ remountFlags := by
    revert flag
    decide
  split
  · next hc => exact iff_of_true hmem fun hn => absurd hc hn
  · next hc => exact ⟨fun hf _ => hf, fun hf => hf hc⟩

/-- Which of the mounts that `add_mount` shows have a flag. -/
theorem addMount_covers (hwf : w.kernel.Wf) (hat : (w.slaved source).kernel.BindsAt source target)
    {flag : MsFlag} (hflag : flag ∈ restrictions) :
    (w.addMount source target).Covers flag target ↔
      ∀ path, (w.kernel.resolve (source ++ path)).1 ≠ (w.kernel.resolve source).1 →
        flag ∈ w.flags (w.kernel.resolve (source ++ path)).1 := by
  refine forall_congr' fun path => ?_
  rw [Watch.addMount_resolve hwf hat, Watch.addMount_flags hat]
  exact mem_remounted hflag

/-- Which of the mounts below the two directories have a flag. -/
theorem Shown.covers {host : List HostMount} {r : HostMount} {fl : ℕ → List MsFlag}
    {env : SandboxEnv} (h : Shown host r fl env w) {flag : MsFlag} (hflag : flag ∈ restrictions)
    {name : Bytes} (hname : name ∈ [bytes "run", bytes "etc"]) :
    w.Covers flag [name] ↔
      ∀ path, (walk host (name :: path) (r.id, r.root)).1 ≠ (walk host [name] (r.id, r.root)).1 →
        flag ∈ fl (walk host (name :: path) (r.id, r.root)).1 := by
  obtain ⟨n, hn⟩ := h.resolve_dir hname
  refine forall_congr' fun path => ?_
  rw [List.singleton_append, (hn path).1, (hn path).2]
  exact mem_remounted hflag

end

/-- **What `add_mount` shows at its target is read-only, nosuid, nodev and noexec exactly if
    every mount below the source, other than the one at the source itself, was so before; after a
    `create_sandbox` the same holds of the host's mounts below `/etc` and `/run`.** -/
theorem binds_restricted {flag : MsFlag} (hflag : flag ∈ restrictions) :
    (∀ (w : Watch) (source target : Path), w.kernel.Wf →
      (w.slaved source).kernel.BindsAt source target →
      ((∀ env, ((addMount env source target).run w.kernel).value = 0 →
          (w.after env source target).Covers flag target) ↔
        ∀ path, (w.kernel.resolve (source ++ path)).1 ≠ (w.kernel.resolve source).1 →
          flag ∈ w.flags (w.kernel.resolve (source ++ path)).1)) ∧
    ∀ (host : List HostMount) (r : HostMount) (fl : ℕ → List MsFlag), IsTree r host →
      ((∀ env : SandboxEnv, env.Lawful host r →
          ((createSandbox env).run (.ofHost host r)).value = 0 →
          ∀ name ∈ [bytes "run", bytes "etc"], (Watch.final env host r fl).Covers flag [name]) ↔
        (TmpUnshared host r → ∀ name ∈ [bytes "run", bytes "etc"], ∀ path,
          (walk host (name :: path) (r.id, r.root)).1 ≠ (walk host [name] (r.id, r.root)).1 →
            flag ∈ fl (walk host (name :: path) (r.id, r.root)).1)) := by
  refine ⟨fun w source target hwf hat => ?_, fun host r fl htree => ?_⟩
  · rw [← addMount_covers hwf hat hflag]
    constructor
    · intro hall
      have hneg := (Succeeds.addMount source target).not_neg w.kernel
      obtain ⟨hvalue, hafter⟩ := (after_cases w ⟨0, 0, 0, 0, 0⟩ source target).resolve_left hneg
      exact hafter ▸ hall _ hvalue
    · intro hcovers env hvalue
      have hneg := Int.not_lt.2 (Int.le_of_eq hvalue.symm)
      rwa [((after_cases w env source target).resolve_left hneg).2]
  · constructor
    · intro hall htmp name hname
      obtain ⟨hlaw, hvalue⟩ := smooth_value none (fun _ h => nomatch h) htree htmp
      obtain ⟨-, -, -, hshown⟩ := final_shown fl htree hlaw hvalue
      exact (hshown.covers hflag hname).1 (hall _ hlaw hvalue name hname)
    · intro hall env hlaw hvalue name hname
      obtain ⟨-, htmp, -, hshown⟩ := final_shown fl htree hlaw hvalue
      exact (hshown.covers hflag hname).2 (hall htmp name hname)

/-- If the host's mounts are all restricted, so is everything that `add_mount` and
    `create_sandbox` show. -/
theorem binds_restricted_run :
    let w := Watch.start runMounts sharedRoot fun _ => restrictions
    w.kernel.Wf ∧
    (w.slaved [bytes "run"]).kernel.BindsAt [bytes "run"] [bytes "tmp", bytes "run"] ∧
    (∀ env, ((addMount env [bytes "run"] [bytes "tmp", bytes "run"]).run w.kernel).value = 0 →
      (w.after env [bytes "run"] [bytes "tmp", bytes "run"]).Covers .msRdonly
        [bytes "tmp", bytes "run"]) ∧
    IsTree sharedRoot runMounts ∧
    ∀ env : SandboxEnv, env.Lawful runMounts sharedRoot →
      ((createSandbox env).run (.ofHost runMounts sharedRoot)).value = 0 →
      ∀ name ∈ [bytes "run", bytes "etc"],
        (Watch.final env runMounts sharedRoot fun _ => restrictions).Covers .msRdonly [name] := by
  have hwf := Kernel.Wf.ofHost runMounts_isTree
  have hat : ((Watch.start runMounts sharedRoot fun _ => restrictions).slaved
      [bytes "run"]).kernel.BindsAt [bytes "run"] [bytes "tmp", bytes "run"] := by
    unfold Kernel.BindsAt
    decide +kernel
  have hflag : MsFlag.msRdonly ∈ restrictions := List.mem_cons_self
  refine ⟨hwf, hat, ((binds_restricted hflag).1 _ _ _ hwf hat).2 ?_, runMounts_isTree,
    ((binds_restricted hflag).2 _ _ _ runMounts_isTree).2 ?_⟩
  · intro path _
    obtain ⟨n, hn⟩ : ∃ n, ((Kernel.ofHost runMounts sharedRoot).resolve
        ([bytes "run"] ++ path)).1 = .host n := by
      refine walk_induction (P := fun i => ∃ n, i = MountId.host n) _ ⟨0, rfl⟩ fun m hm _ => ?_
      obtain ⟨x, -, rfl⟩ := List.mem_map.1 hm
      exact ⟨x.id, rfl⟩
    show _ ∈ Watch.flags _ ((Kernel.ofHost runMounts sharedRoot).resolve _).1
    rw [hn]
    exact List.mem_cons_self
  · exact fun _ _ _ _ _ => List.mem_cons_self

/-- A writable mount below `/run` stays so in the sandbox. -/
theorem run_submount_writable :
    let w := Watch.start runMounts sharedRoot fun _ => []
    let w' := w.after ⟨0, 0, 0, 0, 0⟩ [bytes "run"] [bytes "tmp", bytes "run"]
    let final := Watch.final .smooth runMounts sharedRoot fun _ => []
    (((addMount ⟨0, 0, 0, 0, 0⟩ [bytes "run"] [bytes "tmp", bytes "run"]).run w.kernel).value = 0 ∧
      w'.flags (w'.kernel.resolve [bytes "tmp", bytes "run"]).1 = remountFlags ∧
      w'.flags (w'.kernel.resolve [bytes "tmp", bytes "run", bytes "foo"]).1 = []) ∧
    IsTree sharedRoot runMounts ∧ SandboxEnv.smooth.Lawful runMounts sharedRoot ∧
      ((createSandbox .smooth).run (.ofHost runMounts sharedRoot)).value = 0 ∧
      final.kernel.resolve [bytes "run", bytes "foo"] = (.clone 8 (copyId 2), []) ∧
      final.flags (.clone 8 (copyId 2)) = [] := by
  refine ⟨by decide +kernel, runMounts_isTree, ⟨fun hnot => absurd ?_ hnot, nofun⟩, ?_⟩
  · unfold TmpUnshared
    decide +kernel
  · decide +kernel

/-! ## resolv.conf -/

/-- The file that `realpath` found is at this path. -/
def Watch.Sees (w : Watch) (path : Path) : Prop :=
  ∃ n l, w.found = some l ∧ w.kernel.resolve path = (.clone n l.1, l.2)

section
variable {host : List HostMount} {r : HostMount} {w : Watch} {fl : ℕ → List MsFlag}
  {env : SandboxEnv} {real : Path}

/-- In one of the two directories it is visible as they are. -/
theorem Shown.sees_dir (h : Shown host r fl env w) (hreal : env.realpath = some real)
    {name : Bytes} (hname : name ∈ [bytes "run", bytes "etc"]) (hpath : [name] <+: real) :
    w.Sees real := by
  obtain ⟨n, hn⟩ := h.resolve_dir hname
  obtain ⟨entries, hlayout, -⟩ := h
  obtain ⟨path, rfl⟩ := hpath
  refine ⟨n, copyAt host r (name :: path), hlayout.found _ hreal fun hpre => ?_, (hn path).1⟩
  have hne : bytes "tmp" ∉ [bytes "run", bytes "etc"] := by decide
  exact hne ((List.cons_prefix_cons.1 hpre).1 ▸ hname)

/-- Outside of them it is bound. -/
theorem Shown.sees_file (h : Shown host r fl env w) (hreal : env.realpath = some real)
    (hescaped : Escaped real) (hold : ¬ [bytes "old"] <+: real) :
    w.Sees real ∧ (real, bytes "tmp" :: real) ∈ w.binds := by
  obtain ⟨entries, hlayout, hrooted⟩ := h
  obtain ⟨e, he, horigin, hpoint, hfound⟩ := hlayout.file real hreal hescaped
  have hresolve := hrooted.resolve_entry he []
  rw [List.append_nil, hpoint] at hresolve
  have hbind := (hrooted.records e he).bind
  rw [horigin, hpoint] at hbind
  exact ⟨⟨e.number, e.source [], hfound, hresolve hold⟩, hbind⟩

/-- Otherwise there is nothing at its path. -/
theorem Shown.resolve_none (h : Shown host r fl env w) (hreal : env.realpath = some real)
    (hescaped : ¬ Escaped real) (hdirs : ∀ name ∈ [bytes "run", bytes "etc"], ¬ [name] <+: real) :
    w.kernel.resolve real = (tmpId host, real) := by
  obtain ⟨entries, hlayout, hrooted⟩ := h
  refine hrooted.resolve_other (fun hold => hescaped ?_) fun q hq => ?_
  · -- a text does not start in two ways
    have htext : 47 :: bytes "old" <+: real.text := text_of_dir hold
    refine ⟨fun hetc => ?_, fun hrun => ?_⟩
    · exact absurd (List.prefix_of_prefix_length_le hetc htext (by decide))
        (by decide)
    · exact absurd (List.prefix_of_prefix_length_le hrun htext (by decide))
        (by decide)
  · obtain ⟨e, he, rfl⟩ := List.mem_map.1 hq
    rcases hlayout.only e he with ⟨name, hname, hpoint⟩ | ⟨real', hreal', hescaped', -⟩
    · exact hpoint ▸ hdirs name hname
    · rw [hreal] at hreal'
      cases hreal'
      exact absurd hescaped' hescaped

end

/-- **The file that `/etc/resolv.conf` leads to is visible at its path in the sandbox, as a part
    of `/etc` or `/run` or by a bind of its own, exactly if it is in one of these directories or
    the text of its path does not start with `/etc` or `/run`.** -/
theorem resolv_conf_visible (real : Path) :
    (∀ (host : List HostMount) (r : HostMount) (fl : ℕ → List MsFlag) (env : SandboxEnv),
      IsTree r host → env.Lawful host r → env.realpath = some real →
      ((createSandbox env).run (.ofHost host r)).value = 0 →
      (Watch.final env host r fl).Sees real ∧ ([bytes "etc"] <+: real ∨ [bytes "run"] <+: real ∨
        (real, bytes "tmp" :: real) ∈ (Watch.final env host r fl).binds)) ↔
    [bytes "etc"] <+: real ∨ [bytes "run"] <+: real ∨ Escaped real := by
  constructor
  · intro hall
    by_contra hnot
    obtain ⟨hetc, hrun, hescaped⟩ : ¬ _ ∧ ¬ _ ∧ ¬ _ := by simpa only [not_or] using hnot
    have htree : IsTree sharedRoot [sharedRoot] := .root rfl
    have htmp : TmpUnshared [sharedRoot] sharedRoot := by
      unfold TmpUnshared
      decide +kernel
    obtain ⟨hlaw, hvalue⟩ := smooth_value (some real)
      (fun path hpath => Option.some.inj hpath ▸ hescaped) htree htmp
    obtain ⟨-, -, -, hshown⟩ := final_shown (fun _ => []) htree hlaw hvalue
    obtain ⟨⟨n, l, -, hresolve⟩, -⟩ := hall _ _ (fun _ => []) _ htree hlaw rfl hvalue
    rw [hshown.resolve_none rfl hescaped (List.forall_mem_cons.2 ⟨hrun,
      List.forall_mem_singleton.2 hetc⟩)] at hresolve
    exact tmpId_ne_clone _ _ _ (congrArg Prod.fst hresolve)
  · intro hor host r fl env htree hlaw hreal hvalue
    obtain ⟨-, -, hrmdir, hshown⟩ := final_shown fl htree hlaw hvalue
    rcases hor with hetc | hrun | hescaped
    · exact ⟨hshown.sees_dir hreal (List.mem_cons_of_mem _ List.mem_cons_self) hetc, .inl hetc⟩
    · exact ⟨hshown.sees_dir hreal List.mem_cons_self hrun, .inr (.inl hrun)⟩
    · have hold : ¬ [bytes "old"] <+: real := fun hpre =>
        absurd hrmdir (Int.not_le.2 (hlaw.rmdir real hreal hescaped hpre))
      obtain ⟨hsees, hbind⟩ := hshown.sees_file hreal hescaped hold
      exact ⟨hsees, .inr (.inr hbind)⟩

/-- No call fails, and `/etc/resolv.conf` leads to `/usr/lib/resolv.conf`. -/
def SandboxEnv.usr : SandboxEnv := { SandboxEnv.smooth with
  realpath := some [bytes "usr", bytes "lib", bytes "resolv.conf"]
  creat := fun path => if path.length = 4 then 3 else -1
  creat_dir := by decide }

theorem resolv_conf_visible_usr :
    SandboxEnv.usr.Lawful [sharedRoot] sharedRoot ∧
      ((createSandbox .usr).run (.ofHost [sharedRoot] sharedRoot)).value = 0 ∧
      (Watch.final .usr [sharedRoot] sharedRoot fun _ => []).Sees
        [bytes "usr", bytes "lib", bytes "resolv.conf"] := by
  have hlaw : SandboxEnv.usr.Lawful [sharedRoot] sharedRoot := by
    refine ⟨fun hnot => absurd ?_ hnot, ?_⟩
    · unfold TmpUnshared
      decide +kernel
    · rintro _ ⟨⟩ - hold
      exact absurd hold (by decide +kernel)
  have hvalue : ((createSandbox .usr).run (.ofHost [sharedRoot] sharedRoot)).value = 0 := by
    decide +kernel
  have hescaped : Escaped [bytes "usr", bytes "lib", bytes "resolv.conf"] := by
    decide +kernel
  exact ⟨hlaw, hvalue, ((resolv_conf_visible _).2 (.inr (.inr hescaped)) _ _ _ _ (.root rfl) hlaw
    rfl hvalue).1⟩

/-- `/etcetera/resolv.conf` is neither in `/etc` nor bound, though no call fails. -/
theorem resolv_conf_missing :
    let real : Path := [bytes "etcetera", bytes "resolv.conf"]
    let env : SandboxEnv := { SandboxEnv.smooth with realpath := some real }
    let final := Watch.final env [sharedRoot] sharedRoot fun _ => []
    IsTree sharedRoot [sharedRoot] ∧ env.Lawful [sharedRoot] sharedRoot ∧
      ((createSandbox env).run (.ofHost [sharedRoot] sharedRoot)).value = 0 ∧
      final.found = some (copyId 0, real) ∧
      final.binds = [([bytes "run"], [bytes "tmp", bytes "run"]),
        ([bytes "etc"], [bytes "tmp", bytes "etc"])] ∧
      final.kernel.resolve real = (tmpId [sharedRoot], real) := by
  intro real env final
  refine ⟨.root rfl, ⟨fun hnot => absurd ?_ hnot, ?_⟩, ?_⟩
  · unfold TmpUnshared
    decide +kernel
  · rintro _ ⟨⟩ - hold
    exact absurd hold (by decide +kernel)
  · decide +kernel

end Slirp4netns
