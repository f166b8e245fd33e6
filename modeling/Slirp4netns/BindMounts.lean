/-
  slirp4netns formalization — the binds of `add_mount`.

  `Watch` follows the calls of the sandbox and keeps what the `Kernel` does not
  have: the flags of every mount, the binds that were made, and the file that
  `realpath` found.  A recursive bind copies all mounts below its source with
  their flags, and a remount changes the flags of the one mount at its path.

  * `Watch.addMount_resolve`: at and below its target, `add_mount` shows what there
    is at and below its source;
  * `Watch.addMount_flags`: the mount at the target has the flags of the remount,
    the others have those of their originals.
-/
import Slirp4netns.HostMounts

namespace Slirp4netns

open MountTable

/-! ## Flags -/

/-- The flags that are to protect the host. -/
def restrictions : List MsFlag := [.msRdonly, .msNosuid, .msNodev, .msNoexec]

/-- The mount was made by the call with this number. -/
def MountId.MadeBy (n : ℕ) : MountId → Prop
  | .clone m _ => m = n
  | .fresh m => m = n
  | _ => False

instance (n : ℕ) (i : MountId) : Decidable (i.MadeBy n) := by
  cases i <;> unfold MountId.MadeBy <;> infer_instance

/-- The flags after a call that makes mounts: a copy has those of its original, a new file
    system those of the call, and a replica those of what it replicates. -/
def newFlags (n : ℕ) (flags : List MsFlag) (old : MountId → List MsFlag) :
    MountId → List MsFlag
  | .clone m i => if m = n then old i else old (.clone m i)
  | .fresh m => if m = n then flags else old (.fresh m)
  | .replica q i => if i.MadeBy n then newFlags n flags old i else old (.replica q i)
  | i => old i

/-! ## Following the calls -/

/-- The mounts, their flags, and what was bound so far. -/
structure Watch where
  kernel : Kernel
  flags : MountId → List MsFlag
  /-- sources and targets, the last bind first -/
  binds : List (Path × Path)
  /-- where the result of `realpath` was at the time of the call -/
  found : Option (Location MountId Bytes)

namespace Watch

/-- A `mount` that succeeds. -/
def mount (w : Watch) (source target : Path) (flags : List MsFlag) : Watch :=
  let kernel := w.kernel.mount source target flags
  if .msRemount ∈ flags then
    { w with kernel, flags := Function.update w.flags (w.kernel.resolve target).1 flags }
  else if .msBind ∈ flags then
    { w with
      kernel
      flags := newFlags w.kernel.mounts.length flags w.flags
      binds := (source, target) :: w.binds }
  else if .msPrivate ∈ flags ∨ .msSlave ∈ flags then { w with kernel }
  else { w with kernel, flags := newFlags w.kernel.mounts.length flags w.flags }

/-- A call with its result; one that fails changes nothing. -/
def step (w : Watch) : SandboxCall → Watch
  | .unshare rc =>
    if rc < 0 then w
    else { w with
      kernel := w.kernel.apply (.unshare rc)
      flags := fun
        | .copy i => w.flags i
        | i => w.flags i }
  | .mount source target _ flags _ rc => if rc < 0 then w else w.mount source target flags
  | .realpath _ result => { w with found := result.map w.kernel.resolve }
  | .chdir path rc => if rc < 0 then w else { w with kernel := w.kernel.apply (.chdir path rc) }
  | .pivotRoot rc => if rc < 0 then w else { w with kernel := w.kernel.apply (.pivotRoot rc) }
  | .umount2 path rc => if rc < 0 then w else { w with kernel := w.kernel.apply (.umount2 path rc) }
  | _ => w

theorem mount_kernel (w : Watch) (source target : Path) (flags : List MsFlag) :
    (w.mount source target flags).kernel = w.kernel.mount source target flags := by
  unfold mount
  dsimp only
  repeat' split
  all_goals rfl

end Watch

/-- After the calls the kernel is `k`, and what is watched satisfies `A`. -/
def Watched (w₀ : Watch) (A : Watch → Prop) (cs : List SandboxCall) (k : Kernel) : Prop :=
  (cs.foldl Watch.step w₀).kernel = k ∧ A (cs.foldl Watch.step w₀)

section
variable {w₀ : Watch} {A A' : Watch → Prop} {cs : List SandboxCall} {k k' : Kernel}

theorem Watched.imp (h : Watched w₀ A cs k) (hA : ∀ w, w.kernel = k → A w → A' w) :
    Watched w₀ A' cs k := ⟨h.1, hA _ h.1 h.2⟩

theorem Watched.snoc {c : SandboxCall} (h : Watched w₀ A cs k)
    (hkernel : ∀ w : Watch, w.kernel = k → (w.step c).kernel = k') :
    Watched w₀ (fun w' => ∃ w, A w ∧ w' = w.step c) (cs ++ [c]) k' := by
  unfold Watched
  rw [List.foldl_concat]
  exact ⟨hkernel _ h.1, _, h.2, rfl⟩

/-- A call that is not watched. -/
theorem Watched.other {c : SandboxCall} (h : Watched w₀ A cs k) (hc : ∀ w : Watch, w.step c = w) :
    Watched w₀ A (cs ++ [c]) k := by
  unfold Watched
  rw [List.foldl_concat, hc]
  exact h

/-- A call that changes nothing but the kernel. -/
theorem Watched.apply {c : SandboxCall} (h : Watched w₀ A cs k)
    (hc : ∀ w : Watch, w.step c = { w with kernel := w.kernel.apply c }) :
    Watched w₀ (fun w' => ∃ w, A w ∧ w' = { w with kernel := w.kernel.apply c }) (cs ++ [c])
      (k.apply c) := by
  have hkernel (w : Watch) (hw : w.kernel = k) : (w.step c).kernel = k.apply c := by
    rw [hc, hw]
  simpa only [hc] using h.snoc hkernel

theorem Watched.mount {source target : Path} {fstype data : Bytes} {flags : List MsFlag} {rc : ℤ}
    (hrc : 0 ≤ rc) (h : Watched w₀ A cs k) :
    Watched w₀ (fun w' => ∃ w, A w ∧ w' = w.mount source target flags)
      (cs ++ [.mount source target fstype flags data rc])
      (k.apply (.mount source target fstype flags data rc)) := by
  have hstep (w : Watch) : w.step (.mount source target fstype flags data rc) =
      w.mount source target flags := if_neg (Int.not_lt.2 hrc)
  have hkernel (w : Watch) (hw : w.kernel = k) :
      (w.step (.mount source target fstype flags data rc)).kernel =
        k.apply (.mount source target fstype flags data rc) := by
    rw [hstep, Watch.mount_kernel, hw]
    rfl
  simpa only [hstep] using h.snoc hkernel

end

/-! ## add_mount -/

/-- The flags of the bind in `add_mount`. -/
def bindFlags : List MsFlag := [.msBind, .msRec, .msSlave, .msNosuid, .msNodev, .msNoexec]

/-- The flags that make a bind a slave. -/
def slaveFlags : List MsFlag := [.msSlave, .msRec]

/-- The flags of the remount in `add_mount`. -/
def remountFlags : List MsFlag :=
  [.msRemount, .msBind, .msRdonly, .msNosuid, .msNodev, .msNoexec]

namespace Watch

/-- The source is made a slave if it is a mount point. -/
def slaved (w : Watch) (source : Path) : Watch :=
  if IsMountPoint w.kernel.mounts (w.kernel.resolve source) then w.mount [] source slaveFlags
  else w

/-- The four calls of an `add_mount` that succeeds. -/
def addMount (w : Watch) (source target : Path) : Watch :=
  (((w.slaved source).mount source target bindFlags).mount [] target slaveFlags).mount source
    target remountFlags

end Watch

theorem addMount_watched {w₀ : Watch} {A A' : Watch → Prop} {source target : Path}
    (h : ∀ w, A w → A' (w.addMount source target)) (env : AddMountEnv) :
    Returns (Watched w₀ A) (addMount env source target) (Watched w₀ A') := by
  have hpoint {rc : ℤ} (hrc : 0 ≤ rc) (cs : List SandboxCall) (k : Kernel) (hs : Watched w₀ A cs k)
      (hpoint : IsMountPoint k.mounts (k.resolve source)) :
      Watched w₀ (fun w' => ∃ w, A w ∧ w' = w.slaved source)
        (cs ++ [.mount [] source [] slaveFlags [] rc])
        (k.apply (.mount [] source [] slaveFlags [] rc)) := by
    have hs' : Watched w₀ (fun w => w.kernel = k ∧ A w) cs k := hs.imp fun _ hk hw => ⟨hk, hw⟩
    refine (hs'.mount hrc).imp ?_
    rintro _ - ⟨w, ⟨rfl, hw⟩, rfl⟩
    exact ⟨w, hw, (if_pos hpoint).symm⟩
  have hnot (cs : List SandboxCall) (k : Kernel) (hs : Watched w₀ A cs k)
      (hpoint : ¬ IsMountPoint k.mounts (k.resolve source)) :
      Watched w₀ (fun w' => ∃ w, A w ∧ w' = w.slaved source)
        (cs ++ [.mount [] source [] slaveFlags [] (-1)]) k := by
    refine (hs.other fun _ => rfl).imp ?_
    rintro w rfl hw
    exact ⟨w, hw, (if_neg hpoint).symm⟩
  refine Returns.slaveSource hpoint hnot ?_
  refine Returns.attempt (fun hrc _ _ hs => hs.mount hrc) fun _ => ?_
  refine Returns.attempt (fun hrc _ _ hs => hs.mount hrc) fun _ => ?_
  refine Returns.attempt (fun hrc _ _ hs => hs.mount hrc) fun _ => Returns.pure fun cs k hs => ?_
  refine hs.imp ?_
  rintro _ - ⟨_, ⟨_, ⟨_, ⟨w, hw, rfl⟩, rfl⟩, rfl⟩, rfl⟩
  exact h w hw

/-! ## What a bind shows -/

theorem clone_injective (n : ℕ) : Function.Injective (MountId.clone n) := by
  intro i j h
  cases h
  rfl

/-- The table is ordered and numbered, and has the root of the process. -/
structure Kernel.Wf (k : Kernel) : Prop where
  ordered : Ordered k.mounts
  numbered : ∀ m ∈ k.mounts, ∀ n i, m.id = .clone n i ∨ m.parent = .clone n i →
    n < k.mounts.length
  root : ∃ m ∈ k.mounts, m.id = k.root.1

namespace Kernel

variable {k : Kernel}

/-- The names for the next bind are new. -/
theorem Wf.fresh (h : k.Wf) : ∀ m ∈ k.mounts, ∀ i,
    m.id ≠ .clone k.mounts.length i ∧ m.parent ≠ .clone k.mounts.length i := by
  intro m hm i
  have hlt := fun hor => Nat.lt_irrefl _ (h.numbered m hm k.mounts.length i hor)
  exact ⟨fun hid => hlt (.inl hid), fun hid => hlt (.inr hid)⟩

theorem Wf.resolve_mem (h : k.Wf) (path : Path) : ∃ m ∈ k.mounts, m.id = (k.resolve path).1 :=
  exists_mem_walk path h.root

theorem Wf.resolve_ne_clone (h : k.Wf) (path : Path) (i : MountId) :
    (k.resolve path).1 ≠ .clone k.mounts.length i := by
  obtain ⟨m, hm, hid⟩ := h.resolve_mem path
  exact hid ▸ (h.fresh m hm i).1

/-- Another propagation changes neither paths nor names. -/
theorem resolve_setProp (k : Kernel) (ids : List MountId) (f : Propagation → Propagation)
    (path : Path) :
    ({ k with mounts := setProp k.mounts ids f } : Kernel).resolve path = k.resolve path :=
  walk_congr (setProp_bare k.mounts ids f) path k.root

theorem Wf.setProp (h : k.Wf) (ids : List MountId) (f : Propagation → Propagation) :
    ({ k with mounts := MountTable.setProp k.mounts ids f } : Kernel).Wf := by
  have hnames (m : KMount) : (if m.id ∈ ids then { m with prop := f m.prop } else m).id = m.id ∧
      (if m.id ∈ ids then { m with prop := f m.prop } else m).parent = m.parent := by
    split <;> exact ⟨rfl, rfl⟩
  refine ⟨List.pairwise_map.2 (h.ordered.imp fun hxy => ?_), fun m hm n i hor => ?_, ?_⟩
  · rwa [(hnames _).1, (hnames _).1, (hnames _).2]
  · obtain ⟨x, hx, rfl⟩ := List.mem_map.1 hm
    rw [(hnames x).1, (hnames x).2] at hor
    exact (h.numbered x hx n i hor).trans_eq (List.length_map _).symm
  · obtain ⟨m, hm, hid⟩ := h.root
    exact ⟨_, List.mem_map_of_mem hm, (hnames m).1.trans hid⟩

end Kernel

namespace Watch

variable {w : Watch} {source target : Path}

theorem slaved_kernel (w : Watch) (source : Path) : (w.slaved source).kernel = w.kernel ∨
    (w.slaved source).kernel = { w.kernel with
      mounts := setProp w.kernel.mounts (subtree w.kernel.mounts (w.kernel.resolve source).1)
        Propagation.slave } := by
  unfold slaved
  split
  · exact .inr (mount_kernel w [] source slaveFlags)
  · exact .inl rfl

theorem slaved_resolve (w : Watch) (source path : Path) :
    (w.slaved source).kernel.resolve path = w.kernel.resolve path := by
  rcases slaved_kernel w source with heq | heq
  · rw [heq]
  · rw [heq, Kernel.resolve_setProp]

theorem slaved_length (w : Watch) (source : Path) :
    (w.slaved source).kernel.mounts.length = w.kernel.mounts.length := by
  rcases slaved_kernel w source with heq | heq
  · rw [heq]
  · rw [heq]
    exact List.length_map _

theorem slaved_wf (h : w.kernel.Wf) (source : Path) : (w.slaved source).kernel.Wf := by
  rcases slaved_kernel w source with heq | heq
  · rwa [heq]
  · rw [heq]
    exact h.setProp _ _

theorem slaved_flags (w : Watch) (source : Path) : (w.slaved source).flags = w.flags := by
  unfold slaved
  split <;> rfl

end Watch

/-- The mount that a bind makes is found at its target. -/
def Kernel.BindsAt (k : Kernel) (source target : Path) : Prop :=
  (k.mount source target bindFlags).resolve target =
    (.clone k.mounts.length (k.resolve source).1, (k.resolve source).2)

/-- Below the target is what is below the source. -/
theorem Kernel.BindsAt.resolve {k : Kernel} {source target : Path} (h : k.BindsAt source target)
    (hwf : k.Wf) (path : Path) : (k.mount source target bindFlags).resolve (target ++ path) =
      (.clone k.mounts.length (k.resolve (source ++ path)).1, (k.resolve (source ++ path)).2) := by
  have hwalk : walk (k.mount source target bindFlags).mounts path
      (.clone k.mounts.length (k.resolve source).1, (k.resolve source).2) =
        (.clone k.mounts.length (walk k.mounts path (k.resolve source)).1,
          (walk k.mounts path (k.resolve source)).2) :=
    walk_attach_cloneTree (clone_injective _) hwf.ordered hwf.fresh (fun _ _ _ h => by cases h)
      (hwf.resolve_ne_clone target) path
  unfold BindsAt at h
  rw [Kernel.resolve, walk_append, ← Kernel.resolve, h, hwalk, Kernel.resolve, Kernel.resolve,
    walk_append]

namespace Watch

variable {w : Watch} {source target : Path}

theorem addMount_kernel (w : Watch) (source target : Path) : (w.addMount source target).kernel =
    { (w.slaved source).kernel.mount source target bindFlags with
      mounts := setProp ((w.slaved source).kernel.mount source target bindFlags).mounts
        (subtree ((w.slaved source).kernel.mount source target bindFlags).mounts
          (((w.slaved source).kernel.mount source target bindFlags).resolve target).1)
        Propagation.slave } := by
  unfold addMount
  rw [mount_kernel, mount_kernel, mount_kernel]
  rfl

/-- **At and below the target is what is at and below the source.** -/
theorem addMount_resolve (hwf : w.kernel.Wf)
    (hat : (w.slaved source).kernel.BindsAt source target) (path : Path) :
    (w.addMount source target).kernel.resolve (target ++ path) =
      (.clone w.kernel.mounts.length (w.kernel.resolve (source ++ path)).1,
        (w.kernel.resolve (source ++ path)).2) := by
  rw [addMount_kernel, Kernel.resolve_setProp, hat.resolve (slaved_wf hwf source), slaved_length,
    slaved_resolve]

/-- The remount finds the copy of the mount at the source. -/
theorem addMount_flags_eq (hat : (w.slaved source).kernel.BindsAt source target) :
    (w.addMount source target).flags =
      Function.update (newFlags w.kernel.mounts.length bindFlags w.flags)
        (.clone w.kernel.mounts.length (w.kernel.resolve source).1) remountFlags := by
  have htarget : ((((w.slaved source).mount source target bindFlags).mount [] target
      slaveFlags).kernel.resolve target).1 =
        .clone w.kernel.mounts.length (w.kernel.resolve source).1 := by
    rw [mount_kernel, mount_kernel]
    refine (congrArg Prod.fst (Kernel.resolve_setProp _ _ _ target)).trans ?_
    unfold Kernel.BindsAt at hat
    rw [hat, slaved_length, slaved_resolve]
  rw [← htarget, ← slaved_length w source, ← slaved_flags w source]
  rfl

/-- **The flags of the copies**: those of the remount at the target, and else those that there
    are at the source. -/
theorem addMount_flags (hat : (w.slaved source).kernel.BindsAt source target) (i : MountId) :
    (w.addMount source target).flags (.clone w.kernel.mounts.length i) =
      if i = (w.kernel.resolve source).1 then remountFlags else w.flags i := by
  rw [addMount_flags_eq hat, Function.update_apply]
  by_cases hi : i = (w.kernel.resolve source).1
  · rw [if_pos (congrArg _ hi), if_pos hi]
  · rw [if_neg fun heq => hi (clone_injective _ heq), if_neg hi]
    exact if_pos rfl

/-- The other flags stay as they are. -/
theorem addMount_flags_other (hat : (w.slaved source).kernel.BindsAt source target) {i : MountId}
    (hi : ∀ j, i ≠ .clone w.kernel.mounts.length j)
    (hnew : newFlags w.kernel.mounts.length bindFlags w.flags i = w.flags i) :
    (w.addMount source target).flags i = w.flags i := by
  rw [addMount_flags_eq hat, Function.update_of_ne (hi _), hnew]

/-- The binds are on record. -/
theorem addMount_binds (w : Watch) (source target : Path) :
    (w.addMount source target).binds = (source, target) :: w.binds := by
  unfold addMount slaved
  split <;> rfl

theorem addMount_found (w : Watch) (source target : Path) :
    (w.addMount source target).found = w.found := by
  unfold addMount slaved
  split <;> rfl

end Watch

/-- A bind on a mount that is not one of a bind keeps the table well-formed. -/
theorem Kernel.Wf.bind {k : Kernel} (h : k.Wf) (source : Path) {dest : Location MountId Bytes}
    (hdest : ∀ n i, dest.1 ≠ .clone n i) :
    ({ k with
      mounts := k.mounts ++ cloneTree (.clone k.mounts.length) k.mounts (k.resolve source) dest } :
      Kernel).Wf := by
  have hsrc := h.resolve_mem source
  obtain ⟨c, hc⟩ := exists_mem_cloneTop (MountId.clone k.mounts.length) dest hsrc
  have hlength : k.mounts.length < (k.mounts ++ cloneTree (.clone k.mounts.length) k.mounts
      (k.resolve source) dest).length := by
    rw [List.length_append]
    exact Nat.lt_add_of_pos_right (List.length_pos_of_mem (List.mem_append_left _ hc))
  refine ⟨h.ordered.append_cloneTree (clone_injective _) h.fresh (hdest _) hsrc,
    fun m hm n i hor => ?_, ?_⟩
  · rcases List.mem_append.1 hm with hm | hm
    · exact (h.numbered m hm n i hor).trans hlength
    · -- the names in the tree have the number of the bind
      have hn : n = k.mounts.length := by
        rcases hor with hid | hid
        · obtain ⟨j, hj⟩ := cloneTree_id hm
          rw [hj] at hid
          cases hid
          rfl
        · rcases cloneTree_parent hm with ⟨hj, -⟩ | ⟨j, hj⟩
          · exact absurd (hj.symm.trans hid) (hdest n i)
          · rw [hj] at hid
            cases hid
            rfl
      exact hn ▸ hlength
  · obtain ⟨m, hm, hid⟩ := h.root
    exact ⟨m, List.mem_append_left _ hm, hid⟩

end Slirp4netns
