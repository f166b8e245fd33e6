/-
  slirp4netns formalization — the stages of the sandbox.

  A recursive bind of `add_mount` on the tmpfs is an `Entry`: its mounts have one
  number, and at and below its point there is what is at and below its origin.
  `create_sandbox` makes such binds (`Staged`), makes the tmpfs the root (`Turned`)
  and detaches the old root, after which a path depends on the binds alone
  (`Rooted`).  Which binds there are is a `Layout`.

  `createSandbox_watched` follows the code from the mounts of the host to the end.
-/
import Slirp4netns.BindMounts

namespace Slirp4netns

open MountTable

/-! ## Binds on the tmpfs -/

/-- A bind on the tmpfs. -/
structure Entry where
  origin : Path
  point : Path
  /-- of its mounts -/
  number : ℕ
  /-- what is at and below the origin -/
  source : Path → Location MountId Bytes
  /-- of the copies -/
  flags : MountId → List MsFlag

/-- The one that `add_mount` makes. -/
def Watch.entry (w : Watch) (origin point : Path) : Entry where
  origin
  point
  number := w.kernel.mounts.length
  source path := w.kernel.resolve (origin ++ path)
  flags i := if i = (w.kernel.resolve origin).1 then remountFlags else w.flags i

/-- The table with these binds on the tmpfs. -/
structure BindTable (host : List HostMount) (r : HostMount) (entries : List Entry)
    (f : HostMount → Propagation) (clones : List KMount) (k : Kernel) : Prop where
  shape : Shape host r f (tmpMount host r :: clones) k
  isClone : ∀ c ∈ clones, IsClone host (entries.map Entry.point) c
  shows : ∀ e ∈ entries, Shows clones (tmpId host) e.point (.clone e.number) e.source

/-- The flags of the copies, and the bind on record. -/
structure Watch.Records (w : Watch) (e : Entry) : Prop where
  flags : ∀ i, w.flags (.clone e.number i) = e.flags i
  bind : (e.origin, bytes "tmp" :: e.point) ∈ w.binds

/-- Some binds were made on the tmpfs; `fl` has the flags of the host's mounts. -/
structure Staged (host : List HostMount) (r : HostMount) (fl : ℕ → List MsFlag)
    (entries : List Entry) (w : Watch) : Prop where
  wf : w.kernel.Wf
  copies : ∀ n, w.flags (copyId n) = fl n
  numbers : ∀ e ∈ entries, e.number < w.kernel.mounts.length
  records : ∀ e ∈ entries, w.Records e
  points : [] ∉ entries.map Entry.point
  table : ∃ f clones, BindTable host r entries f clones w.kernel ∧ ∀ c ∈ clones, c.prop.group = none

section
variable {host : List HostMount} {r : HostMount} {f : HostMount → Propagation} {k : Kernel}
  {clones : List KMount} {entries : List Entry} {w : Watch} {fl : ℕ → List MsFlag}
  {origin point : Path}

theorem setProp_unshared {ms : List KMount} {ids : List MountId}
    (h : ∀ c ∈ ms, c.id ∉ ids → c.prop.group = none) :
    ∀ c ∈ setProp ms ids Propagation.slave, c.prop.group = none := by
  intro c hc
  obtain ⟨c', hc', rfl⟩ := List.mem_map.1 hc
  split
  · exact c'.prop.slave_group
  · next hids => exact h c' hc' hids

/-- The mounts below a path become slaves. -/
theorem BindTable.slave (h : BindTable host r entries f clones k) (path : Path) :
    ∃ f', BindTable host r entries f'
      (setProp clones (subtree k.mounts (k.resolve path).1) Propagation.slave)
      { k with
        mounts := setProp k.mounts (subtree k.mounts (k.resolve path).1) Propagation.slave } := by
  have hids := h.shape.host_notMem (noCopies_extra h.isClone)
    (h.shape.resolve_ne_host h.isClone path)
  refine ⟨_, h.shape.slave hids, IsClone.setProp h.isClone, fun e he => ?_⟩
  exact (h.shows e he).congr (setProp_bare clones _ _)

theorem Staged.slaved (h : Staged host r fl entries w) (path : Path) :
    Staged host r fl entries (w.slaved path) where
  wf := Watch.slaved_wf h.wf path
  copies := Watch.slaved_flags w path ▸ h.copies
  numbers := Watch.slaved_length w path ▸ h.numbers
  records e he := by
    obtain ⟨hflags, hbind⟩ := h.records e he
    refine ⟨fun i => ?_, ?_⟩
    · rw [Watch.slaved_flags, hflags]
    · unfold Watch.slaved
      split <;> exact hbind
  points := h.points
  table := by
    obtain ⟨f, clones, htable, hunshared⟩ := h.table
    rcases Watch.slaved_kernel w path with heq | heq
    · rw [heq]
      exact ⟨f, clones, htable, hunshared⟩
    · rw [heq]
      obtain ⟨f', htable'⟩ := htable.slave path
      exact ⟨f', _, htable', setProp_unshared fun c hc _ => hunshared c hc⟩

/-- The mounts that a bind makes. -/
def Kernel.bound (k : Kernel) (host : List HostMount) (origin point : Path) : List KMount :=
  cloneTree (.clone k.mounts.length) k.mounts (k.resolve origin) (tmpId host, point)

theorem BindTable.mount_bind (h : BindTable host r entries f clones k)
    (hpoint : Untouched (entries.map Entry.point) point) (origin : Path) :
    k.mount origin (bytes "tmp" :: point) bindFlags =
      { k with mounts := k.mounts ++ k.bound host origin point } :=
  congrArg (fun ms => { k with mounts := ms }) (h.shape.mounts_bind h.isClone hpoint origin)

/-- One more bind, on a place where there is none. -/
theorem BindTable.bind (h : BindTable host r entries f clones k) (hwf : k.Wf)
    (hnumbers : ∀ e ∈ entries, e.number < k.mounts.length) (horigin : origin ≠ [])
    (hpoint : point ≠ []) (huntouched : Untouched (entries.map Entry.point) point)
    (hapart : ∀ e ∈ entries, ¬ point <+: e.point) {e : Entry} (hepoint : e.point = point)
    (henumber : e.number = k.mounts.length)
    (hesource : ∀ path, e.source path = k.resolve (origin ++ path)) :
    BindTable host r (e :: entries) f (clones ++ k.bound host origin point)
      { k with mounts := k.mounts ++ k.bound host origin point } := by
  refine ⟨⟨h.shape.append _, h.shape.ns, h.shape.root⟩, fun c hc => ?_,
    List.forall_mem_cons.2 ⟨?_, fun e' he' => ?_⟩⟩
  · rw [List.map_cons, hepoint]
    rcases List.mem_append.1 hc with hc | hc
    · exact (h.isClone c hc).mono
    · exact h.shape.isClone_cloneTree h.isClone origin point _ c hc
  · have hmem {c : KMount} (hc : c ∈ clones) : c ∈ k.mounts := by
      rw [h.shape.mounts]
      exact List.mem_append_right _ (List.mem_append_right _ (List.mem_cons_of_mem _ hc))
    have hon : ∀ c ∈ clones, c.parent = tmpId host → ¬ c.point <+: point :=
      fun c hc hparent => huntouched _ ((h.isClone c hc).point_mem hparent)
    have hsource : e.source = fun path => walk k.mounts path (k.resolve origin) := by
      funext path
      rw [hesource, Kernel.resolve, Kernel.resolve, walk_append]
    rw [hepoint, henumber, hsource]
    exact shows_cloneTree (clone_injective _) hwf.ordered (hwf.resolve_mem origin)
      (hwf.ordered.uncovered_walk horigin _) (tmpId_ne_clone host _) hpoint
      (fun c hc i => (hwf.fresh c (hmem hc) i).2) hon
  · have hne : e'.number ≠ k.mounts.length := (hnumbers e' he').ne
    refine (h.shows e' he').append (fun c hc i hparent => ?_) fun c hc hparent hpre => ?_
    · rcases cloneTree_parent hc with ⟨hp, -⟩ | ⟨j, hp⟩
      · exact tmpId_ne_clone host _ _ (hp.symm.trans hparent)
      · exact hne (MountId.clone.inj (hparent.symm.trans hp)).1
    · rcases cloneTree_parent hc with ⟨-, hp⟩ | ⟨j, hp⟩
      · rw [hp] at hpre
        exact hapart e' he' hpre
      · exact tmpId_ne_clone host _ _ (hparent.symm.trans hp)

/-- The bind is found at its target. -/
theorem BindTable.resolve_entry (h : BindTable host r entries f clones k)
    (hpoints : [] ∉ entries.map Entry.point) {e : Entry} (he : e ∈ entries) (path : Path) :
    k.resolve (bytes "tmp" :: e.point ++ path) =
      (.clone e.number (e.source path).1, (e.source path).2) := by
  rw [List.cons_append, h.shape.resolve_clones h.isClone hpoints]
  exact (h.shows e he).below path

/-- The bind of `add_mount`, before its mounts become slaves. -/
theorem Staged.bind (h : Staged host r fl entries w) (horigin : origin ≠ [])
    (hpoint : point ≠ []) (huntouched : Untouched (entries.map Entry.point) point)
    (hapart : ∀ e ∈ entries, ¬ point <+: e.point) {k : Kernel}
    (hk : k = (w.slaved origin).kernel.mount origin (bytes "tmp" :: point) bindFlags) :
    k.Wf ∧ ∃ f clones, BindTable host r (w.entry origin point :: entries) f clones k ∧
      ∀ c ∈ clones, c.id ∉ subtree k.mounts
        (.clone w.kernel.mounts.length (w.kernel.resolve origin).1) → c.prop.group = none := by
  have hslaved := h.slaved origin
  have hlength := Watch.slaved_length w origin
  obtain ⟨f, clones, htable, hunshared⟩ := hslaved.table
  rw [htable.mount_bind huntouched origin] at hk
  have hwf : k.Wf := hk ▸ hslaved.wf.bind origin (tmpId_ne_clone host)
  refine ⟨hwf, f, _, hk ▸ htable.bind hslaved.wf hslaved.numbers horigin hpoint huntouched hapart
    rfl hlength.symm fun path => (Watch.slaved_resolve w origin _).symm, fun c hc hnot => ?_⟩
  rcases List.mem_append.1 hc with hc | hc
  · exact hunshared c hc
  · refine absurd ?_ hnot
    rw [← hlength, ← Watch.slaved_resolve w origin]
    refine mem_subtree_cloneTree hslaved.wf.ordered hwf.ordered (fun c hc => ?_)
      (hslaved.wf.resolve_mem origin) c hc
    rw [hk]
    exact List.mem_append_right _ hc

/-- **`add_mount` makes one more bind.** -/
theorem Staged.addMount (h : Staged host r fl entries w) (horigin : origin ≠ [])
    (hpoint : point ≠ []) (huntouched : Untouched (entries.map Entry.point) point)
    (hapart : ∀ e ∈ entries, ¬ point <+: e.point) :
    Staged host r fl (w.entry origin point :: entries)
      (w.addMount origin (bytes "tmp" :: point)) := by
  obtain ⟨hwf, f, clones, htable, hunshared⟩ := h.bind horigin hpoint huntouched hapart rfl
  have hpoints : [] ∉ (w.entry origin point :: entries).map Entry.point := by
    rw [List.map_cons, List.mem_cons, not_or]
    exact ⟨hpoint.symm, h.points⟩
  have htop := htable.resolve_entry hpoints List.mem_cons_self []
  have hat : (w.slaved origin).kernel.BindsAt origin (bytes "tmp" :: point) := by
    unfold Kernel.BindsAt
    rw [Watch.slaved_length, Watch.slaved_resolve]
    simpa [Watch.entry] using htop
  have hother {e : Entry} (he : e ∈ entries) : e.number ≠ w.kernel.mounts.length :=
    (h.numbers e he).ne
  have hkernel := Watch.addMount_kernel w origin (bytes "tmp" :: point)
  have hwf' : (w.addMount origin (bytes "tmp" :: point)).kernel.Wf := hkernel ▸ hwf.setProp _ _
  have hlength : w.kernel.mounts.length <
      (w.addMount origin (bytes "tmp" :: point)).kernel.mounts.length := by
    obtain ⟨m, hm, hid⟩ := hwf'.resolve_mem (bytes "tmp" :: point)
    have hresolve := Watch.addMount_resolve h.wf hat []
    rw [List.append_nil] at hresolve
    rw [hresolve] at hid
    exact hwf'.numbered m hm _ _ (.inl hid)
  constructor
  case wf => exact hwf'
  case copies =>
    intro n
    rw [Watch.addMount_flags_other hat (fun _ heq => by cases heq) rfl, h.copies]
  case numbers =>
    exact List.forall_mem_cons.2 ⟨hlength, fun e he => (h.numbers e he).trans hlength⟩
  case records =>
    have hbinds := Watch.addMount_binds w origin (bytes "tmp" :: point)
    refine List.forall_mem_cons.2
      ⟨⟨Watch.addMount_flags hat, hbinds ▸ List.mem_cons_self⟩, fun e he => ⟨fun i => ?_, ?_⟩⟩
    · rw [Watch.addMount_flags_other hat (fun j heq => hother he (MountId.clone.inj heq).1)
        (if_neg (hother he)), (h.records e he).flags]
    · exact hbinds ▸ List.mem_cons_of_mem _ (h.records e he).bind
  case points => exact hpoints
  case table =>
    obtain ⟨f', htable'⟩ := htable.slave (bytes "tmp" :: point)
    rw [hkernel]
    refine ⟨f', _, htable', setProp_unshared fun c hc hnot => hunshared c hc ?_⟩
    unfold Kernel.BindsAt at hat
    rwa [hat, Watch.slaved_length, Watch.slaved_resolve] at hnot

end

/-! ## The new root -/

/-- The tmpfs is the root, with the old root on `/old`. -/
structure Turned (host : List HostMount) (r : HostMount) (entries : List Entry) (w : Watch) :
    Prop where
  records : ∀ e ∈ entries, w.Records e
  table : ∃ f clones, Pivoted host r f clones (entries.map Entry.point) w.kernel ∧
    (∀ c ∈ clones, c.prop.group = none) ∧
    ∀ e ∈ entries, Shows clones (tmpId host) e.point (.clone e.number) e.source

/-- Without the old root, there are only the binds. -/
structure Rooted (host : List HostMount) (entries : List Entry) (w : Watch) : Prop where
  records : ∀ e ∈ entries, w.Records e
  root : w.kernel.root = (tmpId host, [])
  table : ∃ clones, (∀ path, ¬ [bytes "old"] <+: path →
      w.kernel.resolve path = walk clones path (tmpId host, [])) ∧
    (∀ c ∈ clones, IsClone host (entries.map Entry.point) c) ∧
    ∀ e ∈ entries, Shows clones (tmpId host) e.point (.clone e.number) e.source

section
variable {host : List HostMount} {r : HostMount} {f : HostMount → Propagation} {k : Kernel}
  {points : List Path} {clones : List KMount} {entries : List Entry} {w : Watch}
  {fl : ℕ → List MsFlag}

theorem isNew_tmpId (host : List HostMount) : IsNew (tmpId host) :=
  ⟨tmpId_ne_host host, tmpId_ne_copy host⟩

theorem IsClone.isNew_parent {c : KMount} (h : IsClone host points c) : IsNew c.parent := by
  rcases h.parent with ⟨n, i, hp⟩ | ⟨hp, -⟩
  · rw [hp]
    exact ⟨fun _ => nofun, fun _ hn => by cases hn⟩
  · rw [hp]
    exact isNew_tmpId host

/-- The binds are not detached with a copy. -/
theorem Pivoted.detach_eq (h : Pivoted host r f clones points k)
    (hunshared : ∀ c ∈ clones, c.prop.group = none) (a : ℕ) :
    ∃ rest, detach k.mounts (copyId a) = rest ++ newRoot host :: clones ∧
      ∀ m ∈ rest, m ∈ host.map HostMount.mount ++ host.map (HostMount.pivoted host r f) := by
  rw [h.mounts, ← List.append_assoc]
  refine exists_detach_append (P := IsNew) (fun m hm hnew => ?_) ?_ fun hnew => hnew.2 a rfl
  · rcases List.mem_append.1 hm with hm | hm
    · obtain ⟨x, -, rfl⟩ := List.mem_map.1 hm
      exact hnew.1 x.id rfl
    · obtain ⟨x, -, rfl⟩ := List.mem_map.1 hm
      exact hnew.2 x.id (pivoted_id x)
  · exact List.forall_mem_cons.2 ⟨⟨isNew_tmpId host, isNew_tmpId host, rfl⟩, fun c hc =>
      ⟨(h.clones c hc).isNew, (h.clones c hc).isNew_parent, hunshared c hc⟩⟩

/-- Then a path depends on the binds alone. -/
theorem Pivoted.walk_clones (h : Pivoted host r f clones points k) {rest : List KMount}
    (hrest : ∀ m ∈ rest, m ∈ host.map HostMount.mount ++ host.map (HostMount.pivoted host r f))
    {path : Path} (hpath : ¬ [bytes "old"] <+: path) :
    walk (rest ++ newRoot host :: clones) path (tmpId host, []) =
      walk clones path (tmpId host, []) := by
  rw [List.append_cons]
  refine walk_append_left path fun q name hq m hm hne hparent hpoint => ?_
  have hnew : IsNew (walk clones q (tmpId host, [])).1 :=
    walk_induction q (isNew_tmpId host) fun c hc _ => (h.clones c hc).isNew
  rcases List.mem_append.1 hm with hm | hm
  · rcases List.mem_append.1 (hrest m hm) with hm | hm
    · obtain ⟨x, -, rfl⟩ := List.mem_map.1 hm
      exact hnew.1 _ hparent.symm
    · obtain ⟨x, -, rfl⟩ := List.mem_map.1 hm
      unfold HostMount.pivoted at hparent hpoint
      split at hparent
      · next hr =>
        -- `/old` is reached in one step only
        have hwalk := walk_of_start (fun c hc => ?_) hparent.symm
        · rw [if_pos hr, hwalk] at hpoint
          have hold : [bytes "old"] = q ++ [name] := hpoint
          exact hpath (hold ▸ hq)
        · obtain ⟨n, i, hid⟩ := (h.clones c hc).id
          exact hid ▸ (tmpId_ne_clone host n i).symm
      · exact hnew.2 _ hparent.symm
  · rw [List.mem_singleton.1 hm] at hne
    exact hne rfl

/-- `umount2` -/
theorem Turned.umount (h : Turned host r entries w) (htree : IsTree r host) (rc : ℤ) :
    Rooted host entries
      { w with kernel := w.kernel.apply (.umount2 [bytes "old"] rc) } := by
  obtain ⟨f, clones, hpivoted, hunshared, hshows⟩ := h.table
  obtain ⟨rest, hdetach, hrest⟩ := hpivoted.detach_eq hunshared (topId host r)
  refine ⟨fun e he => ⟨(h.records e he).flags, (h.records e he).bind⟩, hpivoted.root, clones,
    fun path hpath => ?_, hpivoted.clones, hshows⟩
  show walk (detach w.kernel.mounts (w.kernel.resolve [bytes "old"]).1) path w.kernel.root = _
  rw [hpivoted.resolve_old htree, hdetach, hpivoted.root, hpivoted.walk_clones hrest hpath]

/-- **What a bind shows under the new root.** -/
theorem Rooted.resolve_entry (h : Rooted host entries w) {e : Entry} (he : e ∈ entries)
    (path : Path) (hpath : ¬ [bytes "old"] <+: e.point ++ path) :
    w.kernel.resolve (e.point ++ path) =
      (.clone e.number (e.source path).1, (e.source path).2) := by
  obtain ⟨clones, hresolve, -, hshows⟩ := h.table
  rw [hresolve _ hpath, (hshows e he).below]

/-- Elsewhere there is nothing but the tmpfs. -/
theorem Rooted.resolve_other (h : Rooted host entries w) {path : Path}
    (hpath : ¬ [bytes "old"] <+: path) (hother : Untouched (entries.map Entry.point) path) :
    w.kernel.resolve path = (tmpId host, path) := by
  obtain ⟨clones, hresolve, hclones, -⟩ := h.table
  rw [hresolve _ hpath]
  exact walk_untouched (fun c hc hparent => hother _ ((hclones c hc).point_mem hparent))
    List.prefix_rfl

end

/-! ## Stages of create_sandbox -/

/-- The calls are followed from the start, with the flags `fl` of the host's mounts. -/
def Watch.start (host : List HostMount) (r : HostMount) (fl : ℕ → List MsFlag) : Watch where
  kernel := Kernel.ofHost host r
  flags
    | .host n => fl n
    | _ => []
  binds := []
  found := none

/-- The bind of a directory of the host's root. -/
structure Entry.IsDir (host : List HostMount) (r : HostMount) (fl : ℕ → List MsFlag)
    (name : Bytes) (e : Entry) : Prop where
  point : e.point = [name]
  source : ∀ path, e.source path = copyAt host r (name :: path)
  flags : ∀ n, e.flags (copyId n) =
    if n = (walk host [name] (r.id, r.root)).1 then remountFlags else fl n

/-- The directories `names` are bound, and the file of an escaped `resolv.conf`. -/
structure Layout (host : List HostMount) (r : HostMount) (fl : ℕ → List MsFlag) (env : SandboxEnv)
    (names : List Bytes) (entries : List Entry) (found : Option (Location MountId Bytes)) :
    Prop where
  dirs : ∀ name ∈ names, ∃ e ∈ entries, e.IsDir host r fl name
  file : ∀ real ∈ env.realpath, Escaped real →
    ∃ e ∈ entries, e.origin = real ∧ e.point = real ∧ found = some (e.source [])
  only : ∀ e ∈ entries, (∃ name ∈ names, e.point = [name]) ∨
    ∃ real ∈ env.realpath, Escaped real ∧ e.point = real ∧
      ∀ name ∈ [bytes "run", bytes "old"], ¬ real <+: [name]
  found : ∀ real ∈ env.realpath, ¬ [bytes "tmp"] <+: real → found = some (copyAt host r real)

section
variable {host : List HostMount} {r : HostMount} {f : HostMount → Propagation} {k : Kernel}
  {entries : List Entry} {w : Watch} {fl : ℕ → List MsFlag} {env : SandboxEnv}
  {names : List Bytes}

theorem ordered_mounts (htree : IsTree r host) : Ordered (host.map HostMount.mount) :=
  htree.ordered.map (f := MountId.host) (fun _ _ heq => MountId.host.inj heq)
    fun _ => ⟨rfl, rfl, rfl, rfl⟩

theorem Kernel.Wf.ofHost (htree : IsTree r host) : (Kernel.ofHost host r).Wf := by
  refine ⟨ordered_mounts htree, fun m hm n i hor => ?_, HostMount.mount r, ?_, rfl⟩
  · obtain ⟨x, -, rfl⟩ := List.mem_map.1 hm
    rcases hor with hid | hid <;> cases hid
  · obtain ⟨rest, hcons, -⟩ := htree.eq_cons
    exact List.mem_map_of_mem (hcons ▸ List.mem_cons_self)

theorem Shape.wf_tmpfs (h : Shape host r f [tmpMount host r] k) (htree : IsTree r host) : k.Wf := by
  have hcopies : Ordered (host.map (HostMount.copied f)) :=
    htree.ordered.map copyId_injective copied_relabels
  obtain ⟨rest, hcons, -⟩ := htree.eq_cons
  constructor
  case ordered =>
    rw [h.mounts]
    refine List.pairwise_append.2 ⟨ordered_mounts htree, List.pairwise_append.2
      ⟨hcopies, List.pairwise_singleton _ _, fun x hx y hy => ?_⟩, fun x hx y hy => ?_⟩
    · obtain ⟨m, -, rfl⟩ := List.mem_map.1 hx
      rw [List.mem_singleton.1 hy]
      exact ⟨tmpId_ne_copy host _, tmpId_ne_copy host _⟩
    · obtain ⟨m, -, rfl⟩ := List.mem_map.1 hx
      have hid : ∀ n, y.id ≠ .host n := by
        rcases List.mem_append.1 hy with hy | hy
        · obtain ⟨m', -, rfl⟩ := List.mem_map.1 hy
          exact copyId_ne_host _
        · rw [List.mem_singleton.1 hy]
          exact tmpId_ne_host host
      exact ⟨hid _, hid _⟩
  case numbered =>
    intro m hm n i hor
    rcases h.mem_cases hm with ⟨x, -, rfl⟩ | ⟨x, -, rfl⟩ | hm
    · rcases hor with hid | hid <;> cases hid
    · rcases hor with hid | hid <;> cases hid
    · rw [List.mem_singleton.1 hm] at hor
      rcases hor with hid | hid <;> cases hid
  case root =>
    refine ⟨r.copied f, ?_, by rw [h.root]; rfl⟩
    rw [h.mounts]
    refine List.mem_append_right _ (List.mem_append_left _ (List.mem_map_of_mem ?_))
    rw [hcons]
    exact List.mem_cons_self

/-- The tmpfs is mounted. -/
theorem RootPrivate.staged (h : RootPrivate host r w.kernel)
    (hcopies : ∀ n, w.flags (copyId n) = fl n) (htree : IsTree r host)
    (htmp : TmpUnshared host r) : Staged host r fl []
      (w.mount [bytes "tmpfs"] [bytes "tmp"] [.msNosuid, .msNodev, .msNoexec]) := by
  obtain ⟨f, hshape, -⟩ := h.shape_tmpfs htmp (bytes "tmpfs") [] [] 0
  exact {
    wf := hshape.wf_tmpfs htree
    copies := hcopies
    numbers := fun _ he => absurd he List.not_mem_nil
    records := fun _ he => absurd he List.not_mem_nil
    points := List.not_mem_nil
    table := ⟨f, [], ⟨hshape, fun _ hc => absurd hc List.not_mem_nil,
      fun _ he => absurd he List.not_mem_nil⟩, fun _ hc => absurd hc List.not_mem_nil⟩ }

theorem Staged.resolve_host (h : Staged host r fl entries w) (htree : IsTree r host) {path : Path}
    (hpath : ¬ [bytes "tmp"] <+: path) : w.kernel.resolve path = copyAt host r path := by
  obtain ⟨f, clones, htable, -⟩ := h.table
  exact htable.shape.resolve_host htree htable.isClone hpath

/-- The entry that `add_mount` makes for a directory. -/
theorem Staged.isDir (h : Staged host r fl entries w) (htree : IsTree r host) {name : Bytes}
    (hname : name ≠ bytes "tmp") : (w.entry [name] [name]).IsDir host r fl name := by
  have hresolve (path : Path) : w.kernel.resolve (name :: path) = copyAt host r (name :: path) := by
    refine h.resolve_host htree fun hpre => hname ?_
    exact (List.cons_prefix_cons.1 hpre).1.symm
  refine ⟨rfl, hresolve, fun n => ?_⟩
  show (if copyId n = (w.kernel.resolve [name]).1 then remountFlags else w.flags (copyId n)) = _
  rw [hresolve [], h.copies]
  simp only [copyAt, copyId_injective.eq_iff]

/-- `chdir`, and what `realpath` finds. -/
theorem Staged.congr (h : Staged host r fl entries w) (cwd : Location MountId Bytes)
    (found : Option (Location MountId Bytes)) : Staged host r fl entries
      { w with kernel := { w.kernel with cwd }, found } := by
  obtain ⟨f, clones, htable, hunshared⟩ := h.table
  exact {
    wf := ⟨h.wf.ordered, h.wf.numbered, h.wf.root⟩
    copies := h.copies
    numbers := h.numbers
    records := fun e he => ⟨(h.records e he).flags, (h.records e he).bind⟩
    points := h.points
    table := ⟨f, clones, ⟨⟨htable.shape.mounts, htable.shape.ns, htable.shape.root⟩,
      htable.isClone, htable.shows⟩, hunshared⟩ }

end

/-! ## Following create_sandbox -/

/-- Errors that the kernel documents: `EINVAL` if the new root is on a shared mount, and
    `ENOTEMPTY` if the file of an escaped `resolv.conf` is below `/old`. -/
structure SandboxEnv.Lawful (env : SandboxEnv) (host : List HostMount) (r : HostMount) : Prop where
  pivotRoot : ¬ TmpUnshared host r → env.pivotRoot < 0
  rmdir : ∀ real ∈ env.realpath, Escaped real → [bytes "old"] <+: real → env.rmdir < 0

/-- The binds so far, if `/tmp` is not on a shared mount. -/
def Bound (host : List HostMount) (r : HostMount) (fl : ℕ → List MsFlag) (env : SandboxEnv)
    (names : List Bytes) (w : Watch) : Prop :=
  TmpUnshared host r →
    ∃ entries, Layout host r fl env names entries w.found ∧ Staged host r fl entries w

/-- `/etc` is bound, and nothing else. -/
def EtcBound (host : List HostMount) (r : HostMount) (fl : ℕ → List MsFlag) (w : Watch) : Prop :=
  TmpUnshared host r → ∃ e, e.IsDir host r fl (bytes "etc") ∧ Staged host r fl [e] w

section
variable {host : List HostMount} {r : HostMount} {entries : List Entry} {w w₀ : Watch}
  {fl : ℕ → List MsFlag} {env : SandboxEnv} {names : List Bytes} {e : Entry} {real : Path}

/-- The only bind is that of `/etc`. -/
theorem Layout.etc (he : e.IsDir host r fl (bytes "etc")) {found : Option (Location MountId Bytes)}
    (hfile : ∀ real ∈ env.realpath, ¬ Escaped real)
    (hfound : ∀ real ∈ env.realpath, ¬ [bytes "tmp"] <+: real →
      found = some (copyAt host r real)) :
    Layout host r fl env [bytes "etc"] [e] found where
  dirs name hname := by
    rw [List.mem_singleton.1 hname]
    exact ⟨e, List.mem_cons_self, he⟩
  file real hreal hescaped := absurd hescaped (hfile real hreal)
  only e' he' := by
    rw [List.mem_singleton.1 he']
    exact .inl ⟨_, List.mem_cons_self, he.point⟩
  found := hfound

/-- The file is bound as well. -/
theorem Layout.escaped (he : e.IsDir host r fl (bytes "etc")) (htree : IsTree r host)
    (hstaged : Staged host r fl [e] w) (hreal : env.realpath = some real) (hescaped : Escaped real)
    (hapart : ∀ name ∈ [bytes "run", bytes "old"], ¬ real <+: [name]) :
    Layout host r fl env [bytes "etc"] [w.entry real real, e] (some (w.kernel.resolve real)) where
  dirs name hname := by
    rw [List.mem_singleton.1 hname]
    exact ⟨e, List.mem_cons_of_mem _ List.mem_cons_self, he⟩
  file real' hreal' _ := by
    obtain rfl : real = real' := Option.some.inj (hreal.symm.trans hreal')
    refine ⟨_, List.mem_cons_self, rfl, rfl, ?_⟩
    show _ = some (w.kernel.resolve (real ++ []))
    rw [List.append_nil]
  only := by
    refine List.forall_mem_cons.2 ⟨.inr ⟨real, hreal, hescaped, rfl, hapart⟩, fun e' he' => ?_⟩
    rw [List.mem_singleton.1 he']
    exact .inl ⟨_, List.mem_cons_self, he.point⟩
  found real' hreal' htmp := by
    obtain rfl : real = real' := Option.some.inj (hreal.symm.trans hreal')
    rw [hstaged.resolve_host htree htmp]

/-- None of the binds is on the way to another directory, -/
theorem Layout.untouched {found : Option (Location MountId Bytes)}
    (h : Layout host r fl env names entries found) {name : Bytes}
    (hname : name ∈ [bytes "run", bytes "old"]) (hnames : name ∉ names) :
    Untouched (entries.map Entry.point) [name] := by
  intro q hq
  obtain ⟨e, he, rfl⟩ := List.mem_map.1 hq
  rcases h.only e he with ⟨name', hname', hpoint⟩ | ⟨real, -, -, hpoint, hapart⟩
  · rw [hpoint]
    exact not_prefix_of_ne fun heq => hnames (heq ▸ hname')
  · rw [hpoint]
    exact hapart name hname

/-- nor below `/run`. -/
theorem Layout.not_below_run {found : Option (Location MountId Bytes)}
    (h : Layout host r fl env names entries found) (hnames : bytes "run" ∉ names) :
    ∀ e ∈ entries, ¬ [bytes "run"] <+: e.point := by
  intro e he
  rcases h.only e he with ⟨name, hname, hpoint⟩ | ⟨real, -, hescaped, hpoint, -⟩
  · rw [hpoint]
    exact not_prefix_of_ne fun heq => hnames (heq ▸ hname)
  · rw [hpoint]
    exact hescaped.not_dir _ (List.mem_cons_of_mem _ List.mem_cons_self)

/-- `/run` is bound. -/
theorem Bound.addRun (h : Bound host r fl env [bytes "etc"] w) (htree : IsTree r host) :
    Bound host r fl env [bytes "run", bytes "etc"]
      (w.addMount [bytes "run"] [bytes "tmp", bytes "run"]) := by
  intro htmp
  obtain ⟨entries, hlayout, hstaged⟩ := h htmp
  have hnames : bytes "run" ∉ [bytes "etc"] := by decide
  refine ⟨_, ?_, hstaged.addMount (List.cons_ne_nil _ _) (List.cons_ne_nil _ _)
    (hlayout.untouched List.mem_cons_self hnames) (hlayout.not_below_run hnames)⟩
  rw [Watch.addMount_found]
  constructor
  case dirs =>
    refine List.forall_mem_cons.2 ⟨⟨_, List.mem_cons_self, hstaged.isDir htree ?_⟩, ?_⟩
    · decide
    · intro name hname
      obtain ⟨e, he, hdir⟩ := hlayout.dirs name hname
      exact ⟨e, List.mem_cons_of_mem _ he, hdir⟩
  case file =>
    intro real hreal hescaped
    obtain ⟨e, he, hfile⟩ := hlayout.file real hreal hescaped
    exact ⟨e, List.mem_cons_of_mem _ he, hfile⟩
  case only =>
    refine List.forall_mem_cons.2 ⟨.inl ⟨_, List.mem_cons_self, rfl⟩, fun e he => ?_⟩
    exact (hlayout.only e he).imp_left fun ⟨name, hname, hpoint⟩ =>
      ⟨name, List.mem_cons_of_mem _ hname, hpoint⟩
  case found => exact hlayout.found

/-- The file of an escaped `resolv.conf` is bound. -/
theorem EtcBound.addFile (h : EtcBound host r fl w) (htree : IsTree r host)
    (hfound : w.found = some (w.kernel.resolve real)) (hreal : env.realpath = some real)
    (hescaped : Escaped real) (hcreat : 0 ≤ env.creat (bytes "tmp" :: real)) :
    Bound host r fl env [bytes "etc"] (w.addMount real (bytes "tmp" :: real)) := by
  intro htmp
  obtain ⟨e, he, hstaged⟩ := h htmp
  obtain ⟨huntouched, hrun, hold⟩ := hescaped.untouched env hcreat
  have hapart : ∀ name ∈ [bytes "run", bytes "old"], ¬ real <+: [name] :=
    List.forall_mem_cons.2 ⟨hrun real List.mem_cons_self, List.forall_mem_singleton.2
      (hold real List.mem_cons_self)⟩
  have hne : real ≠ [] := by
    rintro rfl
    exact hrun [] List.mem_cons_self List.nil_prefix
  refine ⟨_, ?_, hstaged.addMount hne hne ?_ ?_⟩
  · rw [Watch.addMount_found, hfound]
    exact Layout.escaped he htree hstaged hreal hescaped hapart
  · rw [List.map_singleton, he.point]
    exact huntouched
  · rw [List.forall_mem_singleton, he.point]
    intro hpre
    rcases eq_of_prefix_dir hpre with hnil | heq
    · exact hne hnil
    · exact hescaped.not_dir _ List.mem_cons_self (heq ▸ List.prefix_rfl)

theorem bindEscapedResolvConf_watched (htree : IsTree r host) :
    Returns (Watched w₀ (EtcBound host r fl)) (bindEscapedResolvConf env [bytes "tmp"])
      (Watched w₀ (Bound host r fl env [bytes "etc"])) := by
  refine Returns.call (R := Watched w₀ fun w => EtcBound host r fl w ∧
    w.found = env.realpath.map w.kernel.resolve) (fun cs k hs => ?_) ?_
  · have hfound (w : Watch) (hw : w.kernel = k) :
        (w.step (.realpath [bytes "etc", bytes "resolv.conf"] env.realpath)).kernel = k := hw
    refine (hs.snoc hfound).imp ?_
    rintro _ - ⟨w, hw, rfl⟩
    refine ⟨fun htmp => ?_, rfl⟩
    obtain ⟨e, he, hstaged⟩ := hw htmp
    exact ⟨e, he, hstaged.congr w.kernel.cwd _⟩
  cases hreal : env.realpath with
  | none =>
    refine Returns.pure fun cs k hs => hs.imp fun w _ hw htmp => ?_
    obtain ⟨e, he, hstaged⟩ := hw.1 htmp
    refine ⟨[e], .etc he ?_ ?_, hstaged⟩ <;> rw [hreal] <;> exact nofun
  | some real =>
    refine Returns.ite (fun hescaped => ?_) fun hescaped => ?_
    · refine Returns.call (fun cs k hs => hs.other fun _ => rfl) ?_
      refine Returns.attempt (fun _ cs k hs => hs.other fun _ => rfl) fun _ => ?_
      refine Returns.attempt (fun _ cs k hs => hs.other fun _ => rfl) fun hcreat => ?_
      refine Returns.call (fun cs k hs => hs.other fun _ => rfl) (Returns.report ?_ _)
      exact addMount_watched (fun w hw => hw.1.addFile htree hw.2 hreal hescaped hcreat) env.resolv
    · refine Returns.pure fun cs k hs => hs.imp fun w _ hw htmp => ?_
      obtain ⟨e, he, hstaged⟩ := hw.1 htmp
      refine ⟨[e], .etc he ?_ ?_, hstaged⟩
      · rw [hreal]
        rintro _ ⟨⟩
        exact hescaped
      · rw [hreal]
        rintro _ ⟨⟩ hpath
        rw [hw.2, Option.map_some, hstaged.resolve_host htree hpath]

/-- All binds were made, and the old root is gone. -/
def Shown (host : List HostMount) (r : HostMount) (fl : ℕ → List MsFlag) (env : SandboxEnv)
    (w : Watch) : Prop :=
  ∃ entries, Layout host r fl env [bytes "run", bytes "etc"] entries w.found ∧ Rooted host entries w

/-- `chdir` and `pivot_root` -/
theorem Bound.turn (h : Bound host r fl env [bytes "run", bytes "etc"] w)
    (htmp : TmpUnshared host r) (rc rc' : ℤ) :
    ∃ entries, Layout host r fl env [bytes "run", bytes "etc"] entries w.found ∧
      Turned host r entries { w with
        kernel := (w.kernel.apply (.chdir [bytes "tmp"] rc)).apply (.pivotRoot rc') } := by
  obtain ⟨entries, hlayout, hstaged⟩ := h htmp
  obtain ⟨f, clones, htable, hunshared⟩ := hstaged.table
  have hcwd : w.kernel.resolve [bytes "tmp"] = (tmpId host, []) :=
    htable.shape.resolve_clones htable.isClone hstaged.points []
  have hold : Untouched (entries.map Entry.point) [bytes "old"] :=
    hlayout.untouched (List.mem_cons_of_mem _ List.mem_cons_self) (by decide)
  have hshape : Shape host r f (tmpMount host r :: clones)
      (w.kernel.apply (.chdir [bytes "tmp"] rc)) :=
    ⟨htable.shape.mounts, htable.shape.ns, htable.shape.root⟩
  refine ⟨entries, hlayout, fun e he => ?_, f, clones, ?_, hunshared, htable.shows⟩
  · exact ⟨(hstaged.records e he).flags, (hstaged.records e he).bind⟩
  · exact hshape.pivotRoot htable.isClone hold hcwd rc'

theorem Turned.chdir (h : Turned host r entries w) (path : Path) (rc : ℤ) :
    Turned host r entries { w with kernel := w.kernel.apply (.chdir path rc) } := by
  obtain ⟨f, clones, hpivoted, htable⟩ := h.table
  refine ⟨fun e he => ⟨(h.records e he).flags, (h.records e he).bind⟩, f, clones, ?_, htable⟩
  exact ⟨hpivoted.mounts, hpivoted.clones, hpivoted.old, hpivoted.root⟩

/-- The flags of the root are of no concern to the binds. -/
theorem Rooted.remount (h : Rooted host entries w) (source : Path) :
    Rooted host entries (w.mount source [] [.msRemount, .msRdonly]) := by
  have hroot : (w.kernel.resolve []).1 = tmpId host := congrArg Prod.fst h.root
  refine ⟨fun e he => ⟨fun i => ?_, (h.records e he).bind⟩, h.root, h.table⟩
  rw [← (h.records e he).flags i]
  refine Function.update_of_ne (fun heq => ?_) _ _
  exact tmpId_ne_clone host e.number i (hroot.symm.trans heq.symm)

theorem dropCaps_watched {A : Watch → Prop} {Q : List SandboxCall → Kernel → Prop}
    {next : SandboxProg ℤ} (env : SandboxEnv) (hnext : Returns (Watched w₀ A) next Q) (i n : ℕ) :
    Returns (Watched w₀ A) (dropCaps env next i n) Q := by
  induction n generalizing i with
  | zero => exact Returns.call (fun _ _ hs => hs.other fun _ => rfl) hnext
  | succ n ih =>
    refine Returns.ite (fun _ => ih (i + 1)) fun _ => ?_
    exact Returns.attempt (fun _ _ _ hs => hs.other fun _ => rfl) fun _ => ih (i + 1)

theorem leaveOld_watched (htree : IsTree r host) :
    Returns (Watched w₀ fun w => ∃ entries, Layout host r fl env [bytes "run", bytes "etc"] entries
      w.found ∧ Turned host r entries w) (leaveOld env)
      (Watched w₀ fun w => 0 ≤ env.rmdir ∧ Shown host r fl env w) := by
  refine Returns.attempt (fun hrc cs k hs => hs.apply fun w => if_neg (Int.not_lt.2 hrc)) ?_
  intro _
  refine Returns.attempt (fun hrc cs k hs => hs.apply fun w => if_neg (Int.not_lt.2 hrc)) ?_
  intro _
  refine Returns.attempt (R := Watched w₀ (Shown host r fl env)) (fun _ cs k hs => ?_) ?_
  · refine (hs.other fun _ => rfl).imp ?_
    rintro _ - ⟨_, ⟨w, ⟨entries, hlayout, hturned⟩, rfl⟩, rfl⟩
    exact ⟨entries, hlayout, (hturned.chdir [] _).umount htree _⟩
  intro hrmdir
  refine Returns.call (R := Watched w₀ (Shown host r fl env)) (fun cs k hs => ?_) ?_
  · have hstep (w : Watch) : w.step (.mount [bytes "tmpfs"] [] (bytes "tmpfs")
        [.msRemount, .msRdonly] (bytes "size=0k") env.remount) =
          if env.remount < 0 then w else w.mount [bytes "tmpfs"] [] [.msRemount, .msRdonly] := rfl
    unfold Watched
    rw [List.foldl_concat, hstep]
    split
    · exact hs
    · obtain ⟨hk, entries, hlayout, hrooted⟩ := hs
      exact ⟨hk, entries, hlayout, hrooted.remount _⟩
  refine Returns.warn (fun cs k hs => hs.other fun _ => rfl) ?_
  refine Returns.attempt (fun _ cs k hs => hs.other fun _ => rfl) fun _ => ?_
  refine Returns.attempt (fun _ cs k hs => hs.other fun _ => rfl) fun _ => ?_
  refine dropCaps_watched env ?_ _ _
  refine Returns.attempt (fun _ cs k hs => hs.other fun _ => rfl) fun _ => ?_
  exact Returns.pure fun cs k hs => hs.imp fun w _ hw => ⟨hrmdir, hw⟩

theorem bindHost_watched (htree : IsTree r host) (hlaw : env.Lawful host r) :
    Returns (Watched w₀ fun w => TmpUnshared host r → Staged host r fl [] w) (bindHost env)
      (Watched w₀ fun w => TmpUnshared host r ∧ 0 ≤ env.rmdir ∧ Shown host r fl env w) := by
  have hnil (path : Path) : Untouched [] path := fun _ hq => absurd hq List.not_mem_nil
  have hetc (w : Watch) (hw : TmpUnshared host r → Staged host r fl [] w) :
      EtcBound host r fl (w.addMount [bytes "etc"] [bytes "tmp", bytes "etc"]) := by
    intro htmp
    refine ⟨_, (hw htmp).isDir htree ?_, (hw htmp).addMount (List.cons_ne_nil _ _)
      (List.cons_ne_nil _ _) (hnil _) fun _ he => absurd he List.not_mem_nil⟩
    decide
  refine Returns.orReturn (addMount_watched hetc env.etc) ?_
  refine Returns.orReturn (bindEscapedResolvConf_watched htree) ?_
  refine Returns.orReturn (addMount_watched (fun w hw => hw.addRun htree) env.run) ?_
  refine Returns.attempt (fun hrc cs k hs => hs.apply fun w => if_neg (Int.not_lt.2 hrc)) ?_
  intro _
  refine Returns.attempt (fun hrc cs k hs => hs.apply fun w => if_neg (Int.not_lt.2 hrc)) ?_
  intro hpivot
  have htmp : TmpUnshared host r := by
    by_contra hnot
    exact absurd hpivot (Int.not_le.2 (hlaw.pivotRoot hnot))
  refine (leaveOld_watched htree).conseq (fun cs k hs => hs.imp ?_)
    fun cs k hs => hs.imp fun w _ hw => ⟨htmp, hw⟩
  rintro _ - ⟨_, ⟨w, hw, rfl⟩, rfl⟩
  exact hw.turn htmp env.chdirTmp env.pivotRoot

/-- **After a `create_sandbox` that succeeds, the sandbox shows the binds and nothing else.** -/
theorem createSandbox_watched (fl : ℕ → List MsFlag) (htree : IsTree r host)
    (hlaw : env.Lawful host r) :
    Returns (Watched (.start host r fl) fun w => w = .start host r fl) (createSandbox env)
      (Watched (.start host r fl) fun w =>
        TmpUnshared host r ∧ 0 ≤ env.rmdir ∧ Shown host r fl env w) := by
  refine Returns.attempt (R := Watched (.start host r fl) fun w =>
    Shape host r Mount.prop [] w.kernel ∧ ∀ n, w.flags (copyId n) = fl n)
    (fun hrc cs k hs => ?_) fun _ => ?_
  · have hstep (w : Watch) (hw : w.kernel = k) :
        (w.step (.unshare env.unshare)).kernel = k.apply (.unshare env.unshare) := by
      rw [Watch.step, if_neg (Int.not_lt.2 hrc), hw]
    refine (hs.snoc hstep).imp ?_
    rintro _ - ⟨w, rfl, rfl⟩
    rw [Watch.step, if_neg (Int.not_lt.2 hrc)]
    exact ⟨Shape.unshare host r env.unshare, fun _ => rfl⟩
  refine Returns.attempt (fun hrc cs k hs => hs.mount hrc) fun _ => ?_
  refine Returns.attempt (fun hrc cs k hs => hs.mount hrc) fun _ => ?_
  refine Returns.attempt (fun _ cs k hs => hs.other fun _ => rfl) fun _ => ?_
  refine Returns.attempt (fun _ cs k hs => hs.other fun _ => rfl) fun _ => ?_
  refine Returns.attempt (fun _ cs k hs => hs.other fun _ => rfl) fun _ => ?_
  refine (bindHost_watched htree hlaw).conseq (fun cs k hs => hs.imp ?_) fun _ _ hs => hs
  rintro _ - ⟨_, ⟨w, ⟨hshape, hcopies⟩, rfl⟩, rfl⟩ htmp
  have hprivate : RootPrivate host r (w.mount [] [] [.msPrivate]).kernel := hshape.makePrivate 0
  exact hprivate.staged hcopies htree htmp

end

end Slirp4netns
