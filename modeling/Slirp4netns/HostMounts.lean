/-
  slirp4netns formalization — what `create_sandbox` does to the mounts of the host.

  The mount namespace of the sandbox starts with copies of all mounts of the host,
  in their peer groups (`Shape`); then there is a tmpfs on `/tmp` with binds on it
  (`InTmp`), which becomes the root (`Pivoted`), and the old root is detached
  (`Left`).  Each call of the code takes one such state to another.

  Only the root mount is made private.  So the mounts of the host stay as they are
  exactly if nothing is mounted on a shared mount at `/tmp`, and nothing below a
  shared mount is detached from it with the old root (`host_unchanged`).
-/
import Slirp4netns.Lib.Clones
import Slirp4netns.Sandbox

namespace Slirp4netns

open MountTable

/-! ## The mounts of the sandbox -/

/-- A mount of the host before the call. -/
abbrev HostMount := Mount ℕ Bytes Unit

/-- A mount of the host, in the kernel. -/
def HostMount.mount (m : HostMount) : KMount :=
  ⟨.host m.id, .host m.parent, .host, m.root, m.point, m.prop⟩

/-- The copy of a mount in the namespace of the sandbox. -/
def copyId (n : ℕ) : MountId := .copy (.host n)

theorem copyId_injective : Function.Injective copyId := by
  intro m n h
  cases h
  rfl

theorem copyId_ne_host (m n : ℕ) : copyId m ≠ .host n := by
  intro h
  cases h

/-- Its copy in the sandbox, with the propagation `f m`. -/
def HostMount.copied (f : HostMount → Propagation) (m : HostMount) : KMount :=
  ⟨copyId m.id, copyId m.parent, .sandbox, m.root, m.point, f m⟩

/-- The process in the host's namespaces, with its root mount `r`. -/
def Kernel.ofHost (host : List HostMount) (r : HostMount) : Kernel :=
  ⟨host.map HostMount.mount, .host, (.host r.id, r.root), (.host r.id, r.root)⟩

/-- The table after `unshare`: the host's mounts, their copies and some more. -/
structure Shape (host : List HostMount) (r : HostMount) (f : HostMount → Propagation)
    (extra : List KMount) (k : Kernel) : Prop where
  mounts : k.mounts = host.map HostMount.mount ++ (host.map (HostMount.copied f) ++ extra)
  ns : k.ns = .sandbox
  root : k.root = (copyId r.id, r.root)

/-- The copies in `cleared` are not shared, and the others are as their originals if this is
    all that was cleared. -/
structure Cleared (host : List HostMount) (f : HostMount → Propagation) (sharp : Prop)
    (cleared : ℕ → Prop) : Prop where
  unshared : ∀ m ∈ host, cleared m.id → (f m).group = none
  keep : ∀ m ∈ host, m.prop.group = none → (f m).group = none
  same : sharp → ∀ m ∈ host, ¬ cleared m.id → (f m).group = m.prop.group

section
variable {host : List HostMount} {r : HostMount} {f : HostMount → Propagation}
  {extra : List KMount} {k : Kernel}

/-- What a mount of the table is. -/
theorem Shape.mem_cases (h : Shape host r f extra k) {m : KMount} (hm : m ∈ k.mounts) :
    (∃ x ∈ host, m = x.mount) ∨ (∃ x ∈ host, m = x.copied f) ∨ m ∈ extra := by
  rw [h.mounts] at hm
  rcases List.mem_append.1 hm with hm | hm
  · obtain ⟨x, hx, rfl⟩ := List.mem_map.1 hm
    exact .inl ⟨x, hx, rfl⟩
  · rcases List.mem_append.1 hm with hm | hm
    · obtain ⟨x, hx, rfl⟩ := List.mem_map.1 hm
      exact .inr (.inl ⟨x, hx, rfl⟩)
    · exact .inr (.inr hm)

/-- The mounts of the host are all there are in its namespace. -/
theorem hostTree_of_append {others : List KMount}
    (h : k.mounts = host.map HostMount.mount ++ others) (hothers : ∀ x ∈ others, x.ns = .sandbox) :
    k.hostTree = host.map HostMount.mount := by
  rw [Kernel.hostTree, h, List.filter_append]
  have hhost : (host.map HostMount.mount).filter (fun m => m.ns = .host) =
      host.map HostMount.mount := by
    refine List.filter_eq_self.2 fun x hx => ?_
    obtain ⟨m, -, rfl⟩ := List.mem_map.1 hx
    rfl
  have hnone : others.filter (fun m => m.ns = .host) = [] := by
    refine List.filter_eq_nil_iff.2 fun x hx => ?_
    rw [hothers x hx]
    exact Bool.false_ne_true
  rw [hhost, hnone, List.append_nil]

theorem Shape.hostTree (h : Shape host r f extra k) (hextra : ∀ x ∈ extra, x.ns = .sandbox) :
    k.hostTree = host.map HostMount.mount := by
  refine hostTree_of_append h.mounts fun x hx => ?_
  rcases List.mem_append.1 hx with hx | hx
  · obtain ⟨m, -, rfl⟩ := List.mem_map.1 hx
    rfl
  · exact hextra x hx

theorem copied_relabels (m : HostMount) : Relabels copyId m (m.copied f) := ⟨rfl, rfl, rfl, rfl⟩

/-- Nothing of the host is mounted on a mount of the sandbox. -/
theorem follow_host {l : Location MountId Bytes} (hl : ∀ n, l.1 ≠ .host n) :
    follow (host.map HostMount.mount) l = l := by
  refine follow_of_parent fun x hx => ?_
  obtain ⟨m, -, rfl⟩ := List.mem_map.1 hx
  exact (hl _).symm

/-- From a copy one gets where one gets from its original, and on to the other mounts. -/
theorem Shape.follow_copy (h : Shape host r f extra k) (n : ℕ) (d : Path) :
    follow k.mounts (copyId n, d) =
      follow extra (copyId (follow host (n, d)).1, (follow host (n, d)).2) := by
  rw [h.mounts, follow_append, follow_append, follow_host (copyId_ne_host n)]
  rw [follow_map copyId_injective (fun m _ => copied_relabels m) (n, d)]

/-- After `unshare`. -/
theorem Shape.unshare (host : List HostMount) (r : HostMount) (rc : ℤ) :
    Shape host r Mount.prop [] ((Kernel.ofHost host r).apply (.unshare rc)) where
  mounts := by
    have hall : (host.map HostMount.mount).filter (fun m => m.ns = .host) =
        host.map HostMount.mount := by
      refine List.filter_eq_self.2 fun x hx => ?_
      obtain ⟨m, -, rfl⟩ := List.mem_map.1 hx
      rfl
    show copyTree _ _ _ _ = _
    rw [copyTree, Kernel.ofHost, hall, List.map_map, List.append_nil]
    rfl
  ns := rfl
  root := rfl

/-- Another propagation for some mounts of the sandbox. -/
theorem Shape.setProp (h : Shape host r f extra k) {ids : List MountId}
    (hids : ∀ n, .host n ∉ ids) (change : Propagation → Propagation) :
    Shape host r (fun m => if copyId m.id ∈ ids then change (f m) else f m)
      (MountTable.setProp extra ids change)
      { k with mounts := MountTable.setProp k.mounts ids change } where
  mounts := by
    show MountTable.setProp k.mounts ids change = _
    rw [h.mounts]
    simp only [MountTable.setProp, List.map_append, List.map_map]
    congr 1
    · refine List.map_congr_left fun m _ => ?_
      exact if_neg (hids m.id)
    · congr 1
      refine List.map_congr_left fun m _ => ?_
      by_cases hm : copyId m.id ∈ ids <;> simp [HostMount.copied, hm]
  ns := h.ns
  root := h.root

/-- The mount of a new name has it. -/
structure NoCopies (extra : List KMount) : Prop where
  host : ∀ x ∈ extra, ∀ n, x.id ≠ .host n
  copy : ∀ x ∈ extra, ∀ n, x.id ≠ copyId n

/-- What is below a mount of the sandbox is not the host's. -/
theorem Shape.host_notMem (h : Shape host r f extra k) (hextra : NoCopies extra) {i : MountId}
    (hi : ∀ n, i ≠ .host n) (n : ℕ) : .host n ∉ subtree k.mounts i := by
  rw [subtree, h.mounts, List.foldl_append]
  have hhost : (host.map HostMount.mount).foldl (grow i) [] = [] := by
    refine grow_of_not (fun x hx => ?_) fun _ _ => List.not_mem_nil
    obtain ⟨m, -, rfl⟩ := List.mem_map.1 hx
    exact (hi _).symm
  rw [hhost, mem_grow_iff]
  · exact List.not_mem_nil
  · intro x hx
    rcases List.mem_append.1 hx with hx | hx
    · obtain ⟨m, -, rfl⟩ := List.mem_map.1 hx
      exact copyId_ne_host _ _
    · exact hextra.host x hx n

/-- The copies below a copy are those of the mounts below its original. -/
theorem Shape.mem_subtree_copy (h : Shape host r f extra k) (hextra : NoCopies extra) (a n : ℕ) :
    copyId n ∈ subtree k.mounts (copyId a) ↔ n ∈ subtree host a := by
  rw [subtree, h.mounts, List.foldl_append, List.foldl_append]
  have hhost : (host.map HostMount.mount).foldl (grow (copyId a)) [] = [].map copyId := by
    refine grow_of_not (fun x hx => ?_) fun _ _ => List.not_mem_nil
    obtain ⟨m, -, rfl⟩ := List.mem_map.1 hx
    exact (copyId_ne_host _ _).symm
  rw [hhost, grow_map copyId_injective fun m _ => copied_relabels m,
    mem_grow_iff fun x hx => hextra.copy x hx n, List.mem_map_of_injective copyId_injective]
  rfl

/-- There are no copies below a new mount. -/
theorem Shape.copy_notMem (h : Shape host r f extra k) (hextra : NoCopies extra) {i : MountId}
    (hhost : ∀ n, i ≠ .host n) (hcopy : ∀ n, i ≠ copyId n) (n : ℕ) :
    copyId n ∉ subtree k.mounts i := by
  rw [subtree, h.mounts, ← List.append_assoc, List.foldl_append]
  have hnone : (host.map HostMount.mount ++ host.map (HostMount.copied f)).foldl (grow i) [] =
      [] := by
    refine grow_of_not (fun x hx => ?_) fun _ _ => List.not_mem_nil
    rcases List.mem_append.1 hx with hx | hx
    · obtain ⟨m, -, rfl⟩ := List.mem_map.1 hx
      exact (hhost _).symm
    · obtain ⟨m, -, rfl⟩ := List.mem_map.1 hx
      exact (hcopy _).symm
  rw [hnone, mem_grow_iff fun x hx => hextra.copy x hx n]
  exact List.not_mem_nil

end

/-! ## Up to the new root -/

/-- Where `/tmp` is in the host. -/
def tmpLocation (host : List HostMount) (r : HostMount) : Location ℕ Bytes :=
  walk host [bytes "tmp"] (r.id, r.root)

/-- The tmpfs of the sandbox. -/
def tmpId (host : List HostMount) : MountId := .fresh (host.length + host.length)

theorem tmpId_ne_host (host : List HostMount) (n : ℕ) : tmpId host ≠ .host n := by
  intro h
  cases h

theorem tmpId_ne_clone (host : List HostMount) (n : ℕ) (i : MountId) : tmpId host ≠ .clone n i := by
  intro h
  cases h

theorem tmpId_ne_copy (host : List HostMount) (n : ℕ) : tmpId host ≠ copyId n := by
  intro h
  cases h

/-- The tmpfs that is mounted there. -/
def tmpMount (host : List HostMount) (r : HostMount) : KMount :=
  ⟨tmpId host, copyId (tmpLocation host r).1, .sandbox, [], (tmpLocation host r).2, .isolated⟩

/-- A mount made by a bind, on the tmpfs in one of `points` or on another such mount. -/
structure IsClone (host : List HostMount) (points : List Path) (c : KMount) : Prop where
  id : ∃ n i, c.id = .clone n i
  ns : c.ns = .sandbox
  parent : (∃ n i, c.parent = .clone n i) ∨ (c.parent = tmpId host ∧ c.point ∈ points)

/-- The sandbox with its tmpfs on `/tmp`. -/
structure InTmp (host : List HostMount) (r : HostMount) (sharp : Prop) (cleared : ℕ → Prop)
    (points : List Path) (k : Kernel) : Prop where
  shape : ∃ f clones, Shape host r f (tmpMount host r :: clones) k ∧
    Cleared host f sharp cleared ∧ ∀ c ∈ clones, IsClone host points c

section
variable {host : List HostMount} {r : HostMount} {cleared : ℕ → Prop} {points : List Path}
  {sharp : Prop} {k : Kernel} {f : HostMount → Propagation} {clones : List KMount}

theorem noCopies_extra (h : ∀ c ∈ clones, IsClone host points c) :
    NoCopies (tmpMount host r :: clones) where
  host := by
    refine List.forall_mem_cons.2 ⟨nofun, fun c hc n => ?_⟩
    obtain ⟨m, i, hid⟩ := (h c hc).id
    rw [hid]
    exact nofun
  copy := by
    refine List.forall_mem_cons.2 ⟨nofun, fun c hc n => ?_⟩
    obtain ⟨m, i, hid⟩ := (h c hc).id
    rw [hid]
    exact nofun

theorem InTmp.hostTree (h : InTmp host r sharp cleared points k) :
    k.hostTree = host.map HostMount.mount := by
  obtain ⟨f, clones, hshape, -, hclones⟩ := h.shape
  exact hshape.hostTree (List.forall_mem_cons.2 ⟨rfl, fun c hc => (hclones c hc).ns⟩)

/-- After the root mount was made private. -/
def RootPrivate (host : List HostMount) (r : HostMount) (k : Kernel) : Prop :=
  ∃ f, Shape host r f [] k ∧ Cleared host f True fun n => n = r.id

theorem Shape.makePrivate (h : Shape host r Mount.prop [] k) (rc : ℤ) :
    RootPrivate host r (k.apply (.mount [] [] [] [.msPrivate] [] rc)) := by
  have happly : k.apply (.mount [] [] [] [.msPrivate] [] rc) =
      { k with mounts := MountTable.setProp k.mounts [copyId r.id] fun _ => .isolated } := by
    show { k with mounts := MountTable.setProp k.mounts [k.root.1] fun _ => .isolated } = _
    rw [h.root]
  rw [happly]
  refine ⟨_, h.setProp (fun n hn => ?_) _,
    ⟨fun m _ hm => ?_, fun m _ hm => ?_, fun _ m _ hm => ?_⟩⟩
  · exact copyId_ne_host _ _ (List.mem_singleton.1 hn).symm
  · rw [if_pos (List.mem_singleton.2 (by rw [hm]))]
    rfl
  · split
    · rfl
    · exact hm
  · rw [if_neg fun hmem => hm (copyId_injective (List.mem_singleton.1 hmem))]

/-- `/tmp` is on the root mount or on one that is not shared. -/
def TmpUnshared (host : List HostMount) (r : HostMount) : Prop :=
  ∀ m ∈ host, m.id = (tmpLocation host r).1 → m.id = r.id ∨ m.prop.group = none

/-- The location of `/tmp` before there is a tmpfs. -/
theorem Shape.resolve_tmp (h : Shape host r f [] k) : k.resolve [bytes "tmp"] =
    (copyId (tmpLocation host r).1, (tmpLocation host r).2) := by
  rw [Kernel.resolve, h.root]
  exact h.follow_copy r.id (r.root ++ [bytes "tmp"])

/-- A mount with the name of a copy is one. -/
theorem Shape.mem_copy {extra : List KMount} (h : Shape host r f extra k) (hextra : NoCopies extra)
    {p : KMount} (hp : p ∈ k.mounts) {n : ℕ} (hid : p.id = copyId n) :
    ∃ m ∈ host, m.id = n ∧ p = m.copied f := by
  rcases h.mem_cases hp with ⟨m, -, rfl⟩ | ⟨m, hm, rfl⟩ | hp
  · exact absurd hid.symm (copyId_ne_host _ _)
  · exact ⟨m, hm, copyId_injective hid, rfl⟩
  · exact absurd hid (hextra.copy p hp n)

theorem noCopies_nil : NoCopies [] :=
  ⟨fun _ h => absurd h List.not_mem_nil, fun _ h => absurd h List.not_mem_nil⟩

/-- What a `mount` of a tmpfs on `/tmp` does. -/
theorem Shape.apply_tmpfs (h : Shape host r f [] k) (source fstype data : Bytes) (rc : ℤ) :
    (k.apply (.mount [source] [bytes "tmp"] fstype [.msNosuid, .msNodev, .msNoexec] data
      rc)).mounts = attach .replica k.mounts (copyId (tmpLocation host r).1) [tmpMount host r] := by
  have hlength : k.mounts.length = host.length + host.length := by
    rw [h.mounts, List.append_nil, List.length_append, List.length_map, List.length_map]
  show attach .replica k.mounts (k.resolve [bytes "tmp"]).1
    [⟨.fresh k.mounts.length, (k.resolve [bytes "tmp"]).1, k.ns, [],
      (k.resolve [bytes "tmp"]).2, .isolated⟩] = _
  rw [h.resolve_tmp, h.ns, hlength]
  rfl

/-- The tmpfs is mounted once on a mount that is not shared. -/
theorem RootPrivate.shape_tmpfs (h : RootPrivate host r k) (htmp : TmpUnshared host r)
    (source fstype data : Bytes) (rc : ℤ) : ∃ f, Shape host r f [tmpMount host r]
      (k.apply (.mount [source] [bytes "tmp"] fstype [.msNosuid, .msNodev, .msNoexec] data rc)) ∧
      Cleared host f True fun n => n = r.id := by
  obtain ⟨f, hshape, hcleared⟩ := h
  have hunshared : ∀ p ∈ k.mounts, p.id = copyId (tmpLocation host r).1 →
      p.prop.group = none := by
    intro p hp hid
    obtain ⟨m, hm, hmid, rfl⟩ := hshape.mem_copy noCopies_nil hp hid
    rcases htmp m hm hmid with hr | hnone
    · exact hcleared.unshared m hm hr
    · exact hcleared.keep m hm hnone
  refine ⟨f, ⟨?_, hshape.ns, hshape.root⟩, hcleared⟩
  rw [hshape.apply_tmpfs, attach_of_not_shared hunshared, hshape.mounts, List.append_nil,
    List.append_assoc]

theorem RootPrivate.mountTmpfs (h : RootPrivate host r k) (htmp : TmpUnshared host r)
    (sharp : Prop) (source fstype data : Bytes) (rc : ℤ) :
    InTmp host r sharp (fun n => n = r.id) [] (k.apply (.mount [source] [bytes "tmp"] fstype
      [.msNosuid, .msNodev, .msNoexec] data rc)) := by
  obtain ⟨f, hshape, hcleared⟩ := h.shape_tmpfs htmp source fstype data rc
  exact ⟨f, [], hshape, ⟨hcleared.unshared, hcleared.keep, fun _ => hcleared.same trivial⟩,
    fun c hc => absurd hc List.not_mem_nil⟩

/-- On a shared mount, there is one more mount in the host. -/
theorem RootPrivate.mountTmpfs_ne (h : RootPrivate host r k) (htmp : ¬ TmpUnshared host r)
    (source fstype data : Bytes) (rc : ℤ) :
    (k.apply (.mount [source] [bytes "tmp"] fstype [.msNosuid, .msNodev, .msNoexec] data
      rc)).hostTree ≠ host.map HostMount.mount := by
  obtain ⟨f, hshape, hcleared⟩ := h
  unfold TmpUnshared at htmp
  push Not at htmp
  obtain ⟨m, hm, hmid, hne, hshared⟩ := htmp
  have hgroup : (f m).group = m.prop.group := hcleared.same trivial m hm hne
  have hcopy : HostMount.copied f m ∈ k.mounts := by
    rw [hshape.mounts]
    exact List.mem_append_right _ (List.mem_append_left _ (List.mem_map_of_mem hm))
  have horiginal : m.mount ∈ k.mounts := by
    rw [hshape.mounts]
    exact List.mem_append_left _ (List.mem_map_of_mem hm)
  have hpeers : Peers (m.copied f) m.mount := by
    refine ⟨copyId_ne_host _ _, ?_, hgroup⟩
    show (f m).group.isSome
    rw [hgroup]
    exact Option.isSome_iff_ne_none.2 hshared
  obtain ⟨y, hy, hid, hns⟩ : ∃ y ∈ attach .replica k.mounts (copyId (tmpLocation host r).1)
      [tmpMount host r], y.id = .replica (.host m.id) (tmpId host) ∧ y.ns = .host :=
    exists_replica hcopy (congrArg copyId hmid) horiginal hpeers (List.mem_singleton_self _)
  intro heq
  have hmem : y ∈ host.map HostMount.mount := by
    rw [← heq, Kernel.hostTree, hshape.apply_tmpfs]
    exact List.mem_filter.2 ⟨hy, decide_eq_true hns⟩
  obtain ⟨x, -, rfl⟩ := List.mem_map.1 hmem
  cases hid

/-! ## Resolution with the tmpfs -/

/-- None of the points is on the way to a path. -/
def Untouched (points : List Path) (path : Path) : Prop := ∀ q ∈ points, ¬ q <+: path

theorem enter_tmp : (tmpMount host r).enter
    (copyId (tmpLocation host r).1, (tmpLocation host r).2) = (tmpId host, []) :=
  if_pos ⟨nofun, rfl, rfl⟩

theorem follow_clones_copy (hclones : ∀ c ∈ clones, IsClone host points c) (n : ℕ) (d : Path) :
    follow clones (copyId n, d) = (copyId n, d) := by
  refine follow_of_parent fun c hc => ?_
  rcases (hclones c hc).parent with ⟨m, i, hp⟩ | ⟨hp, -⟩ <;> rw [hp] <;> exact nofun

/-- What is on the tmpfs is on one of the points. -/
theorem IsClone.point_mem {c : KMount} (h : IsClone host points c)
    (hparent : c.parent = tmpId host) : c.point ∈ points := by
  rcases h.parent with ⟨n, i, hp⟩ | ⟨-, hp⟩
  · exact absurd (hparent.symm.trans hp) (tmpId_ne_clone host n i)
  · exact hp

theorem Shape.point_mem (h : Shape host r f (tmpMount host r :: clones) k)
    (hclones : ∀ c ∈ clones, IsClone host points c) {m : KMount} (hm : m ∈ k.mounts)
    (hparent : m.parent = tmpId host) : m.point ∈ points := by
  rcases h.mem_cases hm with ⟨x, -, rfl⟩ | ⟨x, -, rfl⟩ | hm
  · exact absurd hparent.symm (tmpId_ne_host host _)
  · exact absurd hparent.symm (tmpId_ne_copy host _)
  · rcases List.mem_cons.1 hm with rfl | hm
    · exact absurd hparent.symm (tmpId_ne_copy host _)
    · exact (hclones m hm).point_mem hparent

/-- Where a path in the tmpfs leads to. -/
theorem Shape.walk_tmp (h : Shape host r f (tmpMount host r :: clones) k)
    (hclones : ∀ c ∈ clones, IsClone host points c) {path : Path}
    (hpath : Untouched points path) :
    walk k.mounts path (tmpId host, []) = (tmpId host, path) :=
  walk_untouched (fun _ hm hparent => hpath _ (h.point_mem hclones hm hparent)) List.prefix_rfl

/-- `/tmp` leads to the root of the tmpfs. -/
theorem Shape.follow_tmp (h : Shape host r f (tmpMount host r :: clones) k)
    (hclones : ∀ c ∈ clones, IsClone host points c) (hempty : [] ∉ points) :
    follow k.mounts (copyId r.id, r.root ++ [bytes "tmp"]) = (tmpId host, []) := by
  have hstay : follow clones (tmpId host, []) = (tmpId host, []) := by
    refine follow_of_uncovered fun c hc _ hparent hpoint => hempty ?_
    have hmem := (hclones c hc).point_mem hparent
    rwa [hpoint] at hmem
  rw [h.follow_copy]
  show follow (tmpMount host r :: clones)
    (copyId (tmpLocation host r).1, (tmpLocation host r).2) = _
  rw [follow_cons, enter_tmp, hstay]

/-- A path that starts with `/tmp`. -/
theorem Shape.resolve_in_tmp (h : Shape host r f (tmpMount host r :: clones) k)
    (hclones : ∀ c ∈ clones, IsClone host points c) {path : Path}
    (hpath : Untouched points path) :
    k.resolve (bytes "tmp" :: path) = (tmpId host, path) := by
  have hempty : [] ∉ points := fun hmem => hpath [] hmem List.nil_prefix
  rw [Kernel.resolve, h.root, walk, h.follow_tmp hclones hempty, h.walk_tmp hclones hpath]

/-- The copy of a location of the host. -/
def copyAt (host : List HostMount) (r : HostMount) (path : Path) : Location MountId Bytes :=
  (copyId (walk host path (r.id, r.root)).1, (walk host path (r.id, r.root)).2)

theorem not_prefix_of_ne {name name' : Bytes} (h : name ≠ name') : ¬ [name] <+: [name'] := by
  intro hpre
  exact h (List.cons_prefix_cons.1 hpre).1

/-- A path that does not go through `/tmp` leads where it leads in the host. -/
theorem Shape.resolve_host (h : Shape host r f (tmpMount host r :: clones) k)
    (htree : IsTree r host) (hclones : ∀ c ∈ clones, IsClone host points c) {path : Path}
    (hpath : ¬ [bytes "tmp"] <+: path) : k.resolve path = copyAt host r path := by
  have hcopies : ∀ q, walk (host.map (HostMount.copied f)) q (copyId r.id, r.root) =
      copyAt host r q := fun q =>
    walk_map copyId_injective (fun m _ => copied_relabels m) q (r.id, r.root)
  have hright : ∀ q, q <+: path → walk (host.map (HostMount.copied f) ++ tmpMount host r :: clones)
      q (copyId r.id, r.root) = walk (host.map (HostMount.copied f)) q (copyId r.id, r.root) := by
    intro q hq
    refine walk_append_right q fun q' name hq' => ?_
    rw [hcopies]
    refine List.forall_mem_cons.2 ⟨fun _ hparent hpoint => ?_, fun c hc _ hparent => ?_⟩
    · -- only one path leads to the place of the tmpfs
      have heq : [bytes "tmp"] = q' ++ [name] :=
        htree.walk_injective (Prod.ext (copyId_injective hparent) hpoint)
      exact hpath (heq ▸ hq'.trans hq)
    · rcases (hclones c hc).parent with ⟨n, i, hp⟩ | ⟨hp, -⟩
      · cases hp.symm.trans hparent
      · exact absurd (hp.symm.trans hparent) (tmpId_ne_copy host _)
  rw [Kernel.resolve, h.root, h.mounts, walk_append_left, hright path List.prefix_rfl, hcopies]
  intro q name hq m hm _ hparent
  rw [hright q ((List.prefix_append q [name]).trans hq), hcopies] at hparent
  obtain ⟨x, -, rfl⟩ := List.mem_map.1 hm
  exact absurd hparent.symm (copyId_ne_host _ _)

/-- The mount is neither one of the host nor the copy of one. -/
def IsNew (i : MountId) : Prop := (∀ n, i ≠ .host n) ∧ ∀ n, i ≠ copyId n

theorem IsClone.isNew {c : KMount} (h : IsClone host points c) : IsNew c.id := by
  obtain ⟨n, i, hid⟩ := h.id
  rw [hid]
  exact ⟨fun _ => nofun, fun _ hn => by cases hn⟩

/-- A path in the tmpfs depends on the binds there. -/
theorem Shape.resolve_clones (h : Shape host r f (tmpMount host r :: clones) k)
    (hclones : ∀ c ∈ clones, IsClone host points c) (hempty : [] ∉ points) (path : Path) :
    k.resolve (bytes "tmp" :: path) = walk clones path (tmpId host, []) := by
  rw [Kernel.resolve, h.root, walk, h.follow_tmp hclones hempty, h.mounts, List.append_cons,
    ← List.append_assoc, ← List.append_assoc]
  refine walk_append_left path fun q name _ m hm _ hparent => ?_
  have hnew : IsNew (walk clones q (tmpId host, [])).1 :=
    walk_induction q ⟨tmpId_ne_host host, tmpId_ne_copy host⟩ fun c hc _ => (hclones c hc).isNew
  rcases List.mem_append.1 hm with hm | hm
  · rcases List.mem_append.1 hm with hm | hm
    · obtain ⟨x, -, rfl⟩ := List.mem_map.1 hm
      exact absurd hparent.symm (hnew.1 _)
    · obtain ⟨x, -, rfl⟩ := List.mem_map.1 hm
      exact absurd hparent.symm (hnew.2 _)
  · rw [List.mem_singleton.1 hm] at hparent
    exact absurd hparent.symm (hnew.2 _)

/-! ## Binds -/

theorem InTmp.weaken {cleared' : ℕ → Prop} (h : InTmp host r sharp cleared points k)
    (hsub : ∀ n, cleared' n → cleared n) (hsharp : sharp → ∀ n, cleared n → cleared' n) :
    InTmp host r sharp cleared' points k := by
  obtain ⟨f, clones, hshape, hcleared, hclones⟩ := h.shape
  refine ⟨f, clones, hshape, ⟨fun m hm hc => hcleared.unshared m hm (hsub _ hc), hcleared.keep, ?_⟩,
    hclones⟩
  exact fun hs m hm hc => hcleared.same hs m hm fun hc' => hc (hsharp hs _ hc')

theorem InTmp.congr {cleared' : ℕ → Prop} (h : InTmp host r sharp cleared points k)
    (hiff : ∀ n, cleared n ↔ cleared' n) : InTmp host r sharp cleared' points k :=
  h.weaken (fun n => (hiff n).2) fun _ n => (hiff n).1

/-- Some of the mounts of the sandbox become slaves; the tmpfs is isolated anyway. -/
theorem Shape.slave (h : Shape host r f (tmpMount host r :: clones) k) {ids : List MountId}
    (hids : ∀ n, .host n ∉ ids) :
    Shape host r (fun m => if copyId m.id ∈ ids then (f m).slave else f m)
      (tmpMount host r :: MountTable.setProp clones ids Propagation.slave)
      { k with mounts := MountTable.setProp k.mounts ids Propagation.slave } := by
  have htmp : (if (tmpMount host r).id ∈ ids then
      { tmpMount host r with prop := (tmpMount host r).prop.slave } else tmpMount host r) =
      tmpMount host r := by
    split <;> rfl
  have hshape := h.setProp hids Propagation.slave
  simp only [MountTable.setProp, List.map_cons, htmp] at hshape
  exact hshape

theorem IsClone.setProp {ids : List MountId} {change : Propagation → Propagation}
    (h : ∀ c ∈ clones, IsClone host points c) :
    ∀ c ∈ MountTable.setProp clones ids change, IsClone host points c := by
  intro c hc
  obtain ⟨c', hc', rfl⟩ := List.mem_map.1 hc
  split
  · exact ⟨(h c' hc').id, (h c' hc').ns, (h c' hc').parent⟩
  · exact h c' hc'

theorem InTmp.slave (h : InTmp host r sharp cleared points k) {ids : List MountId}
    (hids : ∀ n, .host n ∉ ids) : InTmp host r sharp (fun n => cleared n ∨ copyId n ∈ ids) points
      { k with mounts := setProp k.mounts ids Propagation.slave } := by
  obtain ⟨f, clones, hshape, hcleared, hclones⟩ := h.shape
  refine ⟨_, _, hshape.slave hids,
    ⟨fun m hm hc => ?_, fun m hm hnone => ?_, fun hs m hm hc => ?_⟩, IsClone.setProp hclones⟩
  · show (if copyId m.id ∈ ids then (f m).slave else f m).group = none
    split
    · exact (f m).slave_group
    · next hmem => exact hcleared.unshared m hm (hc.resolve_right hmem)
  · split
    · exact (f m).slave_group
    · exact hcleared.keep m hm hnone
  · obtain ⟨hc, hmem⟩ := not_or.1 hc
    rw [if_neg hmem]
    exact hcleared.same hs m hm hc

/-- What is mounted in the sandbox is the sandbox's. -/
theorem Shape.not_host (h : Shape host r f (tmpMount host r :: clones) k)
    (hclones : ∀ c ∈ clones, IsClone host points c) {x : KMount} (hx : x ∈ k.mounts)
    (hparent : ∀ n, x.parent ≠ .host n) : ∀ n, x.id ≠ .host n := by
  rcases h.mem_cases hx with ⟨m, -, rfl⟩ | ⟨m, -, rfl⟩ | hx
  · exact absurd rfl (hparent m.parent)
  · exact copyId_ne_host _
  · exact (noCopies_extra hclones).host x hx

/-- No path leads to a mount of the host. -/
theorem Shape.resolve_ne_host (h : Shape host r f (tmpMount host r :: clones) k)
    (hclones : ∀ c ∈ clones, IsClone host points c) (path : Path) (n : ℕ) :
    (k.resolve path).1 ≠ .host n := by
  rw [Kernel.resolve, h.root]
  exact walk_induction (P := fun i : MountId => ∀ n, i ≠ .host n) path (copyId_ne_host _)
    (fun x hx hparent => h.not_host hclones hx hparent) n

theorem InTmp.resolve_ne_host (h : InTmp host r sharp cleared points k) (path : Path) (n : ℕ) :
    (k.resolve path).1 ≠ .host n := by
  obtain ⟨f, clones, hshape, -, hclones⟩ := h.shape
  exact hshape.resolve_ne_host hclones path n

/-- A path in `/tmp` leads to a new mount. -/
theorem InTmp.resolve_ne_copy (h : InTmp host r sharp cleared points k) (path : Path) (n : ℕ) :
    (k.resolve (bytes "tmp" :: path)).1 ≠ copyId n := by
  obtain ⟨f, clones, hshape, -, hclones⟩ := h.shape
  have hstart : IsNew (follow k.mounts (copyId r.id, r.root ++ [bytes "tmp"])).1 := by
    rw [hshape.follow_copy]
    show IsNew (follow clones ((tmpMount host r).enter
      (copyId (tmpLocation host r).1, (tmpLocation host r).2))).1
    rw [enter_tmp]
    refine follow_induction ⟨tmpId_ne_host host, tmpId_ne_copy host⟩ fun c hc _ => ?_
    have hextra := noCopies_extra (r := r) hclones
    exact ⟨hextra.host c (List.mem_cons_of_mem _ hc), hextra.copy c (List.mem_cons_of_mem _ hc)⟩
  rw [Kernel.resolve, hshape.root]
  refine (walk_induction (P := IsNew) path hstart fun x hx hparent => ?_).2 n
  refine ⟨hshape.not_host hclones hx hparent.1, fun n hid => ?_⟩
  obtain ⟨m, -, -, rfl⟩ := hshape.mem_copy (noCopies_extra hclones) hx hid
  exact hparent.2 m.parent rfl

/-- What `MS_SLAVE | MS_REC` does. -/
theorem Kernel.apply_slave (k : Kernel) (path : Path) (rc : ℤ) :
    k.apply (.mount [] path [] [.msSlave, .msRec] [] rc) =
      { k with
        mounts := setProp k.mounts (subtree k.mounts (k.resolve path).1) Propagation.slave } := rfl

/-- For any path some more copies are cleared. -/
theorem InTmp.slave_path (h : InTmp host r sharp cleared points k) (path : Path) (rc : ℤ) :
    InTmp host r sharp (fun n => cleared n ∨ copyId n ∈ subtree k.mounts (k.resolve path).1) points
      (k.apply (.mount [] path [] [.msSlave, .msRec] [] rc)) := by
  obtain ⟨f, clones, hshape, -, hclones⟩ := h.shape
  rw [Kernel.apply_slave]
  exact h.slave (hshape.host_notMem (noCopies_extra hclones) (h.resolve_ne_host path))

/-- For a directory of the root, those of the mounts below it. -/
theorem InTmp.slave_dir (h : InTmp host r sharp cleared points k) (htree : IsTree r host)
    {name : Bytes} (hname : name ≠ bytes "tmp") (rc : ℤ) :
    InTmp host r sharp
      (fun n => cleared n ∨ n ∈ subtree host (walk host [name] (r.id, r.root)).1) points
      (k.apply (.mount [] [name] [] [.msSlave, .msRec] [] rc)) := by
  refine (h.slave_path [name] rc).congr fun n => or_congr_right ?_
  obtain ⟨f, clones, hshape, -, hclones⟩ := h.shape
  rw [hshape.resolve_host htree hclones (not_prefix_of_ne hname.symm)]
  exact hshape.mem_subtree_copy (noCopies_extra hclones) _ n

/-- For a path in `/tmp`, none. -/
theorem InTmp.slave_tmp (h : InTmp host r sharp cleared points k) (path : Path) (rc : ℤ) :
    InTmp host r sharp cleared points
      (k.apply (.mount [] (bytes "tmp" :: path) [] [.msSlave, .msRec] [] rc)) := by
  refine (h.slave_path (bytes "tmp" :: path) rc).congr fun n => or_iff_left ?_
  obtain ⟨f, clones, hshape, -, hclones⟩ := h.shape
  exact hshape.copy_notMem (noCopies_extra hclones) (h.resolve_ne_host _) (h.resolve_ne_copy path) n

/-- A directory of the root is a mount point if it is one in the host. -/
theorem InTmp.isMountPoint (h : InTmp host r sharp cleared points k) (htree : IsTree r host)
    {name : Bytes} (hname : name ≠ bytes "tmp") :
    IsMountPoint k.mounts (k.resolve [name]) ↔
      IsMountPoint host (walk host [name] (r.id, r.root)) := by
  obtain ⟨f, clones, hshape, -, hclones⟩ := h.shape
  rw [hshape.resolve_host htree hclones (not_prefix_of_ne hname.symm)]
  constructor
  · rintro ⟨p, hp, hid, hroot⟩
    obtain ⟨m, hm, hmid, rfl⟩ := hshape.mem_copy (noCopies_extra hclones) hp hid
    exact ⟨m, hm, hmid, hroot⟩
  · rintro ⟨m, hm, hid, hroot⟩
    refine ⟨HostMount.copied f m, ?_, congrArg copyId hid, hroot⟩
    rw [hshape.mounts]
    exact List.mem_append_right _ (List.mem_append_left _ (List.mem_map_of_mem hm))

/-- The tmpfs is not shared. -/
theorem Shape.tmp_unshared (h : Shape host r f (tmpMount host r :: clones) k)
    (hclones : ∀ c ∈ clones, IsClone host points c) {p : KMount} (hp : p ∈ k.mounts)
    (hid : p.id = tmpId host) : p.prop.group = none := by
  rcases h.mem_cases hp with ⟨m, -, rfl⟩ | ⟨m, -, rfl⟩ | hp
  · exact absurd hid.symm (tmpId_ne_host host _)
  · exact absurd hid.symm (tmpId_ne_copy host _)
  · rcases List.mem_cons.1 hp with rfl | hp
    · rfl
    · obtain ⟨n, i, hclone⟩ := (hclones p hp).id
      exact absurd (hid.symm.trans hclone) (tmpId_ne_clone host n i)

theorem Shape.ns_eq (h : Shape host r f (tmpMount host r :: clones) k)
    (hclones : ∀ c ∈ clones, IsClone host points c) {x : KMount} (hx : x ∈ k.mounts)
    (hid : ∀ n, x.id ≠ .host n) : x.ns = .sandbox := by
  rcases h.mem_cases hx with ⟨m, -, rfl⟩ | ⟨m, -, rfl⟩ | hx
  · exact absurd rfl (hid m.id)
  · rfl
  · rcases List.mem_cons.1 hx with rfl | hx
    · rfl
    · exact (hclones x hx).ns

theorem IsClone.mono {point : Path} {c : KMount} (h : IsClone host points c) :
    IsClone host (point :: points) c :=
  ⟨h.id, h.ns, h.parent.imp_right fun hp => ⟨hp.1, List.mem_cons_of_mem _ hp.2⟩⟩

/-- The mounts of a recursive bind. -/
theorem Shape.isClone_cloneTree (h : Shape host r f (tmpMount host r :: clones) k)
    (hclones : ∀ c ∈ clones, IsClone host points c) (source point : Path) (n : ℕ) :
    ∀ c ∈ cloneTree (.clone n) k.mounts (k.resolve source) (tmpId host, point),
      IsClone host (point :: points) c := by
  intro c hc
  rcases List.mem_append.1 hc with hc | hc
  · obtain ⟨m, hm, rfl⟩ := List.mem_map.1 hc
    obtain ⟨hm, hid⟩ := List.mem_filter.1 hm
    have hsource : ∀ n, m.id ≠ .host n := by
      rw [of_decide_eq_true hid]
      exact h.resolve_ne_host hclones source
    have hns := h.ns_eq hclones hm hsource
    exact ⟨⟨n, m.id, rfl⟩, hns, .inr ⟨rfl, List.mem_cons_self⟩⟩
  · obtain ⟨m, hm, rfl⟩ := List.mem_map.1 hc
    obtain ⟨hm, hbelow⟩ := List.mem_filter.1 hm
    have hsource : ∀ n, m.id ≠ .host n :=
      below_induction (P := fun i : MountId => ∀ n, i ≠ .host n) (h.resolve_ne_host hclones source)
        (fun x hx hparent => h.not_host hclones hx hparent) _ (of_decide_eq_true hbelow)
    have hns := h.ns_eq hclones hm hsource
    exact ⟨⟨n, m.id, rfl⟩, hns, .inl ⟨n, m.parent, rfl⟩⟩

theorem Shape.append {extra : List KMount} (h : Shape host r f extra k) (tree : List KMount) :
    k.mounts ++ tree =
      host.map HostMount.mount ++ (host.map (HostMount.copied f) ++ (extra ++ tree)) := by
  rw [h.mounts, List.append_assoc, List.append_assoc]

/-- A bind on the tmpfs is not replicated. -/
theorem Shape.mounts_bind (h : Shape host r f (tmpMount host r :: clones) k)
    (hclones : ∀ c ∈ clones, IsClone host points c) {point : Path}
    (hpoint : Untouched points point) (source : Path) :
    (k.mount source (bytes "tmp" :: point)
      [.msBind, .msRec, .msSlave, .msNosuid, .msNodev, .msNoexec]).mounts = k.mounts ++
        cloneTree (.clone k.mounts.length) k.mounts (k.resolve source) (tmpId host, point) := by
  show attach .replica k.mounts (k.resolve (bytes "tmp" :: point)).1 (cloneTree
    (.clone k.mounts.length) k.mounts (k.resolve source) (k.resolve (bytes "tmp" :: point))) = _
  rw [h.resolve_in_tmp hclones hpoint]
  exact attach_of_not_shared (fun p hp hid => h.tmp_unshared hclones hp hid) _

/-- After a bind on the tmpfs. -/
theorem InTmp.bind (h : InTmp host r sharp cleared points k) {point : Path}
    (hpoint : Untouched points point) (source : Path) (rc : ℤ) :
    InTmp host r sharp cleared (point :: points) (k.apply (.mount source (bytes "tmp" :: point) []
      [.msBind, .msRec, .msSlave, .msNosuid, .msNodev, .msNoexec] [] rc)) := by
  obtain ⟨f, clones, hshape, hcleared, hclones⟩ := h.shape
  refine ⟨f, clones ++ cloneTree (.clone k.mounts.length) k.mounts (k.resolve source)
    (tmpId host, point), ⟨?_, hshape.ns, hshape.root⟩, hcleared, fun c hc => ?_⟩
  · exact (hshape.mounts_bind hclones hpoint source).trans (hshape.append _)
  · rcases List.mem_append.1 hc with hc | hc
    · exact (hclones c hc).mono
    · exact hshape.isClone_cloneTree hclones source point _ c hc

end

/-! ## With the new root -/

/-- The tmpfs as the root. -/
def newRoot (host : List HostMount) : KMount :=
  ⟨tmpId host, tmpId host, .sandbox, [], [], .isolated⟩

/-- The copy of the root, on `/old`. -/
def oldRoot (host : List HostMount) (f : HostMount → Propagation) (r : HostMount) : KMount :=
  ⟨copyId r.id, tmpId host, .sandbox, r.root, [bytes "old"], f r⟩

/-- The copy of a mount, after `pivot_root`. -/
def HostMount.pivoted (host : List HostMount) (r : HostMount) (f : HostMount → Propagation)
    (m : HostMount) : KMount :=
  if m.id = r.id then oldRoot host f m else m.copied f

/-- After `pivot_root`. -/
structure Pivoted (host : List HostMount) (r : HostMount) (f : HostMount → Propagation)
    (clones : List KMount) (points : List Path) (k : Kernel) : Prop where
  mounts : k.mounts = host.map HostMount.mount ++
    (host.map (HostMount.pivoted host r f) ++ newRoot host :: clones)
  clones : ∀ c ∈ clones, IsClone host points c
  old : Untouched points [bytes "old"]
  root : k.root = (tmpId host, [])

/-- The mount at the root directory of the host. -/
def topId (host : List HostMount) (r : HostMount) : ℕ := (follow host (r.id, r.root)).1

section
variable {host : List HostMount} {r : HostMount} {points : List Path} {k : Kernel}
  {f : HostMount → Propagation} {clones : List KMount}

theorem pivoted_id (m : HostMount) : (HostMount.pivoted host r f m).id = copyId m.id := by
  unfold HostMount.pivoted
  split <;> rfl

theorem pivoted_prop (m : HostMount) : (HostMount.pivoted host r f m).prop = f m := by
  unfold HostMount.pivoted
  split <;> rfl

theorem pivoted_ns (m : HostMount) : (HostMount.pivoted host r f m).ns = .sandbox := by
  unfold HostMount.pivoted
  split <;> rfl

theorem Shape.pivotRoot (h : Shape host r f (tmpMount host r :: clones) k)
    (hclones : ∀ c ∈ clones, IsClone host points c) (hold : Untouched points [bytes "old"])
    (hcwd : k.cwd = (tmpId host, [])) (rc : ℤ) :
    Pivoted host r f clones points (k.apply (.pivotRoot rc)) := by
  refine ⟨?_, hclones, hold, hcwd⟩
  show pivot k.mounts k.cwd.1 k.root.1 (walk k.mounts [bytes "old"] k.cwd) = _
  rw [hcwd, h.root, h.walk_tmp hclones hold, h.mounts, pivot, List.map_append,
    List.map_append, List.map_cons, List.map_map, List.map_map]
  congr 2
  · refine List.map_congr_left fun m _ => ?_
    show (if copyId m.id = copyId r.id then oldRoot host f m else m.copied f) = _
    simp only [copyId_injective.eq_iff]
    rfl
  · refine congrArg₂ List.cons (if_pos rfl)
      ((List.map_congr_left fun c hc => ?_).trans (List.map_id _))
    obtain ⟨n, i, hid⟩ := (hclones c hc).id
    rw [hid, if_neg nofun, if_neg nofun]
    rfl

/-- The mounts of the sandbox, with the root first. -/
theorem map_pivoted (htree : IsTree r host) : ∃ rest, host = r :: rest ∧
    host.map (HostMount.pivoted host r f) =
      oldRoot host f r :: rest.map (HostMount.copied f) := by
  obtain ⟨rest, hhost, hrest⟩ := htree.eq_cons
  refine ⟨rest, hhost, ?_⟩
  have hmap : rest.map (HostMount.pivoted host r f) = rest.map (HostMount.copied f) :=
    List.map_congr_left fun m hm => if_neg (hrest m hm)
  conv_lhs => rw [hhost, List.map_cons, ← hhost, hmap]
  congr 1
  exact if_pos rfl

/-- `/old` leads to the root directory of the host. -/
theorem Pivoted.resolve_old (h : Pivoted host r f clones points k) (htree : IsTree r host) :
    (k.resolve [bytes "old"]).1 = copyId (topId host r) := by
  obtain ⟨rest, hhost, hpivoted⟩ := map_pivoted (f := f) htree
  have hself : r.enter (r.id, r.root) = (r.id, r.root) :=
    if_neg fun henter => henter.1 htree.root_self
  have htop : follow rest (r.id, r.root) = follow host (r.id, r.root) := by
    rw [hhost, follow_cons, hself]
  rw [Kernel.resolve, h.root]
  show (follow k.mounts (tmpId host, [bytes "old"])).1 = _
  have hold : (oldRoot host f r).enter (tmpId host, [bytes "old"]) = (copyId r.id, r.root) :=
    if_pos ⟨tmpId_ne_copy host _, rfl, rfl⟩
  have hstay (n : ℕ) (d : Path) : (newRoot host).enter (copyId n, d) = (copyId n, d) :=
    if_neg fun henter => tmpId_ne_copy host n henter.2.1
  rw [h.mounts, follow_append, follow_append, follow_host (tmpId_ne_host host), hpivoted,
    follow_cons (oldRoot host f r), hold,
    follow_map copyId_injective (fun m _ => copied_relabels m) (r.id, r.root), htop, follow_cons,
    hstay, follow_clones_copy h.clones]
  rfl

/-- What is below a copy are the copies of what is below its original. -/
theorem Pivoted.subtree_copy (h : Pivoted host r f clones points k) (htree : IsTree r host)
    (a : ℕ) : subtree k.mounts (copyId a) = (subtree host a).map copyId := by
  obtain ⟨rest, hhost, hpivoted⟩ := map_pivoted (f := f) htree
  have hnone : (host.map HostMount.mount).foldl (grow (copyId a)) [] = [] := by
    refine grow_of_not (fun x hx => ?_) fun _ _ => List.not_mem_nil
    obtain ⟨m, -, rfl⟩ := List.mem_map.1 hx
    exact (copyId_ne_host _ _).symm
  have hroot : grow (copyId a) [] (oldRoot host f r) = (grow a [] r).map copyId := by
    simp only [grow, oldRoot, copyId_injective.eq_iff, List.not_mem_nil, or_false]
    split <;> rfl
  have hcopies : (host.map (HostMount.pivoted host r f)).foldl (grow (copyId a)) [] =
      (subtree host a).map copyId := by
    rw [hpivoted, List.foldl_cons, hroot, grow_map copyId_injective fun m _ => copied_relabels m,
      subtree, hhost, List.foldl_cons]
  rw [subtree, h.mounts, List.foldl_append, List.foldl_append, hnone, hcopies]
  have hextra := noCopies_extra (r := r) h.clones
  refine grow_of_not (List.forall_mem_cons.2 ⟨tmpId_ne_copy host a, fun c hc =>
    hextra.copy c (List.mem_cons_of_mem _ hc) a⟩) (List.forall_mem_cons.2 ⟨fun hmem => ?_,
    fun c hc hmem => ?_⟩)
  · obtain ⟨n, -, hid⟩ := List.mem_map.1 hmem
    exact tmpId_ne_copy host n hid.symm
  · obtain ⟨n, -, hid⟩ := List.mem_map.1 hmem
    rcases (h.clones c hc).parent with ⟨m, i, hp⟩ | ⟨hp, -⟩ <;> rw [hp] at hid <;> cases hid

theorem Pivoted.mem_cases (h : Pivoted host r f clones points k) {m : KMount} (hm : m ∈ k.mounts) :
    (∃ x ∈ host, m = x.mount) ∨ (∃ x ∈ host, m = HostMount.pivoted host r f x) ∨
      m ∈ newRoot host :: clones := by
  rw [h.mounts] at hm
  rcases List.mem_append.1 hm with hm | hm
  · obtain ⟨x, hx, rfl⟩ := List.mem_map.1 hm
    exact .inl ⟨x, hx, rfl⟩
  · rcases List.mem_append.1 hm with hm | hm
    · obtain ⟨x, hx, rfl⟩ := List.mem_map.1 hm
      exact .inr (.inl ⟨x, hx, rfl⟩)
    · exact .inr (.inr hm)

/-- A mount with the name of a copy is one. -/
theorem Pivoted.mem_copy (h : Pivoted host r f clones points k) {p : KMount} (hp : p ∈ k.mounts)
    {n : ℕ} (hid : p.id = copyId n) :
    ∃ m ∈ host, m.id = n ∧ p = HostMount.pivoted host r f m := by
  rcases h.mem_cases hp with ⟨m, -, rfl⟩ | ⟨m, hm, rfl⟩ | hp
  · exact absurd hid.symm (copyId_ne_host _ _)
  · exact ⟨m, hm, copyId_injective ((pivoted_id m).symm.trans hid), rfl⟩
  · rcases List.mem_cons.1 hp with rfl | hp
    · exact absurd hid (tmpId_ne_copy host n)
    · exact absurd hid ((h.clones p hp).isNew.2 n)

/-- The new root is not shared. -/
theorem Pivoted.root_unshared (h : Pivoted host r f clones points k) {p : KMount}
    (hp : p ∈ k.mounts) (hid : p.id = tmpId host) : p.prop.group = none := by
  rcases h.mem_cases hp with ⟨m, -, rfl⟩ | ⟨m, -, rfl⟩ | hp
  · exact absurd hid.symm (tmpId_ne_host host _)
  · exact absurd (hid.symm.trans (pivoted_id m)) (tmpId_ne_copy host _)
  · rcases List.mem_cons.1 hp with rfl | hp
    · rfl
    · obtain ⟨n, i, hclone⟩ := (h.clones p hp).id
      exact absurd (hid.symm.trans hclone) (tmpId_ne_clone host n i)

theorem Pivoted.ns_eq (h : Pivoted host r f clones points k) :
    ∀ x ∈ host.map (HostMount.pivoted host r f) ++ newRoot host :: clones, x.ns = .sandbox := by
  intro x hx
  rcases List.mem_append.1 hx with hx | hx
  · obtain ⟨m, -, rfl⟩ := List.mem_map.1 hx
    exact pivoted_ns m
  · rcases List.mem_cons.1 hx with rfl | hx
    · rfl
    · exact (h.clones x hx).ns

/-- On the new root, with these copies cleared. -/
def OnNewRoot (host : List HostMount) (r : HostMount) (sharp : Prop) (cleared : ℕ → Prop)
    (k : Kernel) : Prop :=
  ∃ f clones points, Pivoted host r f clones points k ∧ Cleared host f sharp cleared

/-- After `umount2`. -/
def Left (host : List HostMount) (r : HostMount) (sharp : Prop) (cleared : ℕ → Prop) (k : Kernel) :
    Prop :=
  ∃ k₀, OnNewRoot host r sharp cleared k₀ ∧ k.mounts = detach k₀.mounts (copyId (topId host r))

/-- No mount of the old root is detached from a shared one but for those in `cleared`. -/
def DetachUnshared (host : List HostMount) (r : HostMount) (cleared : ℕ → Prop) : Prop :=
  ∀ m ∈ host, m.id ∈ subtree host (topId host r) → m.id ≠ r.id →
    ∀ p ∈ host, p.id = m.parent → cleared p.id ∨ p.prop.group = none

variable {sharp : Prop} {cleared : ℕ → Prop}

theorem OnNewRoot.hostTree (h : OnNewRoot host r sharp cleared k) :
    k.hostTree = host.map HostMount.mount := by
  obtain ⟨f, clones, points, hpivoted, -⟩ := h
  exact hostTree_of_append hpivoted.mounts hpivoted.ns_eq

/-- In the tmpfs, before it becomes the root. -/
def InsideTmp (host : List HostMount) (r : HostMount) (sharp : Prop) (cleared : ℕ → Prop)
    (points : List Path) (k : Kernel) : Prop :=
  InTmp host r sharp cleared points k ∧ k.cwd = (tmpId host, [])

theorem InTmp.chdir (h : InTmp host r sharp cleared points k)
    (hold : Untouched points [bytes "old"]) (rc : ℤ) :
    InsideTmp host r sharp cleared points (k.apply (.chdir [bytes "tmp"] rc)) := by
  obtain ⟨f, clones, hshape, hcleared, hclones⟩ := h.shape
  refine ⟨⟨f, clones, ⟨hshape.mounts, hshape.ns, hshape.root⟩, hcleared, hclones⟩, ?_⟩
  refine hshape.resolve_in_tmp hclones fun q hq hpre => hold q hq ?_
  exact hpre.trans List.nil_prefix

theorem InsideTmp.pivotRoot (h : InsideTmp host r sharp cleared points k)
    (hold : Untouched points [bytes "old"]) (rc : ℤ) :
    OnNewRoot host r sharp cleared (k.apply (.pivotRoot rc)) := by
  obtain ⟨f, clones, hshape, hcleared, hclones⟩ := h.1.shape
  exact ⟨f, clones, _, hshape.pivotRoot hclones hold h.2 _, hcleared⟩

theorem OnNewRoot.chdir (h : OnNewRoot host r sharp cleared k) (path : Path) (rc : ℤ) :
    OnNewRoot host r sharp cleared (k.apply (.chdir path rc)) := by
  obtain ⟨f, clones, points, hpivoted, hcleared⟩ := h
  exact ⟨f, clones, points, ⟨hpivoted.mounts, hpivoted.clones, hpivoted.old, hpivoted.root⟩,
    hcleared⟩

theorem OnNewRoot.umount (h : OnNewRoot host r sharp cleared k) (htree : IsTree r host) (rc : ℤ) :
    Left host r sharp cleared (k.apply (.umount2 [bytes "old"] rc)) := by
  obtain ⟨f, clones, points, hpivoted, -⟩ := id h
  refine ⟨k, h, ?_⟩
  show detach k.mounts (k.resolve [bytes "old"]).1 = _
  rw [hpivoted.resolve_old htree]

/-- What is detached is not on a shared mount. -/
theorem Pivoted.unshared (h : Pivoted host r f clones points k) (htree : IsTree r host)
    (hcleared : Cleared host f sharp cleared) (hdetach : DetachUnshared host r cleared) :
    ∀ d ∈ k.mounts, d.id ∈ subtree k.mounts (copyId (topId host r)) →
      ∀ p ∈ k.mounts, p.id = d.parent → p.prop.group = none := by
  intro d hd hinside p hp hparent
  rw [h.subtree_copy htree] at hinside
  obtain ⟨n, hn, hid⟩ := List.mem_map.1 hinside
  obtain ⟨m, hm, rfl, rfl⟩ := h.mem_copy hd hid.symm
  by_cases hroot : m.id = r.id
  · rw [HostMount.pivoted, if_pos hroot] at hparent
    exact h.root_unshared hp hparent
  · rw [HostMount.pivoted, if_neg hroot] at hparent
    obtain ⟨q, hq, hqid, rfl⟩ := h.mem_copy hp hparent
    rw [pivoted_prop]
    rcases hdetach m hm hn hroot q hq hqid with hc | hnone
    · exact hcleared.unshared q hq hc
    · exact hcleared.keep q hq hnone

/-- Then the host keeps its mounts, -/
theorem Left.hostTree (h : Left host r sharp cleared k) (htree : IsTree r host)
    (hdetach : DetachUnshared host r cleared) : k.hostTree = host.map HostMount.mount := by
  obtain ⟨k₀, ⟨f, clones, points, hpivoted, hcleared⟩, hmounts⟩ := h
  rw [detach_of_not_shared (hpivoted.unshared htree hcleared hdetach), hpivoted.subtree_copy htree]
    at hmounts
  have hhost : (host.map HostMount.mount).filter (fun x => x.id ∉ (subtree host
      (topId host r)).map copyId) = host.map HostMount.mount := by
    refine List.filter_eq_self.2 fun x hx => decide_eq_true fun hmem => ?_
    obtain ⟨m, -, rfl⟩ := List.mem_map.1 hx
    obtain ⟨n, -, hid⟩ := List.mem_map.1 hmem
    exact copyId_ne_host _ _ hid
  rw [hpivoted.mounts, List.filter_append, hhost] at hmounts
  exact hostTree_of_append hmounts fun x hx => hpivoted.ns_eq x (List.mem_filter.1 hx).1

/-- and else it loses one. -/
theorem Left.hostTree_ne (h : Left host r sharp cleared k) (hsharp : sharp) (htree : IsTree r host)
    (hdetach : ¬ DetachUnshared host r cleared) : k.hostTree ≠ host.map HostMount.mount := by
  obtain ⟨k₀, ⟨f, clones, points, hpivoted, hcleared⟩, hmounts⟩ := h
  unfold DetachUnshared at hdetach
  push Not at hdetach
  obtain ⟨m, hm, hinside, hne, p, hp, hparent, hclear, hshared⟩ := hdetach
  have hhost {x : HostMount} (hx : x ∈ host) : x.mount ∈ k₀.mounts := by
    rw [hpivoted.mounts]
    exact List.mem_append_left _ (List.mem_map_of_mem hx)
  have hcopy {x : HostMount} (hx : x ∈ host) : HostMount.pivoted host r f x ∈ k₀.mounts := by
    rw [hpivoted.mounts]
    exact List.mem_append_right _ (List.mem_append_left _ (List.mem_map_of_mem hx))
  have hdetached : m.mount ∉ k.mounts := by
    rw [hmounts]
    have hmcopy : HostMount.pivoted host r f m = m.copied f := if_neg hne
    refine notMem_detach (hcopy hm) ?_ ?_ (hcopy hp) ?_ (hhost hp) (congrArg _ hparent.symm) ?_
      (self_mem_subtree (hhost hm))
    · rw [hmcopy, hpivoted.subtree_copy htree]
      exact List.mem_map_of_mem hinside
    · rw [hmcopy]
      rfl
    · rw [pivoted_id, hmcopy]
      exact congrArg copyId hparent
    · have hgroup : (HostMount.pivoted host r f p).prop.group = p.prop.group := by
        rw [pivoted_prop]
        exact hcleared.same hsharp p hp hclear
      refine ⟨?_, ?_, hgroup⟩
      · rw [pivoted_id]
        exact copyId_ne_host _ _
      · rw [hgroup]
        exact Option.isSome_iff_ne_none.2 hshared
  intro heq
  have hmem : m.mount ∈ k.hostTree := by
    rw [heq]
    exact List.mem_map_of_mem hm
  exact hdetached (List.mem_filter.1 hmem).1

end

/-! ## Runs -/

/-- From a state with `P` the code gets to one with `F` if it fails, and else to one with `Q`. -/
def Steps (F P : Kernel → Prop) (p : SandboxProg ℤ) (Q : Kernel → Prop) : Prop :=
  Prog.Triple (fun _ k => P k) p (fun rc _ k => if rc < 0 then F k else Q k) fun _ _ _ => True

namespace Steps

variable {F P P' Q Q' : Kernel → Prop} {p next : SandboxProg ℤ}

protected theorem pure (h : ∀ k, P k → Q k) : Steps F P (pure 0) Q :=
  Prog.Triple.pure fun _ k hk => h k hk

theorem conseq (h : Steps F P p Q) (hP : ∀ k, P' k → P k) (hQ : ∀ k, Q k → Q' k) :
    Steps F P' p Q' := by
  refine Prog.Triple.conseq h (fun _ => hP) fun rc _ k hk => ?_
  split
  · next hrc => rwa [if_pos hrc] at hk
  · next hrc =>
    rw [if_neg hrc] at hk
    exact hQ k hk

/-- What is known at the end. -/
theorem st (h : Steps F P p Q) {k : Kernel} (hk : P k) :
    if (p.run k).value < 0 then F (p.run k).st else Q (p.run k).st :=
  @Prog.Triple.value _ _ _ _ _ _ _ h [] k hk

protected theorem call (e : SandboxCall) (h : Steps F P next Q) :
    Steps F P (do Prog.call e; next) Q :=
  Prog.Triple.bind (Q := fun _ _ k => P k) (.call fun _ _ hk => hk) fun _ => h

/-- A failure that is only reported. -/
theorem warn {c : Prop} [Decidable c] (e : SandboxCall) (h : Steps F P next Q) :
    Steps F P (do Prog.when c (Prog.call e); next) Q :=
  Prog.Triple.bind (Q := fun _ _ k => P k) (.when (.call fun _ _ hk => hk)) fun _ => h

protected theorem ite {c : Prop} [Decidable c] (hp : c → Steps F P p Q)
    (hnext : ¬ c → Steps F P next Q) : Steps F P (if c then p else next) Q :=
  Prog.Triple.ite hp hnext

protected theorem attempt {c : ℤ → SandboxCall} {rc : ℤ} {message : Bytes}
    (hfail : rc < 0 → ∀ k, P k → F k) (hstep : 0 ≤ rc → ∀ k, P k → P' (k.apply (c rc)))
    (hnext : 0 ≤ rc → Steps F P' next Q) : Steps F P (attempt c rc message next) Q := by
  refine Steps.call _ (Steps.ite (fun hrc => ?_) fun hrc => ?_)
  · refine Steps.call _ (Prog.Triple.pure fun _ k hk => ?_)
    rw [if_pos hrc]
    exact hfail hrc k hk
  · have hrc : 0 ≤ rc := Int.not_lt.1 hrc
    refine Prog.Triple.update_bind ((hnext hrc).conseq ?_ fun _ hk => hk)
    rintro k ⟨k₀, hk₀, rfl⟩
    exact hstep hrc k₀ hk₀

protected theorem orReturn (hp : Steps F P p P') (hnext : Steps F P' next Q) :
    Steps F P (orReturn p next) Q := by
  refine Prog.Triple.bind hp fun rc => ?_
  refine .ite (fun hrc => .pure fun _ k hk => ?_) fun hrc => ?_
  · rwa [if_pos hrc] at hk ⊢
  · refine Prog.Triple.conseq hnext (fun _ k hk => ?_) fun _ _ _ hk => hk
    rwa [if_neg hrc] at hk

protected theorem slaveSource {env : AddMountEnv} {source : Path}
    (hfail : env.slaveFrom < 0 → ∀ k, P k → F k)
    (hstep : ∀ k rc, P k → (IsMountPoint k.mounts (k.resolve source) →
      P' (k.apply (.mount [] source [] [.msSlave, .msRec] [] rc))) ∧
      (¬ IsMountPoint k.mounts (k.resolve source) → P' k))
    (hnext : Steps F P' next Q) : Steps F P (slaveSource env source next) Q := by
  refine Prog.Triple.state_bind fun k₀ => ?_
  refine .ite (fun hnot => ?_) fun hpoint => ?_
  · refine Steps.call _ (hnext.conseq ?_ fun _ hk => hk)
    rintro k ⟨hk, rfl⟩
    exact (hstep k 0 hk).2 hnot.2
  · refine Steps.attempt (fun hrc k hk => hfail hrc k hk.1) (fun hrc => ?_) fun _ => hnext
    rintro k ⟨hk, rfl⟩
    exact (hstep k _ hk).1 (not_not.1 fun hnot => hpoint ⟨hrc, hnot⟩)

/-- A value that does not depend on the run, with a fact about it. -/
theorem of_exists {ι : Type} {c : ι → Prop} {P : ι → Kernel → Prop}
    (h : ∀ i, c i → Steps F (P i) p Q) : Steps F (fun k => ∃ i, c i ∧ P i k) p Q :=
  Prog.Triple.of_exists fun i => .fact (h i)

/-- A message if the code fails. -/
theorem report (h : Steps F P p Q) (message : Bytes) :
    Steps F P (do
      let ret ← p
      Prog.when (ret < 0) (Prog.call (.eprintf message))
      return ret) Q :=
  Prog.Triple.bind h fun _ => Prog.Triple.bind (.when (.call fun _ _ hk => hk))
    fun _ => .pure fun _ _ hk => hk

end Steps

section
variable {host : List HostMount} {r : HostMount} {sharp : Prop} {cleared cleared' : ℕ → Prop}
  {points : List Path} {F Q : Kernel → Prop}

/-- A bind on the tmpfs, whose source may be made a slave. -/
theorem addMount_steps {source point : Path}
    (hfail : ∀ cleared points k, InTmp host r sharp cleared points k → F k)
    (hslave : ∀ k rc, InTmp host r sharp cleared points k →
      (IsMountPoint k.mounts (k.resolve source) → InTmp host r sharp cleared' points
        (k.apply (.mount [] source [] [.msSlave, .msRec] [] rc))) ∧
      (¬ IsMountPoint k.mounts (k.resolve source) → InTmp host r sharp cleared' points k))
    (hpoint : Untouched points point) (env : AddMountEnv) :
    Steps F (InTmp host r sharp cleared points) (addMount env source (bytes "tmp" :: point))
      (InTmp host r sharp cleared' (point :: points)) := by
  refine Steps.slaveSource (fun _ => hfail _ _) hslave ?_
  refine Steps.attempt (fun _ => hfail _ _) (fun _ k hk => hk.bind hpoint source _) fun _ => ?_
  refine Steps.attempt (fun _ => hfail _ _) (fun _ k hk => hk.slave_tmp point _) fun _ => ?_
  exact Steps.attempt (fun _ => hfail _ _) (fun _ k hk => hk) fun _ => Steps.pure fun k hk => hk

/-- The mounts below a directory of the root that is a mount point. -/
def Held (host : List HostMount) (r : HostMount) (name : Bytes) (n : ℕ) : Prop :=
  IsMountPoint host (walk host [name] (r.id, r.root)) ∧
    n ∈ subtree host (walk host [name] (r.id, r.root)).1

/-- A directory of the root is bound to the one of the same name in the tmpfs. -/
theorem addMount_dir (hfail : ∀ cleared points k, InTmp host r sharp cleared points k → F k)
    (htree : IsTree r host) {name : Bytes} (hname : name ≠ bytes "tmp")
    (hpoint : Untouched points [name]) (env : AddMountEnv) :
    Steps F (InTmp host r sharp cleared points) (addMount env [name] [bytes "tmp", name])
      (InTmp host r sharp (fun n => cleared n ∨ Held host r name n) ([name] :: points)) := by
  refine addMount_steps hfail (fun k rc hk => ?_) hpoint env
  rw [hk.isMountPoint htree hname]
  refine ⟨fun hmount => ?_, fun hnot => ?_⟩
  · refine (hk.slave_dir htree hname rc).congr fun n => or_congr_right ?_
    exact (and_iff_right hmount).symm
  · refine hk.congr fun n => (or_iff_left ?_).symm
    exact fun hheld => hnot hheld.1

/-- The text of a path below a directory of the root. -/
theorem text_of_dir {name : Bytes} {path : Path} (h : [name] <+: path) :
    47 :: name <+: path.text := by
  obtain ⟨rest, rfl⟩ := h
  rw [List.singleton_append, Path.text, if_neg (List.cons_ne_nil _ _), List.flatMap_cons]
  exact List.prefix_append _ _

theorem eq_of_prefix_dir {name : Bytes} {path : Path} (h : path <+: [name]) :
    path = [] ∨ path = [name] := by
  rcases List.prefix_cons_iff.1 h with hnil | ⟨rest, rfl, hrest⟩
  · exact .inl hnil
  · rw [List.prefix_nil.1 hrest]
    exact .inr rfl

/-- A path in one of the two directories is not escaped. -/
theorem Escaped.not_dir {real : Path} (h : Escaped real) :
    ∀ name ∈ [bytes "etc", bytes "run"], ¬ [name] <+: real := by
  have hetc : bytes "/etc" = 47 :: bytes "etc" := by decide
  have hrun : bytes "/run" = 47 :: bytes "run" := by decide
  intro name hname hpre
  rcases List.mem_cons.1 hname with rfl | hname
  · exact h.1 (hetc ▸ text_of_dir hpre)
  · rw [List.mem_singleton.1 hname] at hpre
    exact h.2 (hrun ▸ text_of_dir hpre)

/-- The file of an escaped `resolv.conf` does not get in the way. -/
theorem Escaped.untouched {real : Path} (h : Escaped real) (env : SandboxEnv)
    (hcreat : 0 ≤ env.creat (bytes "tmp" :: real)) :
    Untouched [[bytes "etc"]] real ∧ Untouched [real, [bytes "etc"]] [bytes "run"] ∧
      Untouched [real, [bytes "etc"]] [bytes "old"] := by
  have hdir : ∀ path ∈ [[], [bytes "old"]], real ≠ path := by
    rintro path hpath rfl
    have hneg := env.creat_dir (bytes "tmp" :: real) ?_
    · exact absurd hcreat (Int.not_le.2 hneg)
    · rcases List.mem_cons.1 hpath with rfl | hpath
      · exact List.mem_cons_self
      · rw [List.mem_singleton.1 hpath]
        exact List.mem_cons_of_mem _ List.mem_cons_self
  refine ⟨fun q hq hpre => ?_, fun q hq hpre => ?_, fun q hq hpre => ?_⟩
  · rw [List.mem_singleton.1 hq] at hpre
    exact h.not_dir _ List.mem_cons_self hpre
  · rcases List.mem_cons.1 hq with rfl | hq
    · rcases eq_of_prefix_dir hpre with rfl | rfl
      · exact hdir [] List.mem_cons_self rfl
      · exact h.not_dir _ (List.mem_cons_of_mem _ List.mem_cons_self) List.prefix_rfl
    · rw [List.mem_singleton.1 hq] at hpre
      exact absurd hpre (by decide)
  · rcases List.mem_cons.1 hq with rfl | hq
    · rcases eq_of_prefix_dir hpre with rfl | rfl
      · exact hdir [] List.mem_cons_self rfl
      · exact hdir _ (List.mem_cons_of_mem _ List.mem_cons_self) rfl
    · rw [List.mem_singleton.1 hq] at hpre
      exact absurd hpre (by decide)

/-- `bind_escaped_resolv_conf` binds at most one file, away from `/run` and `/old`. -/
theorem bindEscapedResolvConf_steps {env : SandboxEnv}
    (hfail : ∀ cleared points k, InTmp host r sharp cleared points k → F k)
    (hsharp : sharp → env.realpath = none) :
    Steps F (InTmp host r sharp cleared [[bytes "etc"]]) (bindEscapedResolvConf env [bytes "tmp"])
      fun k => ∃ points, (Untouched points [bytes "run"] ∧ Untouched points [bytes "old"]) ∧
        InTmp host r sharp cleared points k := by
  have hetc : Untouched [[bytes "etc"]] [bytes "run"] ∧
      Untouched [[bytes "etc"]] [bytes "old"] := by
    unfold Untouched
    decide
  refine Steps.call _ ?_
  cases hreal : env.realpath with
  | none => exact Steps.pure fun k hk => ⟨_, hetc, hk⟩
  | some real =>
    refine Steps.ite (fun hescaped => ?_) fun _ => Steps.pure fun k hk => ⟨_, hetc, hk⟩
    refine Steps.call _ (Steps.attempt (fun _ => hfail _ _) (fun _ k hk => hk) fun _ => ?_)
    refine Steps.attempt (fun _ => hfail _ _) (fun _ k hk => hk) fun hcreat => Steps.call _ ?_
    obtain ⟨hpoint, hfree⟩ := hescaped.untouched env hcreat
    have hadd : Steps F (InTmp host r sharp cleared [[bytes "etc"]])
        (addMount env.resolv real (bytes "tmp" :: real))
        (InTmp host r sharp cleared [real, [bytes "etc"]]) := by
      refine addMount_steps hfail (fun k rc hk => ⟨fun _ => ?_, fun _ => hk⟩) hpoint env.resolv
      refine (hk.slave_path real rc).weaken (fun n => .inl) fun hs => ?_
      rw [hsharp hs] at hreal
      cases hreal
    exact Steps.report (hadd.conseq (fun _ hk => hk) fun k hk => ⟨_, hfree, hk⟩) _

/-- The mounts whose copies are not shared when the old root is detached. -/
def Isolated (host : List HostMount) (r : HostMount) (n : ℕ) : Prop :=
  (n = r.id ∨ Held host r (bytes "etc") n) ∨ Held host r (bytes "run") n

theorem dropCaps_steps {P : Kernel → Prop} (env : SandboxEnv) {next : SandboxProg ℤ}
    (hfail : ∀ k, P k → F k) (hnext : Steps F P next Q) (i n : ℕ) :
    Steps F P (dropCaps env next i n) Q := by
  induction n generalizing i with
  | zero => exact Steps.call _ hnext
  | succ n ih =>
    refine Steps.ite (fun _ => ih (i + 1)) fun _ => ?_
    exact Steps.attempt (fun _ => hfail) (fun _ k hk => hk) fun _ => ih (i + 1)

/-- The old root is left, and nothing is mounted later. -/
theorem leaveOld_steps (htree : IsTree r host) (env : SandboxEnv)
    (hfail : ∀ k, OnNewRoot host r sharp cleared k → F k)
    (hleft : ∀ k, Left host r sharp cleared k → F k) :
    Steps F (OnNewRoot host r sharp cleared) (leaveOld env) (Left host r sharp cleared) := by
  refine Steps.attempt (fun _ => hfail) (fun _ k hk => hk.chdir [] _) fun _ => ?_
  refine Steps.attempt (fun _ => hfail) (fun _ k hk => hk.umount htree _) fun _ => ?_
  refine Steps.attempt (fun _ => hleft) (fun _ k hk => hk) fun _ => Steps.call _ (Steps.warn _ ?_)
  refine Steps.attempt (fun _ => hleft) (fun _ k hk => hk) fun _ => ?_
  refine Steps.attempt (fun _ => hleft) (fun _ k hk => hk) fun _ => dropCaps_steps env hleft ?_ 0 _
  exact Steps.attempt (fun _ => hleft) (fun _ k hk => hk) fun _ => Steps.pure fun k hk => hk

/-- The tmpfs with the binds becomes the root. -/
theorem bindHost_steps (htree : IsTree r host) {env : SandboxEnv}
    (hfail : ∀ cleared points k, InTmp host r sharp cleared points k → F k)
    (hfail' : ∀ cleared k, OnNewRoot host r sharp cleared k → F k)
    (hleft : ∀ k, Left host r sharp (Isolated host r) k → F k)
    (hsharp : sharp → env.realpath = none) :
    Steps F (InTmp host r sharp (fun n => n = r.id) []) (bindHost env)
      (Left host r sharp (Isolated host r)) := by
  have hnil (path : Path) : Untouched [] path := fun _ hq => absurd hq List.not_mem_nil
  refine Steps.orReturn (addMount_dir hfail htree (by decide) (hnil _) env.etc) ?_
  refine Steps.orReturn (bindEscapedResolvConf_steps hfail hsharp) (Steps.of_exists ?_)
  rintro points ⟨hrun, hold⟩
  refine Steps.orReturn (addMount_dir hfail htree (by decide) hrun env.run) ?_
  have hold' : Untouched ([bytes "run"] :: points) [bytes "old"] :=
    List.forall_mem_cons.2 ⟨by decide, hold⟩
  refine Steps.attempt (fun _ => hfail _ _) (fun _ k hk => hk.chdir hold' _) fun _ => ?_
  refine Steps.attempt (fun _ k hk => hfail _ _ k hk.1) (fun _ k hk => hk.pivotRoot hold' _) ?_
  exact fun _ => leaveOld_steps htree env (hfail' _) hleft

theorem ofHost_hostTree (host : List HostMount) (r : HostMount) :
    (Kernel.ofHost host r).hostTree = host.map HostMount.mount :=
  hostTree_of_append (List.append_nil _).symm fun _ hx => absurd hx List.not_mem_nil

/-- If nothing shared is at `/tmp`, the mounts of the host can only change with the last
    `umount2`. -/
theorem createSandbox_steps (htree : IsTree r host) (htmp : TmpUnshared host r) {env : SandboxEnv}
    (hsharp : sharp → env.realpath = none) :
    Steps (fun k => k.hostTree = host.map HostMount.mount ∨ Left host r sharp (Isolated host r) k)
      (fun k => k = Kernel.ofHost host r) (createSandbox env)
      (Left host r sharp (Isolated host r)) := by
  have hnone {f : HostMount → Propagation} {k : Kernel} (h : Shape host r f [] k) :
      k.hostTree = host.map HostMount.mount := h.hostTree fun _ hx => absurd hx List.not_mem_nil
  refine Steps.attempt (fun _ k hk => .inl (hk ▸ ofHost_hostTree host r))
    (fun _ k hk => hk ▸ Shape.unshare host r _) fun _ => ?_
  refine Steps.attempt (fun _ k hk => .inl (hnone hk)) (fun _ k hk => hk.makePrivate _) fun _ => ?_
  refine Steps.attempt (fun _ k ⟨f, hk, _⟩ => .inl (hnone hk))
    (fun _ k hk => hk.mountTmpfs htmp sharp _ _ _ _) fun _ => ?_
  have hfail (cleared : ℕ → Prop) (points : List Path) (k : Kernel)
      (hk : InTmp host r sharp cleared points k) : k.hostTree = host.map HostMount.mount ∨
        Left host r sharp (Isolated host r) k := .inl hk.hostTree
  refine Steps.attempt (fun _ => hfail _ _) (fun _ k hk => hk) fun _ => ?_
  refine Steps.attempt (fun _ => hfail _ _) (fun _ k hk => hk) fun _ => ?_
  refine Steps.attempt (fun _ => hfail _ _) (fun _ k hk => hk) fun _ => ?_
  exact bindHost_steps htree hfail (fun _ k hk => .inl hk.hostTree) (fun k hk => .inr hk) hsharp

end

/-! ## The mounts of the host -/

/-- Code that does not fail, from any state. -/
def Succeeds (p : SandboxProg ℤ) : Prop := Steps (fun _ => False) (fun _ => True) p fun _ => True

namespace Succeeds

variable {p next : SandboxProg ℤ}

protected theorem pure : Succeeds (pure 0) := Steps.pure fun _ _ => trivial

protected theorem call (e : SandboxCall) (h : Succeeds next) : Succeeds (do Prog.call e; next) :=
  Steps.call e h

theorem warn {c : Prop} [Decidable c] (e : SandboxCall) (h : Succeeds next) :
    Succeeds (do Prog.when c (Prog.call e); next) := Steps.warn e h

protected theorem attempt {c : ℤ → SandboxCall} {message : Bytes} (hnext : Succeeds next) :
    Succeeds (attempt c 0 message next) :=
  Steps.attempt (fun h => absurd h (by decide)) (fun _ _ _ => trivial) fun _ => hnext

protected theorem orReturn (hp : Succeeds p) (hnext : Succeeds next) : Succeeds (orReturn p next) :=
  Steps.orReturn hp hnext

protected theorem addMount (source target : Path) :
    Succeeds (addMount ⟨0, 0, 0, 0, 0⟩ source target) := by
  have hnext : Succeeds (return 0) := Succeeds.pure
  refine Steps.slaveSource (fun h => absurd h (by decide)) (fun k rc _ => ?_)
    hnext.attempt.attempt.attempt
  exact ⟨fun _ => trivial, fun _ => trivial⟩

protected theorem dropCaps (real : Option Path) (hnext : Succeeds next) (i n : ℕ) :
    Succeeds (dropCaps { SandboxEnv.smooth with realpath := real } next i n) := by
  induction n generalizing i with
  | zero => exact hnext.call _
  | succ n ih => exact Steps.ite (fun _ => ih (i + 1)) fun _ => (ih (i + 1)).attempt

/-- If no call fails and `/etc/resolv.conf` is no reason for a bind. -/
protected theorem createSandbox {real : Option Path} (h : ∀ path ∈ real, ¬ Escaped path) :
    Succeeds (createSandbox { SandboxEnv.smooth with realpath := real }) := by
  have hresolv : Succeeds
      (bindEscapedResolvConf { SandboxEnv.smooth with realpath := real } [bytes "tmp"]) := by
    refine .call _ ?_
    cases real with
    | none => exact .pure
    | some path =>
      exact Steps.ite (fun hescaped => absurd hescaped (h path rfl)) fun _ => Succeeds.pure
  refine .attempt (.attempt (.attempt (.attempt (.attempt (.attempt ?_)))))
  refine .orReturn (.addMount _ _) (.orReturn hresolv (.orReturn (.addMount _ _) ?_))
  refine .attempt (.attempt (.attempt (.attempt (.attempt (.call _ (.warn _ ?_))))))
  exact .attempt (.attempt (.dropCaps real (.attempt .pure) 0 _))

theorem not_neg (h : Succeeds p) (k : Kernel) : ¬ (p.run k).value < 0 := by
  intro hneg
  have hend := Steps.st h (k := k) trivial
  rwa [if_pos hneg] at hend

/-- A run that succeeds ends with what it is known to end with. -/
theorem st {F P Q : Kernel → Prop} (h : Succeeds p) (hp : Steps F P p Q) {k : Kernel} (hk : P k) :
    Q (p.run k).st := by
  have hsucceeds := Steps.st h (k := k) trivial
  have hend := hp.st hk
  split at hsucceeds
  · exact hsucceeds.elim
  · next hrc => rwa [if_neg hrc] at hend

end Succeeds

/-- **The mounts of the host stay as they are, whatever fails, exactly if `/tmp` is not on a
    shared mount other than the root, and with the old root nothing is detached from a shared
    mount other than the root and those below `/etc` and `/run`.** -/
theorem host_unchanged {host : List HostMount} {r : HostMount} (h : IsTree r host) :
    (∀ env, ((createSandbox env).run (.ofHost host r)).st.hostTree =
      (Kernel.ofHost host r).hostTree) ↔
    TmpUnshared host r ∧ DetachUnshared host r (Isolated host r) := by
  rw [ofHost_hostTree]
  constructor
  · intro hall
    have htmp : TmpUnshared host r := by
      by_contra hnot
      have hprivate : RootPrivate host r _ := (Shape.unshare host r 0).makePrivate 0
      -- the tmpfs is mounted, but the directory for `/etc` cannot be made
      exact hprivate.mountTmpfs_ne hnot (bytes "tmpfs") (bytes "tmpfs") (bytes "size=1k") 0
        (hall { SandboxEnv.smooth with mkdirEtc := -1 })
    refine ⟨htmp, ?_⟩
    by_contra hnot
    have hsmooth : Succeeds (createSandbox .smooth) := .createSandbox fun _ hp => nomatch hp
    have hleft : Left host r True (Isolated host r) ((createSandbox .smooth).run _).st :=
      hsmooth.st (createSandbox_steps h htmp fun _ => rfl) rfl
    exact hleft.hostTree_ne trivial h hnot (hall .smooth)
  · rintro ⟨htmp, hdetach⟩ env
    have hsteps : Steps _ _ (createSandbox env) (Left host r False (Isolated host r)) :=
      createSandbox_steps h htmp False.elim
    have hrun := hsteps.st rfl
    split at hrun
    · exact hrun.elim id fun hleft => hleft.hostTree h hdetach
    · exact hrun.hostTree h hdetach

/-- The root of the examples, shared as under systemd. -/
def sharedRoot : HostMount := ⟨0, 0, (), [], [], ⟨some 0, none⟩⟩

/-- `/run` with a mount below it, both shared. -/
def runMounts : List HostMount :=
  [sharedRoot, ⟨1, 0, (), [], [bytes "run"], ⟨some 1, none⟩⟩,
    ⟨2, 1, (), [], [bytes "foo"], ⟨some 2, none⟩⟩]

theorem runMounts_isTree : IsTree sharedRoot runMounts :=
  .mount (.mount (.root rfl) (by decide) (by decide)) (by decide) (by decide)

theorem host_unchanged_run : IsTree sharedRoot runMounts ∧
    ∀ env, ((createSandbox env).run (.ofHost runMounts sharedRoot)).st.hostTree =
      (Kernel.ofHost runMounts sharedRoot).hostTree := by
  refine ⟨runMounts_isTree, (host_unchanged runMounts_isTree).2 ⟨?_, ?_⟩⟩
  · unfold TmpUnshared
    decide +kernel
  · unfold DetachUnshared Isolated Held
    decide +kernel

/-- With a shared mount at `/tmp`, a call that fails leaves a tmpfs on it in the host; with one at
    `/sys`, a call that succeeds takes the `/sys/fs/cgroup` of the host away. -/
theorem host_mounts_changed :
    let host : List HostMount := [sharedRoot, ⟨1, 0, (), [], [bytes "tmp"], ⟨some 1, none⟩⟩]
    let host' : List HostMount := [sharedRoot, ⟨1, 0, (), [], [bytes "sys"], ⟨some 1, none⟩⟩,
      ⟨2, 1, (), [], [bytes "fs", bytes "cgroup"], .isolated⟩]
    (∃ env, ((createSandbox env).run (.ofHost host sharedRoot)).value = -1 ∧
      ((createSandbox env).run (.ofHost host sharedRoot)).st.hostTree =
        (Kernel.ofHost host sharedRoot).hostTree ++ [⟨.replica (.host 1) (.fresh 4), .host 1, .host,
          [], [], ⟨some 2, none⟩⟩]) ∧
    ∃ env, ((createSandbox env).run (.ofHost host' sharedRoot)).value = 0 ∧
      ((createSandbox env).run (.ofHost host' sharedRoot)).st.hostTree =
        (Kernel.ofHost host' sharedRoot).hostTree.take 2 := by
  refine ⟨⟨{ SandboxEnv.smooth with mkdirEtc := -1 }, ?_⟩, .smooth, ?_⟩
  · decide +kernel
  · decide +kernel

end Slirp4netns
