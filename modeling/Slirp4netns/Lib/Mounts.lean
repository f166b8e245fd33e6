/-
  Mount tables with propagation.

  A mount has a parent and is mounted on a dentry of the parent's file system; a
  dentry is given by the names that lead to it.  A shared mount belongs to a peer
  group.  A table lists a mount after its parent, so that one pass over the table
  follows a stack of mounts to its top (`follow`) and collects what is mounted
  below a mount (`subtree`).

  * `attach`: mounts on a shared mount are replicated on its peers;
  * `detach`: a mount goes with all that is below it, and what is detached from
    a shared mount is detached at the same place of its peers;
  * `IsTree`: the trees that can be built by mounting.
-/
import Mathlib.Data.List.Basic
import Mathlib.Logic.Function.Basic

namespace MountTable

/-- The peer group of a shared mount, and the group of which a mount is a slave. -/
structure Propagation where
  group : Option ℕ
  master : Option ℕ
  deriving DecidableEq

/-- A private mount. -/
def Propagation.isolated : Propagation := ⟨none, none⟩

/-- `MS_SLAVE` -/
def Propagation.slave (p : Propagation) : Propagation :=
  match p.group with
  | none => p
  | some g => ⟨none, some g⟩

@[simp] theorem Propagation.slave_group (p : Propagation) : p.slave.group = none := by
  cases h : p.group <;> simp [slave, h]

/-- A mount of a table. -/
structure Mount (ι κ ν : Type) where
  id : ι
  /-- the mount itself for a root -/
  parent : ι
  ns : ν
  /-- the dentry of its own file system that is visible at the mount point -/
  root : List κ
  /-- the dentry of the parent's file system that is covered -/
  point : List κ
  prop : Propagation
  deriving DecidableEq

/-- A mount and a dentry of its file system. -/
abbrev Location (ι κ : Type) := ι × List κ

section
variable {ι κ ν : Type} [DecidableEq ι] [DecidableEq κ]

/-! ## Resolution -/

/-- The root of a mount, if it covers the location. -/
def Mount.enter (l : Location ι κ) (m : Mount ι κ ν) : Location ι κ :=
  if m.parent ≠ m.id ∧ m.parent = l.1 ∧ m.point = l.2 then (m.id, m.root) else l

/-- The top of the mounts at a location. -/
def follow (t : List (Mount ι κ ν)) (l : Location ι κ) : Location ι κ := t.foldl Mount.enter l

/-- The location of a path. -/
def walk (t : List (Mount ι κ ν)) : List κ → Location ι κ → Location ι κ
  | [], l => l
  | name :: path, l => walk t path (follow t (l.1, l.2 ++ [name]))

/-- The location is the root of a mount. -/
def IsMountPoint (t : List (Mount ι κ ν)) (l : Location ι κ) : Prop :=
  ∃ m ∈ t, m.id = l.1 ∧ m.root = l.2

instance (t : List (Mount ι κ ν)) (l : Location ι κ) : Decidable (IsMountPoint t l) :=
  inferInstanceAs (Decidable (∃ m ∈ t, _))

/-- One more mount, if it is `a` or below what was collected. -/
def grow (a : ι) (acc : List ι) (m : Mount ι κ ν) : List ι :=
  if m.id = a ∨ m.parent ∈ acc then m.id :: acc else acc

/-- A mount with all that is below it. -/
def subtree (t : List (Mount ι κ ν)) (a : ι) : List ι := t.foldl (grow a) []

/-! ## Changes -/

/-- Two shared mounts of one group. -/
def Peers (p q : Mount ι κ ν) : Prop :=
  p.id ≠ q.id ∧ p.prop.group.isSome ∧ p.prop.group = q.prop.group

instance (p q : Mount ι κ ν) : Decidable (Peers p q) := inferInstanceAs (Decidable (_ ∧ _))

/-- The peers of a mount. -/
def peersOf (t : List (Mount ι κ ν)) (i : ι) : List (Mount ι κ ν) :=
  t.filter fun q => ∃ p ∈ t, p.id = i ∧ Peers p q

/-- A copy of every mount of a namespace, in the peer group of its original. -/
def copyTree [DecidableEq ν] (copy : ι → ι) (source target : ν) (t : List (Mount ι κ ν)) :
    List (Mount ι κ ν) :=
  t ++ (t.filter fun m => m.ns = source).map fun m =>
    { m with id := copy m.id, parent := copy m.parent, ns := target }

/-- Another propagation for some of the mounts. -/
def setProp (t : List (Mount ι κ ν)) (ids : List ι) (f : Propagation → Propagation) :
    List (Mount ι κ ν) :=
  t.map fun m => if m.id ∈ ids then { m with prop := f m.prop } else m

/-- A group without a member. -/
def newGroup (t : List (Mount ι κ ν)) : ℕ :=
  t.foldl (fun n m => max n (m.prop.group.getD 0 + 1)) 0

/-- New mounts with a peer group each. -/
def shareAll (n : ℕ) (tree : List (Mount ι κ ν)) : List (Mount ι κ ν) :=
  tree.zipIdx.map fun (m, i) =>
    if m.prop.group.isSome then m else { m with prop := ⟨some (n + i), m.prop.master⟩ }

/-- New mounts on a peer, in the place of those on `dest`. -/
def replicate (replica : ι → ι → ι) (dest : ι) (tree : List (Mount ι κ ν)) (q : Mount ι κ ν) :
    List (Mount ι κ ν) :=
  tree.map fun m => { m with
    id := replica q.id m.id
    parent := if m.parent = dest then q.id else replica q.id m.parent
    ns := q.ns }

/-- Mount a tree on `dest`, and on its peers if it is shared. -/
def attach (replica : ι → ι → ι) (t : List (Mount ι κ ν)) (dest : ι)
    (tree : List (Mount ι κ ν)) : List (Mount ι κ ν) :=
  if ∃ p ∈ t, p.id = dest ∧ p.prop.group.isSome then
    let shared := shareAll (newGroup t) tree
    t ++ shared ++ (peersOf t dest).flatMap (replicate replica dest shared)
  else t ++ tree

/-- The mounts below a dentry of a mount. -/
def below (t : List (Mount ι κ ν)) (l : Location ι κ) : List ι :=
  t.foldl (fun acc m =>
    if (m.parent = l.1 ∧ m.id ≠ l.1 ∧ l.2 <+: m.point ∧ m.point ≠ l.2) ∨ m.parent ∈ acc then
      m.id :: acc
    else acc) []

/-- The tree that a recursive bind of `source` mounts on `dest`. -/
def cloneTree (clone : ι → ι) (t : List (Mount ι κ ν)) (source dest : Location ι κ) :
    List (Mount ι κ ν) :=
  (t.filter fun m => m.id = source.1).map (fun m =>
    { m with id := clone m.id, parent := dest.1, root := source.2, point := dest.2 }) ++
  (t.filter fun m => m.id ∈ below t source).map fun m =>
    { m with id := clone m.id, parent := clone m.parent }

/-- The new root and the old one change places. -/
def pivot (t : List (Mount ι κ ν)) (new old : ι) (putOld : Location ι κ) : List (Mount ι κ ν) :=
  t.map fun m =>
    if m.id = new then { m with parent := new, point := [] }
    else if m.id = old then { m with parent := putOld.1, point := putOld.2 }
    else m

/-- A mount at the place, on a peer of its parent, of one that is detached. -/
def Hit (t : List (Mount ι κ ν)) (inside : List ι) (x : Mount ι κ ν) : Prop :=
  ∃ d ∈ t, d.id ∈ inside ∧ x.point = d.point ∧
    ∃ p ∈ t, p.id = d.parent ∧ ∃ q ∈ t, x.parent = q.id ∧ Peers p q

instance (t : List (Mount ι κ ν)) (inside : List ι) (x : Mount ι κ ν) :
    Decidable (Hit t inside x) :=
  inferInstanceAs (Decidable (∃ d ∈ t, _ ∧ _ ∧ ∃ p ∈ t, _ ∧ ∃ q ∈ t, _))

/-- `MNT_DETACH`, with the mounts to which it propagates. -/
def detach (t : List (Mount ι κ ν)) (a : ι) : List (Mount ι κ ν) :=
  t.filter fun x => x.id ∉ subtree t a ∧ ¬ ∃ y ∈ t, Hit t (subtree t a) y ∧ x.id ∈ subtree t y.id

end

/-- The same mount under another name. -/
structure Relabels {ι ι' κ ν ν' : Type} (f : ι → ι') (m : Mount ι κ ν) (m' : Mount ι' κ ν') :
    Prop where
  id : m'.id = f m.id
  parent : m'.parent = f m.parent
  root : m'.root = m.root
  point : m'.point = m.point

/-! ## Following mounts -/

section
variable {ι κ ν : Type} [DecidableEq ι] [DecidableEq κ]

section
variable {t u : List (Mount ι κ ν)} {l : Location ι κ}

theorem follow_append (t u : List (Mount ι κ ν)) (l : Location ι κ) :
    follow (t ++ u) l = follow u (follow t l) := List.foldl_append

theorem follow_cons (m : Mount ι κ ν) (t : List (Mount ι κ ν)) (l : Location ι κ) :
    follow (m :: t) l = follow t (m.enter l) := rfl

theorem Mount.enter_of_parent {m : Mount ι κ ν} (h : m.parent ≠ l.1) : m.enter l = l :=
  if_neg fun hm => h hm.2.1

/-- One stays, or gets to the root of a mount. -/
theorem follow_induction {P : ι → Prop} (hstart : P l.1)
    (hstep : ∀ m ∈ t, P m.parent → P m.id) : P (follow t l).1 := by
  induction t generalizing l with
  | nil => exact hstart
  | cons m t ih =>
    obtain ⟨hm, ht⟩ := List.forall_mem_cons.1 hstep
    refine ih ?_ ht
    unfold Mount.enter
    split
    · next h => exact hm (h.2.1 ▸ hstart)
    · exact hstart

theorem walk_induction {P : ι → Prop} (path : List κ) (hstart : P l.1)
    (hstep : ∀ m ∈ t, P m.parent → P m.id) : P (walk t path l).1 := by
  induction path generalizing l with
  | nil => exact hstart
  | cons name path ih => exact ih (follow_induction hstart hstep)

/-- Nothing is mounted on the mount. -/
theorem follow_of_parent (h : ∀ m ∈ t, m.parent ≠ l.1) : follow t l = l := by
  induction t with
  | nil => rfl
  | cons m t ih =>
    obtain ⟨hm, ht⟩ := List.forall_mem_cons.1 h
    rw [follow_cons, Mount.enter_of_parent hm, ih ht]

end

section
variable {ι' ν' : Type} [DecidableEq ι'] {f : ι → ι'} {t : List (Mount ι κ ν)}
  {g : Mount ι κ ν → Mount ι' κ ν'}

theorem follow_map (hf : Function.Injective f) (hg : ∀ m ∈ t, Relabels f m (g m))
    (l : Location ι κ) :
    follow (t.map g) (f l.1, l.2) = (f (follow t l).1, (follow t l).2) := by
  induction t generalizing l with
  | nil => rfl
  | cons m t ih =>
    obtain ⟨hm, ht⟩ := List.forall_mem_cons.1 hg
    have henter : (g m).enter (f l.1, l.2) = (f (m.enter l).1, (m.enter l).2) := by
      simp only [Mount.enter, hm.id, hm.parent, hm.root, hm.point, hf.ne_iff, hf.eq_iff]
      split <;> rfl
    rw [List.map_cons, follow_cons, follow_cons, henter, ih ht]

end

end

/-! ## Collecting mounts -/

section
variable {ι ι' κ ν ν' : Type} [DecidableEq ι] [DecidableEq ι'] {f : ι → ι'}
  {t : List (Mount ι κ ν)} {g : Mount ι κ ν → Mount ι' κ ν'} {a : ι}

theorem grow_map (hf : Function.Injective f) (hg : ∀ m ∈ t, Relabels f m (g m)) (a : ι)
    (acc : List ι) :
    (t.map g).foldl (grow (f a)) (acc.map f) = (t.foldl (grow a) acc).map f := by
  induction t generalizing acc with
  | nil => rfl
  | cons m t ih =>
    obtain ⟨hm, ht⟩ := List.forall_mem_cons.1 hg
    have hgrow : grow (f a) (acc.map f) (g m) = (grow a acc m).map f := by
      simp only [grow, hm.id, hm.parent, hf.eq_iff, List.mem_map_of_injective hf]
      split <;> rfl
    rw [List.map_cons, List.foldl_cons, List.foldl_cons, hgrow, ih ht]

/-- Nothing of the table is below what was collected. -/
theorem grow_of_not {acc : List ι} (hid : ∀ m ∈ t, m.id ≠ a) (hparent : ∀ m ∈ t, m.parent ∉ acc) :
    t.foldl (grow a) acc = acc := by
  induction t with
  | nil => rfl
  | cons m t ih =>
    obtain ⟨hm, ht⟩ := List.forall_mem_cons.1 hid
    obtain ⟨hm', ht'⟩ := List.forall_mem_cons.1 hparent
    have hstay : grow a acc m = acc := if_neg fun h => h.elim hm hm'
    rw [List.foldl_cons, hstay, ih ht ht']

/-- Whether a name is collected depends on the mounts of this name. -/
theorem mem_grow_iff {acc : List ι} {i : ι} (h : ∀ m ∈ t, m.id ≠ i) :
    i ∈ t.foldl (grow a) acc ↔ i ∈ acc := by
  induction t generalizing acc with
  | nil => rfl
  | cons m t ih =>
    obtain ⟨hm, ht⟩ := List.forall_mem_cons.1 h
    rw [List.foldl_cons, ih ht, grow]
    split
    · rw [List.mem_cons, or_iff_right (Ne.symm hm)]
    · rfl

theorem mem_grow_of_mem {acc : List ι} {i : ι} (h : i ∈ acc) :
    i ∈ t.foldl (grow a) acc := by
  induction t generalizing acc with
  | nil => exact h
  | cons m t ih =>
    refine ih ?_
    unfold grow
    split
    · exact List.mem_cons_of_mem _ h
    · exact h

theorem self_mem_subtree {x : Mount ι κ ν} (h : x ∈ t) : x.id ∈ subtree t x.id := by
  obtain ⟨u, v, rfl⟩ := List.append_of_mem h
  rw [subtree, List.foldl_append, List.foldl_cons]
  refine mem_grow_of_mem ?_
  rw [grow, if_pos (.inl rfl)]
  exact List.mem_cons_self

/-- What passes on from a mount to what is mounted there. -/
theorem below_induction [DecidableEq κ] {P : ι → Prop} {l : Location ι κ} (hstart : P l.1)
    (hstep : ∀ m ∈ t, P m.parent → P m.id) : ∀ i ∈ below t l, P i := by
  refine List.foldlRecOn (motive := fun acc => ∀ i ∈ acc, P i) t _
    (fun i hi => absurd hi List.not_mem_nil) fun acc hacc m hm => ?_
  split
  · next hmem =>
    refine List.forall_mem_cons.2 ⟨hstep m hm ?_, hacc⟩
    rcases hmem with ⟨hparent, -⟩ | hmem
    · exact hparent ▸ hstart
    · exact hacc _ hmem
  · exact hacc

end

/-! ## Changes and their propagation -/

theorem exists_mem_shareAll {ι κ ν : Type} (n : ℕ) {tree : List (Mount ι κ ν)} {x : Mount ι κ ν}
    (h : x ∈ tree) :
    ∃ x' ∈ shareAll n tree, x'.id = x.id := by
  obtain ⟨i, hi⟩ := List.mem_iff_getElem?.1 h
  refine ⟨_, List.mem_map_of_mem (List.mk_mem_zipIdx_iff_getElem?.2 hi), ?_⟩
  dsimp only
  split <;> rfl

section
variable {ι κ ν : Type} [DecidableEq ι] {t : List (Mount ι κ ν)} {a : ι}

theorem attach_of_not_shared {replica : ι → ι → ι} {dest : ι}
    (h : ∀ p ∈ t, p.id = dest → p.prop.group = none) (tree : List (Mount ι κ ν)) :
    attach replica t dest tree = t ++ tree := by
  refine if_neg ?_
  rintro ⟨p, hp, hid, hsome⟩
  rw [h p hp hid] at hsome
  cases hsome

/-- What is mounted on a shared mount is mounted on its peers. -/
theorem exists_replica {replica : ι → ι → ι} {dest : ι} {tree : List (Mount ι κ ν)}
    {p q x : Mount ι κ ν} (hp : p ∈ t) (hid : p.id = dest) (hq : q ∈ t) (hpeers : Peers p q)
    (hx : x ∈ tree) :
    ∃ y ∈ attach replica t dest tree, y.id = replica q.id x.id ∧ y.ns = q.ns := by
  obtain ⟨x', hx', hid'⟩ := exists_mem_shareAll (newGroup t) hx
  rw [attach, if_pos ⟨p, hp, hid, hpeers.2.1⟩]
  have hpeer : q ∈ peersOf t dest := List.mem_filter.2 ⟨hq, decide_eq_true ⟨p, hp, hid, hpeers⟩⟩
  refine ⟨_, List.mem_append_right _ (List.mem_flatMap.2 ⟨q, hpeer, List.mem_map_of_mem hx'⟩), ?_⟩
  exact ⟨congrArg _ hid', rfl⟩

/-- What is detached from mounts that are not shared is detached nowhere else. -/
theorem detach_of_not_shared [DecidableEq κ]
    (h : ∀ d ∈ t, d.id ∈ subtree t a → ∀ p ∈ t, p.id = d.parent → p.prop.group = none) :
    detach t a = t.filter fun x => x.id ∉ subtree t a := by
  refine List.filter_congr fun x _ => ?_
  have hnone : ¬ ∃ y ∈ t, Hit t (subtree t a) y ∧ x.id ∈ subtree t y.id := by
    rintro ⟨y, -, ⟨d, hd, hinside, -, p, hp, hparent, q, -, -, -, hsome, -⟩, -⟩
    rw [h d hd hinside p hp hparent] at hsome
    cases hsome
  simp [hnone]

/-- What is detached from a shared mount is detached from its peers. -/
theorem notMem_detach [DecidableEq κ] {x d p q : Mount ι κ ν} (hd : d ∈ t)
    (hinside : d.id ∈ subtree t a) (hpoint : x.point = d.point) (hp : p ∈ t)
    (hparent : p.id = d.parent) (hq : q ∈ t) (hxq : x.parent = q.id) (hpeers : Peers p q)
    (hself : x.id ∈ subtree t x.id) : x ∉ detach t a := by
  intro hx
  obtain ⟨hxt, hkeep⟩ := List.mem_filter.1 hx
  refine (of_decide_eq_true hkeep).2 ⟨x, hxt, ?_, hself⟩
  exact ⟨d, hd, hinside, hpoint, p, hp, hparent, q, hq, hxq, hpeers⟩

end

/-! ## Trees -/

/-- The trees that are built from a root by mounting. -/
inductive IsTree {ι κ ν : Type} (r : Mount ι κ ν) : List (Mount ι κ ν) → Prop
  | root (hself : r.parent = r.id) : IsTree r [r]
  | mount {t : List (Mount ι κ ν)} {m : Mount ι κ ν} (ht : IsTree r t)
      (hnew : ∀ x ∈ t, x.id ≠ m.id) (hparent : ∃ p ∈ t, p.id = m.parent) : IsTree r (t ++ [m])

section
variable {ι κ ν : Type} {r : Mount ι κ ν} {t : List (Mount ι κ ν)}

/-- The root comes first, and no other mount has its name. -/
theorem IsTree.eq_cons (h : IsTree r t) : ∃ rest, t = r :: rest ∧ ∀ m ∈ rest, m.id ≠ r.id := by
  induction h with
  | root hself => exact ⟨[], rfl, fun _ h => absurd h List.not_mem_nil⟩
  | @mount t m ht hnew _ ih =>
    obtain ⟨rest, rfl, hrest⟩ := ih
    refine ⟨rest ++ [m], rfl, fun x hx => ?_⟩
    rcases List.mem_append.1 hx with hx | hx
    · exact hrest x hx
    · rw [List.mem_singleton.1 hx]
      exact (hnew r List.mem_cons_self).symm

theorem IsTree.root_self (h : IsTree r t) : r.parent = r.id := by
  induction h with
  | root hself => exact hself
  | mount _ _ _ ih => exact ih

end

end MountTable
