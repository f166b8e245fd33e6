/-
  Recursive binds of mount tables.

  A bind with everything below mounts a copy of a part of the table under new
  names (`cloneTree`).  In an ordered table, a path in the copy leads to the copy
  of what it leads to at the source (`walk_cloneTree`), and nothing outside of the
  copy has an influence on that (`walk_append_left`, `walk_append_right`).
-/
import Mathlib.Data.List.Induction
import Slirp4netns.Lib.Mounts

namespace MountTable

/-! ## Paths -/

section
variable {ι κ ν : Type} [DecidableEq ι] [DecidableEq κ] {t u : List (Mount ι κ ν)}
  {l : Location ι κ}

theorem walk_append (t : List (Mount ι κ ν)) (p q : List κ) (l : Location ι κ) :
    walk t (p ++ q) l = walk t q (walk t p l) := by
  induction p generalizing l with
  | nil => rfl
  | cons name p ih => exact ih _

theorem walk_concat (t : List (Mount ι κ ν)) (p : List κ) (name : κ) (l : Location ι κ) :
    walk t (p ++ [name]) l = follow t ((walk t p l).1, (walk t p l).2 ++ [name]) :=
  walk_append t p [name] l

/-- Nothing is mounted at the location. -/
def Uncovered (t : List (Mount ι κ ν)) (l : Location ι κ) : Prop :=
  ∀ m ∈ t, m.parent ≠ m.id → m.parent = l.1 → m.point ≠ l.2

theorem follow_of_uncovered (h : Uncovered t l) : follow t l = l := by
  induction t with
  | nil => rfl
  | cons m t ih =>
    obtain ⟨hm, ht⟩ := List.forall_mem_cons.1 h
    have hstay : m.enter l = l := if_neg fun henter => hm henter.1 henter.2.1 henter.2.2
    rw [follow_cons, hstay, ih ht]

/-- Mounts that come later and cover nothing on the way. -/
theorem walk_append_right (path : List κ)
    (h : ∀ q name, q ++ [name] <+: path → Uncovered u (walk t (q ++ [name]) l)) :
    walk (t ++ u) path l = walk t path l := by
  induction path using List.reverseRecOn with
  | nil => rfl
  | append_singleton p name ih =>
    have hp := ih fun q n hq => h q n (hq.trans (List.prefix_append p [name]))
    rw [walk_concat, hp, follow_append, ← walk_concat]
    exact follow_of_uncovered (h p name List.prefix_rfl)

/-- Mounts that come earlier and cover nothing on the way. -/
theorem walk_append_left (path : List κ)
    (h : ∀ q name, q ++ [name] <+: path →
      Uncovered u ((walk t q l).1, (walk t q l).2 ++ [name])) :
    walk (u ++ t) path l = walk t path l := by
  induction path using List.reverseRecOn with
  | nil => rfl
  | append_singleton p name ih =>
    have hp := ih fun q n hq => h q n (hq.trans (List.prefix_append p [name]))
    rw [walk_concat, hp, follow_append, follow_of_uncovered (h p name List.prefix_rfl), walk_concat]

end

section
variable {ι ι' κ ν ν' : Type} [DecidableEq ι] [DecidableEq ι'] [DecidableEq κ] {f : ι → ι'}
  {t : List (Mount ι κ ν)} {g : Mount ι κ ν → Mount ι' κ ν'}

theorem walk_map (hf : Function.Injective f) (hg : ∀ m ∈ t, Relabels f m (g m)) (path : List κ)
    (l : Location ι κ) :
    walk (t.map g) path (f l.1, l.2) = (f (walk t path l).1, (walk t path l).2) := by
  induction path generalizing l with
  | nil => rfl
  | cons name path ih =>
    rw [walk, follow_map hf hg (l.1, l.2 ++ [name]), ih]
    rfl

end

/-! ## Propagation does not matter -/

/-- A mount without its propagation. -/
def Mount.bare {ι κ ν : Type} (m : Mount ι κ ν) : Mount ι κ ν := { m with prop := .isolated }

section
variable {ι κ ν : Type} [DecidableEq ι] [DecidableEq κ] {t u : List (Mount ι κ ν)}

theorem walk_bare (t : List (Mount ι κ ν)) (path : List κ) (l : Location ι κ) :
    walk (t.map Mount.bare) path l = walk t path l :=
  walk_map Function.injective_id (g := Mount.bare) (fun _ _ => ⟨rfl, rfl, rfl, rfl⟩) path l

theorem walk_congr (h : t.map Mount.bare = u.map Mount.bare) (path : List κ)
    (l : Location ι κ) : walk t path l = walk u path l := by
  rw [← walk_bare t, h, walk_bare]

end

theorem setProp_bare {ι κ ν : Type} [DecidableEq ι] (t : List (Mount ι κ ν)) (ids : List ι)
    (f : Propagation → Propagation) :
    (setProp t ids f).map Mount.bare = t.map Mount.bare := by
  rw [setProp, List.map_map]
  refine List.map_congr_left fun m _ => ?_
  show (if m.id ∈ ids then _ else m).bare = m.bare
  split <;> rfl

theorem shareAll_bare {ι κ ν : Type} (n : ℕ) (t : List (Mount ι κ ν)) :
    (shareAll n t).map Mount.bare = t.map Mount.bare := by
  have hmap : (shareAll n t).map Mount.bare = (t.zipIdx.map Prod.fst).map Mount.bare := by
    rw [shareAll, List.map_map, List.map_map]
    refine List.map_congr_left fun x _ => ?_
    show (if x.1.prop.group.isSome then x.1 else _).bare = x.1.bare
    split <;> rfl
  rw [hmap, List.zipIdx_map_fst]

/-! ## Ordered tables -/

section
variable {ι κ ν : Type} {t u : List (Mount ι κ ν)}

/-- A mount has a name that no earlier mount has, and that no earlier mount has as its parent. -/
def Ordered (t : List (Mount ι κ ν)) : Prop :=
  t.Pairwise fun m m' => m'.id ≠ m.id ∧ m'.id ≠ m.parent

theorem IsTree.parent_mem {r : Mount ι κ ν} (h : IsTree r t) :
    ∀ m ∈ t, ∃ p ∈ t, p.id = m.parent := by
  induction h with
  | root hself =>
    intro m hm
    rw [List.mem_singleton.1 hm]
    exact ⟨r, List.mem_cons_self, hself.symm⟩
  | @mount t m _ _ hparent ih =>
    intro x hx
    have hx' : ∃ p ∈ t, p.id = x.parent := by
      rcases List.mem_append.1 hx with hx | hx
      · exact ih x hx
      · rw [List.mem_singleton.1 hx]
        exact hparent
    obtain ⟨p, hp, hid⟩ := hx'
    exact ⟨p, List.mem_append_left _ hp, hid⟩

theorem IsTree.ordered {r : Mount ι κ ν} (h : IsTree r t) : Ordered t := by
  induction h with
  | root => exact List.pairwise_singleton _ _
  | @mount t m ht hnew _ ih =>
    refine List.pairwise_append.2 ⟨ih, List.pairwise_singleton _ _, fun x hx y hy => ?_⟩
    rw [List.mem_singleton.1 hy]
    obtain ⟨p, hp, hid⟩ := ht.parent_mem x hx
    exact ⟨(hnew x hx).symm, fun heq => hnew p hp (hid.trans heq.symm)⟩

/-- Another set of names does not change the order. -/
theorem Ordered.map {ι' ν' : Type} {f : ι → ι'} {g : Mount ι κ ν → Mount ι' κ ν'} (h : Ordered t)
    (hf : Function.Injective f) (hg : ∀ m, Relabels f m (g m)) : Ordered (t.map g) := by
  refine List.pairwise_map.2 (h.imp fun {m m'} hmm => ?_)
  rw [(hg m).id, (hg m').id, (hg m).parent]
  exact ⟨hf.ne hmm.1, hf.ne hmm.2⟩

end

section
variable {ι κ ν : Type} [DecidableEq ι] {t : List (Mount ι κ ν)} {m : Mount ι κ ν}

/-- With a mount, what is mounted on it is in a subtree. -/
theorem Ordered.mem_subtree (h : Ordered t) (hm : m ∈ t) {a : ι}
    (hparent : m.parent ∈ subtree t a) : m.id ∈ subtree t a := by
  by_cases hself : m.parent = m.id
  · exact hself ▸ hparent
  obtain ⟨u, v, rfl⟩ := List.append_of_mem hm
  obtain ⟨-, hv, -⟩ := List.pairwise_append.1 h
  have hv := (List.pairwise_cons.1 hv).1
  rw [subtree, List.foldl_append] at hparent ⊢
  have hu : m.parent ∈ u.foldl (grow a) [] := by
    refine (mem_grow_iff fun x hx => ?_).1 hparent
    rcases List.mem_cons.1 hx with rfl | hx
    · exact Ne.symm hself
    · exact (hv x hx).2
  have hm : m.id ∈ grow a (u.foldl (grow a) []) m := by
    rw [grow, if_pos (.inr hu)]
    exact List.mem_cons_self
  rw [List.foldl_cons]
  exact mem_grow_of_mem hm

theorem subtree_induction {P : ι → Prop} {a : ι} (hstart : P a)
    (hstep : ∀ m ∈ t, P m.parent → P m.id) : ∀ i ∈ subtree t a, P i := by
  refine List.foldlRecOn (motive := fun acc => ∀ i ∈ acc, P i) t _
    (fun i hi => absurd hi List.not_mem_nil) fun acc hacc m hm => ?_
  unfold grow
  split
  · next hmem =>
    refine List.forall_mem_cons.2 ⟨?_, hacc⟩
    rcases hmem with hid | hparent
    · exact hid ▸ hstart
    · exact hstep m hm (hacc _ hparent)
  · exact hacc

end

section
variable {ι κ ν : Type} [DecidableEq ι] [DecidableEq κ] {t u : List (Mount ι κ ν)}
  {l src : Location ι κ} {m : Mount ι κ ν}

/-- The top of a stack is not covered. -/
theorem Ordered.uncovered_follow (h : Ordered t) (l : Location ι κ) :
    Uncovered t (follow t l) := by
  induction t using List.reverseRecOn with
  | nil => exact fun _ hm => absurd hm List.not_mem_nil
  | append_singleton t m ih =>
    obtain ⟨ht, -, hm⟩ := List.pairwise_append.1 h
    rw [follow_append]
    show Uncovered (t ++ [m]) (m.enter (follow t l))
    unfold Mount.enter
    intro x hx hne hparent hpoint
    rcases List.mem_append.1 hx with hx | hx
    · split at hparent
      · exact (hm x hx m List.mem_cons_self).2 hparent.symm
      · next hout =>
        rw [if_neg hout] at hpoint
        exact ih ht x hx hne hparent hpoint
    · rw [List.mem_singleton.1 hx] at hne hparent hpoint
      split at hparent
      · exact hne hparent
      · next hout =>
        rw [if_neg hout] at hpoint
        exact hout ⟨hne, hparent, hpoint⟩

theorem Ordered.uncovered_walk (h : Ordered t) {path : List κ} (hpath : path ≠ [])
    (l : Location ι κ) : Uncovered t (walk t path l) := by
  rw [← List.dropLast_append_getLast hpath, walk_concat]
  exact h.uncovered_follow _

/-- What is reached from a mount of the table is one. -/
theorem exists_mem_walk (path : List κ)
    (hl : ∃ m ∈ t, m.id = l.1) : ∃ m ∈ t, m.id = (walk t path l).1 :=
  walk_induction (P := fun i => ∃ m ∈ t, m.id = i) path hl fun m hm _ => ⟨m, hm, rfl⟩

/-- With one more mount, a path leads where it did before, or into that mount. -/
theorem walk_snoc_cases {r : Mount ι κ ν} (ht : IsTree r t) (hnew : ∀ x ∈ t, x.id ≠ m.id)
    (hparent : ∃ p ∈ t, p.id = m.parent) (path : List κ) :
    walk (t ++ [m]) path (r.id, r.root) = walk t path (r.id, r.root) ∨
      ∃ p q, path = p ++ q ∧ walk t p (r.id, r.root) = (m.parent, m.point) ∧
        walk (t ++ [m]) path (r.id, r.root) = (m.id, m.root ++ q) := by
  have hne : m.parent ≠ m.id := by
    obtain ⟨p, hp, hid⟩ := hparent
    exact hid ▸ hnew p hp
  induction path using List.reverseRecOn with
  | nil => exact .inl rfl
  | append_singleton path name ih =>
    rw [walk_concat, follow_append]
    rcases ih with heq | ⟨p, q, rfl, hp, heq⟩
    · rw [heq, ← walk_concat]
      show m.enter _ = _ ∨ ∃ p q, _ ∧ _ ∧ m.enter _ = _
      by_cases henter : m.parent = (walk t (path ++ [name]) (r.id, r.root)).1 ∧
          m.point = (walk t (path ++ [name]) (r.id, r.root)).2
      · refine .inr ⟨path ++ [name], [], (List.append_nil _).symm,
          Prod.ext henter.1.symm henter.2.symm, ?_⟩
        rw [Mount.enter, if_pos ⟨hne, henter⟩, List.append_nil]
      · exact .inl (if_neg fun h => henter h.2)
    · -- nothing is mounted on the new mount
      have hstay : follow t (m.id, (m.root ++ q) ++ [name]) = (m.id, (m.root ++ q) ++ [name]) := by
        refine follow_of_parent fun x hx hid => ?_
        obtain ⟨y, hy, hyid⟩ := ht.parent_mem x hx
        exact hnew y hy (hyid.trans hid)
      refine .inr ⟨p, q ++ [name], List.append_assoc _ _ _, hp, ?_⟩
      rw [heq, hstay]
      show m.enter _ = _
      rw [Mount.enter_of_parent hne, List.append_assoc]

/-- **In a tree, two paths do not lead to one location.** -/
theorem IsTree.walk_injective {r : Mount ι κ ν} (h : IsTree r t) {p q : List κ}
    (heq : walk t p (r.id, r.root) = walk t q (r.id, r.root)) : p = q := by
  induction h generalizing p q with
  | root hself =>
    have hstay : ∀ path : List κ, walk [r] path (r.id, r.root) = (r.id, r.root ++ path) := by
      intro path
      induction path using List.reverseRecOn with
      | nil => rw [List.append_nil]; rfl
      | append_singleton path name ih =>
        rw [walk_concat, ih, follow_cons, Mount.enter, if_neg fun henter => henter.1 hself,
          List.append_assoc]
        rfl
    rw [hstay, hstay] at heq
    exact List.append_cancel_left (Prod.mk.inj heq).2
  | @mount t m ht hnew hparent ih =>
    have hold : ∀ path : List κ, (walk t path (r.id, r.root)).1 ≠ m.id := by
      intro path hid
      obtain ⟨rest, hrest, -⟩ := ht.eq_cons
      obtain ⟨x, hx, hxid⟩ := exists_mem_walk path
        (l := (r.id, r.root)) ⟨r, hrest ▸ List.mem_cons_self, rfl⟩
      exact hnew x hx (hxid.trans hid)
    rcases walk_snoc_cases ht hnew hparent p with hp | ⟨p₁, p₂, rfl, hp₁, hp⟩
    · rcases walk_snoc_cases ht hnew hparent q with hq | ⟨q₁, q₂, rfl, hq₁, hq⟩
      · exact ih (hp.symm.trans (heq.trans hq))
      · rw [hp, hq] at heq
        exact absurd (congrArg Prod.fst heq) (hold p)
    · rcases walk_snoc_cases ht hnew hparent q with hq | ⟨q₁, q₂, rfl, hq₁, hq⟩
      · rw [hp, hq] at heq
        exact absurd (congrArg Prod.fst heq.symm) (hold q)
      · rw [hp, hq] at heq
        obtain rfl : p₁ = q₁ := ih (hp₁.trans hq₁.symm)
        rw [List.append_cancel_left (Prod.mk.inj heq).2]

/-! ## What is below a location -/

/-- The mount is on the mount of a location, strictly below it. -/
def Mount.On (m : Mount ι κ ν) (l : Location ι κ) : Prop :=
  m.parent = l.1 ∧ m.id ≠ l.1 ∧ l.2 <+: m.point ∧ m.point ≠ l.2

instance (m : Mount ι κ ν) (l : Location ι κ) : Decidable (m.On l) :=
  inferInstanceAs (Decidable (_ ∧ _))

/-- One more mount, if it is below. -/
def addBelow (l : Location ι κ) (acc : List ι) (m : Mount ι κ ν) : List ι :=
  if m.On l ∨ m.parent ∈ acc then m.id :: acc else acc

theorem below_eq (t : List (Mount ι κ ν)) (l : Location ι κ) :
    below t l = t.foldl (addBelow l) [] := rfl

theorem mem_addBelow_iff {acc : List ι} {i : ι} :
    i ∈ addBelow l acc m ↔ i ∈ acc ∨ i = m.id ∧ (m.On l ∨ m.parent ∈ acc) := by
  unfold addBelow
  split
  · next hcond => rw [List.mem_cons, or_comm, and_iff_left hcond]
  · next hcond => rw [or_iff_left fun h => hcond h.2]

theorem mem_foldl_addBelow_of_mem {acc : List ι} {i : ι} (h : i ∈ acc) :
    i ∈ t.foldl (addBelow l) acc := by
  induction t generalizing acc with
  | nil => exact h
  | cons m t ih => exact ih (mem_addBelow_iff.2 (.inl h))

theorem mem_foldl_addBelow {acc : List ι} {i : ι} (h : i ∈ t.foldl (addBelow l) acc) :
    i ∈ acc ∨ ∃ m ∈ t, m.id = i := by
  induction t generalizing acc with
  | nil => exact .inl h
  | cons m t ih =>
    rcases ih h with hacc | ⟨x, hx, hid⟩
    · rcases mem_addBelow_iff.1 hacc with hacc | ⟨rfl, -⟩
      · exact .inl hacc
      · exact .inr ⟨m, List.mem_cons_self, rfl⟩
    · exact .inr ⟨x, List.mem_cons_of_mem _ hx, hid⟩

theorem below_append_cons (t u : List (Mount ι κ ν)) (m : Mount ι κ ν) (l : Location ι κ) :
    below (t ++ m :: u) l = u.foldl (addBelow l) (addBelow l (below t l) m) := by
  rw [below_eq, List.foldl_append]
  rfl

/-- What is below is what is mounted there, and what is mounted on that. -/
theorem Ordered.mem_below_iff (h : Ordered t) (hm : m ∈ t) (l : Location ι κ) :
    m.id ∈ below t l ↔ m.On l ∨ m.parent ∈ below t l := by
  by_cases hself : m.parent = m.id
  · have hnot : ¬ m.On l := fun hon => hon.2.1 (hself.symm.trans hon.1)
    rw [hself, or_iff_right hnot]
  obtain ⟨u, v, rfl⟩ := List.append_of_mem hm
  obtain ⟨-, hv, hu⟩ := List.pairwise_append.1 h
  have hv := (List.pairwise_cons.1 hv).1
  rw [below_append_cons]
  constructor
  · intro hmem
    have hadd : m.id ∈ addBelow l (below u l) m :=
      (mem_foldl_addBelow hmem).resolve_right fun ⟨x, hx, hid⟩ => (hv x hx).1 hid
    rcases mem_addBelow_iff.1 hadd with hacc | ⟨-, hcond⟩
    · obtain ⟨x, hx, hid⟩ := (mem_foldl_addBelow hacc).resolve_left List.not_mem_nil
      exact absurd hid.symm (hu x hx m List.mem_cons_self).1
    · exact hcond.imp_right fun hp => mem_foldl_addBelow_of_mem (mem_addBelow_iff.2 (.inl hp))
  · intro hcond
    refine mem_foldl_addBelow_of_mem (mem_addBelow_iff.2 (.inr ⟨rfl, ?_⟩))
    refine hcond.imp_right fun hmem => ?_
    have hadd : m.parent ∈ addBelow l (below u l) m :=
      (mem_foldl_addBelow hmem).resolve_right fun ⟨x, hx, hid⟩ => (hv x hx).2 hid
    exact (mem_addBelow_iff.1 hadd).resolve_right fun heq => hself heq.1

theorem below_eq_nil (h : ∀ m ∈ t, ¬ m.On l) : below t l = [] := by
  rw [below_eq]
  induction t with
  | nil => rfl
  | cons m t ih =>
    obtain ⟨hm, ht⟩ := List.forall_mem_cons.1 h
    have hstay : addBelow l [] m = [] := if_neg fun hor => hor.elim hm List.not_mem_nil
    rw [List.foldl_cons, hstay, ih ht]

/-- A mount is not below itself. -/
theorem Ordered.notMem_below (h : Ordered t) (hsrc : ∃ m ∈ t, m.id = src.1) :
    src.1 ∉ below t src := by
  obtain ⟨m, hm, hid⟩ := hsrc
  obtain ⟨u, v, rfl⟩ := List.append_of_mem hm
  obtain ⟨-, hv, hu⟩ := List.pairwise_append.1 h
  have hv := (List.pairwise_cons.1 hv).1
  -- what comes before it in the table is not mounted on it
  have hnone : below u src = [] :=
    below_eq_nil fun x hx hon => (hu x hx m List.mem_cons_self).2 (hid.trans hon.1.symm)
  intro hmem
  rw [below_append_cons, hnone] at hmem
  rcases mem_foldl_addBelow hmem with hadd | ⟨x, hx, hxid⟩
  · rcases mem_addBelow_iff.1 hadd with hnil | ⟨-, hon | hnil⟩
    · exact List.not_mem_nil hnil
    · exact hon.2.1 hid
    · exact List.not_mem_nil hnil
  · exact (hv x hx).1 (hxid.trans hid.symm)

/-! ## Recursive binds -/

/-- The location is strictly below another one. -/
def Under (t : List (Mount ι κ ν)) (src l : Location ι κ) : Prop :=
  l.1 = src.1 ∧ src.2 <+: l.2 ∧ l.2 ≠ src.2 ∨ l.1 ∈ below t src

/-- Only mounts below the source cover what is below it. -/
theorem Under.enter (ht : Ordered t) (hm : m ∈ t) (h : Under t src l) :
    Under t src (m.enter l) ∧ (m.id ∉ below t src → m.enter l = l) := by
  unfold Mount.enter
  split
  · next henter =>
    obtain ⟨hne, hparent, hpoint⟩ := henter
    have hbelow : m.id ∈ below t src := by
      refine (ht.mem_below_iff hm src).2 ?_
      rcases h with ⟨hl, hpre, hstrict⟩ | hmem
      · refine .inl ⟨hparent.trans hl, ?_, hpoint ▸ hpre, hpoint ▸ hstrict⟩
        rw [← hl, ← hparent]
        exact hne.symm
      · exact .inr (hparent ▸ hmem)
    exact ⟨.inr hbelow, fun hnot => absurd hbelow hnot⟩
  · exact ⟨h, fun _ => rfl⟩

theorem Under.follow (ht : Ordered t) (h : Under t src l) :
    Under t src (follow t l) ∧
      MountTable.follow t l = MountTable.follow (t.filter fun m => m.id ∈ below t src) l := by
  suffices hall : ∀ u : List (Mount ι κ ν), (∀ m ∈ u, m ∈ t) → ∀ l, Under t src l →
      Under t src (MountTable.follow u l) ∧
        MountTable.follow u l = MountTable.follow (u.filter fun m => m.id ∈ below t src) l from
    hall t (fun _ hm => hm) l h
  intro u hu
  induction u with
  | nil => exact fun l hl => ⟨hl, rfl⟩
  | cons m u ih =>
    intro l hl
    obtain ⟨hm, hu⟩ := List.forall_mem_cons.1 hu
    obtain ⟨hunder, hstay⟩ := hl.enter ht hm
    obtain ⟨hend, heq⟩ := ih hu _ hunder
    refine ⟨hend, ?_⟩
    rw [follow_cons, heq]
    by_cases hbelow : m.id ∈ below t src
    · rw [List.filter_cons, if_pos (decide_eq_true hbelow), follow_cons]
    · rw [List.filter_cons, if_neg (by simpa using hbelow), hstay hbelow]

theorem Under.step {name : κ} (h : l = src ∨ Under t src l) :
    Under t src (l.1, l.2 ++ [name]) := by
  rcases h with rfl | ⟨hl, hpre, -⟩ | hmem
  · exact .inl ⟨rfl, List.prefix_append _ _, by simp⟩
  · refine .inl ⟨hl, hpre.trans (List.prefix_append _ _), fun heq => ?_⟩
    have hlen := hpre.length_le
    rw [← heq, List.length_append, List.length_singleton] at hlen
    omega
  · exact .inr hmem

end

section
variable {ι κ ν : Type} [DecidableEq ι] {t : List (Mount ι κ ν)} {clone : ι → ι}
  {src dest : Location ι κ}

/-- What an `attach` adds to a table: the tree, and mounts on mounts of the table or on
    replicas. -/
theorem attach_eq (replica : ι → ι → ι) (t : List (Mount ι κ ν)) (dest : ι)
    (tree : List (Mount ι κ ν)) : ∃ tree' rest, attach replica t dest tree = t ++ (tree' ++ rest) ∧
      tree'.map Mount.bare = tree.map Mount.bare ∧
      ∀ m ∈ rest, (∃ q ∈ t, m.parent = q.id) ∨ ∃ q i, m.parent = replica q i := by
  unfold attach
  split
  · refine ⟨_, _, List.append_assoc _ _ _, shareAll_bare _ tree, fun m hm => ?_⟩
    obtain ⟨q, hq, hm⟩ := List.mem_flatMap.1 hm
    obtain ⟨x, -, rfl⟩ := List.mem_map.1 hm
    dsimp only
    split
    · exact .inl ⟨q, (List.mem_filter.1 hq).1, rfl⟩
    · exact .inr ⟨q.id, x.parent, rfl⟩
  · refine ⟨tree, [], by rw [List.append_nil], rfl, fun m hm => absurd hm List.not_mem_nil⟩

/-- The copy of the mount that is bound. -/
def cloneTop (clone : ι → ι) (t : List (Mount ι κ ν)) (src dest : Location ι κ) :
    List (Mount ι κ ν) :=
  (t.filter fun m => m.id = src.1).map fun m =>
    { m with id := clone m.id, parent := dest.1, root := src.2, point := dest.2 }

theorem mem_cloneTop {c : Mount ι κ ν} (h : c ∈ cloneTop clone t src dest) :
    c.id = clone src.1 ∧ c.parent = dest.1 ∧ c.root = src.2 ∧ c.point = dest.2 := by
  obtain ⟨m, hm, rfl⟩ := List.mem_map.1 h
  have hid : m.id = src.1 := of_decide_eq_true (List.mem_filter.1 hm).2
  exact ⟨congrArg clone hid, rfl, rfl, rfl⟩

theorem exists_mem_cloneTop (clone : ι → ι) (dest : Location ι κ) (h : ∃ m ∈ t, m.id = src.1) :
    ∃ c, c ∈ cloneTop clone t src dest := by
  obtain ⟨m, hm, hid⟩ := h
  exact ⟨_, List.mem_map_of_mem (List.mem_filter.2 ⟨hm, decide_eq_true hid⟩)⟩

end

section
variable {ι κ ν : Type} [DecidableEq ι] [DecidableEq κ] {t : List (Mount ι κ ν)}
  {clone : ι → ι} {src dest : Location ι κ}

/-- The copies of the mounts below it. -/
def cloneRest (clone : ι → ι) (t : List (Mount ι κ ν)) (src : Location ι κ) :
    List (Mount ι κ ν) :=
  (t.filter fun m => m.id ∈ below t src).map fun m =>
    { m with id := clone m.id, parent := clone m.parent }

theorem cloneTree_eq (clone : ι → ι) (t : List (Mount ι κ ν)) (src dest : Location ι κ) :
    cloneTree clone t src dest = cloneTop clone t src dest ++ cloneRest clone t src := rfl

theorem mem_cloneRest {c : Mount ι κ ν} (h : c ∈ cloneRest clone t src) :
    ∃ m ∈ t, m.id ∈ below t src ∧ c = { m with id := clone m.id, parent := clone m.parent } := by
  obtain ⟨m, hm, rfl⟩ := List.mem_map.1 h
  obtain ⟨hmem, hbelow⟩ := List.mem_filter.1 hm
  exact ⟨m, hmem, of_decide_eq_true hbelow, rfl⟩

/-- The names of the copies. -/
theorem cloneTree_id {c : Mount ι κ ν} (h : c ∈ cloneTree clone t src dest) :
    ∃ i, c.id = clone i := by
  rcases List.mem_append.1 h with h | h
  · exact ⟨_, (mem_cloneTop h).1⟩
  · obtain ⟨m, -, -, rfl⟩ := mem_cloneRest h
    exact ⟨m.id, rfl⟩

/-- They are mounted on `dest`, or on one another. -/
theorem cloneTree_parent {c : Mount ι κ ν} (h : c ∈ cloneTree clone t src dest) :
    (c.parent = dest.1 ∧ c.point = dest.2) ∨ ∃ i, c.parent = clone i := by
  rcases List.mem_append.1 h with h | h
  · exact .inl ⟨(mem_cloneTop h).2.1, (mem_cloneTop h).2.2.2⟩
  · obtain ⟨m, -, -, rfl⟩ := mem_cloneRest h
    exact .inr ⟨m.parent, rfl⟩

/-- On a copy, one follows the copies of the mounts. -/
theorem follow_cloneTree (hclone : Function.Injective clone) (ht : Ordered t)
    (hdest : ∀ i, dest.1 ≠ clone i) {l : Location ι κ} (hl : Under t src l) :
    follow (cloneTree clone t src dest) (clone l.1, l.2) =
      (clone (follow t l).1, (follow t l).2) := by
  have htop : follow (cloneTop clone t src dest) (clone l.1, l.2) = (clone l.1, l.2) :=
    follow_of_parent fun c hc => (mem_cloneTop hc).2.1 ▸ hdest l.1
  rw [cloneTree_eq, follow_append, htop, (hl.follow ht).2]
  exact follow_map (g := fun m => { m with id := clone m.id, parent := clone m.parent }) hclone
    (fun _ _ => ⟨rfl, rfl, rfl, rfl⟩) l

/-- **A path in a recursive bind leads to the copy of what it leads to at the source.** -/
theorem walk_cloneTree (hclone : Function.Injective clone) (ht : Ordered t)
    (hdest : ∀ i, dest.1 ≠ clone i) (path : List κ) :
    walk (cloneTree clone t src dest) path (clone src.1, src.2) =
      (clone (walk t path src).1, (walk t path src).2) := by
  suffices hall : walk (cloneTree clone t src dest) path (clone src.1, src.2) =
      (clone (walk t path src).1, (walk t path src).2) ∧
      (walk t path src = src ∨ Under t src (walk t path src)) from hall.1
  induction path using List.reverseRecOn with
  | nil => exact ⟨rfl, .inl rfl⟩
  | append_singleton path name ih =>
    obtain ⟨heq, hunder⟩ := ih
    have hstep : Under t src ((walk t path src).1, (walk t path src).2 ++ [name]) := .step hunder
    rw [walk_concat, walk_concat, heq]
    exact ⟨follow_cloneTree hclone ht hdest hstep, .inr (hstep.follow ht).1⟩

/-- At the place of the bind is the copy of the mount that is bound. -/
theorem follow_cloneTree_dest (hclone : Function.Injective clone) (hsrc : ∃ m ∈ t, m.id = src.1)
    (huncovered : Uncovered t src) (hdest : ∀ i, dest.1 ≠ clone i) :
    follow (cloneTree clone t src dest) dest = (clone src.1, src.2) := by
  have htop : ∀ u : List (Mount ι κ ν), (∃ c, c ∈ u) → (∀ c ∈ u, c ∈ cloneTop clone t src dest) →
      follow u dest = (clone src.1, src.2) := by
    intro u hne hu
    cases u with
    | nil => obtain ⟨c, hc⟩ := hne; exact absurd hc List.not_mem_nil
    | cons c u =>
      obtain ⟨hc, hu⟩ := List.forall_mem_cons.1 hu
      obtain ⟨hid, hparent, hroot, hpoint⟩ := mem_cloneTop hc
      have henter : c.enter dest = (clone src.1, src.2) := by
        have hne : c.parent ≠ c.id := by
          rw [hparent, hid]
          exact hdest src.1
        rw [Mount.enter, if_pos ⟨hne, hparent, hpoint⟩, hid, hroot]
      rw [follow_cons, henter]
      exact follow_of_parent fun x hx => (mem_cloneTop (hu x hx)).2.1 ▸ hdest src.1
  rw [cloneTree_eq, follow_append, htop _ (exists_mem_cloneTop clone dest hsrc) fun _ hc => hc]
  refine follow_of_uncovered fun c hc hne hparent hpoint => ?_
  obtain ⟨m, hm, -, rfl⟩ := mem_cloneRest hc
  exact huncovered m hm (fun heq => hne (congrArg clone heq)) (hclone hparent) hpoint

/-- A bind keeps a table ordered. -/
theorem Ordered.append_cloneTree (ht : Ordered t) (hclone : Function.Injective clone)
    (hfresh : ∀ m ∈ t, ∀ i, m.id ≠ clone i ∧ m.parent ≠ clone i)
    (hdest : ∀ i, dest.1 ≠ clone i) (hsrc : ∃ m ∈ t, m.id = src.1) :
    Ordered (t ++ cloneTree clone t src dest) := by
  have htop : Ordered (cloneTop clone t src dest) := by
    refine List.pairwise_map.2 (List.Pairwise.imp_of_mem ?_ (ht.filter _))
    intro x y hx hy hxy
    -- there is only one mount of the name
    have hx := of_decide_eq_true (List.mem_filter.1 hx).2
    have hy := of_decide_eq_true (List.mem_filter.1 hy).2
    exact absurd (hy.trans hx.symm) hxy.1
  have hrest : Ordered (cloneRest clone t src) := by
    refine List.pairwise_map.2 ((ht.filter _).imp ?_)
    intro x y hxy
    exact ⟨hclone.ne hxy.1, hclone.ne hxy.2⟩
  refine List.pairwise_append.2 ⟨ht, List.pairwise_append.2 ⟨htop, hrest, ?_⟩, ?_⟩
  · intro x hx y hy
    obtain ⟨hid, hparent, -⟩ := mem_cloneTop hx
    obtain ⟨m, -, hbelow, rfl⟩ := mem_cloneRest hy
    rw [hid, hparent]
    refine ⟨hclone.ne fun heq => ?_, (hdest m.id).symm⟩
    exact ht.notMem_below hsrc (heq ▸ hbelow)
  · intro x hx y hy
    obtain ⟨i, hid⟩ := cloneTree_id hy
    rw [hid]
    exact ⟨(hfresh x hx i).1.symm, (hfresh x hx i).2.symm⟩

/-- Below the copy of the mount that is bound are all the copies. -/
theorem mem_subtree_cloneTree {u : List (Mount ι κ ν)} (ht : Ordered t)
    (hu : Ordered u) (hsub : ∀ c ∈ cloneTree clone t src dest, c ∈ u)
    (hsrc : ∃ m ∈ t, m.id = src.1) :
    ∀ c ∈ cloneTree clone t src dest, c.id ∈ subtree u (clone src.1) := by
  have htop : clone src.1 ∈ subtree u (clone src.1) := by
    obtain ⟨c, hc⟩ := exists_mem_cloneTop clone dest hsrc
    have hself := self_mem_subtree (hsub c (List.mem_append_left _ hc))
    rwa [(mem_cloneTop hc).1] at hself
  -- from a mount to what is mounted on it
  have hrest : ∀ i ∈ below t src, i ∈ below t src → clone i ∈ subtree u (clone src.1) := by
    refine below_induction (P := fun i => i ∈ below t src → clone i ∈ subtree u (clone src.1))
      (fun _ => htop) fun m hm hparent hbelow => ?_
    have hc : { m with id := clone m.id, parent := clone m.parent } ∈ cloneRest clone t src :=
      List.mem_map_of_mem (List.mem_filter.2 ⟨hm, decide_eq_true hbelow⟩)
    refine hu.mem_subtree (hsub _ (List.mem_append_right _ hc)) ?_
    rcases (ht.mem_below_iff hm src).1 hbelow with hon | hmem
    · exact hon.1 ▸ htop
    · exact hparent hmem
  intro c hc
  rcases List.mem_append.1 hc with hc | hc
  · rw [(mem_cloneTop hc).1]
    exact htop
  · obtain ⟨m, -, hbelow, rfl⟩ := mem_cloneRest hc
    exact hrest m.id hbelow hbelow

/-- The same as in `walk_cloneTree`, when the copies are in the table. -/
theorem walk_attach_cloneTree {replica : ι → ι → ι} (hclone : Function.Injective clone)
    (ht : Ordered t) (hfresh : ∀ m ∈ t, ∀ i, m.id ≠ clone i ∧ m.parent ≠ clone i)
    (hreplica : ∀ q i j, replica q i ≠ clone j) (hdest : ∀ i, dest.1 ≠ clone i) (path : List κ) :
    walk (attach replica t dest.1 (cloneTree clone t src dest)) path (clone src.1, src.2) =
      (clone (walk t path src).1, (walk t path src).2) := by
  obtain ⟨tree, rest, heq, hbare, hrest⟩ :=
    attach_eq replica t dest.1 (cloneTree clone t src dest)
  have htree : ∀ p, walk tree p (clone src.1, src.2) = (clone (walk t p src).1, (walk t p src).2) :=
    fun p => (walk_congr hbare p _).trans (walk_cloneTree hclone ht hdest p)
  have hright : ∀ p, walk (tree ++ rest) p (clone src.1, src.2) =
      walk tree p (clone src.1, src.2) := by
    refine fun p => walk_append_right p fun q name _ m hm _ hparent => ?_
    rw [htree] at hparent
    rcases hrest m hm with ⟨x, hx, hid⟩ | ⟨x, i, hid⟩
    · exact absurd (hid.symm.trans hparent) (hfresh x hx _).1
    · exact absurd (hid.symm.trans hparent) (hreplica x i _)
  rw [heq, walk_append_left, hright, htree]
  intro q name _ m hm _ hparent
  rw [hright, htree] at hparent
  exact absurd hparent (hfresh m hm _).2

end

/-! ## Binds on one mount -/

section
variable {ι κ ν : Type} [DecidableEq ι] [DecidableEq κ] {t u base : List (Mount ι κ ν)}
  {start : ι} {point : List κ} {clone : ι → ι} {src : Location ι κ}

/-- From the root of `start`, the way to `point` is on `start`, and below it are the copies of
    some locations. -/
structure Shows (t : List (Mount ι κ ν)) (start : ι) (point : List κ) (clone : ι → ι)
    (g : List κ → Location ι κ) : Prop where
  before : ∀ q, q <+: point → q ≠ point → walk t q (start, []) = (start, q)
  below : ∀ path, walk t (point ++ path) (start, []) = (clone (g path).1, (g path).2)

/-- On the way to a path on which nothing is mounted. -/
theorem walk_untouched (h : ∀ m ∈ t, m.parent = start → ¬ m.point <+: point) {q : List κ}
    (hq : q <+: point) : walk t q (start, []) = (start, q) := by
  induction q using List.reverseRecOn with
  | nil => rfl
  | append_singleton q name ih =>
    rw [walk_concat, ih ((List.prefix_append q [name]).trans hq)]
    refine follow_of_uncovered fun m hm _ hparent hpoint => h m hm hparent ?_
    exact hpoint ▸ hq

theorem follow_eq_or_mem (t : List (Mount ι κ ν)) (l : Location ι κ) :
    follow t l = l ∨ ∃ m ∈ t, m.id = (follow t l).1 := by
  induction t using List.reverseRecOn with
  | nil => exact .inl rfl
  | append_singleton t m ih =>
    rw [follow_append, follow_cons, Mount.enter]
    split
    · exact .inr ⟨m, List.mem_append_right _ List.mem_cons_self, rfl⟩
    · rcases ih with hstay | ⟨x, hx, hid⟩
      · exact .inl hstay
      · exact .inr ⟨x, List.mem_append_left _ hx, hid⟩

/-- A path that ends on `start` has not left it. -/
theorem walk_of_start (h : ∀ m ∈ t, m.id ≠ start) {q d : List κ}
    (hq : (walk t q (start, d)).1 = start) : walk t q (start, d) = (start, d ++ q) := by
  induction q generalizing d with
  | nil => rw [List.append_nil, walk]
  | cons name q ih =>
    rw [walk] at hq ⊢
    rcases follow_eq_or_mem t (start, d ++ [name]) with hstay | ⟨m, hm, hid⟩
    · rw [hstay] at hq ⊢
      rw [ih hq, List.append_assoc, List.singleton_append]
    · exact absurd hq (walk_induction (P := fun i => i ≠ start) q (hid ▸ h m hm)
        fun x hx _ => h x hx)

/-- Other mounts do not get in the way. -/
theorem Shows.append {g : List κ → Location ι κ} (h : Shows t start point clone g)
    (hclone : ∀ m ∈ u, ∀ i, m.parent ≠ clone i)
    (hstart : ∀ m ∈ u, m.parent = start → ¬ m.point <+: point) :
    Shows (t ++ u) start point clone g := by
  have hbefore : ∀ q, q <+: point → q ≠ point → Uncovered u (walk t q (start, [])) := by
    intro q hq hne m hm _ hparent hpoint
    rw [h.before q hq hne] at hparent hpoint
    exact hstart m hm hparent (hpoint ▸ hq)
  have hbelow : ∀ path, Uncovered u (walk t (point ++ path) (start, [])) := by
    intro path m hm _ hparent
    rw [h.below path] at hparent
    exact absurd hparent (hclone m hm _)
  constructor
  · intro q hq hne
    rw [← h.before q hq hne]
    refine walk_append_right q fun q' name hq' => hbefore _ (hq'.trans hq) fun heq => hne ?_
    exact hq.eq_of_length_le (heq ▸ hq'.length_le)
  · intro path
    rw [← h.below path]
    refine walk_append_right _ fun q name hq => ?_
    rcases List.prefix_or_prefix_of_prefix hq (List.prefix_append point path) with hpre | ⟨p, hp⟩
    · by_cases heq : q ++ [name] = point
      · rw [heq, ← List.append_nil point]
        exact hbelow []
      · exact hbefore _ hpre heq
    · rw [← hp]
      exact hbelow p

/-- Another propagation does not either. -/
theorem Shows.congr {g : List κ → Location ι κ} (h : Shows t start point clone g)
    (hbare : u.map Mount.bare = t.map Mount.bare) : Shows u start point clone g where
  before q hq hne := (walk_congr hbare q _).trans (h.before q hq hne)
  below path := (walk_congr hbare _ _).trans (h.below path)

/-- A recursive bind on a mount with other binds. -/
theorem shows_cloneTree (hclone : Function.Injective clone) (hbase : Ordered base)
    (hsrc : ∃ m ∈ base, m.id = src.1) (huncovered : Uncovered base src)
    (hstart : ∀ i, start ≠ clone i) (hpoint : point ≠ [])
    (hfresh : ∀ m ∈ t, ∀ i, m.parent ≠ clone i)
    (huntouched : ∀ m ∈ t, m.parent = start → ¬ m.point <+: point) :
    Shows (t ++ cloneTree clone base src (start, point)) start point clone
      fun path => walk base path src := by
  have hbefore : ∀ q, q <+: point → q ≠ point →
      walk (t ++ cloneTree clone base src (start, point)) q (start, []) = (start, q) := by
    intro q hq hne
    rw [walk_append_right, walk_untouched huntouched hq]
    intro q' name hq' m hm _ hparent hm'
    rw [walk_untouched huntouched (hq'.trans hq)] at hparent hm'
    rcases cloneTree_parent hm with ⟨-, hmpoint⟩ | ⟨i, hi⟩
    · have heq : q' ++ [name] = point := hm'.symm.trans hmpoint
      exact hne (hq.eq_of_length_le (heq ▸ hq'.length_le))
    · exact hstart i (hparent.symm.trans hi)
  refine ⟨hbefore, fun path => ?_⟩
  -- the last step to the point enters the copy
  have hlast : walk (t ++ cloneTree clone base src (start, point)) point (start, []) =
      (clone src.1, src.2) := by
    have hsplit := List.dropLast_append_getLast hpoint
    have hne : point.dropLast ≠ point := by
      intro heq
      have hlen := congrArg List.length heq
      have hpos := List.length_pos_of_ne_nil hpoint
      rw [List.length_dropLast] at hlen
      omega
    have hcovered : follow t (start, point) = (start, point) :=
      follow_of_uncovered fun m hm _ hparent heq => huntouched m hm hparent (heq ▸ List.prefix_rfl)
    have hstep := walk_concat (t ++ cloneTree clone base src (start, point)) point.dropLast
      (point.getLast hpoint) (start, [])
    rw [hbefore _ (List.dropLast_prefix point) hne, hsplit, follow_append, hcovered,
      follow_cloneTree_dest hclone hsrc huncovered hstart] at hstep
    exact hstep
  rw [walk_append, hlast, walk_append_left, walk_cloneTree hclone hbase hstart]
  intro q name _ m hm _ hparent
  rw [walk_cloneTree hclone hbase hstart] at hparent
  exact absurd hparent (hfresh m hm _)

end

/-! ## Mounts that are not detached -/

/-- Mounts that are not below the others, and not shared, stay when one of the others is
    detached. -/
theorem exists_detach_append {ι κ ν : Type} [DecidableEq ι] [DecidableEq κ]
    {t u : List (Mount ι κ ν)} {P : ι → Prop} (ht : ∀ m ∈ t, ¬ P m.id)
    (hu : ∀ m ∈ u, P m.id ∧ P m.parent ∧ m.prop.group = none) {a : ι} (ha : ¬ P a) :
    ∃ rest, detach (t ++ u) a = rest ++ u ∧ ∀ m ∈ rest, m ∈ t := by
  have hpass : ∀ m ∈ t ++ u, ¬ P m.parent → ¬ P m.id := by
    intro m hm hparent
    rcases List.mem_append.1 hm with hm | hm
    · exact ht m hm
    · exact absurd (hu m hm).2.1 hparent
  have hkeep : u.filter (fun x => x.id ∉ subtree (t ++ u) a ∧
      ¬ ∃ y ∈ t ++ u, Hit (t ++ u) (subtree (t ++ u) a) y ∧ x.id ∈ subtree (t ++ u) y.id) = u := by
    refine List.filter_eq_self.2 fun x hx => decide_eq_true ⟨fun hmem => ?_, ?_⟩
    · exact subtree_induction (P := fun i => ¬ P i) ha hpass _ hmem (hu x hx).1
    · rintro ⟨y, hy, ⟨d, -, -, -, p, -, -, q, hq, hyq, -, hsome, hgroup⟩, hmem⟩
      -- the peer is one of the others
      have hqid : ¬ P q.id := by
        rcases List.mem_append.1 hq with hq | hq
        · exact ht q hq
        · rw [hgroup, (hu q hq).2.2] at hsome
          cases hsome
      exact subtree_induction (P := fun i => ¬ P i) (hpass y hy (hyq ▸ hqid)) hpass _ hmem
        (hu x hx).1
  have happend := List.filter_append (p := fun x => x.id ∉ subtree (t ++ u) a ∧
    ¬ ∃ y ∈ t ++ u, Hit (t ++ u) (subtree (t ++ u) a) y ∧ x.id ∈ subtree (t ++ u) y.id) t u
  rw [hkeep] at happend
  exact ⟨_, happend, fun m hm => (List.mem_filter.1 hm).1⟩

end MountTable
