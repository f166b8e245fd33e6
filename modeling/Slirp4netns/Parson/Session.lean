/-
  slirp4netns formalization — sessions with a JSON object (`json_object_set_*`,
  `json_object_get_value`, `json_object_remove` and `json_object_clear` in
  `parson.c`).

  A session is a list of calls, as a program makes them that builds an answer.  The
  names and the texts are C strings, given by their bytes; besides texts, finite
  numbers, booleans and `null` are stored.  There are three levels: the table in
  memory, the list of the members, and the dictionary that is meant.
  `session_follows_dict`: whatever allocations fail, a session behaves as on a
  dictionary, apart from a call that stores a value and in which an allocation fails:
  it reports a failure and does nothing.  When the object is freed, the memory is as it
  was.
-/
import Slirp4netns.Parson.Build

namespace Slirp4netns.Parson

open HeapProg

/-! ## Sessions -/

/-- What a program stores in an object.  `json_value_init_number` refuses other numbers. -/
inductive Scalar where
  | string (s : Bytes)
  | number (d : Double)
  | boolean (b : Bool)
  | null

/-- A call that a program makes on an object. -/
inductive ObjectCall where
  | set (name : Bytes) (x : Scalar)
  | get (name : Bytes)
  | remove (name : Bytes)
  | clear

/-- What a call returns. -/
inductive Reply where
  | status (ok : Bool)
  | value (v : Option JsonValue)
  deriving DecidableEq

/-- What is seen of a call. -/
structure Report where
  reply : Reply
  /-- an allocation failed in the call -/
  starved : Bool
  /-- the number of cells after the call -/
  cells : ℕ

namespace Scalar

/-- `json_object_set_string`, `json_object_set_number` and so on -/
def set (t : ObjectTable HeapValue) (name : Bytes) :
    Scalar → HeapProg (ObjectTable HeapValue × Bool)
  | string s => jsonObjectSetString t name s
  | number d => jsonObjectSetNumber t name d
  | boolean b => jsonObjectSetBoolean t name b
  | null => jsonObjectSetNull t name

/-- The value that is meant; a text that is not UTF-8 is refused. -/
def value : Scalar → Option JsonValue
  | string s => Slirp4netns.jsonValueInitString s
  | number d => some (.number d)
  | boolean b => some (.boolean b)
  | null => some .null

end Scalar

namespace ObjectCall

/-- The code of a call. -/
def exec (t : ObjectTable HeapValue) : ObjectCall → HeapProg (ObjectTable HeapValue × Reply)
  | set name x => do
    let (t, ok) ← x.set t name
    return (t, .status ok)
  | get name => do
    let v ← jsonObjectGetnValue t name
    return (t, .value (v.map HeapValue.abs))
  | remove name => do
    let (t, ok) ← jsonObjectRemoveInternal t name true
    return (t, .status ok)
  | clear => do
    let t ← jsonObjectClear t
    return (t, .status true)

/-- What a call does to the list of the members. -/
def onMembers (object : JsonObject) : ObjectCall → JsonObject × Reply
  | set name x =>
    (Slirp4netns.jsonObjectSetValue object name x.value, .status x.value.isSome)
  | get name => (object, .value (object.lookup name))
  | remove name => (ObjectTable.removeMember object name, .status (object.lookup name).isSome)
  | clear => ([], .status true)

/-- What a call does to a dictionary. -/
def onDict (d : Bytes → Option JsonValue) : ObjectCall → (Bytes → Option JsonValue) × Reply
  | set name x =>
    match x.value with
    | none => (d, .status false)
    | some v => (Function.update d name (some v), .status true)
  | get name => (d, .value (d name))
  | remove name => (Function.update d name none, .status (d name).isSome)
  | clear => (fun _ => none, .status true)

end ObjectCall

/-- `calls` on an object, from the first to the last. -/
def execAll :
    List ObjectCall → ObjectTable HeapValue → HeapProg (ObjectTable HeapValue × List Report)
  | [], t => return (t, [])
  | c :: calls, t => do
    let ((t, reply), starved) ← watch (c.exec t)
    let (t', reports) ← execAll calls t
    return (t', ⟨reply, starved, t.cells.length⟩ :: reports)

/-- An object is made, used and freed.  `none` if there is no memory for it. -/
def session (calls : List ObjectCall) : HeapProg (Option (List Report)) := do
  match ← jsonValueInitObject with
  | some (.mk block parent (.object object t)) => do
    let (t, reports) ← execAll calls t
    jsonValueFree (.mk block parent (.object object t))
    return some reports
  -- `json_value_get_object` of something else
  | some _ => Prog.stop .nullPointer
  | none => return none

/-- The calls on a machine, of which some that store a value may be without effect: those in which
    an allocation fails. -/
inductive Follows {S : Type} (step : S → ObjectCall → S × Reply) :
    S → List ObjectCall → S → List Report → Prop
  | nil {d : S} : Follows step d [] d []
  | done {d d' : S} {c : ObjectCall} {calls : List ObjectCall} {reports : List Report} {cells : ℕ}
      (h : Follows step (step d c).1 calls d' reports) :
      Follows step d (c :: calls) d' (⟨(step d c).2, false, cells⟩ :: reports)
  | starved {d d' : S} {name : Bytes} {x : Scalar} {calls : List ObjectCall} {reports : List Report}
      {cells : ℕ} (hx : x.value.isSome) (h : Follows step d calls d' reports) :
      Follows step d (.set name x :: calls) d' (⟨.status false, true, cells⟩ :: reports)

/-! ### One call -/

/-- What a call may do: as on the list of the members, or nothing for want of memory. -/
inductive Called (t : ObjectTable HeapValue) :
    ObjectCall → ObjectTable HeapValue × Reply → Multiset ℕ → Bool → Prop
  | done {c : ObjectCall} {t' : ObjectTable HeapValue} (whole : t'.Whole)
      (wrappingValue : t'.wrappingValue = t.wrappingValue)
      (members : t'.members = (c.onMembers t.members).1) (cells : t.CellsWithin t') :
      Called t c (t', (c.onMembers t.members).2) t'.blocks false
  | starved {name : Bytes} {x : Scalar} {t' : ObjectTable HeapValue} (hx : x.value.isSome)
      (whole : t'.Whole) (wrappingValue : t'.wrappingValue = t.wrappingValue)
      (members : t'.members = t.members) (cells : t.CellsWithin t') :
      Called t (.set name x) (t', .status false) t'.blocks true

section
variable {t : ObjectTable HeapValue} {name : Bytes} {v : JsonValue}

/-- What a call that stores a value may do. -/
inductive SetDone (t : ObjectTable HeapValue) (name : Bytes) (v : JsonValue) :
    ObjectTable HeapValue × Bool → Multiset ℕ → Bool → Prop
  | done {t' : ObjectTable HeapValue} (whole : t'.Whole)
      (wrappingValue : t'.wrappingValue = t.wrappingValue)
      (members : t'.members = Slirp4netns.jsonObjectSetValue t.members name (some v))
      (cells : t.CellsWithin t') : SetDone t name v (t', true) t'.blocks false
  | refused {t' : ObjectTable HeapValue} (whole : t'.Whole)
      (wrappingValue : t'.wrappingValue = t.wrappingValue) (members : t'.members = t.members)
      (cells : t.CellsWithin t') : SetDone t name v (t', false) t'.blocks true

theorem members_extended {nameBlock : ℕ} {w : HeapValue} {t' : ObjectTable HeapValue}
    (h : t.Extended name nameBlock w t') (habsent : ∀ s ∈ t.slots, s.name ≠ name) :
    t'.members = Slirp4netns.jsonObjectSetValue t.members name (some w.abs) := by
  rw [Slirp4netns.jsonObjectSetValue, ObjectTable.lookup_members_eq_none habsent, if_neg (by simp),
    h.members_eq]

theorem setWith_owned (h : t.Whole) {init : HeapProg (Option HeapValue)} (hinit : Makes v init)
    (name : Bytes) :
    Owned t.blocks (setWith init t name) (SetDone t name v) := by
  refine Owned.bind ((hinit.frame t.blocks).of_eq (zero_add _).symm) fun r own bad hr => ?_
  obtain ⟨_, rfl, ⟨rfl, rfl, rfl⟩ | ⟨w, rfl, rfl, rfl, hw, hparent, rfl⟩⟩ := hr
  · refine .free_none_bind (.pure ?_)
    rw [zero_add]
    exact .refused h rfl rfl (.of_eq rfl)
  · refine (ObjectTable.jsonObjectSetValue_owned h.wf h.allocated).bind fun r own bad hr => ?_
    cases hr with
    | refused hp => simp [hparent] at hp
    | failed wf entries wrap hcells =>
      have hwhole := h.of_entries wf entries
      refine (jsonValueFree_frees w hw.allocated |>.mono (Multiset.zero_le _)).then_owned fun _ =>
        .pure (.refused hwhole wrap ?_ hcells)
      rw [ObjectTable.members_eq, entries, ← ObjectTable.members_eq]
    | replaced hs hname wf =>
      refine .pure (.done (h.replace hw wf) rfl ?_ (.of_eq rfl))
      rw [ObjectTable.members_replace h.wf hs, hname]
    | added he habsent =>
      exact .pure (.done (h.extended hw he) he.wrappingValue (members_extended he habsent) he.cells)

/-- A text that is not UTF-8 is refused before anything is allocated. -/
theorem setString_invalid {chars : Bytes} (hs : isValidUtf8 (chars ++ [0]) chars.length = false) :
    Reads 0 (jsonObjectSetString t name chars) (t, false) := by
  rw [jsonObjectSetString, setWith, jsonValueInitString, jsonValueInitStringWithLen, if_pos hs]
  exact .bind .pure (.bind .pure .pure)

theorem Scalar.set_owned (h : t.Whole) (name : Bytes) (x : Scalar) :
    (∃ v, x.value = some v ∧ Owned t.blocks (x.set t name) (SetDone t name v)) ∨
      (x.value = none ∧ Reads 0 (x.set t name) (t, false)) := by
  cases x with
  | string s =>
    by_cases hs : isValidUtf8 (s ++ [0]) s.length = true
    · refine .inl ⟨.string s, ?_, setWith_owned h (jsonValueInitString_makes hs) _⟩
      rw [value, jsonValueInitString_eq, if_pos hs]
    · refine .inr ⟨?_, setString_invalid (Bool.eq_false_iff.2 hs)⟩
      rw [value, jsonValueInitString_eq, if_neg hs]
  | number d => exact .inl ⟨_, rfl, setWith_owned h (jsonValueInitNumber_makes d) _⟩
  | boolean b => exact .inl ⟨_, rfl, setWith_owned h (jsonValueInitBoolean_makes b) _⟩
  | null => exact .inl ⟨_, rfl, setWith_owned h jsonValueInitNull_makes _⟩

theorem Called.of_eq {c : ObjectCall} {t' : ObjectTable HeapValue} {r : Reply} (whole : t'.Whole)
    (wrap : t'.wrappingValue = t.wrappingValue) (hcells : t.CellsWithin t')
    (heq : (t'.members, r) = c.onMembers t.members) : Called t c (t', r) t'.blocks false := by
  obtain rfl : r = (c.onMembers t.members).2 := congrArg Prod.snd heq
  exact .done whole wrap (congrArg Prod.fst heq) hcells

theorem exec_owned (h : t.Whole) (c : ObjectCall) : Owned t.blocks (c.exec t) (Called t c) := by
  cases c with
  | set name x =>
    rcases x.set_owned h name with ⟨v, hv, hset⟩ | ⟨hnone, hset⟩
    · refine hset.bind fun r own bad hr => ?_
      cases hr with
      | done whole wrap members cells =>
        refine .pure (.of_eq whole wrap cells ?_)
        rw [ObjectCall.onMembers, hv, members]
        rfl
      | refused whole wrap members cells =>
        exact .pure (.starved (by rw [hv]; rfl) whole wrap members cells)
    · refine Owned.reads_bind hset (Multiset.zero_le _) (.pure (.of_eq h rfl (.of_eq rfl) ?_))
      rw [ObjectCall.onMembers, hnone]
      rfl
  | get name =>
    obtain ⟨r, hr, habs, -⟩ := ObjectTable.jsonObjectGetnValue_reads h.wf name
    refine Owned.reads_bind hr le_rfl (.pure (.of_eq h rfl (.of_eq rfl) ?_))
    rw [habs]
    rfl
  | remove name =>
    refine (ObjectTable.jsonObjectRemoveInternal_owned h.wf h.allocated name true).bind
      fun r own bad hr => ?_
    cases hr with
    | absent habsent =>
      have hnone := ObjectTable.lookup_members_eq_none habsent
      refine .pure (.of_eq h rfl (.of_eq rfl) ?_)
      rw [ObjectCall.onMembers, hnone, ObjectTable.removeMember_absent hnone]
      rfl
    | @done s t' hs hname wf wrap cells perm members =>
      obtain ⟨ix, hix⟩ := List.getElem?_of_mem hs
      have hsome := ObjectTable.lookup_members_eq_some h.wf hix
      rw [hname] at hsome
      have hwhole : t'.Whole := ⟨wf, fun e he => h.values e (perm.subset (.tail _ he))⟩
      refine .pure ?_
      rw [if_pos rfl, zero_add]
      refine .of_eq hwhole wrap (.of_eq cells) ?_
      rw [ObjectCall.onMembers, hsome, members]
      rfl
  | clear =>
    refine (ObjectTable.jsonObjectClear_owned h.wf h.allocated).bind fun t' own bad ht' => ?_
    obtain ⟨wf, wrap, hcells, hentries, rfl, rfl⟩ := ht'
    have hwhole : t'.Whole := ⟨wf, fun e he => by rw [hentries] at he; cases he⟩
    refine .pure (.of_eq hwhole wrap (.of_eq hcells) ?_)
    rw [ObjectTable.members_eq, hentries]
    rfl

/-- A call adds one member at most. -/
theorem onMembers_length (object : JsonObject) (c : ObjectCall) :
    (c.onMembers object).1.length ≤ object.length + 1 := by
  cases c with
  | set name x =>
    rw [ObjectCall.onMembers]
    cases x.value with
    | none => exact Nat.le_succ _
    | some v =>
      rw [Slirp4netns.jsonObjectSetValue]
      split_ifs <;> simp
  | get name => exact Nat.le_succ _
  | remove name =>
    rw [ObjectCall.onMembers, ObjectTable.removeMember]
    split
    · rw [List.length_dropLast, List.length_set]
      omega
    · exact Nat.le_succ _
  | clear => exact Nat.zero_le _

theorem Called.length_le {c : ObjectCall} {r : ObjectTable HeapValue × Reply} {own : Multiset ℕ}
    {bad : Bool} (h : Called t c r own bad) :
    r.1.slots.length ≤ t.slots.length + 1 ∧ t.CellsWithin r.1 := by
  have hlen (t : ObjectTable HeapValue) : t.members.length = t.slots.length := by
    rw [ObjectTable.members, slotsAbs_eq, List.length_map]
  cases h with
  | done _ _ members cells =>
    refine ⟨?_, cells⟩
    rw [← hlen, members, ← hlen]
    exact onMembers_length _ _
  | starved _ _ _ members cells =>
    refine ⟨?_, cells⟩
    rw [← hlen, members, hlen]
    exact Nat.le_succ _

/-- What calls may do, on a table with `n` members at most. -/
structure CalledAll (t : ObjectTable HeapValue) (n : ℕ) (calls : List ObjectCall)
    (r : ObjectTable HeapValue × List Report) (own : Multiset ℕ) (bad : Bool) : Prop where
  whole : r.1.Whole
  wrappingValue : r.1.wrappingValue = t.wrappingValue
  own_eq : own = r.1.blocks
  follows : Follows ObjectCall.onMembers t.members calls r.1.members r.2
  cells : ∀ report ∈ r.2, report.cells ≤ max startingCapacity (3 * (n + calls.length))
  bad_eq : bad = r.2.any Report.starved

theorem execAll_owned (h : t.Whole) {n : ℕ} (hslots : t.slots.length ≤ n)
    (hcells : t.cells.length ≤ max startingCapacity (3 * n)) (calls : List ObjectCall) :
    Owned t.blocks (execAll calls t) (CalledAll t n calls) := by
  induction calls generalizing t n with
  | nil => exact .pure ⟨h, rfl, rfl, .nil, fun _ hr => absurd hr List.not_mem_nil, rfl⟩
  | cons c calls ih =>
    refine (exec_owned h c).watch.bind fun r own bad hr => ?_
    obtain ⟨⟨t', reply⟩, starved⟩ := r
    obtain ⟨rfl, hr⟩ := hr
    obtain ⟨hlen, hwithin⟩ := hr.length_le
    rw [ObjectTable.CellsWithin] at hwithin
    have hslots' : t'.slots.length ≤ n + 1 := hlen.trans (by omega)
    have hcells' : t'.cells.length ≤ max startingCapacity (3 * (n + 1)) := by
      simp only at hwithin
      omega
    -- the reports of the other calls, with one in front
    have hrest : ∀ {reports : List Report}, (∀ report ∈ reports,
        report.cells ≤ max startingCapacity (3 * (n + 1 + calls.length))) →
        ∀ report ∈ (⟨reply, starved, t'.cells.length⟩ : Report) :: reports,
          report.cells ≤ max startingCapacity (3 * (n + (c :: calls).length)) := by
      intro reports hreports
      rw [List.length_cons, List.forall_mem_cons]
      refine ⟨by simp only; omega, fun report hmem => (hreports report hmem).trans ?_⟩
      omega
    cases hr with
    | done whole wrap members =>
      refine (ih whole hslots' hcells').bind fun r own bad hr => .pure ?_
      have hfollows := hr.follows
      rw [members] at hfollows
      refine ⟨hr.whole, hr.wrappingValue.trans wrap, hr.own_eq, hfollows.done, hrest hr.cells, ?_⟩
      simp [hr.bad_eq]
    | starved hx whole wrap members =>
      refine (ih whole hslots' hcells').bind fun r own bad hr => .pure ?_
      have hfollows := hr.follows
      rw [members] at hfollows
      refine ⟨hr.whole, hr.wrappingValue.trans wrap, hr.own_eq, hfollows.starved hx,
        hrest hr.cells, ?_⟩
      simp

end

/-! ## Dictionaries -/

section
variable {object : JsonObject} {name : Bytes}

theorem lookup_eq_some_iff_mem (h : (object.map Prod.fst).Nodup) {v : JsonValue} :
    object.lookup name = some v ↔ (name, v) ∈ object := by
  rw [List.lookup_eq_some_iff]
  constructor
  · rintro ⟨l₁, l₂, rfl, -⟩
    exact List.mem_append.2 (.inr List.mem_cons_self)
  · intro hmem
    obtain ⟨l₁, l₂, rfl⟩ := List.append_of_mem hmem
    refine ⟨l₁, l₂, rfl, fun m hm => ?_⟩
    rw [List.map_append, List.nodup_append] at h
    have hne := h.2.2 _ (List.mem_map_of_mem hm) name (by simp)
    exact bne_iff_ne.2 hne.symm

/-- The dictionary that a list of members is. -/
def dict (object : JsonObject) : Bytes → Option JsonValue := fun name => object.lookup name

theorem lookup_map_replace (v : JsonValue) (n : Bytes) :
    (object.map fun m => if m.1 = name then (m.1, v) else m).lookup n =
      if n = name then (object.lookup n).map fun _ => v else object.lookup n := by
  induction object with
  | nil => simp
  | cons m object ih =>
    obtain ⟨k, w⟩ := m
    rw [List.map_cons]
    by_cases hn : n = k
    · subst hn
      by_cases hk : n = name <;> simp [hk]
    · by_cases hk : k = name
      · rw [if_pos hk, lookup_cons_of_ne hn, lookup_cons_of_ne hn, ih]
      · rw [if_neg hk, lookup_cons_of_ne hn, lookup_cons_of_ne hn, ih]

theorem dict_setValue (v : JsonValue) :
    dict (Slirp4netns.jsonObjectSetValue object name (some v)) =
      Function.update (dict object) name (some v) := by
  funext n
  rw [dict, Slirp4netns.jsonObjectSetValue]
  by_cases hsome : (object.lookup name).isSome
  · rw [if_pos hsome, lookup_map_replace]
    by_cases hn : n = name
    · obtain ⟨w, hw⟩ := Option.isSome_iff_exists.1 hsome
      rw [if_pos hn, hn, Function.update_self, hw, Option.map_some]
    · rw [if_neg hn, Function.update_of_ne hn, dict]
  · rw [if_neg hsome, List.lookup_append]
    by_cases hn : n = name
    · rw [hn, Function.update_self, Option.not_isSome_iff_eq_none.1 hsome]
      simp
    · rw [Function.update_of_ne hn, lookup_cons_of_ne hn, List.lookup_nil, Option.or_none, dict]

theorem names_setValue (h : (object.map Prod.fst).Nodup) (v : JsonValue) :
    ((Slirp4netns.jsonObjectSetValue object name (some v)).map Prod.fst).Nodup := by
  rw [Slirp4netns.jsonObjectSetValue]
  split_ifs with hsome
  · have hnames : (object.map fun m => if m.1 = name then (m.1, v) else m).map Prod.fst =
        object.map Prod.fst := by
      rw [List.map_map]
      refine List.map_congr_left fun m _ => ?_
      simp only [Function.comp]
      split_ifs <;> rfl
    rw [hnames]
    exact h
  · rw [List.map_append, List.nodup_append]
    refine ⟨h, by simp, fun k hk k' hk' => ?_⟩
    obtain rfl : k' = name := by simpa using hk'
    rintro rfl
    obtain ⟨m, hm, rfl⟩ := List.mem_map.1 hk
    refine hsome (Option.isSome_iff_exists.2 ⟨m.2, (lookup_eq_some_iff_mem h).2 hm⟩)

theorem perm_removeMember (h : (object.map Prod.fst).Nodup) {v : JsonValue}
    (hv : object.lookup name = some v) :
    ((name, v) :: ObjectTable.removeMember object name).Perm object := by
  have hmem := (lookup_eq_some_iff_mem h).1 hv
  rw [ObjectTable.removeMember]
  cases hix : object.findIdx? fun m => m.1 = name with
  | none =>
    have := List.findIdx?_eq_none_iff.1 hix _ hmem
    simp at this
  | some ix =>
    obtain ⟨hlt, hname, -⟩ := List.findIdx?_eq_some_iff_getElem.1 hix
    have hget : object[ix] = (name, v) := by
      have hix' : (name, object[ix].2) ∈ object := by
        rw [← of_decide_eq_true hname]
        exact List.getElem_mem hlt
      rw [(lookup_eq_some_iff_mem h).2 hix'] at hv
      exact Prod.ext (of_decide_eq_true hname) (Option.some.inj hv)
    obtain ⟨last, hlast⟩ : ∃ last, object[object.length - 1]? = some last :=
      ⟨_, List.getElem?_eq_getElem (by omega)⟩
    have hlast' : object.getLast? = some last := by rw [List.getLast?_eq_getElem?, hlast]
    rw [hlast']
    exact List.perm_set_dropLast (List.getElem?_eq_some_iff.2 ⟨hlt, hget⟩) hlast

theorem names_removeMember (h : (object.map Prod.fst).Nodup) :
    ((ObjectTable.removeMember object name).map Prod.fst).Nodup := by
  cases hv : object.lookup name with
  | none => rwa [ObjectTable.removeMember_absent hv]
  | some v =>
    have hperm := (perm_removeMember h hv).map Prod.fst
    exact (List.nodup_cons.1 (hperm.nodup_iff.2 h)).2

theorem dict_removeMember (h : (object.map Prod.fst).Nodup) :
    dict (ObjectTable.removeMember object name) = Function.update (dict object) name none := by
  cases hv : object.lookup name with
  | none =>
    rw [ObjectTable.removeMember_absent hv]
    exact (Function.update_eq_self_iff.2 hv.symm).symm
  | some v =>
    have hperm := perm_removeMember h hv
    have hnodup : ((ObjectTable.removeMember object name).map Prod.fst).Nodup :=
      names_removeMember h
    have hcons := List.nodup_cons.1 ((hperm.map Prod.fst).nodup_iff.2 h)
    funext n
    refine Option.ext fun w => ?_
    rw [dict, lookup_eq_some_iff_mem hnodup]
    by_cases hn : n = name
    · rw [hn, Function.update_self]
      exact ⟨fun hw => absurd (List.mem_map_of_mem hw) hcons.1, fun hw => by cases hw⟩
    · rw [Function.update_of_ne hn, dict, lookup_eq_some_iff_mem h, ← hperm.mem_iff,
        List.mem_cons]
      exact ⟨.inr, fun hw => hw.resolve_left fun heq => hn (congrArg Prod.fst heq)⟩

/-- A call on the list of the members is one on the dictionary. -/
theorem onMembers_onDict (h : (object.map Prod.fst).Nodup) (c : ObjectCall) :
    ((c.onMembers object).1.map Prod.fst).Nodup ∧
      (dict (c.onMembers object).1, (c.onMembers object).2) = c.onDict (dict object) := by
  cases c with
  | set name x =>
    rw [ObjectCall.onMembers, ObjectCall.onDict]
    cases x.value with
    | none => exact ⟨h, rfl⟩
    | some v => exact ⟨names_setValue h v, by rw [dict_setValue]; rfl⟩
  | get name => exact ⟨h, rfl⟩
  | remove name => exact ⟨names_removeMember h, by rw [ObjectCall.onMembers, dict_removeMember h]; rfl⟩
  | clear => exact ⟨List.nodup_nil, rfl⟩

theorem Follows.dict {object' : JsonObject} {calls : List ObjectCall} {reports : List Report}
    (h : Follows ObjectCall.onMembers object calls object' reports)
    (hnodup : (object.map Prod.fst).Nodup) :
    Follows ObjectCall.onDict (dict object) calls (dict object') reports := by
  induction h with
  | nil => exact .nil
  | @done o o' c calls reports cells _ ih =>
    obtain ⟨hnodup', heq⟩ := onMembers_onDict hnodup c
    have hdict : Parson.dict (c.onMembers o).1 = (c.onDict (Parson.dict o)).1 :=
      congrArg Prod.fst heq
    have hreply : (c.onMembers o).2 = (c.onDict (Parson.dict o)).2 := congrArg Prod.snd heq
    have hrest := ih hnodup'
    rw [hdict] at hrest
    rw [hreply]
    exact .done hrest
  | starved hx _ ih => exact .starved hx (ih hnodup)

end

/-- The replies of a dictionary. -/
def dictReplies (d : Bytes → Option JsonValue) : List ObjectCall → List Reply
  | [] => []
  | c :: calls => (c.onDict d).2 :: dictReplies (c.onDict d).1 calls

theorem Follows.eq_dictReplies {d d' : Bytes → Option JsonValue} {calls : List ObjectCall}
    {reports : List Report} (h : Follows ObjectCall.onDict d calls d' reports)
    (hmem : ∀ report ∈ reports, report.starved = false) :
    reports.map Report.reply = dictReplies d calls := by
  induction h with
  | nil => rfl
  | done _ ih => rw [dictReplies, List.map_cons, ih (List.forall_mem_cons.1 hmem).2]
  | starved => exact absurd (hmem _ List.mem_cons_self) Bool.noConfusion

theorem session_owned (calls : List ObjectCall) :
    Owned 0 (session calls) fun r own bad => own = 0 ∧
      ((r = none ∧ bad = true) ∨ ∃ reports d, r = some reports ∧
        Follows ObjectCall.onDict (fun _ => none) calls d reports ∧
        (∀ report ∈ reports, report.cells ≤ max startingCapacity (3 * calls.length)) ∧
        bad = reports.any Report.starved) := by
  refine jsonValueInitObject_owned.bind fun r own bad hr => ?_
  rcases hr with ⟨rfl, rfl, rfl⟩ | ⟨b, o, rfl, rfl, rfl⟩
  · exact .pure ⟨rfl, .inl ⟨rfl, rfl⟩⟩
  · rw [← emptyObject_blocks]
    simp only [emptyObject]
    rw [blocks_object, cons_cons_eq_add]
    refine ((execAll_owned (emptyObject_whole b) (n := 0) le_rfl (Nat.zero_le _) calls).frame
      (b ::ₘ o ::ₘ 0)).bind fun r own bad hr => ?_
    obtain ⟨_, rfl, hr⟩ := hr
    have hw : (HeapValue.mk b none (.object o r.1)).Wf :=
      HeapValue.wf_object.2 ⟨⟨hr.wrappingValue, hr.whole.wf⟩, hr.whole.slots⟩
    have hcells := hr.cells
    rw [Nat.zero_add] at hcells
    refine Owned.of_eq ((jsonValueFree_frees _ hw.allocated).then_owned fun _ =>
      .pure ⟨rfl, .inr ⟨r.2, dict r.1.members, rfl, hr.follows.dict List.nodup_nil, hcells, ?_⟩⟩) ?_
    · rw [hr.bad_eq, Bool.false_or, Bool.or_false]
    · rw [hr.own_eq, blocks_object, add_zero, cons_cons_eq_add b o r.1.blocks]

/-- **A session with an object behaves as with a dictionary**, whatever allocations fail.  It
    returns, and at the end all memory is freed.  A call that stores a value and in which an
    allocation fails replies that it has failed and does nothing; every other call does and replies
    what it does and replies on the dictionary, where a text that is not UTF-8 is refused too.  If
    the object itself cannot be made, nothing is called.

    The table has three cells for each call at most, or 16: with fewer than 2³⁰ calls no
    `unsigned int` that counts them wraps around, as the natural numbers here assume. -/
theorem session_follows_dict (calls : List ObjectCall) (h : Heap) : ∃ r,
    ((session calls).run h).out = .ret r ∧ ((session calls).run h).st.live = h.live ∧
    (r = none → ((session calls).run h).st.failed = true) ∧
    ∀ reports, r = some reports →
      ((session calls).run h).st.failed = (h.failed || reports.any Report.starved) ∧
      (∃ d, Follows ObjectCall.onDict (fun _ => none) calls d reports) ∧
      ((∀ report ∈ reports, report.starved = false) →
        reports.map Report.reply = dictReplies (fun _ => none) calls) ∧
      ∀ report ∈ reports, report.cells ≤ max startingCapacity (3 * calls.length) := by
  obtain ⟨r, own, bad, hout, ⟨rfl, hr⟩, hlive, hfailed⟩ :=
    session_owned calls h h.live (zero_add _).symm
  refine ⟨r, hout, hlive.trans (zero_add _), ?_⟩
  rcases hr with ⟨rfl, rfl⟩ | ⟨reports, d, rfl, hfollows, hcells, rfl⟩
  · exact ⟨fun _ => hfailed.trans (Bool.or_true _), fun _ hr => (Option.some_ne_none _ hr.symm).elim⟩
  · refine ⟨fun hr => (Option.some_ne_none _ hr).elim, fun reports' hr => ?_⟩
    obtain rfl := Option.some.inj hr
    exact ⟨hfailed, ⟨d, hfollows⟩, hfollows.eq_dictReplies, hcells⟩

end Slirp4netns.Parson
