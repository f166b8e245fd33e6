/-
  slirp4netns formalization — the response to `list_hostfwd` in memory.

  The response is built as a JSON value.  Every call that builds it may fail for want
  of memory; the code looks at the result of the last one for each entry only, so an
  entry may lack members, and `entries` itself may be missing.  If there is no memory
  for the text of the response, `strlen` is called with `NULL`.  Nothing else goes wrong
  with memory, and if no allocation fails the response is the one on values.
-/
import Slirp4netns.Api.Ownership
import Slirp4netns.Api.Replay
import Slirp4netns.Parson.Session

namespace Slirp4netns.ApiHeap

open HeapProg
open Parson (HeapValue ObjectTable ArrayItems ObjectPtr StringPtr ObjectIn StringIn ValueIn Makes)

variable {L : Libslirp}

/-! ## Entries -/

/-- The members of a listed forward. -/
def entryMembers (fwd : ApiHostfwd) : JsonObject :=
  [(bytes "id", .number fwd.id),
    (bytes "proto", .string (bytes (if fwd.isUdp ≠ 0 then "udp" else "tcp"))),
    (bytes "host_addr", .string fwd.hostAddr.text), (bytes "host_port", .number fwd.hostPort),
    (bytes "guest_addr", .string fwd.guestAddr.text), (bytes "guest_port", .number fwd.guestPort)]

theorem entryCalls_make (fwd : ApiHostfwd) :
    List.Forall₂ (fun c m => c.1 = m.1 ∧ Makes m.2 c.2)
      (entryCalls fwd fwd.hostAddr.text fwd.guestAddr.text) (entryMembers fwd) := by
  have hproto : isValidUtf8 (bytes (if fwd.isUdp ≠ 0 then "udp" else "tcp") ++ [0])
      (bytes (if fwd.isUdp ≠ 0 then "udp" else "tcp")).length = true := by
    split <;> decide
  exact .cons ⟨rfl, Parson.jsonValueInitNumber_makes _⟩ <|
    .cons ⟨rfl, Parson.jsonValueInitString_makes hproto⟩ <|
    .cons ⟨rfl, Parson.jsonValueInitString_makes (isValidUtf8_addr _)⟩ <|
    .cons ⟨rfl, Parson.jsonValueInitNumber_makes _⟩ <|
    .cons ⟨rfl, Parson.jsonValueInitString_makes (isValidUtf8_addr _)⟩ <|
    .cons ⟨rfl, Parson.jsonValueInitNumber_makes _⟩ .nil

theorem entryMembers_nodup (fwd : ApiHostfwd) : ((entryMembers fwd).map Prod.fst).Nodup := by
  show ([bytes "id", bytes "proto", bytes "host_addr", bytes "host_port", bytes "guest_addr",
    bytes "guest_port"] : List Bytes).Nodup
  decide

/-- A new name is set at the end. -/
theorem setValue_new {object : JsonObject} {name : Bytes} (h : name ∉ object.map Prod.fst)
    (v : JsonValue) :
    Slirp4netns.jsonObjectSetValue object name (some v) = object ++ [(name, v)] := by
  have hnone : object.lookup name = none := by
    rw [List.lookup_eq_none_iff]
    intro m hm
    exact bne_iff_ne.2 fun heq => h (heq ▸ List.mem_map_of_mem hm)
  rw [Slirp4netns.jsonObjectSetValue, hnone, if_neg (by simp)]

/-- What a run of calls leaves in the object `o`: some of the members, and all of them unless an
    allocation has failed. -/
def MembersSet (o : ℕ) (t : ObjectTable HeapValue) (members : JsonObject) :
    ObjectPtr → Multiset ℕ → Bool → Prop :=
  fun r own bad => ∃ t' ms, r = some (o, t') ∧ own = o ::ₘ t'.blocks ∧ t'.Whole ∧
    t'.wrappingValue = t.wrappingValue ∧ t'.members = t.members ++ ms ∧ ms.Sublist members ∧
    (bad = false → ms = members)

theorem setMembers_owned {o : ℕ} {calls : List (Bytes × HeapProg (Option HeapValue))}
    {members : JsonObject} (hmake : List.Forall₂ (fun c m => c.1 = m.1 ∧ Makes m.2 c.2) calls members)
    {t : ObjectTable HeapValue} (ht : t.Whole)
    (hnodup : ((t.members ++ members).map Prod.fst).Nodup) :
    Owned (o ::ₘ t.blocks) (setMembers calls (some (o, t))) (MembersSet o t members) := by
  induction hmake generalizing t with
  | nil => exact .pure ⟨t, [], rfl, rfl, ht, rfl, (List.append_nil _).symm, .slnil, fun _ => rfl⟩
  | @cons c m calls members hc _ ih =>
    obtain ⟨name, init⟩ := c
    obtain ⟨name', v⟩ := m
    obtain ⟨rfl, hinit⟩ : name = name' ∧ Makes v init := hc
    have hnew : name ∉ t.members.map Prod.fst := by
      rw [List.map_append, List.map_cons, List.nodup_append] at hnodup
      exact fun hmem => hnodup.2.2 name hmem name List.mem_cons_self rfl
    have hset : Owned (o ::ₘ t.blocks) (setMember init name (some (o, t))) fun r own bad =>
        ∃ t' ms, r = some (o, t') ∧ own = o ::ₘ t'.blocks ∧ t'.Whole ∧
          t'.wrappingValue = t.wrappingValue ∧ t'.members = t.members ++ ms ∧
          ms.Sublist [(name, v)] ∧ (bad = false → ms = [(name, v)]) := by
      refine .reads_bind (.access (Multiset.mem_cons_self _ _)) le_rfl ?_
      have hwith := ((Parson.setWith_owned ht hinit name).frame {o}).of_eq
        (show o ::ₘ t.blocks = t.blocks + {o} by rw [add_comm, Multiset.singleton_add])
      refine hwith.bind fun r own bad hr => ?_
      obtain ⟨own, rfl, hr⟩ := hr
      have hcons : ∀ t' : ObjectTable HeapValue, t'.blocks + {o} = o ::ₘ t'.blocks := fun t' => by
        rw [add_comm, Multiset.singleton_add]
      cases hr with
      | @done t' whole wrap hmembers =>
        refine .pure ⟨t', [(name, v)], rfl, hcons t', whole, wrap, ?_, List.Sublist.refl _,
          fun _ => rfl⟩
        rw [hmembers, setValue_new hnew]
      | @refused t' whole wrap hmembers =>
        exact .pure ⟨t', [], rfl, hcons t', whole, wrap, by rw [hmembers, List.append_nil],
          List.nil_sublist _, fun h => by cases h⟩
    refine hset.bind fun r own bad hr => ?_
    obtain ⟨t', ms, rfl, rfl, hwhole, hwrap, hmembers, hsub, hfull⟩ := hr
    have hnodup' : ((t'.members ++ members).map Prod.fst).Nodup := by
      rw [hmembers, List.append_assoc]
      refine hnodup.sublist (List.Sublist.map _ (List.Sublist.append_left ?_ _))
      exact List.Sublist.append hsub (List.Sublist.refl members)
    refine (ih hwhole hnodup').conseq fun r own bad' hr => ?_
    obtain ⟨t'', ms', rfl, rfl, hwhole', hwrap', hmembers', hsub', hfull'⟩ := hr
    refine ⟨t'', ms ++ ms', rfl, rfl, hwhole', hwrap'.trans hwrap, ?_, ?_, fun hbad => ?_⟩
    · rw [hmembers', hmembers, List.append_assoc]
    · exact List.Sublist.append hsub hsub'
    · obtain ⟨rfl, rfl⟩ := Bool.or_eq_false_iff.1 hbad
      rw [hfull rfl, hfull' rfl]
      rfl

/-- Calls on an object that could not be made. -/
theorem setMembers_none {calls : List (Bytes × HeapProg (Option HeapValue))}
    {members : JsonObject} (hmake : List.Forall₂ (fun c m => c.1 = m.1 ∧ Makes m.2 c.2) calls members) :
    Owned 0 (setMembers calls none) fun r own _ => r = none ∧ own = 0 := by
  induction hmake with
  | nil => exact .pure ⟨rfl, rfl⟩
  | @cons c m calls members hc _ ih =>
    obtain ⟨name, init⟩ := c
    have hset : Owned 0 (setMember init name none) fun r own _ => r = none ∧ own = 0 := by
      refine Owned.bind hc.2 fun r own bad hr => ?_
      rcases hr with ⟨rfl, rfl, rfl⟩ | ⟨w, rfl, rfl, rfl, hw, -⟩
      · exact .free_none_bind (.pure ⟨rfl, rfl⟩)
      · refine Owned.of_eq ?_ (add_zero w.blocks).symm
        exact (Parson.jsonValueFree_frees w hw.allocated).then_owned fun _ => .pure ⟨rfl, rfl⟩
    refine hset.bind fun r own bad hr => ?_
    obtain ⟨rfl, rfl⟩ := hr
    exact ih

/-! ## The array of the entries -/

/-- A listed forward, of which members may be missing. -/
def Partial (fwd : ApiHostfwd) (v : JsonValue) : Prop :=
  ∃ ms, ms.Sublist (entryMembers fwd) ∧ v = .object ms

/-- An array of values that are as they must be. -/
structure ItemsOk (a : ArrayItems HeapValue) : Prop where
  wf : a.Wf
  values : ∀ v ∈ a.items, v.Wf

/-- A new object, or `NULL` for want of memory. -/
theorem jsonValueInitObject_owned (rest : Multiset ℕ) :
    Owned rest Parson.jsonValueInitObject fun r own bad =>
      (r = none ∧ own = rest ∧ bad = true) ∨ ∃ b o t, r = some (.mk b none (.object o t)) ∧
        own = b ::ₘ o ::ₘ t.blocks + rest ∧ bad = false ∧ t.Whole ∧ t.wrappingValue = b ∧
        t.members = [] := by
  refine (Parson.jsonValueInitObject_owned.frame rest |>.of_eq (zero_add _).symm).conseq ?_
  rintro r own bad ⟨own, rfl, ⟨rfl, rfl, rfl⟩ | ⟨b, o, rfl, rfl, rfl⟩⟩
  · exact .inl ⟨rfl, zero_add _, rfl⟩
  · exact .inr ⟨b, o, _, rfl, rfl, rfl, Parson.emptyObject_whole b, rfl, rfl⟩

theorem jsonArrayAppendValue_owned (array : ℕ) {a : ArrayItems HeapValue} {v : HeapValue}
    (ha : ItemsOk a) (hv : v.Wf) (hparent : v.parent = none) :
    Owned (v.blocks + (array ::ₘ a.blocks)) (jsonArrayAppendValue (some (array, a)) (some v))
      fun r own bad => (r = (some (array, a), false) ∧ bad = true) ∨
        ∃ a', r = (some (array, a'), true) ∧ own = array ::ₘ a'.blocks ∧ bad = false ∧
          ItemsOk a' ∧ a'.wrappingValue = a.wrappingValue ∧
          Parson.itemsAbs a'.items = Parson.itemsAbs a.items ++ [v.abs] := by
  refine .reads_bind (.access (Multiset.mem_add.2 (.inl v.block_mem))) le_rfl ?_
  rw [hparent, if_neg (by simp)]
  refine .reads_bind (.access (Multiset.mem_add.2 (.inr (Multiset.mem_cons_self _ _)))) le_rfl ?_
  have hadd := ((Parson.jsonArrayAdd_owned ha.wf (v := v)).frame {array}).of_eq
    (show v.blocks + (array ::ₘ a.blocks) = v.blocks + a.blocks + {array} by
      rw [← Multiset.singleton_add]
      ac_rfl)
  refine hadd.bind fun r own bad hr => ?_
  obtain ⟨own, rfl, hr⟩ := hr
  cases hr with
  | failed => exact .pure (.inl ⟨rfl, rfl⟩)
  | @done a' h =>
    refine .pure (.inr ⟨a', rfl, ?_, rfl, ⟨h.wf, fun w hw => ?_⟩, h.wrappingValue, ?_⟩)
    · rw [add_comm, Multiset.singleton_add]
    · rw [h.items, List.mem_append, List.mem_singleton] at hw
      rcases hw with hw | rfl
      · exact ha.values w hw
      · exact hv.setParent _
    · rw [Parson.itemsAbs_eq, Parson.itemsAbs_eq, h.items, List.map_append, List.map_singleton,
        HeapValue.setParent_abs]

section
variable {s : State L} {rest : Multiset ℕ} {n : HostfwdNode}

/-- The process exits. -/
def Exits {α : Type} (out : Outcome Halt α) : Prop := ∃ why, out = .stop (.stop why)

theorem Exits.cast {α β : Type} {why : Halt} (h : Exits (.stop why : Outcome Halt α)) :
    Exits (.stop why : Outcome Halt β) := by
  obtain ⟨why', hwhy⟩ := h
  cases hwhy
  exact ⟨why', rfl⟩

theorem exit_exits {α : Type} {own : Multiset ℕ} {e : Call} :
    Runs own s (do other (Prog.call e); Prog.stop (.stop .exitFailure) : Api L α)
      fun out _ _ _ _ => Exits out :=
  call_bind (.stop ⟨_, rfl⟩)

/-- What `makeEntry` gives: a value of its own, or `NULL` for want of memory. -/
def EntryMade (rest : Multiset ℕ) (fwd : ApiHostfwd) (r : Option HeapValue) (own : Multiset ℕ)
    (bad : Bool) : Prop :=
  (r = none ∧ own = rest ∧ bad = true) ∨
    ∃ v ms, r = some v ∧ own = v.blocks + rest ∧ v.Wf ∧ v.parent = none ∧ v.abs = .object ms ∧
      ms.Sublist (entryMembers fwd) ∧ (bad = false → ms = entryMembers fwd)

theorem makeEntry_runs (hn : n.blocks ⊆ rest) :
    Runs rest s (makeEntry n : Api L (Option HeapValue)) fun out s' es own bad =>
      s' = s ∧ es = [] ∧ ∃ r, out = .ret r ∧ EntryMade rest n.fwd r own bad := by
  refine .inside_bind (jsonValueInitObject_owned rest) fun r own bad hr => ?_
  rcases hr with ⟨rfl, rfl, rfl⟩ | ⟨b, o, t, rfl, rfl, rfl, ht, rfl, hmembers⟩
  · refine .reads_bind .pure (Multiset.zero_le _) (access_bind (hn n.data_mem) ?_)
    rw [inetNtop_addrstrlen, inetNtop_addrstrlen]
    have hset := (setMembers_none (entryCalls_make n.fwd)).frame own
    refine .inside_bind (hset.of_eq (zero_add _).symm) fun r own bad hr => ?_
    obtain ⟨own, rfl, rfl, rfl⟩ := hr
    exact .pure ⟨rfl, rfl, none, rfl, .inl ⟨rfl, zero_add _, rfl⟩⟩
  · have hb : t.wrappingValue ∈ t.wrappingValue ::ₘ o ::ₘ t.blocks + rest :=
      Multiset.mem_add.2 (.inl (Multiset.mem_cons_self _ _))
    refine .reads_bind (.bind (.access hb) .pure) le_rfl
      (access_bind (Multiset.mem_add.2 (.inr (hn n.data_mem))) ?_)
    rw [inetNtop_addrstrlen, inetNtop_addrstrlen]
    have hnodup : ((t.members ++ entryMembers n.fwd).map Prod.fst).Nodup := by
      rw [hmembers]
      exact entryMembers_nodup n.fwd
    have hset := (setMembers_owned (entryCalls_make n.fwd) ht hnodup (o := o)).frame
      (t.wrappingValue ::ₘ rest)
    refine .inside_bind (hset.of_eq ?_) fun r own bad hr => ?_
    · simp only [← Multiset.singleton_add]
      ac_rfl
    obtain ⟨own, rfl, t', ms, rfl, rfl, hwhole, hwrap, hmembers', hsub, hfull⟩ := hr
    rw [hmembers, List.nil_append] at hmembers'
    refine .pure ⟨rfl, rfl, _, rfl, .inr ⟨_, ms, rfl, ?_, ?_, rfl, ?_, hsub, fun hbad => ?_⟩⟩
    · rw [Parson.blocks_object]
      simp only [← Multiset.singleton_add]
      ac_rfl
    · exact HeapValue.wf_object.2 ⟨⟨hwrap, hwhole.wf⟩, hwhole.slots⟩
    · rw [Parson.object_abs, hmembers']
    · rw [Bool.or_false, Bool.false_or] at hbad
      exact hfull hbad

/-- Without an array the process ends. -/
theorem foreach_none (hn : n.blocks ⊆ rest) :
    Runs rest s (apiHandleReqListHostfwdForeach n none : Api L ArrayPtr)
      fun out _ _ _ _ => Exits out := by
  refine access_bind (hn n.node_mem) ?_
  refine (makeEntry_runs hn).bind (fun why s' es own bad h => ?_) fun v s' es own bad h => ?_
  · obtain ⟨-, -, r, hr, -⟩ := h
    cases hr
  · exact .reads_bind .pure (Multiset.zero_le _) exit_exits

/-- What one entry does to an array, or the end of the process for want of memory. -/
def Appended (s : State L) (rest : Multiset ℕ) (array : ℕ) (a : ArrayItems HeapValue)
    (fwds : List ApiHostfwd) (out : Outcome Halt ArrayPtr) (s' : State L) (es : List Call)
    (own : Multiset ℕ) (bad : Bool) : Prop :=
  (Exits out ∧ bad = true) ∨ ∃ a' vs, out = .ret (some (array, a')) ∧ s' = s ∧ es = [] ∧
    own = array ::ₘ a'.blocks + rest ∧ ItemsOk a' ∧ a'.wrappingValue = a.wrappingValue ∧
    Parson.itemsAbs a'.items = Parson.itemsAbs a.items ++ vs ∧ List.Forall₂ Partial fwds vs ∧
    (bad = false → vs = fwds.map entryValue)

theorem foreach_some (hn : n.blocks ⊆ rest) {array : ℕ} {a : ArrayItems HeapValue}
    (ha : ItemsOk a) :
    Runs (array ::ₘ a.blocks + rest) s
      (apiHandleReqListHostfwdForeach n (some (array, a)) : Api L ArrayPtr)
      (Appended s rest array a [n.fwd]) := by
  have hn' : n.blocks ⊆ array ::ₘ a.blocks + rest := fun b hb => Multiset.mem_add.2 (.inr (hn hb))
  refine access_bind (hn' n.node_mem) ?_
  refine (makeEntry_runs hn').bind (fun why s' es own bad h => ?_) fun v s' es own bad h => ?_
  · obtain ⟨-, -, r, hr, -⟩ := h
    cases hr
  obtain ⟨rfl, rfl, r, hr, h⟩ := h
  cases hr
  rcases h with ⟨rfl, rfl, rfl⟩ | ⟨v, ms, rfl, rfl, hv, hparent, habs, hsub, hfull⟩
  · refine .reads_bind .pure (Multiset.zero_le _) ?_
    exact exit_exits.conseq fun _ _ _ _ _ h => .inl ⟨h, rfl⟩
  have happend := (jsonArrayAppendValue_owned array ha hv hparent).frame rest
  refine .inside_bind (happend.of_eq (add_assoc _ _ _).symm) fun r own bad' hr => ?_
  obtain ⟨own, rfl, ⟨rfl, rfl⟩ | ⟨a', rfl, rfl, rfl, ha', hwrap, hitems⟩⟩ := hr
  · rw [if_pos rfl]
    refine exit_exits.conseq fun _ _ _ _ _ h => .inl ⟨h, ?_⟩
    rw [Bool.true_or, Bool.or_true]
  · rw [if_neg (by simp)]
    refine .pure (.inr ⟨a', [v.abs], rfl, rfl, rfl, rfl, ha', hwrap, hitems,
      .cons ⟨ms, hsub, habs⟩ .nil, fun hbad => ?_⟩)
    rw [habs, hfull (by simpa using hbad)]
    rfl

/-- The loop over the list. -/
theorem listEntries_some {nodes : List HostfwdNode} (hn : nodeBlocks nodes ⊆ rest) (array : ℕ)
    {a : ArrayItems HeapValue} (ha : ItemsOk a) :
    Runs (array ::ₘ a.blocks + rest) s (listEntries nodes (some (array, a)) : Api L ArrayPtr)
      (Appended s rest array a (nodes.map HostfwdNode.fwd)) := by
  induction nodes generalizing a with
  | nil =>
    exact .pure (.inr ⟨a, [], rfl, rfl, rfl, rfl, ha, rfl, (List.append_nil _).symm, .nil,
      fun _ => rfl⟩)
  | cons n nodes ih =>
    rw [nodeBlocks] at hn
    have hn₁ : n.blocks ⊆ rest := fun b hb => hn (Multiset.mem_add.2 (.inl hb))
    have hn₂ : nodeBlocks nodes ⊆ rest := fun b hb => hn (Multiset.mem_add.2 (.inr hb))
    refine (foreach_some hn₁ ha).bind (fun why s' es own bad h => ?_) fun r s' es own bad h => ?_
    · rcases h with ⟨hexits, hbad⟩ | ⟨a', vs, hr, -⟩
      · exact .inl ⟨hexits.cast, hbad⟩
      · cases hr
    · rcases h with ⟨⟨why, hwhy⟩, -⟩ | ⟨a', vs, hr, rfl, rfl, rfl, ha', hwrap, hitems, hpart, hfull⟩
      · cases hwhy
      cases hr
      refine (ih hn₂ ha').conseq fun out s' es own bad' h => ?_
      rcases h with ⟨hexits, hbad⟩ | ⟨a'', vs', rfl, rfl, rfl, rfl, ha'', hwrap', hitems', hpart', hfull'⟩
      · exact .inl ⟨hexits, by rw [hbad, Bool.or_true]⟩
      refine .inr ⟨a'', vs ++ vs', rfl, rfl, rfl, rfl, ha'', hwrap'.trans hwrap, ?_, ?_, ?_⟩
      · rw [hitems', hitems, List.append_assoc]
      · exact List.rel_append hpart hpart'
      · intro hbad
        obtain ⟨rfl, rfl⟩ := Bool.or_eq_false_iff.1 hbad
        rw [hfull rfl, hfull' rfl]
        rfl

/-- The loop without an array; it ends the process, unless the list is empty. -/
theorem listEntries_none {nodes : List HostfwdNode} (hn : nodeBlocks nodes ⊆ rest) :
    Runs rest s (listEntries nodes none : Api L ArrayPtr) fun out s' es own _ =>
      Exits out ∨ (out = .ret none ∧ s' = s ∧ es = [] ∧ own = rest) := by
  cases nodes with
  | nil => exact .pure (.inr ⟨rfl, rfl, rfl, rfl⟩)
  | cons n nodes =>
    rw [nodeBlocks] at hn
    have hn₁ : n.blocks ⊆ rest := fun b hb => hn (Multiset.mem_add.2 (.inl hb))
    refine (foreach_none hn₁).bind (fun why s' es own bad h => .inl h) fun r s' es own bad h => ?_
    obtain ⟨why, hwhy⟩ := h
    cases hwhy

end

/-! ## The length of the text -/

section
variable {C : Libc} {ms full : JsonObject}

theorem membersText_sublist (h : ms.Sublist full) (level : ℕ) :
    (Parson.membersText C false ms level).length ≤
      (Parson.membersText C false full level).length := by
  induction h with
  | slnil => exact le_rfl
  | cons m _ ih =>
    refine ih.trans ?_
    rw [Parson.membersText]
    simp only [List.length_append]
    omega
  | @cons_cons ms full m hsub ih =>
    obtain ⟨name, v⟩ := m
    have hcomma : (if ms ≠ [] then ([44] : Bytes) else []).length ≤
        (if full ≠ [] then ([44] : Bytes) else []).length := by
      by_cases hms : ms = []
      · rw [if_neg (by simpa using hms)]
        exact Nat.zero_le _
      · have hfull : full ≠ [] := by
          rintro rfl
          exact hms (List.sublist_nil.1 hsub)
        rw [if_pos hms, if_pos hfull]
    rw [Parson.membersText, Parson.membersText]
    simp only [List.length_append]
    omega

theorem membersFit_sublist (h : ms.Sublist full) (hfit : Parson.MembersFit C full) :
    Parson.MembersFit C ms :=
  Parson.membersFit_iff.2 fun m hm => Parson.membersFit_iff.1 hfit m (h.subset hm)

theorem sprintfG17_int_length {n : ℤ} (h : IsInt n) : (C.sprintfG17 n).length ≤ 11 := by
  rw [C.sprintfG17_int n h.natAbs_le]
  exact intText_length_le h

theorem entryMembers_fit {fwd : ApiHostfwd} (h : HostfwdWf fwd) :
    Parson.MembersFit C (entryMembers fwd) := by
  have hfit : ∀ {n : ℤ}, IsInt n → Parson.NumbersFit C (.number n) := fun hn =>
    Nat.lt_of_le_of_lt (sprintfG17_int_length hn) (by decide)
  exact ⟨hfit h.id_isInt, trivial, trivial, hfit h.hostPort_isInt, trivial, hfit h.guestPort_isInt,
    trivial⟩

/-- Members with short names and short values make a short text. -/
theorem membersText_length {k : ℕ} (level : ℕ) (h : ∀ m ∈ ms,
    (Slirp4netns.jsonSerializeString (cstr m.1)).length ≤ 12 ∧
    (Parson.serializeText C false m.2 (level + 1)).length ≤ k) :
    (Parson.membersText C false ms level).length ≤ (k + 14) * ms.length := by
  induction ms with
  | nil => exact Nat.zero_le _
  | cons m ms ih =>
    obtain ⟨name, v⟩ := m
    obtain ⟨hname, hv⟩ : (Slirp4netns.jsonSerializeString (cstr name)).length ≤ 12 ∧
      (Parson.serializeText C false v (level + 1)).length ≤ k := h _ List.mem_cons_self
    have ih := ih fun m hm => h m (List.mem_cons_of_mem _ hm)
    have hcomma : (if ms ≠ [] then ([44] : Bytes) else []).length ≤ 1 := by split <;> decide
    rw [Parson.membersText, List.length_cons, Nat.mul_succ]
    simp only [Bool.false_eq_true, if_false, List.length_append, List.length_cons, List.length_nil]
    omega

theorem addr_text_length (a : InAddr) (level : ℕ) :
    (Parson.serializeText C false (.string a.text) level).length ≤ 92 := by
  have hlen := jsonSerializeString_length a.text
  have htext := a.length_text
  rw [Parson.serializeText]
  omega

theorem entryMembers_length {fwd : ApiHostfwd} (h : HostfwdWf fwd) (level : ℕ) :
    (Parson.membersText C false (entryMembers fwd) level).length ≤ 636 := by
  have hname : ∀ name ∈ [bytes "id", bytes "proto", bytes "host_addr", bytes "host_port",
      bytes "guest_addr", bytes "guest_port"],
      (Slirp4netns.jsonSerializeString (cstr name)).length ≤ 12 := by
    decide
  have hint : ∀ {n : ℤ}, IsInt n →
      (Parson.serializeText C false (.number n) (level + 1)).length ≤ 92 := fun hn =>
    (sprintfG17_int_length hn).trans (by decide)
  have hproto : (Slirp4netns.jsonSerializeString
      (bytes (if fwd.isUdp ≠ 0 then "udp" else "tcp"))).length ≤ 92 := by
    split <;> decide
  refine membersText_length (k := 92) level fun m hm => ⟨?_, ?_⟩
  · exact hname m.1 (List.mem_map_of_mem (f := Prod.fst) hm)
  · simp only [entryMembers, List.mem_cons, List.not_mem_nil, or_false] at hm
    rcases hm with rfl | rfl | rfl | rfl | rfl | rfl
    exacts [hint h.id_isInt, hproto, addr_text_length _ _, hint h.hostPort_isInt,
      addr_text_length _ _, hint h.guestPort_isInt]

theorem Partial.fits {fwd : ApiHostfwd} (h : HostfwdWf fwd) {v : JsonValue} (hv : Partial fwd v) :
    Parson.NumbersFit C v ∧ ∀ level, (Parson.serializeText C false v level).length ≤ 638 := by
  obtain ⟨ms, hsub, rfl⟩ := hv
  refine ⟨membersFit_sublist hsub (entryMembers_fit h), fun level => ?_⟩
  have hlen := (membersText_sublist hsub level).trans (entryMembers_length (C := C) h level)
  rw [Parson.serializeText]
  simp only [Bool.false_eq_true, and_false, if_false, List.length_append, List.length_cons,
    List.length_nil]
  omega

theorem itemsText_fits {fwds : List ApiHostfwd} {vs : List JsonValue}
    (h : ∀ fwd ∈ fwds, HostfwdWf fwd) (hvs : List.Forall₂ Partial fwds vs) (level : ℕ) :
    Parson.ItemsFit C vs ∧ (Parson.itemsText C false vs level).length ≤ 639 * fwds.length := by
  induction hvs with
  | nil => exact ⟨trivial, le_rfl⟩
  | @cons fwd v fwds vs hv _ ih =>
    obtain ⟨hfit, hlen⟩ := hv.fits (C := C) (h fwd List.mem_cons_self)
    obtain ⟨hfits, hlens⟩ := ih fun fwd hfwd => h fwd (List.mem_cons_of_mem _ hfwd)
    refine ⟨⟨hfit, hfits⟩, ?_⟩
    have hlen := hlen (level + 1)
    have hcomma : (if vs ≠ [] then ([44] : Bytes) else []).length ≤ 1 := by split <;> decide
    rw [Parson.itemsText, List.length_cons]
    simp only [Bool.false_eq_true, if_false, List.length_append, List.length_nil]
    omega

end

/-! ## The response -/

section
variable {C : Libc} {conn : Conn} {junk : ℕ → UInt8} {s : State L} {rest : Multiset ℕ}

/-- A text is written, and freed with the value. -/
theorem writeText_runs {v : HeapValue} (hv : v.Wf) (block : ℕ) (text : Bytes) :
    Runs (block ::ₘ (v.blocks + rest)) s (do
      heap (access block)
      let wrc ← onValues (writeResponse conn text)
      heap (free (some block))
      heap (Parson.jsonValueFreePtr (some v))
      return wrc : Api L ℤ)
      (Runs.Exactly (conn.writeRc (cstr text)) s
        [.write .conn (cstr text) (conn.writeRc (cstr text))] rest) := by
  refine access_bind (Multiset.mem_cons_self _ _) ?_
  refine values_bind (writeResponse_run conn _ _) ?_
  have hfree : Owned (block ::ₘ (v.blocks + rest)) (free (some block)) fun _ own bad =>
      own = v.blocks + rest ∧ bad = false := .free ⟨rfl, rfl⟩
  refine .inside_bind hfree fun _ own bad h => ?_
  obtain ⟨rfl, rfl⟩ := h
  have hfree' : Frees rest v.blocks (Parson.jsonValueFree v) :=
    (Parson.jsonValueFree_frees v hv.allocated).mono (Multiset.zero_le _)
  refine .inside_bind hfree' fun _ own bad h => ?_
  obtain ⟨rfl, rfl⟩ := h
  exact .pure ⟨rfl, rfl, rfl, rfl, rfl⟩

/-- A value is written and freed, or there is no memory for its text. -/
theorem writeRoot_runs {v : HeapValue} (hv : v.Wf) (hfit : Parson.NumbersFit C v.abs)
    (hlen : (Parson.serializeText C false v.abs 0).length ≤ Parson.countMax) :
    Runs (v.blocks + rest) s (writeRoot C junk conn (some v) : Api L ℤ)
      fun out s' es own bad => (out = .stop (.fault .nullPointer) ∧ bad = true) ∨
        ∃ text, text = cstr (Parson.serializeText C false v.abs 0) ∧
          out = .ret (conn.writeRc text) ∧ s' = s ∧
          es = [.write .conn text (conn.writeRc text)] ∧ own = rest ∧ bad = false := by
  refine .inside_bind ((Parson.jsonSerializeToString_owned junk hv hfit hlen).frame rest)
    fun r own bad hr => ?_
  obtain ⟨own, rfl, ⟨rfl, rfl, rfl⟩ | ⟨block, rfl, rfl, rfl⟩⟩ := hr
  · exact .stop (.inl ⟨rfl, rfl⟩)
  rw [Multiset.cons_add]
  refine (writeText_runs hv block _).conseq fun out s' es own bad h => ?_
  obtain ⟨rfl, rfl, rfl, rfl, rfl⟩ := h
  exact .inr ⟨_, cstr_append_nul _ _, rfl, rfl, rfl, rfl, rfl⟩

/-- A new array, or `NULL` for want of memory. -/
theorem jsonValueInitArray_owned (rest : Multiset ℕ) :
    Owned rest Parson.jsonValueInitArray fun r own bad =>
      (r = none ∧ own = rest ∧ bad = true) ∨ ∃ b array a, r = some (.mk b none (.array array a)) ∧
        own = b ::ₘ array ::ₘ a.blocks + rest ∧ bad = false ∧ ItemsOk a ∧ a.wrappingValue = b ∧
        Parson.itemsAbs a.items = [] := by
  refine (Parson.jsonValueInitArray_makes.frame rest |>.of_eq (zero_add _).symm).conseq ?_
  rintro r own bad ⟨own, rfl, ⟨rfl, rfl, rfl⟩ | ⟨w, rfl, rfl, rfl, hw, hparent, habs⟩⟩
  · exact .inl ⟨rfl, zero_add _, rfl⟩
  · obtain ⟨b, p, data⟩ := w
    obtain rfl : p = none := hparent
    cases data with
    | array array a =>
      obtain ⟨⟨hwrap, ha⟩, hvalues⟩ := HeapValue.wf_array.1 hw
      exact .inr ⟨b, array, a, rfl, by rw [Parson.blocks_array], rfl, ⟨ha, hvalues⟩, hwrap,
        JsonValue.array.inj habs⟩
    | _ => cases habs

/-- A list of which the text can be counted. -/
def ListFits (fwds : List ApiHostfwd) : Prop :=
  (∀ fwd ∈ fwds, HostfwdWf fwd) ∧ 639 * fwds.length + 32 ≤ Parson.countMax

/-- The value of a response, of which parts may be missing. -/
def RootValue (fwds : List ApiHostfwd) (v : JsonValue) : Prop :=
  v = .object [] ∨ ∃ vs, List.Forall₂ Partial fwds vs ∧ v = .object [(bytes "entries", .array vs)]

theorem RootValue.fits {fwds : List ApiHostfwd} (h : ListFits fwds) {v : JsonValue}
    (hv : RootValue fwds v) : Parson.NumbersFit C v ∧
      (Parson.serializeText C false v 0).length ≤ Parson.countMax := by
  rcases hv with rfl | ⟨vs, hvs, rfl⟩
  · exact ⟨trivial, (by decide : 2 ≤ Parson.countMax)⟩
  · obtain ⟨hfit, hlen⟩ := itemsText_fits (C := C) h.1 hvs (0 + 1)
    refine ⟨⟨hfit, trivial⟩, ?_⟩
    have hname : (Slirp4netns.jsonSerializeString (cstr (bytes "entries"))).length = 9 := by
      decide
    have hcount := h.2
    simp only [Parson.serializeText, Parson.membersText, Bool.false_eq_true, and_false, if_false,
      List.length_append, List.length_cons, List.length_nil, hname, ne_eq, not_true_eq_false]
    omega

/-- What the making of the response may do. -/
def RootMade (s : State L) (own : Multiset ℕ) (out : Outcome Halt (Option HeapValue))
    (s' : State L) (es : List Call) (own' : Multiset ℕ) (bad : Bool) : Prop :=
  (Exits out ∧ bad = true) ∨ (out = .ret none ∧ bad = true) ∨
    ∃ v leaked, out = .ret (some v) ∧ s' = s ∧ es = [] ∧ own' = v.blocks + (own + leaked) ∧ v.Wf ∧
      RootValue s.abs.ctx.hostfwds v.abs ∧
      (bad = false → leaked = 0 ∧ v.abs = listValue s.abs.ctx.hostfwds)

/-- `entries` is set in an empty object. -/
theorem setEntries_owned {o : ℕ} {t : ObjectTable HeapValue} (ht : t.Whole)
    (hmembers : t.members = []) {v : HeapValue} (hv : v.Wf) (hparent : v.parent = none) :
    Owned (v.blocks + (o ::ₘ t.blocks)) (jsonObjectSetValue (some (o, t)) (bytes "entries") (some v))
      fun r own bad => ∃ t' leaked, r = some (o, t') ∧ own = o ::ₘ t'.blocks + leaked ∧ t'.Whole ∧
        t'.wrappingValue = t.wrappingValue ∧
        ((bad = true ∧ t'.members = []) ∨
          (leaked = 0 ∧ bad = false ∧ t'.members = [(bytes "entries", v.abs)])) := by
  refine .reads_bind (.access (Multiset.mem_add.2 (.inr (Multiset.mem_cons_self _ _)))) le_rfl ?_
  have howned : Owned (v.blocks + t.blocks) (Parson.jsonObjectSetValue t (bytes "entries") v)
      (t.Stored (bytes "entries") v) :=
    ObjectTable.jsonObjectSetValue_owned ht.wf ht.allocated
  have hset := (howned.frame {o}).of_eq
    (show v.blocks + (o ::ₘ t.blocks) = v.blocks + t.blocks + {o} by
      rw [← Multiset.singleton_add]
      ac_rfl)
  refine hset.bind fun r own bad hr => ?_
  obtain ⟨own, rfl, hr⟩ := hr
  cases hr with
  | refused hp => simp [hparent] at hp
  | @failed t' wf entries wrap =>
    refine .pure ⟨t', v.blocks, rfl, ?_, ht.of_entries wf entries, wrap, .inl ⟨rfl, ?_⟩⟩
    · rw [← Multiset.singleton_add]
      ac_rfl
    · rw [ObjectTable.members_eq, entries, ← ObjectTable.members_eq, hmembers]
  | replaced hs =>
    have hslots : t.slots = [] := by
      rw [ObjectTable.members, Parson.slotsAbs_eq] at hmembers
      exact List.map_eq_nil_iff.1 hmembers
    rw [hslots] at hs
    cases hs
  | @added nameBlock t' he habsent =>
    refine .pure ⟨t', 0, rfl, ?_, ht.extended hv he, he.wrappingValue, .inr ⟨rfl, rfl, ?_⟩⟩
    · rw [add_zero, add_comm, Multiset.singleton_add]
    · rw [he.members_eq, hmembers]
      rfl

end

section
variable {s : State L} {own : Multiset ℕ}

/-- Without memory for the root, nothing is returned. -/
theorem makeRoot_noRoot (hctx : s.ctx.blocks ≤ own) :
    Runs own s (do
      let entriesValue ← heap Parson.jsonValueInitArray
      let rootObject ← heap (Parson.jsonValueGetObject none)
      let entriesArray ← heap (jsonValueGetArray entriesValue)
      let ctx ← readCtx
      let entriesArray ← listEntries ctx.hostfwds entriesArray
      let rootObject ← heap (jsonObjectSetValue rootObject (bytes "entries")
        (withArray entriesValue entriesArray))
      return withObject none rootObject : Api L (Option HeapValue))
      fun out _ _ _ _ => Exits out ∨ out = .ret none := by
  have hnodes : nodeBlocks s.ctx.hostfwds ⊆ own := fun b hb => Multiset.mem_of_le hctx
    (Multiset.mem_cons_of_mem (Multiset.mem_cons_of_mem hb))
  have hblock : s.ctx.block ∈ own := Multiset.mem_of_le hctx s.ctx.block_mem
  refine .inside_bind (jsonValueInitArray_owned own) fun r own' bad hr => ?_
  refine .reads_bind .pure (Multiset.zero_le _) ?_
  rcases hr with ⟨rfl, rfl, rfl⟩ | ⟨b, array, a, rfl, rfl, rfl, ha, -, -⟩
  · refine .reads_bind .pure (Multiset.zero_le _) (readCtx_bind hblock ?_)
    refine (listEntries_none hnodes).bind (fun why s' es own bad h => ?_)
      fun r s' es own bad h => ?_
    · rcases h with h | h
      · exact .inl h.cast
      · cases h.1
    · exact .reads_bind .pure (Multiset.zero_le _) (.pure (.inr rfl))
  · refine .reads_bind (.bind (.access (Multiset.mem_add.2 (.inl (Multiset.mem_cons_self _ _))))
      .pure) le_rfl (readCtx_bind (Multiset.mem_add.2 (.inr hblock)) ?_)
    have hsub : nodeBlocks s.ctx.hostfwds ⊆ b ::ₘ own :=
      fun c hc => Multiset.mem_cons_of_mem (hnodes hc)
    have hlist := listEntries_some (s := s) hsub array ha
    refine (hlist.of_eq ?_).bind (fun why s' es own bad h => ?_) fun r s' es own bad h => ?_
    · simp only [← Multiset.singleton_add]
      ac_rfl
    · rcases h with h | ⟨a', vs, hr, -⟩
      · exact .inl h.1.cast
      · cases hr
    · exact .reads_bind .pure (Multiset.zero_le _) (.pure (.inr rfl))

theorem makeRoot_runs (hctx : s.ctx.blocks ≤ own) :
    Runs own s (makeRoot : Api L (Option HeapValue)) (RootMade s own) := by
  have hnodes : nodeBlocks s.ctx.hostfwds ⊆ own := fun b hb => Multiset.mem_of_le hctx
    (Multiset.mem_cons_of_mem (Multiset.mem_cons_of_mem hb))
  have hblock : s.ctx.block ∈ own := Multiset.mem_of_le hctx s.ctx.block_mem
  refine .inside_bind (jsonValueInitObject_owned own) fun r own' bad hr => ?_
  rcases hr with ⟨rfl, rfl, rfl⟩ | ⟨b, o, t, rfl, rfl, rfl, ht, rfl, hmembers⟩
  · refine (makeRoot_noRoot hctx).conseq fun out s' es own bad h => ?_
    rw [Bool.true_or]
    exact h.imp (fun h => ⟨h, rfl⟩) fun h => .inl ⟨h, rfl⟩
  have hobject : ∀ t' : ObjectTable HeapValue, t'.Whole → t'.wrappingValue = t.wrappingValue →
      (HeapValue.mk t.wrappingValue none (.object o t')).Wf := fun t' h hwrap =>
    HeapValue.wf_object.2 ⟨⟨hwrap, h.wf⟩, h.slots⟩
  refine .inside_bind (jsonValueInitArray_owned _) fun r own' bad hr => ?_
  rcases hr with ⟨rfl, rfl, rfl⟩ | ⟨b', array, a, rfl, rfl, rfl, ha, rfl, hempty⟩
  · refine .reads_bind (.bind (.access (Multiset.mem_add.2 (.inl (Multiset.mem_cons_self _ _))))
      .pure) le_rfl (.reads_bind .pure (Multiset.zero_le _)
        (readCtx_bind (Multiset.mem_add.2 (.inr hblock)) ?_))
    refine (listEntries_none fun c hc => Multiset.mem_add.2 (.inr (hnodes hc))).bind
      (fun why s' es own bad h => ?_) fun r s' es own' bad h => ?_
    · rcases h with h | h
      · exact .inl ⟨h.cast, rfl⟩
      · cases h.1
    · rcases h with ⟨why, hwhy⟩ | ⟨hr, rfl, rfl, rfl⟩
      · cases hwhy
      cases hr
      refine .reads_bind .pure (Multiset.zero_le _) (.pure (.inr (.inr ?_)))
      refine ⟨_, 0, rfl, rfl, rfl, ?_, hobject t ht rfl, .inl ?_, fun h => by cases h⟩
      · rw [Parson.blocks_object, add_zero]
      · rw [Parson.object_abs, hmembers]
  · have hroot : t.wrappingValue ∈ a.wrappingValue ::ₘ array ::ₘ a.blocks +
        (t.wrappingValue ::ₘ o ::ₘ t.blocks + own) :=
      Multiset.mem_add.2 (.inr (Multiset.mem_add.2 (.inl (Multiset.mem_cons_self _ _))))
    refine .reads_bind (.bind (.access hroot) .pure) le_rfl (.reads_bind (.bind (.access
      (Multiset.mem_add.2 (.inl (Multiset.mem_cons_self _ _)))) .pure) le_rfl
        (readCtx_bind (Multiset.mem_add.2 (.inr (Multiset.mem_add.2 (.inr hblock)))) ?_))
    have hsub : nodeBlocks s.ctx.hostfwds ⊆
        a.wrappingValue ::ₘ (t.wrappingValue ::ₘ o ::ₘ t.blocks + own) :=
      fun c hc => Multiset.mem_cons_of_mem (Multiset.mem_add.2 (.inr (hnodes hc)))
    have hlist := listEntries_some (s := s) hsub array ha
    refine (hlist.of_eq ?_).bind (fun why s' es own bad h => ?_) fun r s' es own' bad h => ?_
    · simp only [← Multiset.singleton_add]
      ac_rfl
    · rcases h with h | ⟨a', vs, hr, -⟩
      · exact .inl ⟨h.1.cast, h.2⟩
      · cases hr
    · rcases h with ⟨⟨why, hwhy⟩, -⟩ | ⟨a', vs, hr, rfl, rfl, rfl, ha', hwrap, hitems, hpart, hfull⟩
      · cases hwhy
      cases hr
      rw [hempty, List.nil_append] at hitems
      have hv : (HeapValue.mk a.wrappingValue none (.array array a')).Wf :=
        HeapValue.wf_array.2 ⟨⟨hwrap, ha'.wf⟩, ha'.values⟩
      have hset := (setEntries_owned (o := o) ht hmembers hv rfl).frame (t.wrappingValue ::ₘ own)
      refine .inside_bind (hset.of_eq ?_) fun r own' bad' hr => ?_
      · rw [Parson.blocks_array]
        simp only [← Multiset.singleton_add]
        ac_rfl
      obtain ⟨own', rfl, t', leaked, rfl, rfl, ht', hwrap', hcases⟩ := hr
      refine .pure (.inr (.inr ⟨_, leaked, rfl, rfl, rfl, ?_, hobject t' ht' hwrap', ?_, ?_⟩))
      · rw [Parson.blocks_object]
        simp only [← Multiset.singleton_add]
        ac_rfl
      · rw [Parson.object_abs]
        rcases hcases with ⟨-, hm⟩ | ⟨-, -, hm⟩
        · exact .inl (by rw [hm])
        · refine .inr ⟨vs, hpart, ?_⟩
          rw [hm, HeapValue.abs, Parson.JsonData.abs, hitems]
      · intro hbad
        rcases hcases with ⟨rfl, -⟩ | ⟨rfl, rfl, hm⟩
        · simp at hbad
        · refine ⟨rfl, ?_⟩
          rw [Parson.object_abs, hm, HeapValue.abs, Parson.JsonData.abs, hitems,
            hfull (by simpa using hbad)]
          rfl

end

section
variable {C : Libc} {conn : Conn} {junk : ℕ → UInt8} {s : State L} {keep : Multiset ℕ}

theorem listValue_plain {fwds : List ApiHostfwd} (h : ∀ fwd ∈ fwds, HostfwdWf fwd) :
    (listValue fwds).Plain 4 := Reply.value_plain (show Reply.Wf (.listed fwds) from h) 0

theorem apiHandleReqListHostfwd_answers (h : ListFits s.abs.ctx.hostfwds) :
    Runs (s.ctx.blocks + keep) s (apiHandleReqListHostfwd C junk conn)
      (Answers s keep True ((Slirp4netns.apiHandleReqListHostfwd C conn).run s.abs)) := by
  rw [Slirp4netns.apiHandleReqListHostfwd_run]
  have hnull : ∀ {s' : State L} {es : List Call} {own : Multiset ℕ}
      {r : Ran (ApiState L) Call Stop ℤ},
      Answers s keep True r (.stop (.fault .nullPointer)) s' es own true :=
    .died fun f hf => ⟨(Halt.fault.inj hf).symm, trivial⟩
  refine (makeRoot_runs (Multiset.le_add_right _ _)).bind (fun why s' es own bad hr => ?_)
    fun r s' es own bad hr => ?_
  · rcases hr with ⟨⟨why', hwhy⟩, rfl⟩ | ⟨hr, -⟩ | ⟨v, leaked, hr, -⟩
    · cases hwhy
      exact .died fun f hf => Halt.noConfusion hf
    · cases hr
    · cases hr
  · rcases hr with ⟨⟨why', hwhy⟩, -⟩ | ⟨hr, rfl⟩ | ⟨v, leaked, hr, rfl, rfl, rfl, hv, hroot, hfull⟩
    · cases hwhy
    · cases hr
      exact .stop hnull
    · cases hr
      obtain ⟨hfit, hlen⟩ := hroot.fits (C := C) h
      refine (writeRoot_runs hv hfit hlen).conseq fun out s' es own bad' hr => ?_
      rcases hr with ⟨rfl, rfl⟩ | ⟨text, htext, rfl, rfl, rfl, rfl, rfl⟩
      · rw [Bool.or_true]
        exact hnull
      rw [Bool.or_false, List.nil_append]
      cases bad with
      | true => exact .starved rfl (by rw [add_assoc])
      | false =>
        obtain ⟨rfl, habs⟩ := hfull rfl
        refine .same ?_ (by rw [add_zero])
        have hreply : text = (Reply.listed s'.abs.ctx.hostfwds).text C := by
          rw [htext, habs, Parson.serializeText_compact (listValue_plain h.1)]
          rfl
        rw [hreply]
        rfl

/-- There is no memory for the object of the response, or for its text. -/
def NoText (x : Heap × State L) : Prop :=
  ∃ root, ((makeRoot : Api L (Option HeapValue)).run x).out = .ret root ∧
    (root = none ∨
      let heap := ((makeRoot : Api L (Option HeapValue)).run x).st.1
      heap.fails heap.next = true)

/-- `strlen` is given `NULL` exactly if there is no memory for the text. -/
theorem writeRoot_null_iff {v : HeapValue} {h : Heap} (hv : v.Wf) (hlive : v.blocks ≤ h.live)
    (hfit : Parson.NumbersFit C v.abs)
    (hlen : (Parson.serializeText C false v.abs 0).length ≤ Parson.countMax) :
    ((writeRoot C junk conn (some v) : Api L ℤ).run (h, s)).out = .stop (.fault .nullPointer) ↔
      h.fails h.next = true := by
  rw [← Parson.jsonSerializeToString_none_iff junk hv hlive hfit hlen, writeRoot]
  have hheap {r : StringPtr}
      (hr : ((Parson.jsonSerializeToString C false junk v).run h).out = .ret r) :
      (heap (serializePtr C junk (some v)) : Api L StringPtr).run (h, s) =
        ⟨.ret r, (((Parson.jsonSerializeToString C false junk v).run h).st, s), []⟩ :=
    inside_of_ret hr
  obtain ⟨frame, hframe⟩ := Multiset.le_iff_exists_add.1 hlive
  obtain ⟨r, own, bad, hout, hr, hown, -⟩ :=
    Parson.jsonSerializeToString_owned junk hv hfit hlen h frame hframe
  rcases hr with ⟨rfl, -, -⟩ | ⟨block, rfl, rfl, -⟩
  · rw [Prog.bind_of_ret (hheap hout)]
    exact iff_of_true rfl hout
  · rw [← add_zero v.blocks] at hown
    obtain ⟨own, bad, ⟨hret, -⟩, -⟩ := @writeText_runs L conn s 0 v hv block
      (Parson.serializeText C false v.abs 0 ++ [0]) _ frame hown
    rw [Prog.bind_of_ret (hheap hout)]
    refine iff_of_false (fun hnull => ?_) fun hnone => ?_
    · cases hret.symm.trans hnull
    · rw [hout] at hnone
      cases hnone

/-- **When `strlen` is given `NULL`**: exactly if there is no memory for the object of the response
    or for its text. -/
theorem apiHandleReqListHostfwd_null_iff (h : ListFits s.abs.ctx.hostfwds) {heap : Heap}
    (hlive : s.ctx.blocks ≤ heap.live) :
    ((apiHandleReqListHostfwd C junk conn).run (heap, s)).out = .stop (.fault .nullPointer) ↔
      NoText (heap, s) := by
  obtain ⟨frame, hframe⟩ := Multiset.le_iff_exists_add.1 hlive
  obtain ⟨own, bad, hmade, hown, -⟩ := makeRoot_runs (s := s) le_rfl heap frame hframe
  rw [apiHandleReqListHostfwd, NoText]
  rcases hrun : (makeRoot : Api L (Option HeapValue)).run (heap, s) with ⟨out, ⟨heap', s'⟩, es⟩
  rw [hrun] at hmade hown
  rcases hmade with ⟨⟨why, hwhy⟩, -⟩ | ⟨hout, -⟩ | ⟨v, leaked, hout, hs, -, hblocks, hv, hroot, -⟩
  · -- the process exits before
    obtain rfl : out = .stop (.stop why) := hwhy
    rw [Prog.bind_of_stop hrun]
    refine iff_of_false (fun hnull => Halt.noConfusion (Outcome.stop.inj hnull)) ?_
    rintro ⟨root, hroot, -⟩
    cases hroot
  · obtain rfl : out = .ret none := hout
    rw [Prog.bind_of_ret hrun]
    exact iff_of_true rfl ⟨none, rfl, .inl rfl⟩
  · obtain rfl : out = .ret (some v) := hout
    obtain ⟨hfit, hlen⟩ := hroot.fits (C := C) h
    have hv_live : v.blocks ≤ heap'.live := by
      rw [show heap'.live = own + frame from hown, hblocks, add_assoc]
      exact Multiset.le_add_right _ _
    rw [Prog.bind_of_ret hrun]
    refine (writeRoot_null_iff hv hv_live hfit hlen).trans ⟨fun hfails => ⟨_, rfl, .inr hfails⟩, ?_⟩
    rintro ⟨root, hroot, hnone | hfails⟩
    · cases hroot
      cases hnone
    · exact hfails

end

end Slirp4netns.ApiHeap
