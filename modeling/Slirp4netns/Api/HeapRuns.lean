/-
  slirp4netns formalization — runs of API requests in memory.

  `apiHandler_answers` is what one connection does, whatever the client sends and
  whichever allocations fail.  `heapRun_ledger` is about whole runs, from
  `api_ctx_alloc` to `api_ctx_free`: the only error in the use of memory is the use of
  `NULL`, by `strcmp` for an `add_hostfwd` without `proto` and by `strlen` for a
  `list_hostfwd` without memory for the response (`NoText`).  As long as no allocation
  has failed the run is one of `Api.Registry`, with two blocks for the context and two
  for each listed forward, all of which are freed at the end.
-/
import Slirp4netns.Api.Listing
import Slirp4netns.Api.Message

namespace Slirp4netns.ApiHeap

open HeapProg
open Parson (HeapValue ObjectTable ObjectIn ValueIn)

variable {L : Libslirp} {α β : Type}

/-! ## Composition -/

section
variable {s s₁ : State L} {own keep : Multiset ℕ} {null : Prop}

/-- Calls before a part of the code. -/
theorem Answers.after {r : Ran (ApiState L) Call Stop α} {out : Outcome Halt α} {s' : State L}
    {es es' : List Call} {bad : Bool} (h : Answers s₁ keep null r out s' es' own bad)
    (hreg : s₁.abs.registry = s.abs.registry) :
    Answers s keep null (r.after es) out s' (es ++ es') own bad := by
  cases h with
  | same hr hown => exact .same (by rw [hr]; rfl) hown
  | stopped hr hcalls =>
    exact .stopped hr (by rw [← hcalls]; rfl)
  | starved hreg' hown => exact .starved (hreg'.trans hreg) hown
  | died hwhy => exact .died hwhy

/-- Code at the end that makes calls and changes nothing. -/
theorem answers_tail {p : Api L α} {p' : Slirp4netns.Api L α} {q : α → Api L β}
    {r : α → Slirp4netns.Api L β} {f : α → β} {e : List Call}
    (hp : Runs own s p (Answers s keep null (p'.run s.abs)))
    (hq : ∀ a s' own', Runs own' s' (q a) (Runs.Exactly (f a) s' e own'))
    (htail : ∀ a t, (r a).run t = ⟨.ret (f a), t, e⟩) :
    Runs own s (p >>= q) (Answers s keep null ((p' >>= r).run s.abs)) := by
  refine hp.bind (fun why s' es' own' bad h => ?_) fun a s' es' own' bad h => ?_
  · cases h with
    | stopped hr hcalls =>
      rcases hrun : p'.run s.abs with ⟨out, t, calls⟩
      rw [hrun] at hr hcalls
      obtain rfl : out = _ := hr
      obtain rfl : calls = _ := hcalls
      exact .stopped (by rw [Prog.bind_of_stop hrun]) (by rw [Prog.bind_of_stop hrun])
    | died hwhy => exact .died hwhy
  · refine (hq a s' own').conseq fun out s'' es'' own'' bad' h' => ?_
    obtain ⟨rfl, rfl, rfl, rfl, rfl⟩ := h'
    cases h with
    | same hr hown =>
      refine .same ?_ hown
      rw [Prog.bind_of_ret hr, htail]
      rfl
    | starved hreg hown => exact .starved hreg hown

/-- A request is freed at the end. -/
theorem answers_free {p : Api L α} {r : Ran (ApiState L) Call Stop α} {v : HeapValue} (hv : v.Wf)
    (hp : Runs own s p (Answers s (v.blocks + keep) null r)) :
    Runs own s (do
      let a ← p
      heap (Parson.jsonValueFree v)
      return a) (Answers s keep null r) := by
  have hfree : ∀ rest, Frees rest v.blocks (Parson.jsonValueFree v) := fun rest =>
    (Parson.jsonValueFree_frees v hv.allocated).mono (Multiset.zero_le _)
  refine hp.bind (fun why s' es own' bad h => ?_) fun a s' es own' bad h => ?_
  · cases h with
    | stopped hr hcalls => exact .stopped hr hcalls
    | died hwhy => exact .died hwhy
  · cases h with
    | same hr hown =>
      refine .inside_bind (Owned.of_eq (hfree (s'.ctx.blocks + keep)) ?_) fun _ own bad h => ?_
      · rw [hown]
        ac_rfl
      · obtain ⟨rfl, rfl⟩ := h
        exact .pure (.same (by rw [hr, List.append_nil]) rfl)
    | @starved _ _ _ _ leaked hreg hown =>
      refine .inside_bind (Owned.of_eq (hfree (s'.ctx.blocks + keep + leaked)) ?_)
        fun _ own bad h => ?_
      · rw [hown]
        ac_rfl
      · obtain ⟨rfl, rfl⟩ := h
        exact .pure (.starved hreg rfl)

end

/-! ## One request -/

section
variable {C : Libc} {conn : Conn} {junk : ℕ → UInt8} {s : State L} {keep : Multiset ℕ}
  {null : Prop}

/-- A response that is written and changes nothing. -/
theorem writeResponse_answers (text : Bytes) :
    Runs (s.ctx.blocks + keep) s (onValues (writeResponse conn text))
      (Answers s keep null ((writeResponse conn text).run s.abs)) :=
  values (writeResponse_run conn text _) (.same rfl rfl)

theorem handleParsed_answers (hlist : ListFits s.abs.ctx.hostfwds) {jv : HeapValue} (hv : jv.Wf)
    (hnull : ∀ jo, jsonValueGetObject (some jv.abs) = some jo →
      jsonObjectGetString jo (bytes "execute") = some (bytes "list_hostfwd") → null) :
    Runs (s.ctx.blocks + (jv.blocks + keep)) s (handleParsed C junk conn jv)
      (Answers s (jv.blocks + keep) null ((handleValue C conn jv.abs).run s.abs)) := by
  have hin : ValueIn (jv.blocks + keep) (some jv) := by
    rintro v hv'
    cases hv'
    exact ⟨hv, fun b hb => Multiset.mem_add.2 (.inl hb)⟩
  have hle : jv.blocks + keep ≤ s.ctx.blocks + (jv.blocks + keep) := Multiset.le_add_left _ _
  obtain ⟨jo, hjo, hjoIn, hmembers⟩ := Parson.jsonValueGetObject_reads hin
  rw [← show Option.map HeapValue.abs (some jv) = some jv.abs from rfl, ← hmembers] at hnull
  rw [handleValue, ← show Option.map HeapValue.abs (some jv) = some jv.abs from rfl, ← hmembers]
  refine .reads_bind hjo hle ?_
  rcases jo with _ | ⟨o, t⟩
  · exact writeResponse_answers _
  obtain ⟨execute, hexecute, hexecuteIn, htext⟩ :=
    Parson.jsonObjectGetString_reads hjoIn (bytes "execute")
  refine .reads_bind hexecute hle ?_
  simp only [Parson.ObjectPtr.members, Option.map_some, ← htext]
  replace hnull := hnull t.members rfl
  rw [← htext] at hnull
  rcases execute with _ | ⟨b, chars⟩
  · exact writeResponse_answers _
  refine access_bind (Multiset.mem_of_le hle (hexecuteIn _ rfl)) ?_
  simp only [Parson.StringPtr.text, Option.map_some] at hnull ⊢
  refine .ite (fun hadd => ?_) fun hadd => ?_
  · rw [if_pos hadd]
    exact apiHandleReqAddHostfwd_answers hjoIn
  rw [if_neg hadd]
  refine .ite (fun h => ?_) fun h => ?_
  · rw [if_pos h]
    refine (apiHandleReqListHostfwd_answers hlist).conseq fun out s' es own bad ha => ?_
    exact ha.mono fun _ => hnull (congrArg some (strcmp_eq_zero.1 h))
  rw [if_neg h]
  refine .ite (fun hremove => ?_) fun hremove => ?_
  · rw [if_pos hremove]
    exact apiHandleReqRemoveHostfwd_answers hjoIn
  · rw [if_neg hremove]
    exact writeResponse_answers _

theorem parsedRequest_list {data : Bytes} {jv : JsonValue} {jo : JsonObject}
    (hparse : jsonParseString C data = some jv) (hjo : jsonValueGetObject (some jv) = some jo)
    (hexecute : jsonObjectGetString jo (bytes "execute") = some (bytes "list_hostfwd")) :
    parsedRequest C data = .list := by
  have hadd : bytes "list_hostfwd" ≠ bytes "add_hostfwd" := by decide
  simp only [parsedRequest, hparse, hjo, hexecute, if_neg hadd, if_true]

theorem apiHandleReq_answers (hlist : ListFits s.abs.ctx.hostfwds) :
    Runs (s.ctx.blocks + keep) s (apiHandleReq C junk conn)
      (Answers s keep (parsedRequest C s.ctx.buf = .list)
        ((Slirp4netns.apiHandleReq C conn).run s.abs)) := by
  have hbuf : s.abs.ctx.buf = s.ctx.buf := rfl
  rw [Slirp4netns.apiHandleReq, Prog.state_bind_run, hbuf]
  refine readCtx_bind (Multiset.mem_add.2 (.inl s.ctx.block_mem))
    (access_bind (Multiset.mem_add.2 (.inl s.ctx.bufBlock_mem)) ?_)
  have hparse := ((Parson.jsonParseString_owned C s.ctx.buf).frame (s.ctx.blocks + keep)).of_eq
    (zero_add _).symm
  refine .inside_bind hparse fun r own bad hr => ?_
  obtain ⟨own, rfl, ⟨rfl, rfl, hwhy⟩ | ⟨jv, rfl, rfl, rfl, hv, -, habs⟩⟩ := hr
  · cases bad with
    | true =>
      rw [zero_add]
      exact values (writeResponse_run conn _ _) (.starved rfl (add_zero _).symm)
    | false =>
      rw [hwhy.resolve_left Bool.false_ne_true, zero_add]
      exact writeResponse_answers _
  · rw [habs]
    refine Runs.of_eq (answers_free hv (handleParsed_answers hlist hv fun jo => ?_)) ?_
    · exact parsedRequest_list habs
    · ac_rfl

/-! ## One connection -/

/-- The message is in the buffer. -/
theorem serveMessage_answers (hlist : ListFits s.abs.ctx.hostfwds) {len : ℕ}
    (hlen : len < s.ctx.buflen) (hnull : parsedRequest C (s.ctx.buf.set len 0) = .list → null) :
    Runs (s.ctx.blocks + keep) s (do
      onValues (terminateRequest len)
      let ctx ← readCtx
      heap (access ctx.bufBlock)
      other (Prog.call (.fprintf (bytes "api_handler: got request: " ++ cstr ctx.buf ++
        bytes "\n")))
      let wrc ← apiHandleReq C junk conn
      return (0, wrc) : Api L (ℤ × ℤ))
      (Answers s keep null ((do
        terminateRequest len
        let buf := (← Prog.state).ctx.buf
        Prog.call (.fprintf (bytes "api_handler: got request: " ++ cstr buf ++ bytes "\n"))
        let wrc ← Slirp4netns.apiHandleReq C conn
        return (0, wrc) : Slirp4netns.Api L (ℤ × ℤ)).run s.abs)) := by
  let t : ApiState L := { s.abs with ctx := s.abs.ctx.terminate len }
  have hterm : (terminateRequest len).run s.abs = ⟨.ret (), t, []⟩ := if_pos hlen
  have habs : (s.withValues t).abs = t := State.abs_withValues rfl
  refine values_bind hterm (readCtx_bind (Multiset.mem_add.2 (.inl s.ctx.block_mem))
    (access_bind (Multiset.mem_add.2 (.inl s.ctx.bufBlock_mem)) (call_bind ?_)))
  rw [Prog.bind_of_ret hterm, Ran.after_nil, Prog.state_bind_run, Prog.call_bind_run, ← habs]
  have hserve := answers_tail (f := fun wrc : ℤ => ((0, wrc) : ℤ × ℤ)) (e := [])
    (q := fun wrc => pure (0, wrc)) (r := fun wrc => pure (0, wrc))
    (@apiHandleReq_answers L C conn junk (s.withValues t) keep (by rw [habs]; exact hlist))
    (fun _ _ _ => .pure ⟨rfl, rfl, rfl, rfl, rfl⟩) fun _ _ => rfl
  exact hserve.conseq fun out s' es own bad h => (h.mono hnull).after (by rw [habs]; rfl)

theorem serveRequest_answers (hlist : ListFits s.abs.ctx.hostfwds) :
    Runs (s.ctx.blocks + keep) s (serveRequest C junk conn)
      (Answers s keep (∃ data, conn.readBytes 4096 = some data ∧ requestOf C data = .list)
        ((Slirp4netns.serveRequest C conn).run s.abs)) := by
  refine readCtx_bind (Multiset.mem_add.2 (.inl s.ctx.block_mem))
    (access_bind (Multiset.mem_add.2 (.inl s.ctx.bufBlock_mem)) ?_)
  rw [Slirp4netns.serveRequest]
  cases hd : conn.readBytes 4096 with
  | none =>
    have hread := readRequest_failed conn hd (s := s.abs)
    rw [Prog.bind_of_ret hread]
    exact values_bind hread (call_bind (.pure (.same rfl rfl)))
  | some data =>
    obtain ⟨h, hread⟩ := readRequest_run conn hd (s := s.abs)
    rw [Prog.bind_of_ret hread]
    dsimp only
    rw [Prog.state_bind_run]
    let t : ApiState L := { s.abs with ctx := s.abs.ctx.store data h }
    have habs : (s.withValues t).abs = t := State.abs_withValues rfl
    have hbuflen : (s.abs.ctx.store data h).buflen = s.ctx.buflen := rfl
    rw [hbuflen]
    refine values_bind hread (.ite (fun hlen => ?_) fun hlen => ?_)
    · rw [if_pos hlen]
      exact call_bind (values_bind (writeResponse_run conn _ _) (.pure (.same rfl rfl)))
    · rw [if_neg hlen]
      have hlt : data.length < s.ctx.buflen := Nat.lt_of_le_of_ne h hlen
      have hsmall : data.length ≠ 4096 := by rw [← s.ctx.buflen_eq]; exact hlen
      have hserve := @serveMessage_answers L C conn junk (s.withValues t) keep
        (requestOf C data = .list) (by rw [habs]; exact hlist) _ hlt fun hreq => by
          rw [requestOf, if_neg hsmall, ← parsedRequest_cstr,
            ← cstr_terminated (hlt.trans_eq s.ctx.buf_length.symm), parsedRequest_cstr]
          exact hreq
      refine hserve.conseq fun out s' es own bad h => ?_
      rw [habs] at h
      exact (h.mono fun hreq => ⟨data, rfl, hreq⟩).after (by rw [habs]; rfl)

/-- **What a connection does in memory, it does on values.** -/
theorem apiHandler_answers (hlist : ListFits s.abs.ctx.hostfwds) :
    Runs (s.ctx.blocks + keep) s (apiHandler C junk conn)
      (Answers s keep (conn.Asks C (· = .list))
        ((Slirp4netns.apiHandler C conn).run s.abs)) := by
  rw [Slirp4netns.apiHandler, Prog.call_bind_run]
  refine call_bind (.ite (fun h => ?_) fun h => ?_)
  · rw [if_pos h]
    exact call_bind (.pure (.same rfl rfl))
  · rw [if_neg h]
    have htail := answers_tail (f := fun r : ℤ × ℤ => if r.1 = 0 ∧ r.2 ≠ 0 then r.2 else r.1)
      (e := [.shutdown .conn, .close .conn])
      (q := fun r => do
        other (Prog.call (.shutdown .conn))
        other (Prog.call (.close .conn))
        return if r.1 = 0 ∧ r.2 ≠ 0 then r.2 else r.1)
      (r := fun r => do
        Prog.call (.shutdown .conn)
        Prog.call (.close .conn)
        return if r.1 = 0 ∧ r.2 ≠ 0 then r.2 else r.1)
      (@serveRequest_answers L C conn junk s keep hlist)
      (fun _ _ _ => call_bind (call_bind (.pure ⟨rfl, rfl, rfl, rfl, rfl⟩))) fun _ _ => rfl
    refine htail.conseq fun out s' es own bad ha => (ha.mono fun hread => ?_).after rfl
    obtain ⟨data, hdata, hreq⟩ := hread
    exact ⟨data, Conn.message_eq_some.2 ⟨not_lt.1 h, hdata⟩, hreq⟩

end

/-! ## Runs -/

/-- The text of a response with so many forwards has a length that is an `int`. -/
def maxListed : ℕ := 3360000

/-- One `api_handler` that returns, with anything in the memory that it allocates. -/
def HeapStep (C : Libc) (x : Heap × State L) (h : Handled) (x' : Heap × State L) : Prop :=
  x.2.ctx.hostfwds.length ≤ maxListed ∧
    ∃ junk, (apiHandler C junk h.conn).run x = ⟨.ret h.rc, x', h.calls⟩

/-- What holds along a run that started on a heap with the blocks `base`. -/
structure Ledger (C : Libc) (start : ApiStart L) (base : Multiset ℕ) (hs : List Handled)
    (x : Heap × State L) : Prop where
  wf : ∀ fwd ∈ x.2.abs.ctx.hostfwds, HostfwdWf fwd
  live : ∃ leaked, x.1.live = x.2.ctx.blocks + leaked + base ∧
    (x.1.failed = false → leaked = 0 ∧ ApiRun C start hs x.2.abs)

theorem ApiStep.wf {C : Libc} {s s' : ApiState L} {h : Handled} (hs : ApiStep C s h s')
    (hwf : ∀ fwd ∈ s.ctx.hostfwds, HostfwdWf fwd) : ∀ fwd ∈ s'.ctx.hostfwds, HostfwdWf fwd := by
  rcases hs.cases.2 with ⟨-, rfl, -⟩ | ⟨data, calls, reply, -, hserve, -⟩
  · exact hwf
  · intro e he
    rcases (serve_serves hserve).mem he with he | ⟨jo, fwd, -, hc, rfl⟩
    · exact hwf e he
    · exact HostfwdWf.of_accept hc s.ctx.nextid_isInt

section
variable {C : Libc} {start : ApiStart L} {base : Multiset ℕ} {hs : List Handled}
  {x x' : Heap × State L}

theorem listFits_of_length {s : State L} (hwf : ∀ fwd ∈ s.abs.ctx.hostfwds, HostfwdWf fwd)
    (hlen : s.ctx.hostfwds.length ≤ maxListed) : ListFits s.abs.ctx.hostfwds := by
  have hmap : s.abs.ctx.hostfwds.length = s.ctx.hostfwds.length := List.length_map _
  have hmax : Parson.countMax = 2147483647 := rfl
  refine ⟨hwf, ?_⟩
  rw [hmap, hmax]
  unfold maxListed at hlen
  omega

theorem Ledger.step (h : Ledger C start base hs x) {hd : Handled} (hstep : HeapStep C x hd x') :
    Ledger C start base (hs ++ [hd]) x' := by
  obtain ⟨hwf, leaked, hlive, hrun⟩ := h
  obtain ⟨hlen, junk, hstep⟩ := hstep
  obtain ⟨heap, s⟩ := x
  obtain ⟨own, bad, hanswers, hlive', hfailed⟩ := @apiHandler_answers L C hd.conn junk s
    leaked (listFits_of_length hwf hlen) heap base hlive
  rw [hstep] at hanswers hlive' hfailed
  simp only at hanswers hlive' hfailed
  generalize hr : (Slirp4netns.apiHandler C hd.conn).run s.abs = r at hanswers
  cases hanswers with
  | same hsame hown =>
    have hstep' : ApiStep C s.abs hd x'.2.abs := hr.trans hsame
    refine ⟨ApiStep.wf hstep' hwf, leaked, by rw [hlive', hown], fun hok => ?_⟩
    rw [hfailed, Bool.or_false] at hok
    exact ⟨(hrun hok).1, .snoc (hrun hok).2 hstep'⟩
  | @starved _ _ _ _ more hreg hown =>
    refine ⟨?_, leaked + more, by rw [hlive', hown, add_assoc x'.2.ctx.blocks], fun hok => ?_⟩
    · have hfwds : x'.2.abs.ctx.hostfwds = s.abs.ctx.hostfwds :=
        congrArg Registry.hostfwds hreg
      rw [hfwds]
      exact hwf
    · rw [hfailed, Bool.or_true] at hok
      cases hok

theorem Halt.of_eq_fault {why : Stop} {f : Fault} : Halt.of why = .fault f ↔
    (why = .nullPointer ∧ f = .nullPointer) ∨ (why = .outOfBounds ∧ f = .outOfBounds) := by
  cases why <;> simp [Halt.of, eq_comm]

/-- The only error in the use of memory is the use of `NULL`: by `strcmp`, or by `strlen` after an
    allocation has failed. -/
theorem Answers.fault_iff {s s' : State L} {keep own : Multiset ℕ} {conn : Conn} {bad : Bool}
    {out : Outcome Halt ℤ} {calls : List Call}
    (h : Answers s keep (conn.Asks C (· = .list)) ((Slirp4netns.apiHandler C conn).run s.abs)
      out s' calls own bad) :
    (∀ f, out = .stop (.fault f) → f = .nullPointer) ∧
    (bad = false → (out = .stop (.fault .nullPointer) ↔ conn.Asks C Request.NoProto)) ∧
    (bad = true → out = .stop (.fault .nullPointer) → conn.Asks C (· = .list)) := by
  rw [← apiHandler_nullPointer_iff (s := s.abs)]
  generalize hr : (Slirp4netns.apiHandler C conn).run s.abs = r at h
  cases h with
  | same hsame hown => simp [hsame]
  | starved hreg hown => simp
  | died hwhy =>
    refine ⟨fun f hf => (hwhy f (Outcome.stop.inj hf)).1, Bool.noConfusion, fun _ hf => ?_⟩
    exact (hwhy _ (Outcome.stop.inj hf)).2
  | @stopped why _ _ _ hstop hcalls =>
    have hbounds : why ≠ .outOfBounds := by
      rintro rfl
      exact apiHandler_ne_outOfBounds (hr ▸ hstop)
    simp [hstop, Halt.of_eq_fault, hbounds]

/-- A connection on a heap with the blocks of a run. -/
theorem Ledger.fault_iff {heap heap' : Heap} {s : State L}
    (h : Ledger C start base hs (heap, s)) (hlen : s.ctx.hostfwds.length ≤ maxListed)
    (hblocks : heap'.live = heap.live) (junk : ℕ → UInt8) (conn : Conn) :
    let ran := (apiHandler C junk conn).run (heap', s)
    (∀ f, ran.out = .stop (.fault f) → f = .nullPointer) ∧
    (heap'.failed = false →
      (ran.st.1.failed = false →
        (ran.out = .stop (.fault .nullPointer) ↔ conn.Asks C Request.NoProto)) ∧
      (ran.st.1.failed = true → ran.out = .stop (.fault .nullPointer) →
        conn.Asks C (· = .list))) := by
  obtain ⟨hwf, leaked, hlive, -⟩ := h
  obtain ⟨own, bad, hanswers, -, hfailed⟩ := @apiHandler_answers L C conn junk s leaked
    (listFits_of_length hwf hlen) heap' base (hblocks.trans hlive)
  obtain ⟨hany, hgood, hbad⟩ := hanswers.fault_iff
  refine ⟨hany, fun hok => ?_⟩
  rw [hok, Bool.false_or] at hfailed
  rw [hfailed]
  exact ⟨hgood, hbad⟩

/-- The handler of `list_hostfwd`, whatever else is in memory and in the buffer. -/
theorem Ledger.list_null_iff {heap heap' : Heap} {s s' : State L}
    (h : Ledger C start base hs (heap, s)) (hlen : s.ctx.hostfwds.length ≤ maxListed)
    (hlive : heap.live ≤ heap'.live) (hblocks : s'.ctx.blocks = s.ctx.blocks)
    (hfwds : s'.abs.ctx.hostfwds = s.abs.ctx.hostfwds) (junk : ℕ → UInt8) (conn : Conn) :
    ((apiHandleReqListHostfwd C junk conn).run (heap', s')).out = .stop (.fault .nullPointer) ↔
      NoText (heap', s') := by
  obtain ⟨hwf, leaked, hlive', -⟩ := h
  refine apiHandleReqListHostfwd_null_iff ?_ ?_
  · rw [hfwds]
    exact listFits_of_length hwf hlen
  · refine le_trans ?_ hlive
    rw [hblocks, show heap.live = _ from hlive', add_assoc]
    exact Multiset.le_add_right _ _

theorem nodeBlocks_card (nodes : List HostfwdNode) :
    Multiset.card (nodeBlocks nodes) = 2 * nodes.length := by
  rw [nodeBlocks_eq, Multiset.card_add, Multiset.coe_card, Multiset.coe_card, List.length_map,
    List.length_map]
  omega

theorem Ctx.blocks_card (ctx : Ctx) :
    Multiset.card ctx.blocks = 2 + 2 * ctx.hostfwds.length := by
  rw [Ctx.blocks, Multiset.card_cons, Multiset.card_cons, nodeBlocks_card]
  omega

end

/-! ### A sample session -/

theorem HeapStep.of_ran {C : Libc} {junk : ℕ → UInt8} {conn : Conn} {rc : ℤ} {x : Heap × State L}
    {ran : Ran (Heap × State L) Call Halt ℤ} (hran : (apiHandler C junk conn).run x = ran)
    (hlen : x.2.ctx.hostfwds.length ≤ maxListed) (hout : ran.out = .ret rc) :
    HeapStep C x ⟨conn, rc, ran.calls⟩ (ran.st.1, ran.st.2) := by
  refine ⟨hlen, junk, hran.trans ?_⟩
  rw [← hout]

/-- Memory in which every allocation succeeds. -/
def sampleHeap : Heap := .init fun _ => false

def sampleAlloc : Ran Heap Empty Fault (Option Ctx) :=
  (apiCtxAlloc sampleStart.cfg sampleStart.contents).run sampleHeap

def sampleCtx : Ctx :=
  .of 0 1 [] (Slirp4netns.apiCtxAlloc sampleStart.cfg sampleStart.contents)

theorem sampleAlloc_eq : (apiCtxAlloc sampleStart.cfg sampleStart.contents).run sampleHeap =
    ⟨.ret (some sampleCtx), sampleAlloc.st, []⟩ := rfl

/-- A forward is added. -/
def sampleRan : Ran (Heap × State tableLibslirp.toLibslirp) Call Halt ℤ :=
  (apiHandler Libc.exact (fun _ => 0) (sampleConn sampleAdd)).run
    (sampleAlloc.st, ⟨sampleCtx, sampleStart.slirp⟩)

theorem sampleRan_ends : sampleRan.out = .ret 19 ∧ sampleRan.st.1.failed = false := by
  decide +kernel

/-- `strlen(NULL)`: there is no memory for the text of the response. -/
example : ((apiHandler Libc.exact (fun _ => 0)
    (sampleConn "\x7b\"execute\":\"list_hostfwd\"\x7d")).run
      ({ sampleAlloc.st with fails := fun n => n = 24 }, ⟨sampleCtx, sampleStart.slirp⟩)).out =
    .stop (.fault .nullPointer) := by decide +kernel

theorem sampleHeapRun : Run (HeapStep Libc.exact)
    (sampleAlloc.st, ⟨sampleCtx, sampleStart.slirp⟩)
    [⟨sampleConn sampleAdd, 19, sampleRan.calls⟩] (sampleRan.st.1, sampleRan.st.2) :=
  Run.single (HeapStep.of_ran rfl (Nat.zero_le _) sampleRan_ends.1)

end Slirp4netns.ApiHeap
