/-
  slirp4netns formalization — what a client can rely on over a whole session.

  * `hostfwds_mirror_libslirp`: after every request the list of forwards is
    libslirp's map of host forwards, so that every listed forward can be
    removed;
  * `ids_issued_once`: an id is returned once and never again, and naming an id
    that was not issued, or whose forward is gone, removes nothing;
  * `response_tells_effect`: the response tells what was done, and a request
    that is refused does nothing.
-/
import Slirp4netns.Api.Response

namespace Slirp4netns

variable {L : Libslirp}

/-! ## Removing a listed forward -/

/-- The object of a `remove_hostfwd` request. -/
def removeObject (id : ℤ) : JsonObject :=
  [(bytes "execute", .string (bytes "remove_hostfwd")),
    (bytes "arguments", .object [(bytes "id", .number id)])]

/-- A message that asks for the removal of an id. -/
def removeMessage (id : ℤ) : Bytes :=
  bytes "\x7b\"execute\":\"remove_hostfwd\",\"arguments\":\x7b\"id\":" ++ intText id ++
    bytes "\x7d\x7d"

theorem removeMessage_eq (C : Libc) {id : ℤ} (h : IsInt id) :
    removeMessage id = jsonSerializeToString C (.object (removeObject id)) := by
  have hhead : bytes "\x7b\"execute\":\"remove_hostfwd\",\"arguments\":\x7b\"id\":" =
      123 :: (jsonSerializeString (bytes "execute") ++ 58 ::
        (jsonSerializeString (bytes "remove_hostfwd") ++ 44 ::
          (jsonSerializeString (bytes "arguments") ++ 58 :: 123 ::
            (jsonSerializeString (bytes "id") ++ [58])))) := by decide
  have htail : bytes "\x7d\x7d" = [125, 125] := by decide
  simp only [jsonSerializeToString, removeObject, jsonSerializeToBufferR, serializeMembers,
    C.sprintfG17_int id h.natAbs_le]
  rw [removeMessage, hhead, htail]
  simp

theorem removeObject_plain {id : ℤ} (h : IsInt id) (levels : ℕ) :
    (JsonValue.object (removeObject id)).Plain (levels + 3) := by
  refine JsonValue.plain_object [bytes "execute", bytes "arguments"] rfl (by decide) (by decide)
    fun m hm => ?_
  simp only [removeObject, List.mem_cons, List.not_mem_nil, or_false] at hm
  rcases hm with rfl | rfl
  · exact trivial
  · refine JsonValue.plain_object [bytes "id"] rfl (by decide) (by decide) fun m hm => ?_
    rw [List.mem_singleton] at hm
    rw [hm]
    exact h.plain _

/-- A dotted name with the prefix `arguments`. -/
theorem jsonObjectDotgetValue_arguments (jo : JsonObject) (name : String)
    (h : (46 : UInt8) ∉ bytes name) :
    jsonObjectDotgetValue jo (bytes "arguments." ++ bytes name) =
      jsonObjectGetnValue (jsonValueGetObject (jo.lookup (bytes "arguments"))) (bytes name) := by
  have hsplit : bytes "arguments." ++ bytes name = bytes "arguments" ++ 46 :: bytes name := by
    have : bytes "arguments." = bytes "arguments" ++ [46] := by decide
    rw [this, List.append_assoc]; rfl
  rw [hsplit]
  exact jsonObjectDotgetValue_dot jo (by decide) h

/-- **There is a message that asks for the removal of any given id.** -/
theorem requestOf_removeMessage (C : Libc) {id : ℤ} (h : IsInt id) :
    requestOf C (removeMessage id) = .remove (removeObject id) ∧
      removeId C (removeObject id) = id := by
  have hlen : (removeMessage id).length ≠ 4096 := by
    have h₁ := intText_length_le h
    have h₂ : (bytes "\x7b\"execute\":\"remove_hostfwd\",\"arguments\":\x7b\"id\":").length =
        46 := by decide
    have h₃ : (bytes "\x7d\x7d").length = 2 := by decide
    rw [removeMessage, List.length_append, List.length_append]
    omega
  have hparse : jsonParseString C (removeMessage id) = some (.object (removeObject id)) := by
    rw [removeMessage_eq C h]
    exact jsonParseString_serialize C (removeObject_plain h 2046)
  have hexec : jsonObjectGetString (removeObject id) (bytes "execute") =
      some (bytes "remove_hostfwd") := by
    have hcstr : cstr (bytes "remove_hostfwd") = bytes "remove_hostfwd" := by decide
    rw [jsonObjectGetString, jsonObjectGetnValue, Option.bind_some, removeObject, List.lookup_cons,
      beq_self_eq_true]
    exact congrArg some hcstr
  have hid : jsonObjectDotgetValue (removeObject id) (bytes "arguments.id") =
      some (.number id) := by
    have hdot : bytes "arguments.id" = bytes "arguments." ++ bytes "id" := by decide
    rw [hdot, jsonObjectDotgetValue_arguments _ _ (by decide), removeObject,
      lookup_cons_of_ne (by decide), List.lookup_cons, beq_self_eq_true]
    simp [jsonValueGetObject, jsonObjectGetnValue]
  constructor
  · rw [requestOf, if_neg hlen, parsedRequest, hparse]
    simp only [jsonValueGetObject, hexec]
    rw [if_neg (by decide), if_neg (by decide), if_pos trivial]
  · rw [removeId, jsonObjectDotgetNumber, hid]
    exact C.toInt_intCast h

/-- The removal of a listed forward, if libslirp removes it too. -/
theorem serveRemove_listed {C : Libc} {jo : JsonObject} {r : Registry L}
    (h : Issued ApiHostfwd.id r.hostfwds r.nextid) {fwd : ApiHostfwd} (hfwd : fwd ∈ r.hostfwds)
    (hid : removeId C jo = fwd.id) (hrc : 0 ≤ (L.slirpRemoveHostfwd r.slirp fwd.key).1) :
    (serveRemove C jo r).reply = .ret (.removed fwd) := by
  have hfind : r.hostfwds.find? (fun fwd => removeId C jo = fwd.id) = some fwd := by
    cases hf : r.hostfwds.find? fun fwd => removeId C jo = fwd.id with
    | none =>
      rw [List.find?_eq_none] at hf
      exact absurd hid (by simpa using hf fwd hfwd)
    | some fwd' =>
      have hid' : removeId C jo = fwd'.id := by simpa using List.find?_some hf
      rw [h.eq_of_id (List.mem_of_find?_eq_some hf) hfwd (hid'.symm.trans hid)]
  rw [serveRemove, hfind]
  dsimp only
  rw [if_neg (by omega)]

/-- A listed forward is in libslirp's map, so that its removal succeeds. -/
theorem serveRemove_mirrors {C : Libc} {L : MapLibslirp} {r : Registry L.toLibslirp}
    (hm : Mirrors ApiHostfwd.key ApiHostfwd.guest r.hostfwds (L.fwds r.slirp)) (jo : JsonObject) :
    (serveRemove C jo r).reply ≠ .ret (.error (.remove .slirpFailed)) := by
  unfold serveRemove
  split
  · simp
  · next fwd hf =>
    have hrc := L.remove_present (hm.isSome (List.mem_of_find?_eq_some hf))
    dsimp only
    rw [if_neg (by omega)]
    simp

/-- In no state after a run does the removal of a forward fail in libslirp. -/
theorem ApiRun.no_removeFailed {C : Libc} {L : MapLibslirp} {start : ApiStart L.toLibslirp}
    {hs : List Handled} {s : ApiState L.toLibslirp} (hrun : ApiRun C start hs s) (conn : Conn) :
    errorText (ApiError.remove .slirpFailed).desc ∉
      responses ((apiHandler C conn).run s).calls := by
  intro hmem
  cases hmsg : conn.message with
  | none => rw [(apiHandler_no_message C s hmsg).2] at hmem; simp at hmem
  | some data =>
    rw [(apiHandler_message C s hmsg).2.2.1] at hmem
    rcases hserve : serve C s.ctx.cfg (requestOf C data) s.registry with ⟨calls, reg, reply | why⟩
    · rw [hserve, Done.responses, List.mem_singleton] at hmem
      have hwf : reply.Wf := (serve_serves hserve).reply_wf hrun.wf
      have hreply : (serve C s.ctx.cfg (requestOf C data) s.registry).reply =
          .ret (.error (.remove .slirpFailed)) := by
        rw [hserve, Reply.eq_error_of_text hwf hmem.symm]
      obtain ⟨jo, hjo⟩ := serve_error_of hreply
      rw [hjo] at hreply
      exact serveRemove_mirrors hrun.mirrors jo hreply
    · rw [hserve] at hmem; simp [Done.responses] at hmem

/-- A message that names the id of a listed forward has it removed, here and in libslirp. -/
theorem ApiRun.remove_listed {C : Libc} {L : MapLibslirp} {start : ApiStart L.toLibslirp}
    {hs : List Handled} {s : ApiState L.toLibslirp} (hrun : ApiRun C start hs s) {fwd : ApiHostfwd}
    (hfwd : fwd ∈ s.ctx.hostfwds) {conn : Conn} {data : Bytes} {jo : JsonObject}
    (hmsg : conn.message = some data) (hreq : requestOf C data = .remove jo)
    (hid : removeId C jo = fwd.id) :
    ∃ rc calls s', ApiStep C s ⟨conn, rc, calls⟩ s' ∧
      responses calls = [bytes "\x7b\"return\":\x7b\x7d\x7d"] ∧
      fwd ∉ s'.ctx.hostfwds ∧ L.fwds s'.slirp fwd.key = none := by
  obtain ⟨hreg, -, hresp, hout⟩ := apiHandler_message C s hmsg
  have hreply : (serve C s.ctx.cfg (requestOf C data) s.registry).reply = .ret (.removed fwd) := by
    rw [hreq]
    exact serveRemove_listed hrun.issued hfwd hid (L.remove_present (hrun.mirrors.isSome hfwd)).ge
  generalize hserve : serve C s.ctx.cfg (requestOf C data) s.registry = d at *
  obtain ⟨calls, reg, reply⟩ := d
  subst hreply
  refine ⟨_, _, _, ApiStep.of_out _ hout, hresp, ?_⟩
  have hfwds : ((apiHandler C conn).run s).st.ctx.hostfwds = reg.hostfwds :=
    congrArg Registry.hostfwds hreg
  have hslirp : ((apiHandler C conn).run s).st.slirp = reg.slirp := congrArg Registry.slirp hreg
  have hserves := serve_serves hserve
  rw [hreq] at hserves
  cases hserves with
  | removed _ hab _ hf _ ht =>
    have hissued := hrun.issued
    rw [show s.ctx.hostfwds = _ from hab] at hissued
    refine ⟨fun hin => ?_, ?_⟩
    · rw [hfwds, hf] at hin
      exact hissued.ne_of_split fwd hin rfl
    · rw [hslirp, ht, Function.update_self]

/-- **The list of forwards is libslirp's map.**  After every run of requests from
    `api_ctx_alloc`, whatever they are and whichever calls of libslirp succeed, the entries have
    different keys and are, as a map, the host forwards of libslirp.  So a removal never fails in
    libslirp, and every listed forward can be removed by a message that names its id. -/
theorem hostfwds_mirror_libslirp (C : Libc) (L : MapLibslirp) {start : ApiStart L.toLibslirp}
    {hs : List Handled} {s : ApiState L.toLibslirp} (hrun : ApiRun C start hs s) :
    (s.ctx.hostfwds.map ApiHostfwd.key).Nodup ∧
    (∀ k g, L.fwds s.slirp k = some g ↔ ∃ fwd ∈ s.ctx.hostfwds, fwd.key = k ∧ fwd.guest = g) ∧
    (∀ conn, errorText (ApiError.remove .slirpFailed).desc ∉
      responses ((apiHandler C conn).run s).calls) ∧
    (∀ fwd ∈ s.ctx.hostfwds,
      (∃ jo, requestOf C (removeMessage fwd.id) = .remove jo ∧ removeId C jo = fwd.id) ∧
      ∀ conn data jo, conn.message = some data → requestOf C data = .remove jo →
        removeId C jo = fwd.id →
        ∃ rc calls s', ApiStep C s ⟨conn, rc, calls⟩ s' ∧
          responses calls = [bytes "\x7b\"return\":\x7b\x7d\x7d"] ∧
          fwd ∉ s'.ctx.hostfwds ∧ L.fwds s'.slirp fwd.key = none) := by
  refine ⟨hrun.mirrors.nodup, hrun.mirrors.table_eq, hrun.no_removeFailed, ?_⟩
  intro fwd hfwd
  refine ⟨⟨_, requestOf_removeMessage C (hrun.wf fwd hfwd).id_isInt⟩, ?_⟩
  intro conn data jo hmsg hreq hid
  exact hrun.remove_listed hfwd hmsg hreq hid

/-- After that request, the one listed forward can be removed again. -/
theorem hostfwds_mirror_sample :
    let s := ((apiHandler Libc.exact (sampleConn sampleAdd)).run sampleStart.state).st
    s.ctx.hostfwds = [⟨1, 0, ⟨0, 0, 0, 0⟩, 8080, ⟨10, 0, 2, 100⟩, 80⟩] ∧
      (s.ctx.hostfwds.map ApiHostfwd.key).Nodup ∧
      ∃ jo, requestOf Libc.exact (removeMessage 1) = .remove jo ∧ removeId Libc.exact jo = 1 := by
  obtain ⟨hnodup, -, -, hremove⟩ := hostfwds_mirror_libslirp Libc.exact tableLibslirp sampleAdd_run
  obtain ⟨hmsg, -⟩ := hremove ⟨1, 0, ⟨0, 0, 0, 0⟩, 8080, ⟨10, 0, 2, 100⟩, 80⟩
    (sampleAdd_hostfwds ▸ List.mem_cons_self)
  exact ⟨sampleAdd_hostfwds, hnodup, hmsg⟩

/-! ## Ids -/

/-- The id that a response returns to the client. -/
def responseId (C : Libc) (d : Bytes) : Option ℚ :=
  match jsonParseString C d with
  | some (.object [(name, .object [(name', .number id)])]) =>
    if name = bytes "return" ∧ name' = bytes "id" then some id.value else none
  | _ => none

/-- The ids that were returned to clients, the first one first. -/
def returnedIds (C : Libc) (hs : List Handled) : List ℚ :=
  hs.flatMap fun h => (responses h.calls).filterMap (responseId C)

/-- This connection had the forward of an id removed. -/
def Handled.Removes (C : Libc) (h : Handled) (id : ℤ) : Prop :=
  ∃ data jo, h.conn.message = some data ∧ requestOf C data = .remove jo ∧ removeId C jo = id ∧
    responses h.calls = [bytes "\x7b\"return\":\x7b\x7d\x7d"]

/-- The id that a reply returns. -/
def Reply.returnedId : Reply → Option ℚ
  | added fwd => some fwd.id
  | _ => none

theorem responseId_text (C : Libc) {reply : Reply} (h : reply.Wf) :
    responseId C (reply.text C) = reply.returnedId := by
  rw [responseId, jsonParseString_text C h]
  cases reply with
  | error e => rfl
  | added fwd => simp [Reply.value, Reply.returnedId]
  | listed fwds => rfl
  | removed fwd => rfl

/-- What the connections so far tell about the ids: those returned are 1, 2, and so on up to the
    next id, and those removed are no longer listed. -/
structure IdHistory (C : Libc) (hs : List Handled) (s : ApiState L) : Prop where
  returned : ∃ n : ℕ, s.ctx.hostfwdsNextid = 1 + n ∧
    returnedIds C hs = (List.range n).map fun i : ℕ => (1 + i : ℚ)
  removed : ∀ h ∈ hs, ∀ id, h.Removes C id →
    id < s.ctx.hostfwdsNextid ∧ ∀ fwd ∈ s.ctx.hostfwds, fwd.id ≠ id

theorem returnedIds_append (C : Libc) (hs : List Handled) (h : Handled) :
    returnedIds C (hs ++ [h]) =
      returnedIds C hs ++ (responses h.calls).filterMap (responseId C) := by
  simp [returnedIds]

/-- The id that is returned by a reply. -/
theorem returnedIds_reply {C : Libc} {hs : List Handled} {h : Handled} {reply : Reply}
    (hresp : responses h.calls = [reply.text C]) (hw : reply.Wf) :
    returnedIds C (hs ++ [h]) = returnedIds C hs ++ reply.returnedId.toList := by
  rw [returnedIds_append, hresp, ← responseId_text C hw]
  cases hr : responseId C (reply.text C) <;> simp [hr]

/-- The response to a removal is the response to nothing else. -/
theorem reply_removed {C : Libc} {reply : Reply} (hw : reply.Wf)
    (h : reply.text C = bytes "\x7b\"return\":\x7b\x7d\x7d") : ∃ fwd, reply = .removed fwd := by
  have hv : reply.value = (Reply.removed ⟨0, 0, anyAddr, 0, anyAddr, 0⟩).value :=
    Reply.value_eq_of_text hw trivial h
  have hne : bytes "error" ≠ bytes "return" ∧ bytes "entries" ≠ bytes "return" := by decide
  cases reply with
  | error e => simp [Reply.value, hne.1] at hv
  | added fwd => simp [Reply.value] at hv
  | listed fwds => simp [Reply.value, listValue, hne.2] at hv
  | removed fwd => exact ⟨fwd, rfl⟩

/-- A request lists no entry that was not there before, other than one under the next id. -/
theorem Serves.entries {C : Libc} {cfg : Slirp4netnsConfig} {r r' : Registry L} {req : Request}
    {reply : Reply} (h : Serves C cfg r r' req reply) :
    r.nextid ≤ r'.nextid ∧ ∀ fwd ∈ r'.hostfwds, fwd ∈ r.hostfwds ∨ fwd.id = r.nextid := by
  constructor
  · cases h with
    | error _ hn => rw [hn]
    | added _ _ _ _ hn => rw [hn]; omega
    | listed hr => rw [hr]
    | removed _ _ _ _ hn => rw [hn]
  · intro fwd hfwd
    rcases h.mem hfwd with hold | ⟨jo, fwd', -, -, rfl⟩
    · exact Or.inl hold
    · exact Or.inr rfl

section
variable {C : Libc} {start : ApiStart L} {hs : List Handled} {s s' : ApiState L} {h : Handled}

theorem IdHistory.returned_step (hrun : ApiRun C start hs s) (hh : IdHistory C hs s)
    (hstep : ApiStep C s h s') : ∃ n : ℕ, s'.ctx.hostfwdsNextid = 1 + n ∧
      returnedIds C (hs ++ [h]) = (List.range n).map fun i : ℕ => (1 + i : ℚ) := by
  obtain ⟨n, hn, hids⟩ := hh.returned
  rcases hstep.cases.2 with ⟨-, rfl, hresp⟩ | ⟨data, calls, reply, -, hserve, hresp⟩
  · exact ⟨n, hn, by simp [returnedIds_append, hresp, hids]⟩
  have hserves := serve_serves hserve
  have hreg : s.registry.nextid = 1 + n := hn
  rw [returnedIds_reply hresp (hserves.reply_wf hrun.wf), hids]
  generalize requestOf C data = req at hserves
  cases hserves with
  | error _ hn' => exact ⟨n, hn'.trans hreg, List.append_nil _⟩
  | added _ _ _ _ hn' =>
    refine ⟨n + 1, ?_, ?_⟩
    · have hnext : s'.ctx.hostfwdsNextid = s.registry.nextid + 1 := hn'
      omega
    · simp [Reply.returnedId, List.range_succ, hreg]
  | listed hr => exact ⟨n, (congrArg Registry.nextid hr).trans hreg, List.append_nil _⟩
  | removed _ _ _ _ hn' => exact ⟨n, hn'.trans hreg, List.append_nil _⟩

theorem IdHistory.removed_step (hrun : ApiRun C start hs s) (hh : IdHistory C hs s)
    (hstep : ApiStep C s h s') : ∀ h' ∈ hs ++ [h], ∀ id, h'.Removes C id →
      id < s'.ctx.hostfwdsNextid ∧ ∀ fwd ∈ s'.ctx.hostfwds, fwd.id ≠ id := by
  intro h' hh' id hr
  rcases hstep.cases.2 with ⟨hm, rfl, -⟩ | ⟨data, calls, reply, hm, hserve, hresp⟩
  · rcases List.mem_append.1 hh' with hh' | hh'
    · exact hh.removed h' hh' id hr
    · rw [List.mem_singleton.1 hh'] at hr
      obtain ⟨data, jo, hm', -⟩ := hr
      rw [hm] at hm'; simp at hm'
  have hserves := serve_serves hserve
  rcases List.mem_append.1 hh' with hh' | hh'
  · -- an earlier removal: the entries are old ones, or new under a larger id
    obtain ⟨hlt, hne⟩ := hh.removed h' hh' id hr
    obtain ⟨hle, hentries⟩ := hserves.entries
    have hle' : s.ctx.hostfwdsNextid ≤ s'.ctx.hostfwdsNextid := hle
    refine ⟨by omega, fun fwd hfwd => ?_⟩
    rcases hentries fwd hfwd with hold | hnew
    · exact hne fwd hold
    · have : fwd.id = s.ctx.hostfwdsNextid := hnew
      omega
  · -- the removal of this connection
    rw [List.mem_singleton.1 hh'] at hr
    obtain ⟨data', jo, hm', hreq, rfl, hresp'⟩ := hr
    obtain rfl : data = data' := Option.some.inj (hm.symm.trans hm')
    rw [hresp, List.cons.injEq] at hresp'
    obtain ⟨fwd, rfl⟩ := reply_removed (hserves.reply_wf hrun.wf) hresp'.1
    rw [hreq] at hserves
    have hissued := hrun.issued
    cases hserves with
    | removed hid hab _ hf hn =>
      have hlt := hissued.lt_next fwd (by rw [show s.ctx.hostfwds = _ from hab]; simp)
      rw [show s.ctx.hostfwds = _ from hab] at hissued
      refine ⟨?_, fun fwd' hfwd' => ?_⟩
      · rw [show s'.ctx.hostfwdsNextid = _ from hn, ← hid]; exact hlt
      · rw [show s'.ctx.hostfwds = _ from hf] at hfwd'
        rw [← hid]; exact hissued.ne_of_split fwd' hfwd'

theorem ApiRun.idHistory (hrun : ApiRun C start hs s) : IdHistory C hs s := by
  refine (Run.history hrun (I := fun hs s => ApiRun C start hs s ∧ IdHistory C hs s)
    ⟨.nil, ⟨⟨0, rfl, rfl⟩, by simp⟩⟩ ?_).2
  rintro hs s h s' ⟨hrun, hh⟩ hstep
  exact ⟨.snoc hrun hstep, hh.returned_step hrun hstep, hh.removed_step hrun hstep⟩

/-- The id of a listed forward was returned. -/
theorem ApiRun.returned_of_listed (hrun : ApiRun C start hs s) {fwd : ApiHostfwd}
    (hfwd : fwd ∈ s.ctx.hostfwds) : (fwd.id : ℚ) ∈ returnedIds C hs := by
  obtain ⟨n, hn, hids⟩ := hrun.idHistory.returned
  have h₁ := hrun.issued.one_le fwd hfwd
  have h₂ := hrun.issued.lt_next fwd hfwd
  rw [hids, List.mem_map]
  refine ⟨(fwd.id - 1).toNat, List.mem_range.2 (by omega), ?_⟩
  rw [← Int.cast_natCast, Int.toNat_of_nonneg (by omega)]
  push_cast
  exact add_sub_cancel _ _

/-- No id is returned twice. -/
theorem ApiRun.returnedIds_nodup (hrun : ApiRun C start hs s) : (returnedIds C hs).Nodup := by
  obtain ⟨n, -, hids⟩ := hrun.idHistory.returned
  rw [hids]
  refine List.nodup_range.map fun i j hij => ?_
  simpa using hij

end

/-- **Ids are issued in order and never again.**  After every run the listed ids increase and lie
    between 1 and the next id, which counts the additions that succeeded; no id was returned twice;
    and a request that names an id which was never returned, or whose forward was already removed,
    removes nothing.  That fewer than `2 ^ 31 - 1` additions succeed is a consequence: the counter
    would overflow in the next one, and that request does not complete. -/
theorem ids_issued_once (C : Libc) {start : ApiStart L} {hs : List Handled} {s : ApiState L}
    (hrun : ApiRun C start hs s) :
    (s.ctx.hostfwds.map ApiHostfwd.id).Pairwise (· < ·) ∧
    (∀ fwd ∈ s.ctx.hostfwds, 1 ≤ fwd.id ∧ fwd.id < s.ctx.hostfwdsNextid) ∧
    s.ctx.hostfwdsNextid = 1 + (returnedIds C hs).length ∧
    (returnedIds C hs).length < 2 ^ 31 - 1 ∧
    (returnedIds C hs).Nodup ∧
    ∀ h s' data jo, ApiStep C s h s' → h.conn.message = some data → requestOf C data = .remove jo →
      (removeId C jo : ℚ) ∉ returnedIds C hs ∨ (∃ h' ∈ hs, h'.Removes C (removeId C jo)) →
      s'.ctx.hostfwds = s.ctx.hostfwds ∧ L.fwds s'.slirp = L.fwds s.slirp := by
  have hissued := hrun.issued
  have hh := hrun.idHistory
  obtain ⟨n, hn, hids⟩ := hh.returned
  have hlen : (returnedIds C hs).length = n := by simp [hids]
  refine ⟨hissued.increasing, fun fwd hfwd => ⟨hissued.one_le fwd hfwd, hissued.lt_next fwd hfwd⟩,
    by rw [hlen, hn], ?_, hrun.returnedIds_nodup, ?_⟩
  · have := s.ctx.nextid_isInt.2
    unfold intMax at this
    omega
  · intro h s' data jo hstep hm hreq hgone
    rcases hstep.cases.2 with ⟨hn, -, -⟩ | ⟨data', calls, reply, hm', hserve, -⟩
    · rw [hn] at hm; simp at hm
    obtain rfl : data' = data := Option.some.inj (hm'.symm.trans hm)
    have hserves := serve_serves hserve
    rw [hreq] at hserves
    cases hserves with
    | error hf _ ht => exact ⟨hf, ht⟩
    | @removed _ fwd a b hid hab _ hf =>
      -- a forward that is taken out was listed, so its id was returned and not removed before
      have hfwd : fwd ∈ s.ctx.hostfwds := by
        rw [show s.ctx.hostfwds = a ++ fwd :: b from hab]; simp
      rcases hgone with hnever | ⟨h', hh', hremoves⟩
      · rw [← hid] at hnever
        exact absurd (hrun.returned_of_listed hfwd) hnever
      · exact absurd hid ((hh.removed h' hh' _ hremoves).2 fwd hfwd)

/-- An id that was never issued removes nothing from the list of one forward. -/
theorem ids_issued_sample :
    let s := ((apiHandler Libc.exact (sampleConn sampleAdd)).run sampleStart.state).st
    let conn := sampleConn "\x7b\"execute\":\"remove_hostfwd\",\"arguments\":\x7b\"id\":7\x7d\x7d"
    ((apiHandler Libc.exact conn).run s).st.ctx.hostfwds = s.ctx.hostfwds ∧
      s.ctx.hostfwds.length = 1 := by
  intro s conn
  have hstep : ApiStep Libc.exact s ⟨conn, 66, _⟩ ((apiHandler Libc.exact conn).run s).st :=
    ApiStep.of_out 66 (by decide +kernel)
  have hids : (removeId Libc.exact (removeObject 7) : ℚ) ∉ returnedIds Libc.exact
      [⟨sampleConn sampleAdd, 19, ((apiHandler Libc.exact (sampleConn sampleAdd)).run
        sampleStart.state).calls⟩] := by decide +kernel
  have hrun : ApiRun Libc.exact sampleStart [_] s := sampleAdd_run
  refine ⟨((ids_issued_once Libc.exact hrun).2.2.2.2.2 _ _ _ (removeObject 7) hstep rfl
    (by decide +kernel) (Or.inl hids)).1, ?_⟩
  rw [sampleAdd_hostfwds]
  rfl

/-! ## Effects -/

/-- The list, the next id and libslirp's forwards are as before. -/
def Unchanged (s s' : ApiState L) : Prop :=
  s'.ctx.hostfwds = s.ctx.hostfwds ∧ s'.ctx.hostfwdsNextid = s.ctx.hostfwdsNextid ∧
    L.fwds s'.slirp = L.fwds s.slirp

/-- **The response tells what was done.**  On every reachable context, a connection without a
    response changes nothing.  A response is an error, and then nothing changed; or the id of a
    forward that was appended to the list and added to libslirp; or the list, and then nothing
    changed; or it confirms a removal, and then the one entry with the requested id was taken out
    of the list, the others keeping their order, and libslirp's forward under its key. -/
theorem response_tells_effect (C : Libc) {start : ApiStart L} {hs : List Handled}
    {s s' : ApiState L} (hrun : ApiRun C start hs s) {h : Handled} (hstep : ApiStep C s h s') :
    (responses h.calls = [] → Unchanged s s') ∧
    ∀ d ∈ responses h.calls,
      ((∃ o, jsonParseString C d = some (.object [(bytes "error", o)])) ∧ Unchanged s s') ∨
      (∃ fwd, jsonParseString C d =
          some (.object [(bytes "return", .object [(bytes "id", .number fwd.id)])]) ∧
        s'.ctx.hostfwds = s.ctx.hostfwds ++ [fwd] ∧
        s'.ctx.hostfwdsNextid = s.ctx.hostfwdsNextid + 1 ∧
        L.fwds s'.slirp = Function.update (L.fwds s.slirp) fwd.key (some fwd.guest)) ∨
      ((∃ entries, jsonParseString C d = some (.object [(bytes "entries", .array entries)])) ∧
        Unchanged s s') ∨
      (∃ data jo a fwd b, jsonParseString C d = some (.object [(bytes "return", .object [])]) ∧
        h.conn.message = some data ∧ requestOf C data = .remove jo ∧ fwd.id = removeId C jo ∧
        s.ctx.hostfwds = a ++ fwd :: b ∧ s'.ctx.hostfwds = a ++ b ∧
        (∀ e ∈ a ++ b, e.id ≠ fwd.id) ∧ s'.ctx.hostfwdsNextid = s.ctx.hostfwdsNextid ∧
        L.fwds s'.slirp = Function.update (L.fwds s.slirp) fwd.key none) := by
  rcases hstep.cases.2 with ⟨hm, rfl, hresp⟩ | ⟨data, calls, reply, hm, hserve, hresp⟩
  · rw [hresp]
    exact ⟨fun _ => ⟨rfl, rfl, rfl⟩, by simp⟩
  have hserves := serve_serves hserve
  have hparse := jsonParseString_text C (hserves.reply_wf hrun.wf)
  rw [hresp]
  refine ⟨by simp, fun d hd => ?_⟩
  rw [List.mem_singleton.1 hd, hparse]
  generalize hreq : requestOf C data = req at hserves
  cases hserves with
  | error hf hn ht => exact Or.inl ⟨⟨_, rfl⟩, hf, hn, ht⟩
  | added _ _ _ hf hn ht => exact Or.inr (Or.inl ⟨_, rfl, hf, hn, ht⟩)
  | listed hr =>
    exact Or.inr (Or.inr (Or.inl ⟨⟨_, rfl⟩, congrArg Registry.hostfwds hr,
      congrArg Registry.nextid hr, congrArg (fun r => L.fwds r.slirp) hr⟩))
  | @removed jo fwd a b hid hab _ hf hn ht =>
    have hissued := hrun.issued
    rw [show s.ctx.hostfwds = _ from hab] at hissued
    exact Or.inr (Or.inr (Or.inr ⟨data, jo, a, fwd, b, rfl, hm, hreq, hid, hab, hf,
      hissued.ne_of_split, hn, ht⟩))

/-- Of two forwards the first is removed. -/
theorem response_tells_effect_sample :
    let conn : Conn := ⟨5, .stream [removeMessage 1], fun d => d.length⟩
    let ran := (apiHandler Libc.exact conn).run sampleTwo
    responses ran.calls = [bytes "\x7b\"return\":\x7b\x7d\x7d"] ∧
    ran.st.ctx.hostfwds = [⟨2, 1, ⟨0, 0, 0, 0⟩, 5353, ⟨10, 0, 2, 100⟩, 53⟩] ∧
    tableLibslirp.fwds ran.st.slirp =
      Function.update (tableLibslirp.fwds sampleTwo.slirp) ⟨0, ⟨0, 0, 0, 0⟩, 8080⟩ none := by
  intro conn ran
  obtain ⟨hs, hrun⟩ := sampleTwo_run
  have hstep : ApiStep Libc.exact sampleTwo ⟨conn, 13, ran.calls⟩ ran.st :=
    ApiStep.of_out 13 (by decide +kernel)
  have hresp : responses ran.calls = [bytes "\x7b\"return\":\x7b\x7d\x7d"] := by decide +kernel
  have hparse : jsonParseString Libc.exact (bytes "\x7b\"return\":\x7b\x7d\x7d") =
      some (.object [(bytes "return", .object [])]) := by decide +kernel
  have hnames : bytes "return" ≠ bytes "error" ∧ bytes "return" ≠ bytes "entries" := by decide
  have hmem : bytes "\x7b\"return\":\x7b\x7d\x7d" ∈ responses ran.calls := by
    rw [hresp]; exact List.mem_singleton_self _
  refine ⟨hresp, ?_⟩
  rcases (response_tells_effect Libc.exact hrun hstep).2 _ hmem with
    ⟨⟨o, h⟩, -⟩ | ⟨fwd, h, -⟩ | ⟨⟨es, h⟩, -⟩ |
      ⟨data, jo, a, fwd, b, -, hm, hreq, hid, hab, hab', -, -, htable⟩
  · simp [hparse, hnames.1] at h
  · simp [hparse] at h
  · simp [hparse, hnames.2] at h
  obtain ⟨hreq', hid'⟩ := requestOf_removeMessage Libc.exact (show IsInt 1 by decide)
  have hmessage : conn.message = some (removeMessage 1) := by decide +kernel
  obtain rfl : removeMessage 1 = data := Option.some.inj (hmessage.symm.trans hm)
  obtain rfl : removeObject 1 = jo := Request.remove.inj (hreq'.symm.trans hreq)
  rw [hid'] at hid
  rw [sampleTwo_hostfwds] at hab
  -- the forward that was removed has the id 1
  rcases a with _ | ⟨first, _ | ⟨second, a⟩⟩
  · simp only [List.nil_append, List.cons.injEq] at hab
    obtain ⟨rfl, rfl⟩ := hab
    exact ⟨hab', htable⟩
  · simp only [List.cons_append, List.nil_append, List.cons.injEq] at hab
    obtain ⟨-, rfl, -⟩ := hab
    exact absurd hid (by decide)
  · simp at hab

end Slirp4netns
