/-
  slirp4netns formalization — replaying a list.

  A client can read the forwards with `list_hostfwd` and ask for them again
  elsewhere: each listed entry becomes an `add_hostfwd` request with the five
  members that both know (`replayObject`).  The two are written independently,
  with conversions and defaults of their own.

  * `checkAdd_replay`: what `add_hostfwd` makes of a listed forward is that
    forward, whatever the configuration;
  * `list_replays`: so a fresh context ends up with the same list, numbered
    from 1, if its libslirp accepts the forwards.
-/
import Slirp4netns.Api.Consistency

namespace Slirp4netns

variable {L : Libslirp}

/-! ## What the client does -/

/-- The entries in the response to `list_hostfwd`. -/
def listedEntries (v : JsonValue) : List JsonValue :=
  match jsonObjectGetnValue (jsonValueGetObject (some v)) (bytes "entries") with
  | some (.array entries) => entries
  | _ => []

/-- A member of an entry under its name. -/
def member (entry : JsonValue) (name : String) : Option (Bytes × JsonValue) :=
  (jsonObjectGetnValue (jsonValueGetObject (some entry)) (bytes name)).map (bytes name, ·)

/-- The object of the `add_hostfwd` request for an entry. -/
def replayObject (entry : JsonValue) : JsonObject :=
  [(bytes "execute", .string (bytes "add_hostfwd")),
    (bytes "arguments", .object (["proto", "host_addr", "host_port", "guest_addr",
      "guest_port"].filterMap (member entry)))]

/-- The request for the forward of an entry. -/
def replayMessage (C : Libc) (entry : JsonValue) : Bytes :=
  jsonSerializeToString C (.object (replayObject entry))

/-- The arguments of the request for a listed forward. -/
def replayArguments (fwd : ApiHostfwd) : JsonObject :=
  [(bytes "proto", .string (bytes (if fwd.isUdp ≠ 0 then "udp" else "tcp"))),
    (bytes "host_addr", .string fwd.hostAddr.text), (bytes "host_port", .number fwd.hostPort),
    (bytes "guest_addr", .string fwd.guestAddr.text), (bytes "guest_port", .number fwd.guestPort)]

theorem listedEntries_listValue (fwds : List ApiHostfwd) :
    listedEntries (listValue fwds) = fwds.map entryValue := by
  simp [listedEntries, listValue, jsonValueGetObject, jsonObjectGetnValue]

theorem replayObject_entryValue (fwd : ApiHostfwd) :
    replayObject (entryValue fwd) = [(bytes "execute", .string (bytes "add_hostfwd")),
      (bytes "arguments", .object (replayArguments fwd))] := by
  simp [replayObject, member, entryValue, jsonValueGetObject, jsonObjectGetnValue, lookup_bytes,
    replayArguments]

/-! ## What the handler makes of it -/

theorem dotget_replay (fwd : ApiHostfwd) (path name : String)
    (hpath : bytes path = bytes "arguments." ++ bytes name) (h : (46 : UInt8) ∉ bytes name) :
    jsonObjectDotgetValue (replayObject (entryValue fwd)) (bytes path) =
      (replayArguments fwd).lookup (bytes name) := by
  rw [hpath, jsonObjectDotgetValue_arguments _ _ h, replayObject_entryValue]
  simp [lookup_bytes, jsonValueGetObject, jsonObjectGetnValue]

theorem protoCode_replay {isUdp : ℤ} (h : isUdp = 0 ∨ isUdp = 1) :
    protoCode (bytes (if isUdp ≠ 0 then "udp" else "tcp")) = some isUdp := by
  rcases h with rfl | rfl <;> decide

/-- A printed address is read as it is, never as the default. -/
theorem addrOr_text (dflt x : InAddr) : addrOr dflt (some (cstr x.text)) = some x := by
  have hnul : (0 : UInt8) ∉ x.text := fun h => (InAddr.mem_text h).elim (by decide) (by decide)
  have hgiven : givenAddr (some x.text) = some x.text :=
    Option.filter_some_pos (by simpa using x.text_ne_nil)
  rw [cstr_eq_self hnul, addrOr, hgiven]
  exact inetPton_text x

/-- **`add_hostfwd` undoes `list_hostfwd`**, whatever the configuration. -/
theorem checkAdd_replay (C : Libc) (cfg : Slirp4netnsConfig) {fwd : ApiHostfwd}
    (h : HostfwdWf fwd) :
    checkAdd C cfg (replayObject (entryValue fwd)) = .accept { fwd with id := 0 } := by
  have hproto : jsonObjectDotgetString (replayObject (entryValue fwd)) (bytes "arguments.proto") =
      some (bytes (if fwd.isUdp ≠ 0 then "udp" else "tcp")) := by
    rw [jsonObjectDotgetString, dotget_replay fwd "arguments.proto" "proto" (by decide) (by decide)]
    simp only [replayArguments, lookup_bytes, if_true, jsonValueGetString]
    split <;> decide
  have hhost : jsonObjectDotgetString (replayObject (entryValue fwd))
      (bytes "arguments.host_addr") = some (cstr fwd.hostAddr.text) := by
    rw [jsonObjectDotgetString,
      dotget_replay fwd "arguments.host_addr" "host_addr" (by decide) (by decide)]
    simp [replayArguments, lookup_bytes, jsonValueGetString]
  have hguest : jsonObjectDotgetString (replayObject (entryValue fwd))
      (bytes "arguments.guest_addr") = some (cstr fwd.guestAddr.text) := by
    rw [jsonObjectDotgetString,
      dotget_replay fwd "arguments.guest_addr" "guest_addr" (by decide) (by decide)]
    simp [replayArguments, lookup_bytes, jsonValueGetString]
  have hhp : jsonObjectDotgetNumber (replayObject (entryValue fwd)) (bytes "arguments.host_port") =
      fwd.hostPort := by
    rw [jsonObjectDotgetNumber,
      dotget_replay fwd "arguments.host_port" "host_port" (by decide) (by decide)]
    simp [replayArguments, lookup_bytes, jsonValueGetNumber]
  have hgp : jsonObjectDotgetNumber (replayObject (entryValue fwd)) (bytes "arguments.guest_port") =
      fwd.guestPort := by
    rw [jsonObjectDotgetNumber,
      dotget_replay fwd "arguments.guest_port" "guest_port" (by decide) (by decide)]
    simp [replayArguments, lookup_bytes, jsonValueGetNumber]
  simp only [checkAdd, hproto, protoCode_replay h.isUdp, hhost, addrOr_text, hhp,
    C.toInt_intCast h.hostPort_isInt, if_neg h.hostPort, hguest, hgp,
    C.toInt_intCast h.guestPort_isInt, if_neg h.guestPort]

theorem jsonSerializeString_length (s : Bytes) :
    (jsonSerializeString s).length ≤ 6 * s.length + 2 := by
  have hbyte : ∀ c : UInt8, (escapeByte c).length ≤ 6 := forall_byte (by decide +kernel)
  have hall : (s.flatMap escapeByte).length ≤ 6 * s.length := by
    induction s with
    | nil => simp
    | cons c s ih =>
      have := hbyte c
      rw [List.flatMap_cons, List.length_append, List.length_cons]
      omega
  rw [jsonSerializeString, List.length_append, List.length_cons, List.length_singleton]
  omega

theorem replayObject_plain {fwd : ApiHostfwd} (h : HostfwdWf fwd) (levels : ℕ) :
    (JsonValue.object (replayObject (entryValue fwd))).Plain (levels + 3) := by
  rw [replayObject_entryValue]
  refine JsonValue.plain_object [bytes "execute", bytes "arguments"] rfl (by decide) (by decide)
    fun m hm => ?_
  simp only [List.mem_cons, List.not_mem_nil, or_false] at hm
  rcases hm with rfl | rfl
  · exact trivial
  · refine JsonValue.plain_object [bytes "proto", bytes "host_addr", bytes "host_port",
      bytes "guest_addr", bytes "guest_port"] rfl (by decide) (by decide) fun m hm => ?_
    simp only [replayArguments, List.mem_cons, List.not_mem_nil, or_false] at hm
    rcases hm with rfl | rfl | rfl | rfl | rfl
    exacts [trivial, trivial, h.hostPort_isInt.plain _, trivial, h.guestPort_isInt.plain _]

/-- The request for a listed forward fits into the buffer. -/
theorem replayMessage_length (C : Libc) {fwd : ApiHostfwd} (h : HostfwdWf fwd) :
    (replayMessage C (entryValue fwd)).length < 4096 := by
  have hname (name : String) (n : ℕ) (hn : (bytes name).length = n) :
      (jsonSerializeString (bytes name)).length ≤ 6 * n + 2 :=
    hn ▸ jsonSerializeString_length (bytes name)
  have h₁ := hname "execute" 7 (by decide)
  have h₂ := hname "add_hostfwd" 11 (by decide)
  have h₃ := hname "arguments" 9 (by decide)
  have h₄ := hname "proto" 5 (by decide)
  have h₅ := hname (if fwd.isUdp ≠ 0 then "udp" else "tcp") 3 (by split <;> decide)
  have h₆ := hname "host_addr" 9 (by decide)
  have h₇ := hname "host_port" 9 (by decide)
  have h₈ := hname "guest_addr" 10 (by decide)
  have h₉ := hname "guest_port" 10 (by decide)
  have hha := jsonSerializeString_length fwd.hostAddr.text
  have hga := jsonSerializeString_length fwd.guestAddr.text
  have := fwd.hostAddr.length_text
  have := fwd.guestAddr.length_text
  have := intText_length_le h.hostPort_isInt
  have := intText_length_le h.guestPort_isInt
  simp only [replayMessage, replayObject_entryValue, replayArguments, jsonSerializeToString,
    jsonSerializeToBufferR, serializeMembers, C.sprintfG17_int _ h.hostPort_isInt.natAbs_le,
    C.sprintfG17_int _ h.guestPort_isInt.natAbs_le, List.length_append, List.length_cons,
    List.length_nil]
  omega

/-- **The request for a listed forward is read as such.** -/
theorem requestOf_replayMessage (C : Libc) {fwd : ApiHostfwd} (h : HostfwdWf fwd) :
    requestOf C (replayMessage C (entryValue fwd)) = .add (replayObject (entryValue fwd)) := by
  have hparse : jsonParseString C (replayMessage C (entryValue fwd)) =
      some (.object (replayObject (entryValue fwd))) :=
    jsonParseString_serialize C (replayObject_plain h 2046)
  have hexec : jsonObjectGetString (replayObject (entryValue fwd)) (bytes "execute") =
      some (bytes "add_hostfwd") := by
    have hcstr : cstr (bytes "add_hostfwd") = bytes "add_hostfwd" := by decide
    simp [jsonObjectGetString, jsonObjectGetnValue, replayObject, jsonValueGetString, hcstr]
  rw [requestOf, if_neg (replayMessage_length C h).ne, parsedRequest, hparse]
  simp only [jsonValueGetObject, hexec, if_true]

/-! ## The replay -/

/-- libslirp accepts the forwards, one after the other. -/
def Libslirp.Accepts (L : Libslirp) : L.State → List ApiHostfwd → Prop
  | _, [] => True
  | st, fwd :: fwds => 0 ≤ (L.slirpAddHostfwd st fwd.key fwd.guest).1 ∧
    L.Accepts (L.slirpAddHostfwd st fwd.key fwd.guest).2 fwds

/-- A connection that asks for an entry. -/
def Replays (C : Libc) (conn : Conn) (entry : JsonValue) : Prop :=
  ∃ data, conn.message = some data ∧ requestOf C data = .add (replayObject entry)

/-- A forward that libslirp accepts is listed under the next id. -/
theorem register_accepted (fwd : ApiHostfwd) (r : Registry L)
    (hacc : 0 ≤ (L.slirpAddHostfwd r.slirp fwd.key fwd.guest).1) (hid : r.nextid < intMax) :
    let d := register fwd r
    d.reply = .ret (.added { fwd with id := r.nextid }) ∧
      d.reg.hostfwds = r.hostfwds ++ [{ fwd with id := r.nextid }] ∧
      d.reg.nextid = r.nextid + 1 ∧
      d.reg.slirp = (L.slirpAddHostfwd r.slirp fwd.key fwd.guest).2 := by
  simp only [register]
  rw [if_neg (by omega), dif_pos hid]
  exact ⟨rfl, rfl, rfl, rfl⟩

/-- One request of the replay. -/
theorem replay_step {C : Libc} {s : ApiState L} {conn : Conn} {fwd : ApiHostfwd}
    (hwf : HostfwdWf fwd) (hr : Replays C conn (entryValue fwd))
    (hacc : 0 ≤ (L.slirpAddHostfwd s.slirp fwd.key fwd.guest).1)
    (hid : s.ctx.hostfwdsNextid < intMax) :
    ∃ h s', ApiStep C s h s' ∧ h.conn = conn ∧
      responses h.calls = [idText s.ctx.hostfwdsNextid] ∧
      s'.ctx.hostfwds = s.ctx.hostfwds ++ [{ fwd with id := s.ctx.hostfwdsNextid }] ∧
      s'.ctx.hostfwdsNextid = s.ctx.hostfwdsNextid + 1 ∧
      s'.slirp = (L.slirpAddHostfwd s.slirp fwd.key fwd.guest).2 := by
  obtain ⟨data, hm, hreq⟩ := hr
  obtain ⟨hreg, -, hresp, hout⟩ := apiHandler_message C s hm
  have hserve : serve C s.ctx.cfg (requestOf C data) s.registry =
      register { fwd with id := 0 } s.registry := by
    rw [hreq]
    simp only [serve, serveAdd, checkAdd_replay C s.ctx.cfg hwf]
  obtain ⟨hreply, hf, hn, hs⟩ :=
    register_accepted { fwd with id := 0 } s.registry hacc hid
  rw [hserve] at hreg hresp hout
  rw [Done.responses, hreply] at hresp
  rw [Done.out, hreply] at hout
  refine ⟨_, _, ApiStep.of_out _ hout, rfl, hresp, ?_, ?_, ?_⟩
  · exact (congrArg Registry.hostfwds hreg).trans hf
  · exact (congrArg Registry.nextid hreg).trans hn
  · exact (congrArg Registry.slirp hreg).trans hs

/-- **The whole replay**: it appends the forwards, numbered from the next id on. -/
theorem replay_run {C : Libc} {fwds : List ApiHostfwd} (hwf : ∀ fwd ∈ fwds, HostfwdWf fwd)
    {s : ApiState L} {conns : List Conn}
    (hr : List.Forall₂ (fun conn fwd => Replays C conn (entryValue fwd)) conns fwds)
    (hacc : L.Accepts s.slirp fwds) (hid : s.ctx.hostfwdsNextid + fwds.length ≤ intMax) :
    ∃ hs s', Run (ApiStep C) s hs s' ∧ hs.map Handled.conn = conns ∧
      hs.map (fun h => responses h.calls) =
        fwds.mapIdx (fun i _ => [idText (s.ctx.hostfwdsNextid + i)]) ∧
      s'.ctx.hostfwds = s.ctx.hostfwds ++
        fwds.mapIdx fun i fwd => { fwd with id := s.ctx.hostfwdsNextid + i } := by
  induction fwds generalizing s conns with
  | nil =>
    cases hr
    exact ⟨[], s, .nil, rfl, rfl, (List.append_nil _).symm⟩
  | cons fwd fwds ih =>
    obtain _ | ⟨hconn, hconns⟩ := hr
    rw [List.length_cons] at hid
    obtain ⟨h, s₁, hstep, rfl, hresp, hlist, hnext, hslirp⟩ :=
      replay_step (hwf fwd (by simp)) hconn hacc.1 (by push_cast at hid; omega)
    obtain ⟨hs, s', hrun, rfl, hresps, hlists⟩ :=
      ih (fun e he => hwf e (List.mem_cons_of_mem _ he)) hconns (hslirp ▸ hacc.2)
        (by push_cast at hid; omega)
    have hnum (i : ℕ) : s.ctx.hostfwdsNextid + 1 + i = s.ctx.hostfwdsNextid + (i + 1 : ℕ) := by
      push_cast; omega
    refine ⟨h :: hs, s', (Run.single hstep).append hrun, rfl, ?_, ?_⟩
    · rw [List.map_cons, hresp, hresps, hnext, List.mapIdx_cons]
      simp only [hnum, Nat.cast_zero, add_zero]
    · rw [hlists, hlist, hnext, List.mapIdx_cons]
      simp only [hnum, Nat.cast_zero, add_zero, List.append_assoc, List.singleton_append]

/-- The forwards are listed in the order in which their ids were returned. -/
theorem ApiRun.listed_in_order {C : Libc} {start : ApiStart L} {hs : List Handled}
    {s : ApiState L} (hrun : ApiRun C start hs s) :
    (s.ctx.hostfwds.map fun fwd => (fwd.id : ℚ)).Sublist (returnedIds C hs) := by
  refine (Run.history hrun (I := fun hs s => ApiRun C start hs s ∧
    (s.ctx.hostfwds.map fun fwd => (fwd.id : ℚ)).Sublist (returnedIds C hs)) ⟨.nil, .slnil⟩ ?_).2
  rintro hs s h s' ⟨hrun, hsub⟩ hstep
  refine ⟨.snoc hrun hstep, ?_⟩
  rcases hstep.cases.2 with ⟨-, rfl, hresp⟩ | ⟨data, calls, reply, -, hserve, hresp⟩
  · simpa [returnedIds_append, hresp] using hsub
  have hserves := serve_serves hserve
  rw [returnedIds_reply hresp (hserves.reply_wf hrun.wf)]
  generalize requestOf C data = req at hserves
  have hsub : (s.registry.hostfwds.map fun fwd => (fwd.id : ℚ)).Sublist (returnedIds C hs) := hsub
  change (s'.registry.hostfwds.map fun fwd => (fwd.id : ℚ)).Sublist _
  cases hserves with
  | error hf => rw [hf]; exact hsub.trans (List.sublist_append_left _ _)
  | added _ _ _ hf =>
    rw [hf, List.map_append]
    exact hsub.append (List.Sublist.refl _)
  | listed hr => rw [hr]; exact hsub.trans (List.sublist_append_left _ _)
  | removed _ hab _ hf =>
    rw [hf]
    rw [hab] at hsub
    exact ((((List.sublist_cons_self _ _).append_left _).map _).trans hsub).trans
      (List.sublist_append_left _ _)

/-- **A list can be replayed.**  For every reachable context, the response to `list_hostfwd` is
    read as the listed forwards, each once and in the order of their addition.  Each entry makes an
    `add_hostfwd` request; on any fresh context, whatever its configuration, these requests are all
    answered with ids, from 1 on, if libslirp accepts the forwards, and they rebuild the list. -/
theorem list_replays (C : Libc) {start : ApiStart L} {hs : List Handled} {s : ApiState L}
    (hrun : ApiRun C start hs s) (conn : Conn) {data : Bytes} (hm : conn.message = some data)
    (hreq : requestOf C data = .list) :
    ∃ d v, responses ((apiHandler C conn).run s).calls = [d] ∧ jsonParseString C d = some v ∧
      listedEntries v = s.ctx.hostfwds.map entryValue ∧
      (s.ctx.hostfwds.map fun fwd => (fwd.id : ℚ)).Sublist (returnedIds C hs) ∧
      (returnedIds C hs).Nodup ∧
      (∀ entry ∈ listedEntries v,
        requestOf C (replayMessage C entry) = .add (replayObject entry)) ∧
      ∀ (L' : Libslirp) (start' : ApiStart L') (conns : List Conn),
        L'.Accepts start'.slirp s.ctx.hostfwds →
        List.Forall₂ (Replays C) conns (listedEntries v) →
        ∃ hs' s', ApiRun C start' hs' s' ∧ hs'.map Handled.conn = conns ∧
          hs'.map (fun h => responses h.calls) =
            s.ctx.hostfwds.mapIdx (fun i _ => [idText (1 + i)]) ∧
          s'.ctx.hostfwds = s.ctx.hostfwds.mapIdx fun i fwd => { fwd with id := 1 + i } := by
  obtain ⟨-, -, hresp, -⟩ := apiHandler_message C s hm
  have hwf := hrun.wf
  have hwf' : (Reply.listed s.ctx.hostfwds).Wf := hwf
  rw [hreq] at hresp
  refine ⟨_, _, hresp, jsonParseString_text C hwf', listedEntries_listValue _,
    hrun.listed_in_order, hrun.returnedIds_nodup, ?_, ?_⟩
  · intro entry hentry
    rw [Reply.value, listedEntries_listValue, List.mem_map] at hentry
    obtain ⟨fwd, hfwd, rfl⟩ := hentry
    exact requestOf_replayMessage C (hwf fwd hfwd)
  · intro L' start' conns hacc hconns
    rw [Reply.value, listedEntries_listValue, List.forall₂_map_right_iff] at hconns
    have hlen : (1 : ℤ) + s.ctx.hostfwds.length ≤ intMax := by
      have := hrun.issued.length_lt
      have := s.ctx.nextid_isInt.2
      omega
    exact replay_run hwf hconns hacc hlen

/-- A list of two forwards is rebuilt in a fresh context from the requests for them. -/
theorem list_replays_sample :
    let tcp : ApiHostfwd := ⟨1, 0, ⟨0, 0, 0, 0⟩, 8080, ⟨10, 0, 2, 100⟩, 80⟩
    let udp : ApiHostfwd := ⟨2, 1, ⟨0, 0, 0, 0⟩, 5353, ⟨10, 0, 2, 100⟩, 53⟩
    let conn (fwd : ApiHostfwd) : Conn :=
      ⟨5, .stream [replayMessage Libc.exact (entryValue fwd)], fun d => d.length⟩
    ∃ hs s, ApiRun Libc.exact sampleStart hs s ∧ hs.map Handled.conn = [conn tcp, conn udp] ∧
      hs.map (fun h => responses h.calls) = [[idText 1], [idText 2]] ∧
      s.ctx.hostfwds = [tcp, udp] := by
  intro tcp udp conn
  obtain ⟨hs, hrun⟩ := sampleTwo_run
  have hlist : sampleTwo.ctx.hostfwds = [tcp, udp] := sampleTwo_hostfwds
  let list := "\x7b\"execute\":\"list_hostfwd\"\x7d"
  have hm : (sampleConn list).message = some (bytes list) := by decide +kernel
  obtain ⟨d, v, -, -, hentries, -, -, hmsg, hreplay⟩ :=
    list_replays Libc.exact hrun (sampleConn list) hm (by decide +kernel)
  rw [hlist, List.map_cons, List.map_singleton] at hentries
  rw [hentries] at hmsg
  rw [hlist, hentries] at hreplay
  have htcp : Replays Libc.exact (conn tcp) (entryValue tcp) :=
    ⟨_, by decide +kernel, hmsg _ List.mem_cons_self⟩
  have hudp : Replays Libc.exact (conn udp) (entryValue udp) :=
    ⟨_, by decide +kernel, hmsg _ (List.mem_cons_of_mem _ List.mem_cons_self)⟩
  obtain ⟨hs', s', hrun', hconns, hids, hlist'⟩ := hreplay _ sampleStart [conn tcp, conn udp]
    ⟨by decide, by decide, trivial⟩ (.cons htcp (.cons hudp .nil))
  exact ⟨hs', s', hrun', hconns, hids, hlist'⟩

end Slirp4netns
