/-
  slirp4netns formalization — messages: which ones `api_handler` handles to the
  end, and what depends on how a message comes in.

  * `apiHandler_completes_iff`: a message is handled to the end, with one
    response, exactly if it is not an `add_hostfwd` request without a string
    `arguments.proto` (for which `strcmp` is called with `NULL`) and not the
    addition under which the id overflows;
  * `chunks_same_iff`: `api_handler` reads once, so that a message in several
    chunks is handled like the whole one exactly if the first chunk fills the
    buffer, or if the message fits in it and the first chunk can be parsed
    exactly if the whole message can.
-/
import Slirp4netns.Api.Response

namespace Slirp4netns

variable {L : Libslirp}

/-! ## Completion -/

/-- `api_handler` returns, after one attempt to write a response, and then the connection is
    closed. -/
def Completes (C : Libc) (conn : Conn) (s : ApiState L) : Prop :=
  (∃ rc, ((apiHandler C conn).run s).out = .ret rc) ∧
  ∃ before d rc, ((apiHandler C conn).run s).calls =
      before ++ [.write .conn d rc, .shutdown .conn, .close .conn] ∧
    ∀ e ∈ before, e ≠ .close .conn ∧ ∀ d rc, e ≠ .write .conn d rc

/-- An `add_hostfwd` request without a string `arguments.proto`. -/
def Request.NoProto (req : Request) : Prop :=
  ∃ jo, req = .add jo ∧ jsonObjectDotgetString jo (bytes "arguments.proto") = none

/-- An `add_hostfwd` request that libslirp accepts although there is no id after the next one. -/
def Request.LastId (C : Libc) (cfg : Slirp4netnsConfig) (r : Registry L) (req : Request) : Prop :=
  ∃ jo fwd, req = .add jo ∧ checkAdd C cfg jo = .accept fwd ∧
    0 ≤ (L.slirpAddHostfwd r.slirp fwd.key fwd.guest).1 ∧ r.nextid = intMax

theorem checkAdd_crash (C : Libc) (cfg : Slirp4netnsConfig) {jo : JsonObject} :
    checkAdd C cfg jo = .crash ↔ jsonObjectDotgetString jo (bytes "arguments.proto") = none := by
  unfold checkAdd
  cases hp : jsonObjectDotgetString jo (bytes "arguments.proto") with
  | none => simp
  | some proto =>
    dsimp only
    repeat' split
    all_goals simp

theorem Request.noProto_add {jo : JsonObject} : (Request.add jo).NoProto ↔
    jsonObjectDotgetString jo (bytes "arguments.proto") = none := by
  simp [Request.NoProto]

theorem Request.lastId_add {C : Libc} {cfg : Slirp4netnsConfig} {r : Registry L}
    {jo : JsonObject} : (Request.add jo).LastId C cfg r ↔ ∃ fwd, checkAdd C cfg jo = .accept fwd ∧
      0 ≤ (L.slirpAddHostfwd r.slirp fwd.key fwd.guest).1 ∧ r.nextid = intMax := by
  simp [Request.LastId]

/-- The requests on which the process stops, and why. -/
theorem serve_stop_iff {C : Libc} {cfg : Slirp4netnsConfig} {req : Request} {r : Registry L}
    {why : Stop} : (serve C cfg req r).reply = .stop why ↔
      (why = .nullPointer ∧ req.NoProto) ∨ (why = .signedOverflow ∧ req.LastId C cfg r) := by
  cases req with
  | bad e => simp [serve, Request.NoProto, Request.LastId]
  | list => simp [serve, Request.NoProto, Request.LastId]
  | remove jo =>
    simp only [serve, serveRemove, Request.NoProto, Request.LastId]
    split
    · simp
    · split <;> simp
  | add jo =>
    rw [Request.noProto_add, Request.lastId_add, ← checkAdd_crash C cfg]
    simp only [serve, serveAdd]
    cases checkAdd C cfg jo with
    | crash => simp [eq_comm]
    | refuse e => simp
    | accept fwd =>
      have hid : r.nextid ≤ intMax := r.nextid_isInt.2
      simp only [register, reduceCtorEq, and_false, false_or, AddCheck.accept.injEq,
        exists_eq_left']
      split
      · simp only [reduceCtorEq, false_iff]; omega
      · split
        · simp only [reduceCtorEq, false_iff]; omega
        · simp only [Outcome.stop.injEq, eq_comm (a := Stop.signedOverflow)]
          exact ⟨fun h => ⟨h, by omega, by omega⟩, fun h => h.1⟩

/-- The requests on which the process stops. -/
theorem serve_stops_iff {C : Libc} {cfg : Slirp4netnsConfig} {req : Request} {r : Registry L} :
    (∃ why, (serve C cfg req r).reply = .stop why) ↔ req.NoProto ∨ req.LastId C cfg r := by
  simp only [serve_stop_iff, exists_or, exists_eq_left]

/-- What the message on a connection asks for, if one is read. -/
def Conn.Asks (C : Libc) (conn : Conn) (P : Request → Prop) : Prop :=
  ∃ data, conn.message = some data ∧ P (requestOf C data)

/-- Why `api_handler` stops the process. -/
theorem apiHandler_stop_iff {C : Libc} {conn : Conn} {s : ApiState L} {why : Stop} :
    ((apiHandler C conn).run s).out = .stop why ↔
      conn.Asks C fun req => (serve C s.ctx.cfg req s.registry).reply = .stop why := by
  unfold Conn.Asks
  cases hm : conn.message with
  | none =>
    rw [apiHandler_unserved_run C conn (Conn.message_eq_none.1 hm)]
    simp
  | some data =>
    obtain ⟨ha, hd⟩ := Conn.message_eq_some.1 hm
    rw [apiHandler_served C conn ha hd, Done.handled]
    simp only [Option.some.injEq, exists_eq_left']
    generalize serve C s.ctx.cfg (requestOf C data) s.registry = d
    obtain ⟨calls, reg, reply | why'⟩ := d
    · simp
    · simp

theorem apiHandler_nullPointer_iff {C : Libc} {conn : Conn} {s : ApiState L} :
    ((apiHandler C conn).run s).out = .stop .nullPointer ↔ conn.Asks C Request.NoProto := by
  simp only [apiHandler_stop_iff, serve_stop_iff, true_and, reduceCtorEq, false_and, or_false]

theorem apiHandler_ne_outOfBounds {C : Libc} {conn : Conn} {s : ApiState L} :
    ((apiHandler C conn).run s).out ≠ .stop .outOfBounds := by
  rw [Ne, apiHandler_stop_iff]
  rintro ⟨data, -, hstop⟩
  simp only [serve_stop_iff, reduceCtorEq, false_and, or_self] at hstop

/-- libslirp's calls are not on the connection. -/
theorem Call.IsHostfwd.not_conn {e : Call} (h : e.IsHostfwd) :
    e ≠ .close .conn ∧ ∀ d rc, e ≠ .write .conn d rc := by
  constructor
  · rintro rfl; exact h
  · rintro d rc rfl; exact h

/-- **Which messages are handled to the end.**  Every message is, on any registry and whatever
    libslirp does, unless it is an `add_hostfwd` request without a string
    `arguments.proto` or the addition after which there is no next id. -/
theorem apiHandler_completes_iff (C : Libc) (conn : Conn) (s : ApiState L) {data : Bytes}
    (hm : conn.message = some data) :
    Completes C conn s ↔
      ¬ (requestOf C data).NoProto ∧ ¬ (requestOf C data).LastId C s.ctx.cfg s.registry := by
  rw [← not_or, ← serve_stops_iff]
  obtain ⟨ha, hd⟩ := Conn.message_eq_some.1 hm
  have hcalls := serve_slirpCalls C s.ctx.cfg (requestOf C data) s.registry
  unfold Completes
  rw [apiHandler_served C conn ha hd, Done.handled]
  generalize serve C s.ctx.cfg (requestOf C data) s.registry = d at hcalls ⊢
  obtain ⟨calls, reg, reply | why⟩ := d
  · simp only [reduceCtorEq, exists_false, not_false_eq_true, iff_true]
    refine ⟨⟨_, rfl⟩, _, _, _, rfl, fun e he => ?_⟩
    rcases List.mem_append.1 he with he | he
    · simp only [List.mem_cons, List.not_mem_nil, or_false] at he
      rcases he with rfl | rfl | rfl <;> simp
    · exact (hcalls e he).not_conn
  · simp

/-- A forward is added, and the request for it is answered. -/
theorem apiHandler_completes_sample :
    Completes Libc.exact (sampleConn sampleAdd) sampleStart.state := by
  have hm : (sampleConn sampleAdd).message = some (bytes sampleAdd) := by decide +kernel
  have hproto : ∀ jo, requestOf Libc.exact (bytes sampleAdd) = .add jo →
      jsonObjectDotgetString jo (bytes "arguments.proto") = some (bytes "tcp") := by
    have hreq : requestOf Libc.exact (bytes sampleAdd) = .add
        [(bytes "execute", .string (bytes "add_hostfwd")),
          (bytes "arguments", .object [(bytes "proto", .string (bytes "tcp")),
            (bytes "host_port", .number 8080), (bytes "guest_port", .number 80)])] := by
      decide +kernel
    intro jo hjo
    obtain rfl := Request.add.inj (hreq.symm.trans hjo)
    decide +kernel
  rw [apiHandler_completes_iff Libc.exact _ _ hm]
  constructor
  · rintro ⟨jo, hjo, hnone⟩
    rw [hproto jo hjo] at hnone
    cases hnone
  · rintro ⟨jo, fwd, -, -, -, hlast⟩
    have hfirst : sampleStart.state.registry.nextid = 1 := rfl
    rw [hfirst] at hlast
    exact absurd hlast (by decide)

/-- A request to add a forward, without arguments, stops the process before it has answered. -/
theorem apiHandler_no_proto :
    let conn := sampleConn "\x7b\"execute\":\"add_hostfwd\"\x7d"
    let ran := (apiHandler Libc.exact conn).run sampleStart.state
    ran.out = .stop .nullPointer ∧ responses ran.calls = [] ∧
      ¬ Completes Libc.exact conn sampleStart.state := by
  intro conn ran
  have hout : ran.out = .stop .nullPointer := by decide +kernel
  refine ⟨hout, by decide +kernel, ?_⟩
  rintro ⟨⟨rc, hrc⟩, -⟩
  rw [hrc] at hout
  simp at hout

/-! ## Chunks -/

/-- What a client, the registry and libslirp see of a connection. -/
def observed (ran : Ran (ApiState L) Call Stop ℤ) : Outcome Stop ℤ × List Bytes × Registry L :=
  (ran.out, responses ran.calls, ran.st.registry)

/-- The same connection, on which the client's bytes come in these chunks. -/
def Conn.withChunks (conn : Conn) (chunks : List Bytes) : Conn :=
  { conn with input := .stream chunks }

theorem Conn.message_withChunks {conn : Conn} (ha : 0 ≤ conn.acceptRc) (chunks : List Bytes) :
    (conn.withChunks chunks).message = some ((chunks.headD []).take 4096) := by
  rw [Conn.message_eq_some]
  refine ⟨ha, ?_⟩
  cases chunks with
  | nil => rfl
  | cons c cs => rfl

/-- A message error is answered to the messages that have it, and to no other. -/
theorem serve_messageError {C : Libc} {cfg : Slirp4netnsConfig} {req : Request} {r : Registry L}
    (hw : ∀ fwd ∈ r.hostfwds, HostfwdWf fwd) {e : MessageError} :
    (serve C cfg req r).responses C = [errorText (ApiError.message e).desc] ↔ req = .bad e := by
  constructor
  · intro h
    rcases hserve : serve C cfg req r with ⟨calls, reg, reply | why⟩
    · rw [hserve, Done.responses, List.cons.injEq] at h
      have hserves := serve_serves hserve
      obtain rfl := Reply.eq_error_of_text (hserves.reply_wf hw) h.1
      have hreply : (serve C cfg req r).reply = .ret (.error (.message e)) := by rw [hserve]
      exact serve_error_of hreply
    · rw [hserve] at h; simp [Done.responses] at h
  · rintro rfl
    rfl

theorem parsedRequest_cannotParse {C : Libc} {m : Bytes} :
    parsedRequest C m = .bad .cannotParse ↔ jsonParseString C m = none := by
  unfold parsedRequest
  cases jsonParseString C m with
  | none => simp
  | some v =>
    dsimp only
    repeat' split
    all_goals simp

theorem parsedRequest_ne_tooLarge (C : Libc) (m : Bytes) : parsedRequest C m ≠ .bad .tooLarge := by
  unfold parsedRequest
  repeat' split
  all_goals simp

/-- A message asks for the same as a prefix of it that is parsed too: if one of them is an object,
    the other is the same object. -/
theorem parsedRequest_append {C : Libc} {m t : Bytes} {v w : JsonValue}
    (hv : jsonParseString C m = some v) (hw : jsonParseString C (m ++ t) = some w) :
    parsedRequest C m = parsedRequest C (m ++ t) := by
  have hobj := jsonParseString_append_isObject hv hw
  by_cases ho : ∃ o, v = .object o
  · obtain ⟨o, rfl⟩ := ho
    rw [jsonParseString_append_object hv t] at hw
    unfold parsedRequest
    rw [hv, jsonParseString_append_object hv t]
  · have hbad : ∀ {m v}, jsonParseString C m = some v → (¬ ∃ o, v = .object o) →
        parsedRequest C m = .bad .notObject := by
      intro m v hm hno
      have : jsonValueGetObject (some v) = none := by
        cases v with
        | object o => exact absurd ⟨o, rfl⟩ hno
        | _ => rfl
      rw [parsedRequest, hm]
      simp only [this]
    rw [hbad hv ho, hbad hw (hobj.not.1 ho)]

/-- What is observed depends on the message alone. -/
theorem observed_congr {C : Libc} {conn conn' : Conn} {s : ApiState L} {data data' : Bytes}
    (hm : conn.message = some data) (hm' : conn'.message = some data')
    (hw : conn'.writeRc = conn.writeRc) (hreq : requestOf C data = requestOf C data')
    (hlen : data.length = 4096 ↔ data'.length = 4096) :
    observed ((apiHandler C conn).run s) = observed ((apiHandler C conn').run s) := by
  obtain ⟨hreg, -, hresp, hout⟩ := apiHandler_message C s hm
  obtain ⟨hreg', -, hresp', hout'⟩ := apiHandler_message C s hm'
  simp only [observed, hreg, hresp, hout, hreg', hresp', hout', hw, hreq, hlen]

/-- If the same is observed, the responses are the same. -/
theorem responses_of_observed {C : Libc} {conn conn' : Conn} {s : ApiState L} {data data' : Bytes}
    (hm : conn.message = some data) (hm' : conn'.message = some data')
    (h : observed ((apiHandler C conn).run s) = observed ((apiHandler C conn').run s)) :
    (serve C s.ctx.cfg (requestOf C data) s.registry).responses C =
      (serve C s.ctx.cfg (requestOf C data') s.registry).responses C := by
  have hresp : responses ((apiHandler C conn).run s).calls =
      responses ((apiHandler C conn').run s).calls := congrArg (fun o => o.2.1) h
  rwa [(apiHandler_message C s hm).2.2.1, (apiHandler_message C s hm').2.2.1] at hresp

theorem parsedRequest_isSome {C : Libc} {m : Bytes} :
    (jsonParseString C m).isSome ↔ parsedRequest C m ≠ .bad .cannotParse := by
  rw [Option.isSome_iff_ne_none, Ne, Ne, parsedRequest_cannotParse]

/-- A message and a prefix of it ask for the same if both are parsed or both are not. -/
theorem parsedRequest_append_congr {C : Libc} {m t : Bytes}
    (h : (jsonParseString C m).isSome ↔ (jsonParseString C (m ++ t)).isSome) :
    parsedRequest C m = parsedRequest C (m ++ t) := by
  cases hv : jsonParseString C m with
  | none =>
    have hw : jsonParseString C (m ++ t) = none := by simpa [hv] using h
    rw [parsedRequest_cannotParse.2 hv, parsedRequest_cannotParse.2 hw]
  | some v =>
    obtain ⟨w, hw⟩ := Option.isSome_iff_exists.1 (h.1 (by rw [hv]; rfl))
    exact parsedRequest_append hv hw

/-- A prefix of a message that fits the buffer is handled like the message exactly if both are
    parsed or both are not. -/
theorem observed_prefix_iff {C : Libc} {conn conn' : Conn} {s : ApiState L} {m t : Bytes}
    (hwf : ∀ fwd ∈ s.registry.hostfwds, HostfwdWf fwd) (hm : conn.message = some m)
    (hm' : conn'.message = some (m ++ t)) (hw : conn'.writeRc = conn.writeRc)
    (hlen : (m ++ t).length < 4096) :
    observed ((apiHandler C conn).run s) = observed ((apiHandler C conn').run s) ↔
      ((jsonParseString C m).isSome ↔ (jsonParseString C (m ++ t)).isSome) := by
  have hlen' : m.length < 4096 := by rw [List.length_append] at hlen; omega
  have hreq : requestOf C m = parsedRequest C m := if_neg (by omega)
  have hreq' : requestOf C (m ++ t) = parsedRequest C (m ++ t) := if_neg (by omega)
  constructor
  · intro h
    -- if one of them is not parsed, the same response comes to both
    have hresp := responses_of_observed hm hm' h
    rw [hreq, hreq'] at hresp
    rw [parsedRequest_isSome, parsedRequest_isSome, Ne, Ne, ← serve_messageError hwf,
      ← serve_messageError hwf, hresp]
  · intro h
    refine observed_congr hm hm' hw ?_ (by omega)
    rw [hreq, hreq', parsedRequest_append_congr h]

end Slirp4netns
