/-
  slirp4netns formalization — the API as a service over a registry of forwards,
  and that the handlers of `api.c` implement it.

  The abstract service knows no buffer, no connection and no text.  Its state
  is a `Registry`: the listed forwards, the next id and libslirp's state.
  `requestOf` says what a message asks for, `checkAdd` what the checks of
  `add_hostfwd` make of its arguments, and `serve` what a request does: the
  calls of libslirp, the new registry and the reply, or the reason why the
  process stops.

  * `apiHandler_served`: on a message that was read, `api_handler` does what
    `serve` says: it writes the text of the reply in one `write`, and then closes
    the connection;
  * `apiHandler_unserved`: without a message it changes nothing.
-/
import Slirp4netns.Api.Handler

namespace Slirp4netns

/-- What can be wrong with a message. -/
inductive MessageError where
  | tooLarge
  | cannotParse
  | notObject
  | noExecute
  | unknownExecute
  deriving DecidableEq

/-- Why `add_hostfwd` is refused. -/
inductive AddError where
  | badProto
  | badHostAddr
  | badHostPort
  | badGuestAddr
  | badGuestPort
  | slirpFailed
  deriving DecidableEq

/-- Why `remove_hostfwd` is refused. -/
inductive RemoveError where
  | badId
  | slirpFailed
  deriving DecidableEq

/-- Why a request is refused. -/
inductive ApiError where
  | message (e : MessageError)
  | add (e : AddError)
  | remove (e : RemoveError)
  deriving DecidableEq

/-- The text of an error. -/
def ApiError.desc : ApiError → String
  | message .tooLarge => "too large message"
  | message .cannotParse => "cannot parse JSON"
  | message .notObject => "json_object() failed"
  | message .noExecute => "no execute found"
  | message .unknownExecute => "unknown execute"
  | add .badProto => "add_hostfwd: bad arguments.proto"
  | add .badHostAddr => "add_hostfwd: bad arguments.host_addr"
  | add .badHostPort => "add_hostfwd: bad arguments.host_port"
  | add .badGuestAddr => "add_hostfwd: bad arguments.guest_addr"
  | add .badGuestPort => "add_hostfwd: bad arguments.guest_port"
  | add .slirpFailed => "add_hostfwd: slirp_add_hostfwd failed"
  | remove .badId => "remove_hostfwd: bad arguments.id"
  | remove .slirpFailed => "remove_hostfwd: slirp_remove_hostfwd failed"

/-- What a message asks for. -/
inductive Request where
  | bad (e : MessageError)
  | add (jo : JsonObject)
  | list
  | remove (jo : JsonObject)
  deriving DecidableEq

/-- What a message of fewer than 4096 bytes asks for. -/
def parsedRequest (C : Libc) (data : Bytes) : Request :=
  match jsonParseString C data with
  | none => .bad .cannotParse
  | some jv =>
    match jsonValueGetObject (some jv) with
    | none => .bad .notObject
    | some jo =>
      match jsonObjectGetString jo (bytes "execute") with
      | none => .bad .noExecute
      | some execute =>
        if execute = bytes "add_hostfwd" then .add jo
        else if execute = bytes "list_hostfwd" then .list
        else if execute = bytes "remove_hostfwd" then .remove jo
        else .bad .unknownExecute

/-- What the bytes of one `read` ask for. -/
def requestOf (C : Libc) (data : Bytes) : Request :=
  if data.length = 4096 then .bad .tooLarge else parsedRequest C data

/-! ## Replies -/

/-- The value that lists a forward. -/
def entryValue (fwd : ApiHostfwd) : JsonValue :=
  .object [(bytes "id", .number fwd.id),
    (bytes "proto", .string (bytes (if fwd.isUdp ≠ 0 then "udp" else "tcp"))),
    (bytes "host_addr", .string fwd.hostAddr.text), (bytes "host_port", .number fwd.hostPort),
    (bytes "guest_addr", .string fwd.guestAddr.text), (bytes "guest_port", .number fwd.guestPort)]

/-- The value of a response to `list_hostfwd`. -/
def listValue (fwds : List ApiHostfwd) : JsonValue :=
  .object [(bytes "entries", .array (fwds.map entryValue))]

/-- What a request is answered with. -/
inductive Reply where
  | error (e : ApiError)
  | added (fwd : ApiHostfwd)
  | listed (fwds : List ApiHostfwd)
  | removed (fwd : ApiHostfwd)
  deriving DecidableEq

/-- The text of a reply. -/
def Reply.text (C : Libc) : Reply → Bytes
  | error e => errorText e.desc
  | added fwd => idText fwd.id
  | listed fwds => cstr (jsonSerializeToString C (listValue fwds))
  | removed _ => bytes "\x7b\"return\":\x7b\x7d\x7d"

/-! ## The service -/

/-- What the API keeps, apart from its buffer. -/
structure Registry (L : Libslirp) where
  hostfwds : List ApiHostfwd
  nextid : ℤ
  slirp : L.State
  nextid_isInt : IsInt nextid

variable {L : Libslirp}

/-- The registry of a state. -/
def ApiState.registry (s : ApiState L) : Registry L :=
  ⟨s.ctx.hostfwds, s.ctx.hostfwdsNextid, s.slirp, s.ctx.nextid_isInt⟩

/-- What a request did. -/
structure Done (L : Libslirp) where
  slirpCalls : List Call
  reg : Registry L
  reply : Outcome Stop Reply

/-- What the checks make of the arguments of an `add_hostfwd` request. -/
inductive AddCheck where
  | crash
  | refuse (e : AddError)
  /-- the forward to add, its id still 0 -/
  | accept (fwd : ApiHostfwd)
  deriving DecidableEq

/-- The string that an address is read from, unless it is to be the default. -/
def givenAddr (s : Option Bytes) : Option Bytes := s.filter (· ≠ [])

/-- `is_udp` for the protocols there are. -/
def protoCode (proto : Bytes) : Option ℤ :=
  if proto = bytes "udp" then some 1 else if proto = bytes "tcp" then some 0 else none

/-- The address that a string names, `dflt` if there is none. -/
def addrOr (dflt : InAddr) (s : Option Bytes) : Option InAddr :=
  match givenAddr s with
  | none => some dflt
  | some s => inetPton s

/-- `0.0.0.0` -/
def anyAddr : InAddr := ⟨0, 0, 0, 0⟩

/-- The checks of `add_hostfwd`, in their order. -/
def checkAdd (C : Libc) (cfg : Slirp4netnsConfig) (jo : JsonObject) : AddCheck :=
  match jsonObjectDotgetString jo (bytes "arguments.proto") with
  | none => .crash
  | some proto =>
    match protoCode proto with
    | none => .refuse .badProto
    | some isUdp =>
      match addrOr anyAddr (jsonObjectDotgetString jo (bytes "arguments.host_addr")) with
      | none => .refuse .badHostAddr
      | some hostAddr =>
        let hostPort := C.toInt (jsonObjectDotgetNumber jo (bytes "arguments.host_port"))
        if hostPort = 0 then .refuse .badHostPort
        else
          match addrOr cfg.recommendedVguest
              (jsonObjectDotgetString jo (bytes "arguments.guest_addr")) with
          | none => .refuse .badGuestAddr
          | some guestAddr =>
            let guestPort := C.toInt (jsonObjectDotgetNumber jo (bytes "arguments.guest_port"))
            if guestPort = 0 then .refuse .badGuestPort
            else .accept ⟨0, isUdp, hostAddr, hostPort, guestAddr, guestPort⟩

/-- Hand a forward to libslirp and list it. -/
def register (fwd : ApiHostfwd) (r : Registry L) : Done L :=
  let res := L.slirpAddHostfwd r.slirp fwd.key fwd.guest
  let calls := [.slirpAddHostfwd fwd.key fwd.guest res.1]
  if res.1 < 0 then ⟨calls, { r with slirp := res.2 }, .ret (.error (.add .slirpFailed))⟩
  else if h : r.nextid < intMax then
    let fwd := { fwd with id := r.nextid }
    ⟨calls, ⟨r.hostfwds ++ [fwd], r.nextid + 1, res.2, by
      have := r.nextid_isInt; unfold IsInt at *; omega⟩, .ret (.added fwd)⟩
  else ⟨calls, { r with slirp := res.2 }, .stop .signedOverflow⟩

/-- The service of `add_hostfwd`. -/
def serveAdd (C : Libc) (cfg : Slirp4netnsConfig) (jo : JsonObject) (r : Registry L) : Done L :=
  match checkAdd C cfg jo with
  | .crash => ⟨[], r, .stop .nullPointer⟩
  | .refuse e => ⟨[], r, .ret (.error (.add e))⟩
  | .accept fwd => register fwd r

/-- The id that a `remove_hostfwd` request names. -/
def removeId (C : Libc) (jo : JsonObject) : ℤ :=
  C.toInt (jsonObjectDotgetNumber jo (bytes "arguments.id"))

/-- The service of `remove_hostfwd`. -/
def serveRemove (C : Libc) (jo : JsonObject) (r : Registry L) : Done L :=
  match r.hostfwds.find? fun fwd => removeId C jo = fwd.id with
  | none => ⟨[], r, .ret (.error (.remove .badId))⟩
  | some fwd =>
    let res := L.slirpRemoveHostfwd r.slirp fwd.key
    let calls := [.slirpRemoveHostfwd fwd.key res.1]
    if res.1 < 0 then ⟨calls, { r with slirp := res.2 }, .ret (.error (.remove .slirpFailed))⟩
    else
      let hostfwds := r.hostfwds.eraseP fun fwd => removeId C jo = fwd.id
      ⟨calls, { r with hostfwds := hostfwds, slirp := res.2 }, .ret (.removed fwd)⟩

/-- The service of a request. -/
def serve (C : Libc) (cfg : Slirp4netnsConfig) (req : Request) (r : Registry L) : Done L :=
  match req with
  | .bad e => ⟨[], r, .ret (.error (.message e))⟩
  | .add jo => serveAdd C cfg jo r
  | .list => ⟨[], r, .ret (.listed r.hostfwds)⟩
  | .remove jo => serveRemove C jo r

/-! ## The handlers implement the service -/

/-- A state with another registry. -/
def ApiState.withRegistry (s : ApiState L) (r : Registry L) : ApiState L where
  ctx := { s.ctx with
    hostfwds := r.hostfwds, hostfwdsNextid := r.nextid, nextid_isInt := r.nextid_isInt }
  slirp := r.slirp

/-- The run of a handler that does `d` on the state `s`. -/
def Done.ran (C : Libc) (conn : Conn) (s : ApiState L) (d : Done L) :
    Ran (ApiState L) Call Stop ℤ :=
  match d.reply with
  | .stop why => ⟨.stop why, s.withRegistry d.reg, d.slirpCalls⟩
  | .ret reply =>
    ⟨.ret (conn.writeRc (reply.text C)), s.withRegistry d.reg,
      d.slirpCalls ++ [.write .conn (reply.text C) (conn.writeRc (reply.text C))]⟩

theorem writeResponse_run (conn : Conn) (text : Bytes) (s : ApiState L) :
    (writeResponse conn text).run s = ⟨.ret (conn.writeRc (cstr text)), s,
      [.write .conn (cstr text) (conn.writeRc (cstr text))]⟩ := rfl

theorem cstr_errorText (e : ApiError) : cstr (errorText e.desc) = errorText e.desc := by
  have h₁ : (0 : UInt8) ∉ bytes "\x7b\"error\":\x7b\"desc\":\"bad request: " := by decide
  have h₂ : (0 : UInt8) ∉ bytes e.desc := by rcases e with e | e | e <;> cases e <;> decide
  have h₃ : (0 : UInt8) ∉ bytes "\"\x7d\x7d" := by decide
  apply cstr_eq_self
  simp [errorText, h₁, h₂, h₃]

theorem writeError_run (C : Libc) (conn : Conn) (e : ApiError) (s : ApiState L) :
    (writeResponse conn (errorText e.desc)).run s =
      Done.ran C conn s ⟨[], s.registry, .ret (.error e)⟩ := by
  rw [writeResponse_run, cstr_errorText]; rfl

section add

variable (C : Libc) (conn : Conn) (s : ApiState L)

/-- The text of an id fits the buffer of 64 bytes and has no NUL. -/
theorem cstr_idText {id : ℤ} (h : IsInt id) :
    (idText id).length < 64 ∧ cstr (idText id) = idText id := by
  constructor
  · have : (intText id).length ≤ 11 := intText_length_le h
    have h₁ : (bytes "\x7b\"return\":\x7b\"id\":").length = 16 := by decide
    have h₂ : (bytes "\x7d\x7d").length = 2 := by decide
    rw [idText, List.length_append, List.length_append]
    omega
  · apply cstr_eq_self
    have h₁ : (0 : UInt8) ∉ bytes "\x7b\"return\":\x7b\"id\":" := by decide
    have h₂ : (0 : UInt8) ∉ bytes "\x7d\x7d" := by decide
    simp [idText, h₁, h₂, intText_not_nul]

theorem registerHostfwd_run (fwd : ApiHostfwd) :
    (registerHostfwd conn fwd).run s = (register fwd s.registry).ran C conn s := by
  have hadd : (slirpAddHostfwd fwd.key fwd.guest).run s =
      ⟨.ret (L.slirpAddHostfwd s.slirp fwd.key fwd.guest).1,
        ⟨s.ctx, (L.slirpAddHostfwd s.slirp fwd.key fwd.guest).2⟩,
        [.slirpAddHostfwd fwd.key fwd.guest (L.slirpAddHostfwd s.slirp fwd.key fwd.guest).1]⟩ := rfl
  obtain ⟨hlen, hcstr⟩ := cstr_idText s.ctx.nextid_isInt
  unfold registerHostfwd register
  have hslirp : s.registry.slirp = s.slirp := rfl
  rw [Prog.bind_of_ret hadd, hslirp]
  rcases L.slirpAddHostfwd s.slirp fwd.key fwd.guest with ⟨rc, slirp⟩
  dsimp only
  by_cases hrc : rc < 0
  · rw [if_pos hrc, if_pos hrc]
    exact congrArg (Ran.after _) (writeError_run C conn (.add .slirpFailed) _)
  rw [if_neg hrc, if_neg hrc]
  by_cases hid : s.ctx.hostfwdsNextid < intMax
  · have htake : takeId.run (⟨s.ctx, slirp⟩ : ApiState L) =
        ⟨.ret s.ctx.hostfwdsNextid, ⟨s.ctx.nextId hid, slirp⟩, []⟩ := dif_pos hid
    have hrec : (recordHostfwd fwd).run (⟨s.ctx, slirp⟩ : ApiState L) =
        ⟨.ret s.ctx.hostfwdsNextid,
          ⟨(s.ctx.nextId hid).append { fwd with id := s.ctx.hostfwdsNextid }, slirp⟩, []⟩ := by
      rw [recordHostfwd, Prog.bind_of_ret htake]
      rfl
    rw [Prog.bind_of_ret hrec, dif_pos (show s.registry.nextid < intMax from hid),
      if_neg (by omega), writeResponse_run, List.take_of_length_le (by omega), hcstr]
    rfl
  · have htake : takeId.run (⟨s.ctx, slirp⟩ : ApiState L) =
        ⟨.stop .signedOverflow, ⟨s.ctx, slirp⟩, []⟩ := dif_neg hid
    have hrec : (recordHostfwd fwd).run (⟨s.ctx, slirp⟩ : ApiState L) =
        ⟨.stop .signedOverflow, ⟨s.ctx, slirp⟩, []⟩ := by
      rw [recordHostfwd, Prog.bind_of_stop htake]
    rw [Prog.bind_of_stop hrec, dif_neg (show ¬ s.registry.nextid < intMax from hid)]
    rfl

theorem protoIsUdp_run (proto : Bytes) :
    (protoIsUdp (some proto)).run s = ⟨.ret ((protoCode proto).getD (-1)), s, []⟩ := by
  have hcmp (lit : Bytes) :
      (strcmpPtr (some proto) lit).run s = ⟨.ret (strcmp proto lit), s, []⟩ := rfl
  rw [protoIsUdp, Prog.bind_of_ret (hcmp _), Ran.after_nil, Prog.ite_run,
    Prog.bind_of_ret (hcmp _), Ran.after_nil, Prog.ite_run]
  simp only [protoCode, strcmp_eq_zero]
  split
  · rfl
  · split <;> rfl

/-- What `protoCode` gives is never the -1 of an unknown protocol. -/
theorem protoCode_cases {proto : Bytes} {isUdp : ℤ} (h : protoCode proto = some isUdp) :
    isUdp = 0 ∨ isUdp = 1 := by
  unfold protoCode at h
  split at h
  · simp only [Option.some.injEq] at h; exact Or.inr h.symm
  · split at h
    · simp only [Option.some.injEq] at h; exact Or.inl h.symm
    · simp at h

theorem inetPtonPtr_run (a : Option Bytes) :
    (inetPtonPtr (if a = none ∨ a = some [] then some (bytes "0.0.0.0") else a)).run s =
      ⟨.ret (addrOr anyAddr a), s, []⟩ := by
  have hany : inetPton (bytes "0.0.0.0") = some anyAddr := by decide
  match a with
  | none => rw [if_pos (Or.inl rfl), inetPtonPtr, hany]; rfl
  | some [] => rw [if_pos (Or.inr rfl), inetPtonPtr, hany]; rfl
  | some (c :: a) => rw [if_neg (by simp)]; rfl

theorem guestAddrOr_run (a : Option Bytes) :
    (guestAddrOr a).run s = ⟨.ret (addrOr s.ctx.cfg.recommendedVguest a), s, []⟩ := by
  match a with
  | none => rfl
  | some [] => rfl
  | some (c :: a) => rw [guestAddrOr, if_neg (by simp)]; rfl

theorem apiHandleReqAddHostfwd_run (jo : JsonObject) :
    (apiHandleReqAddHostfwd C conn jo).run s =
      (serveAdd C s.ctx.cfg jo s.registry).ran C conn s := by
  unfold apiHandleReqAddHostfwd serveAdd checkAdd
  rcases jsonObjectDotgetString jo (bytes "arguments.proto") with _ | proto
  · rfl
  dsimp only
  rw [Prog.bind_of_ret (protoIsUdp_run s proto), Ran.after_nil]
  rcases hc : protoCode proto with _ | isUdp
  · exact writeError_run C conn (.add .badProto) s
  rw [Option.getD_some, if_neg (by rcases protoCode_cases hc with h | h <;> omega),
    Prog.bind_of_ret (inetPtonPtr_run s _), Ran.after_nil]
  dsimp only
  rcases addrOr anyAddr (jsonObjectDotgetString jo (bytes "arguments.host_addr")) with _ | hostAddr
  · exact writeError_run C conn (.add .badHostAddr) s
  dsimp only
  by_cases hh : C.toInt (jsonObjectDotgetNumber jo (bytes "arguments.host_port")) = 0
  · rw [if_pos hh, if_pos hh]
    exact writeError_run C conn (.add .badHostPort) s
  rw [if_neg hh, if_neg hh, Prog.bind_of_ret (guestAddrOr_run s _), Ran.after_nil]
  rcases addrOr s.ctx.cfg.recommendedVguest
    (jsonObjectDotgetString jo (bytes "arguments.guest_addr")) with _ | guestAddr
  · exact writeError_run C conn (.add .badGuestAddr) s
  dsimp only
  by_cases hg : C.toInt (jsonObjectDotgetNumber jo (bytes "arguments.guest_port")) = 0
  · rw [if_pos hg, if_pos hg]
    exact writeError_run C conn (.add .badGuestPort) s
  rw [if_neg hg, if_neg hg]
  exact registerHostfwd_run C conn s _

end add

/-! ## list_hostfwd and remove_hostfwd -/

section
variable (C : Libc) (conn : Conn) (s : ApiState L)

theorem isValidUtf8_addr (x : InAddr) :
    isValidUtf8 (x.text ++ [0]) x.text.length = true := by
  have hdigit : ∀ c : UInt8, isDigit c = true → c.toNat < 128 := forall_byte (by decide +kernel)
  refine isValidUtf8_ascii (fun c hc => ?_) [0]
  rcases InAddr.mem_text hc with h | rfl
  exacts [hdigit c h, by decide]

theorem apiHandleReqListHostfwdForeach_run (fwd : ApiHostfwd) (entries : List JsonValue) :
    (apiHandleReqListHostfwdForeach fwd entries).run s =
      ⟨.ret (entries ++ [entryValue fwd]), s, []⟩ := by
  have hproto : jsonValueInitString (bytes (if fwd.isUdp ≠ 0 then "udp" else "tcp")) =
      some (.string (bytes (if fwd.isUdp ≠ 0 then "udp" else "tcp"))) := by
    split <;> decide
  have haddr : ∀ x : InAddr, jsonValueInitString x.text = some (.string x.text) := fun x =>
    (jsonValueInitString_eq _).trans (if_pos (isValidUtf8_addr x))
  unfold apiHandleReqListHostfwdForeach
  simp only [inetNtop_addrstrlen, jsonObjectSetString, hproto, haddr, jsonObjectSetNumber]
  rfl

theorem listEntries_run (fwds : List ApiHostfwd) (entries : List JsonValue) :
    (listEntries fwds entries).run s = ⟨.ret (entries ++ fwds.map entryValue), s, []⟩ := by
  induction fwds generalizing entries with
  | nil => simp [listEntries, Prog.pure_run]
  | cons fwd fwds ih =>
    rw [listEntries, Prog.bind_of_ret (apiHandleReqListHostfwdForeach_run s fwd entries),
      Ran.after_nil, ih]
    simp

theorem apiHandleReqListHostfwd_run :
    (apiHandleReqListHostfwd C conn).run s =
      Done.ran C conn s ⟨[], s.registry, .ret (.listed s.ctx.hostfwds)⟩ := by
  unfold apiHandleReqListHostfwd
  rw [Prog.state_bind_run, Prog.bind_of_ret (listEntries_run s _ _), writeResponse_run]
  rfl

theorem apiHandleReqRemoveHostfwd_run (jo : JsonObject) :
    (apiHandleReqRemoveHostfwd C conn jo).run s =
      (serveRemove C jo s.registry).ran C conn s := by
  unfold apiHandleReqRemoveHostfwd serveRemove
  rw [Prog.state_bind_run]
  have hreg : s.registry.hostfwds = s.ctx.hostfwds ∧ s.registry.slirp = s.slirp := ⟨rfl, rfl⟩
  rw [hreg.1, hreg.2, removeId]
  rcases s.ctx.hostfwds.find? _ with _ | fwd
  · exact writeError_run C conn (.remove .badId) s
  have hrem : (slirpRemoveHostfwd fwd.key).run s =
      ⟨.ret (L.slirpRemoveHostfwd s.slirp fwd.key).1,
        ⟨s.ctx, (L.slirpRemoveHostfwd s.slirp fwd.key).2⟩,
        [.slirpRemoveHostfwd fwd.key (L.slirpRemoveHostfwd s.slirp fwd.key).1]⟩ := rfl
  dsimp only
  rw [Prog.bind_of_ret hrem]
  rcases L.slirpRemoveHostfwd s.slirp fwd.key with ⟨rc, slirp⟩
  dsimp only
  by_cases hrc : rc < 0
  · rw [if_pos hrc, if_pos hrc]
    exact congrArg (Ran.after _) (writeError_run C conn (.remove .slirpFailed) _)
  · have hnul : cstr (bytes "\x7b\"return\":\x7b\x7d\x7d") =
        bytes "\x7b\"return\":\x7b\x7d\x7d" := by decide
    rw [if_neg hrc, if_neg hrc, Prog.update_bind_run, writeResponse_run, hnul]
    rfl

/-- The request in the buffer. -/
theorem apiHandleReq_run :
    (apiHandleReq C conn).run s =
      (serve C s.ctx.cfg (parsedRequest C s.ctx.buf) s.registry).ran C conn s := by
  unfold apiHandleReq parsedRequest
  rw [Prog.state_bind_run]
  rcases jsonParseString C s.ctx.buf with _ | jv
  · exact writeError_run C conn (.message .cannotParse) s
  dsimp only
  unfold handleValue
  rcases jsonValueGetObject (some jv) with _ | jo
  · exact writeError_run C conn (.message .notObject) s
  dsimp only
  rcases jsonObjectGetString jo (bytes "execute") with _ | execute
  · exact writeError_run C conn (.message .noExecute) s
  simp only [strcmp_eq_zero]
  split
  · exact apiHandleReqAddHostfwd_run C conn s jo
  split
  · exact apiHandleReqListHostfwd_run C conn s
  split
  · exact apiHandleReqRemoveHostfwd_run C conn s jo
  · exact writeError_run C conn (.message .unknownExecute) s

end

/-! ## api_handler -/

/-- The context after `read` has stored a message, and the terminator if there
    is room for it. -/
def ApiCtx.received (ctx : ApiCtx) (data : Bytes) (h : data.length ≤ 4096) : ApiCtx :=
  let ctx := ctx.store data (by rw [ctx.buflen_eq]; exact h)
  if data.length = 4096 then ctx else ctx.terminate data.length

/-- The state after a message has been read. -/
def ApiState.received (s : ApiState L) (data : Bytes) (h : data.length ≤ 4096) : ApiState L :=
  { s with ctx := s.ctx.received data h }

/-- The line on standard error about a message. -/
def requestLog (data : Bytes) : Bytes :=
  if data.length = 4096 then
    bytes "api_handler: too large message (>= " ++ decimal data.length ++ bytes " bytes)\n"
  else bytes "api_handler: got request: " ++ cstr data ++ bytes "\n"

section
variable (C : Libc) (conn : Conn) {s : ApiState L} {data : Bytes} (h : data.length ≤ 4096)

theorem ApiState.received_registry : (s.received data h).registry = s.registry := by
  unfold ApiState.received ApiCtx.received
  by_cases hl : data.length = 4096
  · simp only [if_pos hl]; rfl
  · simp only [if_neg hl]; rfl

theorem ApiState.received_cfg : (s.received data h).ctx.cfg = s.ctx.cfg := by
  unfold ApiState.received ApiCtx.received
  by_cases hl : data.length = 4096
  · simp only [if_pos hl]; rfl
  · simp only [if_neg hl]; rfl

/-- A message and its terminator in a buffer. -/
theorem cstr_terminated {buf : Bytes} (hlen : data.length < buf.length) :
    cstr ((data ++ buf.drop data.length).set data.length 0) = cstr data := by
  obtain ⟨c, rest, hr⟩ : ∃ c rest, buf.drop data.length = c :: rest := by
    cases hd : buf.drop data.length with
    | nil =>
      have := congrArg List.length hd
      rw [List.length_drop, List.length_nil] at this
      omega
    | cons c rest => exact ⟨c, rest, rfl⟩
  rw [hr, List.set_append_right _ _ (le_refl _), Nat.sub_self, List.set_cons_zero]
  exact cstr_append_nul data rest

/-- The C string in the buffer is the one that was read. -/
theorem cstr_received (hl : data.length ≠ 4096) :
    cstr (s.received data h).ctx.buf = cstr data := by
  have hbuf : (s.received data h).ctx.buf =
      (data ++ s.ctx.buf.drop data.length).set data.length 0 := by
    unfold ApiState.received ApiCtx.received
    simp only [if_neg hl]; rfl
  have hlen : s.ctx.buf.length = 4096 := s.ctx.buf_length.trans s.ctx.buflen_eq
  rw [hbuf, cstr_terminated (by omega)]

theorem parsedRequest_cstr (m : Bytes) : parsedRequest C (cstr m) = parsedRequest C m := by
  simp only [parsedRequest, jsonParseString, cstr_cstr]

/-- The calls around those of the request. -/
def Done.handled (conn : Conn) (s : ApiState L) (data : Bytes) (d : Done L) :
    Ran (ApiState L) Call Stop ℤ :=
  let before : List Call :=
    [.accept .api conn.acceptRc, .read .conn data.length, .fprintf (requestLog data)]
  match d.reply with
  | .stop why => ⟨.stop why, s.withRegistry d.reg, before ++ d.slirpCalls⟩
  | .ret reply =>
    let wrc := conn.writeRc (reply.text C)
    ⟨.ret (if data.length = 4096 then -1 else wrc), s.withRegistry d.reg, before ++ d.slirpCalls ++
      [.write .conn (reply.text C) wrc, .shutdown .conn, .close .conn]⟩

theorem readRequest_run (hd : conn.readBytes 4096 = some data) :
    ∃ h, (readRequest conn).run s = ⟨.ret (some data.length), { s with ctx := s.ctx.store data h },
      [.read .conn data.length]⟩ := by
  rw [← s.ctx.buflen_eq] at hd
  refine ⟨Conn.readBytes_length hd, ?_⟩
  unfold readRequest
  dsimp only
  split
  · next hn => rw [hn] at hd; simp at hd
  · next data' hs =>
    obtain rfl : data' = data := Option.some.inj (hs.symm.trans hd)
    rfl

theorem readRequest_failed (hd : conn.readBytes 4096 = none) :
    (readRequest conn).run s = ⟨.ret none, s, [.read .conn (-1)]⟩ := by
  rw [← s.ctx.buflen_eq] at hd
  unfold readRequest
  dsimp only
  split
  · rfl
  · next data' hs => rw [hs] at hd; simp at hd

/-- The message is stored, logged and served. -/
theorem serveRequest_run (hd : conn.readBytes 4096 = some data) :
    (serveRequest C conn).run s =
      let s' := s.received data (Conn.readBytes_length hd)
      Ran.after [.read .conn data.length, .fprintf (requestLog data)]
        (Prog.andThen ((serve C s.ctx.cfg (requestOf C data) s.registry).ran C conn s') fun wrc =>
          pure (if data.length = 4096 then -1 else 0, wrc)) := by
  have hle := Conn.readBytes_length hd
  have hreg : (s.received data hle).registry = s.registry := ApiState.received_registry hle
  have hcfg : (s.received data hle).ctx.cfg = s.ctx.cfg := ApiState.received_cfg hle
  obtain ⟨h, hread⟩ := readRequest_run conn hd (s := s)
  unfold serveRequest requestOf requestLog
  rw [Prog.bind_of_ret hread]
  dsimp only
  rw [Prog.state_bind_run]
  have hbuflen : (s.ctx.store data h).buflen = 4096 := s.ctx.buflen_eq
  by_cases hl : data.length = 4096
  · have hs : (⟨s.ctx.store data h, s.slirp⟩ : ApiState L) = s.received data hle := by
      unfold ApiState.received ApiCtx.received
      simp only [if_pos hl]
    have herr : (writeResponse conn (errorText "too large message")).run (s.received data hle) =
        Done.ran C conn (s.received data hle)
          ⟨[], s.registry, .ret (.error (.message .tooLarge))⟩ := by
      rw [← hreg]; exact writeError_run C conn (.message .tooLarge) (s.received data hle)
    simp only [hbuflen, if_pos hl, Prog.call_bind_run, Ran.after_after, hs]
    rw [Prog.bind_run, herr]
    rfl
  · have hs : (⟨(s.ctx.store data h).terminate data.length, s.slirp⟩ : ApiState L) =
        s.received data hle := by
      unfold ApiState.received ApiCtx.received
      simp only [if_neg hl]
    have hterm : (terminateRequest data.length).run (⟨s.ctx.store data h, s.slirp⟩ : ApiState L) =
        ⟨.ret (), s.received data hle, []⟩ := by
      rw [← hs]
      exact if_pos (by rw [hbuflen]; omega)
    simp only [hbuflen, if_neg hl]
    rw [Prog.bind_of_ret hterm, Prog.state_bind_run, Prog.call_bind_run, cstr_received hle hl,
      Prog.bind_run, apiHandleReq_run, ← parsedRequest_cstr, cstr_received hle hl,
      parsedRequest_cstr, hreg, hcfg, Ran.after_nil, Ran.after_after]
    rfl

/-- **On a message that was read, `api_handler` does what the service does.** -/
theorem apiHandler_served (ha : 0 ≤ conn.acceptRc) (hd : conn.readBytes 4096 = some data) :
    (apiHandler C conn).run s =
      (serve C s.ctx.cfg (requestOf C data) s.registry).handled C conn
        (s.received data (Conn.readBytes_length hd)) data := by
  unfold apiHandler
  rw [Prog.call_bind_run, if_neg (by omega), Prog.bind_run, serveRequest_run C conn hd]
  unfold Done.handled Done.ran
  rcases (serve C s.ctx.cfg (requestOf C data) s.registry) with ⟨calls, reg, reply | why⟩
  · by_cases hl : data.length = 4096
    · simp [hl, Prog.pure_run, Ran.after]
    · simp only [hl, if_false, Prog.pure_run, Prog.andThen_ret, Prog.call_bind_run, Ran.after,
        true_and, ne_eq]
      -- a result of 0 is returned as 0
      have hwrc : ∀ wrc : ℤ, (if ¬ wrc = 0 then wrc else 0) = wrc := by
        intro wrc; split <;> omega
      simp [hwrc]
  · rfl

/-- The calls of `api_handler` when no message is read. -/
def Conn.unservedCalls (conn : Conn) : List Call :=
  if conn.acceptRc < 0 then
    [.accept .api conn.acceptRc, .perror (bytes "api_handler: accept")]
  else
    [.accept .api conn.acceptRc, .read .conn (-1), .perror (bytes "api_handler: read"),
      .shutdown .conn, .close .conn]

theorem apiHandler_unserved_run (hu : conn.acceptRc < 0 ∨ conn.readBytes 4096 = none) :
    (apiHandler C conn).run s = ⟨.ret (-1), s, conn.unservedCalls⟩ := by
  unfold apiHandler Conn.unservedCalls
  by_cases ha : conn.acceptRc < 0
  · rw [Prog.call_bind_run, if_pos ha, if_pos ha]; rfl
  · rw [Prog.call_bind_run, if_neg ha, if_neg ha, serveRequest, Prog.bind_run,
      Prog.bind_of_ret (readRequest_failed conn (hu.resolve_left ha))]
    rfl

/-- **Without a message, `api_handler` changes nothing and writes no response.** -/
theorem apiHandler_unserved (hu : conn.acceptRc < 0 ∨ conn.readBytes 4096 = none) :
    ∃ calls, (apiHandler C conn).run s = ⟨.ret (-1), s, calls⟩ ∧
      ∀ e ∈ calls, ∀ fd d rc, e ≠ .write fd d rc := by
  refine ⟨conn.unservedCalls, apiHandler_unserved_run C conn hu, ?_⟩
  unfold Conn.unservedCalls
  split <;> simp

end

end Slirp4netns
