/-
  slirp4netns formalization — the API socket (`api.c`): the context, the
  handlers of the three requests and `api_handler`.

  `api_handler` serves one connection: it accepts it, reads once, answers with
  one `write` and closes it.  What the client and the kernel do meanwhile is a
  `Conn`.  The handlers are programs over the context and libslirp's state; a
  pointer that may be `NULL` is an `Option`, and a `NULL` that reaches `strcmp`
  or `inet_pton` stops the program, as do `exit`, the overflow of
  `hostfwds_nextid` and a store past the end of the buffer.
-/
import Slirp4netns.Lib.Prog
import Slirp4netns.Libslirp
import Slirp4netns.Parson.Serialize

namespace Slirp4netns

/-- The fields of `struct slirp4netns_config` that the API and `do_slirp` read. -/
structure Slirp4netnsConfig where
  recommendedVguest : InAddr
  enableSandbox : Bool
  enableSeccomp : Bool
  deriving DecidableEq

/-- `struct api_hostfwd` -/
structure ApiHostfwd where
  id : ℤ
  isUdp : ℤ
  hostAddr : InAddr
  hostPort : ℤ
  guestAddr : InAddr
  guestPort : ℤ
  deriving DecidableEq

/-- The host's end. -/
def ApiHostfwd.key (fwd : ApiHostfwd) : HostKey := ⟨fwd.isUdp, fwd.hostAddr, fwd.hostPort⟩

/-- The guest's end. -/
def ApiHostfwd.guest (fwd : ApiHostfwd) : GuestEnd := ⟨fwd.guestAddr, fwd.guestPort⟩

/-- `struct api_ctx`. -/
structure ApiCtx where
  buf : Bytes
  buflen : ℕ
  hostfwds : List ApiHostfwd
  hostfwdsNextid : ℤ
  cfg : Slirp4netnsConfig
  buflen_eq : buflen = 4096
  buf_length : buf.length = buflen
  nextid_isInt : IsInt hostfwdsNextid

/-- `api_ctx_alloc`; the buffer comes from `malloc` with any contents. -/
def apiCtxAlloc (cfg : Slirp4netnsConfig) (contents : ℕ → UInt8) : ApiCtx where
  buf := (List.range 4096).map contents
  buflen := 4096
  hostfwds := []
  hostfwdsNextid := 1
  cfg := cfg
  buflen_eq := rfl
  buf_length := by rw [List.length_map, List.length_range]
  nextid_isInt := by decide

/-! ## Connections -/

/-- What `read` finds on a connection: an error, or the chunks in which the
    client's bytes come in, before the end of file. -/
inductive Input where
  | error
  | stream (chunks : List Bytes)
  deriving DecidableEq

/-- The kernel and the client during one `api_handler`. -/
structure Conn where
  acceptRc : ℤ
  input : Input
  writeRc : Bytes → ℤ

/-- One `read` into a buffer of `n` bytes: what there is of the first chunk, or
    nothing at the end of file; `none` is a failure. -/
def Conn.readBytes (conn : Conn) (n : ℕ) : Option Bytes :=
  match conn.input with
  | .error => none
  | .stream [] => some []
  | .stream (chunk :: _) => some (chunk.take n)

theorem Conn.readBytes_length {conn : Conn} {n : ℕ} {data : Bytes}
    (h : conn.readBytes n = some data) : data.length ≤ n := by
  unfold Conn.readBytes at h
  split at h
  · simp at h
  · simp only [Option.some.injEq] at h; simp [← h]
  · simp only [Option.some.injEq] at h; simp [← h]

/-- The context and libslirp's state. -/
structure ApiState (L : Libslirp) where
  ctx : ApiCtx
  slirp : L.State

/-- Code of the API. -/
abbrev Api (L : Libslirp) := Prog (ApiState L) Call Stop

variable {L : Libslirp}

/-! ## The calls that the handlers make -/

/-- `strcmp(s, lit)`. -/
def strcmpPtr (s : Option Bytes) (lit : Bytes) : Api L ℤ :=
  match s with
  | none => Prog.stop .nullPointer
  | some s => pure (strcmp s lit)

/-- `inet_pton(AF_INET, s, &addr)`. -/
def inetPtonPtr (s : Option Bytes) : Api L (Option InAddr) :=
  match s with
  | none => Prog.stop .nullPointer
  | some s => pure (inetPton s)

/-- `write(fd, text, strlen(text))` on the connection. -/
def writeResponse (conn : Conn) (text : Bytes) : Api L ℤ := do
  Prog.call (.write .conn (cstr text) (conn.writeRc (cstr text)))
  return conn.writeRc (cstr text)

/-- `slirp_add_hostfwd` -/
def slirpAddHostfwd (key : HostKey) (guest : GuestEnd) : Api L ℤ where
  run s :=
    let res := L.slirpAddHostfwd s.slirp key guest
    ⟨.ret res.1, { s with slirp := res.2 }, [.slirpAddHostfwd key guest res.1]⟩

/-- `slirp_remove_hostfwd` -/
def slirpRemoveHostfwd (key : HostKey) : Api L ℤ where
  run s :=
    let res := L.slirpRemoveHostfwd s.slirp key
    ⟨.ret res.1, { s with slirp := res.2 }, [.slirpRemoveHostfwd key res.1]⟩

/-- `perror` and `exit(EXIT_FAILURE)`. -/
def fatal {α : Type} (msg : String) : Api L α := do
  Prog.call (.perror (bytes msg))
  Prog.stop .exitFailure

/-- The `{"error":{"desc":..}}` literals of the handlers. -/
def errorText (desc : String) : Bytes :=
  bytes "\x7b\"error\":\x7b\"desc\":\"bad request: " ++ bytes desc ++ bytes "\"\x7d\x7d"

/-! ## add_hostfwd -/

/-- The next id has been taken. -/
def ApiCtx.nextId (ctx : ApiCtx) (h : ctx.hostfwdsNextid < intMax) : ApiCtx :=
  { ctx with
    hostfwdsNextid := ctx.hostfwdsNextid + 1
    nextid_isInt := by
      have := ctx.nextid_isInt
      unfold IsInt at *
      omega }

/-- `fwd->id = ctx->hostfwds_nextid; ctx->hostfwds_nextid++;` -/
def takeId : Api L ℤ where
  run s :=
    if h : s.ctx.hostfwdsNextid < intMax then
      ⟨.ret s.ctx.hostfwdsNextid, { s with ctx := s.ctx.nextId h }, []⟩
    else ⟨.stop .signedOverflow, s, []⟩

/-- An entry at the end of the list. -/
def ApiCtx.append (ctx : ApiCtx) (fwd : ApiHostfwd) : ApiCtx :=
  { ctx with hostfwds := ctx.hostfwds ++ [fwd] }

/-- Gives the entry its id, appends it to the list and returns the id. -/
def recordHostfwd (fwd : ApiHostfwd) : Api L ℤ := do
  let id ← takeId
  Prog.update fun s => { s with ctx := s.ctx.append { fwd with id := id } }
  return id

/-- `is_udp`: 1 for `"udp"`, 0 for `"tcp"`, and -1 for anything else. -/
def protoIsUdp (protoS : Option Bytes) : Api L ℤ := do
  if (← strcmpPtr protoS (bytes "udp")) = 0 then return 1
  else if (← strcmpPtr protoS (bytes "tcp")) = 0 then return 0
  else return -1

/-- The guest address, by default the one that the configuration recommends. -/
def guestAddrOr (guestAddrS : Option Bytes) : Api L (Option InAddr) := do
  if guestAddrS = none ∨ guestAddrS = some [] then
    return some (← Prog.state).ctx.cfg.recommendedVguest
  else inetPtonPtr guestAddrS

/-- The text that `snprintf` makes of the id. -/
def idText (id : ℤ) : Bytes := bytes "\x7b\"return\":\x7b\"id\":" ++ intText id ++ bytes "\x7d\x7d"

/-- `api_handle_req_add_hostfwd` once the arguments of the forward are known. -/
def registerHostfwd (conn : Conn) (fwd : ApiHostfwd) : Api L ℤ := do
  if (← slirpAddHostfwd fwd.key fwd.guest) < 0 then
    return ← writeResponse conn (errorText "add_hostfwd: slirp_add_hostfwd failed")
  let id ← recordHostfwd fwd
  -- `char idbuf[64]`: `snprintf` returns the length of the whole text and stores
  -- at most 63 bytes of it
  if (idText id).length > 64 then
    Prog.call (.fprintf (bytes "fatal: unexpected id=" ++ intText id ++ bytes "\n"))
    Prog.stop .exitFailure
  writeResponse conn ((idText id).take 63)

/-- `api_handle_req_add_hostfwd` -/
def apiHandleReqAddHostfwd (C : Libc) (conn : Conn) (jo : JsonObject) : Api L ℤ := do
  let protoS := jsonObjectDotgetString jo (bytes "arguments.proto")
  let hostAddrS := jsonObjectDotgetString jo (bytes "arguments.host_addr")
  let guestAddrS := jsonObjectDotgetString jo (bytes "arguments.guest_addr")
  let isUdp ← protoIsUdp protoS
  if isUdp = -1 then
    return ← writeResponse conn (errorText "add_hostfwd: bad arguments.proto")
  let hostAddrS :=
    if hostAddrS = none ∨ hostAddrS = some [] then some (bytes "0.0.0.0") else hostAddrS
  let some hostAddr ← inetPtonPtr hostAddrS
    | writeResponse conn (errorText "add_hostfwd: bad arguments.host_addr")
  let hostPort := C.toInt (jsonObjectDotgetNumber jo (bytes "arguments.host_port"))
  if hostPort = 0 then
    return ← writeResponse conn (errorText "add_hostfwd: bad arguments.host_port")
  let some guestAddr ← guestAddrOr guestAddrS
    | writeResponse conn (errorText "add_hostfwd: bad arguments.guest_addr")
  let guestPort := C.toInt (jsonObjectDotgetNumber jo (bytes "arguments.guest_port"))
  if guestPort = 0 then
    return ← writeResponse conn (errorText "add_hostfwd: bad arguments.guest_port")
  registerHostfwd conn ⟨0, isUdp, hostAddr, hostPort, guestAddr, guestPort⟩

/-! ## list_hostfwd -/

/-- `api_handle_req_list_hostfwd_foreach` -/
def apiHandleReqListHostfwdForeach (fwd : ApiHostfwd) (entries : List JsonValue) :
    Api L (List JsonValue) := do
  let some hostAddr := inetNtop fwd.hostAddr inetAddrstrlen | fatal "fatal: inet_ntop"
  let some guestAddr := inetNtop fwd.guestAddr inetAddrstrlen | fatal "fatal: inet_ntop"
  let o := jsonObjectSetNumber [] (bytes "id") fwd.id
  let o := jsonObjectSetString o (bytes "proto") (bytes (if fwd.isUdp ≠ 0 then "udp" else "tcp"))
  let o := jsonObjectSetString o (bytes "host_addr") hostAddr
  let o := jsonObjectSetNumber o (bytes "host_port") fwd.hostPort
  let o := jsonObjectSetString o (bytes "guest_addr") guestAddr
  let o := jsonObjectSetNumber o (bytes "guest_port") fwd.guestPort
  return entries ++ [.object o]

/-- `g_list_foreach`, with the array built so far. -/
def listEntries : List ApiHostfwd → List JsonValue → Api L (List JsonValue)
  | [], entries => return entries
  | fwd :: fwds, entries => do listEntries fwds (← apiHandleReqListHostfwdForeach fwd entries)

/-- `api_handle_req_list_hostfwd` -/
def apiHandleReqListHostfwd (C : Libc) (conn : Conn) : Api L ℤ := do
  let entries ← listEntries (← Prog.state).ctx.hostfwds []
  let root := jsonObjectSetValue [] (bytes "entries") (some (.array entries))
  writeResponse conn (jsonSerializeToString C (.object root))

/-! ## remove_hostfwd -/

/-- Take the first entry with this id out of the list.  The source finds the
    entry and then removes it by its address, which no other entry has. -/
def ApiCtx.unlist (ctx : ApiCtx) (id : ℤ) : ApiCtx :=
  { ctx with hostfwds := ctx.hostfwds.eraseP fun fwd => id = fwd.id }

/-- `api_handle_req_remove_hostfwd` -/
def apiHandleReqRemoveHostfwd (C : Libc) (conn : Conn) (jo : JsonObject) : Api L ℤ := do
  let id := C.toInt (jsonObjectDotgetNumber jo (bytes "arguments.id"))
  match (← Prog.state).ctx.hostfwds.find? fun fwd => id = fwd.id with
  | none => writeResponse conn (errorText "remove_hostfwd: bad arguments.id")
  | some fwd =>
    if (← slirpRemoveHostfwd fwd.key) < 0 then
      writeResponse conn (errorText "remove_hostfwd: slirp_remove_hostfwd failed")
    else
      Prog.update fun s => { s with ctx := s.ctx.unlist id }
      writeResponse conn (bytes "\x7b\"return\":\x7b\x7d\x7d")

/-! ## Requests -/

/-- What `api_handle_req` does with a message that is JSON. -/
def handleValue (C : Libc) (conn : Conn) (jv : JsonValue) : Api L ℤ :=
  match jsonValueGetObject (some jv) with
  | none => writeResponse conn (errorText "json_object() failed")
  | some jo =>
    match jsonObjectGetString jo (bytes "execute") with
    | none => writeResponse conn (errorText "no execute found")
    | some execute =>
      if strcmp execute (bytes "add_hostfwd") = 0 then apiHandleReqAddHostfwd C conn jo
      else if strcmp execute (bytes "list_hostfwd") = 0 then apiHandleReqListHostfwd C conn
      else if strcmp execute (bytes "remove_hostfwd") = 0 then apiHandleReqRemoveHostfwd C conn jo
      else writeResponse conn (errorText "unknown execute")

/-- `api_handle_req` -/
def apiHandleReq (C : Libc) (conn : Conn) : Api L ℤ := do
  match jsonParseString C (← Prog.state).ctx.buf with
  | none => writeResponse conn (errorText "cannot parse JSON")
  | some jv => handleValue C conn jv

/-- The kernel stores the bytes it read. -/
def ApiCtx.store (ctx : ApiCtx) (data : Bytes) (h : data.length ≤ ctx.buflen) : ApiCtx :=
  { ctx with
    buf := data ++ ctx.buf.drop data.length
    buf_length := by
      have := ctx.buf_length
      rw [List.length_append, List.length_drop]
      omega }

/-- `read(fd, ctx->buf, ctx->buflen)`; `none` is a failure. -/
def readRequest (conn : Conn) : Api L (Option ℕ) where
  run s :=
    match h : conn.readBytes s.ctx.buflen with
    | none => ⟨.ret none, s, [.read .conn (-1)]⟩
    | some data =>
      ⟨.ret (some data.length), { s with ctx := s.ctx.store data (Conn.readBytes_length h) },
        [.read .conn data.length]⟩

/-- A NUL at this position of the buffer. -/
def ApiCtx.terminate (ctx : ApiCtx) (len : ℕ) : ApiCtx :=
  { ctx with
    buf := ctx.buf.set len 0
    buf_length := by rw [List.length_set]; exact ctx.buf_length }

/-- `ctx->buf[len] = 0`. -/
def terminateRequest (len : ℕ) : Api L Unit where
  run s :=
    if len < s.ctx.buflen then ⟨.ret (), { s with ctx := s.ctx.terminate len }, []⟩
    else ⟨.stop .outOfBounds, s, []⟩

/-- What `api_handler` does between `accept` and `shutdown`, with the values of
    `rc` and `wrc` at the end. -/
def serveRequest (C : Libc) (conn : Conn) : Api L (ℤ × ℤ) := do
  match ← readRequest conn with
  | none =>
    Prog.call (.perror (bytes "api_handler: read"))
    return (-1, 0)
  | some len =>
    if len = (← Prog.state).ctx.buflen then
      Prog.call (.fprintf (bytes "api_handler: too large message (>= " ++ decimal len ++
        bytes " bytes)\n"))
      let wrc ← writeResponse conn (errorText "too large message")
      return (-1, wrc)
    else
      terminateRequest len
      let buf := (← Prog.state).ctx.buf
      Prog.call (.fprintf (bytes "api_handler: got request: " ++ cstr buf ++ bytes "\n"))
      let wrc ← apiHandleReq C conn
      return (0, wrc)

/-- `api_handler` -/
def apiHandler (C : Libc) (conn : Conn) : Api L ℤ := do
  Prog.call (.accept .api conn.acceptRc)
  if conn.acceptRc < 0 then
    Prog.call (.perror (bytes "api_handler: accept"))
    return -1
  let (rc, wrc) ← serveRequest C conn
  Prog.call (.shutdown .conn)
  Prog.call (.close .conn)
  return if rc = 0 ∧ wrc ≠ 0 then wrc else rc

end Slirp4netns
