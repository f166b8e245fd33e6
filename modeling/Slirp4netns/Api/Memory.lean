/-
  slirp4netns formalization — the API in memory (`api.c`).

  The functions of `Api.Handler`, with all that they allocate and free: the context
  and its buffer, the list of the forwards (a `GList`, whose elements and entries are
  one block each), the request that is parsed, and the response to `list_hostfwd`,
  which is built as a value, serialized, written and freed.  An entry is taken out of
  the list by its address.  Where GLib finds no memory the process aborts; parson
  returns `NULL`, and what the code does then is done here.  What does not touch the
  list is the code of `Api.Handler` itself (`onValues`).

  A `NULL` that reaches `strcmp` or `strlen` is an error in the use of memory, as are
  an access to a block that is not there and a store past the end of one.
-/
import Slirp4netns.Api.Service
import Slirp4netns.Lib.HeapState
import Slirp4netns.Parson.HeapParse
import Slirp4netns.Parson.HeapSerialize
import Slirp4netns.Parson.Lookup

namespace Slirp4netns.ApiHeap

open HeapProg
open Parson (HeapValue ObjectTable ArrayItems ObjectPtr StringPtr)

/-! ## The state -/

/-- An element of the list, with the `struct api_hostfwd` it points to. -/
structure HostfwdNode where
  node : ℕ
  data : ℕ
  fwd : ApiHostfwd

/-- `struct api_ctx` -/
structure Ctx where
  block : ℕ
  bufBlock : ℕ
  hostfwds : List HostfwdNode
  buf : Bytes
  buflen : ℕ
  hostfwdsNextid : ℤ
  cfg : Slirp4netnsConfig
  buflen_eq : buflen = 4096
  buf_length : buf.length = buflen
  nextid_isInt : IsInt hostfwdsNextid

/-- The state of the handlers in memory. -/
structure State (L : Libslirp) where
  ctx : Ctx
  slirp : L.State

/-- The values of a context, in these blocks and with this list. -/
def Ctx.of (block bufBlock : ℕ) (hostfwds : List HostfwdNode) (ctx : ApiCtx) : Ctx where
  block := block
  bufBlock := bufBlock
  hostfwds := hostfwds
  buf := ctx.buf
  buflen := ctx.buflen
  hostfwdsNextid := ctx.hostfwdsNextid
  cfg := ctx.cfg
  buflen_eq := ctx.buflen_eq
  buf_length := ctx.buf_length
  nextid_isInt := ctx.nextid_isInt

/-- What a context means. -/
def Ctx.abs (ctx : Ctx) : ApiCtx where
  buf := ctx.buf
  buflen := ctx.buflen
  hostfwds := ctx.hostfwds.map HostfwdNode.fwd
  hostfwdsNextid := ctx.hostfwdsNextid
  cfg := ctx.cfg
  buflen_eq := ctx.buflen_eq
  buf_length := ctx.buf_length
  nextid_isInt := ctx.nextid_isInt

variable {L : Libslirp} {α : Type}

/-- What a state means. -/
def State.abs (s : State L) : ApiState L := ⟨s.ctx.abs, s.slirp⟩

/-- The state with other values, apart from the list. -/
def State.withValues (s : State L) (t : ApiState L) : State L :=
  ⟨.of s.ctx.block s.ctx.bufBlock s.ctx.hostfwds t.ctx, t.slirp⟩

/-- Why the process ends. -/
inductive Halt where
  | stop (why : Stop)
  /-- an error in the use of memory -/
  | fault (f : Fault)
  /-- GLib has no memory -/
  | abort
  deriving DecidableEq

/-- What the end of a process on values is in memory. -/
def Halt.of : Stop → Halt
  | .nullPointer => .fault .nullPointer
  | .outOfBounds => .fault .outOfBounds
  | why => .stop why

/-- Code of the API in memory. -/
abbrev Api (L : Libslirp) := Prog (Heap × State L) Call Halt

/-- Code on memory. -/
def heap (p : HeapProg α) : Api L α := inside .fault p

/-- Code on the rest of the state. -/
def other (p : Prog (State L) Call Stop α) : Api L α := beside .of p

/-- Code on values that leaves the list alone. -/
def onValues (p : Slirp4netns.Api L α) : Api L α := other (p.lift State.abs State.withValues id id)

/-- A read of the context. -/
def readCtx : Api L Ctx := do
  let s ← other Prog.state
  heap (access s.ctx.block)
  return s.ctx

/-- `g_malloc0` -/
def gMalloc0 : Api L ℕ := do
  match ← heap malloc with
  | none => Prog.stop .abort
  | some b => return b

/-! ## Lists -/

/-- From the first element to the last. -/
def walk : List HostfwdNode → HeapProg Unit
  | [] => return ()
  | n :: nodes => do
    access n.node
    walk nodes

/-- The new element of `g_list_append`. -/
def gListAppend (nodes : List HostfwdNode) : Api L ℕ := do
  let node ← gMalloc0
  heap (walk nodes)
  return node

/-- `g_list_find_custom` with `api_handle_remove_list_hostfwd_find` -/
def gListFindCustom (id : ℤ) : List HostfwdNode → HeapProg (Option HostfwdNode)
  | [] => return none
  | n :: nodes => do
    access n.node
    access n.data
    if id = n.fwd.id then return some n else gListFindCustom id nodes

/-- `g_list_remove`: the element that points to `data` is unlinked and freed. -/
def gListRemove (data : ℕ) : List HostfwdNode → HeapProg (List HostfwdNode)
  | [] => return []
  | n :: nodes => do
    access n.node
    if n.data = data then do
      walk (nodes.take 1)
      free (some n.node)
      return nodes
    else do
      let nodes ← gListRemove data nodes
      return n :: nodes

/-- The entries of a list are freed. -/
def freeEntries : List HostfwdNode → HeapProg Unit
  | [] => return ()
  | n :: nodes => do
    access n.node
    free (some n.data)
    freeEntries nodes

/-- The elements of a list are freed. -/
def freeNodes : List HostfwdNode → HeapProg Unit
  | [] => return ()
  | n :: nodes => do
    free (some n.node)
    freeNodes nodes

/-- `g_list_free_full(list, g_free)` -/
def gListFreeFull (nodes : List HostfwdNode) : HeapProg Unit := do
  freeEntries nodes
  freeNodes nodes

/-! ## The context -/

/-- `api_ctx_alloc`; the buffer comes from `malloc` with any contents. -/
def apiCtxAlloc (cfg : Slirp4netnsConfig) (contents : ℕ → UInt8) : HeapProg (Option Ctx) := do
  match ← malloc with
  | none => return none
  | some block => do
    match ← malloc with
    | none => do
      free (some block)
      return none
    | some bufBlock => return some (.of block bufBlock [] (Slirp4netns.apiCtxAlloc cfg contents))

/-- `api_ctx_free` -/
def apiCtxFree (ctx : Ctx) : HeapProg Unit := do
  access ctx.block
  free (some ctx.bufBlock)
  gListFreeFull ctx.hostfwds
  free (some ctx.block)

/-- The context with another list. -/
def Ctx.setHostfwds (ctx : Ctx) (hostfwds : List HostfwdNode) : Ctx :=
  { ctx with hostfwds := hostfwds }

/-- `ctx->hostfwds = ...` -/
def setHostfwds (hostfwds : List HostfwdNode) : Prog (State L) Call Stop Unit :=
  Prog.update fun s => { s with ctx := s.ctx.setHostfwds hostfwds }

/-! ## add_hostfwd -/

/-- `strcmp(s, lit)` -/
def strcmpPtr (s : StringPtr) (lit : Bytes) : Api L ℤ :=
  match s with
  | none => Prog.stop (.fault .nullPointer)
  | some (block, chars) => do
    heap (access block)
    return strcmp (cstr chars) lit

/-- The comparisons of `arguments.proto`. -/
def protoIsUdp (protoS : StringPtr) : Api L ℤ := do
  let udp ← strcmpPtr protoS (bytes "udp")
  if udp = 0 then return 1
  else do
    let tcp ← strcmpPtr protoS (bytes "tcp")
    if tcp = 0 then return 0 else return -1

/-- `inet_pton`, or `dflt` in place of a string that is `NULL` or empty. -/
def addrOr (dflt : Option InAddr) (s : StringPtr) : HeapProg (Option InAddr) :=
  match s with
  | none => return dflt
  | some (block, chars) => do
    access block
    if cstr chars = [] then return dflt else return inetPton (cstr chars)

/-- An error is written, and the new entry is freed. -/
def refuse (conn : Conn) (fwd : ℕ) (desc : String) : Api L ℤ := do
  let wrc ← onValues (writeResponse conn (errorText desc))
  heap (free (some fwd))
  return wrc

/-- `api_handle_req_add_hostfwd` once the arguments of the forward are known. -/
def registerHostfwd (conn : Conn) (block : ℕ) (fwd : ApiHostfwd) : Api L ℤ := do
  let rc ← onValues (slirpAddHostfwd fwd.key fwd.guest)
  if rc < 0 then refuse conn block "add_hostfwd: slirp_add_hostfwd failed"
  else do
    let ctx ← readCtx
    let id ← onValues takeId
    heap (access block)
    let node ← gListAppend ctx.hostfwds
    other (setHostfwds (ctx.hostfwds ++ [⟨node, block, { fwd with id := id }⟩]))
    if (idText id).length > 64 then do
      other (Prog.call (.fprintf (bytes "fatal: unexpected id=" ++ intText id ++ bytes "\n")))
      Prog.stop (.stop .exitFailure)
    else onValues (writeResponse conn ((idText id).take 63))

/-- `api_handle_req_add_hostfwd` -/
def apiHandleReqAddHostfwd (C : Libc) (conn : Conn) (jo : ObjectPtr) : Api L ℤ := do
  let protoS ← heap (Parson.jsonObjectDotgetString jo (bytes "arguments.proto"))
  let hostAddrS ← heap (Parson.jsonObjectDotgetString jo (bytes "arguments.host_addr"))
  let guestAddrS ← heap (Parson.jsonObjectDotgetString jo (bytes "arguments.guest_addr"))
  let fwd ← gMalloc0
  let isUdp ← protoIsUdp protoS
  heap (access fwd)
  if isUdp = -1 then refuse conn fwd "add_hostfwd: bad arguments.proto"
  else do
    let hostAddr ← heap (addrOr (inetPton (bytes "0.0.0.0")) hostAddrS)
    match hostAddr with
    | none => refuse conn fwd "add_hostfwd: bad arguments.host_addr"
    | some hostAddr => do
      let hostPort ← heap (Parson.jsonObjectDotgetNumber jo (bytes "arguments.host_port"))
      if C.toInt hostPort = 0 then refuse conn fwd "add_hostfwd: bad arguments.host_port"
      else do
        let ctx ← readCtx
        let guestAddr ← heap (addrOr (some ctx.cfg.recommendedVguest) guestAddrS)
        match guestAddr with
        | none => refuse conn fwd "add_hostfwd: bad arguments.guest_addr"
        | some guestAddr => do
          let guestPort ← heap (Parson.jsonObjectDotgetNumber jo (bytes "arguments.guest_port"))
          if C.toInt guestPort = 0 then refuse conn fwd "add_hostfwd: bad arguments.guest_port"
          else
            registerHostfwd conn fwd
              ⟨0, isUdp, hostAddr, C.toInt hostPort, guestAddr, C.toInt guestPort⟩

/-! ## list_hostfwd -/

/-- A `JSON_Array *` -/
abbrev ArrayPtr := Option (ℕ × ArrayItems HeapValue)

/-- `json_value_get_array` -/
def jsonValueGetArray : Option HeapValue → HeapProg ArrayPtr
  | none => return none
  | some (.mk block _ data) => do
    access block
    match data with
    | .array array items => return some (array, items)
    | _ => return none

/-- The value of an object that has been changed. -/
def withObject (v : Option HeapValue) (o : ObjectPtr) : Option HeapValue :=
  match v, o with
  | some (.mk block parent _), some (object, t) => some (.mk block parent (.object object t))
  | v, _ => v

/-- The value of an array that has been changed. -/
def withArray (v : Option HeapValue) (a : ArrayPtr) : Option HeapValue :=
  match v, a with
  | some (.mk block parent _), some (array, items) => some (.mk block parent (.array array items))
  | v, _ => v

/-- `json_object_set_number` and `json_object_set_string`, of a pointer that may be `NULL`. -/
def setMember (init : HeapProg (Option HeapValue)) (name : Bytes) (o : ObjectPtr) :
    HeapProg ObjectPtr :=
  match o with
  | none => do
    let v ← init
    Parson.jsonValueFreePtr v
    return none
  | some (object, t) => do
    access object
    let (t, _) ← Parson.setWith init t name
    return some (object, t)

/-- `json_array_append_value`; whether it succeeded. -/
def jsonArrayAppendValue (a : ArrayPtr) (v : Option HeapValue) : HeapProg (ArrayPtr × Bool) :=
  match a, v with
  | some (array, items), some v => do
    access v.block
    if v.parent.isSome then return (some (array, items), false)
    else do
      access array
      let (items, ok) ← Parson.jsonArrayAdd items v
      return (some (array, items), ok)
  | a, _ => return (a, false)

/-- `json_object_set_value`, of pointers that may be `NULL`. -/
def jsonObjectSetValue (o : ObjectPtr) (name : Bytes) (v : Option HeapValue) :
    HeapProg ObjectPtr :=
  match o, v with
  | some (object, t), some v => do
    access object
    let (t, _) ← Parson.jsonObjectSetValue t name v
    return some (object, t)
  | o, _ => return o

/-- Several members are set, one after the other. -/
def setMembers : List (Bytes × HeapProg (Option HeapValue)) → ObjectPtr → HeapProg ObjectPtr
  | [], o => return o
  | (name, init) :: calls, o => do
    let o ← setMember init name o
    setMembers calls o

/-- The calls that make an entry. -/
def entryCalls (fwd : ApiHostfwd) (hostAddr guestAddr : Bytes) :
    List (Bytes × HeapProg (Option HeapValue)) :=
  [(bytes "id", Parson.jsonValueInitNumber fwd.id),
    (bytes "proto", Parson.jsonValueInitString (bytes (if fwd.isUdp ≠ 0 then "udp" else "tcp"))),
    (bytes "host_addr", Parson.jsonValueInitString hostAddr),
    (bytes "host_port", Parson.jsonValueInitNumber fwd.hostPort),
    (bytes "guest_addr", Parson.jsonValueInitString guestAddr),
    (bytes "guest_port", Parson.jsonValueInitNumber fwd.guestPort)]

/-- The entry that `api_handle_req_list_hostfwd_foreach` makes. -/
def makeEntry (n : HostfwdNode) : Api L (Option HeapValue) := do
  let entryValue ← heap Parson.jsonValueInitObject
  let entryObject ← heap (Parson.jsonValueGetObject entryValue)
  heap (access n.data)
  match inetNtop n.fwd.hostAddr inetAddrstrlen with
  | none => onValues (fatal "fatal: inet_ntop")
  | some hostAddr =>
    match inetNtop n.fwd.guestAddr inetAddrstrlen with
    | none => onValues (fatal "fatal: inet_ntop")
    | some guestAddr => do
      let entryObject ← heap (setMembers (entryCalls n.fwd hostAddr guestAddr) entryObject)
      return withObject entryValue entryObject

/-- `api_handle_req_list_hostfwd_foreach` -/
def apiHandleReqListHostfwdForeach (n : HostfwdNode) (entries : ArrayPtr) : Api L ArrayPtr := do
  heap (access n.node)
  let entryValue ← makeEntry n
  let r ← heap (jsonArrayAppendValue entries entryValue)
  if r.2 = false then do
    other (Prog.call (.fprintf (bytes "fatal: json_array_append_value\n")))
    Prog.stop (.stop .exitFailure)
  else return r.1

/-- `g_list_foreach` -/
def listEntries : List HostfwdNode → ArrayPtr → Api L ArrayPtr
  | [], entries => return entries
  | n :: nodes, entries => do
    let entries ← apiHandleReqListHostfwdForeach n entries
    listEntries nodes entries

/-- `json_serialize_to_string` of a pointer that may be `NULL`. -/
def serializePtr (C : Libc) (junk : ℕ → UInt8) : Option HeapValue → HeapProg StringPtr
  | none => return none
  | some v => Parson.jsonSerializeToString C false junk v

/-- The response is serialized, written and freed. -/
def writeRoot (C : Libc) (junk : ℕ → UInt8) (conn : Conn) (rootValue : Option HeapValue) :
    Api L ℤ := do
  let serialized ← heap (serializePtr C junk rootValue)
  match serialized with
  -- `strlen(NULL)`
  | none => Prog.stop (.fault .nullPointer)
  | some (block, text) => do
    heap (access block)
    let wrc ← onValues (writeResponse conn text)
    heap (free (some block))
    heap (Parson.jsonValueFreePtr rootValue)
    return wrc

/-- The value of the response. -/
def makeRoot : Api L (Option HeapValue) := do
  let rootValue ← heap Parson.jsonValueInitObject
  let entriesValue ← heap Parson.jsonValueInitArray
  let rootObject ← heap (Parson.jsonValueGetObject rootValue)
  let entriesArray ← heap (jsonValueGetArray entriesValue)
  let ctx ← readCtx
  let entriesArray ← listEntries ctx.hostfwds entriesArray
  let rootObject ← heap (jsonObjectSetValue rootObject (bytes "entries")
    (withArray entriesValue entriesArray))
  return withObject rootValue rootObject

/-- `api_handle_req_list_hostfwd` -/
def apiHandleReqListHostfwd (C : Libc) (junk : ℕ → UInt8) (conn : Conn) : Api L ℤ := do
  let rootValue ← makeRoot
  writeRoot C junk conn rootValue

/-! ## remove_hostfwd -/

/-- `api_handle_req_remove_hostfwd` -/
def apiHandleReqRemoveHostfwd (C : Libc) (conn : Conn) (jo : ObjectPtr) : Api L ℤ := do
  let id ← heap (Parson.jsonObjectDotgetNumber jo (bytes "arguments.id"))
  let ctx ← readCtx
  let found ← heap (gListFindCustom (C.toInt id) ctx.hostfwds)
  match found with
  | none => onValues (writeResponse conn (errorText "remove_hostfwd: bad arguments.id"))
  | some n => do
    heap (access n.data)
    let rc ← onValues (slirpRemoveHostfwd n.fwd.key)
    if rc < 0 then
      onValues (writeResponse conn (errorText "remove_hostfwd: slirp_remove_hostfwd failed"))
    else do
      let hostfwds ← heap (gListRemove n.data ctx.hostfwds)
      other (setHostfwds hostfwds)
      heap (free (some n.data))
      onValues (writeResponse conn (bytes "\x7b\"return\":\x7b\x7d\x7d"))

/-! ## Requests -/

section
variable (C : Libc) (junk : ℕ → UInt8) (conn : Conn)

/-- What `api_handle_req` does with a request that has been parsed. -/
def handleParsed (jv : HeapValue) : Api L ℤ := do
  let jo ← heap (Parson.jsonValueGetObject (some jv))
  match jo with
  | none => onValues (writeResponse conn (errorText "json_object() failed"))
  | some jo => do
    let execute ← heap (Parson.jsonObjectGetString (some jo) (bytes "execute"))
    match execute with
    | none => onValues (writeResponse conn (errorText "no execute found"))
    | some (block, chars) => do
      heap (access block)
      if strcmp (cstr chars) (bytes "add_hostfwd") = 0 then
        apiHandleReqAddHostfwd C conn (some jo)
      else if strcmp (cstr chars) (bytes "list_hostfwd") = 0 then
        apiHandleReqListHostfwd C junk conn
      else if strcmp (cstr chars) (bytes "remove_hostfwd") = 0 then
        apiHandleReqRemoveHostfwd C conn (some jo)
      else onValues (writeResponse conn (errorText "unknown execute"))

/-- `api_handle_req` -/
def apiHandleReq : Api L ℤ := do
  let ctx ← readCtx
  heap (access ctx.bufBlock)
  let jv ← heap (Parson.jsonParseString C ctx.buf)
  match jv with
  | none => onValues (writeResponse conn (errorText "cannot parse JSON"))
  | some jv => do
    let wrc ← handleParsed C junk conn jv
    heap (Parson.jsonValueFree jv)
    return wrc

/-- What `api_handler` does between `accept` and `shutdown`, with the values of `rc` and `wrc` at
    the end. -/
def serveRequest : Api L (ℤ × ℤ) := do
  let ctx ← readCtx
  heap (access ctx.bufBlock)
  let len ← onValues (readRequest conn)
  match len with
  | none => do
    other (Prog.call (.perror (bytes "api_handler: read")))
    return (-1, 0)
  | some len =>
    if len = ctx.buflen then do
      other (Prog.call (.fprintf (bytes "api_handler: too large message (>= " ++ decimal len ++
        bytes " bytes)\n")))
      let wrc ← onValues (writeResponse conn (errorText "too large message"))
      return (-1, wrc)
    else do
      onValues (terminateRequest len)
      let ctx ← readCtx
      heap (access ctx.bufBlock)
      other (Prog.call (.fprintf (bytes "api_handler: got request: " ++ cstr ctx.buf ++
        bytes "\n")))
      let wrc ← apiHandleReq C junk conn
      return (0, wrc)

/-- `api_handler` -/
def apiHandler : Api L ℤ := do
  other (Prog.call (.accept .api conn.acceptRc))
  if conn.acceptRc < 0 then do
    other (Prog.call (.perror (bytes "api_handler: accept")))
    return -1
  else do
    let r ← serveRequest C junk conn
    other (Prog.call (.shutdown .conn))
    other (Prog.call (.close .conn))
    return if r.1 = 0 ∧ r.2 ≠ 0 then r.2 else r.1

end

/-! ## Blocks -/

/-- The blocks of an element. -/
def HostfwdNode.blocks (n : HostfwdNode) : Multiset ℕ := n.node ::ₘ n.data ::ₘ 0

/-- The blocks of a list. -/
def nodeBlocks : List HostfwdNode → Multiset ℕ
  | [] => 0
  | n :: nodes => n.blocks + nodeBlocks nodes

/-- Everything that the context owns. -/
def Ctx.blocks (ctx : Ctx) : Multiset ℕ := ctx.block ::ₘ ctx.bufBlock ::ₘ nodeBlocks ctx.hostfwds

end Slirp4netns.ApiHeap
