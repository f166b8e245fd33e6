/-
  slirp4netns formalization — runs of API requests, and the invariants of the
  registry over them.

  `Serves` says once what a completed request can do to the registry: nothing
  (`error`, `listed`), append an entry under the next id (`added`), or take out
  the first entry with the requested id (`removed`).  Everything that follows
  is derived from these four cases.

  * `ApiStep` is one `api_handler` that returns; an `ApiRun` is a run of such
    steps from `api_ctx_alloc`, whatever the clients send and libslirp answers.
  * `ApiRun.issued`, `ApiRun.wf`, `ApiRun.mirrors`: over every run the ids are handed
    out once and in order, the entries are forwards that `add_hostfwd` can make,
    and, if libslirp's forwards are a finite map, the list mirrors that map.
-/
import Slirp4netns.Api.Service
import Slirp4netns.Lib.Ledger
import Slirp4netns.Lib.Run

namespace Slirp4netns

variable {L : Libslirp}

/-! ## What a request does -/

/-- What a completed request does to the registry. -/
inductive Serves (C : Libc) (cfg : Slirp4netnsConfig) (r r' : Registry L) : Request → Reply → Prop
  | error {req e} : r'.hostfwds = r.hostfwds → r'.nextid = r.nextid →
      L.fwds r'.slirp = L.fwds r.slirp → Serves C cfg r r' req (.error e)
  | added {jo fwd} : checkAdd C cfg jo = .accept fwd →
      0 ≤ (L.slirpAddHostfwd r.slirp fwd.key fwd.guest).1 → r.nextid < intMax →
      r'.hostfwds = r.hostfwds ++ [{ fwd with id := r.nextid }] → r'.nextid = r.nextid + 1 →
      L.fwds r'.slirp = Function.update (L.fwds r.slirp) fwd.key (some fwd.guest) →
      Serves C cfg r r' (.add jo) (.added { fwd with id := r.nextid })
  | listed : r' = r → Serves C cfg r r' .list (.listed r.hostfwds)
  | removed {jo fwd a b} : fwd.id = removeId C jo → r.hostfwds = a ++ fwd :: b →
      (∀ e ∈ a, e.id ≠ fwd.id) → r'.hostfwds = a ++ b → r'.nextid = r.nextid →
      L.fwds r'.slirp = Function.update (L.fwds r.slirp) fwd.key none →
      Serves C cfg r r' (.remove jo) (.removed fwd)

theorem register_serves {C : Libc} {cfg : Slirp4netnsConfig} {jo : JsonObject} {fwd : ApiHostfwd}
    (hc : checkAdd C cfg jo = .accept fwd) {r r' : Registry L} {calls : List Call} {reply : Reply}
    (h : register fwd r = ⟨calls, r', .ret reply⟩) : Serves C cfg r r' (.add jo) reply := by
  unfold register at h
  dsimp only at h
  split at h
  · next hrc =>
    simp only [Done.mk.injEq, Outcome.ret.injEq] at h
    obtain ⟨-, rfl, rfl⟩ := h
    exact .error rfl rfl (L.add_failed hrc)
  · next hrc =>
    split at h
    · next hid =>
      simp only [Done.mk.injEq, Outcome.ret.injEq] at h
      obtain ⟨-, rfl, rfl⟩ := h
      exact .added hc (by omega) hid rfl rfl (L.add_ok (by omega))
    · simp at h

theorem serveRemove_serves {C : Libc} {cfg : Slirp4netnsConfig} {jo : JsonObject}
    {r r' : Registry L} {calls : List Call} {reply : Reply}
    (h : serveRemove C jo r = ⟨calls, r', .ret reply⟩) : Serves C cfg r r' (.remove jo) reply := by
  unfold serveRemove at h
  split at h
  · simp only [Done.mk.injEq, Outcome.ret.injEq] at h
    obtain ⟨-, rfl, rfl⟩ := h
    exact .error rfl rfl rfl
  · next fwd hf =>
    dsimp only at h
    split at h
    · next hrc =>
      simp only [Done.mk.injEq, Outcome.ret.injEq] at h
      obtain ⟨-, rfl, rfl⟩ := h
      exact .error rfl rfl (L.remove_failed hrc)
    · next hrc =>
      simp only [Done.mk.injEq, Outcome.ret.injEq] at h
      obtain ⟨-, rfl, rfl⟩ := h
      -- the entry that is found is the one that is taken out
      obtain ⟨hid, a, b, hab, ha⟩ := List.find?_eq_some_iff_append.1 hf
      have hid' : removeId C jo = fwd.id := of_decide_eq_true hid
      have ha' : ∀ e ∈ a, ¬ removeId C jo = e.id := fun e he => by simpa using ha e he
      refine .removed hid'.symm hab (fun e he => ?_) ?_ rfl (L.remove_ok (by omega))
      · rw [← hid']; exact fun h => ha' e he h.symm
      · dsimp only
        rw [hab, List.eraseP_append_right _ (by simpa using ha'), List.eraseP_cons_of_pos]
        exact hid

/-- **The four things that a completed request can do.** -/
theorem serve_serves {C : Libc} {cfg : Slirp4netnsConfig} {req : Request} {r r' : Registry L}
    {calls : List Call} {reply : Reply} (h : serve C cfg req r = ⟨calls, r', .ret reply⟩) :
    Serves C cfg r r' req reply := by
  cases req with
  | bad e =>
    simp only [serve, Done.mk.injEq, Outcome.ret.injEq] at h
    obtain ⟨-, rfl, rfl⟩ := h
    exact .error rfl rfl rfl
  | add jo =>
    simp only [serve, serveAdd] at h
    split at h
    · simp at h
    · simp only [Done.mk.injEq, Outcome.ret.injEq] at h
      obtain ⟨-, rfl, rfl⟩ := h
      exact .error rfl rfl rfl
    · next hc => exact register_serves hc h
  | list =>
    simp only [serve, Done.mk.injEq, Outcome.ret.injEq] at h
    obtain ⟨-, rfl, rfl⟩ := h
    exact .listed rfl
  | remove jo => exact serveRemove_serves h

/-- Where an entry comes from: it was there, or it is the forward that was just accepted. -/
theorem Serves.mem {C : Libc} {cfg : Slirp4netnsConfig} {req : Request} {r r' : Registry L}
    {reply : Reply} (h : Serves C cfg r r' req reply) {e : ApiHostfwd} (he : e ∈ r'.hostfwds) :
    e ∈ r.hostfwds ∨ ∃ jo fwd, req = .add jo ∧ checkAdd C cfg jo = .accept fwd ∧
      e = { fwd with id := r.nextid } := by
  cases h with
  | error hf => exact Or.inl (hf ▸ he)
  | @added jo fwd hc _ _ hf =>
    rw [hf, List.mem_append, List.mem_singleton] at he
    rcases he with he | rfl
    · exact Or.inl he
    · exact Or.inr ⟨jo, fwd, rfl, hc, rfl⟩
  | listed hr => exact Or.inl (hr ▸ he)
  | removed _ hab _ hf =>
    rw [hf] at he
    rw [hab]
    exact Or.inl (((List.sublist_cons_self _ _).append_left _).subset he)

/-- The requests that are answered with an error. -/
def ApiError.Of : ApiError → Request → Prop
  | message e, req => req = .bad e
  | add _, req => ∃ jo, req = .add jo
  | remove _, req => ∃ jo, req = .remove jo

/-- An error is about the request that it answers. -/
theorem serve_error_of {C : Libc} {cfg : Slirp4netnsConfig} {req : Request} {r : Registry L}
    {e : ApiError} (h : (serve C cfg req r).reply = .ret (.error e)) : e.Of req := by
  cases req with
  | bad e' =>
    simp only [serve, Outcome.ret.injEq, Reply.error.injEq] at h
    rw [← h]; exact rfl
  | add jo =>
    simp only [serve, serveAdd] at h
    split at h
    · simp at h
    · simp only [Outcome.ret.injEq, Reply.error.injEq] at h
      rw [← h]; exact ⟨jo, rfl⟩
    · unfold register at h
      dsimp only at h
      split at h
      · simp only [Outcome.ret.injEq, Reply.error.injEq] at h
        rw [← h]; exact ⟨jo, rfl⟩
      · split at h <;> simp at h
  | list => simp [serve] at h
  | remove jo =>
    simp only [serve, serveRemove] at h
    split at h
    · simp only [Outcome.ret.injEq, Reply.error.injEq] at h
      rw [← h]; exact ⟨jo, rfl⟩
    · split at h
      · simp only [Outcome.ret.injEq, Reply.error.injEq] at h
        rw [← h]; exact ⟨jo, rfl⟩
      · simp at h

/-! ## Runs of requests -/

/-- The texts that were written to the connection. -/
def responses (calls : List Call) : List Bytes :=
  calls.filterMap fun
    | .write .conn data _ => some data
    | _ => none

theorem responses_append (calls calls' : List Call) :
    responses (calls ++ calls') = responses calls ++ responses calls' :=
  List.filterMap_append

/-- A connection that was handled: the result of `api_handler` and its calls. -/
structure Handled where
  conn : Conn
  rc : ℤ
  calls : List Call

/-- One `api_handler` that returns. -/
def ApiStep (C : Libc) (s : ApiState L) (h : Handled) (s' : ApiState L) : Prop :=
  (apiHandler C h.conn).run s = ⟨.ret h.rc, s', h.calls⟩

/-- What the program has when `api_ctx_alloc` returns. -/
structure ApiStart (L : Libslirp) where
  cfg : Slirp4netnsConfig
  contents : ℕ → UInt8
  slirp : L.State
  no_fwds : ∀ k, L.fwds slirp k = none

/-- The state at the start. -/
def ApiStart.state (start : ApiStart L) : ApiState L :=
  ⟨apiCtxAlloc start.cfg start.contents, start.slirp⟩

/-- `hs` are the connections handled since `api_ctx_alloc`, and `s` is the state after them. -/
abbrev ApiRun (C : Libc) (start : ApiStart L) (hs : List Handled) (s : ApiState L) : Prop :=
  Run (ApiStep C) start.state hs s

/-- The message of a connection, if one is read. -/
def Conn.message (conn : Conn) : Option Bytes :=
  if conn.acceptRc < 0 then none else conn.readBytes 4096

theorem Conn.message_eq_some {conn : Conn} {data : Bytes} :
    conn.message = some data ↔ 0 ≤ conn.acceptRc ∧ conn.readBytes 4096 = some data := by
  unfold Conn.message
  split
  · simp; omega
  · simp; omega

theorem Conn.message_eq_none {conn : Conn} :
    conn.message = none ↔ conn.acceptRc < 0 ∨ conn.readBytes 4096 = none := by
  unfold Conn.message
  split
  · next h => simp [h]
  · next h => simp [h]

/-- A call of libslirp's functions for host forwards. -/
def Call.IsHostfwd : Call → Prop
  | .slirpAddHostfwd .. => True
  | .slirpRemoveHostfwd .. => True
  | _ => False

theorem serve_slirpCalls (C : Libc) (cfg : Slirp4netnsConfig) (req : Request) (r : Registry L) :
    ∀ e ∈ (serve C cfg req r).slirpCalls, e.IsHostfwd := by
  cases req with
  | bad e => simp [serve]
  | list => simp [serve]
  | add jo =>
    simp only [serve, serveAdd]
    split
    · simp
    · simp
    · unfold register
      dsimp only
      split
      · simp [Call.IsHostfwd]
      · split <;> simp [Call.IsHostfwd]
  | remove jo =>
    simp only [serve, serveRemove]
    split
    · simp
    · split <;> simp [Call.IsHostfwd]

theorem responses_slirpCalls (C : Libc) (cfg : Slirp4netnsConfig) (req : Request)
    (r : Registry L) : responses (serve C cfg req r).slirpCalls = [] := by
  rw [responses, List.filterMap_eq_nil_iff]
  intro e he
  have := serve_slirpCalls C cfg req r e he
  cases e <;> simp_all [Call.IsHostfwd]

/-- The responses of a request. -/
def Done.responses (C : Libc) (d : Done L) : List Bytes :=
  match d.reply with
  | .stop _ => []
  | .ret reply => [reply.text C]

/-- How `api_handler` ends on a request, if `write` gives `wrc` on the text of the response. -/
def Done.out (C : Libc) (wrc : Bytes → ℤ) (d : Done L) : Outcome Stop ℤ :=
  match d.reply with
  | .stop why => .stop why
  | .ret reply => .ret (wrc (reply.text C))

/-- **What is seen of `api_handler` on a message**: the new registry, the responses and how it
    ends are those of the service. -/
theorem apiHandler_message (C : Libc) {conn : Conn} (s : ApiState L) {data : Bytes}
    (hm : conn.message = some data) :
    let d := serve C s.ctx.cfg (requestOf C data) s.registry
    let ran := (apiHandler C conn).run s
    ran.st.registry = d.reg ∧ ran.st.ctx.cfg = s.ctx.cfg ∧ responses ran.calls = d.responses C ∧
      ran.out = d.out C fun text => if data.length = 4096 then -1 else conn.writeRc text := by
  obtain ⟨ha, hd⟩ := Conn.message_eq_some.1 hm
  have hcalls := responses_slirpCalls C s.ctx.cfg (requestOf C data) s.registry
  have hcfg : ∀ r : Registry L,
      ((s.received data (Conn.readBytes_length hd)).withRegistry r).ctx.cfg = s.ctx.cfg :=
    fun _ => ApiState.received_cfg _
  simp only [apiHandler_served C conn ha hd, Done.handled, Done.responses, Done.out]
  generalize serve C s.ctx.cfg (requestOf C data) s.registry = d at hcalls ⊢
  obtain ⟨calls, reg, reply | why⟩ := d
  · refine ⟨rfl, hcfg reg, ?_, rfl⟩
    rw [responses_append, responses_append, hcalls]; rfl
  · refine ⟨rfl, hcfg reg, ?_, rfl⟩
    rw [responses_append, hcalls]; rfl

theorem apiHandler_no_message (C : Libc) {conn : Conn} (s : ApiState L)
    (hm : conn.message = none) :
    ((apiHandler C conn).run s).st = s ∧ responses ((apiHandler C conn).run s).calls = [] := by
  obtain ⟨calls, hrun, hno⟩ := apiHandler_unserved C conn (Conn.message_eq_none.1 hm) (s := s)
  rw [hrun]
  refine ⟨rfl, ?_⟩
  rw [responses, List.filterMap_eq_nil_iff]
  intro e he
  split
  · next d rc => exact absurd rfl (hno _ he _ d rc)
  · rfl

/-- **What a handled connection is**: one whose message was served and answered, or one without
    a message, which changed nothing. -/
theorem ApiStep.cases {C : Libc} {s s' : ApiState L} {h : Handled} (hs : ApiStep C s h s') :
    s'.ctx.cfg = s.ctx.cfg ∧
    ((h.conn.message = none ∧ s' = s ∧ responses h.calls = []) ∨
      ∃ data calls reply, h.conn.message = some data ∧
        serve C s.ctx.cfg (requestOf C data) s.registry = ⟨calls, s'.registry, .ret reply⟩ ∧
        responses h.calls = [reply.text C]) := by
  unfold ApiStep at hs
  cases hm : h.conn.message with
  | none =>
    obtain ⟨hst, hresp⟩ := apiHandler_no_message C s hm
    rw [hs] at hst hresp
    exact ⟨by rw [← hst], Or.inl ⟨rfl, hst, hresp⟩⟩
  | some data =>
    obtain ⟨hreg, hcfg, hresp, hout⟩ := apiHandler_message C s hm
    rw [hs] at hreg hcfg hresp hout
    rcases hserve : serve C s.ctx.cfg (requestOf C data) s.registry with ⟨calls, reg, reply | why⟩
    · rw [hserve] at hreg hresp
      exact ⟨hcfg, Or.inr ⟨data, calls, reply, rfl, by rw [hserve, hreg], hresp⟩⟩
    · rw [hserve] at hout
      simp [Done.out] at hout

/-- A handler that returns makes a step. -/
theorem ApiStep.of_out {C : Libc} {conn : Conn} {s : ApiState L} (rc : ℤ)
    (h : ((apiHandler C conn).run s).out = .ret rc) :
    ApiStep C s ⟨conn, rc, ((apiHandler C conn).run s).calls⟩ ((apiHandler C conn).run s).st := by
  rw [ApiStep, ← h]

/-! ## Invariants -/

/-- A forward as `add_hostfwd` makes them. -/
structure HostfwdWf (fwd : ApiHostfwd) : Prop where
  isUdp : fwd.isUdp = 0 ∨ fwd.isUdp = 1
  hostPort : fwd.hostPort ≠ 0
  guestPort : fwd.guestPort ≠ 0
  id_isInt : IsInt fwd.id
  hostPort_isInt : IsInt fwd.hostPort
  guestPort_isInt : IsInt fwd.guestPort

/-- The forwards that pass the checks. -/
theorem checkAdd_accept {C : Libc} {cfg : Slirp4netnsConfig} {jo : JsonObject} {fwd : ApiHostfwd}
    (h : checkAdd C cfg jo = .accept fwd) :
    (∃ proto, jsonObjectDotgetString jo (bytes "arguments.proto") = some proto ∧
      protoCode proto = some fwd.isUdp) ∧
    addrOr anyAddr (jsonObjectDotgetString jo (bytes "arguments.host_addr")) =
      some fwd.hostAddr ∧
    fwd.hostPort = C.toInt (jsonObjectDotgetNumber jo (bytes "arguments.host_port")) ∧
    fwd.hostPort ≠ 0 ∧
    addrOr cfg.recommendedVguest (jsonObjectDotgetString jo (bytes "arguments.guest_addr")) =
      some fwd.guestAddr ∧
    fwd.guestPort = C.toInt (jsonObjectDotgetNumber jo (bytes "arguments.guest_port")) ∧
    fwd.guestPort ≠ 0 ∧ fwd.id = 0 := by
  unfold checkAdd at h
  split at h
  · simp at h
  next proto hproto =>
  split at h
  · simp at h
  next isUdp hcode =>
  split at h
  · simp at h
  next hostAddr hhost =>
  dsimp only at h
  split at h
  · simp at h
  next hhp =>
  split at h
  · simp at h
  next guestAddr hguest =>
  split at h
  · simp at h
  next hgp =>
  simp only [AddCheck.accept.injEq] at h
  subst h
  exact ⟨⟨proto, hproto, hcode⟩, hhost, rfl, hhp, hguest, rfl, hgp, rfl⟩

/-- An accepted forward under its id is well-formed. -/
theorem HostfwdWf.of_accept {C : Libc} {cfg : Slirp4netnsConfig} {jo : JsonObject}
    {fwd : ApiHostfwd} (h : checkAdd C cfg jo = .accept fwd) {id : ℤ} (hid : IsInt id) :
    HostfwdWf { fwd with id := id } := by
  obtain ⟨⟨proto, -, hcode⟩, -, hhp, hhp0, -, hgp, hgp0, -⟩ := checkAdd_accept h
  exact ⟨protoCode_cases hcode, hhp0, hgp0, hid, hhp ▸ C.toInt_isInt _, hgp ▸ C.toInt_isInt _⟩

section runs

variable {C : Libc} {start : ApiStart L} {hs : List Handled} {s : ApiState L}

/-- What every step does to the registry, for invariants. -/
theorem ApiRun.registry_invariant {I : Registry L → Prop} (hrun : ApiRun C start hs s)
    (h₀ : I start.state.registry)
    (hstep : ∀ {cfg req r r' reply}, I r → Serves C cfg r r' req reply → I r') : I s.registry := by
  refine Run.invariant hrun (I := fun s => I s.registry) h₀ fun {t h u} ht hs => ?_
  rcases hs.cases.2 with ⟨-, rfl, -⟩ | ⟨data, calls, reply, -, hserve, -⟩
  · exact ht
  · exact hstep ht (serve_serves hserve)

/-- **The ids are handed out in order and once.** -/
theorem ApiRun.issued (hrun : ApiRun C start hs s) :
    Issued ApiHostfwd.id s.ctx.hostfwds s.ctx.hostfwdsNextid := by
  refine hrun.registry_invariant (I := fun r => Issued ApiHostfwd.id r.hostfwds r.nextid)
    Issued.nil fun {cfg req r r' reply} h hserves => ?_
  cases hserves with
  | error hf hn => rw [hf, hn]; exact h
  | added _ _ _ hf hn => rw [hf, hn]; exact h.add rfl
  | listed hr => rw [hr]; exact h
  | removed _ hab _ hf hn =>
    rw [hf, hn]
    rw [hab] at h
    exact h.sublist ((List.sublist_cons_self _ _).append_left _)

/-- **Every entry is a forward that `add_hostfwd` made.** -/
theorem ApiRun.wf (hrun : ApiRun C start hs s) :
    ∀ fwd ∈ s.ctx.hostfwds, HostfwdWf fwd := by
  refine hrun.registry_invariant (I := fun r => ∀ fwd ∈ r.hostfwds, HostfwdWf fwd)
    (fun fwd hfwd => absurd hfwd List.not_mem_nil) fun {cfg req r r' reply} h hserves e he => ?_
  rcases hserves.mem he with he | ⟨jo, fwd, -, hc, rfl⟩
  · exact h e he
  · exact HostfwdWf.of_accept hc r.nextid_isInt

end runs

/-- **The list mirrors libslirp's forwards**, if these are a finite map. -/
theorem ApiRun.mirrors {C : Libc} {L : MapLibslirp} {start : ApiStart L.toLibslirp}
    {hs : List Handled} {s : ApiState L.toLibslirp} (hrun : ApiRun C start hs s) :
    Mirrors ApiHostfwd.key ApiHostfwd.guest s.ctx.hostfwds (L.fwds s.slirp) := by
  refine hrun.registry_invariant
    (I := fun r => Mirrors ApiHostfwd.key ApiHostfwd.guest r.hostfwds (L.fwds r.slirp))
    (Mirrors.nil start.no_fwds) fun {cfg req r r' reply} h hserves => ?_
  cases hserves with
  | error hf _ ht => rw [hf, ht]; exact h
  | @added jo fwd _ hrc _ hf _ ht =>
    have hk : L.fwds r.slirp fwd.key = none := by
      by_contra hne
      have := L.add_present (g := fwd.guest) (Option.isSome_iff_ne_none.2 hne)
      omega
    rw [hf, ht]
    exact h.add (e := { fwd with id := r.nextid }) hk
  | listed hr => rw [hr]; exact h
  | removed _ hab _ hf _ ht =>
    rw [hf, ht]
    rw [hab] at h
    exact h.remove

/-! ## A sample session -/

/-- A fresh context, with a table as libslirp. -/
def sampleStart : ApiStart tableLibslirp.toLibslirp where
  cfg := ⟨⟨10, 0, 2, 100⟩, false, false⟩
  contents _ := 0
  slirp := ⟨[], []⟩
  no_fwds _ := rfl

/-- A client that sends a text in one piece and reads the whole response. -/
def sampleConn (text : String) : Conn := ⟨5, .stream [bytes text], fun d => d.length⟩

/-- A request for a forward of port 8080. -/
def sampleAdd : String :=
  "\x7b\"execute\":\"add_hostfwd\",\"arguments\":\x7b\"proto\":\"tcp\",\"host_port\":8080," ++
    "\"guest_port\":80\x7d\x7d"

/-- The session of this one request. -/
theorem sampleAdd_run :
    let ran := (apiHandler Libc.exact (sampleConn sampleAdd)).run sampleStart.state
    ApiRun Libc.exact sampleStart [⟨sampleConn sampleAdd, 19, ran.calls⟩] ran.st :=
  Run.single (ApiStep.of_out 19 (by decide +kernel))

theorem sampleAdd_hostfwds :
    ((apiHandler Libc.exact (sampleConn sampleAdd)).run sampleStart.state).st.ctx.hostfwds =
      [⟨1, 0, ⟨0, 0, 0, 0⟩, 8080, ⟨10, 0, 2, 100⟩, 80⟩] := by
  decide +kernel

/-- A request for a forward of port 5353, over UDP. -/
def sampleAddUdp : String :=
  "\x7b\"execute\":\"add_hostfwd\",\"arguments\":\x7b\"proto\":\"udp\",\"host_port\":5353," ++
    "\"guest_port\":53\x7d\x7d"

/-- The two requests, one after the other. -/
def sampleTwo : ApiState tableLibslirp.toLibslirp :=
  ((apiHandler Libc.exact (sampleConn sampleAddUdp)).run
    ((apiHandler Libc.exact (sampleConn sampleAdd)).run sampleStart.state).st).st

theorem sampleTwo_run : ∃ hs, ApiRun Libc.exact sampleStart hs sampleTwo :=
  ⟨_, .snoc sampleAdd_run (ApiStep.of_out 19 (by decide +kernel))⟩

theorem sampleTwo_hostfwds : sampleTwo.ctx.hostfwds =
    [⟨1, 0, ⟨0, 0, 0, 0⟩, 8080, ⟨10, 0, 2, 100⟩, 80⟩,
      ⟨2, 1, ⟨0, 0, 0, 0⟩, 5353, ⟨10, 0, 2, 100⟩, 53⟩] := by
  decide +kernel

end Slirp4netns
