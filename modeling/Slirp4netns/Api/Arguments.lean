/-
  slirp4netns formalization — the arguments of `add_hostfwd` and
  `remove_hostfwd`.

  The manual gives `add_hostfwd` a protocol, two addresses that may be left out
  and two ports, and `remove_hostfwd` an id (`ValidAdd`, and a number equal to
  the id).  The handlers look each of them up with a default for a member that
  is missing or of another type, read strings up to a NUL, and cut numbers down
  to an `int`, which they only compare with 0.  So they act on other arguments
  too.  `arguments_exact_iff` says on which requests the two agree: those that
  the handler refuses, and those whose members have the right types and ranges
  (`AddTyped`, `removeId` equal to the number given).
-/
import Slirp4netns.Api.Consistency

namespace Slirp4netns

variable {L : Libslirp}

/-! ## The arguments of the manual -/

/-- The address that a member gives: the default one if it is missing or empty. -/
def ValidAddr (dflt : InAddr) (v : Option JsonValue) (addr : InAddr) : Prop :=
  ((v = none ∨ v = some (.string [])) ∧ addr = dflt) ∨
    ∃ s, v = some (.string s) ∧ s ≠ [] ∧ inetPton s = some addr

/-- The port that a member gives: a whole number from 1 to 65535. -/
def ValidPort (v : Option JsonValue) (port : ℤ) : Prop :=
  v = some (.number port) ∧ 1 ≤ port ∧ port ≤ 65535

/-- The forward that a request asks for by valid arguments. -/
structure ValidAdd (cfg : Slirp4netnsConfig) (jo : JsonObject) (key : HostKey) (guest : GuestEnd) :
    Prop where
  proto : (jsonObjectDotgetValue jo (bytes "arguments.proto") = some (.string (bytes "udp")) ∧
      key.isUdp = 1) ∨
    (jsonObjectDotgetValue jo (bytes "arguments.proto") = some (.string (bytes "tcp")) ∧
      key.isUdp = 0)
  hostAddr : ValidAddr anyAddr (jsonObjectDotgetValue jo (bytes "arguments.host_addr")) key.hostAddr
  hostPort : ValidPort (jsonObjectDotgetValue jo (bytes "arguments.host_port")) key.hostPort
  guestAddr : ValidAddr cfg.recommendedVguest
    (jsonObjectDotgetValue jo (bytes "arguments.guest_addr")) guest.guestAddr
  guestPort : ValidPort (jsonObjectDotgetValue jo (bytes "arguments.guest_port")) guest.guestPort

/-! ## Types and ranges -/

/-- A string without a NUL. -/
def CleanString (v : JsonValue) : Prop := ∃ s, v = .string s ∧ (0 : UInt8) ∉ s

/-- The members of an `add_hostfwd` request have the right types and ranges: the strings have no
    NUL, the addresses are strings if they are there, and the ports are whole numbers from 1 to
    65535. -/
structure AddTyped (jo : JsonObject) : Prop where
  proto : ∀ v, jsonObjectDotgetValue jo (bytes "arguments.proto") = some v → CleanString v
  hostAddr : ∀ v, jsonObjectDotgetValue jo (bytes "arguments.host_addr") = some v → CleanString v
  hostPort : ∃ port, ValidPort (jsonObjectDotgetValue jo (bytes "arguments.host_port")) port
  guestAddr : ∀ v, jsonObjectDotgetValue jo (bytes "arguments.guest_addr") = some v → CleanString v
  guestPort : ∃ port, ValidPort (jsonObjectDotgetValue jo (bytes "arguments.guest_port")) port

/-- What the handler checks of these members, for each one after its conversions. -/
structure AddPasses (C : Libc) (jo : JsonObject) : Prop where
  proto : jsonObjectDotgetString jo (bytes "arguments.proto") = some (bytes "udp") ∨
    jsonObjectDotgetString jo (bytes "arguments.proto") = some (bytes "tcp")
  hostAddr : ∀ s, jsonObjectDotgetString jo (bytes "arguments.host_addr") = some s → s ≠ [] →
    (inetPton s).isSome
  hostPort : C.toInt (jsonObjectDotgetNumber jo (bytes "arguments.host_port")) ≠ 0
  guestAddr : ∀ s, jsonObjectDotgetString jo (bytes "arguments.guest_addr") = some s → s ≠ [] →
    (inetPton s).isSome
  guestPort : C.toInt (jsonObjectDotgetNumber jo (bytes "arguments.guest_port")) ≠ 0

theorem addrOr_isSome (dflt : InAddr) {v : Option Bytes} :
    (addrOr dflt v).isSome ↔ ∀ s, v = some s → s ≠ [] → (inetPton s).isSome := by
  rcases v with _ | s
  · simp [addrOr, givenAddr]
  · by_cases hs : s = []
    · subst hs
      have hgiven : givenAddr (some []) = none := rfl
      simp [addrOr, hgiven]
    · have hgiven : givenAddr (some s) = some s := Option.filter_some_pos (by simpa using hs)
      simp [addrOr, hgiven, hs]

theorem protoCode_eq_some {proto : Bytes} {isUdp : ℤ} (h : protoCode proto = some isUdp) :
    (proto = bytes "udp" ∧ isUdp = 1) ∨ (proto = bytes "tcp" ∧ isUdp = 0) := by
  unfold protoCode at h
  split at h
  · next hp => exact Or.inl ⟨hp, (Option.some.inj h).symm⟩
  · split at h
    · next hp => exact Or.inr ⟨hp, (Option.some.inj h).symm⟩
    · simp at h

/-- The arguments that are accepted. -/
theorem checkAdd_accept_iff {C : Libc} (cfg : Slirp4netnsConfig) {jo : JsonObject} :
    (∃ fwd, checkAdd C cfg jo = .accept fwd) ↔ AddPasses C jo := by
  constructor
  · rintro ⟨fwd, h⟩
    obtain ⟨⟨proto, hproto, hcode⟩, hhost, hhp, hhp0, hguest, hgp, hgp0, -⟩ := checkAdd_accept h
    refine ⟨?_, (addrOr_isSome _).1 (Option.isSome_of_eq_some hhost), hhp ▸ hhp0,
      (addrOr_isSome _).1 (Option.isSome_of_eq_some hguest), hgp ▸ hgp0⟩
    rw [hproto]
    exact (protoCode_eq_some hcode).imp (fun h => by rw [h.1]) fun h => by rw [h.1]
  · rintro ⟨hproto, hhost, hhp, hguest, hgp⟩
    obtain ⟨hostAddr, hhost⟩ := Option.isSome_iff_exists.1 ((addrOr_isSome anyAddr).2 hhost)
    obtain ⟨guestAddr, hguest⟩ :=
      Option.isSome_iff_exists.1 ((addrOr_isSome cfg.recommendedVguest).2 hguest)
    have hudp : protoCode (bytes "udp") = some 1 := by decide
    have htcp : protoCode (bytes "tcp") = some 0 := by decide
    rcases hproto with hproto | hproto
    · simp [checkAdd, hproto, hudp, hhost, hhp, hguest, hgp]
    · simp [checkAdd, hproto, htcp, hhost, hhp, hguest, hgp]

theorem octet_not_nul {s : Bytes} {x : UInt8} (h : octet s = some x) : (0 : UInt8) ∉ s := by
  unfold octet at h
  split at h
  · next hs =>
    intro h0
    exact absurd (List.all_eq_true.1 hs.2.1 0 h0) (by decide)
  · simp at h

/-- An address is written without a NUL. -/
theorem inetPton_not_nul {s : Bytes} {a : InAddr} (h : inetPton s = some a) : (0 : UInt8) ∉ s := by
  have hs : [46].intercalate (s.splitOn 46) = s := List.intercalate_splitOn 46
  unfold inetPton at h
  split at h
  · next a b c d hsplit =>
    simp only [Option.bind_eq_bind, Option.bind_eq_some_iff] at h
    obtain ⟨_, ha, _, hb, _, hc, _, hd, -⟩ := h
    rw [← hs, hsplit]
    simp [List.intercalate, List.intersperse, octet_not_nul ha, octet_not_nul hb,
      octet_not_nul hc, octet_not_nul hd]
  · simp at h

/-- The address that the handler takes is the one of the manual if the member is a clean string
    or missing, and only then. -/
theorem addrOr_valid {dflt : InAddr} {v : Option JsonValue} {addr : InAddr}
    (h : addrOr dflt (jsonValueGetString v) = some addr) :
    ValidAddr dflt v addr ↔ ∀ w, v = some w → CleanString w := by
  constructor
  · rintro (⟨rfl | rfl, -⟩ | ⟨s, rfl, -, hs⟩) w hw
    · simp at hw
    · obtain rfl := Option.some.inj hw
      exact ⟨[], rfl, List.not_mem_nil⟩
    · obtain rfl := Option.some.inj hw
      exact ⟨s, rfl, inetPton_not_nul hs⟩
  · intro hv
    cases v with
    | none => exact Or.inl ⟨Or.inl rfl, (Option.some.inj h).symm⟩
    | some w =>
      obtain ⟨s, rfl, hs⟩ := hv w rfl
      rw [jsonValueGetString, cstr_eq_self hs] at h
      by_cases hnil : s = []
      · subst hnil
        exact Or.inl ⟨Or.inr rfl, (Option.some.inj h).symm⟩
      · have hgiven : givenAddr (some s) = some s := Option.filter_some_pos (by simpa using hnil)
        rw [addrOr, hgiven] at h
        exact Or.inr ⟨s, rfl, hnil, h⟩

/-- The same for a port. -/
theorem toInt_validPort {C : Libc} {v : Option JsonValue} :
    ValidPort v (C.toInt (jsonValueGetNumber v)) ↔ ∃ port, ValidPort v port := by
  constructor
  · exact fun h => ⟨_, h⟩
  · rintro ⟨port, rfl, h₁, h₂⟩
    have hint : IsInt port := ⟨by simp only [intMin]; omega, by simp only [intMax]; omega⟩
    rw [jsonValueGetNumber, C.toInt_intCast hint]
    exact ⟨rfl, h₁, h₂⟩

/-- The same for the protocol. -/
theorem protoCode_valid {v : Option JsonValue} {proto : Bytes} {isUdp : ℤ}
    (hs : jsonValueGetString v = some proto) (h : protoCode proto = some isUdp) :
    ((v = some (.string (bytes "udp")) ∧ isUdp = 1) ∨
      (v = some (.string (bytes "tcp")) ∧ isUdp = 0)) ↔ ∀ w, v = some w → CleanString w := by
  constructor
  · rintro (⟨rfl, -⟩ | ⟨rfl, -⟩) w hw
    all_goals
      obtain rfl := Option.some.inj hw
      exact ⟨_, rfl, by decide⟩
  · intro hv
    cases v with
    | none => simp [jsonValueGetString] at hs
    | some w =>
      obtain ⟨s, rfl, hnul⟩ := hv w rfl
      rw [jsonValueGetString, cstr_eq_self hnul, Option.some.injEq] at hs
      rw [hs]
      exact (protoCode_eq_some h).imp (fun h => ⟨by rw [h.1], h.2⟩) fun h => ⟨by rw [h.1], h.2⟩

/-- **An accepted forward is the one of the manual exactly if the arguments have the right types
    and ranges.** -/
theorem checkAdd_valid_iff {C : Libc} {cfg : Slirp4netnsConfig} {jo : JsonObject}
    {fwd : ApiHostfwd} (h : checkAdd C cfg jo = .accept fwd) :
    ValidAdd cfg jo fwd.key fwd.guest ↔ AddTyped jo := by
  obtain ⟨⟨proto, hproto, hcode⟩, hhost, hhp, -, hguest, hgp, -, -⟩ := checkAdd_accept h
  have h₁ := protoCode_valid hproto hcode
  have h₂ := addrOr_valid hhost
  have h₃ := addrOr_valid hguest
  have h₄ : ValidPort (jsonObjectDotgetValue jo (bytes "arguments.host_port")) fwd.hostPort ↔ _ :=
    hhp ▸ toInt_validPort
  have h₅ : ValidPort (jsonObjectDotgetValue jo (bytes "arguments.guest_port")) fwd.guestPort ↔ _ :=
    hgp ▸ toInt_validPort
  constructor
  · rintro ⟨hp, hha, hhp, hga, hgp⟩
    exact ⟨h₁.1 hp, h₂.1 hha, h₄.1 hhp, h₃.1 hga, h₅.1 hgp⟩
  · rintro ⟨hp, hha, hhp, hga, hgp⟩
    exact ⟨h₁.2 hp, h₂.2 hha, h₄.2 hhp, h₃.2 hga, h₅.2 hgp⟩

/-! ## What the handlers do with them -/

/-- The calls of libslirp that `api_handler` makes on a message. -/
theorem apiHandler_hostfwd_calls (C : Libc) {conn : Conn} (s : ApiState L) {data : Bytes}
    (hm : conn.message = some data) {e : Call} (he : e.IsHostfwd) :
    e ∈ ((apiHandler C conn).run s).calls ↔
      e ∈ (serve C s.ctx.cfg (requestOf C data) s.registry).slirpCalls := by
  obtain ⟨ha, hd⟩ := Conn.message_eq_some.1 hm
  rw [apiHandler_served C conn ha hd]
  generalize serve C s.ctx.cfg (requestOf C data) s.registry = d
  obtain ⟨calls, reg, reply | why⟩ := d
  · cases e <;> simp_all [Done.handled, Call.IsHostfwd]
  · cases e <;> simp_all [Done.handled, Call.IsHostfwd]

theorem serveAdd_refused {C : Libc} {cfg : Slirp4netnsConfig} {jo : JsonObject}
    (h : ∀ fwd, checkAdd C cfg jo ≠ .accept fwd) (r : Registry L) :
    (serveAdd C cfg jo r).slirpCalls = [] ∧ (serveAdd C cfg jo r).reg = r := by
  unfold serveAdd
  split
  · exact ⟨rfl, rfl⟩
  · exact ⟨rfl, rfl⟩
  · next fwd hc => exact absurd hc (h fwd)

theorem serveAdd_accepted {C : Libc} {cfg : Slirp4netnsConfig} {jo : JsonObject}
    {fwd : ApiHostfwd} (h : checkAdd C cfg jo = .accept fwd) (r : Registry L) :
    (serveAdd C cfg jo r).slirpCalls =
      [.slirpAddHostfwd fwd.key fwd.guest (L.slirpAddHostfwd r.slirp fwd.key fwd.guest).1] ∧
    ∀ e ∈ (serveAdd C cfg jo r).reg.hostfwds, e ∈ r.hostfwds ∨ e = { fwd with id := r.nextid } := by
  simp only [serveAdd, h, register]
  split
  · exact ⟨rfl, fun e he => Or.inl he⟩
  · split
    · exact ⟨rfl, fun e he => by simpa using he⟩
    · exact ⟨rfl, fun e he => Or.inl he⟩

/-- Only the forward that the manual means is handed to libslirp and listed. -/
def AddsAsked (C : Libc) (s : ApiState L) (conn : Conn) (jo : JsonObject) : Prop :=
  let ran := (apiHandler C conn).run s
  (∀ key guest rc, Call.slirpAddHostfwd key guest rc ∈ ran.calls →
    ValidAdd s.ctx.cfg jo key guest) ∧
  ∀ fwd ∈ ran.st.ctx.hostfwds, fwd ∈ s.ctx.hostfwds ∨ ValidAdd s.ctx.cfg jo fwd.key fwd.guest

/-- Only an entry whose id is the number given is deleted. -/
def RemovesAsked (C : Libc) (s : ApiState L) (conn : Conn) (jo : JsonObject) : Prop :=
  ∀ fwd ∈ s.ctx.hostfwds, fwd ∈ ((apiHandler C conn).run s).st.ctx.hostfwds ∨
    jsonObjectDotgetValue jo (bytes "arguments.id") = some (.number fwd.id)

/-- `api_handler` acts on the request of a connection as the manual says. -/
def ArgumentsExact (C : Libc) (s : ApiState L) (conn : Conn) : Prop :=
  ∀ data, conn.message = some data →
    match requestOf C data with
    | .add jo => AddsAsked C s conn jo
    | .remove jo => RemovesAsked C s conn jo
    | _ => True

/-- If the arguments of an `add_hostfwd` request pass, they have the right types and ranges. -/
def Request.AddTyped (C : Libc) : Request → Prop
  | .add jo => AddPasses C jo → Slirp4netns.AddTyped jo
  | _ => True

/-- If a `remove_hostfwd` request names an entry that libslirp will remove, its id is a number, and
    the conversion to `int` leaves it as it is. -/
def Request.RemoveTyped (C : Libc) (r : Registry L) : Request → Prop
  | .remove jo =>
    (∃ fwd ∈ r.hostfwds, fwd.id = removeId C jo ∧ 0 ≤ (L.slirpRemoveHostfwd r.slirp fwd.key).1) →
      jsonObjectDotgetValue jo (bytes "arguments.id") = some (.number (removeId C jo))
  | _ => True

theorem addsAsked_iff {C : Libc} {s : ApiState L} {conn : Conn} {data : Bytes} {jo : JsonObject}
    (hm : conn.message = some data) (hreq : requestOf C data = .add jo) :
    AddsAsked C s conn jo ↔ (Request.add jo).AddTyped C := by
  obtain ⟨hreg, -⟩ := apiHandler_message C s hm
  have hlist : ((apiHandler C conn).run s).st.ctx.hostfwds =
      (serveAdd C s.ctx.cfg jo s.registry).reg.hostfwds := by
    rw [hreq] at hreg; exact congrArg Registry.hostfwds hreg
  have hcall (key : HostKey) (guest : GuestEnd) (rc : ℤ) :=
    apiHandler_hostfwd_calls C s hm (e := .slirpAddHostfwd key guest rc) trivial
  simp only [hreq, serve] at hcall
  simp only [AddsAsked, Request.AddTyped, hlist, hcall, ← checkAdd_accept_iff s.ctx.cfg]
  by_cases hacc : ∃ fwd, checkAdd C s.ctx.cfg jo = .accept fwd
  · obtain ⟨fwd, hc⟩ := id hacc
    obtain ⟨hcalls, hnew⟩ := serveAdd_accepted hc s.registry
    constructor
    · rintro ⟨h, -⟩ -
      exact (checkAdd_valid_iff hc).1 (h _ _ _ (hcalls ▸ List.mem_singleton_self _))
    · intro h
      have hvalid := (checkAdd_valid_iff hc).2 (h hacc)
      constructor
      · intro key guest rc he
        rw [hcalls, List.mem_singleton] at he
        cases he
        exact hvalid
      · intro e he
        rcases hnew e he with he | rfl
        · exact Or.inl he
        · exact Or.inr hvalid
  · have hno : ∀ fwd, checkAdd C s.ctx.cfg jo ≠ .accept fwd := fun fwd hc => hacc ⟨fwd, hc⟩
    obtain ⟨hcalls, hreg⟩ := serveAdd_refused hno s.registry
    refine iff_of_true ⟨fun key guest rc he => ?_, fun e he => ?_⟩ fun h => absurd h hacc
    · rw [hcalls] at he
      simp at he
    · rw [hreg] at he
      exact Or.inl he

theorem serveRemove_refused {C : Libc} {jo : JsonObject} {r : Registry L}
    (h : ¬ ∃ fwd ∈ r.hostfwds, fwd.id = removeId C jo ∧
      0 ≤ (L.slirpRemoveHostfwd r.slirp fwd.key).1) :
    (serveRemove C jo r).reg.hostfwds = r.hostfwds := by
  unfold serveRemove
  split
  · rfl
  · next fwd hf =>
    have hid : removeId C jo = fwd.id := by simpa using List.find?_some hf
    dsimp only
    split
    · rfl
    · exact absurd ⟨fwd, List.mem_of_find?_eq_some hf, hid.symm, by omega⟩ h

theorem removesAsked_iff {C : Libc} {start : ApiStart L} {hs : List Handled} {s : ApiState L}
    (hrun : ApiRun C start hs s) {conn : Conn} {data : Bytes} {jo : JsonObject}
    (hm : conn.message = some data) (hreq : requestOf C data = .remove jo) :
    RemovesAsked C s conn jo ↔ (Request.remove jo).RemoveTyped C s.registry := by
  obtain ⟨hreg, -⟩ := apiHandler_message C s hm
  have hlist : ((apiHandler C conn).run s).st.ctx.hostfwds =
      (serveRemove C jo s.registry).reg.hostfwds := by
    rw [hreq] at hreg; exact congrArg Registry.hostfwds hreg
  simp only [RemovesAsked, Request.RemoveTyped, hlist]
  by_cases hgo : ∃ fwd ∈ s.registry.hostfwds, fwd.id = removeId C jo ∧
    0 ≤ (L.slirpRemoveHostfwd s.registry.slirp fwd.key).1
  · obtain ⟨fwd, hfwd, hid, hrc⟩ := id hgo
    have hissued := hrun.issued
    have hreply := serveRemove_listed hissued hfwd hid.symm hrc
    rcases hserve : serveRemove C jo s.registry with ⟨calls, reg, reply⟩
    rw [hserve] at hreply
    subst hreply
    have hserves : Serves C s.ctx.cfg s.registry reg (.remove jo) (.removed fwd) :=
      serveRemove_serves hserve
    cases hserves with
    | @removed _ _ a b _ hab _ hf =>
      have hab : s.ctx.hostfwds = a ++ fwd :: b := hab
      rw [hab] at hissued
      simp only [hab, hf, ← hid]
      constructor
      · intro h _
        refine (h fwd (by simp)).resolve_left fun hmem => ?_
        exact hissued.ne_of_split fwd hmem rfl
      · intro h e he
        rw [List.mem_append, List.mem_cons] at he
        rcases he with he | rfl | he
        · exact Or.inl (List.mem_append_left _ he)
        · exact Or.inr (h ⟨e, hfwd, rfl, hrc⟩)
        · exact Or.inl (List.mem_append_right _ he)
  · refine iff_of_true (fun fwd hfwd => Or.inl ?_) fun h => absurd h hgo
    rw [serveRemove_refused hgo]
    exact hfwd

/-- The entries are forwards of ports in every run whose accepted requests are typed. -/
theorem ApiRun.ports {C : Libc} {start : ApiStart L} {hs : List Handled} {s : ApiState L}
    (hrun : ApiRun C start hs s)
    (hs_typed : ∀ h ∈ hs, ∀ data, h.conn.message = some data →
      (requestOf C data).AddTyped C) :
    ∀ fwd ∈ s.ctx.hostfwds, (1 ≤ fwd.hostPort ∧ fwd.hostPort ≤ 65535) ∧
      1 ≤ fwd.guestPort ∧ fwd.guestPort ≤ 65535 := by
  refine (Run.history hrun (I := fun hs s => (∀ h ∈ hs, ∀ data, h.conn.message = some data →
    (requestOf C data).AddTyped C) →
    ∀ fwd ∈ s.ctx.hostfwds, (1 ≤ fwd.hostPort ∧ fwd.hostPort ≤ 65535) ∧
      1 ≤ fwd.guestPort ∧ fwd.guestPort ≤ 65535) ?_ ?_ hs_typed)
  · exact fun _ fwd hfwd => absurd hfwd List.not_mem_nil
  · intro hs t h u ih hstep htyped
    have hports := ih fun h' hh' => htyped h' (List.mem_append_left _ hh')
    rcases hstep.cases.2 with ⟨-, rfl, -⟩ | ⟨data, calls, reply, hm, hserve, -⟩
    · exact hports
    · have hreq := htyped h (by simp) data hm
      intro e he
      rcases (serve_serves hserve).mem he with he | ⟨jo, fwd, hadd, hc, rfl⟩
      · exact hports e he
      · rw [hadd] at hreq
        have hvalid := (checkAdd_valid_iff hc).2 (hreq ((checkAdd_accept_iff _).1 ⟨fwd, hc⟩))
        exact ⟨hvalid.hostPort.2, hvalid.guestPort.2⟩

/-- **`api_handler` does what the manual says exactly on the requests whose arguments are typed
    or refused**, and a registry that only such requests built lists ports only. -/
theorem arguments_exact_iff {C : Libc} {start : ApiStart L} {hs : List Handled} {s : ApiState L}
    (hrun : ApiRun C start hs s) :
    (∀ conn : Conn, ArgumentsExact C s conn ↔ ∀ data, conn.message = some data →
      (requestOf C data).AddTyped C ∧ (requestOf C data).RemoveTyped C s.registry) ∧
    ((∀ h ∈ hs, ∀ data, h.conn.message = some data → (requestOf C data).AddTyped C) →
      ∀ fwd ∈ s.ctx.hostfwds, (1 ≤ fwd.hostPort ∧ fwd.hostPort ≤ 65535) ∧
        1 ≤ fwd.guestPort ∧ fwd.guestPort ≤ 65535) := by
  refine ⟨fun conn => forall₂_congr fun data hm => ?_, hrun.ports⟩
  split
  · next jo hreq => rw [addsAsked_iff hm hreq, hreq]; exact (and_iff_left trivial).symm
  · next jo hreq => rw [removesAsked_iff hrun hm hreq, hreq]; exact (and_iff_right trivial).symm
  · next req hadd hremove =>
    generalize requestOf C data = req at hadd hremove ⊢
    cases req with
    | add jo => exact absurd rfl (hadd jo)
    | remove jo => exact absurd rfl (hremove jo)
    | bad e => exact iff_of_true trivial ⟨trivial, trivial⟩
    | list => exact iff_of_true trivial ⟨trivial, trivial⟩

/-- The forward of a typed request is listed under its ports. -/
theorem arguments_exact_sample :
    let s := ((apiHandler Libc.exact (sampleConn sampleAdd)).run sampleStart.state).st
    s.ctx.hostfwds.map ApiHostfwd.hostPort = [8080] ∧
      ∀ fwd ∈ s.ctx.hostfwds, (1 ≤ fwd.hostPort ∧ fwd.hostPort ≤ 65535) ∧
        1 ≤ fwd.guestPort ∧ fwd.guestPort ≤ 65535 := by
  intro s
  have hrun : ApiRun Libc.exact sampleStart [⟨sampleConn sampleAdd, 19, _⟩] s := sampleAdd_run
  refine ⟨by rw [sampleAdd_hostfwds]; rfl, (arguments_exact_iff hrun).2 fun h hh data hm => ?_⟩
  obtain rfl := List.mem_singleton.1 hh
  obtain rfl : bytes sampleAdd = data :=
    Option.some.inj ((by decide +kernel : _ = some (bytes sampleAdd)).symm.trans hm)
  let args : JsonObject :=
    [(bytes "proto", .string (bytes "tcp")), (bytes "host_port", .number 8080),
      (bytes "guest_port", .number 80)]
  let jo : JsonObject :=
    [(bytes "execute", .string (bytes "add_hostfwd")), (bytes "arguments", .object args)]
  have hreq : requestOf Libc.exact (bytes sampleAdd) = .add jo := by decide +kernel
  rw [hreq]
  refine fun _ => ⟨fun v hv => ?_, fun v hv => ?_, ⟨8080, ?_⟩, fun v hv => ?_, ⟨80, ?_⟩⟩
  · obtain rfl : JsonValue.string (bytes "tcp") = v := Option.some.inj
      ((by decide +kernel : _ = some (JsonValue.string (bytes "tcp"))).symm.trans hv)
    exact ⟨_, rfl, by decide +kernel⟩
  · exact absurd ((by decide +kernel : _ = none).symm.trans hv) (by simp)
  · exact ⟨by decide +kernel, by decide, by decide⟩
  · exact absurd ((by decide +kernel : _ = none).symm.trans hv) (by simp)
  · exact ⟨by decide +kernel, by decide, by decide⟩

/-- An address that is no string, a port above 65535 and one with a fraction are all accepted,
    and the entry is deleted by an id that is no integer. -/
theorem arguments_not_exact :
    let add := "\x7b\"execute\":\"add_hostfwd\",\"arguments\":\x7b\"proto\":\"tcp\"," ++
      "\"host_addr\":false,\"host_port\":70000,\"guest_port\":80.5\x7d\x7d"
    let remove := "\x7b\"execute\":\"remove_hostfwd\",\"arguments\":\x7b\"id\":1.5\x7d\x7d"
    let ran := (apiHandler Libc.exact (sampleConn add)).run sampleStart.state
    ran.st.ctx.hostfwds = [⟨1, 0, ⟨0, 0, 0, 0⟩, 70000, ⟨10, 0, 2, 100⟩, 80⟩] ∧
      ((apiHandler Libc.exact (sampleConn remove)).run ran.st).st.ctx.hostfwds = [] ∧
      ¬ ArgumentsExact Libc.exact sampleStart.state (sampleConn add) ∧
      ¬ ArgumentsExact Libc.exact ran.st (sampleConn remove) := by
  intro add remove ran
  have hlist : ran.st.ctx.hostfwds = [⟨1, 0, ⟨0, 0, 0, 0⟩, 70000, ⟨10, 0, 2, 100⟩, 80⟩] := by
    decide +kernel
  have hlist' : ((apiHandler Libc.exact (sampleConn remove)).run ran.st).st.ctx.hostfwds = [] := by
    decide +kernel
  have hmem : ⟨1, 0, ⟨0, 0, 0, 0⟩, 70000, ⟨10, 0, 2, 100⟩, 80⟩ ∈ ran.st.ctx.hostfwds := by
    rw [hlist]; exact List.mem_singleton_self _
  refine ⟨hlist, hlist', fun h => ?_, fun h => ?_⟩
  · let jo : JsonObject :=
      [(bytes "execute", .string (bytes "add_hostfwd")), (bytes "arguments", .object
        [(bytes "proto", .string (bytes "tcp")), (bytes "host_addr", .boolean false),
          (bytes "host_port", .number 70000), (bytes "guest_port", .number (.ofRat (161 / 2)))])]
    have hasked := h (bytes add) (by decide +kernel)
    rw [show requestOf Libc.exact _ = .add jo by decide +kernel] at hasked
    have hnew := hasked.2
    rw [show ((apiHandler Libc.exact (sampleConn add)).run sampleStart.state) = ran from rfl,
      hlist] at hnew
    rcases hnew _ (List.mem_singleton_self _) with hold | hvalid
    · exact List.not_mem_nil hold
    · exact absurd hvalid.hostPort.2.2 (by decide)
  · let jo : JsonObject :=
      [(bytes "execute", .string (bytes "remove_hostfwd")), (bytes "arguments", .object
        [(bytes "id", .number (.ofRat (3 / 2)))])]
    have hasked := h (bytes remove) (by decide +kernel)
    rw [show requestOf Libc.exact _ = .remove jo by decide +kernel] at hasked
    rcases hasked _ hmem with hkept | hid
    · rw [hlist'] at hkept
      exact List.not_mem_nil hkept
    · exact absurd hid (by decide +kernel)

end Slirp4netns
