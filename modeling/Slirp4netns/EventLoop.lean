/-
  slirp4netns formalization — what the event loop of `do_slirp` passes on.

  A turn looks at the tap device, at the exit descriptor and at the API socket, in
  this order, by their positions in the poll array; what the kernel reported there
  is `Tick.reports`.

  * `doSlirp_tap`: each packet that is read from the tap device is handed to
    libslirp at once, with the bytes that were read, and this is done in each turn
    in which the kernel reports the device, in the order of the turns;
  * `AtHead.api`: the API context and libslirp's host forwards are, at the head of
    the loop, what `api_handler` makes of the connections of those turns in which
    the kernel reported the API socket, one after the other.
-/
import Slirp4netns.Api.Registry
import Slirp4netns.PollArray

namespace Slirp4netns

variable {L : Libslirp}

/-! ## Events of a turn -/

/-- The kernel reports an event for the descriptor at this position of the array. -/
def Tick.reports (tick : Tick) (idx : ℕ) : Bool :=
  match tick.poll.result with
  | some (.ready _ revents) => revents.getD idx 0 ≠ 0
  | _ => false

/-- The position of the API socket. -/
def apiIndex (args : Args) : ℕ := if 0 ≤ args.exitfd then 2 else 1

/-- A connection to the API socket is there. -/
def Tick.serves (args : Args) (tick : Tick) : Bool :=
  args.apiSocket.isSome && tick.reports (apiIndex args)

section
variable {args : Args} {env : Startup} {tick : Tick} {v : Polls} {count : ℕ}
  {reported : List (BitVec 16)} {s : SlirpState L}

theorem PollInv.hasEvent (hv : PollInv args env v)
    (hpoll : tick.poll.result = some (.ready count reported))
    (hs : s.polls = (v.filled tick).reported reported) {i : ℕ}
    (hi : i < (fixedFds args env).length) : s.hasEvent i = tick.reports i := by
  have hlt : i < s.pollfds.length := by
    have hinv : PollInv args env ((v.filled tick).reported reported) := hv.filled_reported reported
    rw [← hs] at hinv
    have hle := hinv.le_length
    rw [hinv.nFds] at hle
    exact lt_of_lt_of_le hi hle
  have hrevents : s.pollfds[i].revents = reported.getD i 0 := by
    apply Polls.reported_revents (v := v.filled tick)
    rw [← hs]
    exact List.getElem?_eq_getElem hlt
  simp [SlirpState.hasEvent, Tick.reports, hpoll, List.getElem?_eq_getElem hlt, hrevents]

/-- The tap device is the first of the array. -/
theorem PollInv.tap_event (hv : PollInv args env v)
    (hpoll : tick.poll.result = some (.ready count reported))
    (hs : s.polls = (v.filled tick).reported reported) : s.hasEvent 0 = tick.reports 0 :=
  hv.hasEvent hpoll hs (by simp [fixedFds])

theorem PollInv.api_event (hv : PollInv args env v)
    (hpoll : tick.poll.result = some (.ready count reported))
    (hs : s.polls = (v.filled tick).reported reported) :
    s.hasEvent s.pollfdsApifdIdx = tick.serves args := by
  have hidx : s.pollfdsApifdIdx = if args.apiSocket.isSome then (v.nFds : ℤ) - 1 else -1 :=
    (congrArg Polls.apiIdx hs).trans hv.apiIdx
  rw [hidx, hv.nFds, Tick.serves]
  by_cases hapi : args.apiSocket.isSome = true
  · have hlen : (fixedFds args env).length = apiIndex args + 1 := by
      by_cases hexit : 0 ≤ args.exitfd <;> simp [fixedFds, apiIndex, hapi, hexit]
    have hpos : ((fixedFds args env).length : ℤ) - 1 = apiIndex args := by omega
    rw [if_pos hapi, hpos, hapi, Bool.true_and]
    exact hv.hasEvent hpoll hs (by omega)
  · simp [hapi, SlirpState.hasEvent]

end

/-! ## Acts on the tap device -/

/-- A `read` from the tap device, or a packet for libslirp. -/
def Act.OfTap : Act → Bool
  | call (.read .tap _) => true
  | slirpInput _ => true
  | _ => false

/-- The acts on the tap device. -/
def tapActs (es : List Act) : List Act := es.filter Act.OfTap

theorem tapActs_append (es fs : List Act) : tapActs (es ++ fs) = tapActs es ++ tapActs fs :=
  List.filter_append es fs

/-- What is done with the tap device in a turn: a packet is read and goes to libslirp. -/
def Tick.tapActs (tick : Tick) : List Act :=
  if tick.reports 0 then
    match tick.read with
    | none => [.call (.read .tap (-1))]
    | some pkt => [.call (.read .tap pkt.data.length), .slirpInput pkt.data]
  else []

/-- The API context and libslirp's host forwards. -/
def SlirpState.service (s : SlirpState L) : Option ApiCtx × L.State := (s.apictx, s.slirp)

/-- The same, and whether there is a buffer for packets. -/
def SlirpState.kept (s : SlirpState L) : (Option ApiCtx × L.State) × Bool :=
  (s.service, s.buf.isSome)

/-- Code that leaves the tap device and all of this alone. -/
abbrev Aside {α : Type} (p : SlirpProg L α) : Prop :=
  Prog.Keeps SlirpState.kept (fun e => e.OfTap = false) p

theorem onData_aside {α : Type} (p : CbProg α) : Aside (onData p : SlirpProg L α) :=
  onData_keeps (fun _ _ => rfl) (fun _ => rfl) p

theorem eprintf_aside (text : Bytes) : Aside (eprintf text : SlirpProg L Unit) := .call rfl

theorem pollFds_aside (tick : Tick) : Aside (pollFds (L := L) tick) := by
  refine pollFds_keeps (fun _ _ => rfl) (fun _ _ => rfl) (fun _ => rfl) (fun _ _ _ => rfl) ?_
    (fun _ _ _ => rfl) tick
  rfl

theorem afterEvents_aside (tick : Tick) (idxs : List ℕ) (pollout : ℤ) :
    Aside (afterEvents (L := L) tick idxs pollout) :=
  afterEvents_keeps (fun _ _ => rfl) (fun _ => rfl) (fun _ => rfl) (fun _ _ => rfl) tick idxs
    pollout

theorem signalReady_aside {args : Args} {env : Startup} :
    Aside (signalReady (L := L) args env) := by
  refine .when (.bind (retry_keeps ?_ (fun _ => ?_) _) fun _ => .call rfl) <;> rfl

theorem exiting_aside {args : Args} (ret : ℤ) : Aside (exiting (L := L) args ret) :=
  .bind (eprintf_aside _) fun _ => .bind .state fun _ => .bind (.when (.call rfl)) fun _ =>
    .bind (.when (.bind (.call rfl) fun _ => .call rfl)) fun _ => .bind (.call rfl) fun _ => .pure _

/-- The API handler reads from the connection only. -/
theorem apiHandler_no_tap (C : Libc) (conn : Conn) (s : ApiState L) :
    ∀ c ∈ ((apiHandler C conn).run s).calls, (Act.call c).OfTap = false := by
  by_cases hu : conn.acceptRc < 0 ∨ conn.readBytes 4096 = none
  · rw [apiHandler_unserved_run C conn hu]
    unfold Conn.unservedCalls
    split <;> simp [Act.OfTap]
  · obtain ⟨ha, hd⟩ := not_or.1 hu
    obtain ⟨data, hd⟩ := Option.ne_none_iff_exists'.1 hd
    rw [apiHandler_served C conn (by omega) hd]
    have hslirp : ∀ c ∈ (serve C s.ctx.cfg (requestOf C data) s.registry).slirpCalls,
        (Act.call c).OfTap = false := by
      intro c hc
      have hkind := serve_slirpCalls C s.ctx.cfg (requestOf C data) s.registry c hc
      cases c <;> first | rfl | exact hkind.elim
    unfold Done.handled
    split <;> simpa [or_imp, forall_and, Act.OfTap] using hslirp

/-! ## One turn -/

/-- What a turn does with the API context and libslirp's host forwards. -/
inductive TurnServes (C : Libc) (args : Args) (tick : Tick) :
    Option ApiCtx × L.State → Option ApiCtx × L.State → Prop
  | idle {g : Option ApiCtx × L.State} (hno : tick.serves args = false) : TurnServes C args tick g g
  | handled {ctx ctx' : ApiCtx} {slirp slirp' : L.State} {rc : ℤ} {calls : List Call}
      (hyes : tick.serves args = true)
      (hstep : ApiStep C ⟨ctx, slirp⟩ ⟨tick.conn, rc, calls⟩ ⟨ctx', slirp'⟩) :
      TurnServes C args tick (some ctx, slirp) (some ctx', slirp')

/-- The acts on the tap device so far, and parts of the state. -/
def Seen (acts : List Act) (g : Option ApiCtx × L.State) (v : Polls) (es : List Act)
    (s : SlirpState L) : Prop :=
  tapActs es = acts ∧ s.kept = (g, true) ∧ s.polls = v

theorem Seen.service {acts es : List Act} {g : Option ApiCtx × L.State} {v : Polls}
    {s : SlirpState L} (h : Seen acts g v es s) : s.service = g := congrArg Prod.fst h.2.1

theorem Seen.buf {acts es : List Act} {g : Option ApiCtx × L.State} {v : Polls}
    {s : SlirpState L} (h : Seen acts g v es s) : s.buf.isSome = true := congrArg Prod.snd h.2.1

theorem tapActs_snoc (acts es : List Act) (e : Act) (he : e.OfTap = false)
    (h : tapActs es = acts) : tapActs (es ++ [e]) = acts := by
  rw [tapActs_append, h, tapActs, List.filter_singleton, he]
  exact List.append_nil acts

theorem tapActs_handler (C : Libc) (conn : Conn) (s : ApiState L) :
    tapActs (((apiHandler C conn).run s).calls.map Act.call) = [] := by
  refine List.filter_eq_nil_iff.2 fun e he => ?_
  obtain ⟨c, hc, rfl⟩ := List.mem_map.1 he
  simp [apiHandler_no_tap C conn s c hc]

section
variable {C : Libc} {args : Args} {env : Startup} {tick : Tick} {v : Polls} {count : ℕ}
  {reported : List (BitVec 16)} {acts : List Act} {g : Option ApiCtx × L.State}

/-- Code that leaves all of this alone. -/
theorem Seen.triple {α : Type} {p : SlirpProg L α} (haside : Aside p) (hapart : Apart p) :
    Prog.Triple (Seen acts g v) p (fun _ => Seen acts g v) fun _ es _ => tapActs es = acts := by
  have hkeeps : Prog.Keeps (fun s : SlirpState L => (s.kept, s.polls))
      (fun e => e.OfTap = false) p :=
    ⟨fun s => Prod.ext (haside.same s) (hapart.same s), haside.calls⟩
  have hseen := Prog.Triple.of_keeps (c := ((g, true), v)) hkeeps (tapActs_snoc acts)
  refine (hseen.conseq ?_ ?_).conseq_stop ?_
  · rintro es s ⟨hacts, hkept, rfl⟩
    exact ⟨hacts, by rw [hkept]⟩
  · rintro _ es s ⟨hacts, hs⟩
    exact ⟨hacts, congrArg Prod.fst hs, congrArg Prod.snd hs⟩
  · rintro _ es s ⟨hacts, -⟩
    exact hacts

theorem pollFds_seen (hv : PollInv args env v) :
    Prog.Triple (fun es s => es = [] ∧ s.kept = (g, true) ∧ s.polls = v) (pollFds (L := L) tick)
      (fun r es s => tick.poll.result = some r.1 ∧ Seen [] g (v.filled tick) es s)
      fun _ es _ => tapActs es = [] := by
  have hkept := Prog.Triple.of_keeps (c := (g, true)) (pollFds_aside (L := L) tick)
    (tapActs_snoc [])
  refine (((pollFds_triple hv).and hkept).conseq ?_ ?_).conseq_stop ?_
  · rintro es s ⟨rfl, hg, hpolls⟩
    exact ⟨⟨rfl, hpolls⟩, rfl, hg⟩
  · rintro r es s ⟨⟨hpoll, -, -, hpolls⟩, hacts, hg⟩
    exact ⟨hpoll, hacts, hg, hpolls⟩
  · rintro _ es s ⟨-, hacts, -⟩
    exact hacts

theorem tapActs_snoc_tap {es : List Act} {e : Act} (he : e.OfTap = true)
    (h : tapActs es = acts) : tapActs (es ++ [e]) = acts ++ [e] := by
  rw [tapActs_append, h, tapActs, List.filter_singleton, he]
  rfl

/-- The packet of a turn is at the start of the buffer. -/
def HasPacket (tick : Tick) (s : SlirpState L) : Prop :=
  ∀ pkt, tick.read = some pkt → ∃ buf, s.buf = some buf ∧
    buf.bytes.take pkt.data.length = pkt.data

theorem readTap_seen {E : End → List Act → SlirpState L → Prop} :
    Prog.Triple (Seen [] g v) (readTap (L := L) tick)
      (fun rc es s => rc = tick.read.map (fun pkt => pkt.data.length) ∧
        Seen [.call (.read .tap (rc.elim (-1) Nat.cast))] g v es s ∧ HasPacket tick s) E := by
  intro es s h
  obtain ⟨buf, hbuf⟩ := Option.isSome_iff_exists.1 h.buf
  obtain ⟨hacts, hkept, hpolls⟩ := h
  cases hread : tick.read with
  | none =>
    have hrun : (readTap tick).run s = ⟨.ret none, s, [.call (.read .tap (-1))]⟩ := by
      simp only [readTap, Prog.state_bind_run, hbuf, hread]
      rfl
    rw [hrun]
    refine ⟨rfl, ⟨tapActs_snoc_tap rfl hacts, hkept, hpolls⟩, fun pkt hpkt => ?_⟩
    rw [hread] at hpkt
    cases hpkt
  | some pkt =>
    have hrun : (readTap tick).run s = ⟨.ret (some pkt.data.length),
        { s with buf := some (buf.store pkt) }, [.call (.read .tap pkt.data.length)]⟩ := by
      simp only [readTap, Prog.state_bind_run, hbuf, hread]
      rfl
    rw [hrun]
    refine ⟨rfl, ⟨tapActs_snoc_tap rfl hacts, ?_, hpolls⟩, fun pkt' hpkt => ?_⟩
    · rw [← hkept]
      simp only [SlirpState.kept, SlirpState.service, hbuf, Option.isSome_some]
    · cases hread.symm.trans hpkt
      exact ⟨_, rfl, List.take_left⟩

/-- libslirp is given the packet that was read. -/
theorem slirpInput_seen {E : End → List Act → SlirpState L → Prop} {pkt : Packet}
    (hread : tick.read = some pkt) :
    Prog.Triple (fun es s => Seen acts g v es s ∧ HasPacket tick s)
      (slirpInput (L := L) pkt.data.length)
      (fun _ => Seen (acts ++ [.slirpInput pkt.data]) g v) E := by
  rintro es s ⟨⟨hacts, hs⟩, hpacket⟩
  obtain ⟨buf, hbuf, htake⟩ := hpacket pkt hread
  have hrun : (slirpInput pkt.data.length).run s = ⟨.ret (), s, [.slirpInput pkt.data]⟩ := by
    simp only [slirpInput, Prog.state_bind_run, hbuf, htake]
    rfl
  rw [hrun]
  exact ⟨tapActs_snoc_tap rfl hacts, hs⟩

/-- A packet is read if the kernel reports the tap device, and goes to libslirp. -/
theorem tapEvent_seen (hv : PollInv args env v)
    (hpoll : tick.poll.result = some (.ready count reported)) (pollout : ℤ) :
    let w := (v.filled tick).reported reported
    Prog.Triple (Seen [] g w) (tapEvent (L := L) tick pollout) (fun _ => Seen tick.tapActs g w)
      fun _ es _ => tapActs es = tick.tapActs := by
  intro w
  refine .state_bind fun s₀ => ?_
  by_cases hw : s₀.polls = w
  swap
  · rintro es s ⟨⟨-, -, hs⟩, rfl⟩
    exact absurd hs hw
  have hevent := hv.tap_event hpoll hw
  have hforget {α : Type} {p : SlirpProg L α} {Q : α → List Act → SlirpState L → Prop}
      {E : End → List Act → SlirpState L → Prop} (h : Prog.Triple (Seen [] g w) p Q E) :
      Prog.Triple (fun es s => Seen [] g w es s ∧ s = s₀) p Q E :=
    h.conseq (fun _ _ hs => hs.1) fun _ _ _ hq => hq
  unfold Tick.tapActs
  refine .ite (fun hyes => hforget ?_) fun hno => hforget ?_
  · rw [← hevent, if_pos hyes]
    refine .bind readTap_seen fun rc => .fact ?_
    rintro rfl
    cases hread : tick.read with
    | none =>
      refine .bind ((Seen.triple (.call rfl) (.call rfl)).conseq (fun _ _ h => h.1)
        fun _ _ _ h => h) fun _ => .pure fun _ _ h => h
    | some pkt =>
      exact .bind (slirpInput_seen hread) fun _ =>
        .bind (Seen.triple (onData_aside _) (onData_apart _)) fun _ => .pure fun _ _ h => h
  · rw [← hevent, if_neg hno]
    exact .pure fun _ _ h => h

/-- The API socket is served if the kernel reports it. -/
theorem apiEvent_seen (hv : PollInv args env v)
    (hpoll : tick.poll.result = some (.ready count reported)) :
    let w := (v.filled tick).reported reported
    Prog.Triple (Seen acts g w) (apiEvent (L := L) C tick)
      (fun _ es s => ∃ g', TurnServes C args tick g g' ∧ Seen acts g' w es s)
      fun _ es _ => tapActs es = acts := by
  intro w
  refine .state_bind fun s₀ => ?_
  by_cases hw : s₀.polls = w
  swap
  · rintro es s ⟨⟨-, -, hs⟩, rfl⟩
    exact absurd hs hw
  have hevent := hv.api_event hpoll hw
  refine .ite (fun hyes => ?_) fun hno => ?_
  · rw [hevent] at hyes
    refine .bind (Q := fun _ es s => Seen acts g w es s ∧ s = s₀) (.call ?_) fun _ => ?_
    · rintro es s ⟨⟨hacts, hs⟩, rfl⟩
      exact ⟨⟨tapActs_snoc acts es _ rfl hacts, hs⟩, rfl⟩
    · split
      · exact .stop fun es s h => h.1.1
      · next ctx hctx =>
        refine .bind (Q := fun _ es s => ∃ g', TurnServes C args tick g g' ∧ Seen acts g' w es s) ?_
          fun rc => ?_
        · rintro es s ⟨⟨hacts, hkept, hpolls⟩, rfl⟩
          obtain ⟨hg, hbuf⟩ := Prod.mk.inj hkept
          subst hg
          have hquiet := tapActs_handler C tick.conn (⟨ctx, s.slirp⟩ : ApiState L)
          simp only [onApi, Prog.lift]
          rcases hrun : (apiHandler C tick.conn).run ⟨ctx, s.slirp⟩ with ⟨rc | why, t, calls⟩
          · rw [hrun] at hquiet
            refine ⟨(some t.ctx, t.slirp), ?_, ?_, ?_, hpolls⟩
            · have hserves := TurnServes.handled hyes hrun
              rwa [← hctx] at hserves
            · rw [tapActs_append, hquiet, List.append_nil, hacts]
            · rw [← hbuf]
              rfl
          · rw [hrun] at hquiet
            show tapActs (es ++ calls.map Act.call) = acts
            rw [tapActs_append, hquiet, List.append_nil, hacts]
        · refine .when (.call ?_)
          rintro es s ⟨g', hserves, hacts, hs⟩
          exact ⟨g', hserves, tapActs_snoc acts es _ rfl hacts, hs⟩
  · refine .pure ?_
    rintro es s ⟨h, rfl⟩
    exact ⟨g, .idle (hevent ▸ by simpa using hno), h⟩

/-- From `g_poll` to `slirp_pollfds_poll`, the acts on the tap device are those of the turn. -/
theorem dispatch_seen (hv : PollInv args env v)
    (hpoll : tick.poll.result = some (.ready count reported)) :
    Prog.Triple (Seen [] g (v.filled tick)) (dispatch (L := L) C tick count reported)
      (fun r es s => ∃ g', (r ≠ none → TurnServes C args tick g g') ∧
        Seen tick.tapActs g' ((v.filled tick).reported reported) es s)
      fun _ es _ => tapActs es = tick.tapActs := by
  have hset : Prog.Triple (Seen [] g (v.filled tick))
      (Prog.update fun s => s.setRevents reported : SlirpProg L Unit)
      (fun _ => Seen [] g ((v.filled tick).reported reported))
      fun _ es _ => tapActs es = tick.tapActs := by
    refine .update ?_
    rintro es s ⟨hacts, hs, hpolls⟩
    refine ⟨hacts, hs, ?_⟩
    rw [← hpolls]
    rfl
  refine .bind hset fun _ => .bind (tapEvent_seen hv hpoll count) fun pollout => ?_
  refine .state_bind fun s₀ => .ite (fun _ => ?_) fun _ => ?_
  · refine Prog.Triple.conseq (.bind (Seen.triple (eprintf_aside _) (eprintf_apart _)) fun _ =>
      .pure ?_) (fun _ _ h => h.1) fun _ _ _ h => h
    exact fun es s h => ⟨g, by simp, h⟩
  · refine Prog.Triple.conseq (.bind (apiEvent_seen hv hpoll) fun _ => .pure ?_)
      (fun _ _ h => h.1) fun _ _ _ h => h
    rintro es s ⟨g', hserves, h⟩
    exact ⟨g', fun _ => hserves, h⟩

/-- After `g_poll`, the acts on the tap device are those of the turn. -/
theorem handleEvents_seen {idxs : List ℕ} (hv : PollInv args env v)
    (hpoll : tick.poll.result = some (.ready count reported)) :
    Prog.Triple (Seen [] g (v.filled tick)) (handleEvents (L := L) C tick idxs count reported)
      (fun r es s => tapActs es = tick.tapActs ∧ s.buf.isSome = true ∧
        (r = none → TurnServes C args tick g s.service))
      fun _ es _ => tapActs es = tick.tapActs := by
  refine .bind (dispatch_seen hv hpoll) fun r => .of_exists fun g' => .fact fun hserves => ?_
  cases r with
  | none => exact .pure fun es s h => ⟨h.1, h.buf, by simp⟩
  | some pollout =>
    have hafter := Prog.Triple.of_keeps (c := (g', true))
      (afterEvents_aside (L := L) tick idxs pollout) (tapActs_snoc tick.tapActs)
    refine .bind ((hafter.conseq ?_ fun _ _ _ h => h).conseq_stop fun _ _ _ h => h.1) fun _ =>
      .pure ?_
    · exact fun es s h => ⟨h.1, h.2.1⟩
    · rintro es s ⟨hacts, hkept⟩
      obtain ⟨rfl, hbuf⟩ := Prod.mk.inj hkept
      exact ⟨hacts, hbuf, fun _ => hserves (by simp)⟩

/-- **One turn**: nothing is done with the tap device before `g_poll`, and after it what the turn
    says. -/
theorem turn_seen (hv : PollInv args env v) :
    Prog.Triple (fun es s => es = [] ∧ s.kept = (g, true) ∧ s.polls = v) (turn (L := L) C tick)
      (fun r es s => tapActs es = tick.tapActs ∧ s.buf.isSome = true ∧
        (r = none → TurnServes C args tick g s.service))
      fun _ es _ => tapActs es = tick.tapActs ∨ tapActs es = [] := by
  refine .bind ((pollFds_seen hv).conseq_stop fun _ _ _ h => .inr h) fun r => .fact fun hpoll => ?_
  obtain ⟨_ | ⟨count, reported⟩, idxs⟩ := r
  · refine .pure fun es s h => ?_
    have hnone : tick.tapActs = [] := by simp [Tick.tapActs, Tick.reports, hpoll]
    exact ⟨h.1.trans hnone.symm, h.buf, by simp⟩
  · exact (handleEvents_seen hv hpoll).conseq_stop fun _ _ _ h => .inl h

end

/-! ## The turns of a run -/

section
variable {C : Libc} {args : Args} {env : Startup} {slirp : L.State} {done more ticks : List Tick}
  {tick : Tick} {s s' : SlirpState L}

theorem AtHead.last (h : AtHead C args env slirp (done ++ [tick]) s') :
    ∃ s es, AtHead C args env slirp done s ∧ (turn C tick).run s = ⟨.ret none, s', es⟩ := by
  generalize hticks : done ++ [tick] = ticks at h
  cases h with
  | start => simp at hticks
  | step hhead hturn =>
    obtain ⟨rfl, hlast⟩ := List.append_inj' hticks rfl
    cases hlast
    exact ⟨_, _, hhead, hturn⟩

theorem AtHead.first (h : AtHead C args env slirp [] s) :
    ∃ s₁ es es', (startup args env).run (.init slirp) = ⟨.ret true, s₁, es⟩ ∧
      (signalReady args env).run s₁ = ⟨.ret (), s, es'⟩ := by
  generalize hticks : ([] : List Tick) = ticks at h
  cases h with
  | start hstartup hready => exact ⟨_, _, _, hstartup, hready⟩
  | step => simp at hticks

theorem AtHead.unique (h : AtHead C args env slirp done s) (h' : AtHead C args env slirp done s') :
    s = s' := by
  induction h generalizing s' with
  | start hstartup hready =>
    obtain ⟨s₁, es, es', hstartup', hready'⟩ := h'.first
    cases hstartup.symm.trans hstartup'
    cases hready.symm.trans hready'
    rfl
  | step hhead hturn ih =>
    obtain ⟨s₀, es, hhead', hturn'⟩ := h'.last
    cases ih hhead'
    cases hturn.symm.trans hturn'
    rfl

theorem AtHead.earlier (h : AtHead C args env slirp (done ++ more) s) :
    ∃ s', AtHead C args env slirp done s' := by
  induction more using List.reverseRecOn generalizing s with
  | nil => exact ⟨s, by simpa using h⟩
  | append_singleton more tick ih =>
    rw [← List.append_assoc] at h
    obtain ⟨s₀, es, hhead, -⟩ := h.last
    exact ih hhead

/-- After a turn that does not go on, there is no other one. -/
theorem AtHead.none_after (h : AtHead C args env slirp done s)
    (hend : ((turn C tick).run s).out ≠ .ret none) :
    ¬ AtHead C args env slirp (done ++ tick :: more) s' := by
  intro hmore
  rw [← List.singleton_append, ← List.append_assoc] at hmore
  obtain ⟨s₁, hnext⟩ := hmore.earlier
  obtain ⟨s₀, es, hhead, hturn⟩ := hnext.last
  rw [h.unique hhead, hturn] at hend
  exact hend rfl

/-- Code that leaves the tap device alone, and keeps the buffer. -/
abbrev KeepsBuf {α : Type} (p : SlirpProg L α) : Prop :=
  Prog.Keeps (fun s : SlirpState L => s.buf.isSome) (fun e => e.OfTap = false) p

theorem Aside.keepsBuf {α : Type} {p : SlirpProg L α} (h : Aside p) : KeepsBuf p :=
  ⟨fun s => congrArg Prod.snd (h.same s), h.calls⟩

theorem KeepsBuf.triple {p : SlirpProg L Bool} (hp : KeepsBuf p) :
    Prog.Triple (fun _ s => s.buf.isSome = true) p
      (fun b _ s => b = true → s.buf.isSome = true) fun _ _ _ => True := by
  intro es s hs
  split
  · exact fun _ => (hp.same s).trans hs
  · trivial

theorem enableSeccomp_aside (env : SeccompEnv) : Aside (enableSeccomp env : SlirpProg L ℤ) :=
  enableSeccomp_keeps (fun _ => rfl) (fun _ => rfl) env

theorem createSlirp_aside : Aside (createSlirp (L := L) env) :=
  .bind (onData_aside _) fun _ => .bind (.call rfl) fun _ =>
    .bind (.when (eprintf_aside _)) fun _ => .bind (.when (eprintf_aside _)) fun _ => .pure _

theorem mallocBuf_no_tap : (mallocBuf (L := L) env).AllCalls fun e => e.OfTap = false :=
  .bind (.call rfl) fun _ => .bind (.update _) fun _ => .pure _

theorem mallocBuf_buf : Prog.Triple (fun _ _ => True) (mallocBuf (L := L) env)
    (fun b _ s => b = true → s.buf.isSome = true) fun _ _ _ => True := by
  refine .bind (Q := fun _ _ _ => True) (.call fun _ _ h => h) fun _ =>
    .bind (Q := fun _ _ s => env.malloc = true → s.buf.isSome = true) (.update ?_) fun _ =>
      .pure fun _ _ h => h
  intro es s _ hok
  rw [if_pos hok]
  rfl

theorem addFixedFds_aside : Aside (addFixedFds (L := L) args) :=
  .bind (.update fun _ => rfl) fun _ => .bind (.when (.update fun _ => rfl)) fun _ => .pure _

theorem openApi_keepsBuf : KeepsBuf (openApi (L := L) args env) := by
  refine .ite (.bind (.call rfl) fun _ => .ite (.pure _) ?_) (.pure _)
  unfold allocApiCtx
  split
  · exact .bind (.call rfl) fun _ => .bind (.call rfl) fun _ => .pure _
  · exact .bind (.call rfl) fun _ => .bind (.update fun _ => rfl) fun _ => .pure _

theorem ignoreSigpipe_aside : Aside (ignoreSigpipe (L := L)) := .bind (.call rfl) fun _ => .pure _

theorem sandboxStep_aside : Aside (sandboxStep (L := L) args env) :=
  .ite (.bind (.call rfl) fun _ => .bind (.when (eprintf_aside _)) fun _ => .pure _) (.pure _)

theorem seccompStep_aside : Aside (seccompStep (L := L) args env) :=
  .ite (.bind (enableSeccomp_aside _) fun _ => .bind (.call rfl) fun _ =>
    .bind (.when (eprintf_aside _)) fun _ => .pure _) (.pure _)

/-- There is a buffer after the startup. -/
theorem startup_buf : Prog.Triple (fun _ _ => True) (startup (L := L) args env)
    (fun b _ s => b = true → s.buf.isSome = true) fun _ _ _ => True := by
  have hslirp : Prog.Triple (fun _ _ => True) (createSlirp (L := L) env)
      (fun b _ _ => b = true → True) fun _ _ _ => True := by
    intro es s _
    split <;> simp
  exact unlessErr_triple hslirp <| unlessErr_triple mallocBuf_buf <|
    unlessErr_triple addFixedFds_aside.keepsBuf.triple <| unlessErr_triple openApi_keepsBuf.triple <|
      unlessErr_triple ignoreSigpipe_aside.keepsBuf.triple <|
        unlessErr_triple sandboxStep_aside.keepsBuf.triple seccompStep_aside.keepsBuf.triple

/-- There is a buffer in the loop. -/
theorem AtHead.buf (h : AtHead C args env slirp done s) : s.buf.isSome = true := by
  induction h with
  | @start s₁ s es es' hstartup hready =>
    have hbuf := @startup_buf L args env [] (.init slirp) trivial
    rw [hstartup] at hbuf
    have hkept := (@signalReady_aside L args env).same s₁
    rw [hready] at hkept
    exact (congrArg Prod.snd hkept).trans (hbuf rfl)
  | @step done tick s s' es hhead hturn ih =>
    have hkept : s.kept = (s.service, true) := congrArg (Prod.mk s.service) ih
    have hseen := @turn_seen L C args env tick _ _ hhead.inv [] s ⟨rfl, hkept, rfl⟩
    rw [hturn] at hseen
    exact hseen.2.1

theorem AtHead.kept (h : AtHead C args env slirp done s) : s.kept = (s.service, true) :=
  congrArg (Prod.mk s.service) h.buf

theorem AtHead.tapActs_ret (h : AtHead C args env slirp done s) {r : Option ℤ}
    (hret : ((turn C tick).run s).out = .ret r) :
    tapActs ((turn C tick).run s).calls = tick.tapActs := by
  have hturn := @turn_seen L C args env tick _ _ h.inv [] s ⟨rfl, h.kept, rfl⟩
  rw [hret] at hturn
  exact hturn.1

theorem AtHead.tapActs_stop (h : AtHead C args env slirp done s) {why : End}
    (hstop : ((turn C tick).run s).out = .stop why) :
    tapActs ((turn C tick).run s).calls = tick.tapActs ∨
      tapActs ((turn C tick).run s).calls = [] := by
  have hturn := @turn_seen L C args env tick _ _ h.inv [] s ⟨rfl, h.kept, rfl⟩
  rwa [hstop] at hturn

theorem AtHead.turnServes (h : AtHead C args env slirp done s) {es : List Act}
    (hturn : (turn C tick).run s = ⟨.ret none, s', es⟩) :
    TurnServes C args tick s.service s'.service := by
  have hseen := @turn_seen L C args env tick _ _ h.inv [] s ⟨rfl, h.kept, rfl⟩
  rw [hturn] at hseen
  exact hseen.2.2 rfl

/-- **The API.**  At the head of the loop, the API context and libslirp's host forwards are what
    `api_handler` makes of the connections of those turns in which the kernel reported the API
    socket, in the order of the turns. -/
theorem AtHead.api {s₀ : SlirpState L} {ctx₀ : ApiCtx} (h : AtHead C args env slirp done s)
    (hfirst : AtHead C args env slirp [] s₀) (hctx : s₀.apictx = some ctx₀) :
    ∃ ctx hs, s.apictx = some ctx ∧ Run (ApiStep C) ⟨ctx₀, s₀.slirp⟩ hs ⟨ctx, s.slirp⟩ ∧
      hs.map Handled.conn = (done.filter (Tick.serves args)).map Tick.conn := by
  induction h with
  | start hstartup hready =>
    cases hfirst.unique (.start hstartup hready)
    exact ⟨ctx₀, [], hctx, .nil, rfl⟩
  | @step done tick s s' es hhead hturn ih =>
    obtain ⟨ctx, hs, hsome, hrun, hconns⟩ := ih
    have hserves := hhead.turnServes hturn
    generalize hg : s.service = g at hserves
    generalize hg' : s'.service = g' at hserves
    cases hserves with
    | idle hno =>
      have hsame : s'.apictx = s.apictx ∧ s'.slirp = s.slirp := Prod.mk.inj (hg'.trans hg.symm)
      refine ⟨ctx, hs, hsame.1.trans hsome, hsame.2 ▸ hrun, ?_⟩
      simp [List.filter_append, hno, hconns]
    | handled hyes hstep =>
      obtain ⟨hctx', rfl⟩ : s.apictx = _ ∧ s.slirp = _ := Prod.mk.inj hg
      obtain ⟨hnext, rfl⟩ : s'.apictx = _ ∧ s'.slirp = _ := Prod.mk.inj hg'
      cases hsome.symm.trans hctx'
      refine ⟨_, hs ++ [_], hnext, .snoc hrun hstep, ?_⟩
      simp [List.filter_append, hyes, hconns]

/-- The acts on the tap device, after the turns `done`, are those of the turns `polled`: of every
    turn that is completed, and at most of the one after them. -/
structure Polled (C : Libc) (args : Args) (env : Startup) (slirp : L.State)
    (done ticks polled : List Tick) (acts : List Act) : Prop where
  some_turns : polled <+: ticks
  acts_eq : acts = polled.flatMap Tick.tapActs
  completed : ∀ more s, more <+: ticks → AtHead C args env slirp (done ++ more) s → more <+: polled
  begun : polled ≠ [] → ∃ s, AtHead C args env slirp (done ++ polled.dropLast) s

theorem Polled.no_turn (hnone : ∀ s, ¬ AtHead C args env slirp done s) :
    Polled C args env slirp done ticks [] [] where
  some_turns := List.nil_prefix
  acts_eq := rfl
  completed _ _ _ hhead := by
    obtain ⟨s, h⟩ := hhead.earlier
    exact absurd h (hnone s)
  begun h := absurd rfl h

theorem Polled.stay (h : AtHead C args env slirp done s)
    (hend : ((turn C tick).run s).out ≠ .ret none) :
    Polled C args env slirp done (tick :: ticks) [] [] where
  some_turns := List.nil_prefix
  acts_eq := rfl
  completed more s' hmore hhead := by
    rcases List.prefix_cons_iff.1 hmore with rfl | ⟨more', rfl, -⟩
    · exact List.nil_prefix
    · exact absurd hhead (h.none_after hend)
  begun h := absurd rfl h

theorem Polled.last (h : AtHead C args env slirp done s)
    (hend : ((turn C tick).run s).out ≠ .ret none) :
    Polled C args env slirp done (tick :: ticks) [tick] tick.tapActs where
  some_turns := by simp
  acts_eq := by simp
  completed more s' hmore hhead := by
    rcases List.prefix_cons_iff.1 hmore with rfl | ⟨more', rfl, -⟩
    · exact List.nil_prefix
    · exact absurd hhead (h.none_after hend)
  begun _ := ⟨s, by simpa using h⟩

theorem Polled.cons {polled : List Tick} {acts : List Act}
    (h : AtHead C args env slirp done s)
    (hpolled : Polled C args env slirp (done ++ [tick]) ticks polled acts) :
    Polled C args env slirp done (tick :: ticks) (tick :: polled) (tick.tapActs ++ acts) where
  some_turns := by simpa using hpolled.some_turns
  acts_eq := by simp [hpolled.acts_eq]
  completed more s' hmore hhead := by
    rcases List.prefix_cons_iff.1 hmore with rfl | ⟨more', rfl, hmore'⟩
    · exact List.nil_prefix
    · have := hpolled.completed more' s' hmore' (by simpa using hhead)
      simpa using this
  begun _ := by
    rcases List.eq_nil_or_concat polled with rfl | ⟨init, last, rfl⟩
    · exact ⟨s, by simpa using h⟩
    · obtain ⟨s', hs'⟩ := hpolled.begun (by simp)
      refine ⟨s', ?_⟩
      rw [List.dropLast_cons_of_ne_nil (by simp)]
      simpa using hs'

theorem AtHead.loop_tap (h : AtHead C args env slirp done s) :
    ∃ polled, Polled C args env slirp done ticks polled (tapActs ((loop C ticks).run s).calls) := by
  induction ticks generalizing done s with
  | nil =>
    exact ⟨[], List.prefix_rfl, rfl, fun _ _ hmore _ => hmore, fun h => absurd rfl h⟩
  | cons tick ticks ih =>
    have hret := @AtHead.tapActs_ret L C args env slirp done tick s h
    have hstop := @AtHead.tapActs_stop L C args env slirp done tick s h
    have hstay := @Polled.stay L C args env slirp done ticks tick s h
    have hlast := @Polled.last L C args env slirp done ticks tick s h
    rw [loop, Prog.bind_run]
    rcases hr : (turn C tick).run s with ⟨(_ | ret) | why, s', es⟩
    · rw [hr] at hret
      obtain ⟨polled, hpolled⟩ := ih (h.step hr)
      refine ⟨tick :: polled, ?_⟩
      have hcons := Polled.cons h hpolled
      rw [← hret rfl, ← tapActs_append] at hcons
      exact hcons
    · rw [hr] at hret hlast
      refine ⟨[tick], ?_⟩
      show Polled C args env slirp done _ _ (tapActs (es ++ []))
      rw [List.append_nil, hret rfl]
      exact hlast (by simp)
    · rw [hr] at hstop hlast hstay
      rcases hstop rfl with hacts | hacts
      · exact ⟨[tick], hacts ▸ hlast (by simp)⟩
      · exact ⟨[], hacts ▸ hstay (by simp)⟩

/-! ## The tap device -/

theorem tapActs_of_allCalls {α : Type} {p : SlirpProg L α}
    (hp : p.AllCalls fun e => e.OfTap = false) (s : SlirpState L) :
    tapActs (p.run s).calls = [] :=
  List.filter_eq_nil_iff.2 fun e he => by rw [hp s e he]; decide

theorem startup_no_tap : (startup (L := L) args env).AllCalls fun e => e.OfTap = false :=
  unlessErr_calls createSlirp_aside.calls <| unlessErr_calls mallocBuf_no_tap <|
    unlessErr_calls addFixedFds_aside.calls <| unlessErr_calls openApi_keepsBuf.calls <|
      unlessErr_calls ignoreSigpipe_aside.calls <|
        unlessErr_calls sandboxStep_aside.calls seccompStep_aside.calls

/-- What is done with the tap device after the startup. -/
theorem serve_tap {s₁ : SlirpState L} {es : List Act}
    (hstartup : (startup args env).run (.init slirp) = ⟨.ret true, s₁, es⟩) :
    ∃ polled, Polled C args env slirp [] ticks polled
      (tapActs ((serveLoop C args env ticks >>= exiting args).run s₁).calls) := by
  have hready := tapActs_of_allCalls (@signalReady_aside L args env).calls s₁
  have hrun : (serveLoop C args env ticks >>= exiting args).run s₁ =
    Prog.andThen (Prog.andThen ((signalReady args env).run s₁) fun _ => loop C ticks)
      (exiting args) := rfl
  rcases hr : (signalReady args env).run s₁ with ⟨_ | why, s, es'⟩
  · rw [hr] at hready hrun
    obtain ⟨polled, hpolled⟩ := @AtHead.loop_tap L C args env slirp [] ticks s (.start hstartup hr)
    refine ⟨polled, ?_⟩
    rw [hrun, Prog.andThen_ret]
    rcases hloop : (loop C ticks).run s with ⟨ret | why, s', fs⟩
    · have hexit := tapActs_of_allCalls (@exiting_aside L args ret).calls s'
      rw [hloop] at hpolled
      have hcalls : tapActs (es' ++ fs ++ ((exiting args ret).run s').calls) = tapActs fs := by
        rw [tapActs_append, tapActs_append, hready, hexit, List.nil_append, List.append_nil]
      exact hcalls ▸ hpolled
    · rw [hloop] at hpolled
      have hcalls : tapActs (es' ++ fs) = tapActs fs := by
        rw [tapActs_append, hready, List.nil_append]
      exact hcalls ▸ hpolled
  · rw [hr] at hready hrun
    refine ⟨[], ?_⟩
    rw [hrun, show tapActs (Prog.andThen _ _).calls = [] from hready]
    refine .no_turn fun s' hhead => ?_
    obtain ⟨s₂, _, _, hstartup', hready'⟩ := hhead.first
    cases hstartup.symm.trans hstartup'
    cases hr.symm.trans hready'

/-- The tap device is polled at the first position. -/
theorem doSlirp_gPoll {fds : List (ℤ × BitVec 16)} {timeout : UInt32} {rc : ℤ}
    (h : .gPoll fds timeout rc ∈ ((doSlirp C args env ticks).run (.init slirp)).calls) :
    fds.head? = some (args.tapfd, (gIoIn ||| gIoHup).setWidth 16) := by
  rcases doSlirp_cases C args env slirp ticks with ⟨-, hsilent⟩ | ⟨s, hhead, -, hcalls⟩
  · exact absurd (hsilent _ h) (by simp [Act.OfPoll])
  · obtain ⟨before, tick, after, s', -, hhead', hmem⟩ := hhead.loop_calls (hcalls _ h rfl)
    rw [(hhead'.law tick).polled _ _ _ hmem]
    rfl

/-- **The tap device.**  In every run of `do_slirp`, the tap device is the first of the descriptors
    that `g_poll` gets.  Each `read` from it that gives a packet is followed by the call that hands
    the bytes of this packet to libslirp, and by no other one; there is one `read` in each turn in
    which the kernel reports the device, in the order of the turns, and none else.  `polled` are the
    turns so far: all that are completed, and possibly the one after them. -/
theorem doSlirp_tap (C : Libc) (args : Args) (env : Startup) (slirp : L.State)
    (ticks : List Tick) :
    (∀ fds timeout rc,
      .gPoll fds timeout rc ∈ ((doSlirp C args env ticks).run (.init slirp)).calls →
      fds.head? = some (args.tapfd, (gIoIn ||| gIoHup).setWidth 16)) ∧
    ∃ polled, polled <+: ticks ∧
      tapActs ((doSlirp C args env ticks).run (.init slirp)).calls =
        polled.flatMap Tick.tapActs ∧
      (∀ done s, done <+: ticks → AtHead C args env slirp done s → done <+: polled) ∧
      (polled ≠ [] → ∃ s, AtHead C args env slirp polled.dropLast s) := by
  refine ⟨fun _ _ _ => doSlirp_gPoll, ?_⟩
  suffices hsuff : ∃ polled, Polled C args env slirp [] ticks polled
      (tapActs ((doSlirp C args env ticks).run (.init slirp)).calls) by
    obtain ⟨polled, hturns, hacts, hcompleted, hbegun⟩ := hsuff
    exact ⟨polled, hturns, hacts, hcompleted, hbegun⟩
  have hsilent := tapActs_of_allCalls (@startup_no_tap L args env) (.init slirp)
  have hrun : (doSlirp C args env ticks).run (.init slirp) =
    Prog.andThen ((startup args env).run (.init slirp)) fun ok =>
      if ok then serveLoop C args env ticks >>= exiting args else exiting args (-1) := rfl
  have hno : ((startup args env).run (.init slirp)).out ≠ .ret true →
      ∀ s, ¬ AtHead C args env slirp [] s := by
    intro hout s hhead
    obtain ⟨s₁, _, _, hstartup, -⟩ := hhead.first
    exact hout (by rw [hstartup])
  rcases hr : (startup args env).run (.init slirp) with ⟨(_ | _) | why, s₁, es⟩
  · have hexit := tapActs_of_allCalls (@exiting_aside L args (-1)).calls s₁
    rw [hr] at hsilent hrun hno
    have hcalls : tapActs (es ++ ((exiting args (-1)).run s₁).calls) = [] := by
      rw [tapActs_append, hsilent, hexit, List.append_nil]
    refine ⟨[], ?_⟩
    rw [hrun, Prog.andThen_ret]
    exact hcalls ▸ .no_turn (hno (by simp))
  · rw [hr] at hsilent hrun
    obtain ⟨polled, hpolled⟩ := @serve_tap L C args env slirp ticks s₁ es hr
    refine ⟨polled, ?_⟩
    rw [hrun, Prog.andThen_ret]
    have hcalls : tapActs (es ++ ((serveLoop C args env ticks >>= exiting args).run s₁).calls) =
        tapActs ((serveLoop C args env ticks >>= exiting args).run s₁).calls := by
      rw [tapActs_append, hsilent, List.nil_append]
    exact hcalls ▸ hpolled
  · rw [hr] at hsilent hrun hno
    refine ⟨[], ?_⟩
    rw [hrun, show tapActs (Prog.andThen _ _).calls = [] from hsilent]
    exact .no_turn (hno (by simp))

end

end Slirp4netns
