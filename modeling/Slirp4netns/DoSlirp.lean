/-
  slirp4netns formalization — `do_slirp` (`slirp4netns.c`): the startup, the
  report to the ready descriptor, the event loop and the cleanup.

  What the kernel, the clients and libslirp do is given from outside: the outcome
  of each startup step is a `Startup`, and each turn of the loop a `Tick`.  When a
  function of libslirp is called, it calls back as a list of `SlirpCb` says.  A
  run on finitely many turns that has not returned is still `running`, so that
  the runs on all lists of turns are all the beginnings of the run of the loop.

  `goto err` is a step that gives `false`, and the labels `success` and `err` are
  `exiting` with the result.
-/
import Slirp4netns.Api.Handler
import Slirp4netns.Lib.Hoare
import Slirp4netns.Seccomp

namespace Slirp4netns

/-! ## Poll events -/

/-- `SLIRP_POLL_IN` -/
def slirpPollIn : BitVec 32 := 1
/-- `SLIRP_POLL_OUT` -/
def slirpPollOut : BitVec 32 := 2
/-- `SLIRP_POLL_PRI` -/
def slirpPollPri : BitVec 32 := 4
/-- `SLIRP_POLL_ERR` -/
def slirpPollErr : BitVec 32 := 8
/-- `SLIRP_POLL_HUP` -/
def slirpPollHup : BitVec 32 := 16

/-- `G_IO_IN` -/
def gIoIn : BitVec 32 := 1
/-- `G_IO_PRI` -/
def gIoPri : BitVec 32 := 2
/-- `G_IO_OUT` -/
def gIoOut : BitVec 32 := 4
/-- `G_IO_ERR` -/
def gIoErr : BitVec 32 := 8
/-- `G_IO_HUP` -/
def gIoHup : BitVec 32 := 16

/-- The events of a mask, each under its other name. -/
def translateEvents (names : List (BitVec 32 × BitVec 32)) (events : BitVec 32) : BitVec 32 :=
  names.foldl (fun ret name => if events &&& name.1 ≠ 0 then ret ||| name.2 else ret) 0

/-- `libslirp_poll_to_gio` -/
def libslirpPollToGio : BitVec 32 → BitVec 32 :=
  translateEvents [(slirpPollIn, gIoIn), (slirpPollOut, gIoOut), (slirpPollPri, gIoPri),
    (slirpPollErr, gIoErr), (slirpPollHup, gIoHup)]

/-- `libslirp_gio_to_poll` -/
def libslirpGioToPoll : BitVec 32 → BitVec 32 :=
  translateEvents [(gIoIn, slirpPollIn), (gIoOut, slirpPollOut), (gIoPri, slirpPollPri),
    (gIoErr, slirpPollErr), (gIoHup, slirpPollHup)]

/-- An element of the array that `g_poll` gets. -/
structure GPollFD where
  fd : ℤ
  events : BitVec 16
  revents : BitVec 16
  deriving DecidableEq

/-! ## State and inputs -/

/-- The arguments of `do_slirp`. -/
structure Args where
  tapfd : ℤ
  readyfd : ℤ
  exitfd : ℤ
  apiSocket : Option Bytes
  cfg : Slirp4netnsConfig

/-- `ETH_BUF_SIZE` -/
def ethBufSize : ℕ := 65536

/-- What a `read` into the buffer can give. -/
structure Packet where
  data : Bytes
  fits : data.length ≤ ethBufSize

/-- The memory at `buf`. -/
structure EthBuf where
  bytes : Bytes
  size : bytes.length = ethBufSize

/-- The buffer as `malloc` gives it. -/
def EthBuf.init (contents : ℕ → UInt8) : EthBuf where
  bytes := (List.range ethBufSize).map contents
  size := by rw [List.length_map, List.length_range]

/-- The kernel stores a packet at the start of the buffer. -/
def EthBuf.store (buf : EthBuf) (pkt : Packet) : EthBuf where
  bytes := pkt.data ++ buf.bytes.drop pkt.data.length
  size := by
    have hfits := pkt.fits
    rw [List.length_append, List.length_drop, buf.size]
    omega

/-- The variables of `do_slirp`, with libslirp's state. -/
structure SlirpState (L : Libslirp) where
  data : LibslirpData
  slirp : L.State
  apictx : Option ApiCtx
  buf : Option EthBuf
  pollfds : List GPollFD
  nFds : ℕ
  pollfdsExitfdIdx : ℤ
  pollfdsApifdIdx : ℤ

/-- The variables at the start of `do_slirp`. -/
def SlirpState.init {L : Libslirp} (slirp : L.State) : SlirpState L :=
  ⟨LibslirpData.init, slirp, none, none, [], 1, -1, -1⟩

/-- A call that is repeated as long as it fails with `EINTR`; without a result it goes on. -/
structure Retried (α : Type) where
  eintrs : ℕ
  result : Option α

/-- The outcomes of the startup steps. -/
structure Startup where
  slirpNew : Bool
  slirpNewCbs : List SlirpCb
  malloc : Bool
  /-- what is in the buffer that `malloc` gives -/
  bufContents : ℕ → UInt8
  apiBindlisten : ℤ
  /-- `none` for `NULL`, else the contents of the buffer -/
  apiCtxAlloc : Option (ℕ → UInt8)
  createSandbox : ℤ
  seccomp : SeccompEnv
  /-- the `write` to the ready descriptor -/
  ready : Retried ℤ

/-- The result of `g_poll`, with the `revents` of all descriptors. -/
inductive PollResult where
  | failed
  | ready (count : ℕ) (revents : List (BitVec 16))
  deriving DecidableEq

/-- What happens in one turn of the loop. -/
structure Tick where
  /-- the descriptors that `slirp_pollfds_fill` registers -/
  fill : List (ℤ × BitVec 32)
  /-- what `slirp_pollfds_fill` leaves in `timeout` -/
  timeout : UInt32
  fillCbs : List SlirpCb
  clockBefore : Int64
  poll : Retried PollResult
  /-- the `read` from the tap device; `none` is a failure -/
  read : Option Packet
  inputCbs : List SlirpCb
  conn : Conn
  /-- the indices that `slirp_pollfds_poll` asks for, given those of the registrations -/
  getRevents : List ℕ → List ℕ
  /-- what `slirp_pollfds_poll` does, given the events that it was told -/
  pollCbs : List (BitVec 32) → List SlirpCb
  clockAfter : Int64
  timerCbs : TimerCbs
  /-- the functions of the timers neither ask for timers nor free them -/
  timerCbs_keep : ∀ t, ∀ c ∈ timerCbs t, c.KeepsList

/-- Why a run has not returned. -/
inductive End where
  | stop (why : Stop)
  | running
  deriving DecidableEq

/-- Code of `do_slirp`. -/
abbrev SlirpProg (L : Libslirp) := Prog (SlirpState L) Act End

variable {L : Libslirp}

/-- Code for libslirp's callbacks. -/
def onData {α : Type} (p : CbProg α) : SlirpProg L α :=
  p.lift SlirpState.data (fun s data => { s with data := data }) Act.cb End.stop

/-- Code for the API, on its context. -/
def onApi {α : Type} (ctx : ApiCtx) (p : Api L α) : SlirpProg L α :=
  p.lift (fun s => ⟨ctx, s.slirp⟩)
    (fun s t => { s with apictx := some t.ctx, slirp := t.slirp }) Act.call End.stop

/-! ## Startup -/

/-- The next step, unless this one fails. -/
def unlessErr (p q : SlirpProg L Bool) : SlirpProg L Bool := do
  let ok ← p
  if ok then q else return false

/-- `create_slirp` -/
def createSlirp (env : Startup) : SlirpProg L Bool := do
  onData (slirpCbs none env.slirpNewCbs)
  Prog.call (.slirpNew env.slirpNew)
  Prog.when (env.slirpNew = false) (eprintf (bytes "slirp_new failed\n"))
  Prog.when (env.slirpNew = false) (eprintf (bytes "create_slirp failed\n"))
  return env.slirpNew

/-- `malloc(ETH_BUF_SIZE)` -/
def mallocBuf (env : Startup) : SlirpProg L Bool := do
  Prog.call (.malloc env.malloc)
  Prog.update fun s => { s with buf := if env.malloc then some (.init env.bufContents) else none }
  return env.malloc

/-- `g_array_append_val` of one of the fixed descriptors. -/
def SlirpState.appendFd (s : SlirpState L) (fd : ℤ) (events : BitVec 32) : SlirpState L :=
  { s with pollfds := s.pollfds ++ [⟨fd, events.setWidth 16, 0⟩] }

/-- The tap device and the exit descriptor. -/
def addFixedFds (args : Args) : SlirpProg L Bool := do
  Prog.update fun s => s.appendFd args.tapfd (gIoIn ||| gIoHup)
  Prog.when (args.exitfd ≥ 0) (Prog.update fun s =>
    { s.appendFd args.exitfd gIoHup with nFds := s.nFds + 1, pollfdsExitfdIdx := s.nFds })
  return true

/-- The API socket. -/
def addApiFd (env : Startup) (ctx : ApiCtx) : SlirpProg L Unit :=
  Prog.update fun s => { s.appendFd env.apiBindlisten (gIoIn ||| gIoHup) with
    apictx := some ctx, nFds := s.nFds + 1, pollfdsApifdIdx := s.nFds }

/-- `api_ctx_alloc`, after the API socket has been opened. -/
def allocApiCtx (args : Args) (env : Startup) : SlirpProg L Bool :=
  match env.apiCtxAlloc with
  | none => do
    Prog.call (.apiCtxAlloc false)
    eprintf (bytes "api_ctx_alloc failed\n")
    return false
  | some contents => do
    Prog.call (.apiCtxAlloc true)
    addApiFd env (apiCtxAlloc args.cfg contents)
    return true

/-- The API, if a path for its socket is given. -/
def openApi (args : Args) (env : Startup) : SlirpProg L Bool :=
  if args.apiSocket.isSome then do
    Prog.call (.apiBindlisten env.apiBindlisten)
    if env.apiBindlisten < 0 then return false else allocApiCtx args env
  else return true

/-- `signal(SIGPIPE, SIG_IGN)` -/
def ignoreSigpipe : SlirpProg L Bool := do
  Prog.call .signal
  return true

/-- `create_sandbox`, if it is asked for. -/
def sandboxStep (args : Args) (env : Startup) : SlirpProg L Bool :=
  if args.cfg.enableSandbox then do
    Prog.call (.createSandbox env.createSandbox)
    Prog.when (env.createSandbox < 0) (eprintf (bytes "create_sandbox failed\n"))
    return decide (0 ≤ env.createSandbox)
  else return true

/-- `enable_seccomp`, if it is asked for. -/
def seccompStep (args : Args) (env : Startup) : SlirpProg L Bool :=
  if args.cfg.enableSeccomp then do
    let rc ← enableSeccomp env.seccomp
    Prog.call (.enableSeccomp rc)
    Prog.when (rc < 0) (eprintf (bytes "enable_seccomp failed\n"))
    return decide (0 ≤ rc)
  else return true

/-- `do_slirp` up to the report that it is ready. -/
def startup (args : Args) (env : Startup) : SlirpProg L Bool :=
  unlessErr (createSlirp env) <| unlessErr (mallocBuf env) <| unlessErr (addFixedFds args) <|
    unlessErr (openApi args env) <| unlessErr ignoreSigpipe <|
      unlessErr (sandboxStep args env) (seccompStep args env)

/-- The same call, so many times. -/
def repeatCall (e : Act) : ℕ → SlirpProg L Unit
  | 0 => return ()
  | n + 1 => do
    Prog.call e
    repeatCall e n

/-- A loop that repeats a call as long as it fails with `EINTR`. -/
def retry {α : Type} (failed : Act) (done : α → Act) (r : Retried α) : SlirpProg L α := do
  repeatCall failed r.eintrs
  match r.result with
  | none => Prog.stop .running
  | some a => do
    Prog.call (done a)
    return a

section
variable {I : List Act → SlirpState L → Prop} {E : End → List Act → SlirpState L → Prop}

theorem repeatCall_triple {e : Act} (hI : ∀ es s, I es s → I (es ++ [e]) s) (n : ℕ) :
    Prog.Triple I (repeatCall (L := L) e n) (fun _ => I) E := by
  induction n with
  | zero => exact .pure fun _ _ h => h
  | succ n ih => exact .bind (.call hI) fun _ => ih

theorem retry_triple {α : Type} {failed : Act} {done : α → Act} {r : Retried α}
    (hfailed : ∀ es s, I es s → I (es ++ [failed]) s)
    (hdone : ∀ a es s, I es s → I (es ++ [done a]) s) :
    Prog.Triple I (retry (L := L) failed done r) (fun a es s => r.result = some a ∧ I es s)
      fun _ => I := by
  refine .bind (repeatCall_triple hfailed _) fun _ => ?_
  split
  · exact .stop fun _ _ h => h
  · next a ha => exact .bind (.call (hdone a)) fun _ => .pure fun _ _ h => ⟨ha, h⟩

end

section
variable {γ : Type} {g : SlirpState L → γ} {A : Act → Prop}

theorem repeatCall_keeps {e : Act} (he : A e) (n : ℕ) :
    Prog.Keeps g A (repeatCall (L := L) e n) := by
  induction n with
  | zero => exact .pure ()
  | succ n ih => exact .bind (.call he) fun _ => ih

theorem retry_keeps {α : Type} {failed : Act} {done : α → Act} (hfailed : A failed)
    (hdone : ∀ a, A (done a)) (r : Retried α) :
    Prog.Keeps g A (retry (L := L) failed done r) := by
  refine .bind (repeatCall_keeps hfailed _) fun _ => ?_
  split
  · exact .stop _
  · exact .bind (.call (hdone _)) fun _ => .pure _

end

/-- A `write` to the ready descriptor. -/
def writeReady (rc : ℤ) : Act := .call (.write .ready (bytes "1") rc)

/-- The report that `do_slirp` is ready. -/
def signalReady (args : Args) (env : Startup) : SlirpProg L Unit :=
  Prog.when (args.readyfd ≥ 0) do
    let _ ← retry (writeReady (-1)) writeReady env.ready
    Prog.call (.call (.close .ready))

/-! ## The loop -/

/-- `g_array_set_size`: the array is cut off, or filled up with zeros. -/
def SlirpState.setSize (s : SlirpState L) (n : ℕ) : SlirpState L :=
  { s with pollfds := s.pollfds.take n ++ List.replicate (n - s.pollfds.length) ⟨0, 0, 0⟩ }

/-- `libslirp_add_poll` -/
def libslirpAddPoll (fd : ℤ) (events : BitVec 32) : SlirpProg L ℕ := do
  let s ← Prog.state
  let idx := s.pollfds.length
  Prog.update fun s => s.appendFd fd (libslirpPollToGio events)
  Prog.call (.addPoll fd events idx)
  return idx

/-- `libslirp_get_revents` -/
def libslirpGetRevents (idx : ℕ) : SlirpProg L (BitVec 32) := do
  let s ← Prog.state
  match s.pollfds[idx]? with
  | none => Prog.stop (.stop .outOfBounds)
  | some pfd => do
    let revents := libslirpGioToPoll (pfd.revents.setWidth 32)
    Prog.call (.getRevents idx revents)
    return revents

/-- The registrations of a turn, and the indices that they get. -/
def addPolls : List (ℤ × BitVec 32) → SlirpProg L (List ℕ)
  | [] => return []
  | (fd, events) :: fds => do
    let idx ← libslirpAddPoll fd events
    let idxs ← addPolls fds
    return idx :: idxs

/-- The events at these indices. -/
def getAllRevents : List ℕ → SlirpProg L (List (BitVec 32))
  | [] => return []
  | idx :: idxs => do
    let revents ← libslirpGetRevents idx
    let rest ← getAllRevents idxs
    return revents :: rest

/-- The kernel writes the `revents` of all descriptors. -/
def SlirpState.setRevents (s : SlirpState L) (revents : List (BitVec 16)) : SlirpState L :=
  { s with pollfds := s.pollfds.mapIdx fun i pfd => { pfd with revents := revents.getD i 0 } }

/-- `idx >= 0 && pollfds_data[idx].revents` -/
def SlirpState.hasEvent (s : SlirpState L) (idx : ℤ) : Bool :=
  0 ≤ idx ∧ ∃ pfd ∈ s.pollfds[idx.toNat]?, pfd.revents ≠ 0

/-- Time passes. -/
def advanceClock (ns : Int64) : SlirpProg L Unit := onData (Prog.update (LibslirpData.advance ns))

/-- `slirp_pollfds_fill`, the timeout and `g_poll`; the indices are those of the registrations. -/
def pollFds (tick : Tick) : SlirpProg L (PollResult × List ℕ) := do
  Prog.update fun s => s.setSize s.nFds
  Prog.call .slirpPollfdsFill
  let idxs ← addPolls tick.fill
  onData (slirpCbs none tick.fillCbs)
  advanceClock tick.clockBefore
  let timeout ← onData (updateRaTimeout tick.timeout)
  let s ← Prog.state
  let fds := s.pollfds.map fun pfd => (pfd.fd, pfd.events)
  let r ← retry (.gPoll fds timeout (-1))
    (fun
      | .failed => .gPoll fds timeout (-1)
      | .ready count _ => .gPoll fds timeout count)
    tick.poll
  return (r, idxs)

/-- `read(tapfd, buf, ETH_BUF_SIZE)`; `none` is a failure. -/
def readTap (tick : Tick) : SlirpProg L (Option ℕ) := do
  let s ← Prog.state
  match s.buf, tick.read with
  | none, _ => Prog.stop (.stop .nullPointer)
  | some _, none => do
    Prog.call (.call (.read .tap (-1)))
    return none
  | some buf, some pkt => do
    Prog.update fun s => { s with buf := some (buf.store pkt) }
    Prog.call (.call (.read .tap pkt.data.length))
    return some pkt.data.length

/-- `slirp_input(slirp, buf, rc)` -/
def slirpInput (rc : ℕ) : SlirpProg L Unit := do
  let s ← Prog.state
  match s.buf with
  | none => Prog.stop (.stop .nullPointer)
  | some buf => Prog.call (.slirpInput (buf.bytes.take rc))

/-- A packet from the tap device; the value of `pollout` after it. -/
def tapEvent (tick : Tick) (pollout : ℤ) : SlirpProg L ℤ := do
  let s ← Prog.state
  if s.hasEvent 0 then do
    match ← readTap tick with
    | none => do
      Prog.call (.call (.perror (bytes "do_slirp: read")))
      return -1
    | some rc => do
      slirpInput rc
      onData (slirpCbs none tick.inputCbs)
      return -1
  else return pollout

/-- A connection to the API socket. -/
def apiEvent (C : Libc) (tick : Tick) : SlirpProg L Unit := do
  let s ← Prog.state
  Prog.when (s.hasEvent s.pollfdsApifdIdx) do
    eprintf (bytes "apifd event\n")
    match s.apictx with
    | none => Prog.stop (.stop .nullPointer)
    | some ctx => do
      let rc ← onApi ctx (apiHandler C tick.conn)
      Prog.when (rc < 0) (eprintf (bytes "api_handler: rc=" ++ intText rc ++ [10]))

/-- From `g_poll` to `slirp_pollfds_poll`; the value of `pollout` then, unless the exit descriptor
    has an event. -/
def dispatch (C : Libc) (tick : Tick) (count : ℕ) (revents : List (BitVec 16)) :
    SlirpProg L (Option ℤ) := do
  Prog.update fun s => s.setRevents revents
  let pollout ← tapEvent tick count
  let s ← Prog.state
  if s.hasEvent s.pollfdsExitfdIdx then do
    eprintf (bytes "exitfd event\n")
    return none
  else do
    apiEvent C tick
    return some pollout

/-- `slirp_pollfds_poll` and the timers. -/
def afterEvents (tick : Tick) (idxs : List ℕ) (pollout : ℤ) : SlirpProg L Unit := do
  Prog.call (.slirpPollfdsPoll (decide (pollout ≤ 0)))
  let revents ← getAllRevents (tick.getRevents idxs)
  onData (slirpCbs none (tick.pollCbs revents))
  advanceClock tick.clockAfter
  onData (checkRaTimeout tick.timerCbs)

/-- One turn, after `g_poll`; a value if the loop is left. -/
def handleEvents (C : Libc) (tick : Tick) (idxs : List ℕ) (count : ℕ)
    (revents : List (BitVec 16)) : SlirpProg L (Option ℤ) := do
  match ← dispatch C tick count revents with
  | none => return some 0
  | some pollout => do
    afterEvents tick idxs pollout
    return none

/-- One turn of the loop; a value if the loop is left. -/
def turn (C : Libc) (tick : Tick) : SlirpProg L (Option ℤ) := do
  match ← pollFds tick with
  | (.failed, _) => return some (-1)
  | (.ready count revents, idxs) => handleEvents C tick idxs count revents

/-- The loop, for so many turns. -/
def loop (C : Libc) : List Tick → SlirpProg L ℤ
  | [] => Prog.stop .running
  | tick :: ticks => do
    match ← turn C tick with
    | some ret => return ret
    | none => loop C ticks

/-! ## What the parts of a turn leave alone -/

section
variable {γ : Type} {g : SlirpState L → γ} {A : Act → Prop}

theorem onData_keeps {α : Type} (hdata : ∀ s data, g { s with data := data } = g s)
    (hcb : ∀ e, A (.cb e)) (p : CbProg α) : Prog.Keeps g A (onData p) :=
  .lift hdata fun _ _ _ => hcb _

theorem addPolls_keeps (hfds : ∀ s fds, g { s with pollfds := fds } = g s)
    (hadd : ∀ fd events idx, A (.addPoll fd events idx)) (fill : List (ℤ × BitVec 32)) :
    Prog.Keeps g A (addPolls fill) := by
  induction fill with
  | nil => exact .pure _
  | cons r fill ih =>
    refine .bind ?_ fun _ => .bind ih fun _ => .pure _
    exact .bind .state fun _ => .bind (.update fun _ => hfds _ _) fun _ =>
      .bind (.call (hadd _ _ _)) fun _ => .pure _

theorem getAllRevents_keeps (hget : ∀ idx revents, A (.getRevents idx revents)) (idxs : List ℕ) :
    Prog.Keeps g A (getAllRevents idxs) := by
  induction idxs with
  | nil => exact .pure _
  | cons idx idxs ih =>
    refine .bind (.bind .state fun s => ?_) fun _ => .bind ih fun _ => .pure _
    split
    · exact .stop _
    · exact .bind (.call (hget _ _)) fun _ => .pure _

theorem pollFds_keeps (hfds : ∀ s fds, g { s with pollfds := fds } = g s)
    (hdata : ∀ s data, g { s with data := data } = g s) (hcb : ∀ e, A (.cb e))
    (hadd : ∀ fd events idx, A (.addPoll fd events idx)) (hfill : A .slirpPollfdsFill)
    (hpoll : ∀ fds timeout rc, A (.gPoll fds timeout rc)) (tick : Tick) :
    Prog.Keeps g A (pollFds tick) := by
  refine .bind (.update fun _ => hfds _ _) fun _ => .bind (.call hfill) fun _ =>
    .bind (addPolls_keeps hfds hadd _) fun _ => .bind (onData_keeps hdata hcb _) fun _ =>
      .bind (onData_keeps hdata hcb _) fun _ => .bind (onData_keeps hdata hcb _) fun _ =>
        .bind .state fun _ => .bind (retry_keeps (hpoll _ _ _) (fun r => ?_) _) fun _ => .pure _
  cases r <;> exact hpoll _ _ _

theorem tapEvent_keeps (hbuf : ∀ s buf, g { s with buf := buf } = g s)
    (hdata : ∀ s data, g { s with data := data } = g s) (hcb : ∀ e, A (.cb e))
    (hread : ∀ rc, A (.call (.read .tap rc))) (hperror : ∀ msg, A (.call (.perror msg)))
    (hinput : ∀ pkt, A (.slirpInput pkt)) (tick : Tick) (pollout : ℤ) :
    Prog.Keeps g A (tapEvent tick pollout) := by
  have hreadTap : Prog.Keeps g A (readTap (L := L) tick) := by
    refine .bind .state fun s => ?_
    split
    · exact .stop _
    · exact .bind (.call (hread _)) fun _ => .pure _
    · exact .bind (.update fun _ => hbuf _ _) fun _ => .bind (.call (hread _)) fun _ => .pure _
  have hslirpInput : ∀ rc, Prog.Keeps g A (slirpInput (L := L) rc) := by
    intro rc
    refine .bind .state fun s => ?_
    split
    · exact .stop _
    · exact .call (hinput _)
  refine .bind .state fun s => .ite (.bind hreadTap fun rc => ?_) (.pure _)
  cases rc with
  | none => exact .bind (.call (hperror _)) fun _ => .pure _
  | some rc =>
    exact .bind (hslirpInput rc) fun _ => .bind (onData_keeps hdata hcb _) fun _ => .pure _

theorem afterEvents_keeps (hdata : ∀ s data, g { s with data := data } = g s)
    (hcb : ∀ e, A (.cb e)) (hpoll : ∀ selectError, A (.slirpPollfdsPoll selectError))
    (hget : ∀ idx revents, A (.getRevents idx revents)) (tick : Tick) (idxs : List ℕ)
    (pollout : ℤ) : Prog.Keeps g A (afterEvents tick idxs pollout) :=
  .bind (.call (hpoll _)) fun _ => .bind (getAllRevents_keeps hget _) fun _ =>
    .bind (onData_keeps hdata hcb _) fun _ => .bind (onData_keeps hdata hcb _) fun _ =>
      onData_keeps hdata hcb _

end

/-! ## The whole -/

/-- From the label `err` on. -/
def exiting (args : Args) (ret : ℤ) : SlirpProg L ℤ := do
  eprintf (bytes "do_slirp is exiting\n")
  let s ← Prog.state
  Prog.when (s.buf.isSome = true) (Prog.call .free)
  Prog.when (s.apictx.isSome = true) do
    Prog.call .apiCtxFree
    Prog.call (.unlink (args.apiSocket.getD []))
  Prog.call .free
  return ret

/-- The report, and the loop. -/
def serveLoop (C : Libc) (args : Args) (env : Startup) (ticks : List Tick) : SlirpProg L ℤ := do
  signalReady args env
  loop C ticks

/-- `do_slirp` -/
def doSlirp (C : Libc) (args : Args) (env : Startup) (ticks : List Tick) : SlirpProg L ℤ := do
  let ok ← startup args env
  if ok then do
    let ret ← serveLoop C args env ticks
    exiting args ret
  else exiting args (-1)

/-! ## A sample run -/

/-- Sandbox and filter are asked for, the API is not. -/
def sampleArgs : Args := ⟨3, 4, 5, none, ⟨⟨10, 0, 2, 100⟩, true, true⟩⟩

/-- Every step succeeds, and the first `write` to the ready descriptor is interrupted. -/
def sampleStartup : Startup where
  slirpNew := true
  slirpNewCbs := [.timerNew]
  malloc := true
  bufContents _ := 0
  apiBindlisten := -1
  apiCtxAlloc := none
  createSandbox := 0
  seccomp := ⟨0, true, [], fun _ => some 0, fun _ => 0, 0, fun _ => [], le_refl 0⟩
  ready := ⟨1, some 1⟩

/-- A packet of six bytes. -/
def samplePacket : Packet where
  data := [2, 0, 0, 0, 0, 1]
  fits := by simp [ethBufSize]

/-- A packet comes in and the exit descriptor is closed. -/
def sampleTick : Tick where
  fill := []
  timeout := 1000
  fillCbs := []
  clockBefore := 0
  poll := ⟨0, some (.ready 2 [1, 16])⟩
  read := some samplePacket
  inputCbs := []
  conn := ⟨-1, .error, fun _ => 0⟩
  getRevents idxs := idxs
  pollCbs _ := []
  clockAfter := 0
  timerCbs _ := []
  timerCbs_keep _ _ h := absurd h List.not_mem_nil

end Slirp4netns
