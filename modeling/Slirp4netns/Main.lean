/-
  slirp4netns formalization — `main`, the forked child and `parent` (`main.c`).

  The child enters the namespaces, opens the tap device (or accepts a connection
  to the BESS socket) and sends the descriptor over a socket pair; the parent
  waits for it, takes the descriptor from the queue and runs `do_slirp`.

  What the kernel does is given from outside.  While the parent waits, the calls
  of the child come between the interrupted calls of `waitpid` as a `Wait` says,
  and the child may be killed between any two of them.  A message stays in the
  queue of the socket pair after its sender has exited; with an empty queue
  `recvmsg` blocks, since the parent itself still holds the other end.
-/
import Slirp4netns.Config
import Slirp4netns.DoSlirp

namespace Slirp4netns

/-! ## System calls -/

/-- The namespaces that are entered. -/
inductive NsType where
  | user
  | net
  deriving DecidableEq

/-- A system call of `main.c` with its result, or a line of output.  The descriptor of a
    namespace is named by the path on which it was opened. -/
inductive Sys where
  | printf (text : Bytes)
  | eprintf (text : Bytes)
  | perror (text : Bytes)
  | asprintf (path : Bytes) (ok : Bool)
  | openNs (type : NsType) (path : Bytes) (fd : ℤ)
  | setns (type : NsType) (path : Bytes) (rc : ℤ)
  /-- `open("/dev/net/tun", O_RDWR)` -/
  | openTun (fd : ℤ)
  | tunsetiff (ifname : Bytes) (rc : ℤ)
  /-- `socket(AF_INET, SOCK_DGRAM, 0)` -/
  | socketInet (fd : ℤ)
  | ioctl (request : Ioctl) (rc : ℤ)
  /-- `socket(AF_UNIX, SOCK_SEQPACKET, 0)` -/
  | socketUnix (fd : ℤ)
  | unlink (path : Bytes)
  | bind (path : Bytes) (rc : ℤ)
  | listen (rc : ℤ)
  | accept (fd : ℤ)
  /-- `sendmsg` of a descriptor -/
  | sendmsg (fd : ℤ) (ok : Bool)
  | close (fd : ℤ)
  | geteuid (uid : ℕ)
  | setegid (rc : ℤ)
  | seteuid (rc : ℤ)
  deriving DecidableEq

/-- Code that always returns. -/
abbrev SysProg := Prog Unit Sys Empty

/-! ## nsenter -/

/-- The outcomes of the calls of `nsenter`. -/
structure NsenterEnv where
  asprintfNetns : Bool
  asprintfUserns : Bool
  openNetns : ℤ
  openUserns : ℤ
  setnsUser : ℤ
  setnsNet : ℤ

/-- `/proc/<pid>/ns/<name>` -/
def nsPath (pid : ℤ) (name : String) : Bytes :=
  bytes "/proc/" ++ intText pid ++ bytes "/ns/" ++ bytes name

/-- The label `fail`. -/
def nsenterFail (usernsfd netnsfd : ℤ) : SysProg ℤ := do
  Prog.when (usernsfd ≠ -1) (Prog.call (.close usernsfd))
  Prog.when (netnsfd ≠ -1) (Prog.call (.close netnsfd))
  return -1

/-- The second `setns`. -/
def enterNetns (env : NsenterEnv) (netns : Option Bytes) : SysProg ℤ :=
  match netns with
  | none => return 0
  | some path => do
    Prog.call (.setns .net path env.setnsNet)
    if env.setnsNet < 0 then do
      Prog.call (.perror (bytes "setns(CLONE_NEWNET)"))
      nsenterFail (-1) env.openNetns
    else do
      Prog.call (.close env.openNetns)
      return 0

/-- The first `setns`; its failure counts only if there is no second one. -/
def enterUserns (env : NsenterEnv) (netns userns : Option Bytes) (onlyUserns : Bool) :
    SysProg ℤ :=
  match userns with
  | none => enterNetns env netns
  | some path => do
    Prog.call (.setns .user path env.setnsUser)
    if onlyUserns = true ∧ env.setnsUser < 0 then do
      Prog.call (.perror (bytes "setns(CLONE_NEWUSER)"))
      nsenterFail env.openUserns (-1)
    else do
      Prog.call (.close env.openUserns)
      enterNetns env netns

/-- The second `open`; `netns` is `none` if only the user namespace is entered. -/
def openUserns (env : NsenterEnv) (netns userns : Option Bytes) (onlyUserns : Bool) :
    SysProg ℤ :=
  match userns with
  | none => enterUserns env netns none onlyUserns
  | some path => do
    Prog.call (.openNs .user path env.openUserns)
    if env.openUserns < 0 then do
      Prog.call (.perror path)
      nsenterFail (-1) (if netns.isSome then env.openNetns else -1)
    else enterUserns env netns (some path) onlyUserns

/-- The first `open`. -/
def openNetns (env : NsenterEnv) (netns userns : Option Bytes) (onlyUserns : Bool) :
    SysProg ℤ :=
  match netns with
  | none => openUserns env none userns onlyUserns
  | some path => do
    Prog.call (.openNs .net path env.openNetns)
    if env.openNetns < 0 then do
      Prog.call (.perror path)
      nsenterFail (-1) (-1)
    else openUserns env (some path) userns onlyUserns

/-- The second `asprintf`. -/
def usernsPathOf (env : NsenterEnv) (targetPid : ℤ) (netns userns : Option Bytes)
    (onlyUserns : Bool) : SysProg ℤ :=
  if userns = none ∧ targetPid ≠ 0 then do
    Prog.call (.asprintf (nsPath targetPid "user") env.asprintfUserns)
    if env.asprintfUserns then openNetns env netns (some (nsPath targetPid "user")) onlyUserns
    else do
      Prog.call (.perror (bytes "cannot get userns path"))
      nsenterFail (-1) (-1)
  else openNetns env netns userns onlyUserns

/-- `nsenter` -/
def nsenter (env : NsenterEnv) (targetPid : ℤ) (netns userns : Option Bytes)
    (onlyUserns : Bool) : SysProg ℤ :=
  if onlyUserns then usernsPathOf env targetPid none userns true
  else if netns = none then do
    Prog.call (.asprintf (nsPath targetPid "net") env.asprintfNetns)
    if env.asprintfNetns then
      usernsPathOf env targetPid (some (nsPath targetPid "net")) userns false
    else do
      Prog.call (.perror (bytes "cannot get netns path"))
      nsenterFail (-1) (-1)
  else usernsPathOf env targetPid netns userns false

/-! ## The child -/

/-- What happens in the child. -/
structure ChildEnv where
  nsenter : NsenterEnv
  openTun : ℤ
  tunsetiff : ℤ
  socketInet : ℤ
  /-- for each `ioctl` of `configure_network` in order -/
  ioctl : ℕ → ℤ
  sendmsg : Bool
  socketUnix : ℤ
  bind : ℤ
  listen : ℤ
  accept : ℤ

/-- `open_tap` -/
def openTap (env : ChildEnv) (tapname : Option Bytes) : SysProg ℤ :=
  match tapname with
  | none => do
    Prog.call (.eprintf (bytes "tapname is NULL\n"))
    return -1
  | some tapname => do
    Prog.call (.openTun env.openTun)
    if env.openTun < 0 then do
      Prog.call (.perror (bytes "open(\"/dev/net/tun\")"))
      return env.openTun
    else do
      Prog.call (.tunsetiff (tapname.take 15) env.tunsetiff)
      if env.tunsetiff < 0 then do
        Prog.call (.perror (bytes "ioctl(TUNSETIFF)"))
        Prog.call (.close env.openTun)
        return -1
      else return env.openTun

/-- `sendfd` -/
def sendfd (env : ChildEnv) (fd : ℤ) : SysProg ℤ := do
  Prog.call (.sendmsg fd env.sendmsg)
  if env.sendmsg then return 1
  else do
    Prog.call (.perror (bytes "sendmsg"))
    return -1

/-- The requests from the `i`-th one on, up to the first that fails. -/
def ioctls (env : ChildEnv) (i : ℕ) : List Ioctl → SysProg ℤ
  | [] => return 0
  | request :: requests => do
    Prog.call (.ioctl request (env.ioctl i))
    if env.ioctl i < 0 then do
      Prog.call (.perror request.perrorText)
      return -1
    else ioctls env (i + 1) requests

/-- `configure_network` -/
def configureNetwork (env : ChildEnv) (tapname : Bytes) (cfg : Config) : SysProg ℤ := do
  Prog.call (.socketInet env.socketInet)
  if env.socketInet < 0 then do
    Prog.call (.perror (bytes "cannot create socket"))
    return -1
  else do
    let rc ← ioctls env 0 (networkRequests tapname cfg)
    Prog.call (.close env.socketInet)
    return rc

/-- `do_config_network && configure_network(…) < 0` -/
def configureStep (env : ChildEnv) (o : Options) (cfg : Config) : SysProg ℤ :=
  if o.doConfigNetwork then configureNetwork env (o.tapname.getD []) cfg else return 0

/-- `child`, from `sendfd` on. -/
def sendTap (env : ChildEnv) (sock : ℤ) (o : Options) (tapfd : ℤ) : SysProg ℤ := do
  let rc ← sendfd env tapfd
  if rc < 0 then do
    Prog.call (.close tapfd)
    Prog.call (.close sock)
    return -1
  else do
    Prog.call (.eprintf (bytes "sent tapfd=" ++ intText tapfd ++ bytes " for " ++
      o.tapname.getD [] ++ [10]))
    Prog.call (.close tapfd)
    Prog.call (.close sock)
    return 0

/-- `child`, from `open_tap` on. -/
def tapChild (env : ChildEnv) (sock : ℤ) (o : Options) (cfg : Config) : SysProg ℤ := do
  let tapfd ← openTap env o.tapname
  if tapfd < 0 then return tapfd
  else do
    let rc ← configureStep env o cfg
    if rc < 0 then do
      Prog.call (.close tapfd)
      return -1
    else sendTap env sock o tapfd

/-- `child`, with the fields of `options` that `main` passes. -/
def child (env : ChildEnv) (sock : ℤ) (o : Options) (cfg : Config) : SysProg ℤ := do
  let rc ← nsenter env.nsenter o.targetPid o.netnsPath o.usernsPath false
  if rc < 0 then return rc else tapChild env sock o cfg

/-- The label `error` of `child_bess`. -/
def bessError (sock acceptfd listenfd : ℤ) : SysProg ℤ := do
  Prog.call (.close acceptfd)
  Prog.call (.close listenfd)
  Prog.call (.close sock)
  return -1

/-- `child_bess`, from `accept` on. -/
def bessAccept (env : ChildEnv) (sock : ℤ) (path : Bytes) : SysProg ℤ := do
  Prog.call (.eprintf (bytes "Waiting for connection to " ++ path ++ [10]))
  Prog.call (.accept env.accept)
  if env.accept < 0 then do
    Prog.call (.perror (bytes "child_bess: accept"))
    bessError sock env.accept env.socketUnix
  else do
    let rc ← sendfd env env.accept
    if rc < 0 then bessError sock env.accept env.socketUnix
    else do
      Prog.call (.eprintf (bytes "sent \"tapfd\"=" ++ intText env.accept ++
        bytes " (not really TAP) for " ++ path ++ [10]))
      Prog.call (.close sock)
      Prog.call (.close env.socketUnix)
      return 0

/-- `child_bess`, from `unlink` on. -/
def bessListen (env : ChildEnv) (sock : ℤ) (path : Bytes) : SysProg ℤ := do
  Prog.call (.unlink path)
  Prog.call (.bind path env.bind)
  if env.bind < 0 then do
    Prog.call (.perror (bytes "child_bess: bind"))
    bessError sock (-1) env.socketUnix
  else do
    Prog.call (.listen env.listen)
    if env.listen < 0 then do
      Prog.call (.perror (bytes "child_bess: listen"))
      bessError sock (-1) env.socketUnix
    else bessAccept env sock path

/-- `child` for a BESS socket. -/
def childBess (env : ChildEnv) (sock : ℤ) (bessSocket : Option Bytes) : SysProg ℤ := do
  Prog.call (.socketUnix env.socketUnix)
  if env.socketUnix = -1 then do
    Prog.call (.perror (bytes "child_bess: socket"))
    bessError sock (-1) (-1)
  else
    match bessSocket with
    | none => do
      Prog.call (.eprintf (bytes "the specified BESS socket path is NULL\n"))
      bessError sock (-1) env.socketUnix
    | some path =>
      if path.length ≥ sunPathSize then do
        Prog.call (.eprintf (bytes "the specified BESS socket path is too long (>= " ++
          decimal sunPathSize ++ bytes ")\n"))
        bessError sock (-1) env.socketUnix
      else bessListen env sock path

/-- The forked process up to its exit. -/
def childProcess (env : ChildEnv) (sock : ℤ) (o : Options) (cfg : Config) : SysProg ℤ :=
  if o.targetType = some (bytes "bess") then childBess env sock o.bessSocket
  else child env sock o cfg

/-- The exit status for the result of the child. -/
def childStatus (ret : ℤ) : ℕ := if ret < 0 then 1 else 0

/-! ## The parent -/

/-- What `waitpid` returns for good. -/
inductive WaitResult where
  | failed
  | exited (status : ℕ)
  | signaled (wstatus : ℤ)
  deriving DecidableEq

/-- How the wait for the child ends; the numbers are calls that the child still makes. -/
inductive WaitEnd where
  /-- the child runs to its end -/
  | exited
  | killed (calls : ℕ) (wstatus : ℤ)
  /-- `waitpid` fails for another reason than `EINTR` -/
  | failed (calls : ℕ)
  /-- there is no answer yet -/
  | waiting (calls : ℕ)

/-- How `waitpid` ends. -/
structure Wait where
  /-- for each `EINTR`, the calls that the child makes before it -/
  eintrs : List ℕ
  result : WaitEnd

/-- What `recvmsg` does with a message in the queue. -/
inductive Recv where
  | failed
  | empty
  | noFd
  | fd (fd : ℕ)

/-- A `recvmsg` that returns; the descriptor of the child that was sent, if one is received. -/
inductive RecvResult where
  | failed
  | empty
  | noFd
  | fd (fd : ℕ) (sent : ℤ)
  deriving DecidableEq

/-- What is done by the parent, and by the child while the parent waits. -/
inductive MainAct where
  | sys (c : Sys)
  | child (c : Sys)
  | socketpair (ok : Bool)
  | fork (ok : Bool)
  /-- `waitpid` is interrupted -/
  | waitEintr
  | waitpid (r : WaitResult)
  /-- `recvfd` is called -/
  | recvfd
  | recvmsg (r : RecvResult)
  /-- `parent` is called -/
  | parent (tapfd : ℤ)
  /-- `do_slirp` is called -/
  | doSlirp (tapfd : ℤ)
  | slirp (a : Act)
  deriving DecidableEq

/-- How the process ends, or why it has not. -/
inductive MainEnd where
  | exit (status : ℕ)
  /-- still waiting for the child -/
  | waiting
  /-- in `recvmsg`, with an empty queue -/
  | blocked
  | slirp (why : End)
  deriving DecidableEq

/-- Code of `main`. -/
abbrev MainProg := Prog Unit MainAct MainEnd

/-- The outcomes of the calls of `main`. -/
structure MainEnv (L : Libslirp) where
  access : Bytes → Bool
  config : ConfigEnv
  /-- the initial contents of `slirp4netns_config` -/
  stack : Config
  socketpair : Bool
  sv : ℤ × ℤ
  fork : Bool
  child : ChildEnv
  wait : Wait
  recv : Recv
  euid : ℕ
  nsenter : NsenterEnv
  setegid : ℤ
  seteuid : ℤ
  slirp : L.State
  startup : Startup
  ticks : List Tick

variable {L : Libslirp}

/-- Code for system calls of the parent. -/
def onSys {α : Type} (p : SysProg α) : MainProg α :=
  p.lift id (fun _ s => s) MainAct.sys Empty.elim

/-- A call of the parent. -/
def sys (c : Sys) : MainProg Unit := Prog.call (.sys c)

/-- `exit_status = …; goto finish` -/
def exitWith {α : Type} (status : ℕ) : MainProg α := Prog.stop (.exit status)

/-- The interrupted calls of `waitpid`; what is left of the calls of the child. -/
def waitEintrs : List ℕ → List Sys → MainProg (List Sys)
  | [], calls => return calls
  | n :: eintrs, calls => do
    Prog.callAll ((calls.take n).map MainAct.child)
    Prog.call .waitEintr
    waitEintrs eintrs (calls.drop n)

/-- `waitpid` until it returns for good, for a child with these calls and this status. -/
def waitChild (wait : Wait) (calls : List Sys) (status : ℕ) : MainProg WaitResult := do
  let calls ← waitEintrs wait.eintrs calls
  match wait.result with
  | .exited => do
    Prog.callAll (calls.map MainAct.child)
    Prog.call (.waitpid (.exited status))
    return .exited status
  | .killed n wstatus => do
    Prog.callAll ((calls.take n).map MainAct.child)
    Prog.call (.waitpid (.signaled wstatus))
    return .signaled wstatus
  | .failed n => do
    Prog.callAll ((calls.take n).map MainAct.child)
    Prog.call (.waitpid .failed)
    return .failed
  | .waiting n => do
    Prog.callAll ((calls.take n).map MainAct.child)
    Prog.stop .waiting

/-- The descriptors that were sent. -/
def Sys.sent? : Sys → Option ℤ
  | sendmsg fd true => some fd
  | _ => none

/-- `recvfd` -/
def recvfd (recv : Recv) (queue : List ℤ) : MainProg ℤ := do
  Prog.call .recvfd
  match queue with
  | [] => Prog.stop .blocked
  | sent :: _ =>
    match recv with
    | .failed => do
      Prog.call (.recvmsg .failed)
      sys (.perror (bytes "recvmsg"))
      return -1
    | .empty => do
      Prog.call (.recvmsg .empty)
      sys (.eprintf (bytes "the message is empty\n"))
      return -1
    | .noFd => do
      Prog.call (.recvmsg .noFd)
      sys (.eprintf (bytes "the message does not contain fd\n"))
      return -1
    | .fd fd => do
      Prog.call (.recvmsg (.fd fd sent))
      return fd

/-- `setegid(0)` and `seteuid(0)`. -/
def becomeRoot (env : MainEnv L) (tapfd : ℤ) : MainProg ℤ := do
  sys (.setegid env.setegid)
  if env.setegid < 0 then do
    sys (.eprintf (bytes "setegid(0)\n"))
    sys (.close tapfd)
    return env.setegid
  else do
    sys (.seteuid env.seteuid)
    if env.seteuid < 0 then do
      sys (.eprintf (bytes "seteuid(0)\n"))
      sys (.close tapfd)
      return env.seteuid
    else return 0

/-- Only the pid of the target is passed to `nsenter`. -/
def enterTarget (env : MainEnv L) (targetPid tapfd : ℤ) : MainProg ℤ := do
  let rc ← onSys (nsenter env.nsenter targetPid none none true)
  if rc < 0 then do
    sys (.close tapfd)
    return rc
  else becomeRoot env tapfd

/-- What `parent` does for the sandbox. -/
def prepareSandbox (env : MainEnv L) (cfg : Config) (targetPid tapfd : ℤ) : MainProg ℤ :=
  if cfg.enableSandbox then do
    sys (.geteuid env.euid)
    if env.euid ≠ 0 then enterTarget env targetPid tapfd else return 0
  else return 0

/-- `do_slirp` on its own variables. -/
def runDoSlirp (C : Libc) (env : MainEnv L) (args : Args) : MainProg ℤ :=
  (doSlirp C args env.startup env.ticks).lift (fun _ => .init env.slirp) (fun s _ => s)
    MainAct.slirp MainEnd.slirp

/-- The arguments of `do_slirp`. -/
def slirpArgs (o : Options) (cfg : Config) (tapfd : ℤ) : Args :=
  ⟨tapfd, o.readyFd, o.exitFd, o.apiSocket, cfg.doSlirpConfig⟩

/-- `parent`, from `do_slirp` on. -/
def parentServe (C : Libc) (env : MainEnv L) (o : Options) (cfg : Config) (tapfd : ℤ) :
    MainProg ℤ := do
  Prog.call (.doSlirp tapfd)
  let rc ← runDoSlirp C env (slirpArgs o cfg tapfd)
  if rc < 0 then do
    sys (.eprintf (bytes "do_slirp failed\n"))
    sys (.close tapfd)
    return rc
  else return 0

/-- `parent` -/
def parent (C : Libc) (env : MainEnv L) (o : Options) (cfg : Config) (tapfd : ℤ) :
    MainProg ℤ := do
  Prog.call (.parent tapfd)
  Prog.callAll ((parentText env.config o.apiSocket cfg).map fun text => .sys (.printf text))
  let rc ← prepareSandbox env cfg o.targetPid tapfd
  if rc < 0 then return rc else parentServe C env o cfg tapfd

/-! ## main -/

/-- `main`, from the call of `parent` on. -/
def finish (C : Libc) (env : MainEnv L) (o : Options) (cfg : Config) (tapfd : ℤ) :
    MainProg Unit := do
  let rc ← parent C env o cfg tapfd
  if rc < 0 then do
    sys (.eprintf (bytes "parent failed\n"))
    exitWith 1
  else exitWith 0

/-- `main`, from the call of `recvfd` on. -/
def receive (C : Libc) (env : MainEnv L) (o : Options) (cfg : Config) (queue : List ℤ) :
    MainProg Unit := do
  let tapfd ← recvfd env.recv queue
  if tapfd < 0 then do
    sys (.eprintf (bytes "failed to receive tapfd from child\n"))
    exitWith 1
  else do
    sys (.eprintf (bytes "received tapfd=" ++ intText tapfd ++ [10]))
    sys (.close env.sv.1)
    finish C env o cfg tapfd

/-- What `main` does with the answer of `waitpid`. -/
def afterWait (C : Libc) (env : MainEnv L) (o : Options) (cfg : Config) (queue : List ℤ) :
    WaitResult → MainProg Unit
  | .failed => do
    sys (.perror (bytes "waitpid"))
    exitWith 1
  | .signaled wstatus => do
    sys (.eprintf (bytes "child failed(wstatus=" ++ intText wstatus ++ bytes ", !WIFEXITED)\n"))
    exitWith 1
  | .exited status =>
    if status ≠ 0 then do
      sys (.eprintf (bytes "child failed(" ++ decimal status ++ bytes ")\n"))
      exitWith status
    else receive C env o cfg queue

/-- The run of the child. -/
def childRun (env : MainEnv L) (o : Options) (cfg : Config) : Ran Unit Sys Empty ℤ :=
  (childProcess env.child env.sv.2 o cfg).run ()

/-- `main` from `socketpair` on. -/
def forkChild (C : Libc) (env : MainEnv L) (o : Options) (cfg : Config) : MainProg Unit := do
  Prog.call (.fork env.fork)
  if env.fork then do
    let child := childRun env o cfg
    let r ← waitChild env.wait child.calls (childStatus child.value)
    afterWait C env o cfg (child.calls.filterMap Sys.sent?) r
  else do
    sys (.perror (bytes "fork"))
    exitWith 1

/-- `main`, after the configuration. -/
def launch (C : Libc) (env : MainEnv L) (o : Options) (cfg : Config) : MainProg Unit := do
  Prog.call (.socketpair env.socketpair)
  if env.socketpair then
    if o.tapfd < 0 then forkChild C env o cfg else finish C env o cfg o.tapfd
  else do
    sys (.perror (bytes "socketpair"))
    exitWith 1

/-- `main` -/
def main (C : Libc) (env : MainEnv L) (line : CommandLine) : MainProg Unit :=
  match parseArgs env.access line with
  | .error .success => exitWith 0
  | .error (.failure message) => do
    sys (.eprintf message)
    exitWith 1
  | .ok o =>
    match configFromOptions env.config o env.stack with
    | .error printed => do
      sys (.eprintf printed)
      exitWith 1
    | .ok cfg => launch C env o cfg

/-! ## A world without failures -/

/-- Every call of `nsenter` succeeds. -/
def NsenterEnv.smooth : NsenterEnv := ⟨true, true, 5, 6, 0, 0⟩

/-- Every call of the child succeeds. -/
def ChildEnv.smooth : ChildEnv where
  nsenter := .smooth
  openTun := 7
  tunsetiff := 0
  socketInet := 8
  ioctl _ := 0
  sendmsg := true
  socketUnix := 7
  bind := 0
  listen := 0
  accept := 8

/-- Every step of the startup succeeds. -/
def Startup.smooth : Startup where
  slirpNew := true
  slirpNewCbs := []
  malloc := true
  bufContents _ := 0
  apiBindlisten := 6
  apiCtxAlloc := some fun _ => 0
  createSandbox := 0
  seccomp := ⟨0, true, [], fun _ => none, fun _ => 0, 0, fun _ => [], Int.le_refl 0⟩
  ready := ⟨0, some 1⟩

/-- Every call succeeds, and the loop runs for some turns. -/
def MainEnv.smooth (access : Bytes → Bool) (config : ConfigEnv) (euid : ℕ) (ticks : List Tick) :
    MainEnv tableLibslirp.toLibslirp where
  access := access
  config := config
  stack := .stack 0
  socketpair := true
  sv := (3, 4)
  fork := true
  child := .smooth
  wait := ⟨[], .exited⟩
  recv := .fd 5
  euid := euid
  nsenter := .smooth
  setegid := 0
  seteuid := 0
  slirp := ⟨[], []⟩
  startup := .smooth
  ticks := ticks

end Slirp4netns
