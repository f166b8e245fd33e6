/-
  slirp4netns formalization — the command line (`parse_args` in `main.c`).

  `getopt_long` is outside the program: a `CommandLine` is what it makes of an
  argument vector, the options with their arguments in the order in which they
  are given and the positional arguments.

  * `parseOption` is one case of the `switch`.  It depends on the argument of its
    option only, so that it is given as an exit or an update of the variables.
  * `parseArgs` is the whole function; `Parses` says what an accepted command line
    gives, field by field, with the last occurrence of an option that is repeated.
  * `parseArgs_perm`: the order of the options does not matter.
-/
import Slirp4netns.Lib.Basic
import Slirp4netns.Libc
import Mathlib.Data.List.Nodup

namespace Slirp4netns

/-! ## Options -/

/-- What `getopt_long` returns, with `optarg`. -/
inductive Opt where
  | configure
  | exitFd (optarg : Bytes)
  | readyFd (optarg : Bytes)
  | mtu (optarg : Bytes)
  | cidr (optarg : Bytes)
  | disableHostLoopback
  | noHostLoopback
  | netnsType (optarg : Bytes)
  | usernsPath (optarg : Bytes)
  | apiSocket (optarg : Bytes)
  | enableIpv6
  | enableSandbox
  | createSandbox
  | enableSeccomp
  | help
  | version
  | outboundAddr (optarg : Bytes)
  | outboundAddr6 (optarg : Bytes)
  | disableDns
  | macaddress (optarg : Bytes)
  | targetType (optarg : Bytes)
  /-- an unknown option, or one without its argument -/
  | unknown
  deriving DecidableEq

/-- The fourth field of `longopts`. -/
def Opt.code : Opt → ℤ
  | configure => 99
  | exitFd _ => 101
  | readyFd _ => 114
  | mtu _ => 109
  | cidr _ => -42
  | disableHostLoopback => -43
  | noHostLoopback => -10043
  | netnsType _ => -44
  | usernsPath _ => -45
  | apiSocket _ => 97
  | enableIpv6 => 54
  | enableSandbox => -46
  | createSandbox => -10044
  | enableSeccomp => -47
  | help => 104
  | version => 118
  | outboundAddr _ => -48
  | outboundAddr6 _ => -49
  | disableDns => -50
  | macaddress _ => -51
  | targetType _ => -52
  | unknown => 63

/-- What `getopt_long` makes of the command line. -/
structure CommandLine where
  opts : List Opt
  /-- `argv[optind]` and what follows -/
  args : List Bytes
  deriving DecidableEq

/-- `struct options`; a text is `none` for `NULL`. -/
structure Options where
  tapname : Option Bytes
  cidr : Option Bytes
  apiSocket : Option Bytes
  netnsType : Option Bytes
  netnsPath : Option Bytes
  usernsPath : Option Bytes
  outboundAddr : Option Bytes
  outboundAddr6 : Option Bytes
  targetPid : ℤ
  exitFd : ℤ
  readyFd : ℤ
  mtu : ℕ
  doConfigNetwork : Bool
  disableHostLoopback : Bool
  enableIpv6 : Bool
  enableSandbox : Bool
  enableSeccomp : Bool
  disableDns : Bool
  macaddress : Option Bytes
  targetType : Option Bytes
  bessSocket : Option Bytes
  tapfd : ℤ
  deriving DecidableEq

/-- `DEFAULT_MTU` -/
def defaultMtu : ℕ := 1500
/-- `DEFAULT_NETNS_TYPE` -/
def defaultNetnsType : Bytes := bytes "pid"

/-- `options_init` -/
def Options.init : Options where
  tapname := none
  cidr := none
  apiSocket := none
  netnsType := none
  netnsPath := none
  usernsPath := none
  outboundAddr := none
  outboundAddr6 := none
  targetPid := 0
  exitFd := -1
  readyFd := -1
  mtu := defaultMtu
  doConfigNetwork := false
  disableHostLoopback := false
  enableIpv6 := false
  enableSandbox := false
  enableSeccomp := false
  disableDns := false
  macaddress := none
  targetType := none
  bessSocket := none
  tapfd := -1

/-- The variables of the loop: the options, and the arguments that are copied after it. -/
structure ParseState where
  options : Options
  optargCidr : Option Bytes
  optargNetnsType : Option Bytes
  optargUsernsPath : Option Bytes
  optargApiSocket : Option Bytes
  optargOutboundAddr : Option Bytes
  optargOutboundAddr6 : Option Bytes
  optargMacaddress : Option Bytes
  optargTargetType : Option Bytes

/-- The variables at the start of `parse_args`. -/
def ParseState.init : ParseState := ⟨.init, none, none, none, none, none, none, none, none⟩

/-- `exit(EXIT_SUCCESS)` after `-h` and `-v`, or `exit(EXIT_FAILURE)` after a message on `stderr`
    (of a `perror`, its argument) and the usage. -/
inductive Exit where
  | success
  | failure (message : Bytes)
  deriving DecidableEq

/-! ## Numbers -/

/-- `strtol`, if `errno` stays 0 and the whole text is read. -/
def strtolExact (s : Bytes) : Option ℤ :=
  let parsed := strtol s
  if parsed.erange = true ∨ parsed.rest ≠ [] then none else some parsed.value

/-- An `int` that is at least `min`. -/
def intArg (min : ℤ) (message s : Bytes) : Except Exit ℤ :=
  match strtolExact s with
  | none => .error (.failure message)
  | some v => if wrapInt v < min then .error (.failure message) else .ok (wrapInt v)

/-- An `unsigned int` between 1 and 65521. -/
def mtuArg (s : Bytes) : Except Exit ℕ :=
  match strtolExact s with
  | none => .error (.failure (bytes "MTU must be a positive integer (< 65522)\n"))
  | some v =>
    let mtu := (v % 2 ^ 32).toNat
    if mtu ≤ 0 ∨ mtu > 65521 then
      .error (.failure (bytes "MTU must be a positive integer (< 65522)\n"))
    else .ok mtu

theorem intArg_ge {min n : ℤ} {message s : Bytes} (h : intArg min message s = .ok n) : min ≤ n := by
  unfold intArg at h
  split at h
  · cases h
  · split at h
    · cases h
    · next hlt =>
      cases h
      omega

/-! ## parse_args -/

/-- One case of the `switch`; `access` says which paths exist. -/
def parseOption (access : Bytes → Bool) : Opt → Except Exit (ParseState → ParseState)
  | .configure => .ok fun s => { s with options.doConfigNetwork := true }
  | .exitFd optarg => do
    let fd ← intArg 0 (bytes "exit-fd must be a non-negative integer\n") optarg
    return fun s => { s with options.exitFd := fd }
  | .readyFd optarg => do
    let fd ← intArg 0 (bytes "ready-fd must be a non-negative integer\n") optarg
    return fun s => { s with options.readyFd := fd }
  | .mtu optarg => do
    let mtu ← mtuArg optarg
    return fun s => { s with options.mtu := mtu }
  | .cidr optarg => .ok fun s => { s with optargCidr := some optarg }
  | .noHostLoopback => .ok fun s => { s with options.disableHostLoopback := true }
  | .disableHostLoopback => .ok fun s => { s with options.disableHostLoopback := true }
  | .createSandbox => .ok fun s => { s with options.enableSandbox := true }
  | .enableSandbox => .ok fun s => { s with options.enableSandbox := true }
  | .enableSeccomp => .ok fun s => { s with options.enableSeccomp := true }
  | .netnsType optarg => .ok fun s => { s with optargNetnsType := some optarg }
  | .usernsPath optarg =>
    if access optarg then .ok fun s => { s with optargUsernsPath := some optarg }
    else .error (.failure (bytes "userns path doesn't exist: " ++ optarg ++ [10]))
  | .apiSocket optarg => .ok fun s => { s with optargApiSocket := some optarg }
  | .enableIpv6 => .ok fun s => { s with options.enableIpv6 := true }
  | .help => .error .success
  | .version => .error .success
  | .outboundAddr optarg => .ok fun s => { s with optargOutboundAddr := some optarg }
  | .outboundAddr6 optarg => .ok fun s => { s with optargOutboundAddr6 := some optarg }
  | .disableDns => .ok fun s => { s with options.disableDns := true }
  | .macaddress optarg => .ok fun s => { s with optargMacaddress := some optarg }
  | .targetType optarg => .ok fun s => { s with optargTargetType := some optarg }
  | .unknown => .error (.failure [])

/-- The `while` loop. -/
def parseOptions (access : Bytes → Bool) : List Opt → ParseState → Except Exit ParseState
  | [], s => .ok s
  | o :: opts, s => do
    let update ← parseOption access o
    parseOptions access opts (update s)

/-- The copies after the loop; `--macaddress` needs `-c`. -/
def copyOptargs (s : ParseState) : Except Exit Options :=
  if s.optargMacaddress.isSome ∧ s.options.doConfigNetwork = false then
    .error (.failure (bytes "--macaddr cannot be specified when --configure or " ++
      bytes "-c is not specified\n"))
  else .ok { s.options with
    cidr := s.optargCidr
    netnsType := s.optargNetnsType
    usernsPath := s.optargUsernsPath
    apiSocket := s.optargApiSocket
    outboundAddr := s.optargOutboundAddr
    outboundAddr6 := s.optargOutboundAddr6
    macaddress := s.optargMacaddress
    targetType := s.optargTargetType }

/-- The arguments with `--target-type=bess`. -/
def bessMode (o : Options) : List Bytes → Except Exit Options
  | [] => .error (.failure [])
  | [socket] =>
    if o.doConfigNetwork then
      .error (.failure (bytes "--configure conflicts with --target-type=bess\n"))
    else if o.netnsType.isSome then
      .error (.failure (bytes "--netns-type conflicts with --target-type=bess\n"))
    else if o.usernsPath.isSome then
      .error (.failure (bytes "--userns-path conflicts with --target-type=bess\n"))
    else .ok { o with bessSocket := some socket }
  | _ :: _ :: _ => .error (.failure (bytes "too many arguments\n"))

/-- The first positional argument, as `--netns-type` says. -/
def selectNetns (access : Bytes → Bool) (o : Options) (arg : Bytes) : Except Exit Options :=
  if o.netnsType = none ∨ o.netnsType = some defaultNetnsType then do
    let pid ← intArg 1 (bytes "PID must be a positive integer\n") arg
    return { o with targetPid := pid }
  else if o.netnsType = some (bytes "tapfd") then do
    let fd ← intArg 0 (bytes "TAPFD must a file descriptor\n") arg
    return { o with tapfd := fd }
  else if access arg then .ok { o with netnsPath := some arg }
  else .error (.failure (bytes "existing path expected when --netns-type=path"))

/-- The second positional argument; further ones give a warning only. -/
def selectTapname (o : Options) (rest : List Bytes) : Except Exit Options :=
  if o.tapfd ≥ 0 then .ok o
  else
    match rest with
    | [] => .error (.failure [])
    | tapname :: _ => .ok { o with tapname := some tapname }

/-- The arguments with `--target-type=netns`. -/
def netnsMode (access : Bytes → Bool) (o : Options) (args : List Bytes) : Except Exit Options :=
  if o.targetType.isSome ∧ o.targetType ≠ some (bytes "netns") then
    .error (.failure (bytes "--target-type must be either \"netns\" or \"bess\"\n"))
  else
    match args with
    | [] => .error (.failure [])
    | arg :: rest => do
      let o ← selectNetns access o arg
      selectTapname o rest

/-- `parse_args` -/
def parseArgs (access : Bytes → Bool) (line : CommandLine) : Except Exit Options := do
  let s ← parseOptions access line.opts .init
  let o ← copyOptargs s
  if o.targetType = some (bytes "bess") then bessMode o line.args else netnsMode access o line.args

/-! ## The loop -/

section
variable {access : Bytes → Bool} {o : Opt} {opts : List Opt} {s t : ParseState}

/-- The argument of each option of one kind. -/
def Opt.netnsType? : Opt → Option Bytes
  | netnsType optarg => some optarg
  | _ => none

/-- The argument of `--userns-path`. -/
def Opt.usernsPath? : Opt → Option Bytes
  | usernsPath optarg => some optarg
  | _ => none

/-- The argument of `--macaddress`. -/
def Opt.macaddress? : Opt → Option Bytes
  | macaddress optarg => some optarg
  | _ => none

/-- The argument of `--target-type`. -/
def Opt.targetType? : Opt → Option Bytes
  | targetType optarg => some optarg
  | _ => none

/-- What one option changes, of the variables on which the target depends. -/
structure Opt.Effect (o : Opt) (s t : ParseState) : Prop where
  netnsType : t.optargNetnsType = o.netnsType?.or s.optargNetnsType
  usernsPath : t.optargUsernsPath = o.usernsPath?.or s.optargUsernsPath
  macaddress : t.optargMacaddress = o.macaddress?.or s.optargMacaddress
  targetType : t.optargTargetType = o.targetType?.or s.optargTargetType
  configure : t.options.doConfigNetwork = (o == .configure || s.options.doConfigNetwork)
  sandbox : t.options.enableSandbox =
    (o == .enableSandbox || o == .createSandbox || s.options.enableSandbox)
  targetPid : t.options.targetPid = s.options.targetPid
  tapfd : t.options.tapfd = s.options.tapfd
  tapname : t.options.tapname = s.options.tapname
  netnsPath : t.options.netnsPath = s.options.netnsPath
  bessSocket : t.options.bessSocket = s.options.bessSocket

theorem parseOption_effect {update : ParseState → ParseState}
    (h : parseOption access o = .ok update) (s : ParseState) : o.Effect s (update s) := by
  cases o
  case exitFd | readyFd | mtu =>
    obtain ⟨n, -, hn⟩ := Except.bind_eq_ok.1 h
    cases hn
    constructor <;> rfl
  case usernsPath optarg =>
    rw [parseOption] at h
    split at h <;> cases h
    constructor <;> rfl
  all_goals
    cases h
  all_goals constructor <;> rfl

/-- The argument of the last option of one kind. -/
def lastArg (arg : Opt → Option Bytes) (opts : List Opt) : Option Bytes :=
  (opts.filterMap arg).getLast?

theorem lastArg_cons (arg : Opt → Option Bytes) (o : Opt) (opts : List Opt) :
    lastArg arg (o :: opts) = (lastArg arg opts).or (arg o) := by
  unfold lastArg
  cases harg : arg o with
  | none => rw [List.filterMap_cons_none harg, Option.or_none]
  | some x =>
    rw [List.filterMap_cons_some harg, List.getLast?_cons]
    cases (opts.filterMap arg).getLast? <;> rfl

/-- What the options of a list change together. -/
structure Effect (opts : List Opt) (s t : ParseState) : Prop where
  netnsType : t.optargNetnsType = (lastArg Opt.netnsType? opts).or s.optargNetnsType
  usernsPath : t.optargUsernsPath = (lastArg Opt.usernsPath? opts).or s.optargUsernsPath
  macaddress : t.optargMacaddress = (lastArg Opt.macaddress? opts).or s.optargMacaddress
  targetType : t.optargTargetType = (lastArg Opt.targetType? opts).or s.optargTargetType
  configure : t.options.doConfigNetwork =
    (decide (.configure ∈ opts) || s.options.doConfigNetwork)
  sandbox : t.options.enableSandbox =
    (decide (.enableSandbox ∈ opts ∨ .createSandbox ∈ opts) || s.options.enableSandbox)
  targetPid : t.options.targetPid = s.options.targetPid
  tapfd : t.options.tapfd = s.options.tapfd
  tapname : t.options.tapname = s.options.tapname
  netnsPath : t.options.netnsPath = s.options.netnsPath
  bessSocket : t.options.bessSocket = s.options.bessSocket

theorem Effect.nil (s : ParseState) : Effect [] s s := by
  constructor <;> rfl

theorem Effect.cons {u : ParseState} (h : o.Effect s t) (hs : Effect opts t u) :
    Effect (o :: opts) s u where
  netnsType := by rw [hs.netnsType, h.netnsType, lastArg_cons, Option.or_assoc]
  usernsPath := by rw [hs.usernsPath, h.usernsPath, lastArg_cons, Option.or_assoc]
  macaddress := by rw [hs.macaddress, h.macaddress, lastArg_cons, Option.or_assoc]
  targetType := by rw [hs.targetType, h.targetType, lastArg_cons, Option.or_assoc]
  configure := by
    rw [hs.configure, h.configure, Bool.eq_iff_iff]
    simp only [Bool.or_eq_true, decide_eq_true_eq, beq_iff_eq, List.mem_cons]
    constructor
    · rintro (h | rfl | h) <;> simp [*]
    · rintro ((rfl | h) | h) <;> simp [*]
  sandbox := by
    rw [hs.sandbox, h.sandbox, Bool.eq_iff_iff]
    simp only [Bool.or_eq_true, decide_eq_true_eq, beq_iff_eq, List.mem_cons]
    constructor
    · rintro ((h | h) | (rfl | rfl) | h) <;> simp [*]
    · rintro (((rfl | h) | (rfl | h)) | h) <;> simp [*]
  targetPid := by rw [hs.targetPid, h.targetPid]
  tapfd := by rw [hs.tapfd, h.tapfd]
  tapname := by rw [hs.tapname, h.tapname]
  netnsPath := by rw [hs.netnsPath, h.netnsPath]
  bessSocket := by rw [hs.bessSocket, h.bessSocket]

theorem parseOptions_effect (h : parseOptions access opts s = .ok t) : Effect opts s t := by
  induction opts generalizing s with
  | nil =>
    cases h
    exact .nil _
  | cons o opts ih =>
    obtain ⟨update, hupdate, hopts⟩ := Except.bind_eq_ok.1 h
    exact .cons (parseOption_effect hupdate s) (ih hopts)

end

/-! ## Accepted command lines -/

namespace CommandLine

/-- The last `--netns-type`. -/
def netnsType (line : CommandLine) : Option Bytes := lastArg Opt.netnsType? line.opts
/-- The last `--userns-path`. -/
def usernsPath (line : CommandLine) : Option Bytes := lastArg Opt.usernsPath? line.opts
/-- The last `--macaddress`. -/
def macaddress (line : CommandLine) : Option Bytes := lastArg Opt.macaddress? line.opts
/-- The last `--target-type`. -/
def targetType (line : CommandLine) : Option Bytes := lastArg Opt.targetType? line.opts

end CommandLine

/-- The four kinds of target. -/
inductive Target where
  | bess
  | pid
  | path
  | tapfd
  deriving DecidableEq

/-- The kind of target that the type options name. -/
def CommandLine.target (line : CommandLine) : Target :=
  if line.targetType = some (bytes "bess") then .bess
  else if line.netnsType = none ∨ line.netnsType = some defaultNetnsType then .pid
  else if line.netnsType = some (bytes "tapfd") then .tapfd
  else .path

/-- A target of a kind is selected, as its consumers need it. -/
def Target.Selected (access : Bytes → Bool) (o : Options) : Target → Prop
  | bess => o.bessSocket.isSome ∧ o.targetPid = 0 ∧ o.tapfd = -1 ∧ o.tapname = none ∧
      o.netnsPath = none ∧ o.usernsPath = none ∧ o.doConfigNetwork = false
  | pid => 0 < o.targetPid ∧ o.tapname.isSome ∧ o.tapfd = -1 ∧ o.netnsPath = none ∧
      o.bessSocket = none
  | path => (∃ path, o.netnsPath = some path ∧ access path = true) ∧ o.tapname.isSome ∧
      o.targetPid = 0 ∧ o.tapfd = -1 ∧ o.bessSocket = none
  | tapfd => 0 ≤ o.tapfd ∧ o.targetPid = 0 ∧ o.tapname = none ∧ o.netnsPath = none ∧
      o.bessSocket = none

/-- The kinds exclude each other. -/
theorem Target.Selected.unique {access : Bytes → Bool} {o : Options} {k k' : Target}
    (h : k.Selected access o) (h' : k'.Selected access o) : k = k' := by
  cases k <;> cases k' <;> simp only [Target.Selected] at h h' <;> first
    | rfl
    | (exfalso; grind)

/-- The options of a command line, in the fields that are the same for every target. -/
structure Given (line : CommandLine) (o : Options) : Prop where
  netnsType : o.netnsType = line.netnsType
  usernsPath : o.usernsPath = line.usernsPath
  macaddress : o.macaddress = line.macaddress
  targetType : o.targetType = line.targetType
  configure : o.doConfigNetwork = decide (.configure ∈ line.opts)
  sandbox : o.enableSandbox = decide (.enableSandbox ∈ line.opts ∨ .createSandbox ∈ line.opts)
  macaddress_configure : o.macaddress.isSome → o.doConfigNetwork = true

theorem Given.select {line : CommandLine} {o : Options} (h : Given line o) (pid fd : ℤ)
    (tapname netnsPath socket : Option Bytes) : Given line { o with
      targetPid := pid, tapfd := fd, tapname := tapname, netnsPath := netnsPath,
      bessSocket := socket } :=
  ⟨h.netnsType, h.usernsPath, h.macaddress, h.targetType, h.configure, h.sandbox,
    h.macaddress_configure⟩

/-- After the copies the target is not set yet. -/
structure Copied (line : CommandLine) (o : Options) : Prop extends Given line o where
  targetPid : o.targetPid = 0
  tapfd : o.tapfd = -1
  tapname : o.tapname = none
  netnsPath : o.netnsPath = none
  bessSocket : o.bessSocket = none

/-- What an accepted command line gives. -/
structure Parses (access : Bytes → Bool) (line : CommandLine) (o : Options) : Prop
    extends Given line o where
  target : line.target.Selected access o

theorem copyOptargs_copied {access : Bytes → Bool} {line : CommandLine} {s : ParseState}
    {o : Options} (hs : parseOptions access line.opts .init = .ok s) (ho : copyOptargs s = .ok o) :
    Copied line o := by
  have heffect := parseOptions_effect hs
  rw [copyOptargs] at ho
  split at ho
  · cases ho
  · next hmac =>
    cases ho
    exact {
      netnsType := heffect.netnsType.trans (Option.or_none)
      usernsPath := heffect.usernsPath.trans (Option.or_none)
      macaddress := heffect.macaddress.trans (Option.or_none)
      targetType := heffect.targetType.trans (Option.or_none)
      configure := heffect.configure.trans (Bool.or_false _)
      sandbox := heffect.sandbox.trans (Bool.or_false _)
      macaddress_configure := by
        intro hsome
        simpa [hsome] using hmac
      targetPid := heffect.targetPid
      tapfd := heffect.tapfd
      tapname := heffect.tapname
      netnsPath := heffect.netnsPath
      bessSocket := heffect.bessSocket }

section
variable {access : Bytes → Bool} {line : CommandLine} {o o' : Options}

theorem bessMode_parses (hc : Copied line o) (hbess : o.targetType = some (bytes "bess"))
    (h : bessMode o line.args = .ok o') : Parses access line o' := by
  have htarget : line.target = .bess := by
    rw [CommandLine.target, if_pos (hc.targetType ▸ hbess)]
  unfold bessMode at h
  split at h
  · cases h
  · next socket _ =>
    split at h
    · cases h
    · next hconfigure =>
      split at h
      · cases h
      · split at h
        · cases h
        · next huserns =>
          cases h
          refine ⟨hc.select _ _ _ _ _, ?_⟩
          rw [htarget]
          exact ⟨rfl, hc.targetPid, hc.tapfd, hc.tapname, hc.netnsPath, by simpa using huserns,
            by simpa using hconfigure⟩
  · cases h

/-- The first argument selects the kind of target. -/
theorem selectNetns_cases {arg : Bytes} (hc : Copied line o)
    (hbess : o.targetType ≠ some (bytes "bess")) (h : selectNetns access o arg = .ok o') :
    (line.target = .pid ∧ ∃ pid > 0, o' = { o with targetPid := pid }) ∨
      (line.target = .tapfd ∧ ∃ fd ≥ 0, o' = { o with tapfd := fd }) ∨
      (line.target = .path ∧ access arg = true ∧ o' = { o with netnsPath := some arg }) := by
  have htype : line.target = if o.netnsType = none ∨ o.netnsType = some defaultNetnsType then .pid
      else if o.netnsType = some (bytes "tapfd") then .tapfd else .path := by
    rw [CommandLine.target, if_neg (hc.targetType ▸ hbess), hc.netnsType]
  unfold selectNetns at h
  split at h
  · next hpid =>
    obtain ⟨pid, hpid', h⟩ := Except.bind_eq_ok.1 h
    cases h
    exact .inl ⟨by rw [htype, if_pos hpid], pid, intArg_ge hpid', rfl⟩
  · next hpid =>
    split at h
    · next hfd =>
      obtain ⟨fd, hfd', h⟩ := Except.bind_eq_ok.1 h
      cases h
      exact .inr (.inl ⟨by rw [htype, if_neg hpid, if_pos hfd], fd, intArg_ge hfd', rfl⟩)
    · next hfd =>
      split at h
      · next hpath =>
        cases h
        exact .inr (.inr ⟨by rw [htype, if_neg hpid, if_neg hfd], hpath, rfl⟩)
      · cases h

theorem selectTapname_of_neg {rest : List Bytes} (h : selectTapname o rest = .ok o')
    (hfd : o.tapfd < 0) : ∃ tapname, o' = { o with tapname := some tapname } := by
  unfold selectTapname at h
  split at h
  · omega
  · split at h
    · cases h
    · next tapname _ =>
      cases h
      exact ⟨tapname, rfl⟩

theorem selectTapname_of_nonneg {rest : List Bytes} (h : selectTapname o rest = .ok o')
    (hfd : 0 ≤ o.tapfd) : o' = o := by
  unfold selectTapname at h
  split at h
  · cases h
    rfl
  · omega

theorem netnsMode_parses (hc : Copied line o) (hbess : o.targetType ≠ some (bytes "bess"))
    (h : netnsMode access o line.args = .ok o') : Parses access line o' := by
  unfold netnsMode at h
  split at h
  · cases h
  · split at h
    · cases h
    · obtain ⟨o₁, hselect, h⟩ := Except.bind_eq_ok.1 h
      have hneg : o.tapfd < 0 := by rw [hc.tapfd]; decide
      rcases selectNetns_cases hc hbess hselect with
        ⟨htarget, pid, hpid, rfl⟩ | ⟨htarget, fd, hfd, rfl⟩ | ⟨htarget, haccess, rfl⟩
      · obtain ⟨tapname, rfl⟩ := selectTapname_of_neg h hneg
        refine ⟨hc.select _ _ _ _ _, ?_⟩
        rw [htarget]
        exact ⟨hpid, rfl, hc.tapfd, hc.netnsPath, hc.bessSocket⟩
      · obtain rfl := selectTapname_of_nonneg h hfd
        refine ⟨hc.select _ _ _ _ _, ?_⟩
        rw [htarget]
        exact ⟨hfd, hc.targetPid, hc.tapname, hc.netnsPath, hc.bessSocket⟩
      · obtain ⟨tapname, rfl⟩ := selectTapname_of_neg h hneg
        refine ⟨hc.select _ _ _ _ _, ?_⟩
        rw [htarget]
        exact ⟨⟨_, rfl, haccess⟩, rfl, hc.targetPid, hc.tapfd, hc.bessSocket⟩

theorem parseArgs_parses (h : parseArgs access line = .ok o) : Parses access line o := by
  obtain ⟨s, hs, h⟩ := Except.bind_eq_ok.1 h
  obtain ⟨o₁, ho₁, h⟩ := Except.bind_eq_ok.1 h
  have hc := copyOptargs_copied hs ho₁
  split at h
  · next hbess => exact bessMode_parses hc hbess h
  · next hbess => exact netnsMode_parses hc hbess h

end

/-! ## The order of the options -/

section
variable {access : Bytes → Bool}

/-- The update of an option that is not refused. -/
def Opt.update (access : Bytes → Bool) (o : Opt) (s : ParseState) : ParseState :=
  match parseOption access o with
  | .error _ => s
  | .ok update => update s

theorem parseOptions_ok {opts : List Opt} {s t : ParseState} :
    parseOptions access opts s = .ok t ↔ (∀ o ∈ opts, ∃ update, parseOption access o = .ok update) ∧
      t = opts.foldl (fun s o => o.update access s) s := by
  induction opts generalizing s with
  | nil => simp [parseOptions, eq_comm]
  | cons o opts ih =>
    rw [parseOptions]
    cases ho : parseOption access o with
    | error e => simp [ho, bind, Except.bind]
    | ok update => simp [ho, bind, Except.bind, ih, Opt.update]

/-- What an option that is not refused writes, by its code. -/
inductive Writes : ℤ → (ParseState → ParseState) → Prop
  | configure : Writes 99 fun s => { s with options.doConfigNetwork := true }
  | exitFd (fd : ℤ) : Writes 101 fun s => { s with options.exitFd := fd }
  | readyFd (fd : ℤ) : Writes 114 fun s => { s with options.readyFd := fd }
  | mtu (mtu : ℕ) : Writes 109 fun s => { s with options.mtu := mtu }
  | ipv6 : Writes 54 fun s => { s with options.enableIpv6 := true }
  | seccomp : Writes (-47) fun s => { s with options.enableSeccomp := true }
  | dns : Writes (-50) fun s => { s with options.disableDns := true }
  | loopback (code : ℤ) (h : code = -43 ∨ code = -10043) :
      Writes code fun s => { s with options.disableHostLoopback := true }
  | sandbox (code : ℤ) (h : code = -46 ∨ code = -10044) :
      Writes code fun s => { s with options.enableSandbox := true }
  | cidr (x : Bytes) : Writes (-42) fun s => { s with optargCidr := some x }
  | netnsType (x : Bytes) : Writes (-44) fun s => { s with optargNetnsType := some x }
  | usernsPath (x : Bytes) : Writes (-45) fun s => { s with optargUsernsPath := some x }
  | apiSocket (x : Bytes) : Writes 97 fun s => { s with optargApiSocket := some x }
  | outboundAddr (x : Bytes) : Writes (-48) fun s => { s with optargOutboundAddr := some x }
  | outboundAddr6 (x : Bytes) : Writes (-49) fun s => { s with optargOutboundAddr6 := some x }
  | macaddress (x : Bytes) : Writes (-51) fun s => { s with optargMacaddress := some x }
  | targetType (x : Bytes) : Writes (-52) fun s => { s with optargTargetType := some x }

theorem parseOption_writes {o : Opt} {f : ParseState → ParseState}
    (h : parseOption access o = .ok f) : Writes o.code f := by
  cases o
  case exitFd =>
    obtain ⟨fd, -, hf⟩ := Except.bind_eq_ok.1 h
    cases hf
    exact .exitFd fd
  case readyFd =>
    obtain ⟨fd, -, hf⟩ := Except.bind_eq_ok.1 h
    cases hf
    exact .readyFd fd
  case mtu =>
    obtain ⟨mtu, -, hf⟩ := Except.bind_eq_ok.1 h
    cases hf
    exact .mtu mtu
  case usernsPath path =>
    rw [parseOption] at h
    split at h <;> cases h
    exact .usernsPath path
  case disableHostLoopback => cases h; exact .loopback _ (.inl rfl)
  case noHostLoopback => cases h; exact .loopback _ (.inr rfl)
  case enableSandbox => cases h; exact .sandbox _ (.inl rfl)
  case createSandbox => cases h; exact .sandbox _ (.inr rfl)
  all_goals cases h
  all_goals constructor

/-- Writes with different codes are of different variables, or of the same value. -/
theorem Writes.comm {c d : ℤ} {f g : ParseState → ParseState} (hf : Writes c f) (hg : Writes d g)
    (hcode : c ≠ d) (s : ParseState) : g (f s) = f (g s) := by
  cases hf <;> cases hg <;> first
    | rfl
    | exact absurd rfl hcode

theorem Writes.code_ne {c : ℤ} {f : ParseState → ParseState} (h : Writes c f) : c ≠ 63 := by
  cases h <;> omega

/-- Every option is given at most once; what is not an option of the program may be repeated. -/
def AtMostOnce (opts : List Opt) : Prop := ((opts.filter (·.code ≠ 63)).map Opt.code).Nodup

instance (opts : List Opt) : Decidable (AtMostOnce opts) :=
  inferInstanceAs (Decidable (List.Nodup _))

theorem parseOptions_perm {opts opts' : List Opt} {s t : ParseState} (hperm : opts.Perm opts')
    (honce : AtMostOnce opts) (h : parseOptions access opts s = .ok t) :
    parseOptions access opts' s = .ok t := by
  obtain ⟨hok, rfl⟩ := parseOptions_ok.1 h
  refine parseOptions_ok.2 ⟨fun o ho => hok o (hperm.mem_iff.2 ho), ?_⟩
  apply hperm.foldl_eq'
  intro a ha b hb z
  obtain ⟨f, hf⟩ := hok a ha
  obtain ⟨g, hg⟩ := hok b hb
  have hwf := parseOption_writes hf
  have hwg := parseOption_writes hg
  simp only [Opt.update, hf, hg]
  by_cases hcode : a.code = b.code
  · have hmem : ∀ {o : Opt}, o ∈ opts → o.code ≠ 63 → o ∈ opts.filter (·.code ≠ 63) :=
      fun ho hne => List.mem_filter.2 ⟨ho, decide_eq_true hne⟩
    obtain rfl := List.inj_on_of_nodup_map honce (hmem ha hwf.code_ne) (hmem hb hwg.code_ne) hcode
    rw [hf] at hg
    cases hg
    rfl
  · exact hwf.comm hwg hcode z

end

/-! ## Failures -/

/-- If code ends the program, then with a failure. -/
def OnlyFails {α : Type} (x : Except Exit α) : Prop :=
  ∀ e, x = .error e → ∃ message, e = .failure message

section
variable {α β : Type}

theorem OnlyFails.ok (a : α) : OnlyFails (.ok a) := by
  intro e h
  cases h

theorem OnlyFails.failure (message : Bytes) :
    OnlyFails (.error (.failure message) : Except Exit α) := by
  intro e h
  cases h
  exact ⟨message, rfl⟩

theorem OnlyFails.bind {x : Except Exit α} {f : α → Except Exit β} (hx : OnlyFails x)
    (hf : ∀ a, OnlyFails (f a)) : OnlyFails (x >>= f) := by
  intro e h
  cases hxe : x with
  | error e' =>
    rw [hxe] at h
    cases h
    exact hx e hxe
  | ok a =>
    rw [hxe] at h
    exact hf a e h

theorem OnlyFails.ite {c : Prop} [Decidable c] {x y : Except Exit α} (hx : OnlyFails x)
    (hy : OnlyFails y) : OnlyFails (if c then x else y) := by
  split
  exacts [hx, hy]

end

theorem intArg_onlyFails (min : ℤ) (message s : Bytes) : OnlyFails (intArg min message s) := by
  unfold intArg
  split
  · exact .failure _
  · exact .ite (.failure _) (.ok _)

theorem mtuArg_onlyFails (s : Bytes) : OnlyFails (mtuArg s) := by
  unfold mtuArg
  split
  · exact .failure _
  · exact .ite (.failure _) (.ok _)

section
variable {access : Bytes → Bool}

theorem parseOption_onlyFails {o : Opt} (hhelp : o ≠ .help) (hversion : o ≠ .version) :
    OnlyFails (parseOption access o) := by
  cases o
  case help => exact absurd rfl hhelp
  case version => exact absurd rfl hversion
  case exitFd | readyFd => exact .bind (intArg_onlyFails _ _ _) fun _ => .ok _
  case mtu => exact .bind (mtuArg_onlyFails _) fun _ => .ok _
  case usernsPath => exact .ite (.ok _) (.failure _)
  case unknown => exact .failure _
  all_goals exact .ok _

theorem parseOptions_onlyFails {opts : List Opt} (hhelp : .help ∉ opts) (hversion : .version ∉ opts)
    (s : ParseState) : OnlyFails (parseOptions access opts s) := by
  induction opts generalizing s with
  | nil => exact .ok s
  | cons o opts ih =>
    rw [List.mem_cons, not_or] at hhelp hversion
    exact .bind (parseOption_onlyFails (Ne.symm hhelp.1) (Ne.symm hversion.1)) fun update =>
      ih hhelp.2 hversion.2 (update s)

theorem bessMode_onlyFails (o : Options) (args : List Bytes) : OnlyFails (bessMode o args) := by
  unfold bessMode
  split
  · exact .failure _
  · exact .ite (.failure _) (.ite (.failure _) (.ite (.failure _) (.ok _)))
  · exact .failure _

theorem netnsMode_onlyFails (o : Options) (args : List Bytes) :
    OnlyFails (netnsMode access o args) := by
  refine .ite (.failure _) ?_
  cases args with
  | nil => exact .failure _
  | cons arg rest =>
    refine .bind ?_ fun o' => .ite (.ok _) ?_
    · refine .ite (.bind (intArg_onlyFails _ _ _) fun _ => .ok _) ?_
      exact .ite (.bind (intArg_onlyFails _ _ _) fun _ => .ok _) (.ite (.ok _) (.failure _))
    · cases rest with
      | nil => exact .failure _
      | cons tapname rest => exact .ok _

/-- What follows the loop. -/
def afterLoop (access : Bytes → Bool) (args : List Bytes) (s : ParseState) :
    Except Exit Options := do
  let o ← copyOptargs s
  if o.targetType = some (bytes "bess") then bessMode o args else netnsMode access o args

theorem parseArgs_eq (line : CommandLine) :
    parseArgs access line = parseOptions access line.opts .init >>= afterLoop access line.args :=
  rfl

theorem afterLoop_onlyFails (args : List Bytes) (s : ParseState) :
    OnlyFails (afterLoop access args s) :=
  .bind (.ite (.failure _) (.ok _)) fun _ => .ite (bessMode_onlyFails _ _) (netnsMode_onlyFails _ _)

/-- **The order of the options does not matter**: two command lines with the same options in
    different orders, each at most once and none of them `-h` or `-v`, and with the same
    arguments are both refused or give the same options. -/
theorem parseArgs_perm {line line' : CommandLine} (hperm : line.opts.Perm line'.opts)
    (honce : AtMostOnce line.opts) (hhelp : .help ∉ line.opts) (hversion : .version ∉ line.opts)
    (hargs : line.args = line'.args) :
    (∃ m m', parseArgs access line = .error (.failure m) ∧
      parseArgs access line' = .error (.failure m')) ∨
    ∃ o, parseArgs access line = .ok o ∧ parseArgs access line' = .ok o := by
  have honce' : AtMostOnce line'.opts :=
    (((hperm.filter _).map _).nodup_iff).1 honce
  rw [parseArgs_eq, parseArgs_eq, ← hargs]
  cases hs : parseOptions access line.opts .init with
  | ok s =>
    rw [parseOptions_perm hperm honce hs]
    -- the same code runs on the same variables
    show (∃ m m', afterLoop access line.args s = .error (.failure m) ∧
      afterLoop access line.args s = .error (.failure m')) ∨
      ∃ o, afterLoop access line.args s = .ok o ∧ afterLoop access line.args s = .ok o
    cases hr : afterLoop access line.args s with
    | ok o => exact .inr ⟨o, rfl, rfl⟩
    | error e =>
      obtain ⟨m, rfl⟩ := afterLoop_onlyFails _ _ e hr
      exact .inl ⟨m, m, rfl, rfl⟩
  | error e =>
    cases hs' : parseOptions access line'.opts .init with
    | ok s =>
      rw [parseOptions_perm hperm.symm honce' hs'] at hs
      cases hs
    | error e' =>
      obtain ⟨m, rfl⟩ := parseOptions_onlyFails hhelp hversion _ e hs
      obtain ⟨m', rfl⟩ := parseOptions_onlyFails (fun h => hhelp (hperm.mem_iff.2 h))
        (fun h => hversion (hperm.mem_iff.2 h)) _ e' hs'
      exact .inl ⟨m, m', rfl, rfl⟩

/-- `--macaddress` before or after `-c`. -/
theorem parseArgs_perm_macaddress :
    let opts := [Opt.macaddress (bytes "02:00:00:00:00:01"), .configure]
    let args := [bytes "42", bytes "tap0"]
    (∃ m m', parseArgs (fun _ => true) ⟨opts, args⟩ = .error (.failure m) ∧
      parseArgs (fun _ => true) ⟨opts.reverse, args⟩ = .error (.failure m')) ∨
    ∃ o, parseArgs (fun _ => true) ⟨opts, args⟩ = .ok o ∧
      parseArgs (fun _ => true) ⟨opts.reverse, args⟩ = .ok o :=
  parseArgs_perm (List.reverse_perm _).symm (by decide +kernel) (by decide +kernel)
    (by decide +kernel) rfl

end

end Slirp4netns
