/-
  slirp4netns formalization — the configuration (`slirp4netns_config_from_options`
  in `main.c`, `create_slirp` in `slirp4netns.c`).

  `main` passes a structure that is not initialised, so each function here takes
  the contents it finds and gives the contents it leaves.  What is read of it
  later is given by four functions: `slirpConfig` (with the outbound addresses
  that libslirp gets by pointer), `networkRequests`, `parentText` and
  `Config.doSlirpConfig`.

  `configFromOptions_determined` says when nothing of the initial contents can
  influence them: `sin6_flowinfo` and `sin6_scope_id` are never written, so this
  is so only if no IPv6 outbound address is taken over.
-/
import Slirp4netns.Api.Handler
import Slirp4netns.Cidr
import Slirp4netns.Options

namespace Slirp4netns

/-! ## Socket addresses -/

/-- `AF_LOCAL` -/
def afLocal : ℕ := 1
/-- `AF_INET` -/
def afInet : ℕ := 2
/-- `AF_INET6` -/
def afInet6 : ℕ := 10

/-- `struct in6_addr` -/
structure In6Addr where
  bytes : Vector UInt8 16
  deriving DecidableEq

/-- `struct sockaddr_in` without `sin_zero` -/
structure SockaddrIn where
  family : ℕ
  port : ℕ
  addr : InAddr
  deriving DecidableEq

/-- `struct sockaddr_in6` -/
structure SockaddrIn6 where
  family : ℕ
  port : ℕ
  flowinfo : ℕ
  addr : In6Addr
  scopeId : ℕ
  deriving DecidableEq

/-- `struct sockaddr` -/
structure Sockaddr where
  family : ℕ
  data : List UInt8
  deriving DecidableEq

/-- The addresses that an interface can have. -/
inductive IfAddr where
  | inet (addr : InAddr)
  | inet6 (addr : In6Addr)
  | other (family : ℕ)
  deriving DecidableEq

/-- `struct ifaddrs` -/
structure Ifaddrs where
  name : Option Bytes
  addr : Option IfAddr
  deriving DecidableEq

/-- What the build and the host decide. -/
structure ConfigEnv where
  /-- `SLIRP_CONFIG_VERSION_MAX` -/
  versionMax : ℕ
  /-- `inet_pton(AF_INET6, …)` -/
  inetPton6 : Bytes → Option In6Addr
  /-- `inet_ntop(AF_INET6, …)` -/
  inetNtop6 : In6Addr → Option Bytes
  /-- `none` if `getifaddrs` fails -/
  getifaddrs : Option (List Ifaddrs)

/-- `struct slirp4netns_config`, complete. -/
structure Config where
  mtu : ℕ
  vnetwork : InAddr
  vnetmask : InAddr
  vhost : InAddr
  vdhcpStart : InAddr
  vnameserver : InAddr
  recommendedVguest : InAddr
  enableIpv6 : Bool
  disableHostLoopback : Bool
  enableSandbox : Bool
  enableSeccomp : Bool
  enableOutboundAddr : Bool
  outboundAddr : SockaddrIn
  enableOutboundAddr6 : Bool
  outboundAddr6 : SockaddrIn6
  disableDns : Bool
  vmacaddress : Sockaddr
  vmacaddressLen : ℕ
  deriving DecidableEq

/-! ## slirp4netns_config_from_cidr -/

/-- `DEFAULT_CIDR` -/
def defaultCidr : Bytes := bytes "10.0.2.0/24"

/-- `htonl(ntohl(x.s_addr) + k)` -/
def InAddr.offset (x : InAddr) (k : ℕ) : InAddr := htonl (x.ntohl + BitVec.ofNat 32 k)

/-- `slirp4netns_config_from_cidr` -/
def configFromCidr (cidr : Bytes) (cfg : Config) : Except Bytes Config :=
  let parsed := parseCidr cidr
  let cfg := { cfg with
    vnetwork := parsed.network.getD cfg.vnetwork
    vnetmask := parsed.netmask.getD cfg.vnetmask }
  match parsed.error with
  | some e => .error e.text
  | none => .ok { cfg with
      vhost := cfg.vnetwork.offset 2
      vdhcpStart := cfg.vnetwork.offset 15
      vnameserver := cfg.vnetwork.offset 3
      recommendedVguest := cfg.vnetwork.offset 100 }

/-! ## Outbound addresses -/

/-- The loop of `get_interface_addr`: the first address of the interface that `pick` takes. -/
def findAddr {α : Type} (interface : Bytes) (pick : IfAddr → Option α) : List Ifaddrs → Option α
  | [] => none
  | ifa :: rest =>
    match ifa.addr.bind pick with
    | none => findAddr interface pick rest
    | some addr => if ifa.name = some interface then some addr else findAddr interface pick rest

/-- The address, if its family is `AF_INET`. -/
def IfAddr.inet? : IfAddr → Option InAddr
  | inet addr => some addr
  | _ => none

/-- The address, if its family is `AF_INET6`. -/
def IfAddr.inet6? : IfAddr → Option In6Addr
  | inet6 addr => some addr
  | _ => none

/-- `get_interface_addr`, or what it prints before it fails. -/
def getInterfaceAddr {α : Type} (env : ConfigEnv) (interface : Option Bytes)
    (pick : IfAddr → Option α) : Except Bytes α :=
  match interface with
  | none => .error []
  | some interface =>
    match env.getifaddrs with
    | none => .error (bytes "getifaddrs failed to obtain interface addresses")
    | some ifaddr =>
      match findAddr interface pick ifaddr with
      | none => .error []
      | some addr => .ok addr

/-- The part for `--outbound-addr`. -/
def outboundAddrStep (env : ConfigEnv) (opt : Options) (cfg : Config) : Except Bytes Config :=
  match opt.outboundAddr with
  | none => .ok cfg
  | some text =>
    if env.versionMax ≥ 2 then
      let cfg := { cfg with outboundAddr.family := afInet, outboundAddr.port := 0 }
      match inetPton text with
      | some addr => .ok { cfg with outboundAddr.addr := addr, enableOutboundAddr := true }
      | none =>
        match getInterfaceAddr env opt.outboundAddr IfAddr.inet? with
        | .error printed => .error (printed ++
            bytes "outbound-addr has to be valid ipv4 address or interface name.")
        | .ok addr => .ok { cfg with outboundAddr.addr := addr, enableOutboundAddr := true }
    else .error (bytes "slirp4netns has to be compiled against libslrip 4.2.0 or newer for " ++
      bytes "--outbound-addr support.")

/-- The interface is that of `--outbound-addr`, not of `--outbound-addr6`. -/
def outboundAddr6Step (env : ConfigEnv) (opt : Options) (cfg : Config) : Except Bytes Config :=
  match opt.outboundAddr6 with
  | none => .ok cfg
  | some text =>
    if env.versionMax ≥ 2 then
      let cfg := { cfg with outboundAddr6.family := afInet6, outboundAddr6.port := 0 }
      match env.inetPton6 text with
      | some addr => .ok { cfg with outboundAddr6.addr := addr, enableOutboundAddr6 := true }
      | none =>
        match getInterfaceAddr env opt.outboundAddr IfAddr.inet6? with
        | .error printed => .error (printed ++
            bytes "outbound-addr has to be valid ipv4 address or iterface name.")
        | .ok addr => .ok { cfg with outboundAddr6.addr := addr, enableOutboundAddr6 := true }
    else .error (bytes "slirp4netns has to be compiled against libslirp 4.2.0 or newer for " ++
      bytes "--outbound-addr6 support.")

/-- The part for `--disable-dns`. -/
def disableDnsStep (env : ConfigEnv) (opt : Options) (cfg : Config) : Except Bytes Config :=
  if env.versionMax ≥ 3 then .ok { cfg with disableDns := opt.disableDns }
  else if opt.disableDns then
    .error (bytes "slirp4netns has to be compiled against libslirp 4.3.0 or newer for " ++
      bytes "--disable-dns support.")
  else .ok cfg

/-! ## MAC addresses -/

/-- Without the `x` of `0x`. -/
def dropHexMark : Bytes → Bytes
  | 48 :: c :: s => if c = 120 ∨ c = 88 then 48 :: s else 48 :: c :: s
  | s => s

/-- `sscanf(s, "%x", &temp)`, as glibc reads it. -/
def scanHex (s : Bytes) : Option ℤ :=
  let signed := readSign (s.dropWhile isSpace)
  let digits := (dropHexMark signed.2).map hexCharToInt |>.takeWhile Option.isSome
  if digits = [] then none
  else
    let n : ℤ := digits.foldl (fun n d => 16 * n + d.getD 0) 0
    some (wrapInt (if n > ulongMax then ulongMax else if signed.1 then -n else n))

/-- `strchr(s, ':')`, from the character after it on. -/
def afterColon (s : Bytes) : Option Bytes :=
  match s.dropWhile (· != 58) with
  | [] => none
  | _ :: rest => some rest

/-- The loop of `slirp4netns_macaddr_hexstring_to_data`, with room for `n` bytes. -/
def macaddrLoop (macaddr : Bytes) : ℕ → Bytes → Except Bytes (List UInt8)
  | 0, _ => .error (bytes "\"" ++ macaddr ++
      bytes "\" is an invalid MAC address.  Is it too long?\n")
  | n + 1, s =>
    match scanHex s with
    | none => .error (bytes "\"" ++ macaddr ++ bytes "\" is an invalid MAC address.\n")
    | some temp =>
      if temp < 0 ∨ temp > 255 then
        .error (bytes "\"" ++ macaddr ++ bytes "\" is an invalid MAC address.\n")
      else
        match afterColon s with
        | none => .ok [UInt8.ofNat temp.toNat]
        | some rest => do
          let data ← macaddrLoop macaddr n rest
          return UInt8.ofNat temp.toNat :: data

/-- `slirp4netns_macaddr_hexstring_to_data` -/
def macaddrHexstringToData (macaddr : Bytes) : Except Bytes (List UInt8) :=
  macaddrLoop macaddr 6 macaddr

/-- `sa_data` after `memset` and the bytes of an address. -/
def saData (data : List UInt8) : List UInt8 := data ++ List.replicate (14 - data.length) 0

/-- The part for `--macaddress`. -/
def macaddressStep (opt : Options) (cfg : Config) : Except Bytes Config :=
  let cfg := { cfg with vmacaddressLen := 0, vmacaddress := ⟨0, saData []⟩ }
  match opt.macaddress with
  | none => .ok cfg
  | some macaddr =>
    match macaddrHexstringToData macaddr with
    | .error printed => .error (printed ++ bytes "macaddress has to be a valid MAC address (hex " ++
        bytes "string, 6 bytes, each byte separated by a ':').")
    | .ok data => .ok { cfg with
        vmacaddress := ⟨afLocal, saData data⟩
        vmacaddressLen := data.length }

/-! ## slirp4netns_config_from_options -/

/-- The assignments after the network. -/
def Config.withFlags (cfg : Config) (opt : Options) : Config := { cfg with
  enableIpv6 := opt.enableIpv6
  disableHostLoopback := opt.disableHostLoopback
  enableSandbox := opt.enableSandbox
  enableSeccomp := opt.enableSeccomp
  enableOutboundAddr := false
  enableOutboundAddr6 := false }

/-- `slirp4netns_config_from_options` -/
def configFromOptions (env : ConfigEnv) (opt : Options) (cfg : Config) : Except Bytes Config := do
  let cfg ← configFromCidr (opt.cidr.getD defaultCidr) { cfg with mtu := opt.mtu }
  let cfg ← outboundAddrStep env opt (cfg.withFlags opt)
  let cfg ← outboundAddr6Step env opt cfg
  let cfg ← disableDnsStep env opt cfg
  macaddressStep opt cfg

/-! ## What is read later -/

/-- `SlirpConfig`; of a pointer to an address the address. -/
structure SlirpConfig where
  version : ℕ
  restricted : ℕ
  inEnabled : Bool
  vnetwork : InAddr
  vnetmask : InAddr
  vhost : InAddr
  in6Enabled : Bool
  vprefixAddr6 : Option In6Addr
  vprefixLen : ℕ
  vhost6 : Option In6Addr
  vdhcpStart : InAddr
  vnameserver : InAddr
  vnameserver6 : Option In6Addr
  ifMtu : ℕ
  ifMru : ℕ
  disableHostLoopback : Bool
  outboundAddr : Option SockaddrIn
  outboundAddr6 : Option SockaddrIn6
  disableDns : Bool
  deriving DecidableEq

/-- The configuration that `create_slirp` hands to libslirp. -/
def slirpConfig (env : ConfigEnv) (cfg : Config) : SlirpConfig :=
  let outbound := decide (env.versionMax ≥ 2) && cfg.enableOutboundAddr
  let outbound6 := decide (env.versionMax ≥ 2) && cfg.enableOutboundAddr6
  let dns := decide (env.versionMax ≥ 3) && cfg.disableDns
  { version :=
      if env.versionMax ≥ 6 then 6 else if dns then 3 else if outbound || outbound6 then 2 else 1
    restricted := 0
    inEnabled := true
    vnetwork := cfg.vnetwork
    vnetmask := cfg.vnetmask
    vhost := cfg.vhost
    in6Enabled := cfg.enableIpv6
    vprefixAddr6 := env.inetPton6 (bytes "fd00::")
    vprefixLen := 64
    vhost6 := env.inetPton6 (bytes "fd00::2")
    vdhcpStart := cfg.vdhcpStart
    vnameserver := cfg.vnameserver
    vnameserver6 := env.inetPton6 (bytes "fd00::3")
    ifMtu := cfg.mtu
    ifMru := cfg.mtu
    disableHostLoopback := cfg.disableHostLoopback
    outboundAddr := if outbound then some cfg.outboundAddr else none
    outboundAddr6 := if outbound6 then some cfg.outboundAddr6 else none
    disableDns := dns }

/-- The `ioctl` requests of `configure_network`. -/
inductive Ioctl where
  /-- `SIOCSIFFLAGS` with `IFF_UP | IFF_RUNNING` -/
  | up (ifname : Bytes)
  | setMtu (ifname : Bytes) (mtu : ℤ)
  | setHwaddr (ifname : Bytes) (addr : Sockaddr)
  | setAddr (ifname : Bytes) (addr : SockaddrIn)
  | setNetmask (ifname : Bytes) (addr : SockaddrIn)
  | addRoute (dev : Bytes) (gateway dst genmask : InAddr)
  deriving DecidableEq

/-- What `perror` prints when a request fails. -/
def Ioctl.perrorText : Ioctl → Bytes
  | up _ => bytes "cannot set device up"
  | setMtu .. => bytes "cannot set MTU"
  | setHwaddr .. => bytes "cannot set MAC address"
  | setAddr .. => bytes "cannot set device address"
  | setNetmask .. => bytes "cannot set device netmask"
  | addRoute .. => bytes "set route"

/-- The requests in order; a name of an interface has room for 15 characters. -/
def networkRequests (tapname : Bytes) (cfg : Config) : List Ioctl :=
  let ifname := tapname.take 15
  [.up (bytes "lo"), .up ifname, .setMtu ifname (wrapInt cfg.mtu)] ++
    (if cfg.vmacaddressLen > 0 then [.setHwaddr ifname cfg.vmacaddress] else []) ++
    [.setAddr ifname ⟨afInet, 0, cfg.recommendedVguest⟩,
      .setNetmask ifname ⟨afInet, 0, cfg.vnetmask⟩,
      .addRoute tapname cfg.vhost ⟨0, 0, 0, 0⟩ ⟨0, 0, 0, 0⟩]

/-- `%02x` -/
def hexByte (c : UInt8) : Bytes := [hexDigit (c.toNat / 16), hexDigit (c.toNat % 16)]

/-- The first six bytes of a hardware address. -/
def Sockaddr.macText (addr : Sockaddr) : Bytes :=
  List.intercalate [58] (((addr.data ++ List.replicate 6 0).take 6).map hexByte)

/-- The last DHCP address, as `parent` computes it. -/
def Config.vdhcpEnd (cfg : Config) : InAddr := cfg.vdhcpStart.offset 15

/-- What `parent` prints before it goes on. -/
def parentText (env : ConfigEnv) (apiSocket : Option Bytes) (cfg : Config) : List Bytes :=
  [bytes "Starting slirp\n",
    bytes "* MTU:             " ++ intText (wrapInt cfg.mtu) ++ [10],
    bytes "* Network:         " ++ cfg.vnetwork.text ++ [10],
    bytes "* Netmask:         " ++ cfg.vnetmask.text ++ [10],
    bytes "* Gateway:         " ++ cfg.vhost.text ++ [10],
    bytes "* DNS:             " ++ cfg.vnameserver.text ++ [10],
    bytes "* DHCP begin:      " ++ cfg.vdhcpStart.text ++ [10],
    bytes "* DHCP end:        " ++ cfg.vdhcpEnd.text ++ [10],
    bytes "* Recommended IP:  " ++ cfg.recommendedVguest.text ++ [10]] ++
  (match apiSocket with
    | none => []
    | some path => [bytes "* API Socket:      " ++ path ++ [10]]) ++
  (if env.versionMax ≥ 2 ∧ cfg.enableOutboundAddr = true then
    [bytes "* Outbound IPv4:    " ++ cfg.outboundAddr.addr.text ++ [10]] else []) ++
  (if env.versionMax ≥ 2 ∧ cfg.enableOutboundAddr6 = true then
    match env.inetNtop6 cfg.outboundAddr6.addr with
    | none => []
    | some text => [bytes "* Outbound IPv6:    " ++ text ++ [10]]
    else []) ++
  (if cfg.vmacaddressLen > 0 then
    [bytes "* MAC address:     " ++ cfg.vmacaddress.macText ++ [10]] else []) ++
  (if cfg.disableHostLoopback = false then
    [bytes "WARNING: 127.0.0.1:* on the host is accessible as " ++ cfg.vhost.text ++
      bytes " (set --disable-host-loopback to prohibit connecting to 127.0.0.1:*)\n"] else [])

/-- The fields that `do_slirp` and the API read. -/
def Config.doSlirpConfig (cfg : Config) : Slirp4netnsConfig :=
  ⟨cfg.recommendedVguest, cfg.enableSandbox, cfg.enableSeccomp⟩

/-- Everything that is read of two configurations is the same. -/
structure Agree (env : ConfigEnv) (cfg cfg' : Config) : Prop where
  slirp : slirpConfig env cfg = slirpConfig env cfg'
  network : ∀ tapname, networkRequests tapname cfg = networkRequests tapname cfg'
  parent : ∀ apiSocket, parentText env apiSocket cfg = parentText env apiSocket cfg'
  doSlirp : cfg.doSlirpConfig = cfg'.doSlirpConfig

/-! ## When the options are taken -/

/-- The address for `--outbound-addr`: as it is written, or that of an interface. -/
def outboundAddr? (env : ConfigEnv) (text : Bytes) : Option InAddr :=
  (inetPton text).or (getInterfaceAddr env (some text) IfAddr.inet?).toOption

/-- The address for `--outbound-addr6`, where the interface is that of `--outbound-addr`. -/
def outboundAddr6? (env : ConfigEnv) (opt : Options) (text : Bytes) : Option In6Addr :=
  (env.inetPton6 text).or (getInterfaceAddr env opt.outboundAddr IfAddr.inet6?).toOption

/-- The options that `slirp4netns_config_from_options` takes, by what is written in them. -/
structure Accepted (env : ConfigEnv) (opt : Options) : Prop where
  cidr : (parseCidr (opt.cidr.getD defaultCidr)).error = none
  outboundAddr : ∀ text, opt.outboundAddr = some text →
    2 ≤ env.versionMax ∧ (outboundAddr? env text).isSome
  outboundAddr6 : ∀ text, opt.outboundAddr6 = some text →
    2 ≤ env.versionMax ∧ (outboundAddr6? env opt text).isSome
  disableDns : opt.disableDns = true → 3 ≤ env.versionMax
  macaddress : ∀ macaddr, opt.macaddress = some macaddr →
    ∃ data, macaddrHexstringToData macaddr = .ok data

/-! ## The steps -/

/-- The fields that follow from the network. -/
def Config.withNetwork (cfg : Config) (network netmask : InAddr) : Config := { cfg with
  vnetwork := network
  vnetmask := netmask
  vhost := network.offset 2
  vdhcpStart := network.offset 15
  vnameserver := network.offset 3
  recommendedVguest := network.offset 100 }

/-- The fields for an IPv4 outbound address. -/
def Config.withOutbound (cfg : Config) : Option InAddr → Config
  | none => cfg
  | some addr => { cfg with enableOutboundAddr := true, outboundAddr := ⟨afInet, 0, addr⟩ }

/-- Three of the five fields are written. -/
def Config.withOutbound6 (cfg : Config) : Option In6Addr → Config
  | none => cfg
  | some addr => { cfg with
      enableOutboundAddr6 := true
      outboundAddr6 := ⟨afInet6, 0, cfg.outboundAddr6.flowinfo, addr, cfg.outboundAddr6.scopeId⟩ }

/-- The field for `--disable-dns`. -/
def Config.withDns (cfg : Config) (env : ConfigEnv) (opt : Options) : Config :=
  if env.versionMax ≥ 3 then { cfg with disableDns := opt.disableDns } else cfg

/-- The fields for a MAC address. -/
def Config.withMac (cfg : Config) : Option (List UInt8) → Config
  | none => { cfg with vmacaddressLen := 0, vmacaddress := ⟨0, saData []⟩ }
  | some data => { cfg with vmacaddressLen := data.length, vmacaddress := ⟨afLocal, saData data⟩ }

section
variable {env : ConfigEnv} {opt : Options} {cfg cfg' : Config}

theorem configFromCidr_ok {cidr : Bytes} : configFromCidr cidr cfg = .ok cfg' ↔
    ∃ network netmask, parseCidr cidr = ⟨none, some network, some netmask⟩ ∧
      cfg.withNetwork network netmask = cfg' := by
  rcases parseCidr_cases cidr with ⟨x, p, h⟩ | ⟨e, he, -⟩
  · simp only [configFromCidr, h.parseCidr]
    constructor
    · intro h
      cases h
      exact ⟨_, _, rfl, rfl⟩
    · rintro ⟨network, netmask, hparsed, rfl⟩
      cases hparsed
      rfl
  · simp only [configFromCidr, he]
    constructor
    · intro h
      cases h
    · rintro ⟨network, netmask, hparsed, -⟩
      rw [hparsed] at he
      cases he

theorem outboundAddrStep_ok : outboundAddrStep env opt cfg = .ok cfg' ↔
    (∀ text, opt.outboundAddr = some text →
      2 ≤ env.versionMax ∧ (outboundAddr? env text).isSome) ∧
    cfg.withOutbound (opt.outboundAddr.bind (outboundAddr? env)) = cfg' := by
  cases htext : opt.outboundAddr with
  | none => simp [outboundAddrStep, htext, Config.withOutbound]
  | some text =>
    by_cases hv : 2 ≤ env.versionMax
    · cases hpton : inetPton text with
      | some addr =>
        simp [outboundAddrStep, htext, hv, hpton, outboundAddr?, Config.withOutbound]
      | none =>
        cases hif : getInterfaceAddr env (some text) IfAddr.inet? with
        | error e => simp [outboundAddrStep, htext, hv, hpton, hif, outboundAddr?, Except.toOption]
        | ok addr =>
          simp [outboundAddrStep, htext, hv, hpton, hif, outboundAddr?, Except.toOption,
            Config.withOutbound]
    · simp [outboundAddrStep, htext, hv]

theorem outboundAddr6Step_ok : outboundAddr6Step env opt cfg = .ok cfg' ↔
    (∀ text, opt.outboundAddr6 = some text →
      2 ≤ env.versionMax ∧ (outboundAddr6? env opt text).isSome) ∧
    cfg.withOutbound6 (opt.outboundAddr6.bind (outboundAddr6? env opt)) = cfg' := by
  cases htext : opt.outboundAddr6 with
  | none => simp [outboundAddr6Step, htext, Config.withOutbound6]
  | some text =>
    by_cases hv : 2 ≤ env.versionMax
    · cases hpton : env.inetPton6 text with
      | some addr =>
        simp [outboundAddr6Step, htext, hv, hpton, outboundAddr6?, Config.withOutbound6]
      | none =>
        cases hif : getInterfaceAddr env opt.outboundAddr IfAddr.inet6? with
        | error e =>
          simp [outboundAddr6Step, htext, hv, hpton, hif, outboundAddr6?, Except.toOption]
        | ok addr =>
          simp [outboundAddr6Step, htext, hv, hpton, hif, outboundAddr6?, Except.toOption,
            Config.withOutbound6]
    · simp [outboundAddr6Step, htext, hv]

theorem disableDnsStep_ok : disableDnsStep env opt cfg = .ok cfg' ↔
    (opt.disableDns = true → 3 ≤ env.versionMax) ∧
    cfg.withDns env opt = cfg' := by
  by_cases hv : 3 ≤ env.versionMax
  · simp [disableDnsStep, Config.withDns, hv]
  · cases hdns : opt.disableDns <;> simp [disableDnsStep, Config.withDns, hv, hdns]

/-- The bytes of the given MAC address. -/
def macaddr? (opt : Options) : Option (List UInt8) :=
  opt.macaddress.bind fun macaddr => (macaddrHexstringToData macaddr).toOption

theorem macaddressStep_ok : macaddressStep opt cfg = .ok cfg' ↔
    (∀ macaddr, opt.macaddress = some macaddr → ∃ data, macaddrHexstringToData macaddr = .ok data) ∧
    cfg.withMac (macaddr? opt) = cfg' := by
  cases hmac : opt.macaddress with
  | none => simp [macaddressStep, macaddr?, hmac, Config.withMac]
  | some macaddr =>
    cases hdata : macaddrHexstringToData macaddr with
    | error e => simp [macaddressStep, macaddr?, hmac, hdata]
    | ok data =>
      simp [macaddressStep, macaddr?, hmac, hdata, Config.withMac, Except.toOption]

/-- The configuration of options that are taken. -/
def filled (env : ConfigEnv) (opt : Options) (network netmask : InAddr) (cfg : Config) : Config :=
  let cfg := ({ cfg with mtu := opt.mtu }.withNetwork network netmask).withFlags opt
  let cfg := cfg.withOutbound (opt.outboundAddr.bind (outboundAddr? env))
  let cfg := cfg.withOutbound6 (opt.outboundAddr6.bind (outboundAddr6? env opt))
  (cfg.withDns env opt).withMac (macaddr? opt)

/-- Its fields; four of them may be left as they are. -/
theorem filled_eq (network netmask : InAddr) : filled env opt network netmask cfg =
    let addr := opt.outboundAddr.bind (outboundAddr? env)
    let addr6 := opt.outboundAddr6.bind (outboundAddr6? env opt)
    { mtu := opt.mtu
      vnetwork := network
      vnetmask := netmask
      vhost := network.offset 2
      vdhcpStart := network.offset 15
      vnameserver := network.offset 3
      recommendedVguest := network.offset 100
      enableIpv6 := opt.enableIpv6
      disableHostLoopback := opt.disableHostLoopback
      enableSandbox := opt.enableSandbox
      enableSeccomp := opt.enableSeccomp
      enableOutboundAddr := addr.isSome
      outboundAddr := addr.elim cfg.outboundAddr fun x => ⟨afInet, 0, x⟩
      enableOutboundAddr6 := addr6.isSome
      outboundAddr6 := addr6.elim cfg.outboundAddr6 fun x =>
        ⟨afInet6, 0, cfg.outboundAddr6.flowinfo, x, cfg.outboundAddr6.scopeId⟩
      disableDns := if env.versionMax ≥ 3 then opt.disableDns else cfg.disableDns
      vmacaddress := (macaddr? opt).elim ⟨0, saData []⟩ fun data => ⟨afLocal, saData data⟩
      vmacaddressLen := ((macaddr? opt).getD []).length } := by
  unfold filled Config.withDns
  cases opt.outboundAddr.bind (outboundAddr? env) <;>
    cases opt.outboundAddr6.bind (outboundAddr6? env opt) <;> cases macaddr? opt <;>
    by_cases hv : env.versionMax ≥ 3 <;> simp only [hv, if_true, if_false] <;> rfl

theorem configFromOptions_ok : configFromOptions env opt cfg = .ok cfg' ↔
    Accepted env opt ∧ ∃ network netmask,
      parseCidr (opt.cidr.getD defaultCidr) = ⟨none, some network, some netmask⟩ ∧
      filled env opt network netmask cfg = cfg' := by
  simp only [configFromOptions, Except.bind_eq_ok, configFromCidr_ok, outboundAddrStep_ok,
    outboundAddr6Step_ok, disableDnsStep_ok, macaddressStep_ok]
  constructor
  · rintro ⟨_, ⟨network, netmask, hcidr, rfl⟩, _, ⟨haddr, rfl⟩, _, ⟨haddr6, rfl⟩, _, ⟨hdns, rfl⟩,
      hmac, rfl⟩
    exact ⟨⟨by rw [hcidr], haddr, haddr6, hdns, hmac⟩, network, netmask, hcidr, rfl⟩
  · rintro ⟨haccepted, network, netmask, hcidr, rfl⟩
    exact ⟨_, ⟨network, netmask, hcidr, rfl⟩, _, ⟨haccepted.outboundAddr, rfl⟩, _,
      ⟨haccepted.outboundAddr6, rfl⟩, _, ⟨haccepted.disableDns, rfl⟩, haccepted.macaddress, rfl⟩

theorem Accepted.exists_network (h : Accepted env opt) : ∃ network netmask,
    parseCidr (opt.cidr.getD defaultCidr) = ⟨none, some network, some netmask⟩ := by
  rcases parseCidr_cases (opt.cidr.getD defaultCidr) with ⟨x, p, htext⟩ | ⟨e, he, -⟩
  · exact ⟨_, _, htext.parseCidr⟩
  · rw [h.cidr] at he
    cases he

theorem Accepted.exists_config (h : Accepted env opt) (cfg : Config) :
    ∃ cfg', configFromOptions env opt cfg = .ok cfg' := by
  obtain ⟨network, netmask, hcidr⟩ := h.exists_network
  exact ⟨_, configFromOptions_ok.2 ⟨h, network, netmask, hcidr, rfl⟩⟩

theorem configFromOptions_sandbox (h : configFromOptions env opt cfg = .ok cfg') :
    cfg'.enableSandbox = opt.enableSandbox := by
  obtain ⟨-, network, netmask, -, rfl⟩ := configFromOptions_ok.1 h
  rw [filled_eq]

/-- An address that is taken has at least one byte. -/
theorem macaddrHexstringToData_length {macaddr : Bytes} {data : List UInt8}
    (h : macaddrHexstringToData macaddr = .ok data) : 0 < data.length := by
  rw [macaddrHexstringToData, macaddrLoop] at h
  split at h
  · cases h
  · split at h
    · cases h
    · split at h
      · cases h
        exact Nat.one_pos
      · obtain ⟨rest, -, h⟩ := Except.bind_eq_ok.1 h
        cases h
        exact Nat.succ_pos _

/-- The hardware address of a configuration with `--macaddress`. -/
theorem mem_networkRequests {macaddr tapname : Bytes} (h : configFromOptions env opt cfg = .ok cfg')
    (hmac : opt.macaddress = some macaddr) : ∃ data, macaddrHexstringToData macaddr = .ok data ∧
      .setHwaddr (tapname.take 15) ⟨afLocal, saData data⟩ ∈ networkRequests tapname cfg' := by
  obtain ⟨haccepted, network, netmask, -, rfl⟩ := configFromOptions_ok.1 h
  obtain ⟨data, hdata⟩ := haccepted.macaddress macaddr hmac
  refine ⟨data, hdata, ?_⟩
  have hmacaddr : macaddr? opt = some data := by
    rw [macaddr?, hmac, Option.bind_some, hdata]
    rfl
  rw [filled, hmacaddr, networkRequests, Config.withMac,
    if_pos (macaddrHexstringToData_length hdata)]
  simp

/-! ## Influence of the initial contents -/

/-- Without an IPv6 outbound address nothing is left of the initial contents. -/
theorem agree_filled (network netmask : InAddr) (h : opt.outboundAddr6 = none) (cfg cfg' : Config) :
    Agree env (filled env opt network netmask cfg) (filled env opt network netmask cfg') := by
  rw [filled_eq, filled_eq, h]
  constructor
  case slirp =>
    -- the address of `--outbound-addr` and the flag for DNS are read only if they were written
    by_cases hv : env.versionMax ≥ 3 <;>
      cases opt.outboundAddr.bind (outboundAddr? env) <;> simp [slirpConfig, hv]
  case network =>
    intro tapname
    rfl
  case parent =>
    intro apiSocket
    cases opt.outboundAddr.bind (outboundAddr? env) <;> simp [parentText, Config.vdhcpEnd]
  case doSlirp => rfl

/-- The return value. -/
def configRc : Except Bytes Config → ℤ
  | .ok _ => 0
  | .error _ => -1

theorem configFromOptions_error (h : ¬ Accepted env opt) (cfg : Config) :
    ∃ printed, configFromOptions env opt cfg = .error printed := by
  cases hr : configFromOptions env opt cfg with
  | error printed => exact ⟨printed, rfl⟩
  | ok cfg' => exact absurd (configFromOptions_ok.1 hr).1 h

/-- Contents of the structure that are zero, except for one field. -/
def Config.stack (flowinfo : ℕ) : Config :=
  let zero : InAddr := ⟨0, 0, 0, 0⟩
  ⟨0, zero, zero, zero, zero, zero, zero, false, false, false, false, false, ⟨0, 0, zero⟩, false,
    ⟨0, 0, flowinfo, ⟨Vector.replicate 16 0⟩, 0⟩, false, ⟨0, []⟩, 0⟩

/-- What was found in `sin6_flowinfo` is handed to libslirp. -/
theorem slirpConfig_flowinfo {text : Bytes} (h : Accepted env opt)
    (htext : opt.outboundAddr6 = some text) (network netmask : InAddr) (cfg : Config) :
    ∃ addr6, (slirpConfig env (filled env opt network netmask cfg)).outboundAddr6 = some addr6 ∧
      addr6.flowinfo = cfg.outboundAddr6.flowinfo := by
  obtain ⟨hv, hsome⟩ := h.outboundAddr6 text htext
  obtain ⟨addr, haddr⟩ := Option.isSome_iff_exists.1 hsome
  have hbind : opt.outboundAddr6.bind (outboundAddr6? env opt) = some addr := by
    rw [htext, Option.bind_some, haddr]
  rw [filled_eq, hbind]
  exact ⟨_, if_pos (by simp [hv]), rfl⟩

end

/-- The same result from any two initial contents, and the same in all that is read later. -/
def Determined (env : ConfigEnv) (opt : Options) : Prop :=
  ∀ cfg cfg', configRc (configFromOptions env opt cfg) = configRc (configFromOptions env opt cfg') ∧
    ∀ a b, configFromOptions env opt cfg = .ok a → configFromOptions env opt cfg' = .ok b →
      Agree env a b

/-- **Influence of what is on the stack**: there is none exactly if no IPv6 outbound address is
    given or the options are not taken. -/
theorem configFromOptions_determined (env : ConfigEnv) (opt : Options) :
    Determined env opt ↔ opt.outboundAddr6 = none ∨ ¬ Accepted env opt := by
  by_cases haccepted : Accepted env opt
  · obtain ⟨network, netmask, hcidr⟩ := haccepted.exists_network
    have hok : ∀ cfg, configFromOptions env opt cfg = .ok (filled env opt network netmask cfg) :=
      fun cfg => configFromOptions_ok.2 ⟨haccepted, network, netmask, hcidr, rfl⟩
    constructor
    · intro hdet
      left
      by_contra hsome
      obtain ⟨text, htext⟩ := Option.ne_none_iff_exists'.1 hsome
      have hagree := (hdet (.stack 0) (.stack 1)).2 _ _ (hok _) (hok _)
      obtain ⟨x, hx, hflow⟩ := slirpConfig_flowinfo haccepted htext network netmask (.stack 0)
      obtain ⟨y, hy, hflow'⟩ := slirpConfig_flowinfo haccepted htext network netmask (.stack 1)
      rw [hagree.slirp, hy] at hx
      cases hx
      rw [hflow] at hflow'
      cases hflow'
    · rintro (hnone | hrefused) cfg cfg'
      · rw [hok, hok]
        refine ⟨rfl, ?_⟩
        intro a b ha hb
        cases ha
        cases hb
        exact agree_filled network netmask hnone cfg cfg'
      · exact absurd haccepted hrefused
  · refine ⟨fun _ => .inr haccepted, fun _ cfg cfg' => ?_⟩
    obtain ⟨printed, he⟩ := configFromOptions_error haccepted cfg
    obtain ⟨printed', he'⟩ := configFromOptions_error haccepted cfg'
    rw [he, he']
    refine ⟨rfl, ?_⟩
    intro a b ha
    cases ha

/-- `--outbound-addr6=fd00::1 42 tap0`: two initial contents give two addresses. -/
theorem outboundAddr6_from_stack :
    let addr : In6Addr := ⟨#v[0xfd, 0, 0, 0, 0, 0, 0, 0, 0, 0, 0, 0, 0, 0, 0, 1]⟩
    let env : ConfigEnv := ⟨6, fun _ => some addr, fun _ => none, some []⟩
    ∃ opt a b, parseArgs (fun _ => true)
        ⟨[.outboundAddr6 (bytes "fd00::1")], [bytes "42", bytes "tap0"]⟩ = .ok opt ∧
      configFromOptions env opt (.stack 0) = .ok a ∧ configFromOptions env opt (.stack 7) = .ok b ∧
      (slirpConfig env a).outboundAddr6 = some ⟨afInet6, 0, 0, addr, 0⟩ ∧
      (slirpConfig env b).outboundAddr6 = some ⟨afInet6, 0, 7, addr, 0⟩ := by
  refine ⟨_, _, _, rfl, rfl, rfl, rfl, rfl⟩

end Slirp4netns
