/-
  slirp4netns formalization — the addresses of a configuration.

  The gateway, the name server, the DHCP range and the recommended guest address
  are offsets from the network address, added in host byte order.  Since the
  prefix is at most 25 bits and the bits behind it are zero, offsets below 127
  neither wrap around nor reach the broadcast address
  (`configFromCidr_addresses`).

  An outbound address is written out or is the first address of an interface.
  The interface for the IPv6 address is looked up by the name given for the IPv4
  address; `outbound_addresses` says for which options this makes no difference.
-/
import Slirp4netns.Config

namespace Slirp4netns

/-! ## Offsets in a network -/

theorem InAddr.number_injective : Function.Injective InAddr.number := by
  intro x y h
  apply InAddr.ntohl_injective
  rw [← BitVec.toNat_inj, x.toNat_ntohl, y.toNat_ntohl, h]

theorem InAddr.number_lt (x : InAddr) : x.number < 2 ^ 32 := by
  rw [← x.toNat_ntohl]
  exact x.ntohl.isLt

theorem number_htonl (n : BitVec 32) : (htonl n).number = n.toNat := by
  rw [← InAddr.toNat_ntohl, ntohl_htonl]

theorem InAddr.number_and_prefixMask {n : ℕ} (hn : 1 ≤ n) (x : InAddr) :
    (x.and (prefixMask n)).number = x.number / 2 ^ (32 - n) * 2 ^ (32 - n) := by
  rw [← InAddr.toNat_ntohl, InAddr.ntohl_and, prefixMask, ntohl_htonl,
    toNat_and_maskFrom (by omega), x.toNat_ntohl]

/-- `x.s_addr | ~netmask.s_addr` -/
def InAddr.broadcast (x netmask : InAddr) : InAddr := htonl (x.ntohl ||| ~~~netmask.ntohl)

/-- The addresses from the first to the last one. -/
def InAddr.upTo (first last : InAddr) : List InAddr :=
  (List.range (last.number + 1 - first.number)).map first.offset

section
variable {x : InAddr} {n k : ℕ}

/-- Where the low bits are zero there is room for an offset that fits into them. -/
theorem number_offset (hn : 1 ≤ n) (hx : x.number % 2 ^ (32 - n) = 0) (hk : k < 2 ^ (32 - n)) :
    (x.offset k).number = x.number + k := by
  have hdvd : 2 ^ (32 - n) ∣ 2 ^ 32 := Nat.pow_dvd_pow 2 (by omega)
  have hroom : x.number + 2 ^ (32 - n) ≤ 2 ^ 32 := by
    obtain ⟨q, hq⟩ := Nat.dvd_of_mod_eq_zero hx
    obtain ⟨r, hr⟩ := hdvd
    have hlt : q < r := by
      apply Nat.lt_of_mul_lt_mul_left (a := 2 ^ (32 - n))
      rw [← hq, ← hr]
      exact x.number_lt
    calc x.number + 2 ^ (32 - n) = 2 ^ (32 - n) * (q + 1) := by rw [hq, Nat.mul_succ]
      _ ≤ 2 ^ (32 - n) * r := Nat.mul_le_mul_left _ hlt
      _ = 2 ^ 32 := hr.symm
  rw [InAddr.offset, number_htonl, BitVec.toNat_add, x.toNat_ntohl, BitVec.toNat_ofNat,
    Nat.add_mod_mod, Nat.mod_eq_of_lt (by omega)]

theorem and_offset (hn : 1 ≤ n) (hx : x.number % 2 ^ (32 - n) = 0) (hk : k < 2 ^ (32 - n)) :
    (x.offset k).and (prefixMask n) = x := by
  obtain ⟨q, hq⟩ := Nat.dvd_of_mod_eq_zero hx
  apply InAddr.number_injective
  rw [InAddr.number_and_prefixMask hn, number_offset hn hx hk, hq,
    Nat.mul_add_div (Nat.two_pow_pos _), Nat.div_eq_of_lt hk, Nat.add_zero, Nat.mul_comm]

theorem number_broadcast (hn : 1 ≤ n) (hx : x.number % 2 ^ (32 - n) = 0) :
    (x.broadcast (prefixMask n)).number = x.number + (2 ^ (32 - n) - 1) := by
  obtain ⟨q, hq⟩ := Nat.dvd_of_mod_eq_zero hx
  have hlt : 2 ^ (32 - n) - 1 < 2 ^ (32 - n) := Nat.sub_one_lt (Nat.two_pow_pos _).ne'
  rw [InAddr.broadcast, number_htonl, BitVec.toNat_or, x.toNat_ntohl, prefixMask, ntohl_htonl,
    toNat_not_maskFrom (by omega), hq, Nat.two_pow_add_eq_or_of_lt hlt]

end

/-! ## The addresses -/

/-- The gateway, the name server, the recommended guest and the DHCP addresses. -/
def Config.addresses (cfg : Config) : List InAddr :=
  cfg.vhost :: cfg.vnameserver :: cfg.recommendedVguest :: cfg.vdhcpStart.upTo cfg.vdhcpEnd

/-- The offsets of these addresses from the network. -/
def addressOffsets : List ℕ := 2 :: 3 :: 100 :: List.range' 15 16

theorem mem_addressOffsets {k : ℕ} (h : k ∈ addressOffsets) : 0 < k ∧ k < 127 := by
  simp only [addressOffsets, List.mem_cons, List.mem_range'_1] at h
  omega

theorem InAddr.offset_offset (x : InAddr) (j k : ℕ) : (x.offset j).offset k = x.offset (j + k) := by
  rw [InAddr.offset, InAddr.offset, ntohl_htonl, InAddr.offset, BitVec.ofNat_add, BitVec.add_assoc]

section
variable {x : InAddr} {n : ℕ}

theorem number_offset_of_mem (hn : 1 ≤ n) (hle : n ≤ 25) (hx : x.number % 2 ^ (32 - n) = 0)
    {k : ℕ} (hk : k < 127) : (x.offset k).number = x.number + k ∧ k < 2 ^ (32 - n) - 1 := by
  have hroom : 2 ^ 7 ≤ 2 ^ (32 - n) := Nat.pow_le_pow_right (by decide) (by omega)
  exact ⟨number_offset hn hx (by omega), by omega⟩

theorem upTo_dhcp (hn : 1 ≤ n) (hle : n ≤ 25) (hx : x.number % 2 ^ (32 - n) = 0) :
    (x.offset 15).upTo ((x.offset 15).offset 15) = (List.range' 15 16).map x.offset := by
  have hfirst := (number_offset_of_mem hn hle hx (show 15 < 127 by decide)).1
  have hlast := (number_offset_of_mem hn hle hx (show 30 < 127 by decide)).1
  have hlength : x.number + 30 + 1 - (x.number + 15) = 16 := by omega
  rw [InAddr.upTo, InAddr.offset_offset, hfirst, hlast, hlength, List.range'_eq_map_range,
    List.map_map]
  exact List.map_congr_left fun k _ => x.offset_offset 15 k

theorem addresses_withNetwork (cfg : Config) (hn : 1 ≤ n) (hle : n ≤ 25)
    (hx : x.number % 2 ^ (32 - n) = 0) :
    (cfg.withNetwork x (prefixMask n)).addresses = addressOffsets.map x.offset := by
  have hdhcp := upTo_dhcp hn hle hx
  simp only [Config.addresses, Config.withNetwork, Config.vdhcpEnd, addressOffsets, List.map_cons,
    hdhcp]

end

/-- The network that is stored is that of the text. -/
theorem configFromCidr_text {cidr : Bytes} {cfg cfg' : Config}
    (h : configFromCidr cidr cfg = .ok cfg') : ∃ x p, CidrText cidr x p ∧
      cfg' = cfg.withNetwork x (prefixMask (readDecimal p)) := by
  obtain ⟨network, netmask, hparsed, rfl⟩ := configFromCidr_ok.1 h
  rcases parseCidr_cases cidr with ⟨x, p, htext⟩ | ⟨e, he, -⟩
  · rw [htext.parseCidr] at hparsed
    cases hparsed
    exact ⟨_, p, htext, rfl⟩
  · rw [hparsed] at he
    cases he

/-- **The addresses of a network that is accepted**: they are the network address plus an offset
    without wrap-around, they lie in the network, none is the network address or the broadcast
    address, and no two of them are the same. -/
theorem configFromCidr_addresses (cidr : Bytes) (cfg cfg' : Config)
    (h : configFromCidr cidr cfg = .ok cfg') :
    cfg'.addresses.map InAddr.number =
      (2 :: 3 :: 100 :: List.range' 15 16).map (cfg'.vnetwork.number + ·) ∧
    (cfg'.vdhcpStart.upTo cfg'.vdhcpEnd).length = 16 ∧
    (∀ addr ∈ cfg'.addresses, addr.and cfg'.vnetmask = cfg'.vnetwork ∧ addr ≠ cfg'.vnetwork ∧
      addr ≠ cfg'.vnetwork.broadcast cfg'.vnetmask) ∧
    cfg'.addresses.Nodup := by
  obtain ⟨x, p, htext, rfl⟩ := configFromCidr_text h
  have hnumber := fun {k : ℕ} => @number_offset_of_mem x _ htext.one_le htext.le htext.host k
  rw [addresses_withNetwork cfg htext.one_le htext.le htext.host]
  have hnumbers : (addressOffsets.map x.offset).map InAddr.number =
      addressOffsets.map (x.number + ·) := by
    rw [List.map_map]
    exact List.map_congr_left fun k hk => (hnumber (mem_addressOffsets hk).2).1
  refine ⟨hnumbers, ?_, ?_, ?_⟩
  · have hdhcp := upTo_dhcp htext.one_le htext.le htext.host
    show ((x.offset 15).upTo ((x.offset 15).offset 15)).length = 16
    rw [hdhcp, List.length_map, List.length_range']
  · intro addr haddr
    obtain ⟨k, hk, rfl⟩ := List.mem_map.1 haddr
    obtain ⟨hpos, hlt⟩ := mem_addressOffsets hk
    obtain ⟨hadd, hroom⟩ := hnumber hlt
    refine ⟨and_offset htext.one_le htext.host (by omega), ?_, ?_⟩
    · intro heq
      have hsame : x.number + k = x.number := by rw [← hadd, heq]; rfl
      omega
    · intro heq
      have hlast := number_broadcast htext.one_le htext.host
      have hsame : x.number + k = x.number + (2 ^ (32 - readDecimal p) - 1) := by
        rw [← hadd, ← hlast, heq]
        rfl
      omega
  · -- different offsets give different numbers
    apply List.Nodup.of_map InAddr.number
    rw [hnumbers]
    have hoffsets : addressOffsets.Nodup := by decide
    exact hoffsets.map fun _ _ => Nat.add_left_cancel

/-- The default network, with the addresses that the manual gives. -/
theorem configFromCidr_addresses_default :
    configFromCidr defaultCidr (.stack 0) =
      .ok ((Config.stack 0).withNetwork ⟨10, 0, 2, 0⟩ ⟨255, 255, 255, 0⟩) ∧
    ((Config.stack 0).withNetwork ⟨10, 0, 2, 0⟩ ⟨255, 255, 255, 0⟩).addresses.Nodup := by
  have h : configFromCidr defaultCidr (.stack 0) =
      .ok ((Config.stack 0).withNetwork ⟨10, 0, 2, 0⟩ ⟨255, 255, 255, 0⟩) := by
    decide +kernel
  exact ⟨h, (configFromCidr_addresses _ _ _ h).2.2.2⟩

/-! ## Outbound addresses -/

/-- The first address of an interface that `pick` takes. -/
def firstAddr (pick : IfAddr → Option α) (table : List Ifaddrs) (name : Bytes) : Option α :=
  (table.filter (·.name = some name)).findSome? fun ifa => ifa.addr.bind pick

/-- The IPv4 address that a text designates. -/
def designatedAddr (table : List Ifaddrs) (text : Bytes) : Option InAddr :=
  (inetPton text).or (firstAddr IfAddr.inet? table text)

/-- The IPv6 address that a text designates. -/
def designatedAddr6 (env : ConfigEnv) (table : List Ifaddrs) (text : Bytes) : Option In6Addr :=
  (env.inetPton6 text).or (firstAddr IfAddr.inet6? table text)

/-- The outbound address of a configuration, if there is one. -/
def Config.outbound (cfg : Config) : Option InAddr :=
  if cfg.enableOutboundAddr then some cfg.outboundAddr.addr else none

/-- The same for IPv6. -/
def Config.outbound6 (cfg : Config) : Option In6Addr :=
  if cfg.enableOutboundAddr6 then some cfg.outboundAddr6.addr else none

/-- `Accepted`, apart from the values of the two options. -/
structure OthersAccepted (env : ConfigEnv) (opt : Options) : Prop where
  cidr : (parseCidr (opt.cidr.getD defaultCidr)).error = none
  version : opt.outboundAddr ≠ none ∨ opt.outboundAddr6 ≠ none → 2 ≤ env.versionMax
  disableDns : opt.disableDns = true → 3 ≤ env.versionMax
  macaddress : ∀ macaddr, opt.macaddress = some macaddr →
    ∃ data, macaddrHexstringToData macaddr = .ok data

/-- What the manual says: each option designates its own address, and the only other reason to
    refuse is that there is no such address. -/
structure OutboundLaw (env : ConfigEnv) (table : List Ifaddrs) (opt : Options) : Prop where
  outbound : ∀ cfg cfg', configFromOptions env opt cfg = .ok cfg' →
    cfg'.outbound = opt.outboundAddr.bind (designatedAddr table)
  outbound6 : ∀ cfg cfg', configFromOptions env opt cfg = .ok cfg' →
    cfg'.outbound6 = opt.outboundAddr6.bind (designatedAddr6 env table)
  refused : ∀ cfg, (∃ printed, configFromOptions env opt cfg = .error printed) ↔
    ¬ OthersAccepted env opt ∨
      (∃ text, opt.outboundAddr = some text ∧ designatedAddr table text = none) ∨
      (∃ text, opt.outboundAddr6 = some text ∧ designatedAddr6 env table text = none)

/-- The name given for the IPv4 address leads to the same IPv6 address as the one given for it,
    unless that one is written out or the options are refused for another reason. -/
def SameInterface (env : ConfigEnv) (table : List Ifaddrs) (opt : Options) : Prop :=
  ∀ text, opt.outboundAddr6 = some text → env.inetPton6 text = none → OthersAccepted env opt →
    (∀ name, opt.outboundAddr = some name → designatedAddr table name ≠ none) →
    opt.outboundAddr.bind (firstAddr IfAddr.inet6? table) = firstAddr IfAddr.inet6? table text

theorem findAddr_eq (pick : IfAddr → Option α) (table : List Ifaddrs) (name : Bytes) :
    findAddr name pick table = firstAddr pick table name := by
  induction table with
  | nil => rfl
  | cons ifa rest ih =>
    have hrest : findAddr name pick rest = (rest.filter (·.name = some name)).findSome?
      fun ifa => ifa.addr.bind pick := ih
    by_cases hname : ifa.name = some name
    · cases haddr : ifa.addr.bind pick <;> simp [findAddr, firstAddr, hname, haddr, hrest]
    · cases haddr : ifa.addr.bind pick <;> simp [findAddr, firstAddr, hname, haddr, hrest]

section
variable {env : ConfigEnv} {table : List Ifaddrs} {opt : Options} {cfg cfg' : Config}

theorem getInterfaceAddr_toOption (htable : env.getifaddrs = some table) (interface : Option Bytes)
    (pick : IfAddr → Option α) :
    (getInterfaceAddr env interface pick).toOption = interface.bind (firstAddr pick table) := by
  cases interface with
  | none => rfl
  | some name =>
    rw [getInterfaceAddr, htable, Option.bind_some, ← findAddr_eq]
    dsimp only
    cases findAddr name pick table <;> rfl

theorem outboundAddr?_eq (htable : env.getifaddrs = some table) (text : Bytes) :
    outboundAddr? env text = designatedAddr table text := by
  rw [outboundAddr?, getInterfaceAddr_toOption htable]
  rfl

theorem outboundAddr6?_eq (htable : env.getifaddrs = some table) (text : Bytes) :
    outboundAddr6? env opt text =
      (env.inetPton6 text).or (opt.outboundAddr.bind (firstAddr IfAddr.inet6? table)) := by
  rw [outboundAddr6?, getInterfaceAddr_toOption htable]

theorem outbound_filled (network netmask : InAddr) :
    (filled env opt network netmask cfg).outbound = opt.outboundAddr.bind (outboundAddr? env) ∧
    (filled env opt network netmask cfg).outbound6 =
      opt.outboundAddr6.bind (outboundAddr6? env opt) := by
  rw [filled_eq]
  constructor
  · cases opt.outboundAddr.bind (outboundAddr? env) <;> rfl
  · cases opt.outboundAddr6.bind (outboundAddr6? env opt) <;> rfl

theorem outbound_of_ok (htable : env.getifaddrs = some table)
    (h : configFromOptions env opt cfg = .ok cfg') :
    cfg'.outbound = opt.outboundAddr.bind (designatedAddr table) := by
  obtain ⟨-, network, netmask, -, rfl⟩ := configFromOptions_ok.1 h
  rw [(outbound_filled network netmask).1, funext (outboundAddr?_eq htable)]

theorem outbound6_of_ok (h : configFromOptions env opt cfg = .ok cfg') :
    cfg'.outbound6 = opt.outboundAddr6.bind (outboundAddr6? env opt) := by
  obtain ⟨-, network, netmask, -, rfl⟩ := configFromOptions_ok.1 h
  exact (outbound_filled network netmask).2

theorem accepted_iff (htable : env.getifaddrs = some table) : Accepted env opt ↔
    OthersAccepted env opt ∧
      (∀ text, opt.outboundAddr = some text → designatedAddr table text ≠ none) ∧
      (∀ text, opt.outboundAddr6 = some text → outboundAddr6? env opt text ≠ none) := by
  simp only [← outboundAddr?_eq htable, ne_eq, ← Option.isSome_iff_ne_none]
  constructor
  · intro h
    refine ⟨⟨h.cidr, ?_, h.disableDns, h.macaddress⟩, ?_, ?_⟩
    · rintro (haddr | haddr6)
      · obtain ⟨text, htext⟩ := Option.ne_none_iff_exists'.1 haddr
        exact (h.outboundAddr text htext).1
      · obtain ⟨text, htext⟩ := Option.ne_none_iff_exists'.1 haddr6
        exact (h.outboundAddr6 text htext).1
    · exact fun text htext => (h.outboundAddr text htext).2
    · exact fun text htext => (h.outboundAddr6 text htext).2
  · rintro ⟨hothers, haddr, haddr6⟩
    refine ⟨hothers.cidr, ?_, ?_, hothers.disableDns, hothers.macaddress⟩
    · exact fun text htext => ⟨hothers.version (.inl (by simp [htext])), haddr text htext⟩
    · exact fun text htext => ⟨hothers.version (.inr (by simp [htext])), haddr6 text htext⟩

theorem refused_iff : (∃ printed, configFromOptions env opt cfg = .error printed) ↔
    ¬ Accepted env opt := by
  constructor
  · rintro ⟨printed, herror⟩ haccepted
    obtain ⟨cfg', hok⟩ := haccepted.exists_config cfg
    rw [herror] at hok
    cases hok
  · exact fun h => configFromOptions_error h cfg

/-- Where the condition says something, it is that the code looks up the designated address. -/
theorem SameInterface.outboundAddr6?_eq (h : SameInterface env table opt)
    (htable : env.getifaddrs = some table) (hothers : OthersAccepted env opt)
    (haddr : ∀ name, opt.outboundAddr = some name → designatedAddr table name ≠ none)
    {text : Bytes} (htext : opt.outboundAddr6 = some text) :
    outboundAddr6? env opt text = designatedAddr6 env table text := by
  rw [Slirp4netns.outboundAddr6?_eq htable, designatedAddr6]
  cases hpton : env.inetPton6 text with
  | some addr => rfl
  | none => rw [h text htext hpton hothers haddr]

theorem SameInterface.outbound6_of_ok (h : SameInterface env table opt)
    (htable : env.getifaddrs = some table) (hok : configFromOptions env opt cfg = .ok cfg') :
    cfg'.outbound6 = opt.outboundAddr6.bind (designatedAddr6 env table) := by
  obtain ⟨hothers, haddr, -⟩ := (accepted_iff htable).1 (configFromOptions_ok.1 hok).1
  rw [Slirp4netns.outbound6_of_ok hok]
  exact Option.bind_congr fun text htext => h.outboundAddr6?_eq htable hothers haddr htext

theorem SameInterface.law (h : SameInterface env table opt)
    (htable : env.getifaddrs = some table) : OutboundLaw env table opt := by
  refine ⟨fun _ _ => outbound_of_ok htable, fun _ _ => h.outbound6_of_ok htable, fun cfg => ?_⟩
  rw [refused_iff, accepted_iff htable]
  constructor
  · intro hrefused
    by_contra hcon
    simp only [not_or, not_not, not_exists, not_and] at hcon
    obtain ⟨hothers, haddr, haddr6⟩ := hcon
    refine hrefused ⟨hothers, haddr, fun text htext => ?_⟩
    rw [h.outboundAddr6?_eq htable hothers haddr htext]
    exact haddr6 text htext
  · rintro (hothers | ⟨text, htext, hnone⟩ | ⟨text, htext, hnone⟩) ⟨hothers', haddr, haddr6⟩
    · exact hothers hothers'
    · exact haddr text htext hnone
    · apply haddr6 text htext
      rw [h.outboundAddr6?_eq htable hothers' haddr htext, hnone]

theorem OutboundLaw.sameInterface (h : OutboundLaw env table opt)
    (htable : env.getifaddrs = some table) : SameInterface env table opt := by
  intro text htext hpton hothers haddr
  have hcode : outboundAddr6? env opt text =
      opt.outboundAddr.bind (firstAddr IfAddr.inet6? table) := by
    rw [outboundAddr6?_eq htable, hpton, Option.none_or]
  have hmanual : designatedAddr6 env table text = firstAddr IfAddr.inet6? table text := by
    rw [designatedAddr6, hpton, Option.none_or]
  rw [← hcode, ← hmanual]
  by_cases haccepted : Accepted env opt
  · obtain ⟨cfg', hok⟩ := haccepted.exists_config (.stack 0)
    have hlaw := h.outbound6 _ _ hok
    rw [outbound6_of_ok hok, htext] at hlaw
    exact hlaw
  · -- the options are refused, so neither the code nor the manual has an address
    have hnone : outboundAddr6? env opt text = none := by
      by_contra hsome
      refine haccepted ((accepted_iff htable).2 ⟨hothers, haddr, fun text' htext' => ?_⟩)
      rw [htext] at htext'
      cases htext'
      exact hsome
    rcases (h.refused (.stack 0)).1 (refused_iff.2 haccepted) with
      hrest | ⟨name, hname, hdesignated⟩ | ⟨text', htext', hdesignated⟩
    · exact absurd hothers hrest
    · exact absurd hdesignated (haddr name hname)
    · rw [htext] at htext'
      cases htext'
      rw [hnone, hdesignated]

end

/-- **The outbound addresses**: each is the one that its option designates, and the options are
    refused for lack of such an address only, exactly if the interface for the IPv6 address may be
    looked up by the name for the IPv4 address.  The IPv4 address is always the one that is
    designated, and never depends on the other option; the IPv6 address does not for such
    options. -/
theorem outbound_addresses (env : ConfigEnv) (table : List Ifaddrs)
    (htable : env.getifaddrs = some table) :
    (∀ opt, OutboundLaw env table opt ↔ SameInterface env table opt) ∧
    (∀ opt cfg result, configFromOptions env opt cfg = .ok result →
      result.outbound = opt.outboundAddr.bind (designatedAddr table)) ∧
    (∀ opt opt' cfg cfg' result result', configFromOptions env opt cfg = .ok result →
      configFromOptions env opt' cfg' = .ok result' → opt.outboundAddr = opt'.outboundAddr →
      result.outbound = result'.outbound) ∧
    (∀ opt opt' cfg cfg' result result', configFromOptions env opt cfg = .ok result →
      configFromOptions env opt' cfg' = .ok result' → opt.outboundAddr6 = opt'.outboundAddr6 →
      SameInterface env table opt → SameInterface env table opt' →
      result.outbound6 = result'.outbound6) := by
  refine ⟨fun opt => ⟨fun h => h.sameInterface htable, fun h => h.law htable⟩,
    fun _ _ _ => outbound_of_ok htable, ?_, ?_⟩
  · intro opt opt' cfg cfg' result result' hok hok' hsame
    rw [outbound_of_ok htable hok, outbound_of_ok htable hok', hsame]
  · intro opt opt' cfg cfg' result result' hok hok' hsame hopt hopt'
    rw [hopt.outbound6_of_ok htable hok, hopt'.outbound6_of_ok htable hok', hsame]

/-- `fd00::n` -/
def localAddr6 (n : UInt8) : In6Addr := ⟨#v[0xfd, 0, 0, 0, 0, 0, 0, 0, 0, 0, 0, 0, 0, 0, 0, n]⟩

/-- Two interfaces, each with an address of both families, and an entry without an address. -/
def twoInterfaces : List Ifaddrs :=
  [⟨some (bytes "eth0"), none⟩,
    ⟨some (bytes "eth0"), some (.inet ⟨192, 0, 2, 1⟩)⟩,
    ⟨some (bytes "eth0"), some (.inet6 (localAddr6 1))⟩,
    ⟨some (bytes "eth1"), some (.inet ⟨192, 0, 2, 2⟩)⟩,
    ⟨some (bytes "eth1"), some (.inet6 (localAddr6 2))⟩]

/-- With `--outbound-addr=eth1 --outbound-addr6=eth1` both addresses are those of `eth1`. -/
theorem outbound_addresses_eth1 : OutboundLaw ⟨6, fun _ => none, fun _ => none, some twoInterfaces⟩
    twoInterfaces { Options.init with
      outboundAddr := some (bytes "eth1"), outboundAddr6 := some (bytes "eth1") } := by
  refine ((outbound_addresses _ _ rfl).1 _).2 ?_
  intro text htext _ _ _
  cases htext
  rfl

/-- `--outbound-addr6=eth1` alone is refused, and with `--outbound-addr=eth0` the address is that
    of `eth0`. -/
theorem outbound6_by_other_name :
    let env : ConfigEnv := ⟨6, fun _ => none, fun _ => none, some twoInterfaces⟩
    designatedAddr6 env twoInterfaces (bytes "eth1") = some (localAddr6 2) ∧
    (∃ opt printed, parseArgs (fun _ => true)
        ⟨[.outboundAddr6 (bytes "eth1")], [bytes "42", bytes "tap0"]⟩ = .ok opt ∧
      configFromOptions env opt (.stack 0) = .error printed) ∧
    ∃ opt cfg, parseArgs (fun _ => true)
        ⟨[.outboundAddr (bytes "eth0"), .outboundAddr6 (bytes "eth1")],
          [bytes "42", bytes "tap0"]⟩ = .ok opt ∧
      configFromOptions env opt (.stack 0) = .ok cfg ∧ cfg.outbound6 = some (localAddr6 1) := by
  refine ⟨rfl, ⟨_, _, rfl, rfl⟩, _, _, rfl, rfl, rfl⟩

end Slirp4netns
