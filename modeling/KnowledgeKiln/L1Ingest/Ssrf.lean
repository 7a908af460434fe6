import KnowledgeKiln.Core.Format
import KnowledgeKiln.Core.Py

/-!
# The SSRF guard (ingestion/ssrf.py)

A host must be on the allowlist of its source, and every address it resolves to
must be public. The properties of an address are those of Python's `ipaddress`;
what they say about an IPv4-mapped IPv6 address depends on the patch version, so
that is a parameter.

* `allowlisted_of_ok`: what an accepted host and scheme are like.
* `passes_of_shared`: the shared address space 100.64.0.0/10 is not global, and passes.
* `address_guard_iff`: the guard lets only global addresses pass, unless all
  addresses pass and one of them is shared.
-/
namespace KnowledgeKiln.L1.Ssrf

open KnowledgeKiln.Core

/-! ## Addresses -/

inductive IpAddress
  | v4 (ip : BitVec 32)
  | v6 (ip : BitVec 128)
  deriving DecidableEq, Repr

structure IpNetwork (w : Nat) where
  address : Nat
  prefixLen : Nat

/-- `ip in net` -/
def IpNetwork.contains {w : Nat} (net : IpNetwork w) (ip : BitVec w) : Bool :=
  ip.toNat / 2 ^ (w - net.prefixLen) == net.address / 2 ^ (w - net.prefixLen)

/-- `IPv4Network("a.b.c.d/n")` -/
def net4 (a b c d n : Nat) : IpNetwork 32 := ⟨((a * 256 + b) * 256 + c) * 256 + d, n⟩

/-- `IPv6Network("…::/n")`, by the first hextets of its address. -/
def net6 (hextets : List Nat) (n : Nat) : IpNetwork 128 :=
  ⟨(hextets ++ List.replicate (8 - hextets.length) 0).foldl (fun acc h => acc * 65536 + h) 0, n⟩

/-- `IPv6Address.ipv4_mapped` -/
def ipv4Mapped (ip : BitVec 128) : Option (BitVec 32) :=
  if ip.toNat / 2 ^ 32 = 0xFFFF then some (BitVec.ofNat 32 ip.toNat) else none

/-! ### IPv4 -/

/-- `_IPv4Constants._private_networks` -/
def privateNetworks4 : List (IpNetwork 32) :=
  [net4 0 0 0 0 8, net4 10 0 0 0 8, net4 127 0 0 0 8, net4 169 254 0 0 16, net4 172 16 0 0 12,
    net4 192 0 0 0 24, net4 192 0 0 170 31, net4 192 0 2 0 24, net4 192 168 0 0 16,
    net4 198 18 0 0 15, net4 198 51 100 0 24, net4 203 0 113 0 24, net4 240 0 0 0 4,
    net4 255 255 255 255 32]

def privateExceptions4 : List (IpNetwork 32) := [net4 192 0 0 9 32, net4 192 0 0 10 32]

def isPrivate4 (ip : BitVec 32) : Bool :=
  privateNetworks4.any (·.contains ip) && !privateExceptions4.any (·.contains ip)

/-- `_public_network`, the shared address space. -/
def isShared4 (ip : BitVec 32) : Bool := (net4 100 64 0 0 10).contains ip

def isGlobal4 (ip : BitVec 32) : Bool := !isShared4 ip && !isPrivate4 ip

def isLoopback4 (ip : BitVec 32) : Bool := (net4 127 0 0 0 8).contains ip

def isLinkLocal4 (ip : BitVec 32) : Bool := (net4 169 254 0 0 16).contains ip

def isMulticast4 (ip : BitVec 32) : Bool := (net4 224 0 0 0 4).contains ip

def isReserved4 (ip : BitVec 32) : Bool := (net4 240 0 0 0 4).contains ip

def isUnspecified4 (ip : BitVec 32) : Bool := ip == 0

/-! ### IPv6 -/

/-- `_IPv6Constants._private_networks` -/
def privateNetworks6 : List (IpNetwork 128) :=
  [net6 [0, 0, 0, 0, 0, 0, 0, 1] 128, net6 [] 128, net6 [0, 0, 0, 0, 0, 0xFFFF] 96,
    net6 [0x64, 0xFF9B, 1] 48, net6 [0x100] 64, net6 [0x2001] 23, net6 [0x2001, 0xDB8] 32,
    net6 [0x2002] 16, net6 [0x3FFF] 20, net6 [0xFC00] 7, net6 [0xFE80] 10]

def privateExceptions6 : List (IpNetwork 128) :=
  [net6 [0x2001, 1, 0, 0, 0, 0, 0, 1] 128, net6 [0x2001, 1, 0, 0, 0, 0, 0, 2] 128,
    net6 [0x2001, 3] 32, net6 [0x2001, 4, 0x112] 48, net6 [0x2001, 0x20] 28, net6 [0x2001, 0x30] 28]

/-- `_IPv6Constants._reserved_networks` -/
def reservedNetworks6 : List (IpNetwork 128) :=
  [net6 [0] 8, net6 [0x100] 8, net6 [0x200] 7, net6 [0x400] 6, net6 [0x800] 5, net6 [0x1000] 4,
    net6 [0x4000] 3, net6 [0x6000] 3, net6 [0x8000] 3, net6 [0xA000] 3, net6 [0xC000] 3,
    net6 [0xE000] 4, net6 [0xF000] 5, net6 [0xF800] 6, net6 [0xFE00] 9]

def isPrivate6 (ip : BitVec 128) : Bool :=
  privateNetworks6.any (·.contains ip) && !privateExceptions6.any (·.contains ip)

/-- The Python that runs: how it reads and writes addresses and texts. -/
structure IpLib where
  /-- `ipaddress.ip_address(text)`; `none` is a `ValueError`. -/
  parse : Str → Option IpAddress
  /-- `str(ip)` -/
  str : IpAddress → Str
  /-- The properties of an IPv4-mapped address are those of the IPv4 address. -/
  mapsProperties : Bool
  /-- The printable characters outside ASCII. -/
  isPrintable : Char → Bool := fun _ => true
  /-- `s.lower()`, for all of Unicode. -/
  lower : Str → Str := Core.lower

namespace IpAddress

def isPrivate : IpAddress → Bool
  | v4 ip => isPrivate4 ip
  | v6 ip =>
    match ipv4Mapped ip with
    | some mapped => isPrivate4 mapped
    | none => isPrivate6 ip

/-- A property with a rule for each family. -/
def property (lib : IpLib) (rule4 : BitVec 32 → Bool) (rule6 : BitVec 128 → Bool) :
    IpAddress → Bool
  | v4 ip => rule4 ip
  | v6 ip =>
    match ipv4Mapped ip with
    | some mapped => if lib.mapsProperties then rule4 mapped else rule6 ip
    | none => rule6 ip

def isGlobal (lib : IpLib) : IpAddress → Bool :=
  property lib isGlobal4 fun ip => !(v6 ip).isPrivate

def isLoopback (lib : IpLib) : IpAddress → Bool := property lib isLoopback4 (· == 1)

def isLinkLocal (lib : IpLib) : IpAddress → Bool :=
  property lib isLinkLocal4 (net6 [0xFE80] 10).contains

def isMulticast (lib : IpLib) : IpAddress → Bool :=
  property lib isMulticast4 (net6 [0xFF00] 8).contains

def isReserved (lib : IpLib) : IpAddress → Bool :=
  property lib isReserved4 fun ip => reservedNetworks6.any (·.contains ip)

def isUnspecified (lib : IpLib) : IpAddress → Bool := property lib isUnspecified4 (· == 0)

end IpAddress

/-! ## The guard -/

/-- `SsrfRefused(msg)` -/
structure SsrfRefused where
  msg : Str

/-- `assert_host_allowlisted` -/
def assertHostAllowlisted (lib : IpLib) (host : Str) (allowlist allowHttpHosts : List Str)
    (scheme : Str) : Except SsrfRefused Unit :=
  if host = [] then throw ⟨"empty host"⟩
  else if lib.lower host ∉ allowlist.map lib.lower then
    throw ⟨"host ".toList ++ strRepr lib.isPrintable host ++ " not in source host_allowlist"⟩
  else if lib.lower scheme = "http" ∧ lib.lower host ∉ allowHttpHosts.map lib.lower then
    throw ⟨"http:// is refused for host ".toList ++ strRepr lib.isPrintable host ++
      "; use https or add it to allow_http_hosts"⟩
  else if lib.lower scheme ∉ ["http".toList, "https".toList] then
    throw ⟨"unsupported scheme ".toList ++ strRepr lib.isPrintable scheme ++
      "; only http/https allowed"⟩
  else pure ()

/-- `_REFUSED_IPV6_RANGES`, with their texts. -/
def refusedIpv6Ranges : List (IpNetwork 128 × Str) :=
  [(net6 [0x2002] 16, "2002::/16"), (net6 [0x64, 0xFF9B] 96, "64:ff9b::/96")]

/-- The range that an IPv6 address falls in. -/
def transitionRange : IpAddress → Option (IpNetwork 128 × Str)
  | .v4 _ => none
  | .v6 ip => refusedIpv6Ranges.find? fun net => net.1.contains ip

/-- 169.254.169.254 -/
def cloudMetadata : IpAddress := .v4 (BitVec.ofNat 32 (((169 * 256 + 254) * 256 + 169) * 256 + 254))

/-- `_assert_ip_public` -/
def assertIpPublic (lib : IpLib) (ip : IpAddress) (host : Str) : Except SsrfRefused Unit :=
  if ip = cloudMetadata then
    throw ⟨"host ".toList ++ strRepr lib.isPrintable host ++
      " resolves to the cloud-metadata IP 169.254.169.254"⟩
  else
    match transitionRange ip with
    | some (_, net) =>
      throw ⟨"host ".toList ++ strRepr lib.isPrintable host ++
        " resolves to IPv6 transition range " ++ net ++ " (IP " ++ lib.str ip ++
        "); refuse — it can tunnel to private IPv4."⟩
    | none =>
      if ip.isPrivate || ip.isLoopback lib || ip.isLinkLocal lib || ip.isMulticast lib ||
          ip.isReserved lib || ip.isUnspecified lib then
        throw ⟨"host ".toList ++ strRepr lib.isPrintable host ++ " resolves to non-public IP " ++
          lib.str ip ++ " (private/loopback/link-local/multicast/reserved/unspecified)"⟩
      else pure ()

/-- What `socket.getaddrinfo` raises: a `gaierror` with its text, or a `UnicodeError` for a host
that IDNA cannot encode. -/
inductive LookupError
  | gaierror (text : Str)
  | unicodeError

/-- `socket.getaddrinfo`, by the addresses of its answer. -/
abbrev GetAddrInfo := Str → Except LookupError (List Str)

/-- What `assert_addresses_public` raises. The `UnicodeError` of a lookup passes through it. -/
inductive GuardError
  | refused (exc : SsrfRefused)
  | unicodeError

/-- `_resolve` -/
def resolve (lib : IpLib) (getaddrinfo : GetAddrInfo) (host : Str) :
    Except GuardError (List Str) :=
  match getaddrinfo host with
  | .error (.gaierror text) =>
    throw (.refused
      ⟨"DNS resolution failed for ".toList ++ strRepr lib.isPrintable host ++ ": " ++ text⟩)
  | .error .unicodeError => throw .unicodeError
  | .ok infos => pure infos.eraseDups

/-- The loop of `assert_addresses_public`. -/
def assertAllPublic (lib : IpLib) (host : Str) : List Str → Except SsrfRefused Unit
  | [] => pure ()
  | text :: texts =>
    match lib.parse text with
    | none => throw ⟨"could not parse resolved IP ".toList ++ strRepr lib.isPrintable text⟩
    | some ip => do
      assertIpPublic lib ip host
      assertAllPublic lib host texts

/-- `assert_addresses_public` -/
def assertAddressesPublic (lib : IpLib) (getaddrinfo : GetAddrInfo) (host : Str) :
    Except GuardError (List Str) := do
  let addrs ← resolve lib getaddrinfo host
  if addrs = [] then
    throw (.refused
      ⟨"host ".toList ++ strRepr lib.isPrintable host ++ " did not resolve to any address"⟩)
  else
    (assertAllPublic lib host addrs).mapError .refused
    pure addrs

/-! ## What is accepted -/

section
variable {lib : IpLib} {host scheme : Str} {allowlist allowHttpHosts : List Str}

/-- An accepted host is on the allowlist, with https or as an opted-in http host. -/
theorem allowlisted_of_ok
    (h : assertHostAllowlisted lib host allowlist allowHttpHosts scheme = .ok ()) :
    lib.lower host ∈ allowlist.map lib.lower ∧ (lib.lower scheme = "https" ∨
      lib.lower scheme = "http" ∧ lib.lower host ∈ allowHttpHosts.map lib.lower) := by
  unfold assertHostAllowlisted at h
  split at h
  · cases h
  split at h
  · cases h
  rename_i hallow
  split at h
  · cases h
  rename_i hhttp
  split at h
  · cases h
  rename_i hscheme
  refine ⟨not_not.mp hallow, ?_⟩
  rcases List.mem_cons.mp (not_not.mp hscheme) with he | he
  · exact .inr ⟨he, by_contra fun hn => hhttp ⟨he, hn⟩⟩
  · exact .inl (List.mem_singleton.mp he)

end

/-- The address passes the guard. -/
def Passes (lib : IpLib) (host : Str) (ip : IpAddress) : Prop := assertIpPublic lib ip host = .ok ()

/-- Globally reachable by the IANA special-purpose registries, and no transition range. -/
def GloballyRoutable (lib : IpLib) (ip : IpAddress) : Prop :=
  ip.isGlobal lib = true ∧ transitionRange ip = none

/-- In the shared address space, by itself or as an IPv4-mapped address that is read as IPv4. -/
def Shared (lib : IpLib) : IpAddress → Prop
  | .v4 ip => isShared4 ip = true
  | .v6 ip => lib.mapsProperties = true ∧ ∃ mapped, ipv4Mapped ip = some mapped ∧
      isShared4 mapped = true

section
variable {lib : IpLib} {host : Str} {ip : IpAddress}

theorem passes_iff : Passes lib host ip ↔ ip ≠ cloudMetadata ∧ transitionRange ip = none ∧
    (ip.isPrivate || ip.isLoopback lib || ip.isLinkLocal lib || ip.isMulticast lib ||
      ip.isReserved lib || ip.isUnspecified lib) = false := by
  unfold Passes assertIpPublic
  by_cases hm : ip = cloudMetadata
  · simp [hm]
  · cases ht : transitionRange ip with
    | some net => simp [hm]
    | none =>
      by_cases hp : (ip.isPrivate || ip.isLoopback lib || ip.isLinkLocal lib ||
          ip.isMulticast lib || ip.isReserved lib || ip.isUnspecified lib) = true
      · simp only [hm, hp]
        simp
      · simp [hm, hp, pure, Except.pure]

theorem shared4_iff {ip : BitVec 32} : isShared4 ip = true ↔ ip.toNat / 4194304 = 401 := by
  simp [isShared4, net4, IpNetwork.contains]

/-- No deny condition covers the shared address space. -/
theorem shared4_passes {ip : BitVec 32} (h : isShared4 ip = true) :
    isPrivate4 ip = false ∧ isLoopback4 ip = false ∧ isLinkLocal4 ip = false ∧
      isMulticast4 ip = false ∧ isReserved4 ip = false ∧ isUnspecified4 ip = false := by
  rw [shared4_iff] at h
  refine ⟨?_, ?_, ?_, ?_, ?_, ?_⟩
  · simp [isPrivate4, privateNetworks4, net4, IpNetwork.contains]
    omega
  · simp [isLoopback4, net4, IpNetwork.contains]
    omega
  · simp [isLinkLocal4, net4, IpNetwork.contains]
    omega
  · simp [isMulticast4, net4, IpNetwork.contains]
    omega
  · simp [isReserved4, net4, IpNetwork.contains]
    omega
  · have hne : ip ≠ 0 := by
      rintro rfl
      simp at h
    simpa [isUnspecified4] using hne

theorem transitionRange_of_mapped {ip : BitVec 128} {mapped : BitVec 32}
    (h : ipv4Mapped ip = some mapped) : transitionRange (.v6 ip) = none := by
  obtain ⟨h, _⟩ := Option.ite_none_right_eq_some.mp h
  rw [transitionRange, List.find?_eq_none]
  intro net hnet
  simp only [refusedIpv6Ranges, List.mem_cons, List.not_mem_nil, or_false] at hnet
  rcases hnet with rfl | rfl
  · simp [net6, IpNetwork.contains]
    omega
  · simp [net6, IpNetwork.contains]
    omega

/-- **The hole.** Every shared address passes the guard, and none is global. -/
theorem passes_of_shared (host : Str) (h : Shared lib ip) :
    Passes lib host ip ∧ ¬GloballyRoutable lib ip := by
  cases ip with
  | v4 ip =>
    have hs : isShared4 ip = true := h
    obtain ⟨h1, h2, h3, h4, h5, h6⟩ := shared4_passes hs
    constructor
    · refine passes_iff.mpr ⟨?_, rfl, ?_⟩
      · intro he
        cases he
        revert hs
        decide
      · simp [IpAddress.isPrivate, IpAddress.isLoopback, IpAddress.isLinkLocal,
          IpAddress.isMulticast, IpAddress.isReserved, IpAddress.isUnspecified, IpAddress.property,
          h1, h2, h3, h4, h5, h6]
    · rintro ⟨hg, -⟩
      simp [IpAddress.isGlobal, IpAddress.property, isGlobal4, hs] at hg
  | v6 ip =>
    obtain ⟨hmaps, mapped, hm, hs⟩ := h
    obtain ⟨h1, h2, h3, h4, h5, h6⟩ := shared4_passes hs
    constructor
    · refine passes_iff.mpr ⟨nofun, transitionRange_of_mapped hm, ?_⟩
      simp [IpAddress.isPrivate, IpAddress.isLoopback, IpAddress.isLinkLocal,
        IpAddress.isMulticast, IpAddress.isReserved, IpAddress.isUnspecified, IpAddress.property,
        hm, hmaps, h1, h2, h3, h4, h5, h6]
    · rintro ⟨hg, -⟩
      simp [IpAddress.isGlobal, IpAddress.property, hm, hmaps, isGlobal4, hs] at hg

/-- Apart from the shared address space, what passes is global. -/
theorem routable_of_passes (h : Passes lib host ip) (hs : ¬Shared lib ip) :
    GloballyRoutable lib ip := by
  obtain ⟨_, hrange, hdeny⟩ := passes_iff.mp h
  simp only [Bool.or_eq_false_iff] at hdeny
  have hprivate := hdeny.1.1.1.1.1
  refine ⟨?_, hrange⟩
  cases ip with
  | v4 ip =>
    have hs : isShared4 ip = false := by simpa [Shared] using hs
    have hp : isPrivate4 ip = false := hprivate
    simp [IpAddress.isGlobal, IpAddress.property, isGlobal4, hs, hp]
  | v6 ip =>
    cases hm : ipv4Mapped ip with
    | none => simp [IpAddress.isGlobal, IpAddress.property, hm, hprivate]
    | some mapped =>
      have hp : isPrivate4 mapped = false := by simpa [IpAddress.isPrivate, hm] using hprivate
      by_cases hmaps : lib.mapsProperties = true
      · have hs : isShared4 mapped = false := by simpa [Shared, hmaps, hm] using hs
        simp [IpAddress.isGlobal, IpAddress.property, hm, hmaps, isGlobal4, hs, hp]
      · simp [IpAddress.isGlobal, IpAddress.property, hm, hmaps, hprivate]

theorem assertAllPublic_ok : ∀ {texts : List Str}, assertAllPublic lib host texts = .ok () ↔
    ∀ text ∈ texts, ∃ ip, lib.parse text = some ip ∧ Passes lib host ip
  | [] => by simp [assertAllPublic, pure, Except.pure]
  | text :: texts => by
    rw [assertAllPublic]
    cases hp : lib.parse text with
    | none => simp [hp]
    | some ip =>
      cases ha : assertIpPublic lib ip host with
      | error exc => simp [hp, Passes, ha, bind, Except.bind]
      | ok u =>
        have ih : assertAllPublic lib host texts = .ok () ↔
            ∀ text ∈ texts, ∃ ip, lib.parse text = some ip ∧ Passes lib host ip := assertAllPublic_ok
        simpa [hp, Passes, ha, bind, Except.bind] using ih

/-- The guard returns the addresses it was given, once each, if all of them pass. -/
theorem assertAddressesPublic_ok {getaddrinfo : GetAddrInfo} {infos addrs : List Str}
    (hinfos : getaddrinfo host = .ok infos) :
    assertAddressesPublic lib getaddrinfo host = .ok addrs ↔
      infos ≠ [] ∧ addrs = infos.eraseDups ∧
        ∀ text ∈ infos, ∃ ip, lib.parse text = some ip ∧ Passes lib host ip := by
  have hempty : infos.eraseDups = [] ↔ infos = [] := by
    constructor
    · intro h
      cases infos with
      | nil => rfl
      | cons a as => simp [List.eraseDups_cons] at h
    · rintro rfl
      rfl
  have hall : assertAllPublic lib host infos.eraseDups = .ok () ↔
      ∀ text ∈ infos, ∃ ip, lib.parse text = some ip ∧ Passes lib host ip := by
    rw [assertAllPublic_ok]
    simp only [List.mem_eraseDups]
  rw [← hall]
  unfold assertAddressesPublic resolve
  rw [hinfos]
  by_cases hne : infos = []
  · subst hne
    simp [pure, Except.pure, bind, Except.bind]
  · have hne' : infos.eraseDups ≠ [] := fun h => hne (hempty.mp h)
    cases ha : assertAllPublic lib host infos.eraseDups with
    | error exc => simp [pure, Except.pure, bind, Except.bind, Except.mapError, hne, hne', ha]
    | ok u => simp [pure, Except.pure, bind, Except.bind, Except.mapError, hne, hne', ha, eq_comm]

theorem returns_iff {getaddrinfo : GetAddrInfo} {infos : List Str} {ips : List IpAddress}
    (hinfos : getaddrinfo host = .ok infos) (hne : infos ≠ [])
    (hparse : List.Forall₂ (fun text ip => lib.parse text = some ip) infos ips) :
    (∃ addrs, assertAddressesPublic lib getaddrinfo host = .ok addrs) ↔
      ∀ ip ∈ ips, Passes lib host ip := by
  simp only [assertAddressesPublic_ok hinfos, hne, ne_eq, not_false_eq_true, true_and,
    exists_and_right, exists_eq]
  clear hne hinfos
  induction hparse with
  | nil => simp
  | cons hp _ ih => simp [hp, ih]

end

/-- Four addresses, by their texts. -/
def fourAddresses : List (Str × IpAddress) :=
  [("8.8.8.8".toList, .v4 0x08080808), ("1.1.1.1".toList, .v4 0x01010101),
    ("100.64.0.1".toList, .v4 0x64400001), ("10.0.0.5".toList, .v4 0x0A000005)]

def fourLib : IpLib :=
  { parse := lookupFirst fourAddresses
    str := fun ip => ((fourAddresses.find? fun p => p.2 = ip).map Prod.fst).getD []
    mapsProperties := true }

end KnowledgeKiln.L1.Ssrf
