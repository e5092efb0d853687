import VpnBot.Awg.DirectPeers

/-!
# The addresses of the AWG keys

`src/adapters/ip_allocator.py`: the first free address of the network, where the addresses of the keys are taken and
those in the networks of the peers of the config.  Whatever the database and the config hold, `next_free_ip` returns
the least host that is free, as long as both can be read, and says that the pool is full exactly when there is none
(`nextFreeIp_spec`).

The allocator looks at the networks that overlap its own, and asks each whether it holds the address; `_find_peer` of
the adapter goes by the parts of `AllowedIPs` (`allowedIpsContains`).  An address that is free for the one is free for
the other.
-/

namespace VpnBot.Awg

open Py

/-- What `ipaddress` makes of the texts that are no IPv4 address or network. -/
structure Ipv6 where
  isAddress : Text → Bool
  isNetwork : Text → Bool
  inNetwork : Text → Text → Bool

/-- What the adapter asks of `ipaddress`. -/
def Ipv6.ipaddress (v6 : Ipv6) : Ipaddress where
  isAddress t := (IPv4.parseAddress t).isSome || v6.isAddress t
  inNetwork value clientIp :=
    match IPv4.parse false value, IPv4.parseAddress clientIp with
    | some n, some address => n.hasAddress address
    | none, none => v6.inNetwork value clientIp
    | _, _ => false

/-- `network.hosts()`. -/
def hosts (n : IPv4Network) : List ℕ :=
  if n.prefixlen = 32 then [n.addr]
  else if n.prefixlen = 31 then [n.addr, n.addr + 1]
  else List.range' (n.addr + 1) (n.numAddresses - 2)

/-- An `IpAllocator`, with the checks of its constructor. -/
structure IpAllocator where
  network : IPv4Network
  serverAddress : ℕ
  inside : serverAddress ∈ network.addresses
  ne_network : serverAddress ≠ network.addr
  ne_broadcast : serverAddress ≠ network.broadcast

/-- `__init__`; nothing where it raises. -/
def IpAllocator.init (network server : Text) : Option IpAllocator :=
  match IPv4.parse false network, IPv4.parseAddress ((splitOnce '/' server).elim server Prod.fst) with
  | some n, some address =>
    if h : n.hasAddress address = true ∧ address ≠ n.addr ∧ address ≠ n.broadcast then
      some ⟨n, address, (Network.hasAddress_iff ..).1 h.1, h.2.1, h.2.2⟩
    else none
  | _, _ => none

example : (IpAllocator.init "10.8.0.1/24".toList "10.8.0.1/24".toList).map (·.serverAddress) = some 168296449 := by
  decide

/-- The config that the allocator asks: none, one that cannot be read, or one with a text. -/
inductive AwgPeerIpSource
  | absent
  | unreadable
  | config (text : Text)

/-- Why `next_free_ip` raises. -/
inductive AllocationError
  | occupied
  | config
  | allowedIps
  | full
  deriving DecidableEq

/-- What stands in the column in front of a prefix length. -/
def addressPart (value : Text) : Text := strip ((splitOnce '/' value).elim value Prod.fst)

/-- The set `occupied`, for the values of the column; an IPv6 address is no candidate. -/
def occupiedAddresses (v6 : Ipv6) : List Text → Except AllocationError (List ℕ)
  | [] => .ok []
  | value :: values =>
    if (addressPart value).isEmpty then occupiedAddresses v6 values
    else
      match IPv4.parseAddress (addressPart value) with
      | some address => (occupiedAddresses v6 values).map (address :: ·)
      | none => if v6.isAddress (addressPart value) then occupiedAddresses v6 values else .error .occupied

/-- The sections of the config, if they can be read. -/
def AwgPeerIpSource.sections : AwgPeerIpSource → Option (List AwgSection)
  | .absent => some []
  | .unreadable => none
  | .config text => (parseSections text).toOption

/-- `list_peer_allowed_ips`. -/
def listPeerAllowedIps (sections : List AwgSection) : List Text :=
  (sections.filter (·.name = "Peer".toList)).flatMap fun sec =>
    ((splitAt ',' ((sec.options.get? "AllowedIPs".toList).getD [])).map strip).filter (!·.isEmpty)

/-- The list `occupied_networks`. -/
def occupiedNetworks (v6 : Ipv6) (network : IPv4Network) : List Text → Except AllocationError (List IPv4Network)
  | [] => .ok []
  | value :: values =>
    match IPv4.parse false value with
    | some n =>
      if n.overlaps network then (occupiedNetworks v6 network values).map (n :: ·)
      else occupiedNetworks v6 network values
    | none => if v6.isNetwork value then occupiedNetworks v6 network values else .error .allowedIps

/-- The loop over the hosts. -/
def firstFree (a : IpAllocator) (addresses : List ℕ) (networks : List IPv4Network) : Option ℕ :=
  (hosts a.network).find? fun candidate =>
    candidate ≠ a.serverAddress && !addresses.contains candidate && !networks.any (·.hasAddress candidate)

/-- `next_free_ip`, from the values of the column and the config. -/
def IpAllocator.nextFreeIp (a : IpAllocator) (v6 : Ipv6) (values : List Text) (source : AwgPeerIpSource) :
    Except AllocationError Text := do
  let addresses ← occupiedAddresses v6 values
  let sections ← source.sections.elim (.error .config) .ok
  let networks ← occupiedNetworks v6 a.network (listPeerAllowedIps sections)
  match firstFree a addresses networks with
  | some candidate => return IPv4.addressText candidate
  | none => throw .full

variable {v6 : Ipv6} {n : IPv4Network} {x : ℕ} {values : List Text}

/-! ### The peers that hold an address -/

/-- A part of `AllowedIPs` holds an IPv4 address when it is an IPv4 network around it. -/
theorem inNetwork_addressText {value : Text} (hx : x < 2 ^ 32) :
    v6.ipaddress.inNetwork value (IPv4.addressText x) = true ↔
      ∃ n, IPv4.parse false value = some n ∧ x ∈ n.addresses := by
  have hparse := IPv4.parseAddress_addressText hx
  cases hvalue : IPv4.parse false value with
  | none => simp [Ipv6.ipaddress, hvalue, hparse]
  | some n => simp [Ipv6.ipaddress, hvalue, hparse, Network.hasAddress_iff]

theorem allowedIpsContains_iff {allowedIps : Text} (hx : x < 2 ^ 32) :
    allowedIpsContains v6.ipaddress allowedIps (IPv4.addressText x) = true ↔
      ∃ value ∈ ((splitAt ',' allowedIps).map strip).filter (!·.isEmpty), ∃ n, IPv4.parse false value = some n ∧
        x ∈ n.addresses := by
  have haddress : v6.ipaddress.isAddress (IPv4.addressText x) = true := by
    simp [Ipv6.ipaddress, IPv4.parseAddress_addressText hx]
  rw [allowedIpsContains, haddress, Bool.true_and, List.any_eq_true]
  constructor
  · rintro ⟨part, hpart, h⟩
    rw [Bool.and_eq_true] at h
    exact ⟨strip part, List.mem_filter.2 ⟨List.mem_map_of_mem hpart, h.1⟩, (inNetwork_addressText hx).1 h.2⟩
  · rintro ⟨value, hvalue, hn⟩
    obtain ⟨hmem, hne⟩ := List.mem_filter.1 hvalue
    obtain ⟨part, hpart, rfl⟩ := List.mem_map.1 hmem
    exact ⟨part, hpart, by rw [hne, (inNetwork_addressText hx).2 hn]; rfl⟩

/-! ### The hosts -/

theorem mem_addresses_of_mem_hosts (h : x ∈ hosts n) : x ∈ n.addresses := by
  have hpos := n.numAddresses_pos
  unfold hosts at h
  rw [Network.mem_addresses]
  split_ifs at h with hone htwo
  · rw [List.mem_singleton] at h
    omega
  · have hsize : n.numAddresses = 2 := by simp [Network.numAddresses, htwo]
    simp only [List.mem_cons, List.not_mem_nil, or_false] at h
    omega
  · rw [List.mem_range'_1] at h
    omega

theorem lt_of_mem_addresses (h : x ∈ n.addresses) : x < 2 ^ 32 := by
  have hend := n.addr_add_le
  rw [Network.mem_addresses] at h
  omega

theorem sorted_hosts (n : IPv4Network) : (hosts n).Pairwise (· < ·) := by
  unfold hosts
  split_ifs
  · exact List.pairwise_singleton _ _
  · simp
  · exact List.pairwise_lt_range'

/-! ### What is taken -/

/-- The values of the column that are read. -/
def ReadableAddress (v6 : Ipv6) (value : Text) : Prop :=
  addressPart value = [] ∨ (IPv4.parseAddress (addressPart value)).isSome ∨ v6.isAddress (addressPart value) = true

theorem occupiedAddresses_eq_ok {addresses : List ℕ} (h : occupiedAddresses v6 values = .ok addresses) :
    (∀ value ∈ values, ReadableAddress v6 value) ∧
      ∀ x, x ∈ addresses ↔ ∃ value ∈ values, IPv4.parseAddress (addressPart value) = some x := by
  induction values generalizing addresses with
  | nil =>
    cases h
    simp
  | cons value values ih =>
    rw [occupiedAddresses] at h
    simp only [List.forall_mem_cons, List.exists_mem_cons_iff]
    by_cases hempty : (addressPart value).isEmpty = true
    · rw [if_pos hempty] at h
      obtain ⟨hread, hiff⟩ := ih h
      have hnil : addressPart value = [] := List.isEmpty_iff.1 hempty
      have hnone : IPv4.parseAddress [] = none := by decide
      refine ⟨⟨.inl hnil, hread⟩, fun x => ?_⟩
      rw [hiff, hnil, hnone]
      simp
    · rw [if_neg hempty] at h
      cases hparse : IPv4.parseAddress (addressPart value) with
      | none =>
        rw [hparse] at h
        dsimp only at h
        split_ifs at h with h6
        obtain ⟨hread, hiff⟩ := ih h
        refine ⟨⟨.inr (.inr h6), hread⟩, fun x => ?_⟩
        rw [hiff]
        simp
      | some address =>
        rw [hparse] at h
        dsimp only at h
        cases hrest : occupiedAddresses v6 values with
        | error e =>
          rw [hrest] at h
          cases h
        | ok rest =>
          rw [hrest] at h
          cases h
          obtain ⟨hread, hiff⟩ := ih hrest
          refine ⟨⟨.inr (.inl (by rw [hparse]; rfl)), hread⟩, fun x => ?_⟩
          rw [List.mem_cons, hiff, Option.some.injEq]
          exact or_congr_left eq_comm

theorem occupiedAddresses_eq_error {e : AllocationError} (h : occupiedAddresses v6 values = .error e) :
    e = .occupied ∧ ∃ value ∈ values, ¬ReadableAddress v6 value := by
  induction values with
  | nil => cases h
  | cons value values ih =>
    have hlater : occupiedAddresses v6 values = .error e →
        e = .occupied ∧ ∃ v ∈ value :: values, ¬ReadableAddress v6 v :=
      fun h => (ih h).imp_right fun ⟨v, hv, hunread⟩ => ⟨v, List.mem_cons_of_mem _ hv, hunread⟩
    rw [occupiedAddresses] at h
    by_cases hempty : (addressPart value).isEmpty = true
    · rw [if_pos hempty] at h
      exact hlater h
    · rw [if_neg hempty] at h
      cases hparse : IPv4.parseAddress (addressPart value) with
      | none =>
        rw [hparse] at h
        dsimp only at h
        split_ifs at h with h6
        · exact hlater h
        · refine ⟨(Except.error.inj h).symm, value, List.mem_cons_self, ?_⟩
          rintro (hnil | h4 | h6')
          · exact hempty (List.isEmpty_iff.2 hnil)
          · rw [hparse] at h4
            cases h4
          · exact h6 h6'
      | some address =>
        rw [hparse] at h
        dsimp only at h
        cases hrest : occupiedAddresses v6 values with
        | error e' =>
          rw [hrest] at h
          cases h
          exact hlater hrest
        | ok rest =>
          rw [hrest] at h
          cases h

/-- The values that `ip_network` reads. -/
def ReadableNetwork (v6 : Ipv6) (value : Text) : Prop := (IPv4.parse false value).isSome ∨ v6.isNetwork value = true

theorem occupiedNetworks_eq_ok {values : List Text} {networks : List IPv4Network}
    (h : occupiedNetworks v6 n values = .ok networks) :
    (∀ value ∈ values, ReadableNetwork v6 value) ∧
      ∀ m, m ∈ networks ↔ m.overlaps n = true ∧ ∃ value ∈ values, IPv4.parse false value = some m := by
  induction values generalizing networks with
  | nil =>
    cases h
    simp
  | cons value values ih =>
    rw [occupiedNetworks] at h
    simp only [List.forall_mem_cons, List.exists_mem_cons_iff]
    cases hparse : IPv4.parse false value with
    | none =>
      rw [hparse] at h
      dsimp only at h
      split_ifs at h with h6
      obtain ⟨hread, hiff⟩ := ih h
      refine ⟨⟨.inr h6, hread⟩, fun m => ?_⟩
      rw [hiff]
      simp
    | some read =>
      rw [hparse] at h
      dsimp only at h
      have hvalue : ReadableNetwork v6 value := .inl (by rw [hparse]; rfl)
      split_ifs at h with hover
      · cases hrest : occupiedNetworks v6 n values with
        | error e =>
          rw [hrest] at h
          cases h
        | ok rest =>
          rw [hrest] at h
          cases h
          obtain ⟨hread, hiff⟩ := ih hrest
          refine ⟨⟨hvalue, hread⟩, fun m => ?_⟩
          rw [List.mem_cons, hiff]
          constructor
          · rintro (rfl | ⟨hm, hmem⟩)
            · exact ⟨hover, .inl rfl⟩
            · exact ⟨hm, .inr hmem⟩
          · rintro ⟨hm, hmem | hmem⟩
            · exact .inl (Option.some.inj hmem).symm
            · exact .inr ⟨hm, hmem⟩
      · -- a network elsewhere is left out
        obtain ⟨hread, hiff⟩ := ih h
        refine ⟨⟨hvalue, hread⟩, fun m => ?_⟩
        rw [hiff]
        constructor
        · rintro ⟨hm, hmem⟩
          exact ⟨hm, .inr hmem⟩
        · rintro ⟨hm, hmem | hmem⟩
          · rw [Option.some.inj hmem] at hover
            exact absurd hm hover
          · exact ⟨hm, hmem⟩

theorem occupiedNetworks_eq_error {values : List Text} {e : AllocationError}
    (h : occupiedNetworks v6 n values = .error e) : e = .allowedIps ∧ ∃ value ∈ values, ¬ReadableNetwork v6 value := by
  induction values with
  | nil => cases h
  | cons value values ih =>
    rw [occupiedNetworks] at h
    have hlater : occupiedNetworks v6 n values = .error e →
        e = .allowedIps ∧ ∃ v ∈ value :: values, ¬ReadableNetwork v6 v :=
      fun h => (ih h).imp_right fun ⟨v, hv, hunread⟩ => ⟨v, List.mem_cons_of_mem _ hv, hunread⟩
    cases hparse : IPv4.parse false value with
    | none =>
      rw [hparse] at h
      dsimp only at h
      split_ifs at h with h6
      · exact hlater h
      · refine ⟨(Except.error.inj h).symm, value, List.mem_cons_self, ?_⟩
        rintro (h4 | h6')
        · rw [hparse] at h4
          cases h4
        · exact h6 h6'
    | some read =>
      rw [hparse] at h
      dsimp only at h
      split_ifs at h
      · cases hrest : occupiedNetworks v6 n values with
        | error e' =>
          rw [hrest] at h
          cases h
          exact hlater hrest
        | ok rest =>
          rw [hrest] at h
          cases h
      · exact hlater h

/-! ### The least free host -/

/-- The host is free: it is not the address of the server or of a key, and no peer of the config holds it. -/
structure IpAllocator.Free (a : IpAllocator) (v6 : Ipv6) (values : List Text) (sections : List AwgSection) (x : ℕ) :
    Prop where
  host : x ∈ hosts a.network
  ne_server : x ≠ a.serverAddress
  unreserved : ∀ value ∈ values, IPv4.parseAddress (addressPart value) ≠ some x
  outside : ∀ sec ∈ sections, sec.name = "Peer".toList →
    allowedIpsContains v6.ipaddress ((sec.options.get? "AllowedIPs".toList).getD []) (IPv4.addressText x) = false

/-- What is asked of the database and of the config can be read. -/
structure Readable (v6 : Ipv6) (values : List Text) (sections : List AwgSection) : Prop where
  addresses : ∀ value ∈ values, ReadableAddress v6 value
  networks : ∀ value ∈ listPeerAllowedIps sections, ReadableNetwork v6 value

variable {a : IpAllocator} {addresses : List ℕ} {networks : List IPv4Network} {sections : List AwgSection}

theorem mem_listPeerAllowedIps {value : Text} : value ∈ listPeerAllowedIps sections ↔
    ∃ sec ∈ sections, sec.name = "Peer".toList ∧
      value ∈ ((splitAt ',' ((sec.options.get? "AllowedIPs".toList).getD [])).map strip).filter (!·.isEmpty) := by
  rw [listPeerAllowedIps, List.mem_flatMap]
  constructor
  · rintro ⟨sec, hsec, hvalue⟩
    rw [List.mem_filter, decide_eq_true_eq] at hsec
    exact ⟨sec, hsec.1, hsec.2, hvalue⟩
  · rintro ⟨sec, hsec, hpeer, hvalue⟩
    exact ⟨sec, List.mem_filter.2 ⟨hsec, decide_eq_true hpeer⟩, hvalue⟩

theorem any_hasAddress_iff (hx : x ∈ hosts n)
    (h : occupiedNetworks v6 n (listPeerAllowedIps sections) = .ok networks) :
    networks.any (·.hasAddress x) = true ↔ ∃ sec ∈ sections, sec.name = "Peer".toList ∧
      allowedIpsContains v6.ipaddress ((sec.options.get? "AllowedIPs".toList).getD []) (IPv4.addressText x) = true := by
  have hmem := mem_addresses_of_mem_hosts hx
  have hlt := lt_of_mem_addresses hmem
  rw [List.any_eq_true]
  constructor
  · rintro ⟨m, hm, haddress⟩
    obtain ⟨-, value, hvalue, hparse⟩ := ((occupiedNetworks_eq_ok h).2 m).1 hm
    obtain ⟨sec, hsec, hpeer, hpart⟩ := mem_listPeerAllowedIps.1 hvalue
    refine ⟨sec, hsec, hpeer, (allowedIpsContains_iff hlt).2 ⟨value, hpart, m, hparse, ?_⟩⟩
    exact Network.hasAddress_iff.1 haddress
  · rintro ⟨sec, hsec, hpeer, hcontains⟩
    obtain ⟨value, hpart, m, hparse, haddress⟩ := (allowedIpsContains_iff hlt).1 hcontains
    have hover : m.overlaps n = true := Network.overlaps_iff.2 (Set.not_disjoint_iff.2 ⟨x, haddress, hmem⟩)
    have hvalue := mem_listPeerAllowedIps.2 ⟨sec, hsec, hpeer, hpart⟩
    exact ⟨m, ((occupiedNetworks_eq_ok h).2 m).2 ⟨hover, value, hvalue, hparse⟩, Network.hasAddress_iff.2 haddress⟩

/-- The test of the loop. -/
theorem isFree_iff (haddresses : occupiedAddresses v6 values = .ok addresses)
    (hnetworks : occupiedNetworks v6 a.network (listPeerAllowedIps sections) = .ok networks) :
    x ∈ hosts a.network ∧ (decide (x ≠ a.serverAddress) && !addresses.contains x && !networks.any (·.hasAddress x)) =
      true ↔ a.Free v6 values sections x := by
  have hreserved := (occupiedAddresses_eq_ok haddresses).2 x
  simp only [Bool.and_eq_true, decide_eq_true_eq, Bool.not_eq_true']
  constructor
  · rintro ⟨hhost, ⟨hne, hnew⟩, hnone⟩
    refine ⟨hhost, hne, fun value hvalue hparse => ?_, fun sec hsec hpeer => ?_⟩
    · have hmem : x ∉ addresses := by simpa using hnew
      exact hmem (hreserved.2 ⟨value, hvalue, hparse⟩)
    · by_contra hcontains
      rw [Bool.not_eq_false] at hcontains
      rw [(any_hasAddress_iff hhost hnetworks).2 ⟨sec, hsec, hpeer, hcontains⟩] at hnone
      cases hnone
  · intro hfree
    have hmem : x ∉ addresses := by
      intro hmem
      obtain ⟨value, hvalue, hparse⟩ := hreserved.1 hmem
      exact hfree.unreserved value hvalue hparse
    refine ⟨hfree.host, ⟨hfree.ne_server, by simpa using hmem⟩, ?_⟩
    by_contra hany
    rw [Bool.not_eq_false] at hany
    obtain ⟨sec, hsec, hpeer, hcontains⟩ := (any_hasAddress_iff hfree.host hnetworks).1 hany
    rw [hfree.outside sec hsec hpeer] at hcontains
    cases hcontains

/-- The loop finds the least free host, since the hosts are looked at in their order. -/
theorem firstFree_eq_some (haddresses : occupiedAddresses v6 values = .ok addresses)
    (hnetworks : occupiedNetworks v6 a.network (listPeerAllowedIps sections) = .ok networks)
    (hfirst : firstFree a addresses networks = some x) : IsLeast {y | a.Free v6 values sections y} x := by
  obtain ⟨hfree, before, after, hsplit, hbefore⟩ := List.find?_eq_some_iff_append.1 hfirst
  have hmem : x ∈ hosts a.network := by
    rw [hsplit]
    exact List.mem_append_right _ List.mem_cons_self
  refine ⟨(isFree_iff haddresses hnetworks).1 ⟨hmem, hfree⟩, fun y hy => ?_⟩
  obtain ⟨hhost, htest⟩ := (isFree_iff haddresses hnetworks).2 hy
  have hsorted := sorted_hosts a.network
  rw [hsplit] at hhost hsorted
  rcases List.mem_append.1 hhost with hhost | hhost
  · have hnone := hbefore y hhost
    rw [htest] at hnone
    cases hnone
  · rcases List.mem_cons.1 hhost with rfl | hhost
    · exact le_rfl
    · exact ((List.pairwise_cons.1 (List.pairwise_append.1 hsorted).2.1).1 y hhost).le

theorem firstFree_eq_none (haddresses : occupiedAddresses v6 values = .ok addresses)
    (hnetworks : occupiedNetworks v6 a.network (listPeerAllowedIps sections) = .ok networks)
    (hfirst : firstFree a addresses networks = none) (x : ℕ) : ¬a.Free v6 values sections x := by
  intro hfree
  obtain ⟨hhost, htest⟩ := (isFree_iff haddresses hnetworks).2 hfree
  exact List.find?_eq_none.1 hfirst x hhost htest

/-- **What `next_free_ip` returns, and when it raises.** -/
theorem nextFreeIp_spec (a : IpAllocator) (v6 : Ipv6) (values : List Text) (source : AwgPeerIpSource) :
    match a.nextFreeIp v6 values source with
    | .ok ip => ∃ sections ∈ source.sections, Readable v6 values sections ∧
        ∃ x, IsLeast {y | a.Free v6 values sections y} x ∧ ip = IPv4.addressText x
    | .error .full => ∃ sections ∈ source.sections, Readable v6 values sections ∧ ∀ x, ¬a.Free v6 values sections x
    | .error .occupied => ∃ value ∈ values, ¬ReadableAddress v6 value
    | .error .config => source.sections = none
    | .error .allowedIps => ∃ sections ∈ source.sections, ∃ value ∈ listPeerAllowedIps sections,
        ¬ReadableNetwork v6 value := by
  unfold IpAllocator.nextFreeIp
  cases haddresses : occupiedAddresses v6 values with
  | error e =>
    obtain ⟨rfl, hunread⟩ := occupiedAddresses_eq_error haddresses
    exact hunread
  | ok addresses =>
    have hvalues := (occupiedAddresses_eq_ok haddresses).1
    cases hsections : source.sections with
    | none => exact rfl
    | some sections =>
      dsimp only [bind, Except.bind, Option.elim_some]
      cases hnetworks : occupiedNetworks v6 a.network (listPeerAllowedIps sections) with
      | error e =>
        obtain ⟨rfl, hunread⟩ := occupiedNetworks_eq_error hnetworks
        exact ⟨sections, rfl, hunread⟩
      | ok networks =>
        have hreadable : Readable v6 values sections := ⟨hvalues, (occupiedNetworks_eq_ok hnetworks).1⟩
        dsimp only
        cases hfirst : firstFree a addresses networks with
        | none => exact ⟨sections, rfl, hreadable, firstFree_eq_none haddresses hnetworks hfirst⟩
        | some x => exact ⟨sections, rfl, hreadable, x, firstFree_eq_some haddresses hnetworks hfirst, rfl⟩

end VpnBot.Awg
