import VpnBot.Python.Ipv4
import VpnBot.System.Awk

/-!
# A routing table

The routes of one table, as `ip route` shows and changes them.  A route is found by its destination and metric;
`del` takes the first route of a destination and a device away, and `replace` puts a route in the place of the one
with its destination and metric.

A destination is shown as `default`, as a bare address when it is one host, and as a prefix otherwise; any of
these is read back (`ipPrefix_prefixText`, `ipPrefix_text`).
-/

namespace VpnBot.Warp.Routing

open Py

/-! ### Routes -/

/-- A network device; its name is one word. -/
structure Device where
  name : Text
  isWord : Awk.IsWord name

instance : DecidableEq Device := fun a b =>
  decidable_of_iff (a.name = b.name) ⟨fun h => by cases a; cases b; cases h; rfl, fun h => h ▸ rfl⟩

structure Route where
  dst : IPv4Network
  gateway : Option ℕ
  dev : Device
  metric : ℕ
  deriving DecidableEq

/-- What `replace` finds a route by. -/
def Route.key (route : Route) : IPv4Network × ℕ := (route.dst, route.metric)

/-- The routes of a table; no two have one destination and one metric. -/
structure RouteTable where
  routes : List Route
  distinct : (routes.map Route.key).Nodup

/-- `ip route del DST dev DEV table T`. -/
def RouteTable.del (dst : IPv4Network) (dev : Device) (table : RouteTable) : RouteTable where
  routes := table.routes.eraseP fun route => route.dst = dst ∧ route.dev = dev
  distinct := table.distinct.sublist (List.eraseP_sublist.map Route.key)

/-- `ip route replace` with the destination, the gateway, the device and the metric of a route. -/
def RouteTable.replace (new : Route) (table : RouteTable) : RouteTable where
  routes := table.routes.filter (fun route => route.key ≠ new.key) ++ [new]
  distinct := by
    rw [List.map_append, List.nodup_append']
    refine ⟨table.distinct.sublist (List.filter_sublist.map Route.key), List.nodup_singleton _, ?_⟩
    rintro key hkey hnew
    obtain ⟨route, hroute, rfl⟩ := List.mem_map.1 hkey
    exact of_decide_eq_true (List.mem_filter.1 hroute).2 (List.mem_singleton.1 hnew)

/-! ### Texts -/

/-- A destination as `ip route show` prints it. -/
def prefixText (n : IPv4Network) : Text :=
  if n.prefixlen = 0 then "default".toList
  else if n.prefixlen = 32 then IPv4.addressText n.addr
  else IPv4.text n

theorem dvd_default : 2 ^ (32 - 0) ∣ 0 := dvd_zero _

theorem default_lt : 0 < 2 ^ 32 := Nat.two_pow_pos 32

/-- `default`. -/
def defaultNetwork : IPv4Network := ⟨0, 0, Nat.zero_le 32, dvd_default, default_lt⟩

/-- A destination as `ip route` reads it. -/
def ipPrefix (t : Text) : Option IPv4Network :=
  if t = "default".toList then some defaultNetwork else IPv4.parse true t

/-- A route as `ip route show` prints it; nothing that follows the device is read. -/
def Route.line (route : Route) : Text :=
  join ' ' (prefixText route.dst ::
    ((route.gateway.map fun gateway => ["via".toList, IPv4.addressText gateway]).getD [] ++
      ["dev".toList, route.dev.name] ++
      if route.metric = 0 then [] else ["metric".toList, natText route.metric]))

/-! ### Destinations and their texts -/

variable {n m : IPv4Network} {route : Route}

theorem eq_default (h : n.prefixlen = 0) : n = defaultNetwork := by
  refine Network.ext ?_ h
  have hdvd := n.host_zero
  rw [h] at hdvd
  exact Nat.eq_zero_of_dvd_of_lt hdvd n.addr_lt

theorem char_of_mem_addressText {a : ℕ} {c : Char} (h : c ∈ IPv4.addressText a) : c.isDigit = true ∨ c = '.' := by
  simp only [IPv4.addressText, IPv4.octets, join, List.map_cons, List.map_nil, List.intercalate,
    List.intersperse_cons_cons, List.intersperse_singleton, List.flatten_cons, List.flatten_nil, List.mem_append,
    List.mem_singleton, List.append_nil] at h
  rcases h with h | rfl | h | rfl | h | rfl | h
  · exact Or.inl (isDigit_of_mem_natText h)
  · exact Or.inr rfl
  · exact Or.inl (isDigit_of_mem_natText h)
  · exact Or.inr rfl
  · exact Or.inl (isDigit_of_mem_natText h)
  · exact Or.inr rfl
  · exact Or.inl (isDigit_of_mem_natText h)

theorem text_eq (n : IPv4Network) : IPv4.text n = IPv4.addressText n.addr ++ '/' :: natText n.prefixlen := by
  simp [IPv4.text, join, List.intercalate]

theorem addressText_ne_nil (a : ℕ) : IPv4.addressText a ≠ [] := by
  simp [IPv4.addressText, IPv4.octets, join, List.intercalate]

theorem slash_notMem_addressText (a : ℕ) : '/' ∉ IPv4.addressText a := by
  intro h
  rcases char_of_mem_addressText h with hdigit | hdot
  · exact absurd hdigit (by decide)
  · exact absurd hdot (by decide)

theorem char_of_mem_dst {c : Char} (h : c ∈ IPv4.text n ∨ c ∈ prefixText n) :
    c.isDigit = true ∨ c = '.' ∨ c = '/' ∨ c ∈ "default".toList := by
  have htext : c ∈ IPv4.text n → c.isDigit = true ∨ c = '.' ∨ c = '/' ∨ c ∈ "default".toList := by
    intro h
    rw [text_eq, List.mem_append, List.mem_cons] at h
    rcases h with h | rfl | h
    · exact (char_of_mem_addressText h).imp_right Or.inl
    · exact Or.inr (Or.inr (Or.inl rfl))
    · exact Or.inl (isDigit_of_mem_natText h)
  rcases h with h | h
  · exact htext h
  · unfold prefixText at h
    split_ifs at h
    · exact Or.inr (Or.inr (Or.inr h))
    · exact (char_of_mem_addressText h).imp_right Or.inl
    · exact htext h

theorem sharp_of_mem_dst {c : Char} (h : c ∈ IPv4.text n ∨ c ∈ prefixText n) :
    Awk.isSpace c = false ∧ Awk.isBlank c = false ∧ c ≠ '#' := by
  have hword : "default".toList.all (fun c =>
      decide (Awk.isSpace c = false ∧ Awk.isBlank c = false ∧ c ≠ '#')) = true := by decide
  rcases char_of_mem_dst h with hdigit | rfl | rfl | hmem
  · have hspace := isSpace_of_isDigit hdigit
    refine ⟨?_, ?_, ?_⟩
    · simp only [Py.isSpace, Awk.isSpace, Bool.or_eq_false_iff, Bool.and_eq_false_iff,
        decide_eq_false_iff_not] at hspace ⊢
      refine ⟨?_, hspace.1.1.1.1.1.1.1.1.1.1⟩
      rintro rfl
      exact absurd hdigit (by decide)
    · simp only [Awk.isBlank, Bool.or_eq_false_iff, decide_eq_false_iff_not]
      refine ⟨⟨?_, ?_⟩, ?_⟩ <;>
        (rintro rfl; exact absurd hdigit (by decide))
    · rintro rfl
      exact absurd hdigit (by decide)
  · decide
  · decide
  · exact of_decide_eq_true (List.all_eq_true.1 hword c hmem)

theorem text_ne_nil (n : IPv4Network) : IPv4.text n ≠ [] := by
  rw [text_eq]
  simp

theorem isWord_prefixText (n : IPv4Network) : Awk.IsWord (prefixText n) := by
  refine ⟨?_, fun c hc => (sharp_of_mem_dst (Or.inr hc)).2.1⟩
  unfold prefixText
  split_ifs
  · decide
  · exact addressText_ne_nil _
  · exact text_ne_nil n

theorem parse_addressText (hhost : n.prefixlen = 32) : IPv4.parse true (IPv4.addressText n.addr) = some n := by
  have hsplit : splitAt '/' (IPv4.addressText n.addr) = [IPv4.addressText n.addr] := by
    have hjoin : IPv4.addressText n.addr = join '/' [IPv4.addressText n.addr] := by simp [join, List.intercalate]
    conv_lhs => rw [hjoin]
    refine splitAt_join (by simp) fun t ht => ?_
    rw [List.mem_singleton.1 ht]
    exact slash_notMem_addressText _
  have hself := IPv4.ofParts_self true n
  rw [hhost] at hself
  rw [IPv4.parse, hsplit]
  simp only [IPv4.parseAddress_addressText n.addr_lt, Option.bind_some, hself]

/-- **A destination in the list file is read.** -/
theorem ipPrefix_text (n : IPv4Network) : ipPrefix (IPv4.text n) = some n := by
  have hne : IPv4.text n ≠ "default".toList := by
    intro h
    have hmem : '/' ∈ IPv4.text n := by
      rw [text_eq]
      simp
    rw [h] at hmem
    exact absurd hmem (by decide)
  rw [ipPrefix, if_neg hne, IPv4.parse_text]

/-- **A destination that `ip route show` prints is read.** -/
theorem ipPrefix_prefixText (n : IPv4Network) : ipPrefix (prefixText n) = some n := by
  unfold prefixText
  split_ifs with hzero hhost
  · rw [ipPrefix, if_pos rfl, eq_default hzero]
  · have hne : IPv4.addressText n.addr ≠ "default".toList := by
      intro h
      have hmem : 'd' ∈ IPv4.addressText n.addr := by
        rw [h]
        decide
      rcases char_of_mem_addressText hmem with hdigit | hdot
      · exact absurd hdigit (by decide)
      · exact absurd hdot (by decide)
    rw [ipPrefix, if_neg hne, parse_addressText hhost]
  · exact ipPrefix_text n

/-- **The texts agree** but for `default` and for single hosts. -/
theorem prefixText_eq_text_iff : prefixText n = IPv4.text m ↔ n = m ∧ n.prefixlen ≠ 0 ∧ n.prefixlen ≠ 32 := by
  have hslash : '/' ∈ IPv4.text m := by
    rw [text_eq]
    simp
  constructor
  · intro h
    have hnm : n = m := Option.some.inj (by rw [← ipPrefix_prefixText n, h, ipPrefix_text])
    refine ⟨hnm, fun hzero => ?_, fun hhost => ?_⟩
    · rw [prefixText, if_pos hzero] at h
      rw [← h] at hslash
      exact absurd hslash (by decide)
    · rw [prefixText, if_neg (by omega), if_pos hhost] at h
      rw [← h] at hslash
      exact slash_notMem_addressText _ hslash
  · rintro ⟨rfl, hzero, hhost⟩
    rw [prefixText, if_neg hzero, if_neg hhost]

theorem prefixText_eq_default_iff : prefixText n = "default".toList ↔ n.prefixlen = 0 := by
  constructor
  · intro h
    have hn := ipPrefix_prefixText n
    rw [h, ipPrefix, if_pos rfl] at hn
    rw [← Option.some.inj hn]
    rfl
  · intro h
    rw [prefixText, if_pos h]

/-! ### What is shown -/

theorem fields_line (route : Route) : Awk.fields route.line = prefixText route.dst ::
    ((route.gateway.map fun gateway => ["via".toList, IPv4.addressText gateway]).getD [] ++
      ["dev".toList, route.dev.name] ++
      if route.metric = 0 then [] else ["metric".toList, natText route.metric]) := by
  have hnumber : ∀ k, Awk.IsWord (natText k) := by
    refine fun k => ⟨natText_ne_nil k, fun c hc => ?_⟩
    have hdigit := isDigit_of_mem_natText hc
    simp only [Awk.isBlank, Bool.or_eq_false_iff, decide_eq_false_iff_not]
    refine ⟨⟨?_, ?_⟩, ?_⟩ <;>
      (rintro rfl; exact absurd hdigit (by decide))
  have haddress : ∀ a, Awk.IsWord (IPv4.addressText a) := by
    refine fun a => ⟨addressText_ne_nil a, fun c hc => ?_⟩
    simp only [Awk.isBlank, Bool.or_eq_false_iff, decide_eq_false_iff_not]
    refine ⟨⟨?_, ?_⟩, ?_⟩ <;>
      (rintro rfl; rcases char_of_mem_addressText hc with h | h <;> exact absurd h (by decide))
  have hvia : Awk.IsWord "via".toList ∧ Awk.IsWord "dev".toList ∧ Awk.IsWord "metric".toList :=
    ⟨⟨by decide, forall_mem_of_all (by decide)⟩, ⟨by decide, forall_mem_of_all (by decide)⟩,
      ⟨by decide, forall_mem_of_all (by decide)⟩⟩
  refine Awk.fields_join ?_
  rw [List.forall_mem_cons]
  refine ⟨isWord_prefixText _, ?_⟩
  rw [List.forall_mem_append, List.forall_mem_append]
  refine ⟨⟨?_, ?_⟩, ?_⟩
  · cases route.gateway with
    | none => simp
    | some gateway => simpa using ⟨hvia.1, haddress gateway⟩
  · simpa using ⟨hvia.2.1, route.dev.isWord⟩
  · split_ifs
    · simp
    · simpa using ⟨hvia.2.2, hnumber route.metric⟩

end VpnBot.Warp.Routing
