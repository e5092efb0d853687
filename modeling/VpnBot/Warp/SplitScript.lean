import VpnBot.Python.Sorting
import VpnBot.Warp.Iproute

/-!
# The routes that `vpn-bot-warp-split apply` sets

The part of the script that changes table T.  Without the marker it drops the default route of the tunnel, pins
the endpoint to the uplink, deletes the tunnel's routes that are not listed, and sets the listed ones; the two
lists of prefixes are texts, one out of the list file and one printed by `ip route show`.  With the marker it
deletes the tunnel's routes.

A command that finds no route to delete changes nothing: its failure is swallowed.
-/

namespace VpnBot.Warp.Routing

open Py

/-- What the script finds out about the host before it branches. -/
structure Host where
  iface : Device
  wanDev : Device
  gateway : ℕ
  endpoint : Option IPv4Network
  single : ∀ n ∈ endpoint, n.prefixlen = 32

/-- A command to `ip route`. -/
inductive RouteCommand where
  | del (dst : IPv4Network) (dev : Device)
  | replace (route : Route)
  deriving DecidableEq

def RouteCommand.exec (table : RouteTable) : RouteCommand → RouteTable
  | .del dst dev => table.del dst dev
  | .replace route => table.replace route

/-- Commands one after the other. -/
def execAll (commands : List RouteCommand) (table : RouteTable) : RouteTable :=
  commands.foldl RouteCommand.exec table

/-! ### The two lists of prefixes -/

/-- `sub(/#.*/, ""); gsub(/[[:space:]]/, "")`. -/
def wantLine (line : Text) : Text := (line.takeWhile (· ≠ '#')).filter (!Awk.isSpace ·)

/-- `want_list`. -/
def wantList (list : Text) : List Text :=
  fromKeys (((Awk.records list).map wantLine).filter fun line =>
    !line.isEmpty && line ≠ "0.0.0.0/0".toList && line ≠ "::/0".toList)

/-- `$1!="default" && $2=="dev" && $3==dev`. -/
def isTunnelLine (host : Host) (line : Text) : Bool :=
  Awk.field 1 line ≠ "default".toList && Awk.field 2 line = "dev".toList && Awk.field 3 line = host.iface.name

/-- The first fields of the lines that are shown for the tunnel. -/
def tunnelPrefixes (host : Host) (table : RouteTable) : List Text :=
  ((table.routes.map Route.line).filter (isTunnelLine host)).map (Awk.field 1)

/-- The prefixes in `stale`. -/
def stalePrefixes (host : Host) (list : Text) (table : RouteTable) : List Text :=
  Awk.notIn (wantList list) (tunnelPrefixes host table)

/-! ### The commands -/

def tunnelRoute (host : Host) (dst : IPv4Network) : Route := ⟨dst, none, host.iface, 0⟩

/-- The anti-loop route of the endpoint. -/
def pinRoute (host : Host) (endpoint : IPv4Network) : Route := ⟨endpoint, some host.gateway, host.wanDev, 0⟩

/-- `ip -force -batch -` on lines `route del`: a line that cannot be read is skipped. -/
def delCommands (host : Host) (prefixes : List Text) : List RouteCommand :=
  (prefixes.filterMap ipPrefix).map fun dst => .del dst host.iface

/-- `ip -batch -` on lines `route replace`: it ends at a line that cannot be read. -/
def replaceCommands (host : Host) : List Text → List RouteCommand
  | [] => []
  | t :: prefixes =>
    match ipPrefix t with
    | none => []
    | some dst => .replace (tunnelRoute host dst) :: replaceCommands host prefixes

/-- What comes before the two lists are compared. -/
def pinCommands (host : Host) : List RouteCommand :=
  .del defaultNetwork host.iface :: (host.endpoint.map fun endpoint => .replace (pinRoute host endpoint)).toList

/-- The table with the endpoint pinned. -/
def pinned (host : Host) (table : RouteTable) : RouteTable := execAll (pinCommands host) table

/-- The commands of `apply` on a list. -/
def selectiveCommands (host : Host) (list : Text) (table : RouteTable) : List RouteCommand :=
  pinCommands host ++ delCommands host (stalePrefixes host list (pinned host table)) ++
    replaceCommands host (wantList list)

/-- The commands of `apply` with the marker. -/
def directCommands (host : Host) (table : RouteTable) : List RouteCommand :=
  delCommands host (tunnelPrefixes host table) ++ [.del defaultNetwork host.iface]

/-- The commands of `apply`; an empty list file ends it. -/
def applyCommands (host : Host) (marker : Bool) (list : Text) (table : RouteTable) : List RouteCommand :=
  if marker then directCommands host table
  else if list = [] then []
  else selectiveCommands host list table

/-! ### The list file -/

/-- A line of the list file: a prefix or none, with white space around it, and a comment or none. -/
structure ListLine where
  before : Text
  network : Option IPv4Network
  after : Text
  comment : Option Text
  blank : (before ++ after).all Awk.isSpace = true

def ListLine.text (line : ListLine) : Text :=
  line.before ++ (line.network.map IPv4.text).getD [] ++ line.after ++
    (line.comment.map fun comment => '#' :: comment).getD []

/-- The list file holds these prefixes. -/
def Lists (list : Text) (networks : List IPv4Network) : Prop :=
  ∃ lines : List ListLine, splitAt '\n' list = lines.map ListLine.text ∧ lines.filterMap (·.network) = networks

variable {host : Host} {networks : List IPv4Network} {list : Text} {n : IPv4Network}

theorem filter_text (n : IPv4Network) : (IPv4.text n).filter (!Awk.isSpace ·) = IPv4.text n := by
  rw [List.filter_eq_self]
  intro c hc
  rw [(sharp_of_mem_dst (Or.inl hc)).1]
  rfl

theorem hash_notMem_text (n : IPv4Network) : '#' ∉ IPv4.text n := fun h =>
  (sharp_of_mem_dst (Or.inl h)).2.2 rfl

theorem wantLine_text (line : ListLine) : wantLine line.text = (line.network.map IPv4.text).getD [] := by
  obtain ⟨before, network, after, comment, hblank⟩ := line
  have hspace : ∀ c ∈ before ++ after, Awk.isSpace c = true := List.all_eq_true.1 hblank
  have hsharp : ∀ {t : Text}, (∀ c ∈ t, Awk.isSpace c = true) → '#' ∉ t := fun ht hmem =>
    absurd (ht _ hmem) (by decide)
  have hgone : ∀ {t : Text}, (∀ c ∈ t, Awk.isSpace c = true) → t.filter (!Awk.isSpace ·) = [] := by
    intro t ht
    rw [List.filter_eq_nil_iff]
    intro c hc
    rw [ht c hc]
    exact Bool.false_ne_true
  have hbefore : ∀ c ∈ before, Awk.isSpace c = true := fun c hc => hspace c (List.mem_append_left _ hc)
  have hafter : ∀ c ∈ after, Awk.isSpace c = true := fun c hc => hspace c (List.mem_append_right _ hc)
  have hword : '#' ∉ (network.map IPv4.text).getD [] ∧ ((network.map IPv4.text).getD []).filter
      (!Awk.isSpace ·) = (network.map IPv4.text).getD [] := by
    cases network with
    | none => exact ⟨List.not_mem_nil, rfl⟩
    | some n => exact ⟨hash_notMem_text n, filter_text n⟩
  have hfront : '#' ∉ before ++ (network.map IPv4.text).getD [] ++ after := by
    rw [List.mem_append, List.mem_append, not_or, not_or]
    exact ⟨⟨hsharp hbefore, hword.1⟩, hsharp hafter⟩
  have hcut : (before ++ (network.map IPv4.text).getD [] ++ after ++
      (comment.map fun comment => '#' :: comment).getD []).takeWhile (· ≠ '#') =
        before ++ (network.map IPv4.text).getD [] ++ after := by
    have hall : ∀ c ∈ before ++ (network.map IPv4.text).getD [] ++ after, decide (c ≠ '#') = true := by
      intro c hc
      rw [decide_eq_true_eq]
      rintro rfl
      exact hfront hc
    rw [List.takeWhile_append_of_pos hall]
    cases comment with
    | none => simp
    | some comment => simp
  rw [ListLine.text, wantLine, hcut, List.filter_append, List.filter_append, hgone hbefore, hgone hafter, hword.2,
    List.nil_append, List.append_nil]

theorem mem_dropEmptyLast {l : Text} (hl : l ≠ []) {ls : List Text} : l ∈ dropEmptyLast ls ↔ l ∈ ls := by
  induction ls with
  | nil => rfl
  | cons a ls ih =>
    cases ls with
    | nil =>
      rw [dropEmptyLast]
      split_ifs with hnil
      · rw [hnil, List.mem_singleton]
        exact iff_of_false List.not_mem_nil hl
      · rfl
    | cons b ls => rw [dropEmptyLast, List.mem_cons, ih, ← List.mem_cons]

theorem text_eq_default_iff : IPv4.text n = "0.0.0.0/0".toList ↔ n.prefixlen = 0 := by
  have hzero : IPv4.text defaultNetwork = "0.0.0.0/0".toList := by decide
  constructor
  · intro h
    rw [IPv4.text_injective (h.trans hzero.symm)]
    rfl
  · intro h
    rw [eq_default h, hzero]

theorem text_ne_ipv6 (n : IPv4Network) : IPv4.text n ≠ "::/0".toList := by
  intro h
  have hmem : ':' ∈ IPv4.text n := by
    rw [h]
    decide
  rcases char_of_mem_dst (Or.inl hmem) with hdigit | hdot | hslash | hword
  · exact absurd hdigit (by decide)
  · exact absurd hdot (by decide)
  · exact absurd hslash (by decide)
  · exact absurd hword (by decide)

/-- **`want_list` gives the prefixes of the file**, but for the default route. -/
theorem mem_wantList (hlist : Lists list networks) {t : Text} :
    t ∈ wantList list ↔ ∃ n ∈ networks, n.prefixlen ≠ 0 ∧ t = IPv4.text n := by
  obtain ⟨lines, hsplit, rfl⟩ := hlist
  have hrecords : t ≠ [] → ((∃ record ∈ Awk.records list, wantLine record = t) ↔
      ∃ n ∈ lines.filterMap (·.network), t = IPv4.text n) := by
    intro ht
    constructor
    · rintro ⟨record, hrecord, rfl⟩
      have hne : record ≠ [] := by
        rintro rfl
        exact ht rfl
      rw [Awk.records, mem_dropEmptyLast hne, hsplit] at hrecord
      obtain ⟨line, hline, rfl⟩ := List.mem_map.1 hrecord
      rw [wantLine_text] at ht ⊢
      cases hnetwork : line.network with
      | none =>
        rw [hnetwork] at ht
        exact absurd rfl ht
      | some n => exact ⟨n, List.mem_filterMap.2 ⟨line, hline, hnetwork⟩, rfl⟩
    · rintro ⟨n, hn, rfl⟩
      obtain ⟨line, hline, hnetwork⟩ := List.mem_filterMap.1 hn
      have hwant : wantLine line.text = IPv4.text n := by
        rw [wantLine_text, hnetwork]
        rfl
      have hne : line.text ≠ [] := by
        intro hnil
        rw [hnil] at hwant
        exact ht hwant.symm
      refine ⟨line.text, ?_, hwant⟩
      rw [Awk.records, mem_dropEmptyLast hne, hsplit]
      exact List.mem_map_of_mem hline
  rw [wantList, mem_fromKeys, List.mem_filter, List.mem_map]
  constructor
  · rintro ⟨hrecord, hkept⟩
    simp only [Bool.and_eq_true, Bool.not_eq_true', List.isEmpty_eq_false_iff, decide_eq_true_eq] at hkept
    obtain ⟨n, hn, rfl⟩ := (hrecords hkept.1.1).1 hrecord
    exact ⟨n, hn, fun hzero => hkept.1.2 (text_eq_default_iff.2 hzero), rfl⟩
  · rintro ⟨n, hn, hzero, rfl⟩
    refine ⟨(hrecords (text_ne_nil n)).2 ⟨n, hn, rfl⟩, ?_⟩
    simp only [Bool.and_eq_true, Bool.not_eq_true', List.isEmpty_eq_false_iff, decide_eq_true_eq]
    exact ⟨⟨text_ne_nil n, fun h => hzero (text_eq_default_iff.1 h)⟩, text_ne_ipv6 n⟩

end VpnBot.Warp.Routing
