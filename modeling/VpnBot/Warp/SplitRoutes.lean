import VpnBot.Warp.SplitScript

/-!
# What an apply of the split makes of the table

An apply is to leave exactly the listed prefixes on the tunnel, to leave the routes on other devices alone, and
not to delete a prefix that stays; with the marker it is to leave no route on the tunnel.

Each of the three fails for contents of its own (`reconciles_iff`).  With no prefix listed the comparison of the two
lists compares nothing, and every tunnel route stays; a host route is shown without `/32`, so a listed one is deleted
and set again; and `replace` goes by the prefix alone, so a listed prefix takes the place of a route on another
device.

The deletions are counted: each one takes one route of a destination off the tunnel (`countP_execAll_del`).
-/

namespace VpnBot.Warp.Routing

open Py

/-! ### What is promised -/

/-- A route of a destination on the tunnel. -/
def OnTunnel (host : Host) (dst : IPv4Network) (route : Route) : Prop := route.dst = dst ∧ route.dev = host.iface

instance (host : Host) (dst : IPv4Network) : DecidablePred (OnTunnel host dst) :=
  fun _ => inferInstanceAs (Decidable (_ ∧ _))

/-- What an apply with a list promises. -/
structure IsSelective (host : Host) (networks : List IPv4Network) (table : RouteTable)
    (commands : List RouteCommand) : Prop where
  tunnel : ∀ n, n.prefixlen ≠ 0 →
    ((∃ route ∈ (execAll commands table).routes, OnTunnel host n route) ↔ n ∈ networks)
  others : ∀ route : Route, route.dev ≠ host.iface → route.dst ∉ host.endpoint →
    (route ∈ (execAll commands table).routes ↔ route ∈ table.routes)
  kept : ∀ n ∈ networks, n.prefixlen ≠ 0 → (∃ route ∈ table.routes, OnTunnel host n route) →
    .del n host.iface ∉ commands

/-- What an apply promises. -/
def Reconciles (host : Host) (marker : Bool) (networks : List IPv4Network) (table : RouteTable)
    (commands : List RouteCommand) : Prop :=
  if marker then ∀ route ∈ (execAll commands table).routes, route.dev ≠ host.iface
  else IsSelective host networks table commands

/-- The contents of the table that an apply with a list reconciles. -/
structure Reconcilable (host : Host) (networks : List IPv4Network) (table : RouteTable) : Prop where
  stale : ∀ route ∈ (pinned host table).routes, route.dev = host.iface → route.dst.prefixlen ≠ 0 →
    route.dst ∉ networks → (∃ n ∈ networks, n.prefixlen ≠ 0) ∧ route.gateway = none
  others : ∀ route ∈ table.routes, route.dev ≠ host.iface → route.dst ∉ host.endpoint → route.metric = 0 →
    route.dst.prefixlen ≠ 0 → route.dst ∉ networks
  hosts : ∀ route ∈ (pinned host table).routes, route.dev = host.iface → route.gateway = none →
    route.dst ∈ networks → route.dst.prefixlen ≠ 32

/-- The contents of the table that an apply with the marker clears. -/
structure Clearable (host : Host) (table : RouteTable) : Prop where
  direct : ∀ route ∈ table.routes, route.dev = host.iface → route.dst.prefixlen ≠ 0 → route.gateway = none
  default : table.routes.countP (OnTunnel host defaultNetwork) ≤ 1

variable {host : Host} {networks : List IPv4Network} {list : Text} {table : RouteTable} {n : IPv4Network}
  {route : Route}

/-! ### Commands -/

theorem execAll_append (commands commands' : List RouteCommand) (table : RouteTable) :
    execAll (commands ++ commands') table = execAll commands' (execAll commands table) := List.foldl_append

theorem countP_eraseP_self {α : Type} (p : α → Bool) (l : List α) :
    (l.eraseP p).countP p = l.countP p - 1 := by
  induction l with
  | nil => rfl
  | cons a l ih =>
    by_cases ha : p a = true
    · rw [List.eraseP_cons_of_pos ha, List.countP_cons_of_pos ha, Nat.add_sub_cancel]
    · rw [List.eraseP_cons_of_neg ha, List.countP_cons_of_neg ha, List.countP_cons_of_neg ha, ih]

theorem countP_eraseP_of_imp {α : Type} {p q : α → Bool} (h : ∀ a, p a = true → q a = false) (l : List α) :
    (l.eraseP p).countP q = l.countP q := by
  induction l with
  | nil => rfl
  | cons a l ih =>
    by_cases ha : p a = true
    · rw [List.eraseP_cons_of_pos ha, List.countP_cons_of_neg (by rw [h a ha]; exact Bool.false_ne_true)]
    · rw [List.eraseP_cons_of_neg ha, List.countP_cons, List.countP_cons, ih]

theorem countP_del (dst n : IPv4Network) (table : RouteTable) :
    (table.del dst host.iface).routes.countP (OnTunnel host n) =
      table.routes.countP (OnTunnel host n) - if dst = n then 1 else 0 := by
  by_cases heq : dst = n
  · subst heq
    rw [if_pos rfl]
    exact countP_eraseP_self _ _
  · rw [if_neg heq, Nat.sub_zero]
    refine countP_eraseP_of_imp (fun route hroute => ?_) _
    rw [decide_eq_true_eq] at hroute
    rw [decide_eq_false_iff_not]
    rintro ⟨hn, -⟩
    exact heq (hroute.1.symm.trans hn)

/-- **Deletions take as many routes of a destination off the tunnel as there are.** -/
theorem countP_execAll_del (dsts : List IPv4Network) (n : IPv4Network) (table : RouteTable) :
    (execAll (dsts.map fun dst => .del dst host.iface) table).routes.countP (OnTunnel host n) =
      table.routes.countP (OnTunnel host n) - dsts.count n := by
  induction dsts generalizing table with
  | nil => rfl
  | cons dst dsts ih =>
    have hstep : (table.del dst host.iface).routes.countP (OnTunnel host n) =
        table.routes.countP (OnTunnel host n) - if dst = n then 1 else 0 := countP_del dst n table
    rw [List.map_cons, execAll, List.foldl_cons, ← execAll, ih, RouteCommand.exec, hstep, List.count_cons]
    by_cases heq : dst = n
    · rw [if_pos heq, if_pos (by simpa using heq)]
      omega
    · rw [if_neg heq, if_neg (by simpa using heq)]
      omega

/-- Deletions on the tunnel leave other devices alone. -/
theorem mem_execAll_del (hdev : route.dev ≠ host.iface) (dsts : List IPv4Network) (table : RouteTable) :
    route ∈ (execAll (dsts.map fun dst => .del dst host.iface) table).routes ↔ route ∈ table.routes := by
  induction dsts generalizing table with
  | nil => rfl
  | cons dst dsts ih =>
    rw [List.map_cons, execAll, List.foldl_cons, ← execAll, ih, RouteCommand.exec, RouteTable.del]
    refine List.mem_eraseP_of_neg ?_
    rw [decide_eq_true_eq]
    exact fun h => hdev h.2

theorem mem_replace {new : Route} : route ∈ (table.replace new).routes ↔
    route = new ∨ route ∈ table.routes ∧ route.key ≠ new.key := by
  rw [RouteTable.replace, List.mem_append, List.mem_filter, List.mem_singleton, decide_eq_true_eq, or_comm]

theorem mem_execAll_replace (dsts : List IPv4Network) (table : RouteTable) :
    route ∈ (execAll (dsts.map fun dst => .replace (tunnelRoute host dst)) table).routes ↔
      (∃ dst ∈ dsts, route = tunnelRoute host dst) ∨
        route ∈ table.routes ∧ ¬ (route.metric = 0 ∧ route.dst ∈ dsts) := by
  induction dsts generalizing table with
  | nil => simp [execAll]
  | cons dst dsts ih =>
    rw [List.map_cons, execAll, List.foldl_cons, ← execAll, ih, RouteCommand.exec, mem_replace]
    have hkey : route.key = (tunnelRoute host dst).key ↔ route.metric = 0 ∧ route.dst = dst := by
      rw [Route.key, Route.key, Prod.mk.injEq, and_comm]
      rfl
    have hnew : route = tunnelRoute host dst → route.metric = 0 ∧ route.dst = dst := by
      rintro rfl
      exact ⟨rfl, rfl⟩
    have hagain : route = tunnelRoute host dst → route.dst ∈ dsts → ∃ dst ∈ dsts, route = tunnelRoute host dst := by
      rintro rfl hmem
      exact ⟨dst, hmem, rfl⟩
    simp only [ne_eq, hkey, List.mem_cons, exists_eq_or_imp]
    generalize (∃ dst ∈ dsts, route = tunnelRoute host dst) = again at hagain ⊢
    tauto

/-! ### The prefixes that are compared -/

/-- A route that is shown as one of the tunnel. -/
def isShown (host : Host) (route : Route) : Bool :=
  route.dst.prefixlen ≠ 0 && route.gateway = none && route.dev = host.iface

theorem isTunnelLine_line (host : Host) (route : Route) : isTunnelLine host route.line = isShown host route := by
  have hname : (route.dev.name = host.iface.name) ↔ route.dev = host.iface := by
    constructor
    · intro h
      cases hdev : route.dev
      cases hiface : host.iface
      rw [hdev, hiface] at h
      cases h
      rfl
    · exact congrArg Device.name
  rw [isTunnelLine, Awk.field, Awk.field, Awk.field, fields_line, isShown]
  cases hgateway : route.gateway with
  | none =>
    simp only [Option.map_none, Option.getD_none, List.nil_append, List.cons_append, Nat.sub_self,
      List.getD_cons_zero, ne_eq, prefixText_eq_default_iff]
    simp [hname]
  | some gateway =>
    simp only [Option.map_some, Option.getD_some, List.cons_append, Nat.sub_self, List.getD_cons_zero, ne_eq,
      prefixText_eq_default_iff]
    simp

theorem tunnelPrefixes_eq (host : Host) (table : RouteTable) : tunnelPrefixes host table =
    (table.routes.filter (isShown host)).map fun route => prefixText route.dst := by
  rw [tunnelPrefixes, List.filter_map, List.map_map]
  have hshown : (isTunnelLine host ∘ Route.line) = isShown host := by
    funext route
    exact isTunnelLine_line host route
  rw [hshown]
  refine List.map_congr_left fun route _ => ?_
  rw [Function.comp_apply, Awk.field, fields_line]
  rfl

/-- The destinations that are shown for the tunnel, with a text of a class. -/
def shownDsts (host : Host) (p : Text → Bool) (table : RouteTable) : List IPv4Network :=
  (table.routes.filter fun route => isShown host route && p (prefixText route.dst)).map Route.dst

theorem delCommands_eq (p : Text → Bool) (host : Host) (table : RouteTable) :
    delCommands host ((tunnelPrefixes host table).filter p) =
      (shownDsts host p table).map fun dst => .del dst host.iface := by
  have hread : ∀ routes : List Route,
      (routes.map fun route => prefixText route.dst).filterMap ipPrefix = routes.map Route.dst := by
    intro routes
    rw [List.filterMap_map]
    exact List.filterMap_eq_map_iff_forall_eq_some.2 fun route _ => ipPrefix_prefixText route.dst
  have hboth : (fun route => isShown host route && p (prefixText route.dst)) =
      fun route => (p ∘ fun route : Route => prefixText route.dst) route && isShown host route := by
    funext route
    exact Bool.and_comm _ _
  rw [delCommands, tunnelPrefixes_eq, List.filter_map, hread, List.filter_filter, shownDsts, hboth]

theorem replaceCommands_eq (host : Host) {prefixes : List Text} (h : ∀ t ∈ prefixes, ∃ n, t = IPv4.text n) :
    ∃ dsts : List IPv4Network, replaceCommands host prefixes = dsts.map (fun dst => .replace (tunnelRoute host dst)) ∧
      ∀ n, n ∈ dsts ↔ IPv4.text n ∈ prefixes := by
  induction prefixes with
  | nil => exact ⟨[], rfl, fun n => iff_of_false List.not_mem_nil List.not_mem_nil⟩
  | cons t prefixes ih =>
    obtain ⟨⟨n, rfl⟩, hrest⟩ := List.forall_mem_cons.1 h
    obtain ⟨dsts, hcommands, hdsts⟩ := ih hrest
    refine ⟨n :: dsts, ?_, fun m => ?_⟩
    · rw [replaceCommands, ipPrefix_text, hcommands]
      rfl
    · rw [List.mem_cons, List.mem_cons, hdsts, IPv4.text_injective.eq_iff]

/-! ### Counting -/

/-- Where one class lies in another they have as many members in a list exactly when they agree on it. -/
theorem countP_le_countP_iff {α : Type} {p q : α → Bool} (h : ∀ a, q a = true → p a = true) (l : List α) :
    l.countP p ≤ l.countP q ↔ ∀ a ∈ l, p a = true → q a = true := by
  induction l with
  | nil => simp
  | cons a l ih =>
    have hmono : l.countP q ≤ l.countP p := List.countP_mono_left fun a _ => h a
    rw [List.forall_mem_cons, ← ih, List.countP_cons, List.countP_cons]
    by_cases hp : p a = true
    · by_cases hq : q a = true
      · simp [hp, hq]
      · rw [if_pos hp, if_neg hq]
        exact iff_of_false (by omega) fun hall => hq (hall.1 hp)
    · have hq : ¬ q a = true := fun hq => hp (h a hq)
      rw [if_neg hp, if_neg hq]
      simp [hp]

theorem not_exists_onTunnel_iff (dsts : List IPv4Network) (n : IPv4Network) (table : RouteTable) :
    (¬ ∃ route ∈ (execAll (dsts.map fun dst => .del dst host.iface) table).routes, OnTunnel host n route) ↔
      table.routes.countP (OnTunnel host n) ≤ dsts.count n := by
  have hcount : (execAll (dsts.map fun dst => .del dst host.iface) table).routes.countP (OnTunnel host n) =
      table.routes.countP (OnTunnel host n) - dsts.count n := countP_execAll_del dsts n table
  rw [← Nat.sub_eq_zero_iff_le, ← hcount, List.countP_eq_zero]
  simp

theorem mem_shownDsts {p : Text → Bool} : n ∈ shownDsts host p table ↔
    p (prefixText n) = true ∧ n.prefixlen ≠ 0 ∧
      ∃ route ∈ table.routes, OnTunnel host n route ∧ route.gateway = none := by
  simp only [shownDsts, List.mem_map, List.mem_filter, isShown, Bool.and_eq_true, decide_eq_true_eq]
  constructor
  · rintro ⟨route, ⟨hroute, ⟨⟨hzero, hgateway⟩, hdev⟩, hp⟩, rfl⟩
    exact ⟨hp, hzero, route, hroute, ⟨rfl, hdev⟩, hgateway⟩
  · rintro ⟨hp, hzero, route, hroute, ⟨rfl, hdev⟩, hgateway⟩
    exact ⟨route, ⟨hroute, ⟨⟨hzero, hgateway⟩, hdev⟩, hp⟩, rfl⟩

theorem countP_le_count_shownDsts_iff {p : Text → Bool} (hzero : n.prefixlen ≠ 0)
    (hp : p (prefixText n) = true) (table : RouteTable) :
    table.routes.countP (OnTunnel host n) ≤ (shownDsts host p table).count n ↔
      ∀ route ∈ table.routes, OnTunnel host n route → route.gateway = none := by
  have hcount : (shownDsts host p table).count n =
      table.routes.countP fun route => decide (OnTunnel host n route ∧ route.gateway = none) := by
    rw [shownDsts, List.count, List.countP_map, List.countP_filter]
    refine List.countP_congr fun route _ => ?_
    simp only [Function.comp_apply, isShown, Bool.and_eq_true, beq_iff_eq, decide_eq_true_eq]
    constructor
    · rintro ⟨rfl, ⟨⟨-, hgateway⟩, hdev⟩, -⟩
      exact ⟨⟨rfl, hdev⟩, hgateway⟩
    · rintro ⟨⟨rfl, hdev⟩, hgateway⟩
      exact ⟨rfl, ⟨⟨hzero, hgateway⟩, hdev⟩, hp⟩
  rw [hcount, countP_le_countP_iff]
  · refine forall₂_congr fun route _ => ?_
    rw [decide_eq_true_eq, decide_eq_true_eq]
    exact ⟨fun h htunnel => (h htunnel).2, fun h htunnel => ⟨htunnel, h htunnel⟩⟩
  · intro route hroute
    rw [decide_eq_true_eq] at hroute ⊢
    exact hroute.1

/-! ### The marker -/

/-- **With the marker.** -/
theorem forall_direct_iff (host : Host) (table : RouteTable) :
    (∀ route ∈ (execAll (directCommands host table) table).routes, route.dev ≠ host.iface) ↔
      Clearable host table := by
  have hcommands : directCommands host table =
      (shownDsts host (fun _ => true) table ++ [defaultNetwork]).map fun dst => .del dst host.iface := by
    have hdel := delCommands_eq (fun _ => true) host table
    rw [List.filter_true] at hdel
    rw [directCommands, hdel, List.map_append]
    rfl
  have hnone : (∀ route ∈ (execAll (directCommands host table) table).routes, route.dev ≠ host.iface) ↔
      ∀ n, ¬ ∃ route ∈ (execAll (directCommands host table) table).routes, OnTunnel host n route := by
    constructor
    · rintro h n ⟨route, hroute, -, hdev⟩
      exact h route hroute hdev
    · intro h route hroute hdev
      exact h route.dst ⟨route, hroute, rfl, hdev⟩
  have hdefault : (shownDsts host (fun _ => true) table).count defaultNetwork = 0 := by
    rw [List.count_eq_zero, mem_shownDsts]
    exact fun h => h.2.1 rfl
  rw [hnone, hcommands]
  simp only [not_exists_onTunnel_iff, List.count_append]
  constructor
  · intro h
    refine ⟨fun route hroute hdev hzero => ?_, ?_⟩
    · have hcount := h route.dst
      have hne : ¬ defaultNetwork = route.dst := fun heq => hzero (heq ▸ rfl)
      rw [List.count_singleton, if_neg (by simpa using hne), Nat.add_zero,
        countP_le_count_shownDsts_iff hzero rfl] at hcount
      exact hcount route hroute ⟨rfl, hdev⟩
    · have hcount := h defaultNetwork
      rwa [hdefault, List.count_singleton_self, Nat.zero_add] at hcount
  · rintro ⟨hdirect, hone⟩ n
    by_cases hzero : n.prefixlen = 0
    · rw [eq_default hzero, hdefault, List.count_singleton_self, Nat.zero_add]
      exact hone
    · refine le_trans ((countP_le_count_shownDsts_iff hzero rfl table).2 ?_) (Nat.le_add_right _ _)
      rintro route hroute ⟨rfl, hdev⟩
      exact hdirect route hroute hdev hzero

/-! ### The list -/

theorem mem_pinned (hdev : route.dev ≠ host.iface) (hdst : route.dst ∉ host.endpoint) :
    route ∈ (pinned host table).routes ↔ route ∈ table.routes := by
  have hdel : route ∈ (table.del defaultNetwork host.iface).routes ↔ route ∈ table.routes := by
    refine List.mem_eraseP_of_neg ?_
    rw [decide_eq_true_eq]
    exact fun h => hdev h.2
  cases hendpoint : host.endpoint with
  | none =>
    rw [pinned, pinCommands, hendpoint]
    exact hdel
  | some endpoint =>
    have hne : route.dst ≠ endpoint := fun h => hdst (by rw [hendpoint, h]; rfl)
    rw [pinned, pinCommands, hendpoint]
    refine mem_replace.trans ?_
    rw [← hdel]
    constructor
    · rintro (rfl | ⟨hmem, -⟩)
      · exact absurd rfl hne
      · exact hmem
    · exact fun hmem => Or.inr ⟨hmem, fun hkey => hne (congrArg Prod.fst hkey)⟩

theorem mem_of_mem_pinned (h : route ∈ (pinned host table).routes) (hgateway : route.gateway = none) :
    route ∈ table.routes := by
  cases hendpoint : host.endpoint with
  | none =>
    rw [pinned, pinCommands, hendpoint] at h
    exact List.mem_of_mem_eraseP h
  | some endpoint =>
    rw [pinned, pinCommands, hendpoint] at h
    rcases mem_replace.1 h with rfl | ⟨hmem, -⟩
    · cases hgateway
    · exact List.mem_of_mem_eraseP hmem

/-- The destinations that are deleted. -/
def staleDsts (host : Host) (list : Text) (table : RouteTable) : List IPv4Network :=
  if wantList list = [] then [] else shownDsts host (fun t => t ∉ wantList list) (pinned host table)

theorem delCommands_stale (host : Host) (list : Text) (table : RouteTable) :
    delCommands host (stalePrefixes host list (pinned host table)) =
      (staleDsts host list table).map fun dst => .del dst host.iface := by
  rw [stalePrefixes, staleDsts]
  by_cases hnone : wantList list = []
  · rw [if_pos hnone, hnone, Awk.notIn_nil]
    rfl
  · rw [if_neg hnone, Awk.notIn_of_ne_nil hnone, delCommands_eq]

theorem wantList_ne_nil_iff (hlist : Lists list networks) :
    wantList list ≠ [] ↔ ∃ m ∈ networks, m.prefixlen ≠ 0 := by
  constructor
  · intro hne
    obtain ⟨t, ht⟩ := List.exists_mem_of_ne_nil _ hne
    obtain ⟨m, hm, hzero, -⟩ := (mem_wantList hlist).1 ht
    exact ⟨m, hm, hzero⟩
  · rintro ⟨m, hm, hzero⟩
    exact List.ne_nil_of_mem ((mem_wantList hlist).2 ⟨m, hm, hzero, rfl⟩)

theorem prefixText_mem_wantList_iff (hlist : Lists list networks) (hzero : n.prefixlen ≠ 0) :
    prefixText n ∈ wantList list ↔ n ∈ networks ∧ n.prefixlen ≠ 32 := by
  rw [mem_wantList hlist]
  constructor
  · rintro ⟨m, hm, -, htext⟩
    obtain ⟨rfl, -, hhost⟩ := prefixText_eq_text_iff.1 htext
    exact ⟨hm, hhost⟩
  · rintro ⟨hn, hhost⟩
    exact ⟨n, hn, hzero, prefixText_eq_text_iff.2 ⟨rfl, hzero, hhost⟩⟩

theorem mem_staleDsts_iff (hlist : Lists list networks) (hn : n ∈ networks) (hzero : n.prefixlen ≠ 0) :
    n ∈ staleDsts host list table ↔ n.prefixlen = 32 ∧
      ∃ route ∈ (pinned host table).routes, OnTunnel host n route ∧ route.gateway = none := by
  have hne : wantList list ≠ [] := (wantList_ne_nil_iff hlist).2 ⟨n, hn, hzero⟩
  rw [staleDsts, if_neg hne, mem_shownDsts, decide_eq_true_eq, prefixText_mem_wantList_iff hlist hzero]
  simp only [hn, hzero, true_and, ne_eq, not_not, not_false_eq_true]

theorem countP_le_count_staleDsts_iff (hlist : Lists list networks) (hn : n ∉ networks) (hzero : n.prefixlen ≠ 0) :
    (pinned host table).routes.countP (OnTunnel host n) ≤ (staleDsts host list table).count n ↔
      ∀ route ∈ (pinned host table).routes, OnTunnel host n route →
        (∃ m ∈ networks, m.prefixlen ≠ 0) ∧ route.gateway = none := by
  rw [staleDsts, ← wantList_ne_nil_iff hlist]
  by_cases hnone : wantList list = []
  · rw [if_pos hnone, List.count_nil, Nat.le_zero, List.countP_eq_zero]
    refine forall₂_congr fun route _ => ?_
    rw [decide_eq_true_eq]
    exact ⟨fun h htunnel => absurd htunnel h, fun h htunnel => (h htunnel).1 hnone⟩
  · have htext : prefixText n ∉ wantList list := by
      rw [prefixText_mem_wantList_iff hlist hzero]
      exact fun h => hn h.1
    rw [if_neg hnone, countP_le_count_shownDsts_iff hzero (decide_eq_true htext)]
    simp only [ne_eq, hnone, not_false_eq_true, true_and]

theorem mem_execAll_selective (hlist : Lists list networks) (route : Route) :
    route ∈ (execAll (selectiveCommands host list table) table).routes ↔
      (∃ m ∈ networks, m.prefixlen ≠ 0 ∧ route = tunnelRoute host m) ∨
        route ∈ (execAll ((staleDsts host list table).map fun dst => .del dst host.iface)
          (pinned host table)).routes ∧
        ¬ (route.metric = 0 ∧ route.dst ∈ networks ∧ route.dst.prefixlen ≠ 0) := by
  have hwant : ∀ t ∈ wantList list, ∃ n, t = IPv4.text n := by
    intro t ht
    obtain ⟨n, -, -, htext⟩ := (mem_wantList hlist).1 ht
    exact ⟨n, htext⟩
  obtain ⟨dsts, hcommands, hdsts⟩ := replaceCommands_eq host hwant
  have hmem : ∀ n, n ∈ dsts ↔ n ∈ networks ∧ n.prefixlen ≠ 0 := by
    intro n
    rw [hdsts, mem_wantList hlist]
    constructor
    · rintro ⟨m, hm, hzero, htext⟩
      obtain rfl := IPv4.text_injective htext
      exact ⟨hm, hzero⟩
    · rintro ⟨hn, hzero⟩
      exact ⟨n, hn, hzero, rfl⟩
  rw [selectiveCommands, execAll_append, execAll_append, ← pinned, delCommands_stale, hcommands,
    mem_execAll_replace]
  simp only [hmem, and_assoc]

theorem del_mem_selectiveCommands_iff (hzero : n.prefixlen ≠ 0) :
    .del n host.iface ∈ selectiveCommands host list table ↔ n ∈ staleDsts host list table := by
  have hpin : RouteCommand.del n host.iface ∉ pinCommands host := by
    rw [pinCommands, List.mem_cons, not_or]
    constructor
    · rintro h
      injection h with hdst
      exact hzero (hdst ▸ rfl)
    · cases host.endpoint <;> simp
  have hreplace : ∀ prefixes, RouteCommand.del n host.iface ∉ replaceCommands host prefixes := by
    intro prefixes
    induction prefixes with
    | nil => exact List.not_mem_nil
    | cons t prefixes ih =>
      rw [replaceCommands]
      cases ipPrefix t with
      | none => exact List.not_mem_nil
      | some dst =>
        rw [List.mem_cons, not_or]
        exact ⟨RouteCommand.noConfusion, ih⟩
  rw [selectiveCommands, List.mem_append, List.mem_append, delCommands_stale, List.mem_map]
  constructor
  · rintro ((h | ⟨dst, hdst, heq⟩) | h)
    · exact absurd h hpin
    · injection heq with hn
      exact hn ▸ hdst
    · exact absurd h (hreplace _)
  · exact fun h => Or.inl (Or.inr ⟨n, h, rfl⟩)

/-- **With a list.** -/
theorem isSelective_iff (host : Host) (table : RouteTable) (hlist : Lists list networks) :
    IsSelective host networks table (selectiveCommands host list table) ↔ Reconcilable host networks table := by
  have htunnel : ∀ n, n.prefixlen ≠ 0 → n ∉ networks →
      ((∃ route ∈ (execAll (selectiveCommands host list table) table).routes, OnTunnel host n route) ↔
        ¬ (pinned host table).routes.countP (OnTunnel host n) ≤ (staleDsts host list table).count n) := by
    intro n hzero hn
    rw [← not_exists_onTunnel_iff, not_not]
    refine exists_congr fun route => ?_
    rw [mem_execAll_selective hlist]
    constructor
    · rintro ⟨⟨m, hm, -, rfl⟩ | ⟨hroute, -⟩, htunnel⟩
      · exact absurd (htunnel.1 ▸ hm) hn
      · exact ⟨hroute, htunnel⟩
    · rintro ⟨hroute, htunnel⟩
      exact ⟨Or.inr ⟨hroute, fun h => hn (htunnel.1 ▸ h.2.1)⟩, htunnel⟩
  have hother : ∀ route : Route, route.dev ≠ host.iface → route.dst ∉ host.endpoint →
      (route ∈ (execAll (selectiveCommands host list table) table).routes ↔ route ∈ table.routes ∧
        ¬ (route.metric = 0 ∧ route.dst ∈ networks ∧ route.dst.prefixlen ≠ 0)) := by
    intro route hdev hdst
    rw [mem_execAll_selective hlist, mem_execAll_del hdev, mem_pinned hdev hdst]
    constructor
    · rintro (⟨m, -, -, rfl⟩ | h)
      · exact absurd rfl hdev
      · exact h
    · exact Or.inr
  constructor
  · intro h
    refine ⟨fun route hroute hdev hzero hn => ?_, fun route hroute hdev hdst hmetric hzero hn => ?_,
      fun route hroute hdev hgateway hn hhost => ?_⟩
    · have hgone := mt (h.tunnel route.dst hzero).1 hn
      rw [htunnel _ hzero hn, not_not, countP_le_count_staleDsts_iff hlist hn hzero] at hgone
      exact hgone route hroute ⟨rfl, hdev⟩
    · have hkept := (h.others route hdev hdst).2 hroute
      rw [hother route hdev hdst] at hkept
      exact hkept.2 ⟨hmetric, hn, hzero⟩
    · have hzero : route.dst.prefixlen ≠ 0 := by omega
      have hbefore : ∃ other ∈ table.routes, OnTunnel host route.dst other :=
        ⟨route, mem_of_mem_pinned hroute hgateway, rfl, hdev⟩
      have hkept := h.kept route.dst hn hzero hbefore
      rw [del_mem_selectiveCommands_iff hzero, mem_staleDsts_iff hlist hn hzero] at hkept
      exact hkept ⟨hhost, route, hroute, ⟨rfl, hdev⟩, hgateway⟩
  · intro h
    refine ⟨fun n hzero => ?_, fun route hdev hdst => ?_, fun n hn hzero hbefore => ?_⟩
    · by_cases hn : n ∈ networks
      · refine iff_of_true ⟨tunnelRoute host n, ?_, rfl, rfl⟩ hn
        exact (mem_execAll_selective hlist _).2 (Or.inl ⟨n, hn, hzero, rfl⟩)
      · refine iff_of_false ?_ hn
        rw [htunnel n hzero hn, not_not, countP_le_count_staleDsts_iff hlist hn hzero]
        rintro route hroute ⟨rfl, hdev⟩
        exact h.stale route hroute hdev hzero hn
    · rw [hother route hdev hdst]
      constructor
      · exact fun hroute => hroute.1
      · intro hroute
        exact ⟨hroute, fun hset => h.others route hroute hdev hdst hset.1 hset.2.2 hset.2.1⟩
    · rw [del_mem_selectiveCommands_iff hzero, mem_staleDsts_iff hlist hn hzero]
      rintro ⟨hhost, route, hroute, ⟨rfl, hdev⟩, hgateway⟩
      exact h.hosts route hroute hdev hgateway hn hhost

/-- **An apply keeps its promises for these contents of the table**, and only for them. -/
theorem reconciles_iff (host : Host) (marker : Bool) (list : Text) (networks : List IPv4Network)
    (table : RouteTable) (hlist : Lists list networks) (hne : list ≠ []) :
    Reconciles host marker networks table (applyCommands host marker list table) ↔
      if marker then Clearable host table else Reconcilable host networks table := by
  cases marker with
  | true => exact forall_direct_iff host table
  | false =>
    have hcommands : applyCommands host false list table = selectiveCommands host list table := if_neg hne
    rw [hcommands]
    exact isSelective_iff host table hlist

/-! ### Lists that fail, and one that does not -/

theorem isWord_outWarp : Awk.IsWord "out-warp".toList := ⟨by decide, forall_mem_of_all (by decide)⟩

theorem isWord_eth0 : Awk.IsWord "eth0".toList := ⟨by decide, forall_mem_of_all (by decide)⟩

theorem no_endpoint : ∀ n ∈ (none : Option IPv4Network), n.prefixlen = 32 := by
  intro n h
  cases h

/-- A host whose tunnel has no endpoint. -/
def warpHost : Host := ⟨⟨"out-warp".toList, isWord_outWarp⟩, ⟨"eth0".toList, isWord_eth0⟩, 0x0A000001, none, no_endpoint⟩

theorem dvd_ten : 2 ^ (32 - 8) ∣ 0x0A000000 := by decide

theorem ten_lt : 0x0A000000 < 2 ^ 32 := by decide

theorem eight_le : 8 ≤ 32 := by decide

/-- `10.0.0.0/8`. -/
def ten : IPv4Network := ⟨0x0A000000, 8, eight_le, dvd_ten, ten_lt⟩

theorem dvd_quad : 2 ^ (32 - 32) ∣ 0x01010101 := one_dvd _

theorem quad_lt : 0x01010101 < 2 ^ 32 := by decide

/-- `1.1.1.1/32`. -/
def quad : IPv4Network := ⟨0x01010101, 32, le_rfl, dvd_quad, quad_lt⟩

/-- A table with one route, on the tunnel. -/
def tableOf (dst : IPv4Network) : RouteTable := ⟨[tunnelRoute warpHost dst], List.nodup_singleton _⟩

theorem lists_comment : Lists "# nothing".toList [] :=
  ⟨[⟨[], none, [], some " nothing".toList, rfl⟩], by decide, rfl⟩

theorem lists_text (n : IPv4Network) (h : '\n' ∉ IPv4.text n) : Lists (IPv4.text n) [n] := by
  refine ⟨[⟨[], some n, [], none, rfl⟩], ?_, rfl⟩
  have hsplit := splitAt_join (c := '\n') (l := [IPv4.text n]) (by simp) (by simpa using h)
  simpa [join, List.intercalate, ListLine.text] using hsplit

/-- A file with a comment alone leaves its route on the tunnel, and a host route that stays is deleted. -/
theorem not_reconciles : (Lists "# nothing".toList [] ∧
    ¬ Reconciles warpHost false [] (tableOf ten)
      (applyCommands warpHost false "# nothing".toList (tableOf ten))) ∧
    Lists (IPv4.text quad) [quad] ∧
    ¬ Reconciles warpHost false [quad] (tableOf quad)
      (applyCommands warpHost false (IPv4.text quad) (tableOf quad)) := by
  have hquad : Lists (IPv4.text quad) [quad] := lists_text quad (by decide)
  refine ⟨⟨lists_comment, fun h => ?_⟩, hquad, fun h => ?_⟩
  · have hten := ((isSelective_iff warpHost (tableOf ten) lists_comment).1 h).stale (tunnelRoute warpHost ten)
      (by decide +kernel) rfl (by decide) List.not_mem_nil
    obtain ⟨⟨n, hn, -⟩, -⟩ := hten
    cases hn
  · have hhost := ((isSelective_iff warpHost (tableOf quad) hquad).1 h).hosts (tunnelRoute warpHost quad)
      (by decide +kernel) rfl rfl (List.mem_singleton_self _)
    exact hhost rfl

/-- A prefix that stays, with the marker away. -/
theorem reconciles_ten : Reconciles warpHost false [ten] (tableOf ten)
    (applyCommands warpHost false (IPv4.text ten) (tableOf ten)) := by
  refine (reconciles_iff warpHost false (IPv4.text ten) [ten] (tableOf ten) (lists_text ten (by decide))
    (by decide)).2 ?_
  refine ⟨by decide +kernel, by decide +kernel, by decide +kernel⟩

end VpnBot.Warp.Routing
