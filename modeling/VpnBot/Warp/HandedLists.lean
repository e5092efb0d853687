import VpnBot.System.Run
import VpnBot.Warp.SplitManager

/-!
# The lists that the manager hands to the apply helper

`WarpSplitManager` of `src/warp/split_manager.py` over a whole run: the three calls that apply a list, the
probes of the endpoint, by these calls and by others, and writes of the list file from outside.  A call
reads the file, probes, checks the whole list against the guards and hands it over without a pause between;
when the helper fails, it hands over the content that it has read.

`checkList_eq_ok_iff` says what the check of a list means, and `lists_safe` that every list which is handed
over has passed it against the last endpoint that any probe has found.  `not_lists_safe` hands over an old content that does not pass.
-/

namespace VpnBot.Warp

open Py Py.Network Sys

/-! ### The probe -/

/-- `_parse_endpoint`: the address of the first line that names an endpoint. -/
def parseEndpoint (stdout : Text) : Option ℕ :=
  ((splitlines stdout).find? fun raw => startsWith "endpoint:".toList (strip raw)).bind fun raw =>
    let value := strip ((splitOnce ':' (strip raw)).elim [] Prod.snd)
    IPv4.parseAddress (strip (beforeLast ':' value))

/-- A run of the status helper. -/
inductive ProbeRun
  | raised
  | exited (returncode : ℤ) (stdout : Text)

/-- The endpoint that a probe finds. -/
def ProbeRun.found : ProbeRun → Option ℕ
  | .raised => none
  | .exited returncode stdout => if returncode ≠ 0 then none else parseEndpoint stdout

/-- The last endpoint that was found; the last probe comes first. -/
def lastEndpoint (probes : List ProbeRun) : Option ℕ := probes.findSome? ProbeRun.found

/-! ### The check -/

/-- The network may be routed: it is not too wide, and no guard lies in it or around it. -/
structure SafeNetwork (manager : SplitManager) (host : Host) (endpoint : Option ℕ) (n : IPv4Network) :
    Prop where
  narrow : n.prefixlen ≠ 0 ∧ manager.minPrefixlen ≤ n.prefixlen
  static : ∀ guard ∈ STATIC_GUARDS, Disjoint n.addresses guard.1.addresses
  awg : Disjoint n.addresses manager.awgNetwork.addresses
  wan : ∀ w, host.wan = some w → Disjoint n.addresses w.1.addresses
  gateway : ∀ g, host.gateway = some g → g ∉ n.addresses
  endpoint : ∀ e, endpoint = some e → e ∉ n.addresses

/-- The list is not too long, and every entry is blank or a network that may be routed. -/
structure SafeList (manager : SplitManager) (host : Host) (endpoint : Option ℕ) (l : List Text) :
    Prop where
  short : l.length ≤ manager.maxPrefixes
  entries : ∀ raw ∈ l, (strip raw).isEmpty ∨
    ∃ n, ipNetwork (strip raw) = some n ∧ SafeNetwork manager host endpoint n

/-- The guard around a single address keeps a network off that address. -/
theorem disjoint_hostNetwork {n : IPv4Network} {a : ℕ} :
    (∀ g, hostNetwork a = some g → Disjoint n.addresses g.addresses) ↔ a ∉ n.addresses := by
  by_cases ha : a < 2 ^ 32
  · have hhost : hostNetwork a = some (Network.around a 32 ha le_rfl) := by
      rw [hostNetwork, IPv4.ofParts, dif_pos ⟨ha, le_rfl⟩]
      rfl
    have hmem := mem_around a 32 ha le_rfl
    have hsingle : ∀ b ∈ (Network.around a 32 ha le_rfl : IPv4Network).addresses, b = a := by
      intro b hb
      have hsize : (Network.around a 32 ha le_rfl : IPv4Network).numAddresses = 1 := rfl
      rw [mem_addresses, hsize] at hb hmem
      omega
    rw [hhost]
    constructor
    · intro h hin
      exact Set.disjoint_left.1 (h _ rfl) hin hmem
    · rintro hnot g hg
      cases hg
      refine Set.disjoint_left.2 fun b hbn hb => hnot ?_
      rwa [← hsingle b hb]
  · have hhost : hostNetwork a = none := by
      rw [hostNetwork, IPv4.ofParts, dif_neg fun h => ha h.1]
    rw [hhost]
    refine iff_of_true (fun _ h => by cases h) fun hin => ha ?_
    have hle := n.addr_add_le
    rw [mem_addresses] at hin
    omega

theorem disjoint_buildGuards_iff {manager : SplitManager} {host : Host} {endpoint : Option ℕ}
    {n : IPv4Network} :
    (∀ guard ∈ buildGuards manager host endpoint, Disjoint n.addresses guard.1.addresses) ↔
      (∀ guard ∈ STATIC_GUARDS, Disjoint n.addresses guard.1.addresses) ∧
        Disjoint n.addresses manager.awgNetwork.addresses ∧
          (∀ w, host.wan = some w → Disjoint n.addresses w.1.addresses) ∧
            (∀ g, host.gateway = some g → g ∉ n.addresses) ∧
              ∀ e, endpoint = some e → e ∉ n.addresses := by
  have haddress : ∀ (address : Option ℕ) (reason : IPv4Network → Text),
      (∀ guard ∈ ((address.bind hostNetwork).map fun g => (g, reason g)).toList,
        Disjoint n.addresses guard.1.addresses) ↔ ∀ a, address = some a → a ∉ n.addresses := by
    intro address reason
    cases address with
    | none => exact iff_of_true nofun nofun
    | some a =>
      rw [Option.bind_some]
      simp only [Option.mem_toList, Option.map_eq_some_iff, Option.some.injEq,
        forall_eq']
      rw [← disjoint_hostNetwork]
      constructor
      · exact fun h g hg => h (g, reason g) ⟨g, hg, rfl⟩
      · rintro h guard ⟨g, hg, rfl⟩
        exact h g hg
  have hwan : ∀ reason : IPv4Network × Text → Text,
      (∀ guard ∈ (host.wan.map fun w => (w.1, reason w)).toList,
        Disjoint n.addresses guard.1.addresses) ↔
          ∀ w, host.wan = some w → Disjoint n.addresses w.1.addresses := by
    intro reason
    cases host.wan with
    | none => exact iff_of_true nofun nofun
    | some w => simp
  unfold buildGuards
  simp only [List.forall_mem_append, List.forall_mem_singleton, haddress, hwan]
  tauto

theorem checkEntry_eq_ok_iff {manager : SplitManager} {host : Host} {endpoint : Option ℕ} {raw : Text} :
    checkEntry manager (buildGuards manager host endpoint) raw = .ok () ↔
      (strip raw).isEmpty ∨
        ∃ n, ipNetwork (strip raw) = some n ∧ SafeNetwork manager host endpoint n := by
  unfold checkEntry
  dsimp only
  by_cases hblank : (strip raw).isEmpty
  · rw [if_pos hblank]
    exact iff_of_true rfl (Or.inl hblank)
  rw [if_neg hblank, or_iff_right hblank]
  cases hnet : ipNetwork (strip raw) with
  | none => exact iff_of_false nofun nofun
  | some n =>
    simp only [Option.some.injEq, exists_eq_left']
    by_cases hzero : n.prefixlen = 0
    · rw [if_pos hzero]
      exact iff_of_false nofun fun h => h.narrow.1 hzero
    by_cases hwide : n.prefixlen < manager.minPrefixlen
    · rw [if_neg hzero, if_pos hwide]
      exact iff_of_false nofun fun h => not_lt.2 h.narrow.2 hwide
    rw [if_neg hzero, if_neg hwide]
    have hfind : (buildGuards manager host endpoint).find? (fun g => n.overlaps g.1) = none ↔
        ∀ guard ∈ buildGuards manager host endpoint, Disjoint n.addresses guard.1.addresses := by
      simp only [List.find?_eq_none, overlaps_iff, not_not]
    cases hguard : (buildGuards manager host endpoint).find? fun g => n.overlaps g.1 with
    | some g =>
      refine iff_of_false nofun fun h => ?_
      have hnone := hfind.2 (disjoint_buildGuards_iff.2 ⟨h.static, h.awg, h.wan, h.gateway, h.endpoint⟩)
      rw [hguard] at hnone
      cases hnone
    | none =>
      obtain ⟨hstatic, hawg, hwan, hgateway, hendpoint⟩ := disjoint_buildGuards_iff.1 (hfind.1 hguard)
      exact iff_of_true rfl ⟨⟨hzero, not_lt.1 hwide⟩, hstatic, hawg, hwan, hgateway, hendpoint⟩

/-- **The check passes exactly the safe lists.** -/
theorem checkList_eq_ok_iff {manager : SplitManager} {host : Host} {endpoint : Option ℕ}
    {l : List Text} : checkList manager (buildGuards manager host endpoint) l = .ok () ↔
      SafeList manager host endpoint l := by
  rw [checkList]
  split_ifs with hlong
  · exact ⟨nofun, fun h => absurd h.short (not_le.2 hlong)⟩
  · rcases forM_checkEntry manager (buildGuards manager host endpoint) l with
      ⟨hloop, hall⟩ | ⟨raw, hraw, e, he, hloop⟩
    · exact ⟨fun _ => ⟨not_lt.1 hlong, fun raw hraw => checkEntry_eq_ok_iff.1 (hall raw hraw)⟩,
        fun _ => hloop⟩
    · rw [hloop]
      refine ⟨nofun, fun h => ?_⟩
      rw [checkEntry_eq_ok_iff.2 (h.entries raw hraw)] at he
      cases he

/-! ### The manager -/

/-- The calls that apply a list; a computed list counts from when it is computed, under the lock. -/
inductive WritePath
  | applyList (cidrList : List Text)
  | applyComputed (cidrList : List Text) (force : Bool)
  | reapply

/-- Where the apply of a call waits: for the probe of its check, for the helper, or for the helper on the
old content. -/
inductive ManagerPc
  | idle
  | checking (cidrList : List Text) (force : Bool) (previous : Option Text)
  | writing (cidrList : List Text) (previous : Option Text)
  | restoring (e : SplitError)

/-- A content that was handed over: a list that has passed the check, with the networks of the server and
the probes up to then, or the old content. -/
inductive Handing
  | candidate (cidrList : List Text) (host : Host) (probes : List ProbeRun)
  | previous (text : Text)

/-- The list file, the manager, and its past: how the last call ended, the probes, the contents of the file
that calls have read, and what was handed over. -/
structure ManagerState where
  file : Option Text
  endpointIp : Option ℕ
  pc : ManagerPc
  last : Option (Except SplitError ApplyOutcome)
  probes : List ProbeRun
  reads : List (Option Text)
  handings : List Handing

/-- What happens next: a call takes the lock, its check has been probed, the helper ends, or it ends on the
old content; or another caller probes, or somebody writes the list file. -/
inductive ManagerAction
  | call (path : WritePath)
  | checked (host : Host) (probe : ProbeRun)
  | written (run : HelperRun)
  | restored (run : HelperRun)
  | probe (probe : ProbeRun)
  | otherFile (file : Option Text)

namespace ManagerState

/-- The call ends. -/
def finish (result : Except SplitError ApplyOutcome) (s : ManagerState) : ManagerState :=
  { s with pc := .idle, last := some result }

/-- `refresh_endpoint`. -/
def refreshed (probe : ProbeRun) (s : ManagerState) : ManagerState :=
  { s with endpointIp := probe.found <|> s.endpointIp, probes := probe :: s.probes }

/-- A content is given to the helper. -/
def hand (handing : Handing) (pc : ManagerPc) (s : ManagerState) : ManagerState :=
  { s with pc := pc, handings := handing :: s.handings }

/-- The first part of `_apply_locked`. -/
def begin (cidrList : List Text) (force : Bool) (s : ManagerState) : ManagerState :=
  if cidrList.isEmpty then s.finish (.error .emptyList)
  else { s with pc := .checking cidrList force s.file, reads := s.file :: s.reads }

end ManagerState

/-- What a write did. -/
def writtenOutcome (cidrList : List Text) (previous : Option Text) : ApplyOutcome where
  count := cidrList.length
  added := sortTexts (cidrList.dedup.filter (· ∉ readList previous))
  removed := sortTexts ((readList previous).dedup.filter (· ∉ cidrList))
  unchanged := false

def managerStep (manager : SplitManager) (s : ManagerState) : ManagerAction → Option ManagerState
  | .call path =>
    match s.pc with
    | .idle =>
      match path with
      | .applyList cidrList => some (s.begin cidrList false)
      | .applyComputed cidrList force => some (s.begin cidrList force)
      | .reapply => some (s.begin (readList s.file) true)
    | _ => none
  | .checked host probe =>
    match s.pc with
    | .checking cidrList force previous =>
      let s := s.refreshed probe
      match checkList manager (buildGuards manager host s.endpointIp) cidrList with
      | .error e => some (s.finish (.error e))
      | .ok () =>
        if !force && previous = some (renderList cidrList) then
          some (s.finish (.ok ⟨cidrList.length, [], [], true⟩))
        else some (s.hand (.candidate cidrList host s.probes) (.writing cidrList previous))
    | _ => none
  | .written run =>
    match s.pc with
    | .writing cidrList previous =>
      let s := { s with file := run.file }
      match run with
      | .raised _ => some (s.finish (.error .helperRaised))
      | .exited returncode detail _ =>
        if returncode = 0 then some (s.finish (.ok (writtenOutcome cidrList previous)))
        else
          let e := SplitError.helperFailed returncode detail
          match previous with
          | none => some (s.finish (.error e))
          | some text =>
            if (strip text).isEmpty then some (s.finish (.error e))
            else some (s.hand (.previous text) (.restoring e))
    | _ => none
  | .restored run =>
    match s.pc with
    | .restoring e => some ({ s with file := run.file }.finish (.error e))
    | _ => none
  | .probe probe => some (s.refreshed probe)
  | .otherFile file => some { s with file := file }

/-- A manager without a past. -/
def managerStart (file : Option Text) : ManagerState := ⟨file, none, .idle, none, [], [], []⟩

/-! ### The runs -/

/-- Every list that was handed over is safe, and every old content follows such a list and was read by a
call; the last content comes first. -/
def HandedSafely (manager : SplitManager) (reads : List (Option Text)) : List Handing → Prop
  | [] => True
  | .candidate cidrList host probes :: rest => cidrList ≠ [] ∧
      SafeList manager host (lastEndpoint probes) cidrList ∧ HandedSafely manager reads rest
  | .previous text :: rest => some text ∈ reads ∧
      (∃ cidrList host probes rest', rest = .candidate cidrList host probes :: rest') ∧
        HandedSafely manager reads rest

/-- What holds where an apply waits. -/
def ManagerPlace (s : ManagerState) : Prop :=
  match s.pc with
  | .checking cidrList _ previous => cidrList ≠ [] ∧ previous ∈ s.reads
  | .writing cidrList previous => previous ∈ s.reads ∧
      ∃ host probes rest, s.handings = .candidate cidrList host probes :: rest
  | _ => True

/-- The manager remembers the last endpoint that was found, and has handed over safe lists only. -/
structure ManagerInv (manager : SplitManager) (s : ManagerState) : Prop where
  endpoint : s.endpointIp = lastEndpoint s.probes
  place : ManagerPlace s
  safely : HandedSafely manager s.reads s.handings

variable {manager : SplitManager} {s s' : ManagerState}

theorem HandedSafely.mono {reads reads' : List (Option Text)} {handings : List Handing}
    (h : HandedSafely manager reads handings) (hreads : ∀ r ∈ reads, r ∈ reads') :
    HandedSafely manager reads' handings := by
  induction handings with
  | nil => trivial
  | cons handing rest ih =>
    cases handing with
    | candidate cidrList host probes => exact ⟨h.1, h.2.1, ih h.2.2⟩
    | previous text => exact ⟨hreads _ h.1, h.2.1, ih h.2.2⟩

theorem lastEndpoint_cons (probe : ProbeRun) (probes : List ProbeRun) :
    lastEndpoint (probe :: probes) = (probe.found <|> lastEndpoint probes) := by
  rw [lastEndpoint, List.findSome?_cons]
  cases probe.found with
  | none => rfl
  | some e => rfl

theorem ManagerInv.endpoint_refreshed (h : ManagerInv manager s) (probe : ProbeRun) :
    (s.refreshed probe).endpointIp = lastEndpoint (s.refreshed probe).probes := by
  change (probe.found <|> s.endpointIp) = lastEndpoint (probe :: s.probes)
  rw [lastEndpoint_cons, h.endpoint]

theorem managerInv_begin (h : ManagerInv manager s) (cidrList : List Text) (force : Bool) :
    ManagerInv manager (s.begin cidrList force) := by
  unfold ManagerState.begin
  split_ifs with hempty
  · exact ⟨h.endpoint, trivial, h.safely⟩
  · refine ⟨h.endpoint, ⟨fun hnil => hempty (List.isEmpty_iff.2 hnil), List.mem_cons_self⟩, ?_⟩
    exact h.safely.mono fun r hr => List.mem_cons_of_mem _ hr

/-- **Every step keeps the invariant.** -/
theorem managerInv_step (h : ManagerInv manager s) (a : ManagerAction)
    (hstep : managerStep manager s a = some s') : ManagerInv manager s' := by
  obtain ⟨file, endpointIp, pc, last, probes, reads, handings⟩ := s
  cases a with
  | call path =>
    cases pc with
    | idle =>
      cases path with
      | applyList cidrList =>
        cases hstep
        exact managerInv_begin h cidrList false
      | applyComputed cidrList force =>
        cases hstep
        exact managerInv_begin h cidrList force
      | reapply =>
        cases hstep
        exact managerInv_begin h _ true
    | _ => cases hstep
  | checked host probe =>
    cases pc with
    | checking cidrList force previous =>
      have hendpoint := h.endpoint_refreshed probe
      obtain ⟨hne, hread⟩ := h.place
      simp only [managerStep] at hstep
      split at hstep
      · cases hstep
        exact ⟨hendpoint, trivial, h.safely⟩
      · rename_i hcheck
        split_ifs at hstep with hsame
        · cases hstep
          exact ⟨hendpoint, trivial, h.safely⟩
        · cases hstep
          -- the list was checked against the endpoint that is stored from here on
          rw [hendpoint] at hcheck
          exact ⟨hendpoint, ⟨hread, host, _, handings, rfl⟩, hne, checkList_eq_ok_iff.1 hcheck, h.safely⟩
    | _ => cases hstep
  | written run =>
    cases pc with
    | writing cidrList previous =>
      obtain ⟨hread, hlast⟩ := h.place
      simp only [managerStep] at hstep
      split at hstep
      · cases hstep
        exact ⟨h.endpoint, trivial, h.safely⟩
      · split_ifs at hstep with hcode
        · cases hstep
          exact ⟨h.endpoint, trivial, h.safely⟩
        · split at hstep
          · cases hstep
            exact ⟨h.endpoint, trivial, h.safely⟩
          · split_ifs at hstep with hblank
            · cases hstep
              exact ⟨h.endpoint, trivial, h.safely⟩
            · cases hstep
              -- the helper refused the list: what is put back is the one read before it
              obtain ⟨host, probes', rest, hrest⟩ := hlast
              exact ⟨h.endpoint, trivial, hread, ⟨cidrList, host, probes', rest, hrest⟩, h.safely⟩
    | _ => cases hstep
  | restored run =>
    cases pc with
    | restoring e =>
      cases hstep
      exact ⟨h.endpoint, trivial, h.safely⟩
    | _ => cases hstep
  | probe probe =>
    cases hstep
    exact ⟨h.endpoint_refreshed probe, h.place, h.safely⟩
  | otherFile file =>
    cases hstep
    exact ⟨h.endpoint, h.place, h.safely⟩

/-- A list that is not safe when it is checked is handed to nobody, and the call fails. -/
def RefusesUnsafe (manager : SplitManager) (x : ManagerState) : Prop :=
  ∀ (cidrList : List Text) (force : Bool) (previous : Option Text) (host : Host) (probe : ProbeRun),
    x.pc = .checking cidrList force previous →
      ¬ SafeList manager host (lastEndpoint (probe :: x.probes)) cidrList →
        ∃ e x', managerStep manager x (.checked host probe) = some x' ∧ x'.last = some (.error e) ∧
          x'.pc = .idle ∧ x'.file = x.file ∧ x'.handings = x.handings

theorem refusesUnsafe_of_managerInv (h : ManagerInv manager s) : RefusesUnsafe manager s := by
  intro cidrList force previous host probe hpc hunsafe
  have hendpoint := h.endpoint_refreshed probe
  have hcheck : checkList manager (buildGuards manager host (s.refreshed probe).endpointIp) cidrList ≠
      .ok () := fun hok => hunsafe (checkList_eq_ok_iff.1 (hendpoint ▸ hok))
  cases he : checkList manager (buildGuards manager host (s.refreshed probe).endpointIp) cidrList with
  | ok u => exact absurd he hcheck
  | error e =>
    refine ⟨e, (s.refreshed probe).finish (.error e), ?_, rfl, rfl, rfl, rfl⟩
    rw [managerStep, hpc]
    dsimp only
    rw [he]

/-- **Every list that the manager hands to the apply helper is safe, and one that is not fails as a
whole.**  The only other content is the one that a call has found in the file, after the helper has failed
on its list. -/
theorem lists_safe {manager : SplitManager} {file : Option Text} {actions : List ManagerAction}
    {x : ManagerState} (hrun : runFrom (managerStep manager) (managerStart file) actions = some x) :
    HandedSafely manager x.reads x.handings ∧ RefusesUnsafe manager x := by
  have hstep : ∀ s a s', ManagerInv manager s → True → managerStep manager s a = some s' →
      ManagerInv manager s' := fun _ a _ h _ hs => managerInv_step h a hs
  have hzero : ManagerInv manager (managerStart file) := ⟨rfl, trivial, trivial⟩
  have hinv := invariant_of_allowed hstep hzero (allowed_of_forall (fun _ _ _ => trivial) _) hrun
  exact ⟨hinv.safely, refusesUnsafe_of_managerInv hinv⟩

/-- What the status helper prints about a tunnel that is up. -/
def tunnelUp : ProbeRun :=
  .exited 0 "peer: x\n  endpoint: 162.159.195.1:2408\n  allowed ips: 0.0.0.0/0\n".toList

example : tunnelUp.found = some (162 * 2 ^ 24 + 159 * 2 ^ 16 + 195 * 2 ^ 8 + 1) := by decide

/-- An endpoint is read, a later probe fails, and a list is applied. -/
def appliesLater : List ManagerAction :=
  [.probe tunnelUp, .call (.applyList ["8.8.8.0/24".toList]), .checked obedientHost .raised,
    .written (.exited 0 [] (some "8.8.8.0/24\n".toList))]

theorem lists_safe_appliesLater : ∃ x,
    runFrom (managerStep defaultManager) (managerStart none) appliesLater = some x ∧
      HandedSafely defaultManager x.reads x.handings ∧ RefusesUnsafe defaultManager x := by
  have hsome : (runFrom (managerStep defaultManager) (managerStart none) appliesLater).isSome := by
    decide +kernel
  obtain ⟨x, hrun⟩ := Option.isSome_iff_exists.1 hsome
  exact ⟨x, hrun, lists_safe hrun⟩

def Handing.entries : Handing → List Text
  | .candidate cidrList _ _ => cidrList
  | .previous text => readList (some text)

/-- A list file with a default route, and an apply on which the helper fails. -/
def restoresDefaultRoute : List ManagerAction :=
  [.call (.applyList ["8.8.8.0/24".toList]), .checked obedientHost .raised,
    .written (.exited 1 [] (some "0.0.0.0/0\n".toList))]

/-- **The old content is handed over unchecked.** -/
theorem not_lists_safe :
    ¬ ∀ (manager : SplitManager) (file : Option Text) (actions : List ManagerAction) (x : ManagerState),
      runFrom (managerStep manager) (managerStart file) actions = some x →
        ∀ handing ∈ x.handings, ∀ raw ∈ handing.entries, ∃ n, ipNetwork (strip raw) = some n ∧
          manager.minPrefixlen ≤ n.prefixlen := by
  intro h
  have hentries : (runFrom (managerStep defaultManager) (managerStart (some "0.0.0.0/0\n".toList))
      restoresDefaultRoute).map (fun x => x.handings.map Handing.entries) =
        some [["0.0.0.0/0".toList], ["8.8.8.0/24".toList]] := by
    decide +kernel
  obtain ⟨x, hrun, hlist⟩ := Option.map_eq_some_iff.1 hentries
  have hmem : ["0.0.0.0/0".toList] ∈ x.handings.map Handing.entries := by
    rw [hlist]
    exact List.mem_cons_self
  obtain ⟨handing, hhanding, hroute⟩ := List.mem_map.1 hmem
  obtain ⟨n, hn, hnarrow⟩ := h defaultManager _ _ x hrun handing hhanding "0.0.0.0/0".toList
    (hroute ▸ List.mem_cons_self)
  have hzero : (ipNetwork (strip "0.0.0.0/0".toList)).map Network.prefixlen = some 0 := by decide
  rw [hn] at hzero
  rw [Option.some.inj hzero] at hnarrow
  exact absurd hnarrow (by decide)

end VpnBot.Warp
