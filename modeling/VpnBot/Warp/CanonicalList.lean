import VpnBot.Python.NetworkCanonical
import VpnBot.Warp.ApplyHelper
import VpnBot.Warp.HandedLists

/-!
# The merged list is canonical

Whatever is merged, in whatever order and however split into rows, the list that `merge_split_list`
returns is the text of a canonical list of networks, and so is determined by its addresses:
`prefixes_eq_of_textCover_eq`.  After a successful apply it stands in the list file byte for byte
(`file_of_successfulApply`), so that later applies of the same addresses find nothing to do.

They call the helper for nothing, and end as unchanged when the list still passes the check, which comes
before the comparison with the file (`merged_list_canonical`).  A list that was applied may pass it no
longer, after the endpoint has moved into it: `not_unchanged_of_moved_endpoint`.
-/

namespace VpnBot.Warp

open Py Py.Network Sys

/-! ### The merge -/

theorem canonical_collapse (networks : List IPv4Network) : Canonical (collapse networks) := by
  have h := canonical_collapseAddresses networks
  rw [collapse, sortNetworks, h.sort_eq]
  exact h

/-- A list that some merge returns. -/
def IsMerge (prefixes : List Text) : Prop :=
  ∃ manual sources exclusions report, mergeSplitList manual sources exclusions = some report ∧
    report.prefixes = prefixes

theorem IsMerge.canonical {prefixes : List Text} (h : IsMerge prefixes) :
    ∃ networks : List IPv4Network, prefixes = networks.map IPv4.text ∧ Canonical networks := by
  obtain ⟨manual, sources, exclusions, report, hmerge, rfl⟩ := h
  obtain ⟨report', merged, hmerge', hprefixes⟩ := mergeSplitList_prefixes manual sources exclusions
  rw [hmerge] at hmerge'
  cases hmerge'
  exact ⟨collapse merged, hprefixes, canonical_collapse merged⟩

/-- **The addresses of a merged list determine its text.** -/
theorem prefixes_eq_of_textCover_eq {prefixes prefixes' : List Text} (h : IsMerge prefixes)
    (h' : IsMerge prefixes') (hcover : IPv4.textCover prefixes = IPv4.textCover prefixes') :
    prefixes = prefixes' := by
  obtain ⟨networks, rfl, hn⟩ := h.canonical
  obtain ⟨networks', rfl, hn'⟩ := h'.canonical
  rw [IPv4.textCover_map_text, IPv4.textCover_map_text] at hcover
  rw [hn.eq_of_cover_eq hn' hcover]

/-! ### A successful apply -/

/-- The calls that apply the given list. -/
def WritePath.Applies (prefixes : List Text) : WritePath → Prop
  | .applyList cidrList => cidrList = prefixes
  | .applyComputed cidrList _ => cidrList = prefixes
  | .reapply => False

/-- What happens while a call applies its list: the script is the helper, and nobody else writes the list
file. -/
def DuringApply (s : ManagerState) : ManagerAction → Prop
  | .call _ => False
  | .written run => ∀ cidrList previous, s.pc = .writing cidrList previous →
      ∃ detail scriptEnd, run = applyScript detail scriptEnd (renderList cidrList) s.file
  | .otherFile _ => False
  | _ => True

/-- A call that applies the list leads from `x` to `y`, and succeeds. -/
def SuccessfulApply (manager : SplitManager) (prefixes : List Text) (x y : ManagerState) : Prop :=
  ∃ path x' actions outcome, path.Applies prefixes ∧ managerStep manager x (.call path) = some x' ∧
    Allowed (managerStep manager) DuringApply x' actions ∧
      runFrom (managerStep manager) x' actions = some y ∧ y.pc = .idle ∧ y.last = some (.ok outcome)

/-- What holds while the list is applied. -/
def Applying (prefixes : List Text) (s : ManagerState) : Prop :=
  match s.pc with
  | .idle => ∀ outcome, s.last = some (.ok outcome) → s.file = some (renderList prefixes)
  | .checking cidrList _ previous => cidrList = prefixes ∧ prefixes ≠ [] ∧ previous = s.file
  | .writing cidrList _ => cidrList = prefixes ∧ prefixes ≠ []
  | .restoring _ => True

variable {manager : SplitManager} {prefixes : List Text} {s s' x y : ManagerState}

theorem applying_begin (force : Bool) (s : ManagerState) : Applying prefixes (s.begin prefixes force) := by
  unfold ManagerState.begin
  split_ifs with hempty
  · exact nofun
  · exact ⟨rfl, fun hnil => hempty (List.isEmpty_iff.2 hnil), rfl⟩

theorem applying_step (hmerge : IsMerge prefixes) (h : Applying prefixes s) (a : ManagerAction)
    (ha : DuringApply s a) (hstep : managerStep manager s a = some s') : Applying prefixes s' := by
  obtain ⟨networks, hnetworks, -⟩ := hmerge.canonical
  obtain ⟨file, endpointIp, pc, last, probes, reads, handings⟩ := s
  cases a with
  | call path => exact ha.elim
  | otherFile file => exact ha.elim
  | probe probe =>
    cases hstep
    exact h
  | restored run =>
    cases pc with
    | restoring e =>
      cases hstep
      intro outcome hlast
      cases hlast
    | _ => cases hstep
  | checked host probe =>
    cases pc with
    | checking cidrList force previous =>
      obtain ⟨rfl, hne, rfl⟩ := h
      simp only [managerStep] at hstep
      split at hstep
      · cases hstep
        intro outcome hlast
        cases hlast
      · split_ifs at hstep with hsame
        · -- the list stands in the file already
          cases hstep
          intro outcome _
          simp only [Bool.and_eq_true, decide_eq_true_eq] at hsame
          exact hsame.2
        · cases hstep
          exact ⟨rfl, hne⟩
    | _ => cases hstep
  | written run =>
    cases pc with
    | writing cidrList previous =>
      obtain ⟨rfl, hne⟩ := h
      obtain ⟨detail, scriptEnd, rfl⟩ := ha cidrList previous rfl
      simp only [managerStep] at hstep
      split at hstep
      · cases hstep
        intro outcome hlast
        cases hlast
      · rename_i returncode detail' file' hrun
        split_ifs at hstep with hcode
        · cases hstep
          intro outcome _
          rw [hcode] at hrun
          have hnetworksne : networks ≠ [] := by
            rintro rfl
            exact hne hnetworks
          change (applyScript detail scriptEnd (renderList cidrList) file).file = _
          rw [hrun]
          change file' = _
          rw [applyScript_exited_zero hrun, hnetworks,
            printfLine_commandSubstitution_renderList hnetworksne]
        · split at hstep
          · cases hstep
            intro outcome hlast
            cases hlast
          · split_ifs at hstep
            · cases hstep
              intro outcome hlast
              cases hlast
            · cases hstep
              trivial
    | _ => cases hstep

/-- **After a successful apply of a merged list it stands in the file.** -/
theorem file_of_successfulApply (hmerge : IsMerge prefixes) (h : SuccessfulApply manager prefixes x y) :
    y.file = some (renderList prefixes) := by
  obtain ⟨path, x', actions, outcome, happlies, hcall, hall, hrun, hidle, hlast⟩ := h
  have hbegin : Applying prefixes x' := by
    simp only [managerStep] at hcall
    split at hcall
    · cases path with
      | applyList cidrList =>
        obtain rfl : cidrList = prefixes := happlies
        cases hcall
        exact applying_begin false x
      | applyComputed cidrList force =>
        obtain rfl : cidrList = prefixes := happlies
        cases hcall
        exact applying_begin force x
      | reapply => exact happlies.elim
    · cases hcall
  have hstep : ∀ s a s', Applying prefixes s → DuringApply s a → managerStep manager s a = some s' →
      Applying prefixes s' := fun _ a _ h ha hs => applying_step hmerge h a ha hs
  have hend : Applying prefixes y := invariant_of_allowed hstep hbegin hall hrun
  unfold Applying at hend
  rw [hidle] at hend
  exact hend outcome hlast

/-! ### Later applies of the same addresses -/

/-- A merged list with the same addresses. -/
def SameAddresses (prefixes cidrList : List Text) : Prop :=
  IsMerge cidrList ∧ IPv4.textCover cidrList = IPv4.textCover prefixes

/-- What happens later: merged lists with the same addresses are applied, the endpoint is probed, and
the helper may run as it likes where it is called. -/
def AppliesSame (prefixes : List Text) (_ : ManagerState) : ManagerAction → Prop
  | .call (.applyList cidrList) => SameAddresses prefixes cidrList
  | .call (.applyComputed cidrList force) => SameAddresses prefixes cidrList ∧ force = false
  | .call .reapply => False
  | .otherFile _ => False
  | _ => True

/-- How a call on the list ends when it finds the list in the file. -/
def checkedResult (manager : SplitManager) (host : Host) (endpoint : Option ℕ) (prefixes : List Text) :
    Except SplitError ApplyOutcome :=
  (checkList manager (buildGuards manager host endpoint) prefixes).map fun _ =>
    ⟨prefixes.length, [], [], true⟩

/-- The list stands in the file, nothing was handed over since, and a call that is under way has found the
list there. -/
structure Settled (prefixes : List Text) (handings : List Handing) (s : ManagerState) : Prop where
  file : s.file = some (renderList prefixes)
  handings : s.handings = handings
  place : s.pc = .idle ∨ s.pc = .checking prefixes false (some (renderList prefixes))

theorem Settled.checked {handings : List Handing} {host : Host} {probe : ProbeRun}
    (h : Settled prefixes handings s) (hstep : managerStep manager s (.checked host probe) = some s') :
    s' = (s.refreshed probe).finish
      (checkedResult manager host (s.refreshed probe).endpointIp prefixes) := by
  rcases h.place with hpc | hpc
  · rw [managerStep, hpc] at hstep
    cases hstep
  · rw [managerStep, hpc] at hstep
    dsimp only at hstep
    unfold checkedResult
    split at hstep
    · rename_i e hcheck
      rw [hcheck]
      exact (Option.some.inj hstep).symm
    · rename_i hcheck
      rw [if_pos (by simp)] at hstep
      rw [hcheck]
      exact (Option.some.inj hstep).symm

/-- **Applies of the same addresses leave the list settled.** -/
theorem settled_step (hmerge : IsMerge prefixes) {handings : List Handing}
    (h : Settled prefixes handings s) (a : ManagerAction) (ha : AppliesSame prefixes s a)
    (hstep : managerStep manager s a = some s') : Settled prefixes handings s' := by
  have hbegin : ∀ cidrList, SameAddresses prefixes cidrList →
      Settled prefixes handings (s.begin cidrList false) := by
    intro cidrList hsame
    obtain rfl := prefixes_eq_of_textCover_eq hsame.1 hmerge hsame.2
    unfold ManagerState.begin
    split_ifs
    · exact ⟨h.file, h.handings, Or.inl rfl⟩
    · exact ⟨h.file, h.handings, Or.inr (by rw [h.file])⟩
  cases a with
  | call path =>
    simp only [managerStep] at hstep
    split at hstep
    · cases path with
      | applyList cidrList =>
        cases hstep
        exact hbegin cidrList ha
      | applyComputed cidrList force =>
        obtain ⟨hsame, rfl⟩ := ha
        cases hstep
        exact hbegin cidrList hsame
      | reapply => exact ha.elim
    · cases hstep
  | checked host probe =>
    rw [h.checked hstep]
    exact ⟨h.file, h.handings, Or.inl rfl⟩
  | written run =>
    rcases h.place with hpc | hpc <;> rw [managerStep, hpc] at hstep <;> cases hstep
  | restored run =>
    rcases h.place with hpc | hpc <;> rw [managerStep, hpc] at hstep <;> cases hstep
  | probe probe =>
    cases hstep
    exact ⟨h.file, h.handings, h.place⟩
  | otherFile file => exact ha.elim

/-- From `y` to `z` the helper was not called and the list file not written, and the check of a call that
is under way in `z` ends it, as unchanged when the list passes. -/
structure NothingToDo (manager : SplitManager) (prefixes : List Text) (y z : ManagerState) : Prop where
  handings : z.handings = y.handings
  file : z.file = y.file
  ends : ∀ host probe z', managerStep manager z (.checked host probe) = some z' →
    z'.last = some (checkedResult manager host (z.refreshed probe).endpointIp prefixes) ∧
      z'.pc = .idle ∧ z'.handings = y.handings ∧ z'.file = y.file

/-- **The merged list is canonical, and once it was applied, later applies of the same addresses do not
call the helper.** -/
theorem merged_list_canonical (manual : List IPv4Network) (sources : List SourceContribution)
    (exclusions : List IPv4Network) :
    ∃ report, mergeSplitList manual sources exclusions = some report ∧
      (∃ networks : List IPv4Network, report.prefixes = networks.map IPv4.text ∧ Canonical networks) ∧
      (∀ manual' sources' exclusions' report',
        mergeSplitList manual' sources' exclusions' = some report' →
          IPv4.textCover report'.prefixes = IPv4.textCover report.prefixes →
            report'.prefixes = report.prefixes) ∧
      ∀ manager x y, SuccessfulApply manager report.prefixes x y → ∀ actions z,
        Allowed (managerStep manager) (AppliesSame report.prefixes) y actions →
          runFrom (managerStep manager) y actions = some z →
            NothingToDo manager report.prefixes y z := by
  obtain ⟨report, merged, hreport, hprefixes⟩ := mergeSplitList_prefixes manual sources exclusions
  have hmerge : IsMerge report.prefixes := ⟨manual, sources, exclusions, report, hreport, rfl⟩
  refine ⟨report, hreport, hmerge.canonical, ?_, ?_⟩
  · intro manual' sources' exclusions' report' hreport' hcover
    exact prefixes_eq_of_textCover_eq ⟨_, _, _, _, hreport', rfl⟩ hmerge hcover
  · intro manager x y happly actions z hall hrun
    obtain ⟨_, _, _, _, _, _, _, _, hidle, _⟩ := id happly
    have hfile := file_of_successfulApply hmerge happly
    have hstep : ∀ s a s', Settled report.prefixes y.handings s → AppliesSame report.prefixes s a →
        managerStep manager s a = some s' → Settled report.prefixes y.handings s' :=
      fun _ a _ h ha hs => settled_step hmerge h a ha hs
    have hsettled : Settled report.prefixes y.handings z :=
      invariant_of_allowed hstep ⟨hfile, rfl, Or.inl hidle⟩ hall hrun
    refine ⟨hsettled.handings, by rw [hsettled.file, hfile], fun host probe z' hz' => ?_⟩
    rw [hsettled.checked hz']
    exact ⟨rfl, rfl, hsettled.handings, by rw [hfile]; exact hsettled.file⟩

/-! ### The check comes first -/

/-- The status helper finds an endpoint inside `8.8.8.0/24`. -/
def movedEndpoint : ProbeRun := .exited 0 "  endpoint: 8.8.8.8:2408\n".toList

/-- The list of the one network `8.8.8.0/24`. -/
def list8 : List Text := ["8.8.8.0/24".toList]

theorem isMerge_list8 : IsMerge list8 := by
  have h : (mergeSplitList [net8] [] []).map MergeReport.prefixes = some list8 := by
    decide +kernel
  obtain ⟨report, hreport, hprefixes⟩ := Option.map_eq_some_iff.1 h
  exact ⟨_, _, _, report, hreport, hprefixes⟩

/-- The list of a call that waits for the helper. -/
def ManagerPc.list : ManagerPc → List Text
  | .writing cidrList _ => cidrList
  | _ => []

/-- No call is on its way. -/
def ManagerPc.isIdle : ManagerPc → Bool
  | .idle => true
  | _ => false

theorem exists_successfulApply_list8 : ∃ y,
    runFrom (managerStep defaultManager) (managerStart none)
      [.call (.applyList list8), .checked obedientHost .raised,
        .written (applyScript [] everyCommand (renderList list8) none)] = some y ∧
      SuccessfulApply defaultManager list8 (managerStart none) y := by
  have hends : (runFrom (managerStep defaultManager) (managerStart none)
      [.call (.applyList list8), .checked obedientHost .raised,
        .written (applyScript [] everyCommand (renderList list8) none)]).map (fun y =>
          (y.pc.isIdle, y.last.bind fun r => r.toOption)) =
        some (true, some ⟨1, list8, [], false⟩) := by
    decide +kernel
  have hchecked : ((managerStep defaultManager ((managerStart none).begin list8 false)
      (.checked obedientHost .raised)).map fun s => (s.file, s.pc.list)) = some (none, list8) := by
    decide +kernel
  obtain ⟨y, hrun, hy⟩ := Option.map_eq_some_iff.1 hends
  rw [Prod.mk.injEq] at hy
  refine ⟨y, hrun, .applyList list8, (managerStart none).begin list8 false, _, ⟨1, list8, [], false⟩, rfl, rfl,
    ?_, hrun, ?_, ?_⟩
  · refine ⟨trivial, fun s hs => ⟨fun cidrList previous hpc => ⟨[], everyCommand, ?_⟩, fun _ _ => trivial⟩⟩
    rw [hs, Option.map_some, Option.some.injEq, Prod.mk.injEq, hpc] at hchecked
    rw [hchecked.1, ← hchecked.2]
    rfl
  · cases hpc : y.pc <;> simp [hpc, ManagerPc.isIdle] at hy ⊢
  · obtain ⟨r, hr, hok⟩ := Option.bind_eq_some_iff.1 hy.2
    cases r with
    | error e => cases hok
    | ok outcome =>
      cases hok
      exact hr

/-- **The same list is refused when the endpoint has moved into it.** -/
theorem not_unchanged_of_moved_endpoint :
    ¬ ∀ manager prefixes x y, IsMerge prefixes → SuccessfulApply manager prefixes x y →
      ∀ cidrList, SameAddresses prefixes cidrList → ∀ host probe z,
        runFrom (managerStep manager) y [.call (.applyList cidrList), .checked host probe] = some z →
          z.last = some (.ok ⟨cidrList.length, [], [], true⟩) := by
  intro h
  obtain ⟨y, hrun, happly⟩ := exists_successfulApply_list8
  have hagain : (runFrom (managerStep defaultManager) (managerStart none)
      ([.call (.applyList list8), .checked obedientHost .raised,
        .written (applyScript [] everyCommand (renderList list8) none)] ++
        [.call (.applyList list8), .checked obedientHost movedEndpoint])).map (fun z =>
          z.last.bind fun r => r.toOption) = some none := by
    decide +kernel
  obtain ⟨z, hz, hnone⟩ := Option.map_eq_some_iff.1 hagain
  obtain ⟨y', hy', hz⟩ := runFrom_append.1 hz
  rw [hrun] at hy'
  cases hy'
  have hlast := h defaultManager list8 _ y isMerge_list8 happly list8 ⟨isMerge_list8, rfl⟩ _ _ z hz
  rw [hlast] at hnone
  cases hnone

end VpnBot.Warp
