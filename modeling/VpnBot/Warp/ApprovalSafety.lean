import VpnBot.Warp.Approval

/-!
# What an approval writes

Whatever others do while `apply_pending` waits, the only list that it takes to the apply helper is one
with the hash of the pending row that it read; the one other content that it hands over is what it found
in the file, after the helper has failed on that list.  `ApprovalPlace` says what holds where the call waits,
`EndsAsRead` how a call has ended, and `hands_pending` is the result over all runs.

`not_hands_pending` is the run in which the helper fails and the old list is put back.
-/

namespace VpnBot.Warp

open Py Sys FeedTables

/-! ### The property -/

/-- The list has the hash of the pending row that the call read, and the entries of that candidate. -/
def IsPending (past : ApprovalPast) (l : List Text) : Prop :=
  ∃ row, past.row = some (some row) ∧ listHash l = row.listHash ∧ SameEntries l row.prefixes

/-- The last list that the call merged has the hash of the row that it read. -/
def MergesPending (past : ApprovalPast) : Prop :=
  ∀ row l, past.row = some (some row) → past.merged = some l → listHash l = row.listHash

def HelperError : SplitError → Prop
  | .helperFailed _ _ | .helperRaised => True
  | _ => False

/-- Only the list of the candidate has been handed over, or the content found in the file after it. -/
def HandsOver (past : ApprovalPast) (l : List Text) : Prop :=
  IsPending past l ∧ (past.handed = [.candidate l] ∨
    ∃ text, past.found = some (some text) ∧ past.handed = [.previous text, .candidate l])

/-- The call has written the candidate, or found it in the file. -/
def Applied (past : ApprovalPast) (outcome : ApplyOutcome) : Prop :=
  ∃ l, IsPending past l ∧ ((outcome.unchanged = false ∧ past.handed = [.candidate l]) ∨
    (outcome.unchanged = true ∧ past.handed = [] ∧ past.found = some (some (renderList l))))

/-- What an end of the call says about the contents that it has handed over. -/
def EndsAsRead (past : ApprovalPast) : ApprovalResult → Prop
  | .returned outcome => Applied past outcome
  | .refused .noPending => past.handed = [] ∧ past.row = some none
  | .refused .stale => past.handed = [] ∧
      ∃ row l, past.row = some (some row) ∧ past.merged = some l ∧ listHash l ≠ row.listHash
  | .refused (.split e) => (past.handed = [] ∧ ¬ HelperError e) ∨ (HelperError e ∧ ∃ l, HandsOver past l)
  | .raised => past.handed = [] ∨ ∃ l, HandsOver past l

theorem not_helperError_of_planOf {sources : List SplitSource} {stored : Text → List Text}
    {manual exclusions current : List Text} {e : SplitError}
    (h : planOf sources stored manual exclusions current = .error e) : ¬ HelperError e := by
  rcases mapM_contribution stored (sources.filter SplitSource.takesPart) with
    ⟨source, -, -, he⟩ | ⟨-, hc⟩
  · rw [planOf, he] at h
    cases h
    exact not_false
  · rw [planOf_of_contributions hc] at h
    generalize mergeSplitList _ _ _ = merged at h
    cases merged with
    | none =>
      cases h
      exact not_false
    | some report => cases h

theorem not_helperError_of_checkList {manager : SplitManager} {guards : List Guard} {l : List Text}
    {e : SplitError} (h : checkList manager guards l = .error e) : ¬ HelperError e := by
  have hentry : ∀ raw e, checkEntry manager guards raw = .error e → ¬ HelperError e := by
    intro raw e he
    unfold checkEntry at he
    dsimp only at he
    split_ifs at he
    split at he
    · cases he
      exact not_false
    · split_ifs at he
      · cases he
        exact not_false
      · cases he
        exact not_false
      · split at he
        · cases he
          exact not_false
        · cases he
  rw [checkList] at h
  split_ifs at h
  · cases h
    exact not_false
  · rcases forM_checkEntry manager guards l with ⟨hloop, -⟩ | ⟨raw, -, e', he, hloop⟩
    · rw [hloop] at h
      cases h
    · rw [hloop] at h
      cases h
      exact hentry raw e he

/-! ### The invariant -/

/-- The call has read this row, and has handed nothing over. -/
def HasRead (past : ApprovalPast) (row : PendingCandidate) : Prop :=
  past.row = some (some row) ∧ (∃ networks, row = queuedRow networks) ∧ past.handed = []

/-- What holds where the call waits. -/
def ApprovalPlace (past : ApprovalPast) : ApprovalPc → Prop
  | .reading => past.merged = none ∧ past.handed = []
  | .planSources row | .planPrefixes row _ | .planExclusions row _ _ | .locking row
  | .applySources row | .applyPrefixes row _ | .applyExclusions row _ _ => HasRead past row
  | .applyChecking l previous | .applying l previous =>
    IsPending past l ∧ past.found = some previous ∧ past.handed = []
  | .restoring previous e => HelperError e ∧ past.found = some previous ∧
      ∃ l, IsPending past l ∧ past.handed = [.candidate l]
  | .captureFile outcome | .capturePrefixes outcome _ | .setBaselines outcome _
  | .clearPending outcome | .resetHash outcome | .resetCount outcome => Applied past outcome
  | .done result => EndsAsRead past result

/-- The invariant: pending rows are candidates that a run has queued, the call has merged the list of its
row unless it has called it stale, and the place holds. -/
structure ApprovalInv (s : ApprovalState) : Prop where
  queued : ∀ row, s.pending = some row → ∃ networks, row = queuedRow networks
  merges : s.pc ≠ .done (.refused .stale) → MergesPending s.past
  place : ApprovalPlace s.past s.pc

variable {service : FeedService} {host : Host} {s s' : ApprovalState} {past : ApprovalPast}

theorem isPending_of_listHash {row : PendingCandidate} {l : List Text}
    (hread : HasRead past row) (hl : OneLine l) (h : listHash l = row.listHash) : IsPending past l := by
  obtain ⟨hrow, ⟨networks, rfl⟩, -⟩ := hread
  exact ⟨_, hrow, h, sameEntries_of_listHash hl (oneLine_map_text networks) h⟩

theorem handsOver_of_place {pc : ApprovalPc} (h : ApprovalPlace past pc) :
    past.handed = [] ∨ ∃ l, HandsOver past l := by
  have happlied : ∀ {outcome}, Applied past outcome → past.handed = [] ∨ ∃ l, HandsOver past l := by
    rintro outcome ⟨l, hl, ⟨-, hhanded⟩ | ⟨-, hhanded, -⟩⟩
    · exact Or.inr ⟨l, hl, Or.inl hhanded⟩
    · exact Or.inl hhanded
  cases pc with
  | reading => exact Or.inl h.2
  | planSources | planPrefixes | planExclusions | locking | applySources | applyPrefixes
  | applyExclusions => exact Or.inl h.2.2
  | applyChecking | applying => exact Or.inl h.2.2
  | restoring previous e =>
    obtain ⟨-, -, l, hl, hhanded⟩ := h
    exact Or.inr ⟨l, hl, Or.inl hhanded⟩
  | captureFile | capturePrefixes | setBaselines | clearPending | resetHash | resetCount =>
    exact happlied h
  | done result =>
    cases result with
    | returned outcome => exact happlied h
    | refused e =>
      cases e with
      | split e =>
        rcases h with ⟨hhanded, -⟩ | ⟨-, hl⟩
        · exact Or.inl hhanded
        · exact Or.inr hl
      | noPending | stale => exact Or.inl h.1
    | raised => exact h

theorem mergesPending_of {row : PendingCandidate} {l : List Text}
    (hrow : past.row = some (some row)) (hmerged : past.merged = some l)
    (h : listHash l = row.listHash) : MergesPending past := by
  intro row' l' hrow' hmerged'
  rw [hrow] at hrow'
  rw [hmerged] at hmerged'
  cases hrow'
  cases hmerged'
  exact h

/-- **Every step of the call keeps the invariant.** -/
theorem approvalInv_advance (h : ApprovalInv s) (hstep : advanceApproval service host s = some s') :
    ApprovalInv s' := by
  obtain ⟨tables, pending, file, endpointIp, busy, pc, row₀, merged, found, handed⟩ := s
  obtain ⟨hqueued, hmerges, hplace⟩ := h
  cases pc with
  | reading =>
    obtain ⟨rfl, rfl⟩ := hplace
    cases pending with
    | none =>
      cases hstep
      exact ⟨nofun, fun _ _ _ _ => nofun, rfl, rfl⟩
    | some row =>
      cases hstep
      exact ⟨hqueued, fun _ _ _ _ => nofun, rfl, hqueued row rfl, rfl⟩
  | planSources row =>
    cases hstep
    exact ⟨hqueued, fun _ => hmerges nofun, hplace⟩
  | planPrefixes row sources =>
    cases hstep
    exact ⟨hqueued, fun _ => hmerges nofun, hplace⟩
  | planExclusions row sources stored =>
    simp only [advanceApproval] at hstep
    split at hstep
    · rename_i e he
      cases hstep
      exact ⟨hqueued, fun _ => hmerges nofun, Or.inl ⟨hplace.2.2, not_helperError_of_planOf he⟩⟩
    · rename_i plan hplan
      -- a pending list that moved since the merge ends the approval
      split_ifs at hstep with hhash
      · cases hstep
        exact ⟨hqueued, fun hne => absurd rfl hne, hplace.2.2, row, plan.prefixes, hplace.1, rfl, hhash⟩
      · cases hstep
        exact ⟨hqueued, fun _ => mergesPending_of hplace.1 rfl (not_not.1 hhash), hplace⟩
  | locking row =>
    simp only [advanceApproval] at hstep
    split_ifs at hstep
    cases hstep
    exact ⟨hqueued, fun _ => hmerges nofun, hplace⟩
  | applySources row =>
    cases hstep
    exact ⟨hqueued, fun _ => hmerges nofun, hplace⟩
  | applyPrefixes row sources =>
    cases hstep
    exact ⟨hqueued, fun _ => hmerges nofun, hplace⟩
  | applyExclusions row sources stored =>
    simp only [advanceApproval] at hstep
    split at hstep
    · rename_i e he
      cases hstep
      exact ⟨hqueued, fun _ => hmerges nofun, Or.inl ⟨hplace.2.2, not_helperError_of_planOf he⟩⟩
    · rename_i plan hplan
      -- the plan is made again under the lock and compared with the pending list
      split_ifs at hstep with hhash hempty
      · cases hstep
        exact ⟨hqueued, fun hne => absurd rfl hne, hplace.2.2, row, plan.prefixes, hplace.1, rfl, hhash⟩
      · cases hstep
        exact ⟨hqueued, fun _ => mergesPending_of hplace.1 rfl (not_not.1 hhash),
          Or.inl ⟨hplace.2.2, not_false⟩⟩
      · cases hstep
        -- the list that is handed over was merged again and has the hash of the pending row
        have hlist : IsPending _ plan.prefixes :=
          isPending_of_listHash hplace (oneLine_of_planOf hplan) (not_not.1 hhash)
        exact ⟨hqueued, fun _ => mergesPending_of hplace.1 rfl (not_not.1 hhash), hlist, rfl,
          hplace.2.2⟩
  | applyChecking l previous =>
    obtain ⟨hlist, hfound, hhanded⟩ := hplace
    simp only [advanceApproval] at hstep
    split at hstep
    · rename_i e he
      cases hstep
      exact ⟨hqueued, fun _ => hmerges nofun, Or.inl ⟨hhanded, not_helperError_of_checkList he⟩⟩
    · split_ifs at hstep with hsame
      · cases hstep
        refine ⟨hqueued, fun _ => hmerges nofun, l, hlist, Or.inr ⟨rfl, hhanded, ?_⟩⟩
        rw [← hsame]
        exact hfound
      · cases hstep
        exact ⟨hqueued, fun _ => hmerges nofun, hlist, hfound, hhanded⟩
  | applying l previous =>
    obtain ⟨hlist, hfound, rfl⟩ := hplace
    simp only [advanceApproval] at hstep
    split at hstep
    · cases hstep
      exact ⟨hqueued, fun _ => hmerges nofun, Or.inr ⟨trivial, l, hlist, Or.inl rfl⟩⟩
    · split_ifs at hstep
      · cases hstep
        exact ⟨hqueued, fun _ => hmerges nofun, trivial, hfound, l, hlist, rfl⟩
      · cases hstep
        exact ⟨hqueued, fun _ => hmerges nofun, l, hlist, Or.inl ⟨rfl, rfl⟩⟩
  | restoring previous e =>
    obtain ⟨herror, hfound, l, hlist, rfl⟩ := hplace
    have hrefused : HandsOver _ l := ⟨hlist, Or.inl rfl⟩
    cases previous with
    | none =>
      cases hstep
      exact ⟨hqueued, fun _ => hmerges nofun, Or.inr ⟨herror, l, hrefused⟩⟩
    | some text =>
      simp only [advanceApproval] at hstep
      split_ifs at hstep
      · cases hstep
        exact ⟨hqueued, fun _ => hmerges nofun, Or.inr ⟨herror, l, hrefused⟩⟩
      · cases hstep
        exact ⟨hqueued, fun _ => hmerges nofun,
          Or.inr ⟨herror, l, hlist, Or.inr ⟨text, hfound, rfl⟩⟩⟩
  | captureFile outcome =>
    simp only [advanceApproval] at hstep
    split_ifs at hstep
    · cases hstep
      exact ⟨hqueued, fun _ => hmerges nofun, hplace⟩
    · cases hstep
      exact ⟨hqueued, fun _ => hmerges nofun, hplace⟩
  | capturePrefixes outcome current =>
    cases hstep
    exact ⟨hqueued, fun _ => hmerges nofun, hplace⟩
  | setBaselines outcome baselines =>
    cases hstep
    exact ⟨hqueued, fun _ => hmerges nofun, hplace⟩
  | clearPending outcome =>
    cases hstep
    exact ⟨nofun, fun _ => hmerges nofun, hplace⟩
  | resetHash outcome =>
    cases hstep
    exact ⟨hqueued, fun _ => hmerges nofun, hplace⟩
  | resetCount outcome =>
    cases hstep
    exact ⟨hqueued, fun _ => hmerges nofun, hplace⟩
  | done result => cases hstep

/-- **So does every step of another operation**, and an exception of a statement. -/
theorem approvalInv_step (h : ApprovalInv s) (a : ApprovalAction)
    (hstep : approvalStep service s a = some s') : ApprovalInv s' := by
  cases a with
  | next host => exact approvalInv_advance h hstep
  | raises =>
    simp only [approvalStep] at hstep
    split at hstep
    · cases hstep
    · rename_i hpc
      cases hstep
      refine ⟨h.queued, fun _ => h.merges fun hstale => hpc _ hstale, ?_⟩
      exact handsOver_of_place h.place
  | other statement =>
    cases hstep
    exact ⟨h.queued, h.merges, h.place⟩
  | otherQueue networks =>
    cases hstep
    exact ⟨fun row hrow => ⟨networks, (Option.some.inj hrow).symm⟩, h.merges, h.place⟩
  | otherClear =>
    cases hstep
    exact ⟨nofun, h.merges, h.place⟩
  | otherLock =>
    simp only [approvalStep] at hstep
    split_ifs at hstep
    cases hstep
    exact ⟨h.queued, h.merges, h.place⟩
  | otherUnlock =>
    cases hstep
    exact ⟨h.queued, h.merges, h.place⟩
  | otherFile file =>
    cases hstep
    exact ⟨h.queued, h.merges, h.place⟩

/-! ### The result -/

/-- Every content that the call hands over is the candidate that it read or, after that, what it found in
the file; if it merges another list, it hands nothing over and calls the candidate stale; and its end
says which of these it is. -/
structure HandsPending (s : ApprovalState) : Prop where
  candidates : ∀ l, .candidate l ∈ s.past.handed → IsPending s.past l
  previous : ∀ text, .previous text ∈ s.past.handed → s.past.found = some (some text) ∧
    ∃ l, s.past.handed = [.previous text, .candidate l]
  stale : ¬ MergesPending s.past → s.past.handed = [] ∧ s.pc = .done (.refused .stale)
  ends : ∀ result, s.pc = .done result → EndsAsRead s.past result

theorem handsPending_of_approvalInv (h : ApprovalInv s) : HandsPending s := by
  have hhanded := handsOver_of_place h.place
  refine ⟨fun l hl => ?_, fun text htext => ?_, fun hnot => ?_, fun result hpc => ?_⟩
  · rcases hhanded with hnil | ⟨l', hpending, hlist | ⟨text, -, hlist⟩⟩
    · rw [hnil] at hl
      cases hl
    · rw [hlist, List.mem_singleton] at hl
      cases hl
      exact hpending
    · rw [hlist] at hl
      rcases List.mem_cons.1 hl with hl | hl
      · cases hl
      · cases List.mem_singleton.1 hl
        exact hpending
  · rcases hhanded with hnil | ⟨l, -, hlist | ⟨text', hfound, hlist⟩⟩
    · rw [hnil] at htext
      cases htext
    · rw [hlist, List.mem_singleton] at htext
      cases htext
    · rw [hlist] at htext
      rcases List.mem_cons.1 htext with htext | htext
      · cases htext
        exact ⟨hfound, l, hlist⟩
      · cases List.mem_singleton.1 htext
  · have hpc : s.pc = .done (.refused .stale) := by
      by_contra hne
      exact hnot (h.merges hne)
    have hplace := h.place
    rw [hpc] at hplace
    exact ⟨hplace.1, hpc⟩
  · have hplace := h.place
    rw [hpc] at hplace
    exact hplace

/-- **An approval writes the candidate that it read, or nothing**, whatever others do meanwhile; what it
puts back when the helper fails is what it found. -/
theorem hands_pending {service : FeedService} {tables : FeedTables}
    {pending : Option PendingCandidate} {file : Option Text} {endpointIp : Option ℕ} {busy : Bool}
    {actions : List ApprovalAction} {x : ApprovalState}
    (hqueued : ∀ row, pending = some row → ∃ networks, row = queuedRow networks)
    (hrun : runFrom (approvalStep service) (approvalStart tables pending file endpointIp busy) actions =
      some x) : HandsPending x := by
  have hstep : ∀ s a s', ApprovalInv s → True → approvalStep service s a = some s' → ApprovalInv s' :=
    fun _ a _ h _ hs => approvalInv_step h a hs
  have hzero : ApprovalInv (approvalStart tables pending file endpointIp busy) :=
    ⟨hqueued, fun _ _ _ _ => nofun, rfl, rfl⟩
  exact handsPending_of_approvalInv (invariant_of_allowed hstep hzero
    (allowed_of_forall (fun _ _ _ => trivial) _) hrun)

/-- The tables of a service whose feed has lost a network, and a list file that still has both. -/
def shrunkTables : FeedTables := unfetched.tables.replacePrefixes telegram [IPv4.text net91]

def bothRouted : Option Text := some (renderList [IPv4.text net91, IPv4.text net149])

/-- A call about to start, with the shrunk list as its candidate. -/
def shrinkPending : ApprovalState :=
  approvalStart shrunkTables (some (queuedRow [net91])) bothRouted none false

def failingHost : Host :=
  { obedientHost with applyHelper := fun _ file => .exited 1 [] file }

/-- The call runs to its end. -/
def runAlone (host : Host) (steps : ℕ) : List ApprovalAction := List.replicate steps (.next host)

/-- Another candidate is queued while the call reads the tables. -/
def queuedMeanwhile : List ApprovalAction :=
  runAlone obedientHost 3 ++ [.otherQueue [net8]] ++ runAlone obedientHost 13

theorem hands_pending_queuedMeanwhile : ∃ x,
    runFrom (approvalStep (autoFeeds 1)) shrinkPending queuedMeanwhile = some x ∧ HandsPending x := by
  have hsome : (runFrom (approvalStep (autoFeeds 1)) shrinkPending queuedMeanwhile).isSome := by
    decide +kernel
  obtain ⟨x, hrun⟩ := Option.isSome_iff_exists.1 hsome
  exact ⟨x, hrun, hands_pending (fun row hrow => ⟨[net91], (Option.some.inj hrow).symm⟩) hrun⟩

/-- **When the helper fails, the call also writes the list that it found**, which is not the candidate. -/
theorem not_hands_pending :
    ¬ ∀ (service : FeedService) (tables : FeedTables) (networks : List IPv4Network)
      (file : Option Text) (actions : List ApprovalAction) (x : ApprovalState),
      runFrom (approvalStep service) (approvalStart tables (some (queuedRow networks)) file none false)
        actions = some x →
      (∀ content ∈ x.past.handed, listHash content.prefixes = (queuedRow networks).listHash) ∧
        (x.past.handed = [] → ∀ result, x.pc = .done result → ∃ e, result = .refused e) := by
  intro h
  have hhanded : (runFrom (approvalStep (autoFeeds 1)) shrinkPending (runAlone failingHost 11)).map
      (fun x => x.past.handed.map fun content => listHash content.prefixes) =
        some [listHash [IPv4.text net91, IPv4.text net149], listHash [IPv4.text net91]] := by
    decide +kernel
  obtain ⟨x, hrun, hlist⟩ := Option.map_eq_some_iff.1 hhanded
  have hall := (h (autoFeeds 1) shrunkTables [net91] bothRouted _ x hrun).1
  have hmem : listHash [IPv4.text net91, IPv4.text net149] ∈
      x.past.handed.map fun content => listHash content.prefixes := by
    rw [hlist]
    exact List.mem_cons_self
  obtain ⟨content, hcontent, hhash⟩ := List.mem_map.1 hmem
  have hother : listHash [IPv4.text net91, IPv4.text net149] ≠ (queuedRow [net91]).listHash := by
    decide +kernel
  exact hother (hhash.symm.trans (hall content hcontent))

end VpnBot.Warp
