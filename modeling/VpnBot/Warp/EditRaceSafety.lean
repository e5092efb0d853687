import VpnBot.Warp.EditFrame
import VpnBot.Warp.EditRace

/-!
# When two manual edits are serializable

A call decides on the manual rows that it has read and writes later.  `DecidedNow` says that the decision
is still right when the call first writes after the other one: the rows to delete are still stored and no
other row overlaps the ranges, and what is added is what would be added after the other edit.  Rows that
the other call has decided to insert and has not inserted yet count as stored.  Under this condition
`edits_serializable` holds for every run of two calls, by the invariant `RaceInv`: the first call to write
leaves what its edit leaves alone, and the second one what is left when one edit follows the other.

`not_edits_serializable` has two removals in one wider row, each of which puts back what the other has
taken out.
-/

namespace VpnBot.Warp

open Py Py.Network Sys FeedTables

variable {manager : SplitManager} {host : Host} {split : SplitState} {s s' : RaceState}

/-! ### An edit alone -/

/-- The list file is adopted. -/
def Adopted (split : SplitState) : Prop := split.tables.getMeta ADOPTED_META_KEY = some ['1']

/-- What `add_manual` accepts when it runs on a state. -/
def acceptedAt (manager : SplitManager) (host : Host) (tokens : List Text) (split : SplitState) :
    List Text :=
  (processAddTokens manager host (host.probe <|> split.endpointIp) tokens
    (split.rows ++ readList split.file)).2

theorem isSome_parse_of_accepted {tokens : List Text} {p : Text}
    (h : p ∈ acceptedAt manager host tokens split) : (IPv4.parse false p).isSome = true := by
  obtain ⟨raw, -, -, seen, hadded, rfl⟩ := mem_addTokensLoop h
  obtain ⟨n, -, htext, -⟩ := validateAdd_added hadded
  rw [htext, IPv4.parse_text]
  rfl

theorem tables_alone (manager : SplitManager) (host : Host) (edit : ManualEdit) (split : SplitState) :
    match edit.toEdit.step manager host split with
    | .raises tables | .returns tables | .applies tables =>
      (alone manager host edit split).tables = tables := by
  have hends := ends_edit manager host edit.toEdit split
  let left (tables : FeedTables) (_ : Option Unit) (s' : SplitState) : Prop := s'.tables = tables
  cases hstep : edit.toEdit.step manager host split with
  | raises tables =>
    rw [hstep] at hends
    exact (hends.mono (fun _ _ h => h.elim) fun _ _ h => h).result (R := left tables)
  | returns tables =>
    rw [hstep] at hends
    exact (hends.mono (fun _ _ h => h) fun _ _ h => h.elim).result (R := left tables)
  | applies tables =>
    rw [hstep] at hends
    exact (hends.mono (fun _ _ h => h.1) fun _ _ h => h.1).result (R := left tables)

theorem adopt_of_adopted (h : Adopted split) : adopt split.file split.tables = split.tables := if_pos h

/-- `add_manual` alone leaves the rows together with what it accepts. -/
theorem alone_addManual (h : Adopted split) (tokens : List Text) :
    Adopted (alone manager host (.addManual tokens) split) ∧
      ∀ p, p ∈ (alone manager host (.addManual tokens) split).rows ↔
        p ∈ split.rows ∨ p ∈ acceptedAt manager host tokens split := by
  have hstep : (ManualEdit.addManual tokens).toEdit.step manager host split =
      if (acceptedAt manager host tokens split).isEmpty then .returns split.tables
      else .applies (split.tables.addManualPrefixes (acceptedAt manager host tokens split)) := by
    simp only [ManualEdit.toEdit, Edit.step, adopt_of_adopted h]
    rfl
  have htables := tables_alone manager host (.addManual tokens) split
  rw [hstep] at htables
  unfold Adopted SplitState.rows
  split_ifs at htables with hnone
  · rw [htables, List.isEmpty_iff.1 hnone]
    exact ⟨h, fun p => (or_iff_left List.not_mem_nil).symm⟩
  · rw [htables]
    exact ⟨h, fun p => mem_prefixesFor_insertPrefixes⟩

/-- `remove_manual_many` alone leaves the rows that it does not delete and what it adds. -/
theorem alone_removeManualMany (h : Adopted split) {prefixes drop add : List Text}
    (hrows : manualRowsWithout split.rows prefixes = some (drop, add)) :
    Adopted (alone manager host (.removeManualMany prefixes) split) ∧
      ∀ p, p ∈ (alone manager host (.removeManualMany prefixes) split).rows ↔
        p ∈ split.rows ∧ p ∉ drop ∨ p ∈ add := by
  have htables := tables_alone manager host (.removeManualMany prefixes) split
  unfold SplitState.rows at hrows ⊢
  simp only [ManualEdit.toEdit, Edit.step, adopt_of_adopted h, hrows] at htables
  unfold Adopted
  rw [htables]
  exact ⟨h, fun p =>
    mem_prefixesFor_insertPrefixes.trans (or_congr_left mem_manualPrefixes_removeManualPrefixes)⟩

theorem textCover_alone_addManual (h : Adopted split) (tokens : List Text) :
    IPv4.textCover (alone manager host (.addManual tokens) split).rows =
      IPv4.textCover split.rows ∪ IPv4.textCover (acceptedAt manager host tokens split) := by
  rw [← textCover_append]
  exact textCover_congr fun p => ((alone_addManual h tokens).2 p).trans List.mem_append.symm

theorem textCover_alone_removeManualMany (h : Adopted split) {prefixes : List Text}
    (hsome : (manualRowsWithout split.rows prefixes).isSome = true) :
    IPv4.textCover (alone manager host (.removeManualMany prefixes) split).rows =
      IPv4.textCover split.rows \ IPv4.textCover prefixes := by
  obtain ⟨⟨drop, add⟩, hrows⟩ := Option.isSome_iff_exists.1 hsome
  exact (takesOut_manualRowsWithout hrows).textCover (alone_removeManualMany h hrows).2

/-! ### The condition -/

/-- The call has made its first write, or has nothing to write. -/
def EditPc.written : EditPc → Bool
  | .inserting _ | .locking | .applying _ | .done _ => true
  | _ => false

/-- What the first call adds is right after the other edit: it adds to the stored rows what it would add on
the state that the other edit leaves alone, or, after a removal, what it would add on the state from which
both start, less the ranges of the removal. -/
def AddsNow (manager : SplitManager) (host : Host) (split : SplitState) (s : RaceState)
    (tokens accepted : List Text) : Prop :=
  let stored := s.rows ++ s.two.pc.pending
  IPv4.textCover (stored ++ accepted) = IPv4.textCover
      (stored ++ acceptedAt manager host tokens (alone manager host s.two.edit split)) ∨
    ∃ prefixes, s.two.edit = .removeManualMany prefixes ∧
      IPv4.textCover (stored ++ accepted) = IPv4.textCover stored ∪
        (IPv4.textCover (acceptedAt manager host tokens split) \ IPv4.textCover prefixes)

/-- The call has ended with an exception. -/
def EditPc.Failed : EditPc → Prop
  | .done (.refused _) => True
  | _ => False

/-- The stored rows and those that the calls are about to put back. -/
def RaceState.stored (s : RaceState) : List Text := s.rows ++ s.one.pc.pending ++ s.two.pc.pending

/-- What a call has decided is decided on a state that it has read. -/
def DecidedOn (manager : SplitManager) (host : Host) (read : SplitState) (call : EditCall) : Prop :=
  match call.pc with
  | .adoptDelete _ | .adoptInsert _ | .adoptMark => False
  | .adding accepted =>
    ∃ tokens, call.edit = .addManual tokens ∧ accepted = acceptedAt manager host tokens read
  | .deleting drop add => ∃ prefixes, call.edit = .removeManualMany prefixes ∧
      manualRowsWithout read.rows prefixes = some (drop, add)
  | _ => True

/-- A call that is about to read for its tokens has probed the endpoint. -/
def HasProbed (host : Host) (now : SplitState) (call : EditCall) : Prop :=
  call.pc = .reading → (∃ tokens, call.edit = .addManual tokens) →
    now.endpointIp = (host.probe <|> now.endpointIp)

/-- The first of the calls to write has left what its edit leaves alone. -/
def LeftAlone (manager : SplitManager) (host : Host) (split : SplitState) (s : RaceState)
    (edit : ManualEdit) : Prop :=
  (∀ p, p ∈ s.stored ↔ p ∈ (alone manager host edit split).rows) ∧
    ∀ prefixes, edit = .removeManualMany prefixes →
      (manualRowsWithout split.rows prefixes).isSome = true

/-- What the calls that have written have left. -/
def Reached (manager : SplitManager) (host : Host) (split : SplitState) (s : RaceState) : Prop :=
  match s.one.pc.written, s.two.pc.written with
  | false, false => s.rows = split.rows ∧ s.split.file = split.file ∧
      DecidedOn manager host split s.one ∧ DecidedOn manager host split s.two
  | true, false => LeftAlone manager host split s s.one.edit
  | false, true => LeftAlone manager host split s s.two.edit
  | true, true =>
    IPv4.textCover s.stored = IPv4.textCover
        (alone manager host s.two.edit (alone manager host s.one.edit split)).rows ∨
      IPv4.textCover s.stored = IPv4.textCover
        (alone manager host s.one.edit (alone manager host s.two.edit split)).rows

/-- The invariant: the list file is adopted, the endpoint is the one of the start or the one probed, what
the calls have decided they have read, and unless one has failed they have left what `Reached` says. -/
structure RaceInv (manager : SplitManager) (host : Host) (split : SplitState) (s : RaceState) :
    Prop where
  adopted : Adopted s.split
  endpoint : (host.probe <|> s.split.endpointIp) = (host.probe <|> split.endpointIp)
  one : (∃ read, DecidedOn manager host read s.one) ∧ HasProbed host s.split s.one
  two : (∃ read, DecidedOn manager host read s.two) ∧ HasProbed host s.split s.two
  reached : s.one.pc.Failed ∨ s.two.pc.Failed ∨ Reached manager host split s

theorem mem_stored_swap (p : Text) : p ∈ s.swap.stored ↔ p ∈ s.stored := by
  have hone : s.swap.one = s.two := rfl
  have htwo : s.swap.two = s.one := rfl
  have hrows : s.swap.rows = s.rows := rfl
  simp only [RaceState.stored, hone, htwo, hrows, List.mem_append]
  exact or_right_comm

theorem reached_swap : Reached manager host split s.swap ↔ Reached manager host split s := by
  unfold Reached LeftAlone
  rw [textCover_congr mem_stored_swap]
  simp only [mem_stored_swap]
  have hone : s.swap.one = s.two := rfl
  have htwo : s.swap.two = s.one := rfl
  rw [hone, htwo]
  cases s.one.pc.written <;> cases s.two.pc.written
  · exact and_congr_right fun _ => and_congr_right fun _ => and_comm
  · exact Iff.rfl
  · exact Iff.rfl
  · exact or_comm

theorem RaceInv.swap (h : RaceInv manager host split s) : RaceInv manager host split s.swap :=
  ⟨h.adopted, h.endpoint, h.two, h.one, by
    rcases h.reached with hone | htwo | hreached
    · exact Or.inr (Or.inl hone)
    · exact Or.inl htwo
    · exact Or.inr (Or.inr (reached_swap.2 hreached))⟩

/-! ### What a step of the first call does to what is reached -/

theorem pending_of_not_written {pc : EditPc} (h : pc.written = false) : pc.pending = [] := by
  cases pc with
  | inserting add => cases h
  | _ => rfl

theorem Reached.before (h : Reached manager host split s) (htwo : s'.two = s.two)
    (hsplit : s'.rows = s.rows ∧ s'.split.file = s.split.file)
    (hone : s.one.pc.written = false) (hone' : s'.one.pc.written = false)
    (hdecided : s.rows = split.rows → s.split.file = split.file → DecidedOn manager host split s'.one) :
    Reached manager host split s' := by
  have hstored : s'.stored = s.stored := by
    rw [RaceState.stored, RaceState.stored, hsplit.1, htwo, pending_of_not_written hone,
      pending_of_not_written hone']
  unfold Reached LeftAlone at h ⊢
  rw [hone] at h
  rw [hone', htwo, hstored, hsplit.1, hsplit.2]
  cases hwritten : s.two.pc.written with
  | false =>
    rw [hwritten] at h
    exact ⟨h.1, h.2.1, hdecided h.1 h.2.1, h.2.2.2⟩
  | true =>
    rw [hwritten] at h
    exact h

theorem Reached.after (h : Reached manager host split s) (htwo : s'.two = s.two)
    (hedit : s'.one.edit = s.one.edit) (hone : s.one.pc.written = true)
    (hone' : s'.one.pc.written = true) (hstored : ∀ p, p ∈ s'.stored ↔ p ∈ s.stored) :
    Reached manager host split s' := by
  unfold Reached LeftAlone at h ⊢
  rw [hone] at h
  rw [hone', htwo, hedit, textCover_congr hstored]
  simp only [hstored]
  cases hwritten : s.two.pc.written with
  | false =>
    rw [hwritten] at h
    exact h
  | true =>
    rw [hwritten] at h
    exact h

/-- The first write of the first call, before or after that of the second one. -/
theorem Reached.write (h : Reached manager host split s) (htwo : s'.two = s.two)
    (hedit : s'.one.edit = s.one.edit) (hone : s.one.pc.written = false)
    (hone' : s'.one.pc.written = true)
    (hfirst : s.two.pc.pending = [] → s.rows = split.rows → s.split.file = split.file →
      DecidedOn manager host split s.one → LeftAlone manager host split s' s.one.edit)
    (hsecond : s.two.pc.written = true → LeftAlone manager host split s s.two.edit →
      IPv4.textCover s'.stored = IPv4.textCover
          (alone manager host s.two.edit (alone manager host s.one.edit split)).rows ∨
        IPv4.textCover s'.stored = IPv4.textCover
          (alone manager host s.one.edit (alone manager host s.two.edit split)).rows) :
    Reached manager host split s' := by
  unfold Reached at h ⊢
  rw [hone] at h
  rw [hone', htwo, hedit]
  cases hwritten : s.two.pc.written with
  | false =>
    rw [hwritten] at h
    exact hfirst (pending_of_not_written hwritten) h.1 h.2.1 h.2.2.1
  | true =>
    rw [hwritten] at h
    exact hsecond hwritten h

theorem LeftAlone.adopted (h : Adopted split) {edit : ManualEdit}
    (hleft : LeftAlone manager host split s edit) : Adopted (alone manager host edit split) := by
  cases edit with
  | addManual tokens => exact (alone_addManual h tokens).1
  | removeManualMany prefixes =>
    obtain ⟨⟨drop, add⟩, hrows⟩ := Option.isSome_iff_exists.1 (hleft.2 prefixes rfl)
    exact (alone_removeManualMany h hrows).1

/-- An addition that is made after the other call has written. -/
theorem LeftAlone.add (h : Adopted split) (hleft : LeftAlone manager host split s s.two.edit)
    (hpending : s.one.pc.pending = []) {tokens accepted : List Text}
    (hedit : s.one.edit = .addManual tokens) (hnow : AddsNow manager host split s tokens accepted)
    (hstored : ∀ p, p ∈ s'.stored ↔ p ∈ s.stored ∨ p ∈ accepted) :
    IPv4.textCover s'.stored = IPv4.textCover
        (alone manager host s.two.edit (alone manager host s.one.edit split)).rows ∨
      IPv4.textCover s'.stored = IPv4.textCover
        (alone manager host s.one.edit (alone manager host s.two.edit split)).rows := by
  have hrows : s.stored = s.rows ++ s.two.pc.pending := by
    rw [RaceState.stored, hpending, List.append_nil]
  rw [textCover_congr fun p => (hstored p).trans List.mem_append.symm, hedit]
  unfold AddsNow at hnow
  rw [← hrows] at hnow
  obtain hnow | ⟨prefixes, hremoves, hnow⟩ := hnow
  · right
    rw [hnow, textCover_append, textCover_congr hleft.1, textCover_alone_addManual (hleft.adopted h)]
  · left
    rw [hremoves] at hleft ⊢
    have hstart := hleft.2 prefixes rfl
    have hboth : (manualRowsWithout (alone manager host (.addManual tokens) split).rows prefixes).isSome =
        true := by
      rw [isSome_manualRowsWithout] at hstart ⊢
      refine ⟨hstart.1, fun p hp => ?_⟩
      obtain hp | hp := ((alone_addManual h tokens).2 p).1 hp
      · exact hstart.2 p hp
      · exact isSome_parse_of_accepted hp
    rw [hnow, textCover_congr hleft.1, textCover_alone_removeManualMany h hstart,
      textCover_alone_removeManualMany (alone_addManual h tokens).1 hboth,
      textCover_alone_addManual h tokens, Set.union_sdiff_distrib]

/-- A removal that is made after the other call has written. -/
theorem LeftAlone.remove (h : Adopted split) (hleft : LeftAlone manager host split s s.two.edit)
    (hpending : s.one.pc.pending = []) {prefixes manual drop add : List Text}
    (hdecided : manualRowsWithout manual prefixes = some (drop, add))
    (hnow : (∀ p ∈ drop, p ∈ s.rows ∧ p ∉ s.two.pc.pending) ∧
      manualRowsWithout ((s.rows ++ s.two.pc.pending).filter (· ∉ drop)) prefixes = some ([], []))
    (hstored : ∀ p, p ∈ s'.stored ↔ p ∈ s.stored ∧ p ∉ drop ∨ p ∈ add) :
    IPv4.textCover s'.stored = IPv4.textCover
      (alone manager host (.removeManualMany prefixes) (alone manager host s.two.edit split)).rows := by
  have hrows : s.stored = s.rows ++ s.two.pc.pending := by
    rw [RaceState.stored, hpending, List.append_nil]
  rw [← hrows] at hnow
  have hread := isSome_manualRowsWithout.1 (Option.isSome_iff_exists.2 ⟨_, hdecided⟩)
  have hrest := isSome_manualRowsWithout.1 (Option.isSome_iff_exists.2 ⟨_, hnow.2⟩)
  have htakes := takesOut_manualRowsWithout hdecided
  have hsome : (manualRowsWithout (alone manager host s.two.edit split).rows prefixes).isSome = true := by
    refine isSome_manualRowsWithout.2 ⟨hread.1, fun p hp => ?_⟩
    by_cases hdrop : p ∈ drop
    · exact hread.2 p (htakes.dropped p hdrop)
    · exact hrest.2 p (List.mem_filter.2 ⟨(hleft.1 p).2 hp, decide_eq_true hdrop⟩)
  have htakes' : TakesOut s.stored prefixes drop add := by
    refine ⟨fun p hp => ?_, fun p hp hdrop => ?_, htakes.added⟩
    · rw [hrows]
      exact List.mem_append_left _ (hnow.1 p hp).1
    · exact (takesOut_manualRowsWithout hnow.2).kept p
        (List.mem_filter.2 ⟨hp, decide_eq_true hdrop⟩) List.not_mem_nil
  rw [htakes'.textCover hstored, textCover_congr hleft.1,
    textCover_alone_removeManualMany (hleft.adopted h) hsome]

/-! ### The steps of a call -/

theorem RaceInv.step (h : RaceInv manager host split s) (hrunning : ¬ s.one.pc.Failed)
    (hadopted : Adopted s.split → Adopted s'.split) (htwo : s'.two = s.two)
    (hendpoint : s'.split.endpointIp = s.split.endpointIp ∨
      s'.split.endpointIp = (host.probe <|> s.split.endpointIp))
    (hone : (∃ read, DecidedOn manager host read s'.one) ∧ HasProbed host s'.split s'.one)
    (hreached : s'.one.pc.Failed ∨
      (Reached manager host split s → Reached manager host split s')) :
    RaceInv manager host split s' := by
  have hprobe : (host.probe <|> (host.probe <|> s.split.endpointIp)) =
      (host.probe <|> s.split.endpointIp) := by
    cases host.probe <;> rfl
  have hsame : (host.probe <|> s'.split.endpointIp) = (host.probe <|> s.split.endpointIp) := by
    obtain he | he := hendpoint
    · rw [he]
    · rw [he, hprobe]
  refine ⟨hadopted h.adopted, hsame.trans h.endpoint, hone, ?_, ?_⟩
  · rw [htwo]
    refine ⟨h.two.1, fun hpc hedit => ?_⟩
    obtain he | he := hendpoint
    · rw [he]
      exact h.two.2 hpc hedit
    · rw [hsame, he]
  · rw [htwo]
    obtain hfailed | hreached := hreached
    · exact Or.inl hfailed
    · rcases h.reached with hfailed | hfailed | hset
      · exact absurd hfailed hrunning
      · exact Or.inr (Or.inl hfailed)
      · exact Or.inr (Or.inr (hreached hset))

end VpnBot.Warp
