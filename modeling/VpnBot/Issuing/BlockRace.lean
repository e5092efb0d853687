import VpnBot.Issuing.Exclusion

/-!
# A user who is blocked keeps nothing

From the moment in which `block_user` writes the role, no call that issues for the user passes its first
check, and those that passed it before have finished: they hold the lock of the user, as `block_user`
does.  What is left are the calls that work on rows that are there.  A status is quiet when none of them
leads from it to one that is not (`quiet_of_decide`), and a sweep that ends without errors has seen a page
with quiet rows only.

Two notions of quiet are treated at once: no status that `block_user` looks for, while nobody deletes what
the user owns, and otherwise none from which an access can become active again.
-/

namespace VpnBot.Issuing

open Sys Users

variable {adminIds : List ℤ} {s s' : State} {task task' : Task} {effect : Effect} {answer : Answer}
  {page : List ℕ} {sec : Section} {id i : ℕ} {row : Row} {deletes : Bool} {family : Family}
  {status : RowStatus} {target : ℤ}

/-! ### Quiet statuses -/

/-- The statuses of an access that is active or may become so. -/
def RowStatus.usable (status : RowStatus) : Bool :=
  status = .active || status = .pendingApply || status = .applyFailed

/-- The status stays as it is, `deletes` says whether deletions are made. -/
def Quiet (deletes : Bool) (family : Family) (status : RowStatus) : Prop :=
  if deletes then status.usable = false else status ∉ family.live

theorem quiet_of_not_live (h : status ∉ family.live) : Quiet deletes family status := by
  unfold Quiet
  split
  · cases family <;> cases status <;> first | rfl | exact absurd (by decide) h
  · exact h

def Section.pending (sec : Section) : List RowStatus :=
  let plan := sec.plan
  match sec.pc with
  | .marking =>
    plan.mark.toList ++ plan.failed.toList ++ plan.finish.leaves.toList ++ plan.undo.toList
  | .calling => plan.failed.toList ++ plan.finish.leaves.toList ++ plan.undo.toList
  | .failing => plan.failed.toList
  | .finishing => plan.finish.leaves.toList ++ plan.undo.toList
  | .undoing => plan.undo.toList

theorem Section.mem_pending_advance {statement : Statement} {rows : AccessRows}
    (h : (sec.advance rows answer).1 = some statement) (hleaves : statement.leaves = some status) :
    status ∈ sec.pending := by
  obtain ⟨kind, id, plan, pc⟩ := sec
  have hset : ∀ {o : Option RowStatus}, o.map Statement.setStatus = some statement → status ∈ o.toList := by
    intro o ho
    obtain ⟨written, hwritten, rfl⟩ := Option.map_eq_some_iff.1 ho
    cases hleaves
    exact Option.mem_toList.2 hwritten
  cases pc with
  | marking =>
    have hmark := hset h
    simp [Section.pending, hmark]
  | calling => cases h
  | failing => exact hset h
  | undoing => exact hset h
  | finishing =>
    have hfinish : plan.finish = statement := by
      cases answer <;> simp_all [Section.advance]
    subst hfinish
    simp [Section.pending, hleaves]

theorem Section.pending_subset {pc : SectionPc} {rows : AccessRows}
    (h : (sec.advance rows answer).2 = .goes pc) : Section.pending { sec with pc := pc } ⊆ sec.pending := by
  obtain ⟨kind, id, plan, pc₀⟩ := sec
  intro status hstatus
  cases pc₀ with
  | marking =>
    cases h
    simp only [Section.pending, List.mem_append] at hstatus ⊢
    tauto
  | calling =>
    cases h
    split at hstatus <;> simp only [Section.pending, List.mem_append] at hstatus ⊢ <;> tauto
  | failing => cases h
  | undoing => cases h
  | finishing =>
    have hpc : pc = .undoing := by
      cases answer with
      | returns =>
        simp only [Section.advance] at h
        split at h
        · cases h
        · cases h
          rfl
      | raises =>
        cases h
        rfl
      | raisesAfter =>
        cases h
        rfl
    subst hpc
    simp only [Section.pending, List.mem_append] at hstatus ⊢
    exact Or.inr hstatus

def Plan.writes (plan : Plan) : List RowStatus :=
  plan.mark.toList ++ plan.failed.toList ++ plan.finish.leaves.toList ++ plan.undo.toList

theorem Section.pending_subset_writes : sec.pending ⊆ sec.plan.writes := by
  obtain ⟨kind, id, plan, pc⟩ := sec
  intro status hstatus
  cases pc <;> simp only [Section.pending, Plan.writes, List.mem_append] at hstatus ⊢ <;> tauto

instance : Decidable (Quiet deletes family status) :=
  inferInstanceAs (Decidable (if deletes then status.usable = false else status ∉ family.live))

/-- The decision of a method leads to quiet statuses only. -/
def Decision.keepsQuiet (deletes : Bool) (family : Family) : Decision → Bool
  | .goes plan => plan.writes.all fun written => Quiet deletes family written
  | .returns | .raises => true

theorem keepsQuiet_decide {method : Method} {kind : Kind} (hallowed : deletes = true ∨ method ≠ .delete)
    (hvalid : kind.family.hasStatus status = true) (hquiet : Quiet deletes kind.family status) :
    (method.decide kind status).keepsQuiet deletes kind.family = true := by
  revert hallowed hvalid hquiet
  rcases method with _ | _ | (_ | _) <;> cases deletes <;> cases kind <;> cases status <;> decide

/-- **A method that finds a quiet status writes quiet ones only.** -/
theorem quiet_of_decide {method : Method} {kind : Kind} {plan : Plan}
    (hallowed : deletes = true ∨ method ≠ .delete) (hvalid : kind.family.hasStatus status = true)
    (hquiet : Quiet deletes kind.family status) (h : method.decide kind status = .goes plan) :
    ∀ written ∈ plan.writes, Quiet deletes kind.family written := by
  have hkeeps := keepsQuiet_decide hallowed hvalid hquiet
  rw [h] at hkeeps
  exact fun written hwritten => of_decide_eq_true (List.all_eq_true.1 hkeeps written hwritten)

/-- A plan marks with a live status, and what it undoes it has found and left live. -/
def Decision.marksLive (family : Family) : Decision → Bool
  | .goes plan => plan.mark.all (· ∈ family.live) && (plan.undo.isNone ||
      plan.mark.isNone && plan.seen ∈ family.live && plan.finish.leaves.all (· ∈ family.live))
  | .returns | .raises => true

theorem marksLive_decide (method : Method) (kind : Kind) (status : RowStatus) :
    (method.decide kind status).marksLive kind.family = true := by
  rcases method with _ | _ | (_ | _) <;> cases kind <;> cases status <;> decide

theorem quiet_of_not_locked {method : Method} {kind : Kind} {plan : Plan} (hkind : kind.locked = false)
    (h : method.decide kind status = .goes plan) :
    ∀ written ∈ plan.writes, Quiet deletes kind.family written := by
  have hkeeps : (method.decide kind status).keepsQuiet deletes kind.family = true := by
    revert hkind
    rcases method with _ | _ | (_ | _) <;> cases deletes <;> cases kind <;> cases status <;> decide
  rw [h] at hkeeps
  exact fun written hwritten => of_decide_eq_true (List.all_eq_true.1 hkeeps written hwritten)

theorem quiet_pending {method : Method} (hallowed : deletes = true ∨ method ≠ .delete)
    (hvalid : sec.kind.family.hasStatus sec.plan.seen = true)
    (hplan : method.decide sec.kind sec.plan.seen = .goes sec.plan) (hexpects : status ∈ sec.expects)
    (hlive : status ∉ sec.kind.family.live) :
    ∀ written ∈ sec.pending, Quiet deletes sec.kind.family written := by
  have hmarks := marksLive_decide method sec.kind sec.plan.seen
  rw [hplan] at hmarks
  simp only [Decision.marksLive, Bool.and_eq_true, Bool.or_eq_true] at hmarks
  obtain ⟨hmark, hundo⟩ := hmarks
  have hseen : sec.plan.seen = status → ∀ written ∈ sec.pending, Quiet deletes sec.kind.family written := by
    intro heq written hwritten
    have hquiet : Quiet deletes sec.kind.family sec.plan.seen := heq ▸ quiet_of_not_live hlive
    exact quiet_of_decide hallowed hvalid hquiet hplan written (Section.pending_subset_writes hwritten)
  -- the section has not marked the row, since a mark is live
  have hmarked : status = sec.plan.mark.getD sec.plan.seen → sec.plan.seen = status := by
    intro heq
    cases hm : sec.plan.mark with
    | none =>
      rw [hm] at heq
      exact heq.symm
    | some mark =>
      rw [hm] at heq hmark
      exact absurd (heq ▸ of_decide_eq_true hmark) hlive
  unfold Section.expects at hexpects
  cases hpc : sec.pc with
  | marking =>
    rw [hpc] at hexpects
    exact hseen (List.mem_singleton.1 hexpects).symm
  | calling =>
    rw [hpc] at hexpects
    exact hseen (hmarked (List.mem_singleton.1 hexpects))
  | failing =>
    rw [hpc] at hexpects
    exact hseen (hmarked (List.mem_singleton.1 hexpects))
  | finishing =>
    rw [hpc] at hexpects
    exact hseen (hmarked (List.mem_singleton.1 hexpects))
  | undoing =>
    rw [hpc] at hexpects
    rcases List.mem_cons.1 hexpects with heq | hleaves
    · exact hseen (hmarked heq)
    · intro written hwritten
      unfold Section.pending at hwritten
      rw [hpc] at hwritten
      have hsome := Option.mem_toList.1 hwritten
      rw [hsome] at hundo
      obtain ⟨-, hfinish⟩ := hundo.resolve_left nofun
      rw [Option.mem_toList.1 hleaves] at hfinish
      exact absurd (of_decide_eq_true hfinish) hlive

/-! ### What the user owns -/

/-- What the user owns in a table is quiet, and so is what is going to be written to it. -/
structure AllQuiet (deletes : Bool) (family : Family) (target : ℤ) (s : State) : Prop where
  rows : ∀ row ∈ s.rows.rows, row.owner = target → row.kind.family = family →
    Quiet deletes family row.status
  sections : ∀ task ∈ s.tasks, (deletes = true ∨ task.method? ≠ some .delete) → ∀ sec,
    task.section? = some sec → ∀ row, s.rows.find? sec.id = some row → row.owner = target →
      row.kind.family = family → ∀ written ∈ sec.pending, Quiet deletes family written

/-- The call issues for a user and has passed its first check. -/
def Task.admitted : Task → Bool
  | .issue c =>
    match c.pc with
    | .admitted _ | .serving _ | .cleared _ | .inside _ _ _ => true
    | .start | .queued _ | .owned _ | .ended => false
  | .write _ | .block _ => false

/-- No call that issues for the user has passed its first check. -/
def NoneAdmitted (target : ℤ) (s : State) : Prop :=
  ∀ task ∈ s.tasks, task.issuesFor = some target → task.admitted = false

theorem Task.admitted_of_section {owner : ℤ} (h : task.section? = some sec)
    (hissues : task.issuesFor = some owner) : task.admitted = true := by
  cases task with
  | issue c =>
    obtain ⟨kind, owner, guest, pc⟩ := c
    cases pc with
    | inside l id pc => rfl
    | _ => cases h
  | write w => cases hissues
  | block c => cases hissues

/-- **An empty page says that what the user owns is quiet.** -/
theorem AllQuiet.of_empty_page (h : Exclusive s) (hnone : NoneAdmitted target s)
    (hpage : s.isPage target family [] = true) : AllQuiet deletes family target s := by
  have hrows : ∀ row ∈ s.rows.rows, row.owner = target → row.kind.family = family →
      row.status ∉ family.live := by
    intro row hrow howner hfamily hlive
    unfold State.isPage at hpage
    simp only [Bool.and_eq_true] at hpage
    have hany := hpage.2
    simp only [List.isEmpty_nil, Bool.not_true, Bool.false_or, Bool.not_eq_true', List.any_eq_false] at hany
    exact hany row hrow (by simp [howner, hfamily, hlive])
  refine ⟨fun row hrow howner hfamily => quiet_of_not_live (hrows row hrow howner hfamily), ?_⟩
  intro task htask hallowed sec hsec row hrow howner hfamily
  have hstable := h.stable task htask sec hsec
  have hkind := hstable.kind row hrow
  have hlive := hrows row (Rows.find?_eq_some_iff.1 hrow).1 howner hfamily
  rw [hkind] at hfamily
  subst hfamily
  rcases hstable.planned with hissues | ⟨method, hmethod, hvalid, hplan⟩
  · -- a call that issues for the user has not inserted a row yet
    obtain ⟨owner, hissues⟩ := Option.isSome_iff_exists.1 hissues
    have hsame := hstable.owner row owner hrow hissues
    have hadmitted := hnone task htask (by rw [hissues, ← hsame, howner])
    rw [Task.admitted_of_section hsec hissues] at hadmitted
    cases hadmitted
  · have hmethod' : deletes = true ∨ method ≠ .delete :=
      hallowed.imp_right fun hne hdelete => hne (hdelete ▸ hmethod)
    cases hlocked : sec.kind.locked with
    | true => exact quiet_pending hmethod' hvalid hplan (hstable.status hlocked row hrow) hlive
    | false =>
      exact fun written hwritten => quiet_of_not_locked hlocked hplan written
        (Section.pending_subset_writes hwritten)

theorem State.mem_apply (h : row ∈ (s.apply effect).rows.rows) : row ∈ s.rows.rows ∨
    (∃ owner kind status, effect = .insert owner kind status ∧ row.owner = owner) ∨
      ∃ id statement old, effect = .execute id statement ∧ s.rows.find? id = some old ∧
        row.kind = old.kind ∧ row.owner = old.owner ∧
          (row.status = old.status ∨ statement.leaves = some row.status) := by
  cases effect with
  | insert owner kind status =>
    rcases (Rows.mem_insert rfl).1 h with hrow | hrow
    · exact Or.inl hrow
    · exact Or.inr (Or.inl ⟨owner, kind, status, rfl, by rw [hrow]⟩)
  | execute id statement =>
    have hfind : (statement.execute id s.rows).find? row.id = some row :=
      Rows.find?_eq_some_iff.2 ⟨h, rfl⟩
    by_cases hid : row.id = id
    · rw [hid] at hfind
      obtain ⟨old, hold, -, hkind, howner, hstatus⟩ := Statement.find?_execute_self hfind
      exact Or.inr (Or.inr ⟨id, statement, old, rfl, hold, hkind, howner, hstatus⟩)
    · rw [Statement.find?_execute_of_ne hid] at hfind
      exact Or.inl (Rows.find?_eq_some_iff.1 hfind).1
  | _ => exact Or.inl h

/-- What a step of a call does besides its locks and its row: it writes no role but that of a block, and
inserts a row only if it issues and was admitted. -/
structure Behaves (s : State) (task : Task) (effect : Effect) (task' : Task) : Prop where
  role : ∀ u user, effect = .setRole u user → user.role = .blockedUser
  inserts : ∀ owner kind status, effect = .insert owner kind status →
    task.issuesFor = some owner ∧ task.admitted = true
  admits : ∀ owner, task.issuesFor = some owner → task'.admitted = true →
    task.admitted = true ∨ ∃ guest, ensureCanCreate guest (s.users owner) = true

/-- **A step keeps what the user owns quiet.** -/
theorem AllQuiet.moves (h : AllQuiet deletes family target s) (hexclusive : Exclusive s)
    (hnone : NoneAdmitted target s) (htask : s.tasks[i]? = some task) (hmoves : Moves s task effect task')
    (hbehaves : Behaves s task effect task')
    (hdeletes : deletes = true ∨ ∀ id statement, effect = .execute id statement →
      task.method? = some .delete → ∀ row, s.rows.find? id = some row → row.owner ≠ target) :
    AllQuiet deletes family target ((s.apply effect).put i task') := by
  have hmem := List.mem_of_getElem? htask
  have htasks : (s.apply effect).tasks = s.tasks := by cases effect <;> rfl
  have hnotissues : ∀ owner kind status, effect = .insert owner kind status → owner ≠ target := by
    rintro owner kind status heffect rfl
    obtain ⟨hissues, hadmitted⟩ := hbehaves.inserts owner kind status heffect
    rw [hnone task hmem hissues] at hadmitted
    cases hadmitted
  refine ⟨fun row hrow howner hfamily => ?_, fun a ha hallowed sec hsec row hrow howner hfamily => ?_⟩
  · rcases State.mem_apply hrow with hrow | ⟨owner, kind, status, heffect, howner'⟩ |
      ⟨id, statement, old, rfl, hold, hkind, howner', hstatus⟩
    · exact h.rows row hrow howner hfamily
    · exact absurd (howner'.symm.trans howner) (hnotissues owner kind status heffect)
    · rw [howner'] at howner
      rw [hkind] at hfamily
      rcases hstatus with hsame | hleaves
      · rw [hsame]
        exact h.rows old (Rows.find?_eq_some_iff.1 hold).1 howner hfamily
      · obtain ⟨sec, answer, hsec, rfl, hstatement⟩ := hmoves.executes _ _ rfl
        have hwritten := Section.mem_pending_advance hstatement hleaves
        refine h.sections task hmem ?_ sec hsec old hold howner hfamily _ hwritten
        exact hdeletes.imp_right fun hno hdelete => hno _ _ rfl hdelete old hold howner
  · rcases State.mem_put (s := s.apply effect) (htasks.symm ▸ htask) ha with rfl | ⟨j, hne, hj⟩
    · have hold : ∀ (hid : sec.id < s.rows.next), ∃ old, s.rows.find? sec.id = some old ∧
          old.owner = target ∧ old.kind.family = family := by
        intro hid
        rcases State.find?_apply hid hrow with hbefore | ⟨_, old, -, hbefore, hkind, howner', -⟩
        · exact ⟨row, hbefore, howner, hfamily⟩
        · exact ⟨old, hbefore, howner' ▸ howner, hkind ▸ hfamily⟩
      cases hmoves.arrives sec hsec with
      | goes before answer hbefore hsame hnext heffect =>
        have hid := (hexclusive.stable task hmem before hbefore).id_lt
        have hid' : sec.id = before.id := by rw [hsame]
        obtain ⟨old, hfind, howner, hfamily⟩ := hold (hid' ▸ hid)
        rw [hid'] at hfind
        intro written hwritten
        rw [hsame] at hwritten
        exact h.sections task hmem (by rwa [← hmoves.method]) before hbefore old hfind howner hfamily written
          (Section.pending_subset hnext hwritten)
      | read read method hread hkind hvalid hplan hpc hmethod heffect =>
        subst heffect
        obtain rfl := Option.some.inj (hread.symm.trans hrow)
        have hquiet := h.rows read (Rows.find?_eq_some_iff.1 hread).1 howner hfamily
        rw [hkind] at hfamily
        subst hfamily
        intro written hwritten
        refine quiet_of_decide ?_ hvalid hquiet hplan written (Section.pending_subset_writes hwritten)
        exact hallowed.imp_right fun hne hdelete => hne (hdelete ▸ hmethod)
      | created owner hid hplan hpc hissues heffect =>
        subst heffect
        rw [hid] at hrow
        obtain rfl := Option.some.inj ((Rows.find?_insert_self rfl).symm.trans hrow)
        exact absurd howner (hnotissues _ _ _ rfl)
    · rw [htasks] at hj
      have ha' := List.mem_of_getElem? hj
      have hid := (hexclusive.stable a ha' sec hsec).id_lt
      rcases State.find?_apply hid hrow with hbefore | ⟨_, old, -, hbefore, hkind, howner', -⟩
      · exact h.sections a ha' hallowed sec hsec row hbefore howner hfamily
      · exact h.sections a ha' hallowed sec hsec old hbefore (howner' ▸ howner) (hkind ▸ hfamily)

theorem Behaves.of_effect (hrole : ∀ u user, effect ≠ .setRole u user)
    (hinsert : ∀ owner kind status, effect ≠ .insert owner kind status)
    (hadmits : task'.admitted = true → task.admitted = true) : Behaves s task effect task' :=
  ⟨fun u user h => absurd h (hrole u user), fun owner kind status h => absurd h (hinsert owner kind status),
    fun _ _ h => Or.inl (hadmits h)⟩

theorem Effect.ofStatement_ne_setRole {st : Option Statement} (u : ℤ) (user : User) :
    Effect.ofStatement id st ≠ .setRole u user := by
  cases st <;> nofun

theorem Effect.ofStatement_ne_insert {st : Option Statement} (owner : ℤ) (kind : Kind)
    (status : RowStatus) : Effect.ofStatement id st ≠ .insert owner kind status := by
  cases st <;> nofun

theorem IssueCall.behaves {c : IssueCall} {pc : IssuePc} (h : c.advance s answer = some (effect, pc)) :
    Behaves s (.issue c) effect (.issue { c with pc := pc }) := by
  obtain ⟨kind, owner, guest, pc₀⟩ := c
  unfold IssueCall.advance at h
  cases pc₀ with
  | start =>
    cases h
    exact .of_effect (by rintro _ _ ⟨⟩) (by rintro _ _ _ ⟨⟩) nofun
  | queued l =>
    dsimp only at h
    split at h <;> cases h
    exact .of_effect (by rintro _ _ ⟨⟩) (by rintro _ _ _ ⟨⟩) nofun
  | owned l =>
    dsimp only at h
    cases hallowed : (decide (answer = .returns) && ensureCanCreate guest (s.users owner)) with
    | true =>
      rw [hallowed] at h
      cases h
      refine ⟨by rintro _ _ ⟨⟩, by rintro _ _ _ ⟨⟩, ?_⟩
      rintro _ ⟨⟩ -
      exact Or.inr ⟨guest, (Bool.and_eq_true_iff.1 hallowed).2⟩
    | false =>
      rw [hallowed] at h
      cases h
      exact .of_effect (by rintro _ _ ⟨⟩) (by rintro _ _ _ ⟨⟩) nofun
  | admitted l =>
    dsimp only at h
    split at h
    · cases h
      exact .of_effect (by rintro _ _ ⟨⟩) (by rintro _ _ _ ⟨⟩) nofun
    · split at h
      · split at h <;> cases h
        exact .of_effect (by rintro _ _ ⟨⟩) (by rintro _ _ _ ⟨⟩) fun _ => rfl
      · cases h
        exact .of_effect (by rintro _ _ ⟨⟩) (by rintro _ _ _ ⟨⟩) fun _ => rfl
  | serving l =>
    cases h
    exact .of_effect (by rintro _ _ ⟨⟩) (by rintro _ _ _ ⟨⟩) fun _ => rfl
  | cleared l =>
    dsimp only at h
    split at h <;> cases h <;> refine ⟨by rintro _ _ ⟨⟩, ?_, fun _ _ _ => Or.inl rfl⟩ <;> rintro _ _ _ ⟨⟩ <;>
      exact ⟨rfl, rfl⟩
  | inside l id pc₀ =>
    cases h
    exact .of_effect Effect.ofStatement_ne_setRole Effect.ofStatement_ne_insert fun _ => rfl
  | ended => cases h

theorem Writer.effect_of_advance {w : Writer} {pc : WriterPc}
    (h : w.advance s answer = some (effect, pc)) :
    (∀ u user, effect ≠ .setRole u user) ∧ ∀ owner kind status, effect ≠ .insert owner kind status := by
  have hnothing : effect = .nothing → (∀ u user, effect ≠ .setRole u user) ∧
      ∀ owner kind status, effect ≠ .insert owner kind status := by
    rintro rfl
    exact ⟨by rintro _ _ ⟨⟩, by rintro _ _ _ ⟨⟩⟩
  obtain ⟨method, kind, id, pc₀⟩ := w
  unfold Writer.advance at h
  cases pc₀ with
  | glancing =>
    dsimp only at h
    split at h
    · cases h
      exact hnothing rfl
    · split at h
      · cases h
        exact hnothing rfl
      · split at h <;> cases h <;> exact hnothing rfl
  | queued =>
    dsimp only at h
    split at h <;> cases h
    exact hnothing rfl
  | reading =>
    dsimp only at h
    split at h
    · cases h
      exact hnothing rfl
    · split at h
      · cases h
        exact hnothing rfl
      · split at h <;> cases h <;> exact hnothing rfl
  | inside plan pc₀ =>
    cases h
    exact ⟨Effect.ofStatement_ne_setRole, Effect.ofStatement_ne_insert⟩
  | ended => cases h

theorem BlockCall.effect_of_advance {c : BlockCall} {pc : BlockPc}
    (h : c.advance adminIds s answer page = some (effect, pc)) :
    (∀ u user, effect = .setRole u user → user.role = .blockedUser) ∧
      ∀ owner kind status, effect ≠ .insert owner kind status := by
  have hnothing : effect = .nothing → (∀ u user, effect = .setRole u user → user.role = .blockedUser) ∧
      ∀ owner kind status, effect ≠ .insert owner kind status := by
    rintro rfl
    exact ⟨by rintro _ _ ⟨⟩, by rintro _ _ _ ⟨⟩⟩
  obtain ⟨target, revokes, now, pc₀⟩ := c
  unfold BlockCall.advance at h
  cases pc₀ with
  | start =>
    cases h
    exact ⟨by rintro _ _ ⟨⟩, by rintro _ _ _ ⟨⟩⟩
  | queued l =>
    dsimp only at h
    split at h <;> cases h
    exact hnothing rfl
  | owned l =>
    dsimp only at h
    split at h
    · cases h
      exact hnothing rfl
    · split at h
      · cases h
        exact hnothing rfl
      · split at h <;> cases h <;> exact hnothing rfl
  | setting l =>
    dsimp only at h
    split at h <;> cases h
    · exact hnothing rfl
    · refine ⟨?_, by rintro _ _ _ ⟨⟩⟩
      rintro _ _ ⟨⟩
      rfl
  | listing l sweep errors =>
    dsimp only at h
    split at h
    · split at h
      · cases h
        exact hnothing rfl
      · split at h <;> cases h <;> exact hnothing rfl
    · cases h
  | revoking l sweep errors kind id pc₀ =>
    dsimp only at h
    split at h
    · cases h
      exact hnothing rfl
    · cases h
      exact hnothing rfl
    · obtain ⟨⟨_, _⟩, hadvance, heq⟩ := Option.map_eq_some_iff.1 h
      cases heq
      obtain ⟨hrole, hinsert⟩ := Writer.effect_of_advance hadvance
      exact ⟨fun u user hu => absurd hu (hrole u user), hinsert⟩
  | finishing l errors =>
    cases h
    exact hnothing rfl
  | ended errors => cases h

theorem Task.behaves (h : task.advance adminIds s answer page = some (effect, task')) :
    Behaves s task effect task' := by
  cases task with
  | issue c =>
    obtain ⟨⟨_, pc⟩, hadvance, heq⟩ := Option.map_eq_some_iff.1 h
    cases heq
    exact IssueCall.behaves hadvance
  | write w =>
    obtain ⟨⟨_, pc⟩, hadvance, heq⟩ := Option.map_eq_some_iff.1 h
    cases heq
    obtain ⟨hrole, hinsert⟩ := Writer.effect_of_advance hadvance
    exact .of_effect hrole hinsert nofun
  | block c =>
    obtain ⟨⟨_, pc⟩, hadvance, heq⟩ := Option.map_eq_some_iff.1 h
    cases heq
    obtain ⟨hrole, hinsert⟩ := BlockCall.effect_of_advance hadvance
    exact ⟨hrole, fun owner kind status heffect => absurd heffect (hinsert owner kind status), nofun⟩

theorem Behaves.of_admitted (h : task'.admitted = true → task.admitted = true) :
    Behaves s task .nothing task' :=
  .of_effect (by rintro _ _ ⟨⟩) (by rintro _ _ _ ⟨⟩) h

/-! ### The sweeps of `block_user` -/

namespace BlockPc

/-- The role is written. -/
def sweeping : BlockPc → Bool
  | .listing _ _ _ | .revoking _ _ _ _ _ _ | .finishing _ _ | .ended _ => true
  | .start | .queued _ | .owned _ | .setting _ => false

/-- A row that was not revoked is an error. -/
def Fair : BlockPc → Prop
  | .listing _ sweep errors | .revoking _ sweep errors _ _ _ => sweep.failed ≠ [] → errors ≠ []
  | _ => True

/-- The sweep of the table is over, and there are no errors. -/
def Swept (family : Family) : BlockPc → Prop
  | .listing _ sweep errors | .revoking _ sweep errors _ _ _ =>
    errors = [] ∧ sweep.family = .proxies ∧ family = .keys
  | .finishing _ errors | .ended (some errors) => errors = []
  | _ => False

end BlockPc

theorem Sweep.next_swept {sweep : Sweep} {l : ℕ} {errors : List ℕ}
    (hfair : sweep.failed ≠ [] → errors ≠ []) :
    (sweep.next l errors).sweeping = true ∧ (sweep.next l errors).Fair ∧
      ∀ family, (sweep.next l errors).Swept family →
        errors = [] ∧ sweep.family = .proxies ∧ family = .keys := by
  unfold Sweep.next
  split <;> exact ⟨rfl, hfair, fun _ h => h⟩

theorem Sweep.leave_swept {sweep : Sweep} {l : ℕ} {errors : List ℕ} :
    (sweep.leave l errors).sweeping = true ∧ (sweep.leave l errors).Fair ∧
      ∀ family, (sweep.leave l errors).Swept family → errors = [] ∧
        (sweep.family = .proxies ∧ family = .keys ∨ family = sweep.family) := by
  unfold Sweep.leave
  split
  · rename_i hfamily
    refine ⟨rfl, fun h => absurd rfl h, ?_⟩
    rintro family ⟨herrors, -, rfl⟩
    exact ⟨herrors, Or.inr hfamily.symm⟩
  · rename_i hfamily
    refine ⟨rfl, trivial, fun family h => ⟨h, ?_⟩⟩
    cases family with
    | keys => exact Or.inl ⟨hfamily, rfl⟩
    | proxies => exact Or.inr hfamily.symm

/-- **A sweep without errors ends at an empty page.** -/
theorem BlockCall.sweeps {c : BlockCall} {pc : BlockPc} (hsweeping : c.pc.sweeping = true)
    (hfair : c.pc.Fair) (h : c.advance adminIds s answer page = some (effect, pc)) :
    pc.sweeping = true ∧ pc.Fair ∧ ∀ family, pc.Swept family →
      c.pc.Swept family ∨ s.isPage c.target family [] = true := by
  obtain ⟨target, revokes, now, pc₀⟩ := c
  unfold BlockCall.advance at h
  cases pc₀ with
  | start => cases hsweeping
  | queued l => cases hsweeping
  | owned l => cases hsweeping
  | setting l => cases hsweeping
  | listing l sweep errors =>
    dsimp only at h
    split at h
    · rename_i hpage
      split at h
      · rename_i hempty
        cases h
        rw [List.isEmpty_iff] at hempty
        subst hempty
        obtain ⟨hsweep, hfair', hswept⟩ := @Sweep.leave_swept sweep l errors
        refine ⟨hsweep, hfair', fun family h => ?_⟩
        obtain ⟨herrors, ⟨hfamily, rfl⟩ | rfl⟩ := hswept family h
        · exact Or.inl ⟨herrors, hfamily, rfl⟩
        · exact Or.inr hpage
      · split at h
        · rename_i hempty hpending
          cases h
          obtain ⟨hsweep, hfair', hswept⟩ := @Sweep.leave_swept sweep l (errors ++ sweep.stuck page)
          refine ⟨hsweep, hfair', fun family h => ?_⟩
          -- a row of the page was tried before: it is stuck, or its error is there
          obtain ⟨herrors, hstuck⟩ := List.append_eq_nil_iff.1 (hswept family h).1
          rw [List.isEmpty_iff] at hempty hpending
          obtain ⟨id, hid⟩ := List.exists_mem_of_ne_nil page hempty
          have htried := List.filter_eq_nil_iff.1 hpending id hid
          have hnot := List.filter_eq_nil_iff.1 hstuck id hid
          simp only [decide_eq_true_eq, not_and, not_not] at htried hnot
          exact absurd herrors (hfair (List.ne_nil_of_mem (htried hnot)))
        · cases h
          let queue := ((sweep.pending page).filterMap s.rows.find?).map fun row => (row.id, row.kind)
          obtain ⟨hsweep, hfair', hswept⟩ := @Sweep.next_swept { sweep with queue := queue } l errors hfair
          exact ⟨hsweep, hfair', fun family h => Or.inl (hswept family h)⟩
    · cases h
  | revoking l sweep errors kind id pc₀ =>
    dsimp only at h
    split at h
    · cases h
      obtain ⟨hsweep, hfair', hswept⟩ :=
        @Sweep.next_swept { sweep with succeeded := id :: sweep.succeeded } l errors hfair
      exact ⟨hsweep, hfair', fun family h => Or.inl (hswept family h)⟩
    · cases h
      have herror : errors ++ [id] ≠ [] := List.append_ne_nil_of_right_ne_nil _ (List.cons_ne_nil _ _)
      obtain ⟨hsweep, hfair', hswept⟩ :=
        @Sweep.next_swept { sweep with failed := id :: sweep.failed } l (errors ++ [id]) fun _ => herror
      exact ⟨hsweep, hfair', fun family h => absurd (hswept family h).1 herror⟩
    · obtain ⟨⟨_, _⟩, -, heq⟩ := Option.map_eq_some_iff.1 h
      cases heq
      exact ⟨rfl, hfair, fun family hswept => Or.inl hswept⟩
  | finishing l errors =>
    cases h
    exact ⟨rfl, trivial, fun family hswept => Or.inl hswept⟩
  | ended errors => cases h

/-! ### After the role is written -/

/-- The user is blocked, nobody issues for the user, and what the block with number `t` has swept is
quiet. -/
structure Blocked (deletes : Bool) (target : ℤ) (t : ℕ) (s : State) : Prop where
  role : ∃ user, s.users target = some user ∧ user.role = .blockedUser
  outside : NoneAdmitted target s
  call : ∃ c, s.tasks[t]? = some (.block c) ∧ c.target = target ∧ c.pc.sweeping = true ∧ c.pc.Fair ∧
    ∀ family, c.pc.Swept family → AllQuiet deletes family target s

/-- No other method gives the user another role. -/
def KeepsRole (target : ℤ) : Action → Prop
  | .setRole user row => user = target → row.role = .blockedUser
  | _ => True

/-- The step is not one of a deletion of what the user owns. -/
def NotDeletes (target : ℤ) (s : State) : Action → Prop
  | .next i _ _ => ∀ w row, s.tasks[i]? = some (.write w) → w.method = .delete →
      s.rows.find? w.id = some row → row.owner ≠ target
  | _ => True

/-- The condition on the steps. -/
def KeepsBlocked (deletes : Bool) (target : ℤ) (s : State) (a : Action) : Prop :=
  KeepsRole target a ∧ (deletes = true ∨ NotDeletes target s a)

theorem not_ensureCanCreate {user : User} (h : user.role = .blockedUser) (guest : Bool) :
    ensureCanCreate guest (some user) = false := by
  cases guest <;> simp [ensureCanCreate, approvedOrAdmin, isBlockedUser, h]

theorem AllQuiet.of_same (h : AllQuiet deletes family target s) (hrows : s'.rows = s.rows)
    (htasks : ∀ task ∈ s'.tasks, task ∈ s.tasks ∨ task.section? = none) :
    AllQuiet deletes family target s' := by
  refine ⟨hrows ▸ h.rows, fun task htask hallowed sec hsec row hrow => ?_⟩
  rcases htasks task htask with hmem | hnone
  · rw [hrows] at hrow
    exact h.sections task hmem hallowed sec hsec row hrow
  · rw [hnone] at hsec
    cases hsec

/-- A step of a call. -/
theorem Blocked.moves {t : ℕ} (h : Blocked deletes target t s) (hexclusive : Exclusive s)
    (htask : s.tasks[i]? = some task) (hmoves : Moves s task effect task')
    (hbehaves : Behaves s task effect task')
    (hdeletes : deletes = true ∨ ∀ id statement, effect = .execute id statement →
      task.method? = some .delete → ∀ row, s.rows.find? id = some row → row.owner ≠ target)
    (hblock : ∀ c, task = .block c → c.pc.sweeping = true → c.pc.Fair → ∃ c', task' = .block c' ∧
      c'.target = c.target ∧ c'.pc.sweeping = true ∧ c'.pc.Fair ∧ ∀ family, c'.pc.Swept family →
        c.pc.Swept family ∨ s.isPage c.target family [] = true) :
    Blocked deletes target t ((s.apply effect).put i task') := by
  have hmem := List.mem_of_getElem? htask
  have htasks : (s.apply effect).tasks = s.tasks := by cases effect <;> rfl
  obtain ⟨user, huser, hrole⟩ := h.role
  have hquiet : ∀ {family}, AllQuiet deletes family target s →
      AllQuiet deletes family target ((s.apply effect).put i task') := fun hfamily =>
    hfamily.moves hexclusive h.outside htask hmoves hbehaves hdeletes
  refine ⟨?_, fun a ha hissues => ?_, ?_⟩
  · cases effect with
    | setRole u row =>
      by_cases hu : u = target
      · subst hu
        exact ⟨row, Function.update_self .., hbehaves.role u row rfl⟩
      · exact ⟨user, (Function.update_of_ne (Ne.symm hu) ..).trans huser, hrole⟩
    | _ => exact ⟨user, huser, hrole⟩
  · rcases State.mem_put (s := s.apply effect) (htasks.symm ▸ htask) ha with rfl | ⟨j, -, hj⟩
    · rw [hmoves.issuesFor] at hissues
      by_contra hadmitted
      rcases hbehaves.admits target hissues (by simpa using hadmitted) with hbefore | ⟨guest, hcan⟩
      · rw [h.outside task hmem hissues] at hbefore
        cases hbefore
      · rw [huser, not_ensureCanCreate hrole] at hcan
        cases hcan
    · rw [htasks] at hj
      exact h.outside a (List.mem_of_getElem? hj) hissues
  · obtain ⟨c, hc, htarget, hsweeping, hfair, hswept⟩ := h.call
    have hput : ((s.apply effect).put i task').tasks = s.tasks.set i task' := by
      show (s.apply effect).tasks.set i task' = _
      rw [htasks]
    rw [hput]
    by_cases hti : t = i
    · subst hti
      obtain rfl := Option.some.inj (hc.symm.trans htask)
      obtain ⟨c', rfl, htarget', hsweeping', hfair', hswept'⟩ := hblock c rfl hsweeping hfair
      refine ⟨c', List.getElem?_set_self (List.getElem?_eq_some_iff.1 htask).1, htarget'.trans htarget,
        hsweeping', hfair', fun family hfamily => hquiet ?_⟩
      rcases hswept' family hfamily with hbefore | hpage
      · exact hswept family hbefore
      · rw [htarget] at hpage
        exact .of_empty_page hexclusive h.outside hpage
    · exact ⟨c, (List.getElem?_set_ne (Ne.symm hti)).trans hc, htarget, hsweeping, hfair,
        fun family hfamily => hquiet (hswept family hfamily)⟩

theorem BlockCall.goes_on {c : BlockCall} (hsweeping : c.pc.sweeping = true) (hfair : c.pc.Fair)
    (h : (Task.block c).advance adminIds s answer page = some (effect, task')) :
    ∃ c', task' = .block c' ∧ c'.target = c.target ∧ c'.pc.sweeping = true ∧ c'.pc.Fair ∧
      ∀ family, c'.pc.Swept family → c.pc.Swept family ∨ s.isPage c.target family [] = true := by
  obtain ⟨⟨_, pc⟩, hadvance, heq⟩ := Option.map_eq_some_iff.1 h
  cases heq
  obtain ⟨hsweeping', hfair', hswept⟩ := BlockCall.sweeps hsweeping hfair hadvance
  exact ⟨_, rfl, rfl, hsweeping', hfair', hswept⟩

theorem BlockCall.cancel_goes_on (c : BlockCall) : ∃ c', (Task.block c).cancel = .block c' ∧
    c'.target = c.target ∧ c'.pc.sweeping = true ∧ c'.pc.Fair ∧
      ∀ family, c'.pc.Swept family → c.pc.Swept family ∨ s.isPage c.target family [] = true :=
  ⟨_, rfl, rfl, rfl, trivial, fun _ h => absurd h id⟩

theorem BlockCall.fault_goes_on (c : BlockCall) (hfair : c.pc.Fair) : ∃ c', (Task.block c).fault = .block c' ∧
    c'.target = c.target ∧ c'.pc.sweeping = true ∧ c'.pc.Fair ∧
      ∀ family, c'.pc.Swept family → c.pc.Swept family ∨ s.isPage c.target family [] = true := by
  obtain ⟨target, revokes, now, pc⟩ := c
  cases pc with
  | revoking l sweep errors kind id pc => exact ⟨_, rfl, rfl, rfl, hfair, fun _ h => Or.inl h⟩
  | _ => exact BlockCall.cancel_goes_on _

theorem Task.not_admitted_of_fresh (h : task.fresh = true) : task.admitted = false := by
  cases task with
  | issue c =>
    have hpc : c.pc = .start := of_decide_eq_true h
    simp [Task.admitted, hpc]
  | write w => rfl
  | block c => rfl

theorem Task.holds_of_admitted (hissues : task.issuesFor = some target) (h : task.admitted = true) :
    ∃ l, task.holds = some l ∧ task.reference = some (target, l) := by
  cases task with
  | issue c =>
    obtain ⟨kind, owner, guest, pc⟩ := c
    cases hissues
    cases pc with
    | admitted l => exact ⟨l, rfl, rfl⟩
    | serving l => exact ⟨l, rfl, rfl⟩
    | cleared l => exact ⟨l, rfl, rfl⟩
    | inside l id pc => exact ⟨l, rfl, rfl⟩
    | _ => cases h
  | write w => cases hissues
  | block c => cases hissues

theorem Writer.id_of_section {w : Writer} (h : w.section? = some sec) : sec.id = w.id := by
  obtain ⟨method, kind, id, pc⟩ := w
  cases pc <;> cases h
  rfl

theorem Task.not_admitted_cancel : task.cancel.admitted = false := by
  cases task <;> rfl

theorem Task.not_admitted_fault : task.fault.admitted = false := by
  cases task with
  | issue c => rfl
  | write w => rfl
  | block c =>
    obtain ⟨target, revokes, now, pc⟩ := c
    cases pc <;> rfl

/-- **What is blocked stays blocked, and what is swept stays quiet.** -/
theorem Blocked.keeps {t : ℕ} {a : Action} (h : Blocked deletes target t s) (hexclusive : Exclusive s)
    (hallowed : KeepsBlocked deletes target s a) (hstep : step adminIds s a = some s') :
    Blocked deletes target t s' := by
  obtain ⟨hrole, hdeletes⟩ := hallowed
  cases a with
  | start task =>
    simp only [step] at hstep
    split at hstep
    · rename_i hfresh
      cases hstep
      obtain ⟨-, -, -, hsection⟩ := Task.idle_of_fresh hfresh
      refine ⟨h.role, fun a ha hissues => ?_, ?_⟩
      · rcases List.mem_append.1 ha with ha | ha
        · exact h.outside a ha hissues
        · rw [List.mem_singleton.1 ha]
          -- a task that starts now has not passed its role check
          exact Task.not_admitted_of_fresh hfresh
      · obtain ⟨c, hc, htarget, hsweeping, hfair, hswept⟩ := h.call
        refine ⟨c, ?_, htarget, hsweeping, hfair, fun family hfamily => (hswept family hfamily).of_same rfl ?_⟩
        · exact (List.getElem?_append_left (List.getElem?_eq_some_iff.1 hc).1).trans hc
        · intro a ha
          refine (List.mem_append.1 ha).imp_right fun ha => ?_
          rw [List.mem_singleton.1 ha]
          exact hsection
    · cases hstep
  | next i answer page =>
    obtain ⟨task, htask, hnext⟩ := Option.bind_eq_some_iff.1 hstep
    obtain ⟨⟨effect, task'⟩, hadvance, rfl⟩ := Option.map_eq_some_iff.1 hnext
    have hmoves := Task.moves hadvance
    refine h.moves hexclusive htask hmoves (Task.behaves hadvance) ?_ ?_
    · refine hdeletes.imp_right fun hno id statement heffect hmethod row hrow => ?_
      obtain ⟨sec, _, hsec, rfl, -⟩ := hmoves.executes id statement heffect
      cases task with
      | issue c => cases hmethod
      | write w =>
        refine hno w row htask (Option.some.inj hmethod) ?_
        rwa [Writer.id_of_section hsec] at hrow
      | block c => cases hmethod
    · rintro c rfl hsweeping hfair
      exact BlockCall.goes_on hsweeping hfair hadvance
  | fault i =>
    obtain ⟨task, htask, hnext⟩ := Option.bind_eq_some_iff.1 hstep
    split at hnext
    · cases hnext
      refine h.moves hexclusive htask Task.fault_moves (.of_admitted ?_) (Or.inr fun _ _ h => by cases h) ?_
      · rw [Task.not_admitted_fault]
        rintro ⟨⟩
      · rintro c rfl - hfair
        exact BlockCall.fault_goes_on c hfair
    · cases hnext
  | cancel i =>
    obtain ⟨task, htask, hnext⟩ := Option.bind_eq_some_iff.1 hstep
    split at hnext
    · cases hnext
      refine h.moves hexclusive htask Task.cancel_moves (.of_admitted ?_) (Or.inr fun _ _ h => by cases h) ?_
      · rw [Task.not_admitted_cancel]
        rintro ⟨⟩
      · rintro c rfl - -
        exact BlockCall.cancel_goes_on c
    · cases hnext
  | collect user =>
    simp only [step] at hstep
    split at hstep
    · cases hstep
      obtain ⟨c, hc, htarget, hsweeping, hfair, hswept⟩ := h.call
      exact ⟨h.role, h.outside, c, hc, htarget, hsweeping, hfair, fun family hfamily =>
        (hswept family hfamily).of_same rfl fun a ha => Or.inl ha⟩
    · cases hstep
  | setRole user row =>
    cases hstep
    obtain ⟨c, hc, htarget, hsweeping, hfair, hswept⟩ := h.call
    refine ⟨?_, h.outside, c, hc, htarget, hsweeping, hfair, fun family hfamily =>
      (hswept family hfamily).of_same rfl fun a ha => Or.inl ha⟩
    obtain ⟨old, hold, hblocked⟩ := h.role
    -- a row of another user leaves the role of the blocked one
    by_cases hu : user = target
    · subst hu
      exact ⟨row, Function.update_self .., hrole rfl⟩
    · exact ⟨old, (Function.update_of_ne (Ne.symm hu) ..).trans hold, hblocked⟩

/-- The step with which `block_user` writes the role. -/
theorem Blocked.of_setting {t l : ℕ} {c : BlockCall} (hexclusive : Exclusive s)
    (hc : s.tasks[t]? = some (.block c)) (hpc : c.pc = .setting l)
    (hrevokes : c.revokeActiveKeys = true) (hstep : step adminIds s (.next t answer page) = some s')
    (hwritten : s.users c.target ≠ none) : Blocked deletes c.target t s' := by
  obtain ⟨task, htask, hnext⟩ := Option.bind_eq_some_iff.1 hstep
  obtain rfl := Option.some.inj (hc.symm.trans htask)
  obtain ⟨⟨effect, task'⟩, hadvance, rfl⟩ := Option.map_eq_some_iff.1 hnext
  obtain ⟨user, huser⟩ := Option.ne_none_iff_exists'.1 hwritten
  have hlt := (List.getElem?_eq_some_iff.1 hc).1
  simp only [Task.advance, BlockCall.advance, hpc, huser, hrevokes, if_true, Option.map_some,
    Option.some.injEq, Prod.mk.injEq] at hadvance
  obtain ⟨rfl, rfl⟩ := hadvance
  have hhold : (Task.block c).holds = some l := by simp [Task.holds, hpc]
  have href : (Task.block c).reference = some (c.target, l) := by simp [Task.reference, hpc]
  refine ⟨⟨_, Function.update_self .., rfl⟩, fun a ha hissues => ?_, ?_⟩
  · rcases State.mem_put (s := s.apply _) hc ha with rfl | ⟨j, hj, haj⟩
    · rfl
    · -- whoever was admitted holds the lock that the block holds
      by_contra hadmitted
      obtain ⟨l', hhold', href'⟩ := Task.holds_of_admitted hissues (by simpa using hadmitted)
      have hlock := hexclusive.refs a (List.mem_of_getElem? haj) _ _ href'
      rw [hexclusive.refs _ (List.mem_of_getElem? hc) _ _ href] at hlock
      obtain rfl := Option.some.inj hlock
      exact hj (hexclusive.locks j t a _ l haj hc hhold' hhold)
  · exact ⟨_, List.getElem?_set_self hlt, rfl, rfl, fun h => absurd rfl h, by rintro family ⟨-, h, -⟩; cases h⟩

/-! ### Runs -/

theorem Blocked.run {t : ℕ} {as : List Action} (h : Blocked deletes target t s) (hexclusive : Exclusive s)
    (hallowed : Allowed (step adminIds) (KeepsBlocked deletes target) s as)
    (hrun : runFrom (step adminIds) s as = some s') : Blocked deletes target t s' := by
  have hstep : ∀ s a s', Exclusive s ∧ Blocked deletes target t s → KeepsBlocked deletes target s a →
      step adminIds s a = some s' → Exclusive s' ∧ Blocked deletes target t s' := fun _ _ _ hs hkeeps hnext =>
    ⟨hs.1.happens (happens_of_step hnext), hs.2.keeps hs.1 hkeeps hnext⟩
  have hboth : Exclusive s' ∧ Blocked deletes target t s' :=
    @invariant_of_allowed _ _ _ _ (fun s => Exclusive s ∧ Blocked deletes target t s) _ _ hstep _
      ⟨hexclusive, h⟩ hallowed hrun
  exact hboth.2

/-- A call that has ended makes no step. -/
theorem Task.advance_of_not_running (h : task.running = false) :
    task.advance adminIds s answer page = none := by
  cases task with
  | issue c =>
    obtain ⟨kind, owner, guest, pc⟩ := c
    cases pc <;> first | rfl | cases h
  | write w =>
    obtain ⟨method, kind, id, pc⟩ := w
    cases pc <;> first | rfl | cases h
  | block c =>
    obtain ⟨target, revokes, now, pc⟩ := c
    cases pc <;> first | rfl | cases h

/-- How a call has ended stays as it is. -/
theorem getElem?_of_not_running {t : ℕ} {a : Action} (htask : s.tasks[t]? = some task)
    (hrunning : task.running = false) (hstep : step adminIds s a = some s') : s'.tasks[t]? = some task := by
  have hput : ∀ {i other other' effect}, s.tasks[i]? = some other → t ≠ i →
      ((s.apply effect).put i other').tasks[t]? = some task := by
    intro i other other' effect _ hne
    have htasks : (s.apply effect).tasks = s.tasks := by cases effect <;> rfl
    show ((s.apply effect).tasks.set i other')[t]? = _
    rw [List.getElem?_set_ne (Ne.symm hne), htasks]
    exact htask
  have hne : ∀ {i other}, s.tasks[i]? = some other → other.running = true → t ≠ i := by
    rintro i other hother hrun rfl
    obtain rfl := Option.some.inj (htask.symm.trans hother)
    rw [hrunning] at hrun
    cases hrun
  cases a with
  | start other =>
    simp only [step] at hstep
    split at hstep <;> cases hstep
    exact (List.getElem?_append_left (List.getElem?_eq_some_iff.1 htask).1).trans htask
  | next i answer page =>
    obtain ⟨other, hother, hnext⟩ := Option.bind_eq_some_iff.1 hstep
    obtain ⟨⟨effect, other'⟩, hadvance, rfl⟩ := Option.map_eq_some_iff.1 hnext
    refine hput hother (hne hother ?_)
    by_contra hrun
    rw [Task.advance_of_not_running (by simpa using hrun)] at hadvance
    cases hadvance
  | fault i =>
    obtain ⟨other, hother, hnext⟩ := Option.bind_eq_some_iff.1 hstep
    split at hnext <;> cases hnext
    exact @hput _ _ _ .nothing hother (hne hother ‹_›)
  | cancel i =>
    obtain ⟨other, hother, hnext⟩ := Option.bind_eq_some_iff.1 hstep
    split at hnext <;> cases hnext
    exact @hput _ _ _ .nothing hother (hne hother ‹_›)
  | collect user =>
    simp only [step] at hstep
    split at hstep <;> cases hstep
    exact htask
  | setRole user row =>
    cases hstep
    exact htask

/-- Call number `t` is a `block_user` that revokes and is about to write the role. -/
def AboutToBlock (t : ℕ) (target : ℤ) (s : State) : Prop :=
  ∃ c l, s.tasks[t]? = some (.block c) ∧ c.target = target ∧ c.revokeActiveKeys = true ∧ c.pc = .setting l

/-- Call number `t` is a `block_user` that has returned without errors. -/
def BlockedWithoutErrors (t : ℕ) (s : State) : Prop :=
  ∃ c, s.tasks[t]? = some (.block c) ∧ c.pc = .ended (some [])

/-- After the step that writes the role the user is blocked, unless the row of the user is gone and the
call has raised. -/
theorem blocked_or_ended {t : ℕ} (hexclusive : Exclusive s) (hblock : AboutToBlock t target s)
    (hstep : step adminIds s (.next t answer page) = some s') :
    Blocked deletes target t s' ∨
      ∃ c, s'.tasks[t]? = some (.block c) ∧ c.pc = .ended none := by
  obtain ⟨c, l, hc, rfl, hrevokes, hpc⟩ := hblock
  cases huser : s.users c.target with
  | some user => exact Or.inl (.of_setting hexclusive hc hpc hrevokes hstep (by rw [huser]; nofun))
  | none =>
    obtain ⟨task, htask, hnext⟩ := Option.bind_eq_some_iff.1 hstep
    obtain rfl := Option.some.inj (hc.symm.trans htask)
    obtain ⟨⟨effect, task'⟩, hadvance, rfl⟩ := Option.map_eq_some_iff.1 hnext
    simp only [Task.advance, BlockCall.advance, hpc, huser, Option.map_some, Option.some.injEq,
      Prod.mk.injEq] at hadvance
    obtain ⟨rfl, rfl⟩ := hadvance
    exact Or.inr ⟨_, List.getElem?_set_self (List.getElem?_eq_some_iff.1 hc).1, rfl⟩

/-- **Blocking and issuing exclude each other.**  In every run of any number of calls, once a `block_user`
has written the role and has returned without errors, and as long as nobody gives the user another role,
the user owns no key and no proxy access that is active or may become so; and none in a status that
`block_user` looks for, unless someone deletes what the user owns. -/
theorem blocked_owns_nothing_live {s₀ s₁ s₂ : State} {before after : List Action} {t : ℕ}
    (hstart : s₀.tasks = []) (hbefore : runFrom (step adminIds) s₀ before = some s₁)
    (hblock : AboutToBlock t target s₁) (hset : step adminIds s₁ (.next t answer page) = some s₂)
    (hafter : runFrom (step adminIds) s₂ after = some s)
    (hrole : Allowed (step adminIds) (fun _ => KeepsRole target) s₂ after)
    (hreturned : BlockedWithoutErrors t s) :
    ∀ row ∈ s.rows.rows, row.owner = target → row.status.usable = false ∧
      (Allowed (step adminIds) (NotDeletes target) s₂ after → row.status ∉ row.kind.family.live) := by
  have hexclusive := (Exclusive.start hstart).run hbefore
  have hexclusive' := hexclusive.happens (happens_of_step hset)
  have hquiet : ∀ {deletes}, Allowed (step adminIds) (KeepsBlocked deletes target) s₂ after →
      ∀ family, AllQuiet deletes family target s := by
    intro deletes hallowed family
    obtain ⟨c', hc', hpc'⟩ := hreturned
    have hcases : Blocked deletes target t s₂ ∨ ∃ c, s₂.tasks[t]? = some (.block c) ∧ c.pc = .ended none :=
      blocked_or_ended hexclusive hblock hset
    rcases hcases with hblocked | ⟨c, hc, hpc⟩
    · obtain ⟨c, hc, -, -, -, hswept⟩ := (hblocked.run hexclusive' hallowed hafter).call
      cases hc.symm.trans hc'
      exact hswept family (by rw [hpc']; rfl)
    · have hstep : ∀ s a s', s.tasks[t]? = some (.block c) → True → step adminIds s a = some s' →
          s'.tasks[t]? = some (.block c) := fun _ _ _ hs _ hnext =>
        getElem?_of_not_running hs (by simp [Task.running, hpc]) hnext
      have hstays : s.tasks[t]? = some (.block c) :=
        @invariant_of_allowed _ _ _ _ (fun s => s.tasks[t]? = some (.block c)) _ _ hstep _ hc
          (allowed_of_forall (fun _ _ _ => trivial) s₂) hafter
      cases hstays.symm.trans hc'
      rw [hpc] at hpc'
      cases hpc'
  refine fun row hrow howner => ⟨?_, fun hdeletes => ?_⟩
  · have hallowed : Allowed (step adminIds) (KeepsBlocked true target) s₂ after :=
      hrole.mono fun _ _ h => ⟨h, Or.inl rfl⟩
    exact (hquiet hallowed row.kind.family).rows row hrow howner rfl
  · have hallowed : Allowed (step adminIds) (KeepsBlocked false target) s₂ after :=
      (hrole.and hdeletes).mono fun _ _ h => ⟨h.1, Or.inr h.2⟩
    exact (hquiet hallowed row.kind.family).rows row hrow howner rfl

/-- A user 5 who may issue, and nothing else. -/
def oneUser : State :=
  ⟨fun id => if id = 5 then some ⟨.approvedUser, none⟩ else none, .empty, fun _ => none, 0, []⟩

/-- A SOCKS5 access is issued while a block waits for the lock of the user. -/
def issueBeforeBlock : List Action :=
  [.start (.issue ⟨.socks5, 5, false, .start⟩), .start (.block ⟨5, true, some 0, .start⟩),
    .next 0 .returns [], .next 1 .returns [], .next 0 .returns [], .next 0 .returns [],
    .next 0 .returns [], .next 0 .returns [], .next 0 .returns [], .next 0 .returns [],
    .next 0 .returns [], .next 1 .returns [], .next 1 .returns []]

/-- The block revokes the access; a second call that issues is refused. -/
def sweepAndRefuse : List Action :=
  [.start (.issue ⟨.xray, 5, true, .start⟩), .next 2 .returns [], .next 1 .returns [],
    .next 1 .returns [1], .next 1 .returns [], .next 1 .returns [], .next 1 .returns [],
    .next 1 .returns [], .next 1 .returns [], .next 1 .returns [], .next 1 .returns [],
    .next 1 .returns [], .next 1 .returns [], .next 2 .returns [], .next 2 .returns []]

theorem blocked_owns_nothing_live_issueBeforeBlock : ∃ s, runFrom (step []) oneUser
    (issueBeforeBlock ++ .next 1 .returns [] :: sweepAndRefuse) = some s ∧
      s.rows.rows.map Row.status = [.revoked] ∧
        ∀ row ∈ s.rows.rows, row.owner = 5 → row.status.usable = false :=
  ⟨_, rfl, rfl, fun row hrow howner => (@blocked_owns_nothing_live [] _ .returns [] 5 oneUser _ _
    issueBeforeBlock sweepAndRefuse 1 rfl rfl ⟨_, _, rfl, rfl, rfl, rfl⟩ rfl rfl
    (allowed_of_forall (by simp [sweepAndRefuse, KeepsRole]) _) ⟨_, rfl, rfl⟩ row hrow howner).1⟩

end VpnBot.Issuing
