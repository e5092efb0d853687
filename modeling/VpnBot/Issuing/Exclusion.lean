import VpnBot.Issuing.Calls
import VpnBot.System.Tasks

/-!
# The locks of the calls

What a step of a call can do (`Moves`), and from it the invariant of all runs (`Exclusive`): no two calls
hold the lock of one user or of one service, and the row that a call works on has the status that the call
has read or written, since all others wait for the lock.
-/

namespace VpnBot.Issuing

open Sys Users

variable {adminIds : List ℤ} {s s' : State} {task task' : Task} {effect : Effect} {answer : Answer}
  {page : List ℕ} {sec : Section} {id i : ℕ} {statement : Statement} {rows : AccessRows} {row : Row}

/-! ### Statements -/

theorem Statement.find?_execute_of_ne {j : ℕ} (h : j ≠ id) :
    (statement.execute id rows).find? j = rows.find? j := by
  unfold Statement.execute
  cases statement.leaves with
  | none => exact Rows.find?_delete_of_ne h
  | some status => exact Rows.find?_update_of_ne _ h

@[simp] theorem Statement.execute_next : (statement.execute id rows).next = rows.next := by
  unfold Statement.execute
  cases statement.leaves <;> rfl

theorem Statement.find?_execute_self (h : (statement.execute id rows).find? id = some row) :
    ∃ old, rows.find? id = some old ∧ row.id = old.id ∧ row.kind = old.kind ∧ row.owner = old.owner ∧
      (row.status = old.status ∨ statement.leaves = some row.status) := by
  unfold Statement.execute at h
  cases hleaves : statement.leaves with
  | none =>
    rw [hleaves] at h
    rw [Rows.find?_delete_self] at h
    cases h
  | some status =>
    rw [hleaves] at h
    rw [Rows.find?_update_self] at h
    obtain ⟨old, hold, rfl⟩ := Option.map_eq_some_iff.1 h
    refine ⟨old, hold, write_id _ _ _, write_kind _ _ _, write_owner _ _ _, ?_⟩
    unfold Statement.write
    split
    · exact Or.inr rfl
    · exact Or.inl rfl

theorem Statement.status_setStatus {status : RowStatus}
    (h : ((Statement.setStatus status).execute id rows).find? id = some row) :
    row.status = status := by
  unfold Statement.execute at h
  rw [show (Statement.setStatus status).leaves = some status from rfl] at h
  rw [Rows.find?_update_self] at h
  obtain ⟨old, -, rfl⟩ := Option.map_eq_some_iff.1 h
  rfl

/-! ### What a step of a call can do -/

/-- The method of a call on a row. -/
def Task.method? : Task → Option Method
  | .issue _ => none
  | .write w => some w.method
  | .block _ => some .revoke

/-- The owner for whom a call issues. -/
def Task.issuesFor : Task → Option ℤ
  | .issue c => some c.owner
  | .write _ | .block _ => none

/-- Where the section of a call comes from. -/
inductive Arrives (s : State) (task : Task) (effect : Effect) (task' : Task) (sec : Section) : Prop
  /-- The section goes on. -/
  | goes (old : Section) (answer : Answer) (hold : task.section? = some old)
    (hsame : sec = { old with pc := sec.pc }) (hnext : (old.advance s.rows answer).2 = .goes sec.pc)
    (heffect : effect = .ofStatement old.id (old.advance s.rows answer).1)
  /-- The method has read the row. -/
  | read (row : Row) (method : Method) (hrow : s.rows.find? sec.id = some row)
    (hkind : row.kind = sec.kind) (hstatus : sec.kind.family.hasStatus row.status = true)
    (hplan : method.decide sec.kind row.status = .goes sec.plan)
    (hpc : sec.pc = Section.entry sec.plan) (hmethod : task'.method? = some method)
    (heffect : effect = .nothing)
  /-- The row has been inserted. -/
  | created (owner : ℤ) (hid : sec.id = s.rows.next) (hplan : sec.plan = .created)
    (hpc : sec.pc = .calling ∨ sec.pc = .finishing) (howner : task'.issuesFor = some owner)
    (heffect : effect = .insert owner sec.kind .pendingApply)

/-- A step of a call, as far as the others can see it. -/
structure Moves (s : State) (task : Task) (effect : Effect) (task' : Task) : Prop where
  method : task'.method? = task.method?
  issuesFor : task'.issuesFor = task.issuesFor
  reference : task'.reference = none ∨ task'.reference = task.reference ∨
    ∃ u, effect = .fetch u ∧ task'.reference = some (u, s.lockOf u)
  holds : ∀ l, task'.holds = some l → task.holds = some l ∨ s.lockFree l = true
  serves : ∀ k, task'.serves = some k → task.serves = some k ∨ s.serviceFree k = true
  executes : ∀ id statement, effect = .execute id statement →
    ∃ sec answer, task.section? = some sec ∧ sec.id = id ∧
      (sec.advance s.rows answer).1 = some statement
  arrives : ∀ sec, task'.section? = some sec → Arrives s task effect task' sec

/-- A call that ends, or that makes a step of no interest to the others. -/
theorem Moves.of_quiet (hmethod : task'.method? = task.method?)
    (hissues : task'.issuesFor = task.issuesFor)
    (hreference : task'.reference = none ∨ task'.reference = task.reference ∨
      ∃ u, effect = .fetch u ∧ task'.reference = some (u, s.lockOf u))
    (hholds : ∀ l, task'.holds = some l → task.holds = some l ∨ s.lockFree l = true)
    (hserves : ∀ k, task'.serves = some k → task.serves = some k ∨ s.serviceFree k = true)
    (hsection : task'.section? = none) (heffect : ∀ id statement, effect ≠ .execute id statement) :
    Moves s task effect task' where
  method := hmethod
  issuesFor := hissues
  reference := hreference
  holds := hholds
  serves := hserves
  executes id statement h := absurd h (heffect id statement)
  arrives sec h := by
    rw [hsection] at h
    cases h

theorem Effect.ofStatement_eq_execute {st : Option Statement} {id j : ℕ}
    (h : Effect.ofStatement id st = .execute j statement) : id = j ∧ st = some statement := by
  cases st with
  | none => cases h
  | some st =>
    cases h
    exact ⟨rfl, rfl⟩

theorem Moves.of_section {old : Section} (hmethod : task'.method? = task.method?)
    (hissues : task'.issuesFor = task.issuesFor) (hreference : task'.reference = task.reference)
    (hholds : task'.holds = task.holds) (hserves : task'.serves = task.serves)
    (hold : task.section? = some old) {pc : SectionPc}
    (hnext : (old.advance s.rows answer).2 = .goes pc)
    (hsection : task'.section? = some { old with pc := pc }) :
    Moves s task (.ofStatement old.id (old.advance s.rows answer).1) task' where
  method := hmethod
  issuesFor := hissues
  reference := Or.inr (Or.inl hreference)
  holds l h := Or.inl (hholds ▸ h)
  serves k h := Or.inl (hserves ▸ h)
  executes j statement h := by
    obtain ⟨rfl, hst⟩ := Effect.ofStatement_eq_execute h
    exact ⟨old, answer, hold, rfl, hst⟩
  arrives sec h := by
    obtain rfl := Option.some.inj (hsection.symm.trans h)
    exact .goes old answer hold rfl hnext rfl

theorem Moves.of_ended {old : Section} (hmethod : task'.method? = task.method?)
    (hissues : task'.issuesFor = task.issuesFor)
    (hreference : task'.reference = none ∨ task'.reference = task.reference)
    (hholds : ∀ l, task'.holds = some l → task.holds = some l) (hserves : task'.serves = none)
    (hold : task.section? = some old) (hsection : task'.section? = none) :
    Moves s task (.ofStatement old.id (old.advance s.rows answer).1) task' where
  method := hmethod
  issuesFor := hissues
  reference := hreference.imp_right Or.inl
  holds l h := Or.inl (hholds l h)
  serves k h := by
    rw [hserves] at h
    cases h
  executes j statement h := by
    obtain ⟨rfl, hst⟩ := Effect.ofStatement_eq_execute h
    exact ⟨old, answer, hold, rfl, hst⟩
  arrives sec h := by
    rw [hsection] at h
    cases h

theorem Moves.of_created {c c' : IssueCall} {l : ℕ} (hpc : c.pc = .cleared l)
    (hpc' : c'.pc = .inside l s.rows.next c.entry) (hkind : c'.kind = c.kind)
    (howner : c'.owner = c.owner) :
    Moves s (.issue c) (.insert c.owner c.kind .pendingApply) (.issue c') where
  method := rfl
  issuesFor := congrArg some howner
  reference := Or.inr (Or.inl (by simp [Task.reference, hpc, hpc', howner]))
  holds l h := Or.inl (by simpa [Task.holds, hpc, hpc'] using h)
  serves k h := Or.inl (by simpa [Task.serves, hpc, hpc', hkind] using h)
  executes _ _ := nofun
  arrives sec h := by
    simp only [Task.section?, hpc', hkind, Option.some.injEq] at h
    subst h
    refine .created c.owner rfl rfl ?_ (congrArg some howner) rfl
    show c.entry = _ ∨ c.entry = _
    unfold IssueCall.entry
    split
    · exact Or.inr rfl
    · exact Or.inl rfl

/-- A call that ends leaves its locks. -/
theorem Task.cancel_moves : Moves s task .nothing task.cancel := by
  cases task <;> exact .of_quiet rfl rfl (Or.inl rfl) nofun nofun rfl nofun

theorem Task.fault_moves : Moves s task .nothing task.fault := by
  cases task with
  | issue c => exact Task.cancel_moves
  | write w => exact Task.cancel_moves
  | block c =>
    unfold Task.fault
    obtain ⟨target, revokes, now, pc⟩ := c
    cases pc with
    | revoking l sweep errors kind id pc =>
      exact .of_quiet rfl rfl (Or.inr (Or.inl rfl)) (fun l h => Or.inl h) nofun rfl nofun
    | _ => exact Task.cancel_moves

/-- A call that has not begun has no lock. -/
theorem Task.idle_of_fresh (h : task.fresh = true) :
    task.reference = none ∧ task.holds = none ∧ task.serves = none ∧ task.section? = none := by
  cases task with
  | issue c =>
    have hpc : c.pc = .start := of_decide_eq_true h
    simp [Task.reference, Task.holds, Task.serves, Task.section?, hpc]
  | write w =>
    have hpc : w.pc = (Writer.begin w.method w.kind w.id).pc := of_decide_eq_true h
    have hpc : w.pc = .glancing ∨ w.pc = .queued := by
      rw [hpc]
      unfold Writer.begin
      split
      · exact Or.inl rfl
      · exact Or.inl rfl
      · exact Or.inr rfl
    rcases hpc with hpc | hpc <;>
      simp [Task.reference, Task.holds, Task.serves, Task.section?, Writer.serves, Writer.section?, hpc]
  | block c =>
    have hpc : c.pc = .start := of_decide_eq_true h
    simp [Task.reference, Task.holds, Task.serves, Task.section?, hpc]

theorem IssueCall.moves {c : IssueCall} {pc : IssuePc} (h : c.advance s answer = some (effect, pc)) :
    Moves s (.issue c) effect (.issue { c with pc := pc }) := by
  obtain ⟨kind, owner, guest, pc₀⟩ := c
  unfold IssueCall.advance at h
  cases pc₀ with
  | start =>
    cases h
    exact .of_quiet rfl rfl (Or.inr (Or.inr ⟨owner, rfl, rfl⟩)) nofun nofun rfl nofun
  | queued l =>
    dsimp only at h
    split at h
    · cases h
      refine .of_quiet rfl rfl (Or.inr (Or.inl rfl)) ?_ nofun rfl nofun
      rintro _ ⟨⟩
      exact Or.inr ‹_›
    · cases h
  | owned l =>
    dsimp only at h
    cases h
    split
    · exact .of_quiet rfl rfl (Or.inr (Or.inl rfl)) (fun l h => Or.inl h) nofun rfl nofun
    · exact .of_quiet rfl rfl (Or.inl rfl) nofun nofun rfl nofun
  | admitted l =>
    dsimp only at h
    split at h
    · cases h
      exact .of_quiet rfl rfl (Or.inl rfl) nofun nofun rfl nofun
    · split at h
      · split at h
        · cases h
          refine .of_quiet rfl rfl (Or.inr (Or.inl rfl)) (fun l h => Or.inl h) ?_ rfl nofun
          intro k hk
          rename_i hlocked hfree
          simp only [Task.serves, hlocked, if_true] at hk
          cases hk
          exact Or.inr hfree
        · cases h
      · cases h
        refine .of_quiet rfl rfl (Or.inr (Or.inl rfl)) (fun l h => Or.inl h) ?_ rfl nofun
        intro k hk
        rename_i hlocked
        simp [Task.serves, hlocked] at hk
  | serving l =>
    dsimp only at h
    generalize (if IssueCall.rechecks _ = true then _ else _ : Bool) = clear at h
    cases clear with
    | true =>
      cases h
      exact .of_quiet rfl rfl (Or.inr (Or.inl rfl)) (fun l h => Or.inl h) (fun k h => Or.inl h) rfl nofun
    | false =>
      cases h
      exact .of_quiet rfl rfl (Or.inl rfl) nofun nofun rfl nofun
  | cleared l =>
    dsimp only at h
    split at h
    · cases h
      exact .of_created rfl rfl rfl rfl
    · cases h
      exact .of_quiet rfl rfl (Or.inl rfl) nofun nofun rfl nofun
  | inside l id pc₀ =>
    dsimp only at h
    let allowed : Bool := answer = .returns && ensureCanCreate guest (s.users owner)
    generalize (if pc₀ = SectionPc.calling ∧
      IssueCall.rechecks ⟨kind, owner, guest, .inside l id pc₀⟩ = true ∧ allowed = false then Answer.raises
      else answer) = a at h
    cases hnext : (Section.advance s.rows a ⟨kind, id, .created, pc₀⟩).2 with
    | goes pc =>
      rw [hnext] at h
      cases h
      exact .of_section rfl rfl rfl rfl rfl rfl hnext rfl
    | ended returned =>
      rw [hnext] at h
      cases h
      exact .of_ended rfl rfl (Or.inl rfl) nofun rfl rfl rfl
  | ended => cases h

theorem Writer.moves {w : Writer} {pc : WriterPc} (h : w.advance s answer = some (effect, pc))
    (hmethod : task.method? = some w.method) (hmethod' : task'.method? = task.method?)
    (hissues : task'.issuesFor = task.issuesFor) (hreference : task'.reference = task.reference)
    (hholds : task'.holds = task.holds) (hserves : task.serves = w.serves)
    (hserves' : task'.serves = Writer.serves { w with pc := pc }) (hsection : task.section? = w.section?)
    (hsection' : task'.section? = Writer.section? { w with pc := pc }) :
    Moves s task effect task' := by
  have hquiet : ∀ {pc'}, effect = .nothing → pc = pc' → Writer.section? { w with pc := pc' } = none →
      (∀ k, Writer.serves { w with pc := pc' } = some k → w.serves = some k ∨ s.serviceFree k = true) →
        Moves s task effect task' := by
    rintro _ rfl rfl hnone hserve
    refine .of_quiet hmethod' hissues (Or.inr (Or.inl hreference)) (fun l h => Or.inl (hholds ▸ h)) ?_
      (hsection'.trans hnone) nofun
    intro k hk
    rw [hserves'] at hk
    rw [hserves]
    exact hserve k hk
  obtain ⟨method, kind, id, pc₀⟩ := w
  unfold Writer.advance at h
  cases pc₀ with
  | glancing =>
    dsimp only at h
    split at h
    · cases h
      exact hquiet rfl rfl rfl nofun
    · split at h
      · cases h
        exact hquiet rfl rfl rfl nofun
      · split at h <;> cases h <;> exact hquiet rfl rfl rfl nofun
  | queued =>
    dsimp only at h
    split at h
    · cases h
      refine hquiet rfl rfl rfl fun k hk => Or.inr ?_
      rename_i hfree
      cases hlocked : kind.locked with
      | true =>
        simp only [Writer.serves, hlocked, if_true, Option.some.injEq] at hk
        subst hk
        exact hfree.resolve_left (by simp [hlocked])
      | false =>
        simp [Writer.serves, hlocked] at hk
    · cases h
  | reading =>
    dsimp only at h
    split at h
    · cases h
      exact hquiet rfl rfl rfl nofun
    · rename_i row hrow
      split at h
      · cases h
        exact hquiet rfl rfl rfl nofun
      · rename_i hok
        obtain ⟨hkind, hstatus⟩ := not_or.1 hok
        split at h
        · cases h
          exact hquiet rfl rfl rfl nofun
        · cases h
          exact hquiet rfl rfl rfl nofun
        · rename_i plan hplan
          cases h
          refine ⟨hmethod', hissues, Or.inr (Or.inl hreference), fun l h => Or.inl (hholds ▸ h), ?_,
            nofun, ?_⟩
          · intro k hk
            rw [hserves'] at hk
            rw [hserves]
            exact Or.inl hk
          · intro sec hsec
            obtain rfl := Option.some.inj (hsection'.symm.trans hsec)
            exact .read row method hrow (not_not.1 hkind) (by simpa using hstatus) hplan rfl
              (hmethod'.trans hmethod) rfl
  | inside plan pc₀ =>
    dsimp only at h
    cases hnext : (Section.advance s.rows answer ⟨kind, id, plan, pc₀⟩).2 with
    | goes pc =>
      rw [hnext] at h
      cases h
      exact .of_section hmethod' hissues hreference hholds (hserves'.trans hserves.symm) hsection hnext
        hsection'
    | ended returned =>
      rw [hnext] at h
      cases h
      exact .of_ended hmethod' hissues (Or.inr hreference) (fun l h => hholds ▸ h) hserves' hsection
        hsection'
  | ended => cases h

theorem Writer.begin_pc (method : Method) (kind : Kind) (id : ℕ) :
    (Writer.begin method kind id).pc = .glancing ∨ (Writer.begin method kind id).pc = .queued := by
  unfold Writer.begin
  split
  · exact Or.inl rfl
  · exact Or.inl rfl
  · exact Or.inr rfl

/-- Between two rows, and between two pages, a sweep holds the lock of the user only. -/
theorem Sweep.next_idle {c : BlockCall} {sweep : Sweep} {l : ℕ} {errors : List ℕ}
    (h : c.pc = sweep.next l errors) : (Task.block c).reference = some (c.target, l) ∧
      (Task.block c).holds = some l ∧ (Task.block c).serves = none ∧ (Task.block c).section? = none := by
  unfold Sweep.next at h
  split at h
  · simp [Task.reference, Task.holds, Task.serves, Task.section?, h]
  · rename_i id kind queue hqueue
    rcases Writer.begin_pc .revoke kind id with hpc | hpc <;> rw [hpc] at h <;>
      simp [Task.reference, Task.holds, Task.serves, Task.section?, Writer.serves, Writer.section?, h]

theorem Sweep.leave_idle {c : BlockCall} {sweep : Sweep} {l : ℕ} {errors : List ℕ}
    (h : c.pc = sweep.leave l errors) : (Task.block c).reference = some (c.target, l) ∧
      (Task.block c).holds = some l ∧ (Task.block c).serves = none ∧ (Task.block c).section? = none := by
  unfold Sweep.leave at h
  split at h <;> simp [Task.reference, Task.holds, Task.serves, Task.section?, h]

theorem Moves.of_idle {c c' : BlockCall} {l : ℕ} (htarget : c'.target = c.target)
    (href : (Task.block c).reference = some (c.target, l)) (hhold : (Task.block c).holds = some l)
    (h : (Task.block c').reference = some (c'.target, l) ∧ (Task.block c').holds = some l ∧
      (Task.block c').serves = none ∧ (Task.block c').section? = none)
    (heffect : ∀ id statement, effect ≠ .execute id statement) :
    Moves s (.block c) effect (.block c') := by
  obtain ⟨href', hhold', hserve', hsection'⟩ := h
  refine .of_quiet rfl rfl (Or.inr (Or.inl ?_)) (fun l' hl' => Or.inl ?_) (fun k hk => ?_) hsection' heffect
  · rw [href', href, htarget]
  · rw [hhold, ← hl', hhold']
  · rw [hserve'] at hk
    cases hk

theorem BlockCall.moves {c : BlockCall} {pc : BlockPc}
    (h : c.advance adminIds s answer page = some (effect, pc)) :
    Moves s (.block c) effect (.block { c with pc := pc }) := by
  obtain ⟨target, revokes, now, pc₀⟩ := c
  unfold BlockCall.advance at h
  cases pc₀ with
  | start =>
    cases h
    exact .of_quiet rfl rfl (Or.inr (Or.inr ⟨target, rfl, rfl⟩)) nofun nofun rfl nofun
  | queued l =>
    dsimp only at h
    split at h
    · cases h
      refine .of_quiet rfl rfl (Or.inr (Or.inl rfl)) ?_ nofun rfl nofun
      rintro _ ⟨⟩
      exact Or.inr ‹_›
    · cases h
  | owned l =>
    dsimp only at h
    split at h
    · cases h
      exact .of_quiet rfl rfl (Or.inl rfl) nofun nofun rfl nofun
    · split at h
      · cases h
        exact .of_quiet rfl rfl (Or.inl rfl) nofun nofun rfl nofun
      · split at h
        · cases h
          exact .of_quiet rfl rfl (Or.inl rfl) nofun nofun rfl nofun
        · cases h
          exact .of_idle rfl rfl rfl ⟨rfl, rfl, rfl, rfl⟩ nofun
  | setting l =>
    dsimp only at h
    split at h
    · cases h
      exact .of_quiet rfl rfl (Or.inl rfl) nofun nofun rfl nofun
    · cases h
      refine .of_idle rfl rfl rfl ?_ nofun
      cases revokes <;> exact ⟨rfl, rfl, rfl, rfl⟩
  | listing l sweep errors =>
    dsimp only at h
    split at h
    · split at h
      · cases h
        exact .of_idle rfl rfl rfl (Sweep.leave_idle rfl) nofun
      · split at h
        · cases h
          exact .of_idle rfl rfl rfl (Sweep.leave_idle rfl) nofun
        · cases h
          exact .of_idle rfl rfl rfl (Sweep.next_idle rfl) nofun
    · cases h
  | revoking l sweep errors kind id pc₀ =>
    dsimp only at h
    split at h
    · cases h
      exact .of_idle rfl rfl rfl (Sweep.next_idle rfl) nofun
    · cases h
      exact .of_idle rfl rfl rfl (Sweep.next_idle rfl) nofun
    · obtain ⟨⟨effect', pc'⟩, hadvance, heq⟩ := Option.map_eq_some_iff.1 h
      cases heq
      exact Writer.moves hadvance rfl rfl rfl rfl rfl rfl rfl rfl rfl
  | finishing l errors =>
    cases h
    exact .of_quiet rfl rfl (Or.inl rfl) nofun nofun rfl nofun
  | ended errors => cases h

theorem Task.moves (h : task.advance adminIds s answer page = some (effect, task')) :
    Moves s task effect task' := by
  cases task with
  | issue c =>
    obtain ⟨⟨_, pc⟩, hadvance, heq⟩ := Option.map_eq_some_iff.1 h
    cases heq
    exact IssueCall.moves hadvance
  | write w =>
    obtain ⟨⟨_, pc⟩, hadvance, heq⟩ := Option.map_eq_some_iff.1 h
    cases heq
    exact Writer.moves hadvance rfl rfl rfl rfl rfl rfl rfl rfl rfl
  | block c =>
    obtain ⟨⟨_, pc⟩, hadvance, heq⟩ := Option.map_eq_some_iff.1 h
    cases heq
    exact BlockCall.moves hadvance

inductive Happens (s : State) : State → Prop
  | starts (task : Task) (hfresh : task.fresh = true) :
    Happens s { s with tasks := s.tasks ++ [task] }
  | moves (i : ℕ) (task task' : Task) (effect : Effect) (htask : s.tasks[i]? = some task)
    (hmoves : Moves s task effect task') : Happens s ((s.apply effect).put i task')
  | collects (user : ℤ) (hfree : ∀ task ∈ s.tasks, task.reference.map Prod.fst ≠ some user) :
    Happens s { s with locks := Function.update s.locks user none }
  | setsRole (user : ℤ) (row : User) : Happens s (s.apply (.setRole user row))

theorem happens_of_step {a : Action} (h : step adminIds s a = some s') : Happens s s' := by
  cases a with
  | start task =>
    simp only [step] at h
    split at h
    · cases h
      exact .starts task ‹_›
    · cases h
  | next i answer page =>
    obtain ⟨task, htask, h⟩ := Option.bind_eq_some_iff.1 h
    obtain ⟨⟨effect, task'⟩, hadvance, rfl⟩ := Option.map_eq_some_iff.1 h
    exact .moves i task task' effect htask (Task.moves hadvance)
  | fault i =>
    obtain ⟨task, htask, h⟩ := Option.bind_eq_some_iff.1 h
    split at h
    · cases h
      exact .moves i task _ .nothing htask Task.fault_moves
    · cases h
  | cancel i =>
    obtain ⟨task, htask, h⟩ := Option.bind_eq_some_iff.1 h
    split at h
    · cases h
      exact .moves i task _ .nothing htask Task.cancel_moves
    · cases h
  | collect user =>
    simp only [step] at h
    split at h
    · rename_i hfree
      cases h
      refine .collects user fun task htask => ?_
      simpa using List.all_eq_true.1 hfree task htask
    · cases h
  | setRole user row =>
    cases h
    exact .setsRole user row

/-! ### The invariant -/

/-- The statuses that the row may have where a section waits. -/
def Section.expects (sec : Section) : List RowStatus :=
  match sec.pc with
  | .marking => [sec.plan.seen]
  | .calling | .failing | .finishing => [sec.plan.mark.getD sec.plan.seen]
  | .undoing => sec.plan.mark.getD sec.plan.seen :: sec.plan.finish.leaves.toList

/-- What a call that works on a row can rely on. -/
structure Stable (s : State) (task : Task) (sec : Section) : Prop where
  id_lt : sec.id < s.rows.next
  kind : ∀ row, s.rows.find? sec.id = some row → row.kind = sec.kind
  owner : ∀ row owner, s.rows.find? sec.id = some row → task.issuesFor = some owner → row.owner = owner
  status : sec.kind.locked = true → ∀ row, s.rows.find? sec.id = some row → row.status ∈ sec.expects
  planned : task.issuesFor.isSome = true ∨ ∃ method, task.method? = some method ∧
    sec.kind.family.hasStatus sec.plan.seen = true ∧ method.decide sec.kind sec.plan.seen = .goes sec.plan

/-- The invariant: the lock object that a call waits for or holds is the one of the dictionary, a lock has
one holder, and no other call writes the row that a call works on. -/
structure Exclusive (s : State) : Prop where
  refs : ∀ task ∈ s.tasks, ∀ u l, task.reference = some (u, l) → s.locks u = some l
  locks : HeldOnce Task.holds s.tasks
  services : HeldOnce Task.serves s.tasks
  stable : ∀ task ∈ s.tasks, ∀ sec, task.section? = some sec → Stable s task sec

theorem Task.serves_of_section (h : task.section? = some sec) (hlocked : sec.kind.locked = true) :
    task.serves = some sec.kind := by
  have hwriter : ∀ w : Writer, w.section? = some sec → w.serves = some sec.kind := by
    rintro ⟨method, kind, id, pc⟩ hw
    cases pc with
    | inside plan pc =>
      cases hw
      exact if_pos hlocked
    | _ => cases hw
  cases task with
  | issue c =>
    obtain ⟨kind, owner, guest, pc⟩ := c
    cases pc with
    | inside l id pc =>
      cases h
      exact if_pos hlocked
    | _ => cases h
  | write w => exact hwriter w h
  | block c =>
    obtain ⟨target, revokes, now, pc⟩ := c
    cases pc with
    | revoking l sweep errors kind id pc => exact hwriter _ h
    | _ => cases h

theorem seen_of_decide {method : Method} {kind : Kind} {status : RowStatus} {plan : Plan}
    (h : method.decide kind status = .goes plan) : plan.seen = status := by
  cases method with
  | revoke =>
    cases kind <;> simp only [Method.decide, revokeKey, revokeHysteria2Key, revokeSocks5Proxy,
      revokeManaged, deactivateStatic] at h <;> split_ifs at h <;> cases h <;> rfl
  | delete =>
    cases kind <;> simp only [Method.decide, deleteKey, deleteHysteria2Key, deleteSocks5Proxy,
      deleteMtprotoProxy] at h <;> (try split_ifs at h) <;> cases h <;> rfl
  | reconcile present =>
    cases kind <;> simp only [Method.decide, reconcileKey, reconcileSocks5, reconcileManaged] at h <;>
      (try split at h) <;> cases h <;> rfl

theorem State.mem_put (htask : s.tasks[i]? = some task) {a : Task} (ha : a ∈ (s.put i task').tasks) :
    a = task' ∨ ∃ j, j ≠ i ∧ s.tasks[j]? = some a :=
  mem_set_cases htask ha

theorem State.locks_apply {u : ℤ} {l : ℕ} (h : s.locks u = some l) : (s.apply effect).locks u = some l := by
  cases effect with
  | fetch user =>
    by_cases hu : u = user
    · subst hu
      show Function.update _ _ _ _ = _
      rw [Function.update_self]
      unfold State.lockOf
      rw [h]
      rfl
    · show Function.update _ _ _ _ = _
      rw [Function.update_of_ne hu]
      exact h
  | _ => exact h

theorem State.next_le_apply : s.rows.next ≤ (s.apply effect).rows.next := by
  cases effect with
  | insert owner kind status => exact Nat.le_succ _
  | execute id statement =>
    show _ ≤ (statement.execute id s.rows).next
    exact Nat.le_of_eq Statement.execute_next.symm
  | _ => exact Nat.le_refl _

theorem State.find?_apply (hid : id < s.rows.next) (h : (s.apply effect).rows.find? id = some row) :
    s.rows.find? id = some row ∨ ∃ statement old, effect = .execute id statement ∧
      s.rows.find? id = some old ∧ row.kind = old.kind ∧ row.owner = old.owner ∧
        (row.status = old.status ∨ statement.leaves = some row.status) := by
  cases effect with
  | insert owner kind status =>
    left
    have hne : id ≠ s.rows.next := Nat.ne_of_lt hid
    exact (Rows.find?_insert_of_ne rfl hne).symm.trans h
  | execute j statement =>
    by_cases hj : id = j
    · subst hj
      obtain ⟨old, hold, -, hkind, howner, hstatus⟩ := Statement.find?_execute_self h
      exact Or.inr ⟨statement, old, rfl, hold, hkind, howner, hstatus⟩
    · left
      exact (Statement.find?_execute_of_ne hj).symm.trans h
  | _ => exact Or.inl h

theorem Section.expects_advance {pc : SectionPc}
    (hexpects : ∀ row, s.rows.find? sec.id = some row → row.status ∈ sec.expects)
    (hnext : (sec.advance s.rows answer).2 = .goes pc)
    (h : (s.apply (.ofStatement sec.id (sec.advance s.rows answer).1)).rows.find? sec.id = some row) :
    row.status ∈ Section.expects { sec with pc := pc } := by
  obtain ⟨kind, id, plan, pc₀⟩ := sec
  cases pc₀ with
  | marking =>
    cases hnext
    simp only [Section.advance] at h
    cases hmark : plan.mark with
    | none =>
      rw [hmark] at h
      simpa [Section.expects, hmark] using hexpects row h
    | some mark =>
      rw [hmark] at h
      simpa [Section.expects, hmark] using Statement.status_setStatus h
  | calling =>
    cases hnext
    have hstatus := hexpects row h
    split <;> exact hstatus
  | failing => cases hnext
  | undoing => cases hnext
  | finishing =>
    have hwrite : ∀ {row}, (plan.finish.execute id s.rows).find? id = some row →
        row.status ∈ Section.expects ⟨kind, id, plan, .undoing⟩ := by
      intro row hrow
      obtain ⟨old, hold, -, -, -, hstatus⟩ := Statement.find?_execute_self hrow
      rcases hstatus with hsame | hleaves
      · have hold' := hexpects old hold
        simp only [Section.expects, List.mem_singleton] at hold'
        rw [hsame, hold']
        exact List.mem_cons_self
      · refine List.mem_cons_of_mem _ ?_
        show row.status ∈ plan.finish.leaves.toList
        rw [hleaves]
        exact List.mem_singleton_self _
    cases answer with
    | returns =>
      simp only [Section.advance] at hnext
      split at hnext
      · cases hnext
      · cases hnext
        exact hwrite h
    | raises =>
      cases hnext
      have hstatus := hexpects row h
      simp only [Section.expects, List.mem_singleton] at hstatus
      rw [hstatus]
      exact List.mem_cons_self
    | raisesAfter =>
      cases hnext
      exact hwrite h

/-- The section of a call that makes a step. -/
theorem Stable.of_arrives (h : Exclusive s) (htask : task ∈ s.tasks) (hmoves : Moves s task effect task')
    (harrives : Arrives s task effect task' sec) : Stable (s.apply effect) task' sec := by
  cases harrives with
  | goes old answer hold hsame hnext heffect =>
    have hstable := h.stable task htask old hold
    subst heffect
    rw [hsame] at *
    have hrow : ∀ row, (s.apply (.ofStatement old.id (old.advance s.rows answer).1)).rows.find? old.id =
        some row → ∃ before, s.rows.find? old.id = some before ∧ row.kind = before.kind ∧
          row.owner = before.owner := by
      intro row hrow
      rcases State.find?_apply hstable.id_lt hrow with hrow | ⟨_, before, -, hbefore, hkind, howner, -⟩
      · exact ⟨row, hrow, rfl, rfl⟩
      · exact ⟨before, hbefore, hkind, howner⟩
    refine ⟨Nat.lt_of_lt_of_le hstable.id_lt State.next_le_apply, fun row hafter => ?_, fun row owner hafter hissues => ?_,
      fun hlocked row hafter => ?_, ?_⟩
    · obtain ⟨before, hbefore, hkind, -⟩ := hrow row hafter
      exact hkind.trans (hstable.kind before hbefore)
    · obtain ⟨before, hbefore, -, howner⟩ := hrow row hafter
      rw [hmoves.issuesFor] at hissues
      exact howner.trans (hstable.owner before owner hbefore hissues)
    · exact Section.expects_advance (hstable.status hlocked) hnext hafter
    · rw [hmoves.issuesFor, hmoves.method]
      exact hstable.planned
  | read row method hrow hkind hstatus hplan hpc hmethod heffect =>
    subst heffect
    have hone : ∀ row', s.rows.find? sec.id = some row' → row' = row := fun row' hrow' =>
      Option.some.inj (hrow'.symm.trans hrow)
    obtain ⟨hmem, hid⟩ := Rows.find?_eq_some_iff.1 hrow
    have hseen := seen_of_decide hplan
    refine ⟨hid ▸ s.rows.below row hmem, fun row' hrow' => ?_, fun row' owner hrow' hissues => ?_,
      fun _ row' hrow' => ?_, Or.inr ⟨method, hmethod, ?_, ?_⟩⟩
    · rw [hone row' hrow', hkind]
    · -- a call that issues reads no row
      cases task' with
      | issue c => cases hmethod
      | write w => cases hissues
      | block c => cases hissues
    · rw [hone row' hrow', ← hseen]
      unfold Section.expects
      rw [hpc]
      unfold Section.entry
      cases hmark : sec.plan.mark with
      | none => exact List.mem_singleton_self _
      | some mark => exact List.mem_singleton_self _
    · rw [hseen]
      exact hstatus
    · rw [hseen]
      exact hplan
  | created owner hid hplan hpc howner heffect =>
    subst heffect
    have hrow : (s.apply (.insert owner sec.kind .pendingApply)).rows.find? sec.id =
        some ⟨s.rows.next, owner, sec.kind, .pendingApply⟩ := by
      rw [hid]
      exact Rows.find?_insert_self rfl
    have hone : ∀ row, (s.apply (.insert owner sec.kind .pendingApply)).rows.find? sec.id = some row →
        row = ⟨s.rows.next, owner, sec.kind, .pendingApply⟩ := fun row hrow' =>
      Option.some.inj (hrow'.symm.trans hrow)
    refine ⟨?_, fun row hafter => ?_, fun row owner' hafter hissues => ?_, fun _ row hafter => ?_, Or.inl ?_⟩
    · rw [hid]
      exact Nat.lt_succ_self _
    · rw [hone row hafter]
    · rw [hone row hafter]
      exact Option.some.inj (howner.symm.trans hissues)
    · rw [hone row hafter]
      unfold Section.expects
      rw [hplan]
      rcases hpc with hpc | hpc <;> rw [hpc] <;> exact List.mem_singleton_self _
    · rw [howner]
      rfl

theorem Stable.of_waits {j : ℕ} {other : Task} (h : Exclusive s) (htask : s.tasks[i]? = some task)
    (hother : s.tasks[j]? = some other) (hne : j ≠ i) (hmoves : Moves s task effect task')
    (hsection : other.section? = some sec) : Stable (s.apply effect) other sec := by
  have hstable := h.stable other (List.mem_of_getElem? hother) sec hsection
  refine ⟨Nat.lt_of_lt_of_le hstable.id_lt State.next_le_apply, fun row hafter => ?_, fun row owner hafter hissues => ?_,
    fun hlocked row hafter => ?_, hstable.planned⟩
  · rcases State.find?_apply hstable.id_lt hafter with hrow | ⟨_, before, -, hbefore, hkind, -, -⟩
    · exact hstable.kind row hrow
    · exact hkind.trans (hstable.kind before hbefore)
  · rcases State.find?_apply hstable.id_lt hafter with hrow | ⟨_, before, -, hbefore, -, howner, -⟩
    · exact hstable.owner row owner hrow hissues
    · exact howner.trans (hstable.owner before owner hbefore hissues)
  · rcases State.find?_apply hstable.id_lt hafter with hrow | ⟨st, before, rfl, hbefore, -, -, -⟩
    · exact hstable.status hlocked row hrow
    · -- the call that writes the row holds the same lock
      obtain ⟨mine, a, hmine, hid, -⟩ := hmoves.executes _ _ rfl
      have hmem := List.mem_of_getElem? htask
      have hkind : mine.kind = sec.kind := by
        rw [← hstable.kind before hbefore]
        exact ((h.stable task hmem mine hmine).kind before (hid ▸ hbefore)).symm
      have hserves := Task.serves_of_section hmine (hkind ▸ hlocked)
      rw [hkind] at hserves
      exact absurd (h.services j i other task sec.kind hother htask
        (Task.serves_of_section hsection hlocked) hserves) hne

/-- **Every step keeps the invariant.** -/
theorem Exclusive.happens (h : Exclusive s) (hstep : Happens s s') : Exclusive s' := by
  cases hstep with
  | starts task hfresh =>
    obtain ⟨href, hhold, hserve, hsection⟩ := Task.idle_of_fresh hfresh
    refine ⟨fun a ha u l hu => ?_, h.locks.append hhold, h.services.append hserve, fun a ha sec hsec => ?_⟩
    · rcases List.mem_append.1 ha with ha | ha
      · exact h.refs a ha u l hu
      · rw [List.mem_singleton.1 ha, href] at hu
        cases hu
    · rcases List.mem_append.1 ha with ha | ha
      · have hstable := h.stable a ha sec hsec
        exact ⟨hstable.id_lt, hstable.kind, hstable.owner, hstable.status, hstable.planned⟩
      · rw [List.mem_singleton.1 ha, hsection] at hsec
        cases hsec
  | moves i task task' effect htask hmoves =>
    have hmem := List.mem_of_getElem? htask
    have htasks : (s.apply effect).tasks = s.tasks := by cases effect <;> rfl
    have hput : ((s.apply effect).put i task').tasks = s.tasks.set i task' := by
      show (s.apply effect).tasks.set i task' = _
      rw [htasks]
    refine ⟨fun a ha u l hu => ?_, ?_, ?_, fun a ha sec hsec => ?_⟩
    · rcases State.mem_put (s := s.apply effect) (htasks.symm ▸ htask) ha with rfl | ⟨j, -, hj⟩
      · rcases hmoves.reference with hnone | hsame | ⟨v, rfl, hv⟩
        · rw [hnone] at hu
          cases hu
        · exact State.locks_apply (h.refs task hmem u l (hsame.symm.trans hu))
        · obtain ⟨rfl, rfl⟩ := Prod.mk.inj (Option.some.inj (hv.symm.trans hu))
          exact Function.update_self ..
      · rw [htasks] at hj
        exact State.locks_apply (h.refs a (List.mem_of_getElem? hj) u l hu)
    · rw [hput]
      refine h.locks.set htask fun l hl => (hmoves.holds l hl).imp_right fun hfree b hb => ?_
      simpa using List.all_eq_true.1 hfree b hb
    · rw [hput]
      refine h.services.set htask fun k hk => (hmoves.serves k hk).imp_right fun hfree b hb => ?_
      simpa using List.all_eq_true.1 hfree b hb
    · have hstable : Stable (s.apply effect) a sec := by
        rcases State.mem_put (s := s.apply effect) (htasks.symm ▸ htask) ha with rfl | ⟨j, hne, hj⟩
        · exact .of_arrives h hmem hmoves (hmoves.arrives sec hsec)
        · rw [htasks] at hj
          exact .of_waits h htask hj hne hmoves hsec
      exact ⟨hstable.id_lt, hstable.kind, hstable.owner, hstable.status, hstable.planned⟩
  | collects user hfree =>
    refine ⟨fun a ha u l hu => ?_, h.locks, h.services, fun a ha sec hsec => ?_⟩
    · have hne : u ≠ user := by
        rintro rfl
        exact hfree a ha (by rw [hu]; rfl)
      show Function.update _ _ _ _ = _
      rw [Function.update_of_ne hne]
      exact h.refs a ha u l hu
    · have hstable := h.stable a ha sec hsec
      exact ⟨hstable.id_lt, hstable.kind, hstable.owner, hstable.status, hstable.planned⟩
  | setsRole user row =>
    refine ⟨h.refs, h.locks, h.services, fun a ha sec hsec => ?_⟩
    have hstable := h.stable a ha sec hsec
    exact ⟨hstable.id_lt, hstable.kind, hstable.owner, hstable.status, hstable.planned⟩

/-- While no call is under way, nothing is held. -/
theorem Exclusive.start (h : s.tasks = []) : Exclusive s := by
  refine ⟨?_, ?_, ?_, ?_⟩
  · rw [h]
    intro task htask
    cases htask
  · rw [h]
    exact .nil
  · rw [h]
    exact .nil
  · rw [h]
    intro task htask
    cases htask

/-- **Every run keeps the invariant.** -/
theorem Exclusive.run {as : List Action} (h : Exclusive s)
    (hrun : runFrom (step adminIds) s as = some s') : Exclusive s' :=
  have hstep : ∀ s a s', Exclusive s → True → step adminIds s a = some s' → Exclusive s' :=
    fun _ _ _ hs _ hnext => hs.happens (happens_of_step hnext)
  invariant_of_allowed hstep h (allowed_of_forall (fun _ _ _ => trivial) s) hrun

end VpnBot.Issuing
