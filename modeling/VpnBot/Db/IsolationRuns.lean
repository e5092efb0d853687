import VpnBot.Db.Isolation
import VpnBot.Db.TransactionSafety

/-!
# Isolation on the shared connection

Uncommitted writes belong to the owner of the lock (`Holder`), so a read that waits for the lock is made over
none.  Two kinds of reads do not wait: a fetch from a cursor that was opened before, and a read of a task
whose context is that of a block that is over.  `reads_isolated` is the result for the runs in which these
are not made while another task has uncommitted writes, and every `COMMIT` and `ROLLBACK` of a write
succeeds; `not_isolated` has a run for each of the two.
-/

namespace VpnBot.Db

open Sys

variable {s s' : Database Task} {t u : Task} {a : Action Task} {W : Type}

/-! ### Who has uncommitted writes -/

/-- The outermost block is the last one. -/
def Joined (frames : List Bool) : Prop := ∀ inner outer, frames = inner ++ true :: outer → outer = []

/-- What is known about the task that owns the transaction. -/
def HoldsBlock (s : Database Task) (task : TaskState Task) : Prop :=
  match task.pc with
  | .awaitBegin _ | .awaitEnd _ => task.frames = [] ∧ s.conn.pending = []
  | .awaitExecute true _ | .awaitUndo | .awaitImplicitEnd => False
  | _ => Joined task.frames

/-- What is known about the task that owns the implicit write. -/
def HoldsWrite (s : Database Task) (task : TaskState Task) : Prop :=
  task.frames = [] ∧
    match task.pc with
    | .awaitUndo | .awaitImplicitEnd => s.conn.pending = []
    | .awaitBegin _ | .awaitEnd _ | .awaitExecute false _ => False
    | _ => True

/-- Who has the lock, and so the uncommitted writes. -/
inductive Holder (s : Database Task) : Prop
  | free (lock : s.lock = false) (owner : s.transactionOwner = none)
      (implicit : s.implicitWriteOwner = none) (pending : s.conn.pending = [])
      (idle : ∀ u, (s.tasks u).Idle)
  | block (t : Task) (lock : s.lock = true) (owner : s.transactionOwner = some t)
      (implicit : s.implicitWriteOwner = none) (pending : ∀ w ∈ s.conn.pending, w = t)
      (task : HoldsBlock s (s.tasks t)) (idle : ∀ u, u ≠ t → (s.tasks u).Idle)
  | write (t : Task) (lock : s.lock = true) (owner : s.transactionOwner = none)
      (implicit : s.implicitWriteOwner = some t) (pending : ∀ w ∈ s.conn.pending, w = t)
      (task : HoldsWrite s (s.tasks t)) (idle : ∀ u, u ≠ t → (s.tasks u).Idle)

/-- `COMMIT` and `ROLLBACK` succeed when there is something to commit or to roll back. -/
def Finishes (s : Database Task) (t : Task) (a : Action Task) : Prop :=
  match a, (s.tasks t).pc with
  | .leave outcome ok, .running =>
    (s.tasks t).frames.head? = some true → outcome ≠ .cancelled → ok = true ∨ s.conn.pending = []
  | .endWrite _ ok, .running => s.implicitWriteOwner = some t → ok = true ∨ s.conn.pending = []
  | .resume ok, .awaitExecute true false => ok = true ∨ s.conn.pending = []
  | _, _ => True

theorem joined_nil : Joined [] := by
  intro inner outer h
  exact absurd h.symm (by simp)

theorem Joined.enter {frames : List Bool} (h : Joined frames) : Joined (false :: frames) := by
  intro inner outer heq
  cases inner with
  | nil => cases heq
  | cons b inner => exact h inner outer (List.cons.inj heq).2

theorem Joined.leave {b : Bool} {frames : List Bool} (h : Joined (b :: frames)) : Joined frames := by
  intro inner outer heq
  exact h (b :: inner) outer (by rw [heq, List.cons_append])

theorem Joined.outermost {frames : List Bool} (h : Joined (true :: frames)) : frames = [] := h [] frames rfl

/-! ### The connection -/

theorem pending_finish {conn : Connection W} {commit ok : Bool} (h : ok = true ∨ conn.pending = []) :
    (conn.finish commit ok).pending = [] := by
  cases ok with
  | true => rfl
  | false => exact h.resolve_left Bool.false_ne_true

theorem pending_execute {conn : Connection Task} {statement : Statement Task}
    (hpending : ∀ w ∈ conn.pending, w = t) (hsigned : ∀ w ∈ statement.applied, w = t) :
    ∀ w ∈ (conn.execute statement).pending, w = t := by
  have hboth : ∀ w ∈ conn.pending ++ statement.applied, w = t := by
    intro w hw
    rcases List.mem_append.1 hw with hw | hw
    · exact hpending w hw
    · exact hsigned w hw
  unfold Connection.execute
  cases statement.kind with
  | dml => exact hboth
  | ddl =>
    show ∀ w ∈ (if conn.inTransaction then _ else _ : Connection Task).pending, w = t
    split_ifs
    · exact hboth
    · exact hpending
  | script => exact nofun

/-- The writes of a task carry its name. -/
def Signed (t : Task) (a : Action Task) : Prop :=
  ∀ statement, a = .execute statement → ∀ w ∈ statement.applied, w = t

theorem signed_signed (t : Task) (a : Action Task) : Signed t (signed t a) := by
  intro statement heq
  cases a with
  | execute statement' =>
    cases heq
    intro w hw
    obtain ⟨_, -, rfl⟩ := List.mem_map.1 hw
    rfl
  | _ => cases heq

theorem finishes_signed : Finishes s t (signed t a) ↔ Finishes s t a := by
  cases a <;> exact Iff.rfl

/-! ### The moves -/

theorem Holder.step_of_idle (h : Holder s) (hstep : step s (t, a) = some s')
    (hwrites : ∀ statement, (s.tasks t).pc = .wantWrite statement → ∀ w ∈ statement.applied, w = t)
    (hidle : (s.tasks t).Idle) (howner : s.transactionOwner ≠ some t)
    (himplicit : s.implicitWriteOwner ≠ some t) : Holder s' := by
  obtain ⟨task, htask, rfl⟩ | ⟨hlock, hfree⟩ := Db.step_of_idle hstep hidle howner himplicit
  · -- the task only changes its own place
    cases h with
    | free lock owner implicit pending idle =>
      exact .free lock owner implicit pending (forall_idle_setTask (fun u _ => idle u) htask)
    | block u lock owner implicit pending utask idle =>
      have hut : u ≠ t := fun he => howner (he ▸ owner)
      refine .block u lock owner implicit pending ?_ fun v hv => ?_
      · rw [s.setTask_tasks_of_ne hut]
        exact utask
      · by_cases hvt : v = t
        · rw [hvt, Database.setTask_tasks]
          exact htask
        · rw [s.setTask_tasks_of_ne hvt]
          exact idle v hv
    | write u lock owner implicit pending utask idle =>
      have hut : u ≠ t := fun he => himplicit (he ▸ implicit)
      refine .write u lock owner implicit pending ?_ fun v hv => ?_
      · rw [s.setTask_tasks_of_ne hut]
        exact utask
      · by_cases hvt : v = t
        · rw [hvt, Database.setTask_tasks]
          exact htask
        · rw [s.setTask_tasks_of_ne hvt]
          exact idle v hv
  · -- the lock is free, so there are no uncommitted writes
    cases h with
    | free lock owner implicit pending idle =>
      have hothers : ∀ u, u ≠ t → (s.tasks u).Idle := fun u _ => idle u
      have hnone : ∀ w ∈ s.conn.pending, w = t := by
        rw [pending]
        exact nofun
      obtain ⟨ok, rfl⟩ | ⟨statement, hwant, rfl⟩ | ⟨commit, rfl⟩ := hfree
      · refine .block t rfl rfl implicit hnone ?_ (idle_setTask hothers)
        simp only [Database.begin, Database.goto, Database.setTask_tasks, HoldsBlock]
        exact ⟨hidle.1, pending⟩
      · refine .write t rfl owner rfl (pending_execute hnone (hwrites statement hwant)) ?_
          (idle_setTask hothers)
        simp only [Database.startWrite, Database.queue, Database.setTask_tasks, HoldsWrite]
        exact ⟨hidle.1, trivial⟩
      · have hcommitted : (s.conn.finish commit true).pending = [] := pending_finish (Or.inl rfl)
        exact .free lock owner implicit hcommitted (forall_idle_setTask hothers ⟨hidle.1, rfl⟩)
    | block u lock _ _ _ _ _ =>
      rw [hlock] at lock
      cases lock
    | write u lock _ _ _ _ _ =>
      rw [hlock] at lock
      cases lock

/-- The body of a block ends. -/
theorem holder_leave {outermost ok : Bool} {frames : List Bool} {outcome : Outcome} (lock : s.lock = true)
    (owner : s.transactionOwner = some t) (implicit : s.implicitWriteOwner = none)
    (pending : ∀ w ∈ s.conn.pending, w = t) (idle : ∀ u, u ≠ t → (s.tasks u).Idle)
    (hpc : (s.tasks t).pc = .running) (hjoined : Joined (outermost :: frames))
    (hfinish : outermost = true → outcome ≠ .cancelled → ok = true ∨ s.conn.pending = []) :
    Holder (s.leave t outermost frames outcome ok) := by
  have hbody : HoldsBlock s { s.tasks t with frames } := by
    simp only [HoldsBlock, hpc]
    exact hjoined.leave
  have hstay : ∀ (depth : ℕ) (ended : List (Ended Task)), Holder ({ s with transactionDepth := depth, ended }.setTask t
      { s.tasks t with frames }) := by
    intro depth ended
    refine .block t lock owner implicit pending ?_ (idle_setTask idle)
    rw [Database.setTask_tasks]
    exact hbody
  cases outermost with
  | false =>
    cases outcome with
    | cancelled => exact hstay s.transactionDepth s.ended
    | returned => exact hstay (s.transactionDepth - 1) s.ended
    | raised => exact hstay (s.transactionDepth - 1) s.ended
  | true =>
    have hend : ∀ returned : Bool, outcome ≠ .cancelled →
        Holder ({ s with transactionDepth := s.transactionDepth - 1, conn := s.conn.finish returned ok }.setTask t
          { s.tasks t with frames, pc := .awaitEnd returned }) := by
      intro returned hne
      have hnone : (s.conn.finish returned ok).pending = [] := pending_finish (hfinish rfl hne)
      refine .block t lock owner implicit (by rw [Database.setTask_conn, hnone]; exact nofun) ?_
        (idle_setTask idle)
      rw [Database.setTask_tasks]
      exact ⟨hjoined.outermost, hnone⟩
    cases outcome with
    | cancelled =>
      exact hstay s.transactionDepth
        (s.ended ++ [(s.setTask t { s.tasks t with frames }).endedNow t false])
    | returned => exact hend true nofun
    | raised => exact hend false nofun

theorem holder_step_of_block (lock : s.lock = true) (owner : s.transactionOwner = some t)
    (implicit : s.implicitWriteOwner = none) (pending : ∀ w ∈ s.conn.pending, w = t)
    (task : HoldsBlock s (s.tasks t)) (idle : ∀ u, u ≠ t → (s.tasks u).Idle) (hsigned : Signed t a)
    (hfinish : Finishes s t a) (h : step s (t, a) = some s') : Holder s' := by
  have howner : s.implicitWriteOwner ≠ some t := by
    rw [implicit]
    exact nofun
  -- the task goes to a place that is not one of the ends of a write
  have hstay : ∀ (conn : Connection Task) (depth : ℕ) (task' : TaskState Task),
      (∀ w ∈ conn.pending, w = t) → HoldsBlock { s with conn } task' →
      Holder ({ s with conn, transactionDepth := depth }.setTask t task') := by
    intro conn depth task' hconn htask
    refine .block t lock owner implicit hconn ?_ (idle_setTask idle)
    rw [Database.setTask_tasks]
    exact htask
  have hwhen : ∀ r : Database Task, whenFree s r = none := by
    intro r
    unfold whenFree
    rw [if_pos lock]
  cases hp : (s.tasks t).pc with
  -- BEGIN answers: the block opens, or the lock is given back with nothing written
  | awaitBegin ok =>
    simp only [HoldsBlock, hp] at task
    obtain ⟨hframes, hnone⟩ := task
    cases a with
    | resume _ =>
      simp only [step, hp] at h
      cases h
      cases ok with
      | true =>
        refine hstay s.conn (s.transactionDepth + 1) _ pending ?_
        show Joined (true :: (s.tasks t).frames)
        rw [hframes]
        intro inner outer heq
        cases inner with
        | nil => exact (List.cons.inj heq).2.symm
        | cons b inner => exact absurd (List.cons.inj heq).2.symm (by simp)
      | false => exact .free rfl rfl implicit hnone (forall_idle_setTask idle ⟨hframes, rfl⟩)
    | cancel =>
      simp only [step, hp] at h
      cases h
      refine hstay s.conn s.transactionDepth _ pending ?_
      show Joined (s.tasks t).frames
      rw [hframes]
      exact joined_nil
    | _ => simp only [step, hp] at h; cases h
  -- COMMIT or ROLLBACK answers, or is cancelled: the lock is released either way
  | awaitEnd returned =>
    simp only [HoldsBlock, hp] at task
    obtain ⟨hframes, hnone⟩ := task
    have hrelease : Holder (s.release t returned) :=
      .free rfl rfl implicit hnone (forall_idle_setTask idle ⟨hframes, rfl⟩)
    cases a with
    | resume _ =>
      simp only [step, hp] at h
      cases h
      exact hrelease
    | cancel =>
      simp only [step, hp] at h
      cases h
      exact hrelease
    | _ => simp only [step, hp] at h; cases h
  | awaitExecute impl done =>
    cases impl with
    | true => simp only [HoldsBlock, hp] at task
    | false =>
      simp only [HoldsBlock, hp] at task
      have hgoto : Holder (s.goto t .running) := hstay s.conn s.transactionDepth _ pending task
      cases a with
      | resume ok =>
        simp only [step, hp, Database.afterExecute, Bool.not_false, Bool.or_true, if_true] at h
        cases h
        exact hgoto
      | cancel =>
        simp only [step, hp] at h
        cases h
        exact hgoto
      | _ => simp only [step, hp] at h; cases h
  | running =>
    simp only [HoldsBlock, hp] at task
    cases a with
    | enter =>
      simp only [step, hp, Database.enter, if_pos owner] at h
      cases h
      refine hstay s.conn (s.transactionDepth + 1) _ pending ?_
      exact task.enter
    | execute statement =>
      simp only [step, hp, Database.execute, if_pos owner] at h
      cases h
      exact hstay _ s.transactionDepth _ (pending_execute pending (hsigned _ rfl)) task
    | endWrite commit ok =>
      simp only [step, hp, Database.endWrite] at h
      split_ifs at h with hdepth
      · cases h
        refine .block t lock owner implicit pending ?_ idle
        simp only [HoldsBlock, hp]
        exact task
      · cases h
        exact hstay s.conn s.transactionDepth _ pending task
    | leave outcome ok =>
      cases hf : (s.tasks t).frames with
      | nil => simp only [step, hp, hf] at h; cases h
      | cons outermost frames =>
        simp only [step, hp, hf] at h
        cases h
        rw [hf] at task
        have hnone : outermost = true → outcome ≠ .cancelled → ok = true ∨ s.conn.pending = [] := by
          intro houter
          simp only [Finishes, hp, hf] at hfinish
          exact hfinish (houter ▸ rfl)
        exact holder_leave lock owner implicit pending idle hp task hnone
    | exit =>
      simp only [step, hp] at h
      split_ifs at h
      cases h
      exact hstay s.conn s.transactionDepth _ pending task
    | _ => simp only [step, hp] at h; cases h
  | wantTransaction | wantWrite statement | wantTurn commit =>
    simp only [HoldsBlock, hp] at task
    cases a with
    | acquire ok => simp only [step, hp, hwhen] at h; cases h
    | cancel =>
      simp only [step, hp] at h
      cases h
      exact hstay s.conn s.transactionDepth _ pending task
    | _ => simp only [step, hp] at h; cases h
  | awaitTurn =>
    simp only [HoldsBlock, hp] at task
    cases a with
    | resume _ =>
      simp only [step, hp] at h
      cases h
      exact hstay s.conn s.transactionDepth _ pending task
    | cancel =>
      simp only [step, hp] at h
      cases h
      exact hstay s.conn s.transactionDepth _ pending task
    | _ => simp only [step, hp] at h; cases h
  | finished => cases a <;> simp [step, hp] at h
  | _ => simp only [HoldsBlock, hp] at task

theorem holder_step_of_write (lock : s.lock = true) (owner : s.transactionOwner = none)
    (implicit : s.implicitWriteOwner = some t) (pending : ∀ w ∈ s.conn.pending, w = t)
    (task : HoldsWrite s (s.tasks t)) (idle : ∀ u, u ≠ t → (s.tasks u).Idle) (hsigned : Signed t a)
    (hfinish : Finishes s t a) (h : step s (t, a) = some s') : Holder s' := by
  obtain ⟨hframes, task⟩ := task
  have howner : s.transactionOwner ≠ some t := by
    rw [owner]
    rintro ⟨⟩
  have hstay : ∀ (conn : Connection Task) (depth : ℕ) (task' : TaskState Task),
      (∀ w ∈ conn.pending, w = t) → HoldsWrite { s with conn } task' →
      Holder ({ s with conn, implicitWriteDepth := depth }.setTask t task') := by
    intro conn depth task' hconn htask
    refine .write t lock owner implicit hconn ?_ (idle_setTask idle)
    rw [Database.setTask_tasks]
    exact htask
  have hgoto : ∀ pc : Pc Task, pc.idle = true → Holder (s.goto t pc) := by
    intro pc hpc
    refine hstay s.conn s.implicitWriteDepth { s.tasks t with pc } pending ⟨hframes, ?_⟩
    cases pc <;> first | exact trivial | cases hpc
  -- an ended write has left nothing on the connection when it gives the lock back
  have hclear : s.conn.pending = [] → Holder (s.clearImplicit.goto t .running) := by
    intro hnone
    rw [Database.clearImplicit, implicit]
    exact .free rfl owner rfl hnone (forall_idle_setTask idle ⟨hframes, rfl⟩)
  have hwhen : ∀ r : Database Task, whenFree s r = none := by
    intro r
    unfold whenFree
    rw [if_pos lock]
  cases hp : (s.tasks t).pc with
  | running =>
    cases a with
    | enter =>
      simp only [step, hp, Database.enter, if_neg howner, if_pos implicit] at h
      cases h
      exact .write t lock owner implicit pending ⟨hframes, by rw [hp]; trivial⟩ idle
    | execute statement =>
      simp only [step, hp, Database.execute, if_neg howner, if_pos implicit] at h
      cases h
      exact hstay _ (s.implicitWriteDepth + 1) _ (pending_execute pending (hsigned _ rfl)) ⟨hframes, trivial⟩
    | endWrite commit ok =>
      have hown : ¬ (s.transactionOwner = some t ∧ 0 < s.transactionDepth) := fun ho => howner ho.1
      simp only [Finishes, hp] at hfinish
      simp only [step, hp, Database.endWrite, if_neg hown, if_pos implicit] at h
      cases h
      -- the condition on the ends of a write: a failed one leaves nothing pending
      have hnone : (s.conn.finish commit ok).pending = [] := pending_finish (hfinish implicit)
      exact hstay _ s.implicitWriteDepth _ (by rw [hnone]; rintro _ ⟨⟩) ⟨hframes, hnone⟩
    | leave outcome ok => simp only [step, hp, hframes] at h; cases h
    | exit =>
      simp only [step, hp, if_pos hframes] at h
      cases h
      exact hgoto _ rfl
    | _ => simp only [step, hp] at h; cases h
  | awaitExecute impl done =>
    rw [hp] at task
    cases impl with
    | false => exact task.elim
    | true =>
      cases a with
      | resume ok =>
        simp only [step, hp] at h
        cases h
        cases done with
        | true => exact hgoto _ rfl
        | false =>
          simp only [Finishes, hp] at hfinish
          have hnone : (s.conn.finish false ok).pending = [] := pending_finish hfinish
          exact hstay _ s.implicitWriteDepth _ (by rw [hnone]; rintro _ ⟨⟩) ⟨hframes, hnone⟩
      | cancel =>
        simp only [step, hp] at h
        cases h
        exact hgoto _ rfl
      | _ => simp only [step, hp] at h; cases h
  | awaitUndo | awaitImplicitEnd =>
    rw [hp] at task
    cases a with
    | resume _ => simp only [step, hp] at h; cases h; exact hclear task
    | cancel => simp only [step, hp] at h; cases h; exact hclear task
    | _ => simp only [step, hp] at h; cases h
  | wantTransaction | wantWrite statement | wantTurn commit =>
    cases a with
    | acquire ok => simp only [step, hp, hwhen] at h; cases h
    | cancel => simp only [step, hp] at h; cases h; exact hgoto _ rfl
    | _ => simp only [step, hp] at h; cases h
  | awaitTurn =>
    cases a with
    | resume _ => simp only [step, hp] at h; cases h; exact hgoto _ rfl
    | cancel => simp only [step, hp] at h; cases h; exact hgoto _ rfl
    | _ => simp only [step, hp] at h; cases h
  | finished => cases a <;> simp [step, hp] at h
  | _ => rw [hp] at task; exact task.elim

/-- Only the task of the move gets another place, and it wants to write only what it executes. -/
def MovesOnly (s s' : Database Task) (t : Task) (a : Action Task) : Prop :=
  ∃ task, s'.tasks = Function.update s.tasks t task ∧
    ∀ statement, task.pc = .wantWrite statement →
      (s.tasks t).pc = .wantWrite statement ∨ a = .execute statement

theorem movesOnly_self : MovesOnly s s t a :=
  ⟨s.tasks t, (Function.update_eq_self t s.tasks).symm, fun _ h => Or.inl h⟩

theorem movesOnly_of_ne {task : TaskState Task} (hs' : s'.tasks = Function.update s.tasks t task)
    (hpc : ∀ statement, task.pc ≠ .wantWrite statement) : MovesOnly s s' t a :=
  ⟨task, hs', fun statement h => absurd h (hpc statement)⟩

theorem clearImplicit_tasks : s.clearImplicit.tasks = s.tasks := by
  unfold Database.clearImplicit
  split_ifs
  · rfl
  · rfl

theorem movesOnly_of_step (h : step s (t, a) = some s') : MovesOnly s s' t a := by
  have hwhen : ∀ {r : Database Task}, whenFree s r = some s' → s' = r := by
    intro r hr
    unfold whenFree at hr
    split_ifs at hr
    exact (Option.some.inj hr).symm
  unfold step at h
  simp only at h
  split at h
  case h_1 hp =>
    cases h
    unfold Database.enter
    split_ifs
    · exact movesOnly_of_ne rfl (by rw [hp]; rintro _ ⟨⟩)
    · exact movesOnly_self
    · exact movesOnly_of_ne rfl (by rintro _ ⟨⟩)
  case h_2 statement hp =>
    cases h
    unfold Database.execute
    split_ifs
    · exact movesOnly_of_ne rfl (by rintro _ ⟨⟩)
    · exact movesOnly_of_ne rfl (by rintro _ ⟨⟩)
    · exact ⟨_, rfl, fun statement' heq => Or.inr (by rw [← Pc.wantWrite.inj heq])⟩
  case h_3 commit ok hp =>
    cases h
    unfold Database.endWrite
    split_ifs
    · exact movesOnly_self
    · exact movesOnly_of_ne rfl (by rintro _ ⟨⟩)
    · exact movesOnly_of_ne rfl (by rintro _ ⟨⟩)
  case h_4 outcome ok hp =>
    split at h
    · cases h
    · cases h
      unfold Database.leave
      cases outcome with
      | cancelled =>
        split_ifs
        · exact movesOnly_of_ne rfl (by rw [hp]; rintro _ ⟨⟩)
        · exact movesOnly_of_ne rfl (by rw [hp]; rintro _ ⟨⟩)
      | _ =>
        split_ifs
        · exact movesOnly_of_ne rfl (by rintro _ ⟨⟩)
        · exact movesOnly_of_ne rfl (by rw [hp]; rintro _ ⟨⟩)
  case h_5 hp =>
    split_ifs at h
    cases h
    exact movesOnly_of_ne rfl (by rintro _ ⟨⟩)
  case h_12 ok hp =>
    cases h
    unfold Database.afterBegin
    split_ifs
    · exact movesOnly_of_ne rfl (by rintro _ ⟨⟩)
    · exact movesOnly_of_ne rfl (by rintro _ ⟨⟩)
  case h_16 ok implicit done hp =>
    cases h
    unfold Database.afterExecute
    split_ifs
    · exact movesOnly_of_ne rfl (by rintro _ ⟨⟩)
    · exact movesOnly_of_ne rfl (by rintro _ ⟨⟩)
  case h_6 | h_7 | h_8 =>
    obtain rfl := hwhen h
    exact movesOnly_of_ne rfl (by rintro _ ⟨⟩)
  case h_18 | h_19 | h_20 | h_21 =>
    cases h
    exact movesOnly_of_ne (congrArg (Function.update · t _) clearImplicit_tasks) (by rintro _ ⟨⟩)
  case h_24 => cases h
  all_goals
    cases h
    exact movesOnly_of_ne rfl (by rintro _ ⟨⟩)

/-- A statement that waits for the lock is signed. -/
def Named (s : Database Task) : Prop :=
  ∀ t statement, (s.tasks t).pc = .wantWrite statement → ∀ w ∈ statement.applied, w = t

theorem Named.step (h : Named s) (hsigned : Signed t a) (hstep : step s (t, a) = some s') : Named s' := by
  obtain ⟨task, htasks, hwant⟩ := movesOnly_of_step hstep
  intro u statement hu
  rw [htasks, Function.update_apply] at hu
  split_ifs at hu with heq
  · subst heq
    rcases hwant statement hu with hold | hnew
    · exact h u statement hold
    · exact hsigned statement hnew
  · exact h u statement hu

/-- **Every move keeps the holder.** -/
theorem Holder.step (h : Holder s) (hnamed : Named s) (hsigned : Signed t a) (hfinish : Finishes s t a)
    (hstep : step s (t, a) = some s') : Holder s' := by
  cases h with
  | free lock owner implicit pending idle =>
    exact Holder.step_of_idle (.free lock owner implicit pending idle) hstep (hnamed t) (idle t)
      (by rw [owner]; exact nofun) (by rw [implicit]; exact nofun)
  | block u lock owner implicit pending task idle =>
    by_cases ht : t = u
    · subst ht
      exact holder_step_of_block lock owner implicit pending task idle hsigned hfinish hstep
    · exact Holder.step_of_idle (.block u lock owner implicit pending task idle) hstep (hnamed t) (idle t ht)
        (by rw [owner]; simpa using Ne.symm ht) (by rw [implicit]; exact nofun)
  | write u lock owner implicit pending task idle =>
    by_cases ht : t = u
    · subst ht
      exact holder_step_of_write lock owner implicit pending task idle hsigned hfinish hstep
    · exact Holder.step_of_idle (.write u lock owner implicit pending task idle) hstep (hnamed t) (idle t ht)
        (by rw [owner]; exact nofun) (by rw [implicit]; simpa using Ne.symm ht)

theorem Holder.pending_of_free (h : Holder s) (hlock : s.lock = false) : s.conn.pending = [] := by
  cases h with
  | free lock owner implicit pending idle => exact pending
  | block u lock owner implicit pending task idle =>
    rw [hlock] at lock
    cases lock
  | write u lock owner implicit pending task idle =>
    rw [hlock] at lock
    cases lock

/-! ### Reads -/

namespace Reading

/-- A read past the gate, and a fetch, are not made over uncommitted writes of another task; a `COMMIT` or
`ROLLBACK` with something to finish succeeds. -/
def Gated (s : Reading) : ReadAction → Prop
  | .move t a => Finishes s.db t a
  | .spawn _ _ => True
  | .select t _ => (s.context t).isSome → s.foreign t = []
  | .fetch t _ => s.foreign t = []

/-- The invariant. -/
structure Isolated (s : Reading) : Prop where
  holder : Holder s.db
  named : Named s.db
  exposed : s.exposed = []

theorem afterMove_db (s : Reading) (t : Task) (a : Action Task) (db : Database Task) :
    (s.afterMove t a db).db = db ∧ (s.afterMove t a db).exposed = s.exposed := by
  unfold afterMove
  split
  · exact ⟨rfl, rfl⟩
  · exact ⟨rfl, rfl⟩
  · exact ⟨rfl, rfl⟩
  · split_ifs
    · exact ⟨rfl, rfl⟩
    · exact ⟨rfl, rfl⟩
  · exact ⟨rfl, rfl⟩

variable {s s' : Reading} {t : Task} {action : ReadAction} {actions : List ReadAction}

theorem foreign_of_inside (h : s.inside t = true) : s.foreign t = [] := if_pos h

/-- A read that comes through the gate by the lock or by its owner is made over no foreign writes. -/
theorem Isolated.foreign_of_mayRead (h : Isolated s) (hmay : s.mayRead t = true)
    (hcontext : (s.context t).isSome → s.foreign t = []) : s.foreign t = [] := by
  unfold mayRead at hmay
  simp only [Bool.or_eq_true, decide_eq_true_eq, Bool.not_eq_true'] at hmay
  rcases hmay with ((howner | hctx) | himplicit) | hlock
  · exact foreign_of_inside (by simp [inside, howner])
  · exact hcontext hctx
  · exact foreign_of_inside (by simp [inside, himplicit])
  · unfold foreign
    rw [h.holder.pending_of_free hlock]
    exact ite_self _

theorem Isolated.read (h : Isolated s) (hforeign : s.foreign t = []) (n : ℕ) : Isolated (s.read t n) := by
  refine ⟨h.holder, h.named, ?_⟩
  show s.exposed ++ s.foreign t = []
  rw [h.exposed, hforeign]
  rfl

theorem Isolated.step (h : Isolated s) (hgated : Gated s action) (hstep : s.step action = some s') :
    Isolated s' := by
  cases action with
  | move t a =>
    simp only [Reading.step] at hstep
    split_ifs at hstep
    obtain ⟨db, hdb, rfl⟩ := Option.map_eq_some_iff.1 hstep
    obtain ⟨hafter, hexposed⟩ := afterMove_db s t a db
    have hsigned := signed_signed t a
    refine ⟨?_, ?_, hexposed.trans h.exposed⟩
    · rw [hafter]
      exact h.holder.step h.named hsigned (finishes_signed.2 hgated) hdb
    · rw [hafter]
      exact h.named.step hsigned hdb
  | spawn parent t =>
    simp only [Reading.step] at hstep
    split_ifs at hstep
    cases hstep
    exact ⟨h.holder, h.named, h.exposed⟩
  | select t more =>
    simp only [Reading.step] at hstep
    split at hstep
    · split_ifs at hstep with hmay
      cases hstep
      exact h.read (h.foreign_of_mayRead (Bool.and_eq_true_iff.1 hmay).2 hgated) _
    · cases hstep
  | fetch t more =>
    simp only [Reading.step] at hstep
    split at hstep
    · cases hstep
      exact h.read hgated _
    · cases hstep

theorem isolated_start (committed : List Task) : Isolated (start committed) :=
  ⟨.free rfl rfl rfl rfl fun _ => ⟨rfl, rfl⟩, (fun _ _ h => nomatch h), rfl⟩

/-- **No read from outside is made over uncommitted writes of another task.** -/
theorem reads_isolated {committed : List Task} (hgated : Allowed step Gated (start committed) actions)
    (hrun : runFrom step (start committed) actions = some s) : s.exposed = [] := by
  have hinv : Isolated s :=
    invariant_of_allowed (fun _ _ _ hinv hallow hstep => hinv.step hallow hstep) (isolated_start committed)
      hgated hrun
  exact hinv.exposed

instance (s : Database Task) (t : Task) : ∀ a, Decidable (Finishes s t a) := by
  intro a
  unfold Finishes
  split <;> infer_instance

instance (s : Reading) : ∀ action, Decidable (Gated s action)
  | .move t a => inferInstanceAs (Decidable (Finishes s.db t a))
  | .spawn _ _ => .isTrue trivial
  | .select t _ => inferInstanceAs (Decidable ((s.context t).isSome → s.foreign t = []))
  | .fetch t _ => inferInstanceAs (Decidable (s.foreign t = []))

/-- A statement that writes one row. -/
def oneRow : Statement Task := ⟨.dml, [0], true⟩

/-- A child reads inside the block of its parent, and a third task when the block is over. -/
def patientReader : List ReadAction :=
  [.spawn none 1, .move 1 .enter, .move 1 (.acquire true), .move 1 (.resume true), .move 1 (.execute oneRow),
    .move 1 (.resume true), .spawn (some 1) 2, .select 2 false, .move 1 (.leave .returned true),
    .move 1 (.resume true), .spawn none 3, .select 3 true, .fetch 3 false]

theorem reads_isolated_patientReader : ∃ s, runFrom step (start []) patientReader = some s ∧
    s.exposed = [] := by
  have hrun : runFrom step (start []) patientReader = some _ := rfl
  exact ⟨_, hrun, reads_isolated (by decide +kernel) hrun⟩

/-- A task fetches the rest of its rows after another one has written. -/
def lateFetch : List ReadAction :=
  [.spawn none 1, .spawn none 2, .select 1 true, .move 2 (.execute oneRow), .move 2 (.acquire true),
    .fetch 1 false]

/-- A task that was spawned in a block reads when the block is over and a third task has written. -/
def staleContext : List ReadAction :=
  [.spawn none 1, .move 1 .enter, .move 1 (.acquire true), .move 1 (.resume true), .spawn (some 1) 2,
    .move 1 (.leave .returned true), .move 1 (.resume true), .spawn none 3, .move 3 (.execute oneRow),
    .move 3 (.acquire true), .select 2 false]

/-- Both reads are made over the uncommitted write. -/
theorem not_isolated :
    (¬ ∀ s, runFrom step (start []) lateFetch = some s → s.exposed = []) ∧
      ¬ ∀ s, runFrom step (start []) staleContext = some s → s.exposed = [] := by
  refine ⟨fun h => ?_, fun h => ?_⟩
  · have hrun : runFrom step (start []) lateFetch = some _ := rfl
    exact absurd (h _ hrun) (by decide)
  · have hrun : runFrom step (start []) staleContext = some _ := rfl
    exact absurd (h _ hrun) (by decide)

end Reading

end VpnBot.Db
