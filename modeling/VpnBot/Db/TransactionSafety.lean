import VpnBot.Db.Transaction

/-!
# What the transaction lock guarantees

`Sound` says of a state that every outermost block that was left had given the lock back, with its
writes all in the database or none of them; that the lock is held for a task that is still running;
and that the lock can become free.

It holds after every run whose moves meet `Clean` (`sound_of_clean_run`): no outermost block is left by
a cancellation, no task ends while it owns an implicit write, `COMMIT` and `ROLLBACK` succeed, and a
block that ran `executescript` is not left by an exception.  The invariant is `Inv`: the lock is free
and the connection has no transaction, or one task is in a block, or one task has an implicit write
(`Phase`); every other task owns nothing (`Idle`).

`not_sound_after_cancel` is the run in which a block is cancelled.
-/

namespace VpnBot.Db

open Sys

variable {W : Type}

/-! ### The property -/

/-- When the block was left the lock was free and no transaction open, and the database had all of
its writes or none. -/
def Ended.Good (e : Ended W) : Prop :=
  e.lock = false ∧ e.owner = none ∧ e.inTransaction = false ∧
    e.after = if e.returned then e.before ++ e.writes else e.before

/-- What is to hold in every state. -/
structure Sound (s : Database W) : Prop where
  left_good : ∀ e ∈ s.ended, e.Good
  unlocked : s.lock = false →
    s.transactionOwner = none ∧ s.implicitWriteOwner = none ∧ s.conn.inTransaction = false
  held_by_live : s.lock = true → ∃ t, (s.transactionOwner = some t ∨ s.implicitWriteOwner = some t) ∧
    (s.tasks t).pc ≠ .finished
  not_stuck : CanReach step (fun s' => s'.lock = false) s

/-- The condition on a move. -/
def Clean (s : Database W) (move : Task × Action W) : Prop :=
  let task := s.tasks move.1
  match move.2, task.pc with
  | .cancel, .awaitBegin _ => False
  | .leave outcome ok, .running => task.frames.head? = some true →
      outcome ≠ .cancelled ∧ ok = true ∧ (outcome = .raised → task.scripted = false)
  | .endWrite _ ok, .running => s.implicitWriteOwner = some move.1 → ok = true
  | .resume ok, .awaitExecute true false => ok = true
  | .exit, .running => s.implicitWriteOwner ≠ some move.1
  | _, _ => True

/-! ### The invariant -/

/-- No transaction is open. -/
def Connection.Idle (conn : Connection W) : Prop := conn.inTransaction = false ∧ conn.pending = []

/-- The task owns nothing. -/
def Pc.idle : Pc W → Bool
  | .running => true
  | .wantTransaction => true
  | .wantWrite _ => true
  | .wantTurn _ => true
  | .awaitTurn => true
  | .finished => true
  | _ => false

/-- The task is in no block and owns no implicit write. -/
def TaskState.Idle (task : TaskState W) : Prop := task.frames = [] ∧ task.pc.idle = true

/-- The blocks of a task: one outermost, the others joined to it. -/
def Nested (depth : ℕ) (frames : List Bool) : Prop :=
  ∃ n, frames = List.replicate n false ++ [true] ∧ n < depth

/-- The writes of the block are the pending ones, behind those that `executescript` has flushed. -/
def Recorded (conn : Connection W) (task : TaskState W) : Prop :=
  (∃ flushed, conn.committed = task.before ++ flushed ∧ task.writes = flushed ++ conn.pending ∧
    (task.scripted = false → flushed = [] ∧ conn.inTransaction = true)) ∧
  (conn.inTransaction = false → conn.pending = [])

/-- What is known about the task that owns the explicit transaction. -/
def InBlock (s : Database W) (task : TaskState W) : Prop :=
  match task.pc with
  | .awaitBegin ok => task.frames = [] ∧ s.conn.inTransaction = ok ∧ s.conn.pending = []
  | .running => Nested s.transactionDepth task.frames ∧ Recorded s.conn task
  | .awaitExecute false _ => Nested s.transactionDepth task.frames ∧ Recorded s.conn task
  | .awaitEnd returned => task.frames = [] ∧ s.conn.Idle ∧
      s.conn.committed = if returned then task.before ++ task.writes else task.before
  | _ => False

/-- What is known about the task that owns the implicit write. -/
def InWrite (s : Database W) (task : TaskState W) : Prop :=
  task.frames = [] ∧
    match task.pc with
    | .running => True
    | .awaitExecute true _ => True
    | .awaitUndo => s.conn.Idle
    | .awaitImplicitEnd => s.conn.Idle
    | _ => False

/-- Who has the lock. -/
inductive Phase (s : Database W) : Prop
  | free (lock : s.lock = false) (owner : s.transactionOwner = none)
      (implicit : s.implicitWriteOwner = none) (conn : s.conn.Idle) (idle : ∀ u, (s.tasks u).Idle)
  | block (t : Task) (lock : s.lock = true) (owner : s.transactionOwner = some t)
      (implicit : s.implicitWriteOwner = none) (task : InBlock s (s.tasks t))
      (idle : ∀ u, u ≠ t → (s.tasks u).Idle)
  | write (t : Task) (lock : s.lock = true) (owner : s.transactionOwner = none)
      (implicit : s.implicitWriteOwner = some t) (task : InWrite s (s.tasks t))
      (idle : ∀ u, u ≠ t → (s.tasks u).Idle)

/-- The invariant. -/
structure Inv (s : Database W) : Prop where
  phase : Phase s
  left_good : ∀ e ∈ s.ended, e.Good

/-! ### Projections of the new states -/

namespace Database

@[simp] theorem setTask_tasks (s : Database W) (t : Task) (task : TaskState W) :
    (s.setTask t task).tasks t = task := Function.update_self ..

theorem setTask_tasks_of_ne (s : Database W) {t u : Task} (h : u ≠ t) (task : TaskState W) :
    (s.setTask t task).tasks u = s.tasks u := Function.update_of_ne h ..

@[simp] theorem setTask_lock (s : Database W) (t : Task) (task : TaskState W) :
    (s.setTask t task).lock = s.lock := rfl

@[simp] theorem setTask_transactionOwner (s : Database W) (t : Task) (task : TaskState W) :
    (s.setTask t task).transactionOwner = s.transactionOwner := rfl

@[simp] theorem setTask_transactionDepth (s : Database W) (t : Task) (task : TaskState W) :
    (s.setTask t task).transactionDepth = s.transactionDepth := rfl

@[simp] theorem setTask_implicitWriteOwner (s : Database W) (t : Task) (task : TaskState W) :
    (s.setTask t task).implicitWriteOwner = s.implicitWriteOwner := rfl

@[simp] theorem setTask_conn (s : Database W) (t : Task) (task : TaskState W) :
    (s.setTask t task).conn = s.conn := rfl

end Database

variable {t : Task} {s : Database W} {frames : List Bool} {task : TaskState W}

theorem idle_setTask
    (h : ∀ u, u ≠ t → (s.tasks u).Idle) : ∀ u, u ≠ t → ((s.setTask t task).tasks u).Idle := by
  intro u hu
  rw [s.setTask_tasks_of_ne hu]
  exact h u hu

theorem forall_idle_setTask (h : ∀ u, u ≠ t → (s.tasks u).Idle) (ht : task.Idle) :
    ∀ u, ((s.setTask t task).tasks u).Idle := by
  intro u
  by_cases hu : u = t
  · rw [hu, Database.setTask_tasks]
    exact ht
  · exact idle_setTask h u hu

/-! ### The connection -/

theorem finish_idle {conn : Connection W} (commit : Bool) : (conn.finish commit true).Idle :=
  ⟨rfl, rfl⟩

theorem recorded_execute {conn : Connection W} (h : Recorded conn task)
    (statement : Statement W) (pc : Pc W) :
    Recorded (conn.execute statement) { task with
      pc
      writes := task.writes ++ statement.applied
      scripted := task.scripted || statement.kind = StatementKind.script } := by
  obtain ⟨⟨flushed, hcommitted, hwrites, hscripted⟩, hpending⟩ := h
  unfold Connection.execute
  cases hk : statement.kind with
  | dml =>
    refine ⟨⟨flushed, hcommitted, ?_, fun hs => ?_⟩, fun hf => (nomatch hf)⟩
    · rw [hwrites, List.append_assoc]
    · exact ⟨(hscripted (by simpa using hs)).1, rfl⟩
  | ddl =>
    simp only
    split_ifs with hin
    · refine ⟨⟨flushed, hcommitted, ?_, fun hs => ?_⟩, fun hf => (nomatch hf)⟩
      · rw [hwrites, List.append_assoc]
      · exact ⟨(hscripted (by simpa using hs)).1, rfl⟩
    · -- no transaction is open any more, so the statement takes effect at once
      have hp := hpending (by simpa using hin)
      refine ⟨⟨flushed ++ statement.applied, ?_, ?_, fun hs => ?_⟩, fun _ => hp⟩
      · rw [hcommitted, List.append_assoc]
      · rw [hwrites, hp, List.append_nil, List.append_nil]
      · exact absurd (hscripted (by simpa using hs)).2 hin
  | script =>
    simp only
    refine ⟨⟨flushed ++ conn.pending ++ statement.applied, ?_, ?_, fun hs => ?_⟩, fun _ => rfl⟩
    · rw [hcommitted, List.append_assoc, List.append_assoc, List.append_assoc]
    · rw [hwrites, List.append_nil]
    · simp at hs

theorem recorded_finish {conn : Connection W} (h : Recorded conn task)
    (returned : Bool) (hscripted : returned = false → task.scripted = false) :
    (conn.finish returned true).committed =
      if returned then task.before ++ task.writes else task.before := by
  obtain ⟨⟨flushed, hcommitted, hwrites, hflushed⟩, -⟩ := h
  cases returned with
  | true => simp [Connection.finish, hcommitted, hwrites]
  | false =>
    have hnil := (hflushed (hscripted rfl)).1
    simp [Connection.finish, hcommitted, hnil]

/-! ### The moves of a task that owns nothing -/

theorem step_of_idle {s s' : Database W} {a : Action W} (h : step s (t, a) = some s')
    (hidle : (s.tasks t).Idle) (howner : s.transactionOwner ≠ some t)
    (himplicit : s.implicitWriteOwner ≠ some t) :
    (∃ task, task.Idle ∧ s' = s.setTask t task) ∨ s.lock = false ∧ ((∃ ok, s' = s.begin t ok) ∨
      (∃ statement, (s.tasks t).pc = .wantWrite statement ∧ s' = s.startWrite t statement) ∨
        ∃ commit, s' = s.takeTurn t commit) := by
  obtain ⟨hframes, hpc⟩ := hidle
  have hgoto : ∀ pc : Pc W, pc.idle = true → ∃ task : TaskState W, task.Idle ∧
      s.goto t pc = s.setTask t task :=
    fun pc hp => ⟨{ s.tasks t with pc }, ⟨hframes, hp⟩, rfl⟩
  have hfree : ∀ r : Database W, whenFree s r = some s' → s.lock = false ∧ s' = r := by
    intro r hr
    unfold whenFree at hr
    split_ifs at hr with hl
    exact ⟨by simpa using hl, (Option.some.inj hr).symm⟩
  cases hp : (s.tasks t).pc with
  | running =>
    cases a with
    | enter =>
      simp only [step, hp, Database.enter, if_neg howner, if_neg himplicit] at h
      cases h
      exact Or.inl (hgoto _ rfl)
    | execute statement =>
      simp only [step, hp, Database.execute, if_neg howner, if_neg himplicit] at h
      cases h
      exact Or.inl (hgoto _ rfl)
    | endWrite commit ok =>
      have hown : ¬ (s.transactionOwner = some t ∧ 0 < s.transactionDepth) := fun ho => howner ho.1
      simp only [step, hp, Database.endWrite, if_neg hown, if_neg himplicit] at h
      cases h
      exact Or.inl (hgoto _ rfl)
    | leave outcome ok =>
      simp only [step, hp, hframes] at h
      cases h
    | exit =>
      simp only [step, hp, hframes, if_true] at h
      cases h
      exact Or.inl (hgoto _ rfl)
    | _ => simp only [step, hp] at h; cases h
  | wantTransaction =>
    cases a with
    | acquire ok =>
      simp only [step, hp] at h
      exact Or.inr ⟨(hfree _ h).1, Or.inl ⟨ok, (hfree _ h).2⟩⟩
    | cancel =>
      simp only [step, hp] at h
      cases h
      exact Or.inl (hgoto _ rfl)
    | _ => simp only [step, hp] at h; cases h
  | wantWrite statement =>
    cases a with
    | acquire ok =>
      simp only [step, hp] at h
      exact Or.inr ⟨(hfree _ h).1, Or.inr (Or.inl ⟨statement, rfl, (hfree _ h).2⟩)⟩
    | cancel =>
      simp only [step, hp] at h
      cases h
      exact Or.inl (hgoto _ rfl)
    | _ => simp only [step, hp] at h; cases h
  | wantTurn commit =>
    cases a with
    | acquire ok =>
      simp only [step, hp] at h
      exact Or.inr ⟨(hfree _ h).1, Or.inr (Or.inr ⟨commit, (hfree _ h).2⟩)⟩
    | cancel =>
      simp only [step, hp] at h
      cases h
      exact Or.inl (hgoto _ rfl)
    | _ => simp only [step, hp] at h; cases h
  | awaitTurn =>
    cases a with
    | resume ok =>
      simp only [step, hp] at h
      cases h
      exact Or.inl (hgoto _ rfl)
    | cancel =>
      simp only [step, hp] at h
      cases h
      exact Or.inl (hgoto _ rfl)
    | _ => simp only [step, hp] at h; cases h
  | finished => cases a <;> simp [step, hp] at h
  | _ => rw [hp] at hpc; cases hpc

theorem inv_step_of_idle {s s' : Database W} {a : Action W} (hinv : Inv s)
    (h : step s (t, a) = some s') (hidle : (s.tasks t).Idle) (howner : s.transactionOwner ≠ some t)
    (himplicit : s.implicitWriteOwner ≠ some t) : Inv s' := by
  obtain ⟨hphase, hended⟩ := hinv
  obtain ⟨task, htask, rfl⟩ | ⟨hlock, hfree⟩ := step_of_idle h hidle howner himplicit
  · -- the task only changes its own place
    refine ⟨?_, hended⟩
    have hothers : ∀ u, (∀ v, v ≠ u → (s.tasks v).Idle) →
        ∀ v, v ≠ u → ((s.setTask t task).tasks v).Idle := by
      intro u hu v hv
      by_cases hvt : v = t
      · rw [hvt, Database.setTask_tasks]
        exact htask
      · rw [s.setTask_tasks_of_ne hvt]
        exact hu v hv
    cases hphase with
    | free lock owner implicit conn idle =>
      exact .free lock owner implicit conn (forall_idle_setTask (fun u _ => idle u) htask)
    | block u lock owner implicit utask idle =>
      have hut : u ≠ t := fun he => howner (he ▸ owner)
      refine .block u lock owner implicit ?_ (hothers u idle)
      rw [s.setTask_tasks_of_ne hut]
      exact utask
    | write u lock owner implicit utask idle =>
      have hut : u ≠ t := fun he => himplicit (he ▸ implicit)
      refine .write u lock owner implicit ?_ (hothers u idle)
      rw [s.setTask_tasks_of_ne hut]
      exact utask
  · -- the lock is free, so the connection has no transaction
    cases hphase with
    | free lock owner implicit conn idle =>
      have hothers : ∀ u, u ≠ t → (s.tasks u).Idle := fun u _ => idle u
      obtain ⟨ok, rfl⟩ | ⟨statement, -, rfl⟩ | ⟨commit, rfl⟩ := hfree
      · refine ⟨.block t rfl rfl implicit ?_ (idle_setTask hothers), hended⟩
        simp only [Database.begin, Database.goto, Database.setTask_tasks, InBlock]
        exact ⟨hidle.1, by simp [conn.1], conn.2⟩
      · refine ⟨.write t rfl owner rfl ?_ (idle_setTask hothers), hended⟩
        simp only [Database.startWrite, Database.queue, Database.setTask_tasks, InWrite]
        exact ⟨hidle.1, trivial⟩
      · have hcommitted : (s.conn.finish commit true).Idle := finish_idle commit
        refine ⟨.free lock owner implicit hcommitted (forall_idle_setTask hothers ?_), hended⟩
        exact ⟨hidle.1, rfl⟩
    | block u lock _ _ _ _ => rw [hlock] at lock; cases lock
    | write u lock _ _ _ _ => rw [hlock] at lock; cases lock

/-! ### The moves of the task that has the lock -/

theorem nested_enter {depth : ℕ} (h : Nested depth frames) :
    Nested (depth + 1) (false :: frames) := by
  obtain ⟨n, rfl, hn⟩ := h
  exact ⟨n + 1, rfl, Nat.succ_lt_succ hn⟩

theorem nested_leave {depth depth' : ℕ} (h : Nested depth (false :: frames))
    (hd : depth - 1 ≤ depth') : Nested depth' frames := by
  obtain ⟨n, he, hn⟩ := h
  cases n with
  | zero => exact absurd he (by simp)
  | succ n =>
    rw [List.replicate_succ, List.cons_append] at he
    exact ⟨n, (List.cons.inj he).2, by omega⟩

theorem nil_of_nested_true {depth : ℕ} (h : Nested depth (true :: frames)) :
    frames = [] := by
  obtain ⟨n, he, -⟩ := h
  cases n with
  | zero => simpa using he
  | succ n =>
    rw [List.replicate_succ, List.cons_append] at he
    cases (List.cons.inj he).1

theorem inv_leave (hended : ∀ e ∈ s.ended, e.Good)
    (lock : s.lock = true) (owner : s.transactionOwner = some t)
    (implicit : s.implicitWriteOwner = none) (idle : ∀ u, u ≠ t → (s.tasks u).Idle)
    (hpc : (s.tasks t).pc = .running) {outermost : Bool}
    (hframes : (s.tasks t).frames = outermost :: frames)
    (hnested : Nested s.transactionDepth (outermost :: frames))
    (hrecorded : Recorded s.conn (s.tasks t)) {outcome : Outcome} {ok : Bool}
    (hclean : outermost = true → outcome ≠ .cancelled ∧ ok = true ∧
      (outcome = .raised → (s.tasks t).scripted = false)) :
    Inv (s.leave t outermost frames outcome ok) := by
  cases outermost with
  | true =>
    obtain ⟨hcancel, rfl, hscripted⟩ := hclean rfl
    rw [nil_of_nested_true hnested]
    have hfinish := recorded_finish hrecorded (outcome = Outcome.returned) fun hr =>
      hscripted (by cases outcome <;> simp_all)
    have hleave : s.leave t true [] outcome true =
        { s with
          transactionDepth := s.transactionDepth - 1
          conn := s.conn.finish (outcome = Outcome.returned) true }.setTask t
            { s.tasks t with frames := [], pc := .awaitEnd (outcome = Outcome.returned) } := by
      cases outcome with
      | cancelled => exact absurd rfl hcancel
      | _ => rfl
    rw [hleave]
    refine ⟨.block t lock owner implicit ?_ (idle_setTask idle), hended⟩
    rw [InBlock, Database.setTask_tasks]
    exact ⟨rfl, finish_idle _, hfinish⟩
  | false =>
    have hblock : ∀ depth, s.transactionDepth - 1 ≤ depth →
        Inv ({ s with transactionDepth := depth }.setTask t { s.tasks t with frames }) := by
      intro depth hd
      refine ⟨.block t lock owner implicit ?_ (idle_setTask idle), hended⟩
      rw [Database.setTask_tasks, InBlock]
      simp only [hpc]
      exact ⟨nested_leave hnested hd, hrecorded⟩
    cases outcome with
    | cancelled => exact hblock s.transactionDepth (Nat.sub_le _ _)
    | _ => exact hblock (s.transactionDepth - 1) (Nat.le_refl _)

/-- Giving the lock back after `COMMIT` or `ROLLBACK`. -/
theorem inv_release (hended : ∀ e ∈ s.ended, e.Good)
    (implicit : s.implicitWriteOwner = none) (idle : ∀ u, u ≠ t → (s.tasks u).Idle)
    (hframes : (s.tasks t).frames = []) (hconn : s.conn.Idle) {returned : Bool}
    (hcommitted : s.conn.committed =
      if returned then (s.tasks t).before ++ (s.tasks t).writes else (s.tasks t).before) :
    Inv (s.release t returned) := by
  have hlast : (({ s with lock := false, transactionOwner := none }.goto t .running).endedNow t
      returned).Good := by
    refine ⟨rfl, rfl, hconn.1, ?_⟩
    simp only [Database.endedNow, Database.goto, Database.setTask_tasks]
    exact hcommitted
  refine ⟨.free rfl rfl implicit hconn (forall_idle_setTask idle ⟨hframes, rfl⟩), ?_⟩
  intro e he
  rcases List.mem_append.1 he with he | he
  · exact hended e he
  · rw [List.mem_singleton.1 he]
    exact hlast

theorem inv_step_of_block {s s' : Database W} {a : Action W}
    (hended : ∀ e ∈ s.ended, e.Good) (lock : s.lock = true) (owner : s.transactionOwner = some t)
    (implicit : s.implicitWriteOwner = none) (task : InBlock s (s.tasks t))
    (idle : ∀ u, u ≠ t → (s.tasks u).Idle) (hclean : Clean s (t, a))
    (h : step s (t, a) = some s') : Inv s' := by
  cases hp : (s.tasks t).pc with
  | awaitBegin ok =>
    simp only [InBlock, hp] at task
    obtain ⟨hframes, hin, hpending⟩ := task
    cases a with
    | resume _ =>
      simp only [step, hp] at h
      cases h
      cases ok with
      | true =>
        -- BEGIN has opened an empty block: nothing is pending and nothing is recorded
        refine ⟨.block t lock owner implicit ?_ (idle_setTask idle), hended⟩
        simp only [Database.afterBegin, if_true, Database.setTask_tasks, InBlock]
        refine ⟨⟨0, by rw [hframes]; rfl, Nat.succ_pos _⟩, ⟨[], ?_, ?_, fun _ => ⟨rfl, hin⟩⟩,
          fun hf => hpending⟩
        · exact (List.append_nil _).symm
        · exact hpending.symm
      | false =>
        exact ⟨.free rfl rfl implicit ⟨hin, hpending⟩ (forall_idle_setTask idle ⟨hframes, rfl⟩),
          hended⟩
    | cancel => simp only [Clean, hp] at hclean
    | _ => simp only [step, hp] at h; cases h
  | running =>
    simp only [InBlock, hp] at task
    obtain ⟨hnested, hrecorded⟩ := task
    have hdepth : 0 < s.transactionDepth := by
      obtain ⟨n, -, hn⟩ := hnested
      omega
    cases a with
    | enter =>
      -- a nested block of the owner only counts one level deeper
      simp only [step, hp, Database.enter, if_pos owner] at h
      cases h
      refine ⟨.block t lock owner implicit ?_ (idle_setTask idle), hended⟩
      rw [Database.setTask_tasks, InBlock]
      simp only
      exact ⟨nested_enter hnested, hrecorded⟩
    | execute statement =>
      simp only [step, hp, Database.execute, if_pos owner] at h
      cases h
      refine ⟨.block t lock owner implicit ?_ (idle_setTask idle), hended⟩
      simp only [Database.queue, Database.setTask_tasks, InBlock]
      exact ⟨hnested, recorded_execute hrecorded statement _⟩
    | endWrite commit ok =>
      -- inside the block a commit or rollback of the owner is ignored
      simp only [step, hp, Database.endWrite, if_pos (And.intro owner hdepth)] at h
      cases h
      refine ⟨.block t lock owner implicit ?_ idle, hended⟩
      rw [InBlock, hp]
      exact ⟨hnested, hrecorded⟩
    | leave outcome ok =>
      cases hf : (s.tasks t).frames with
      | nil => simp only [step, hp, hf] at h; cases h
      | cons outermost frames =>
        simp only [step, hp, hf] at h
        cases h
        rw [hf] at hnested
        -- the outermost frame ends the transaction, an inner one only leaves
        refine inv_leave hended lock owner implicit idle hp hf hnested hrecorded fun ho => ?_
        simp only [Clean, hp, hf] at hclean
        exact hclean (by rw [ho]; rfl)
    | exit =>
      obtain ⟨n, hn, -⟩ := hnested
      have hne : (s.tasks t).frames ≠ [] := by
        rw [hn]
        simp
      simp only [step, hp, if_neg hne] at h
      cases h
    | _ => simp only [step, hp] at h; cases h
  | awaitExecute impl done =>
    cases impl with
    | true => simp only [InBlock, hp] at task
    | false =>
      simp only [InBlock, hp] at task
      obtain ⟨hnested, hrecorded⟩ := task
      have hgoto : Inv (s.goto t .running) := by
        refine ⟨.block t lock owner implicit ?_ (idle_setTask idle), hended⟩
        simp only [Database.goto, Database.setTask_tasks, InBlock]
        exact ⟨hnested, hrecorded⟩
      cases a with
      | resume ok =>
        simp only [step, hp, Database.afterExecute, Bool.not_false, Bool.or_true, if_true] at h
        cases h
        exact hgoto
      | cancel =>
        simp only [step, hp] at h
        cases h
        exact hgoto
      | _ => simp only [step, hp] at h; cases h
  | awaitEnd returned =>
    simp only [InBlock, hp] at task
    obtain ⟨hframes, hconn, hcommitted⟩ := task
    cases a with
    | resume _ =>
      simp only [step, hp] at h
      cases h
      exact inv_release hended implicit idle hframes hconn hcommitted
    | cancel =>
      simp only [step, hp] at h
      cases h
      exact inv_release hended implicit idle hframes hconn hcommitted
    | _ => simp only [step, hp] at h; cases h
  | _ => simp only [InBlock, hp] at task

theorem inv_step_of_write {s s' : Database W} {a : Action W}
    (hended : ∀ e ∈ s.ended, e.Good) (lock : s.lock = true) (owner : s.transactionOwner = none)
    (implicit : s.implicitWriteOwner = some t) (task : InWrite s (s.tasks t))
    (idle : ∀ u, u ≠ t → (s.tasks u).Idle) (hclean : Clean s (t, a))
    (h : step s (t, a) = some s') : Inv s' := by
  obtain ⟨hframes, task⟩ := task
  have howner : s.transactionOwner ≠ some t := by
    rw [owner]
    exact nofun
  have hstay : ∀ (conn : Connection W) (task : TaskState W) (depth : ℕ), task.frames = [] →
      InWrite { s with conn } task → Inv ({ s with
        conn, implicitWriteDepth := depth }.setTask t task) := by
    intro conn task depth hf hw
    refine ⟨.write t lock owner implicit ?_ (idle_setTask idle), hended⟩
    rw [Database.setTask_tasks]
    exact hw
  have hclear : s.conn.Idle → Inv (s.clearImplicit.goto t .running) := by
    intro hconn
    rw [Database.clearImplicit, implicit]
    exact ⟨.free rfl owner rfl hconn (forall_idle_setTask idle ⟨hframes, rfl⟩), hended⟩
  cases hp : (s.tasks t).pc with
  | running =>
    cases a with
    | enter =>
      simp only [step, hp, Database.enter, if_neg howner, if_pos implicit] at h
      cases h
      exact ⟨.write t lock owner implicit ⟨hframes, by rw [hp]; trivial⟩ idle, hended⟩
    | execute statement =>
      simp only [step, hp, Database.execute, if_neg howner, if_pos implicit] at h
      cases h
      exact hstay _ _ _ hframes ⟨hframes, trivial⟩
    | endWrite commit ok =>
      have hown : ¬ (s.transactionOwner = some t ∧ 0 < s.transactionDepth) := fun ho => howner ho.1
      simp only [Clean, hp] at hclean
      simp only [step, hp, Database.endWrite, if_neg hown, if_pos implicit] at h
      cases h
      rw [hclean implicit]
      exact hstay _ _ _ hframes ⟨hframes, finish_idle _⟩
    | leave outcome ok => simp only [step, hp, hframes] at h; cases h
    | exit => simp only [Clean, hp] at hclean; exact absurd implicit hclean
    | _ => simp only [step, hp] at h; cases h
  | awaitExecute impl done =>
    rw [hp] at task
    cases impl with
    | false => exact task.elim
    | true =>
      have hgoto : Inv (s.goto t .running) := hstay _ _ _ hframes ⟨hframes, trivial⟩
      cases a with
      | resume ok =>
        simp only [step, hp] at h
        cases h
        cases done with
        | true => exact hgoto
        | false =>
          simp only [Clean, hp] at hclean
          rw [hclean]
          exact hstay _ _ _ hframes ⟨hframes, finish_idle _⟩
      | cancel =>
        simp only [step, hp] at h
        cases h
        exact hgoto
      | _ => simp only [step, hp] at h; cases h
  | awaitUndo | awaitImplicitEnd =>
    rw [hp] at task
    cases a with
    | resume _ => simp only [step, hp] at h; cases h; exact hclear task
    | cancel => simp only [step, hp] at h; cases h; exact hclear task
    | _ => simp only [step, hp] at h; cases h
  | _ => rw [hp] at task; exact task.elim

/-- **Every clean move keeps the invariant.** -/
theorem inv_step {s s' : Database W} {move : Task × Action W} (hinv : Inv s)
    (hclean : Clean s move) (h : step s move = some s') : Inv s' := by
  obtain ⟨t, a⟩ := move
  cases hinv.phase with
  | free lock owner implicit conn idle =>
    exact inv_step_of_idle hinv h (idle t) (by rw [owner]; exact nofun)
      (by rw [implicit]; exact nofun)
  | block u lock owner implicit task idle =>
    by_cases ht : t = u
    · subst ht
      exact inv_step_of_block hinv.left_good lock owner implicit task idle hclean h
    · exact inv_step_of_idle hinv h (idle t ht) (by rw [owner]; simpa using Ne.symm ht)
        (by rw [implicit]; exact nofun)
  | write u lock owner implicit task idle =>
    by_cases ht : t = u
    · subst ht
      exact inv_step_of_write hinv.left_good lock owner implicit task idle hclean h
    · exact inv_step_of_idle hinv h (idle t ht) (by rw [owner]; exact nofun)
        (by rw [implicit]; simpa using Ne.symm ht)

theorem inv_initial (committed : List W) : Inv (initial committed) :=
  ⟨.free rfl rfl rfl ⟨rfl, rfl⟩ fun _ => ⟨rfl, rfl⟩, nofun⟩

/-! ### The lock can become free -/

theorem step_leave (hp : (s.tasks t).pc = .running) {outermost : Bool}
    (hf : (s.tasks t).frames = outermost :: frames) (outcome : Outcome)
    (ok : Bool) : step s (t, .leave outcome ok) = some (s.leave t outermost frames outcome ok) := by
  simp only [step, hp, hf]

theorem canFree_of_running {n : ℕ} (hp : (s.tasks t).pc = .running)
    (hf : (s.tasks t).frames = List.replicate n false ++ [true]) :
    CanReach step (fun s' => s'.lock = false) s := by
  induction n generalizing s with
  | zero =>
    have hresume : step (s.leave t true [] .returned true) (t, .resume true) =
        some ((s.leave t true [] .returned true).release t true) := by
      simp [step, Database.leave]
    exact canReach_step (step_leave hp hf .returned true)
      (canReach_step hresume (canReach_self rfl))
  | succ n ih =>
    have hleave : ((s.leave t false (List.replicate n false ++ [true]) .returned true).tasks t) =
        { s.tasks t with frames := List.replicate n false ++ [true] } := Function.update_self ..
    refine canReach_step (step_leave hp hf .returned true) (ih ?_ ?_)
    · exact (congrArg TaskState.pc hleave).trans hp
    · exact congrArg TaskState.frames hleave

theorem canFree_of_writer (hp : (s.tasks t).pc = .running)
    (owner : s.transactionOwner = none) (implicit : s.implicitWriteOwner = some t) :
    CanReach step (fun s' => s'.lock = false) s := by
  have hown : ¬ (s.transactionOwner = some t ∧ 0 < s.transactionDepth) := by simp [owner]
  have hend : step s (t, .endWrite true true) = some (s.endWrite t true true) := by
    simp only [step, hp]
  have hresume : step (s.endWrite t true true) (t, .resume true) =
      some ((s.endWrite t true true).clearImplicit.goto t .running) := by
    simp [step, Database.endWrite, hown, implicit, Database.goto]
  refine canReach_step hend (canReach_step hresume (canReach_self ?_))
  simp [Database.endWrite, hown, implicit, Database.goto, Database.clearImplicit]

/-- **Whoever has the lock can give it back.** -/
theorem canFree (h : Phase s) : CanReach step (fun s' => s'.lock = false) s := by
  cases h with
  | free lock _ _ _ _ => exact canReach_self lock
  | block t lock owner implicit task idle =>
    cases hp : (s.tasks t).pc with
    | awaitBegin ok =>
      simp only [InBlock, hp] at task
      have hstep : step s (t, .resume true) = some (s.afterBegin t ok) := by simp only [step, hp]
      refine canReach_step hstep ?_
      cases ok with
      | true =>
        refine canFree_of_running (t := t) (n := 0) ?_ ?_
        · simp [Database.afterBegin]
        · simp [Database.afterBegin, task.1]
      | false => exact canReach_self rfl
    | running =>
      simp only [InBlock, hp] at task
      obtain ⟨⟨n, hn, -⟩, -⟩ := task
      exact canFree_of_running hp hn
    | awaitExecute impl done =>
      cases impl with
      | true => simp only [InBlock, hp] at task
      | false =>
        simp only [InBlock, hp] at task
        obtain ⟨⟨n, hn, -⟩, -⟩ := task
        have hstep : step s (t, .resume true) = some (s.goto t .running) := by
          simp [step, hp, Database.afterExecute]
        refine canReach_step hstep (canFree_of_running (t := t) (n := n) ?_ ?_)
        · simp [Database.goto]
        · simpa [Database.goto] using hn
    | awaitEnd returned =>
      have hstep : step s (t, .resume true) = some (s.release t returned) := by simp only [step, hp]
      exact canReach_step hstep (canReach_self rfl)
    | _ => simp only [InBlock, hp] at task
  | write t lock owner implicit task idle =>
    have hclear : (s.clearImplicit.goto t .running).lock = false := by
      simp [Database.clearImplicit, implicit, Database.goto]
    obtain ⟨-, task⟩ := task
    cases hp : (s.tasks t).pc with
    | running => exact canFree_of_writer hp owner implicit
    | awaitExecute impl done =>
      rw [hp] at task
      cases impl with
      | false => exact task.elim
      | true =>
        -- a cancelled task may still commit
        have hstep : step s (t, .cancel) = some (s.goto t .running) := by simp only [step, hp]
        refine canReach_step hstep (canFree_of_writer (t := t) ?_ owner implicit)
        simp [Database.goto]
    | awaitUndo =>
      have hstep : step s (t, .resume true) = some (s.clearImplicit.goto t .running) := by
        simp only [step, hp]
      exact canReach_step hstep (canReach_self hclear)
    | awaitImplicitEnd =>
      have hstep : step s (t, .resume true) = some (s.clearImplicit.goto t .running) := by
        simp only [step, hp]
      exact canReach_step hstep (canReach_self hclear)
    | _ => rw [hp] at task; exact task.elim

theorem sound_of_inv (h : Inv s) : Sound s := by
  refine ⟨h.left_good, fun hl => ?_, fun hl => ?_, canFree h.phase⟩
  · cases h.phase with
    | free _ owner implicit conn _ => exact ⟨owner, implicit, conn.1⟩
    | block t lock _ _ _ _ => rw [hl] at lock; cases lock
    | write t lock _ _ _ _ => rw [hl] at lock; cases lock
  · cases h.phase with
    | free lock _ _ _ _ => rw [hl] at lock; cases lock
    | block t _ owner _ task _ =>
      refine ⟨t, Or.inl owner, fun hp => ?_⟩
      simp only [InBlock, hp] at task
    | write t _ _ implicit task _ =>
      refine ⟨t, Or.inr implicit, fun hp => ?_⟩
      have htask := task.2
      rw [hp] at htask
      exact htask

/-- **In every run of clean moves, every state reached is sound.** -/
theorem sound_of_clean_run {committed : List W} {moves : List (Task × Action W)} {s : Database W}
    (hclean : Allowed step Clean (initial committed) moves)
    (hrun : runFrom step (initial committed) moves = some s) : Sound s :=
  sound_of_inv (invariant_of_allowed (fun _ _ _ hinv hc h => inv_step hinv hc h)
    (inv_initial committed) hclean hrun)

/-- A block with one write that returns. -/
def oneBlock : List (Task × Action ℕ) :=
  [(0, .enter), (0, .acquire true), (0, .resume true), (0, .execute ⟨.dml, [7], true⟩),
    (0, .resume true), (0, .leave .returned true), (0, .resume true), (0, .exit)]

theorem sound_of_clean_run_oneBlock :
    ∃ s, runFrom step (initial [1]) oneBlock = some s ∧ Sound s := by
  have hclean : Allowed step Clean (initial [1]) oneBlock := by
    simp [oneBlock, Allowed, Clean, step, initial, Database.enter, Database.goto, Database.setTask,
      Database.begin, whenFree, Database.afterBegin, Database.execute, Database.queue,
      Database.afterExecute, Database.leave, Database.release]
  exact ⟨_, rfl, sound_of_clean_run hclean rfl⟩

/-- The block of a task is left by a `CancelledError`, and the task ends. -/
def cancelledBlock : List (Task × Action ℕ) :=
  [(0, .enter), (0, .acquire true), (0, .resume true), (0, .execute ⟨.dml, [7], true⟩),
    (0, .resume true), (0, .leave .cancelled true), (0, .exit)]

/-- The lock stays with the task that has ended. -/
theorem not_sound_after_cancel :
    ¬ ∀ (committed : List ℕ) (moves : List (Task × Action ℕ)) (s : Database ℕ),
      runFrom step (initial committed) moves = some s → Sound s := by
  intro h
  have hsound := h [1] cancelledBlock _ rfl
  obtain ⟨t, ht, hlive⟩ := hsound.held_by_live rfl
  obtain ht | ht := ht
  · cases ht
    exact hlive rfl
  · cases ht

end VpnBot.Db
