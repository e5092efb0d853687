import VpnBot.Announcements.Delivery

/-!
# Invariants of a batch and its lock

A property of all batches in all runs is shown batch by batch: `BatchInvariant` says what holds of a
batch while its lock is free and while a delivery run stands at a call, and `Kept` that this survives
the calls of the run, the statements of the other operations, and a restart.  `System.Keeps.step`
lifts it to the interleaved system: whoever is in the run of a batch holds its lock, so nobody else
changes the batch but `cancel_batch`.  `StepCondition` carries a condition on the steps, where a
property has one.
-/

namespace VpnBot.Announcements

open Sys

/-! ### What is shown of one batch -/

/-- What holds of a batch while no run is in progress, and while a run stands at a call. -/
structure BatchInvariant where
  quiet : BatchState → Prop
  running : SendPc → BatchState → Prop

/-- The call has its effect. -/
def Reply.applies : Reply → Bool
  | .returns => true
  | .ineligible | .retryAfter => false
  | .raises applied | .cancels applied => applied

/-- A condition on the end of a call of a run, on the write of `cancel_batch`, and on the place of a
run when the process dies. -/
structure StepCondition where
  turn : SendPc → BatchState → Reply → Prop
  cancel : BatchState → Prop
  stop : SendPc → Prop

def StepCondition.Meets (c : StepCondition) (s : System) : Action → Prop
  | .move t _ reply =>
    match (s.tasks t).place with
    | .sending id _ pc => c.turn pc (s.batches id) reply
    | .cancelWrite id => reply.applies = true → c.cancel (s.batches id)
    | _ => True
  | .restart => ∀ t id retryFailed pc, (s.tasks t).place = .sending id retryFailed pc → c.stop pc
  | _ => True

namespace BatchInvariant

/-- What holds when a run goes to a call, or has ended. -/
def reached (I : BatchInvariant) : Option SendPc → BatchState → Prop
  | none => I.quiet
  | some pc => I.running pc

/-- Everything that happens to a batch keeps the invariant. -/
structure Kept (I : BatchInvariant) (c : StepCondition) (batchSize : ℕ) : Prop where
  created : ∀ b recipientIds scheduledAt, b.batch = none → I.quiet b →
    I.quiet (b.createBatch recipientIds scheduledAt)
  entered : ∀ b, I.quiet b → I.running .setSending b
  turned : ∀ id retryFailed now b pc reply pc' b', I.running pc b → c.turn pc b reply →
    pc.turn batchSize id retryFailed now b reply = some (pc', b') → I.reached pc' b'
  cancelledQuiet : ∀ b now, c.cancel b → I.quiet b → I.quiet (b.markCancelled now)
  cancelledRunning : ∀ b now pc, c.cancel b → I.running pc b → I.running pc (b.markCancelled now)
  stopped : ∀ b pc, c.stop pc → I.running pc b → I.quiet b

end BatchInvariant

/-! ### The interleaved system -/

/-- The place is in no delivery run. -/
def Place.Outside (place : Place) : Prop :=
  ∀ id retryFailed pc, place ≠ .sending id retryFailed pc

theorem Place.outside_idle : Place.idle.Outside := by rintro _ _ _ ⟨⟩

def TaskState.batches (state : TaskState) : List ℕ :=
  match state.place with
  | .wantLock id _ | .sending id _ _ => id :: state.due
  | _ => state.due

namespace System

variable {s s' : System} {t t' : Task} {id : ℕ} {retryFailed : Bool} {pc : SendPc} {b : BatchState}
  {state : TaskState} {I : BatchInvariant} {c : StepCondition} {batchSize now : ℕ} {reply : Reply}

@[simp] theorem tasks_setTask_self (s : System) (t : Task) (state : TaskState) :
    (s.setTask t state).tasks t = state :=
  Function.update_self ..

theorem tasks_setTask_of_ne (h : t' ≠ t) : (s.setTask t state).tasks t' = s.tasks t' :=
  Function.update_of_ne h ..

/-- **The invariant of the system**: the batches meet theirs, and whoever is in the run of a batch
holds its lock. -/
structure Keeps (s : System) (I : BatchInvariant) : Prop where
  ids : ∀ id, s.nextId ≤ id → (s.batches id).batch = none
  known : ∀ t, ∀ id ∈ (s.tasks t).batches, id < s.nextId
  holds : ∀ t id retryFailed pc, (s.tasks t).place = .sending id retryFailed pc →
    s.lock id = some t
  held : ∀ id t, s.lock id = some t → ∃ retryFailed pc, (s.tasks t).place = .sending id retryFailed pc
  quiet : ∀ id, s.lock id = none → I.quiet (s.batches id)
  running : ∀ t id retryFailed pc, (s.tasks t).place = .sending id retryFailed pc →
    I.running pc (s.batches id)

theorem Keeps.of_fresh (hfresh : s.Fresh) (hquiet : ∀ id, I.quiet (s.batches id)) : s.Keeps I where
  ids := hfresh.ids
  known t id hid := by
    rw [hfresh.tasks t] at hid
    cases hid
  holds t id retryFailed pc hplace := by
    rw [hfresh.tasks t] at hplace
    cases hplace
  held id t hlock := by
    rw [hfresh.lock id] at hlock
    cases hlock
  quiet id _ := hquiet id
  running t id retryFailed pc hplace := by
    rw [hfresh.tasks t] at hplace
    cases hplace

theorem Keeps.lt_nextId (h : s.Keeps I) {batch : AnnouncementBatch}
    (hbatch : (s.batches id).batch = some batch) : id < s.nextId := by
  by_contra hid
  rw [h.ids id (not_lt.1 hid)] at hbatch
  cases hbatch

theorem Keeps.setTask (h : s.Keeps I) (hbefore : (s.tasks t).place.Outside)
    (hafter : state.place.Outside) (hknown : ∀ id ∈ state.batches, id < s.nextId) :
    (s.setTask t state).Keeps I := by
  have hplace : ∀ t' id retryFailed pc,
      ((s.setTask t state).tasks t').place = .sending id retryFailed pc ↔
        (s.tasks t').place = .sending id retryFailed pc := by
    intro t' id retryFailed pc
    by_cases ht : t' = t
    · subst ht
      rw [tasks_setTask_self]
      exact ⟨fun heq => absurd heq (hafter _ _ _), fun heq => absurd heq (hbefore _ _ _)⟩
    · rw [tasks_setTask_of_ne ht]
  refine ⟨h.ids, fun t' id hid => ?_, fun t' id rf pc hp => h.holds t' id rf pc ((hplace ..).1 hp),
    fun id t' hlock => ?_, h.quiet, fun t' id rf pc hp => h.running t' id rf pc ((hplace ..).1 hp)⟩
  · by_cases ht : t' = t
    · subst ht
      rw [tasks_setTask_self] at hid
      exact hknown id hid
    · rw [tasks_setTask_of_ne ht] at hid
      exact h.known t' id hid
  · obtain ⟨rf, pc, hp⟩ := h.held id t' hlock
    exact ⟨rf, pc, (hplace ..).2 hp⟩

theorem Keeps.setTask_idle (h : s.Keeps I) (hbefore : (s.tasks t).place.Outside) :
    (s.setTask t TaskState.idle).Keeps I :=
  h.setTask hbefore Place.outside_idle nofun

theorem Keeps.setBatch (h : s.Keeps I) (hbatch : (s.batches id).batch = none → b.batch = none)
    (hquiet : I.quiet (s.batches id) → I.quiet b)
    (hrunning : ∀ pc, I.running pc (s.batches id) → I.running pc b) : (s.setBatch id b).Keeps I where
  ids id' hid := by
    change (Function.update s.batches id b id').batch = none
    by_cases heq : id' = id
    · subst heq
      rw [Function.update_self]
      exact hbatch (h.ids id' hid)
    · rw [Function.update_of_ne heq]
      exact h.ids id' hid
  known := h.known
  holds := h.holds
  held := h.held
  quiet id' hlock := by
    change I.quiet (Function.update s.batches id b id')
    by_cases heq : id' = id
    · subst heq
      rw [Function.update_self]
      exact hquiet (h.quiet id' hlock)
    · rw [Function.update_of_ne heq]
      exact h.quiet id' hlock
  running t id' retryFailed pc hplace := by
    change I.running pc (Function.update s.batches id b id')
    by_cases heq : id' = id
    · subst heq
      rw [Function.update_self]
      exact hrunning pc (h.running t id' retryFailed pc hplace)
    · rw [Function.update_of_ne heq]
      exact h.running t id' retryFailed pc hplace

theorem Keeps.cancelBatch (h : s.Keeps I) (hI : I.Kept c batchSize) (hc : c.cancel (s.batches id)) :
    (s.cancelBatch id now).Keeps I := by
  refine h.setBatch (fun hnone => ?_) (hI.cancelledQuiet _ now hc)
    fun pc => hI.cancelledRunning _ now pc hc
  rw [BatchState.markCancelled, BatchState.updateBatch, hnone]
  rfl

theorem Keeps.createBatch (h : s.Keeps I) (hI : I.Kept c batchSize) (recipientIds : List ℤ)
    (scheduledAt : Option ℕ) :
    Keeps { s with
      batches := Function.update s.batches s.nextId
        ((s.batches s.nextId).createBatch recipientIds scheduledAt)
      nextId := s.nextId + 1 } I := by
  -- nobody is in the run of a batch that is not there yet
  have hnew : ∀ t id retryFailed pc, (s.tasks t).place = .sending id retryFailed pc →
      id ≠ s.nextId := by
    intro t id retryFailed pc hplace
    refine (h.known t id ?_).ne
    rw [TaskState.batches, hplace]
    exact List.mem_cons_self
  have hfree : s.lock s.nextId = none := by
    cases hlock : s.lock s.nextId with
    | none => rfl
    | some t =>
      obtain ⟨retryFailed, pc, hplace⟩ := h.held _ t hlock
      exact absurd rfl (hnew t _ retryFailed pc hplace)
  refine ⟨fun id hid => ?_, fun t id hid => (h.known t id hid).trans (Nat.lt_succ_self _), h.holds,
    h.held, fun id hlock => ?_, fun t id retryFailed pc hplace => ?_⟩
  · change (Function.update s.batches s.nextId _ id).batch = none
    rw [Function.update_of_ne (Nat.lt_of_succ_le hid).ne']
    exact h.ids id (Nat.le_of_succ_le hid)
  · change I.quiet (Function.update s.batches s.nextId _ id)
    by_cases heq : id = s.nextId
    · subst heq
      rw [Function.update_self]
      exact hI.created _ _ _ (h.ids _ le_rfl) (h.quiet _ hfree)
    · rw [Function.update_of_ne heq]
      exact h.quiet id hlock
  · change I.running pc (Function.update s.batches s.nextId _ id)
    rw [Function.update_of_ne (hnew t id retryFailed pc hplace)]
    exact h.running t id retryFailed pc hplace

theorem Keeps.acquire (h : s.Keeps I) (hI : I.Kept c batchSize)
    (hplace : (s.tasks t).place = .wantLock id retryFailed) (hfree : s.lock id = none) :
    ((s.setLock id (some t)).setTask t ⟨.sending id retryFailed .setSending, (s.tasks t).due⟩).Keeps
      I := by
  have hlock : ∀ id', id' ≠ id → Function.update s.lock id (some t) id' = s.lock id' :=
    fun id' hid => Function.update_of_ne hid _ _
  have hother : ∀ t' id' rf pc, t' ≠ t → (s.tasks t').place = .sending id' rf pc → id' ≠ id := by
    rintro t' id' rf pc - hp rfl
    rw [h.holds t' id' rf pc hp] at hfree
    cases hfree
  refine ⟨h.ids, fun t' id' hid => ?_, fun t' id' rf pc hp => ?_, fun id' t' hl => ?_,
    fun id' hl => ?_, fun t' id' rf pc hp => ?_⟩
  · by_cases ht : t' = t
    · subst ht
      rw [tasks_setTask_self] at hid
      refine h.known t' id' ?_
      rw [TaskState.batches, hplace]
      exact hid
    · rw [tasks_setTask_of_ne ht] at hid
      exact h.known t' id' hid
  · change Function.update s.lock id (some t) id' = some t'
    by_cases ht : t' = t
    · subst ht
      rw [tasks_setTask_self] at hp
      cases hp
      exact Function.update_self ..
    · rw [tasks_setTask_of_ne ht] at hp
      rw [hlock id' (hother t' id' rf pc ht hp)]
      exact h.holds t' id' rf pc hp
  · change Function.update s.lock id (some t) id' = some t' at hl
    by_cases hid : id' = id
    · subst hid
      rw [Function.update_self] at hl
      cases hl
      exact ⟨retryFailed, .setSending, by rw [tasks_setTask_self]⟩
    · rw [hlock id' hid] at hl
      obtain ⟨rf, pc, hp⟩ := h.held id' t' hl
      have ht : t' ≠ t := by
        rintro rfl
        rw [hplace] at hp
        cases hp
      exact ⟨rf, pc, by rw [tasks_setTask_of_ne ht]; exact hp⟩
  · change Function.update s.lock id (some t) id' = none at hl
    by_cases hid : id' = id
    · subst hid
      rw [Function.update_self] at hl
      cases hl
    · rw [hlock id' hid] at hl
      exact h.quiet id' hl
  · by_cases ht : t' = t
    · subst ht
      rw [tasks_setTask_self] at hp
      cases hp
      exact hI.entered _ (h.quiet id hfree)
    · rw [tasks_setTask_of_ne ht] at hp
      exact h.running t' id' rf pc hp

theorem outside_afterTurn_none (due : List ℕ) :
    (afterTurn id retryFailed due reply none).place.Outside := by
  cases reply <;> cases due <;> rintro _ _ _ ⟨⟩

theorem batches_afterTurn {due : List ℕ} {pc' : Option SendPc} {id' : ℕ}
    (h : id' ∈ (afterTurn id retryFailed due reply pc').batches) : id' = id ∨ id' ∈ due := by
  cases pc' with
  | some pc' => exact List.mem_cons.1 h
  | none =>
    cases due with
    | nil => cases reply <;> cases h
    | cons first due =>
      cases reply with
      | cancels => cases h
      | _ => exact Or.inr h

theorem Keeps.turn (h : s.Keeps I) (hplace : (s.tasks t).place = .sending id retryFailed pc)
    {pc' : Option SendPc} (hbatch : (s.batches id).batch = none → b.batch = none)
    (hb : I.reached pc' b) :
    (((s.setBatch id b).setLock id (if pc'.isSome then s.lock id else none)).setTask t
      (afterTurn id retryFailed (s.tasks t).due reply pc')).Keeps I := by
  have hlock := h.holds t id retryFailed pc hplace
  -- another task is in the run of another batch
  have hother : ∀ t' id' rf' pc', t' ≠ t → (s.tasks t').place = .sending id' rf' pc' → id' ≠ id := by
    rintro t' id' rf' pc' hne hplace' rfl
    exact hne (Option.some.inj ((h.holds t' id' rf' pc' hplace').symm.trans hlock))
  have hself : ∀ {id' rf' pc''},
      (afterTurn id retryFailed (s.tasks t).due reply pc').place = .sending id' rf' pc'' →
        id' = id ∧ pc' = some pc'' := by
    intro id' rf' pc'' hp
    cases pc' with
    | some pc' =>
      cases hp
      exact ⟨rfl, rfl⟩
    | none => exact absurd hp (outside_afterTurn_none _ _ _ _)
  refine ⟨fun id' hid => ?_, fun t' id' hid => ?_, fun t' id' rf' pc'' hp => ?_, fun id' t' hl => ?_,
    fun id' hl => ?_, fun t' id' rf' pc'' hp => ?_⟩
  · change (Function.update s.batches id b id').batch = none
    by_cases heq : id' = id
    · subst heq
      rw [Function.update_self]
      exact hbatch (h.ids id' hid)
    · rw [Function.update_of_ne heq]
      exact h.ids id' hid
  · by_cases ht : t' = t
    · subst ht
      rw [tasks_setTask_self] at hid
      refine h.known t' id' ?_
      rw [TaskState.batches, hplace]
      exact List.mem_cons.2 (batches_afterTurn hid)
    · rw [tasks_setTask_of_ne ht] at hid
      exact h.known t' id' hid
  · change Function.update s.lock id _ id' = some t'
    by_cases ht : t' = t
    · subst ht
      rw [tasks_setTask_self] at hp
      obtain ⟨rfl, rfl⟩ := hself hp
      rw [Function.update_self]
      exact hlock
    · rw [tasks_setTask_of_ne ht] at hp
      rw [Function.update_of_ne (hother t' id' rf' pc'' ht hp)]
      exact h.holds t' id' rf' pc'' hp
  · change Function.update s.lock id _ id' = some t' at hl
    by_cases heq : id' = id
    · subst heq
      rw [Function.update_self] at hl
      cases pc' with
      | none => cases hl
      | some pc' =>
        cases Option.some.inj (hlock.symm.trans hl)
        exact ⟨retryFailed, pc', by rw [tasks_setTask_self]; rfl⟩
    · rw [Function.update_of_ne heq] at hl
      obtain ⟨rf', pc'', hp⟩ := h.held id' t' hl
      have ht : t' ≠ t := by
        rintro rfl
        rw [hplace] at hp
        cases hp
        exact heq rfl
      exact ⟨rf', pc'', by rw [tasks_setTask_of_ne ht]; exact hp⟩
  · change Function.update s.lock id _ id' = none at hl
    change I.quiet (Function.update s.batches id b id')
    by_cases heq : id' = id
    · subst heq
      rw [Function.update_self] at hl ⊢
      cases pc' with
      | none => exact hb
      | some pc' => cases hlock.symm.trans hl
    · rw [Function.update_of_ne heq] at hl ⊢
      exact h.quiet id' hl
  · change I.running pc'' (Function.update s.batches id b id')
    by_cases ht : t' = t
    · subst ht
      rw [tasks_setTask_self] at hp
      obtain ⟨rfl, rfl⟩ := hself hp
      rw [Function.update_self]
      exact hb
    · rw [tasks_setTask_of_ne ht] at hp
      rw [Function.update_of_ne (hother t' id' rf' pc'' ht hp)]
      exact h.running t' id' rf' pc'' hp

end System

theorem SendPc.effect_batch_eq_none {b : BatchState} {pc : SendPc} {now : ℕ} (h : b.batch = none) :
    (pc.effect now b).batch = none := by
  have hupdate : ∀ f, (b.updateBatch f).batch = none := by
    intro f
    rw [BatchState.updateBatch, h]
    rfl
  cases pc with
  | setSending | setFailed | refreshing | finalRefresh | finishing => exact hupdate _
  | _ => exact h

theorem SendPc.turn_batch_eq_none {batchSize id now : ℕ} {retryFailed : Bool} {b b' : BatchState}
    {pc : SendPc} {reply : Reply} {pc' : Option SendPc} (h : b.batch = none)
    (hturn : pc.turn batchSize id retryFailed now b reply = some (pc', b')) : b'.batch = none := by
  have hif : ∀ applied, (if applied = true then pc.effect now b else b).batch = none := by
    intro applied
    split_ifs
    · exact effect_batch_eq_none h
    · exact h
  cases reply with
  | returns =>
    cases hturn
    exact effect_batch_eq_none h
  | ineligible =>
    cases pc <;> cases hturn
    exact h
  | retryAfter =>
    cases pc with
    | copying =>
      rw [turn] at hturn
      split_ifs at hturn <;> cases hturn <;> exact h
    | _ => cases hturn
  | raises applied =>
    cases pc with
    | copying =>
      cases hturn
      exact h
    | _ =>
      cases hturn
      exact hif applied
  | cancels applied =>
    cases hturn
    exact hif applied

namespace System

variable {s s' : System} {I : BatchInvariant} {c : StepCondition} {batchSize : ℕ}

theorem Keeps.move {t : Task} {now : ℕ} {reply : Reply} (h : s.Keeps I) (hI : I.Kept c batchSize)
    (hc : c.Meets s (.move t now reply)) (hmove : s.move batchSize t now reply = some s') :
    s'.Keeps I := by
  have houtside : ∀ {place : Place}, (s.tasks t).place = place → place.Outside →
      (s.tasks t).place.Outside := fun heq hp => heq ▸ hp
  rw [System.move.eq_def] at hmove
  rw [StepCondition.Meets] at hc
  cases hplace : (s.tasks t).place with
  | idle =>
    rw [hplace] at hmove
    cases hmove
  | resumeRead id retryFailed =>
    have hbefore := houtside hplace (by rintro _ _ _ ⟨⟩)
    rw [hplace] at hmove
    cases reply with
    | returns =>
      dsimp only at hmove
      split at hmove <;> cases hmove
      · next batch hcheck =>
        refine h.setTask hbefore (by rintro _ _ _ ⟨⟩) fun id' hid => ?_
        cases List.mem_singleton.1 hid
        cases hbatch : (s.batches id).batch with
        | none =>
          rw [hbatch] at hcheck
          cases hcheck
        | some batch => exact h.lt_nextId hbatch
      · exact h.setTask_idle hbefore
    | raises | cancels =>
      cases hmove
      exact h.setTask_idle hbefore
    | ineligible | retryAfter => cases hmove
  | cancelRead id =>
    have hbefore := houtside hplace (by rintro _ _ _ ⟨⟩)
    rw [hplace] at hmove
    cases reply with
    | returns =>
      dsimp only at hmove
      split at hmove <;> cases hmove
      · exact h.setTask hbefore (by rintro _ _ _ ⟨⟩) nofun
      · exact h.setTask_idle hbefore
    | raises | cancels =>
      cases hmove
      exact h.setTask_idle hbefore
    | ineligible | retryAfter => cases hmove
  | cancelWrite id =>
    have hbefore := houtside hplace (by rintro _ _ _ ⟨⟩)
    rw [hplace] at hmove hc
    cases reply with
    | returns =>
      cases hmove
      exact (h.cancelBatch hI (hc rfl)).setTask hbefore (by rintro _ _ _ ⟨⟩) nofun
    | raises applied | cancels applied =>
      cases hmove
      cases applied with
      | true => exact (h.cancelBatch hI (hc rfl)).setTask_idle hbefore
      | false => exact h.setTask_idle hbefore
    | ineligible | retryAfter => cases hmove
  | cancelReread id =>
    have hbefore := houtside hplace (by rintro _ _ _ ⟨⟩)
    rw [hplace] at hmove
    cases reply <;> cases hmove <;> exact h.setTask_idle hbefore
  | wantLock id retryFailed =>
    have hbefore := houtside hplace (by rintro _ _ _ ⟨⟩)
    rw [hplace] at hmove
    cases reply with
    | returns =>
      dsimp only at hmove
      split at hmove <;> cases hmove
      next hfree => exact h.acquire hI hplace hfree
    | cancels =>
      cases hmove
      exact h.setTask_idle hbefore
    | ineligible | retryAfter | raises => cases hmove
  | sending id retryFailed pc =>
    rw [hplace] at hmove hc
    obtain ⟨⟨pc', b⟩, hturn, rfl⟩ := Option.map_eq_some_iff.1 hmove
    exact h.turn hplace (fun hnone => SendPc.turn_batch_eq_none hnone hturn)
      (hI.turned _ _ _ _ _ _ _ _ (h.running t id retryFailed pc hplace) hc hturn)

/-- **Every step keeps the invariant.** -/
theorem Keeps.step {a : Action} (h : s.Keeps I) (hI : I.Kept c batchSize) (hc : c.Meets s a)
    (hstep : step batchSize s a = some s') : s'.Keeps I := by
  have hidle : ∀ t, (s.tasks t).place = .idle → (s.tasks t).place.Outside := fun t heq => heq ▸ Place.outside_idle
  cases a with
  | create t recipientIds scheduledAt =>
    rw [Announcements.step] at hstep
    split_ifs at hstep with hplace
    cases scheduledAt with
    | none =>
      cases hstep
      exact (h.createBatch hI recipientIds none).setTask (hidle t hplace) (by rintro _ _ _ ⟨⟩) nofun
    | some time =>
      cases hstep
      exact h.createBatch hI recipientIds (some time)
  | resume t id retryFailed =>
    rw [Announcements.step] at hstep
    split_ifs at hstep with hplace
    cases hstep
    exact h.setTask (hidle t hplace) (by rintro _ _ _ ⟨⟩) nofun
  | scan t now =>
    rw [Announcements.step] at hstep
    split_ifs at hstep with hplace
    cases hstep
    have hdue : ∀ due : List ℕ, (∀ id ∈ due, id < s.nextId) →
        (s.setTask t (TaskState.nextDue due)).Keeps I := by
      intro due hlt
      cases due with
      | nil => exact h.setTask_idle (hidle t hplace)
      | cons id due => exact h.setTask (hidle t hplace) (by rintro _ _ _ ⟨⟩) hlt
    exact hdue _ fun id hid => lt_of_mem_listDueScheduledBatches hid
  | cancel t id =>
    rw [Announcements.step] at hstep
    split_ifs at hstep with hplace
    cases hstep
    exact h.setTask (hidle t hplace) (by rintro _ _ _ ⟨⟩) nofun
  | move t now reply => exact h.move hI hc hstep
  | restart =>
    cases hstep
    refine ⟨h.ids, nofun, fun _ _ _ _ hp => absurd hp (Place.outside_idle _ _ _), nofun, fun id _ => ?_,
      fun _ _ _ _ hp => absurd hp (Place.outside_idle _ _ _)⟩
    cases hlock : s.lock id with
    | none => exact h.quiet id hlock
    | some t =>
      obtain ⟨retryFailed, pc, hplace⟩ := h.held id t hlock
      exact hI.stopped _ pc (hc t id retryFailed pc hplace) (h.running t id retryFailed pc hplace)

theorem Keeps.reached (h : s.Keeps I) (id : ℕ) : ∃ pc, I.reached pc (s.batches id) := by
  cases hlock : s.lock id with
  | none => exact ⟨none, h.quiet id hlock⟩
  | some t =>
    obtain ⟨retryFailed, pc, hplace⟩ := h.held id t hlock
    exact ⟨some pc, h.running t id retryFailed pc hplace⟩

end System

/-- **What is kept of each batch holds after every run.** -/
theorem BatchInvariant.Kept.run {I : BatchInvariant} {c : StepCondition} {batchSize : ℕ}
    {s s' : System} {actions : List Action} (hI : I.Kept c batchSize) (hs : s.Keeps I)
    (hc : Allowed (step batchSize) c.Meets s actions)
    (hrun : runFrom (step batchSize) s actions = some s') : s'.Keeps I := by
  have hstep : ∀ m a m', System.Keeps m I → c.Meets m a → step batchSize m a = some m' →
      m'.Keeps I := fun _ _ _ hm ha hm' => hm.step hI ha hm'
  have hkeeps := invariant_of_allowed hstep hs hc hrun
  exact hkeeps

end VpnBot.Announcements
