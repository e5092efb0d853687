import VpnBot.DisplayNumbers.Counter

/-!
# Display numbers are unique

The first row of the counter is never below a number that was handed out and not taken back
(`Counted`), and only the owner of the lock is within `reserve_key_number` (`Slots`).  So each number is
larger than all numbers before it, except those whose work was rolled back (`numbers_increase`);
`number_handed_twice` is a run in which the `INSERT` of a bundle raises, and its number comes again.
-/

namespace VpnBot.DisplayNumbers

open Sys

variable {base n : ℕ} {tables : CounterTables} {s s' : NumberSystem} {t u : Task} {p : Pc} {c : Call}
  {action : Action} {actions : List Action}

/-! ### The tables -/

namespace CounterTables

theorem counter_le_seed : tables.counter ≤ tables.seed.counter := by
  show tables.sequence.headD 0 ≤ (tables.sequence ++ [maxId tables.keys]).headD 0
  cases tables.sequence with
  | nil => exact Nat.zero_le _
  | cons n rest => exact le_rfl

theorem seed_ne_nil : tables.seed.sequence ≠ [] := by simp [seed]

theorem bump_counter (h : tables.sequence ≠ []) : tables.bump.counter = tables.counter + 1 := by
  show (tables.sequence.map (· + 1)).headD 0 = tables.sequence.headD 0 + 1
  cases hseq : tables.sequence with
  | nil => exact absurd hseq h
  | cons n rest => rfl

theorem bump_ne_nil (h : tables.sequence ≠ []) : tables.bump.sequence ≠ [] := by simpa [bump] using h

theorem counter_lt_insertKey : tables.counter < tables.insertKey.counter :=
  Nat.lt_succ_of_le (le_max_left _ _)

end CounterTables

/-! ### The invariant -/

/-- The numbers that were not taken back. -/
def NumberSystem.numbers (s : NumberSystem) : List ℕ := s.committed ++ s.pending

/-- The numbers increase, and the counter of the connection and the one of the file are past them. -/
structure Counted (base : ℕ) (s : NumberSystem) : Prop where
  increasing : (base :: s.numbers).Pairwise (· < ·)
  live : ∀ n ∈ base :: s.numbers, n ≤ s.live.counter
  saved : ∀ n ∈ base :: s.committed, n ≤ s.saved.counter

/-- An owner has the lock, there is one at most, and only an owner is within `reserve_key_number`. -/
structure Slots (s : NumberSystem) : Prop where
  locked : ∀ t, s.owns t = true → s.lock = true
  unique : ∀ t u, s.owns t = true → s.owns u = true → t = u
  one : s.transactionOwner = none ∨ s.implicitWriteOwner = none
  places : ∀ t, s.pc t ≠ .running → s.owns t = true

/-- What a place of `reserve_key_number` says about the counter. -/
def Reached (base : ℕ) (s : NumberSystem) : Pc → Prop
  | .running | .numbered _ => True
  | .seeded => s.live.sequence ≠ []
  | .bumped => s.live.sequence ≠ [] ∧ ∀ n ∈ base :: s.numbers, n < s.live.counter

/-- The invariant. -/
structure Inv (base : ℕ) (s : NumberSystem) : Prop where
  counted : Counted base s
  slots : Slots s
  reached : ∀ t, Reached base s (s.pc t)

/-- The two states differ in the places only. -/
structure SameTables (s s' : NumberSystem) : Prop where
  live : s'.live = s.live
  saved : s'.saved = s.saved
  committed : s'.committed = s.committed
  pending : s'.pending = s.pending

theorem Counted.congr (h : Counted base s) (hsame : SameTables s s') : Counted base s' := by
  obtain ⟨hlive, hsaved, hcommitted, hpending⟩ := hsame
  have hnumbers : s'.numbers = s.numbers := by rw [NumberSystem.numbers, hcommitted, hpending]; rfl
  exact ⟨hnumbers ▸ h.increasing, by rw [hnumbers, hlive]; exact h.live,
    by rw [hcommitted, hsaved]; exact h.saved⟩

theorem Reached.congr (h : Reached base s p) (hsame : SameTables s s') : Reached base s' p := by
  obtain ⟨hlive, -, hcommitted, hpending⟩ := hsame
  have hnumbers : s'.numbers = s.numbers := by rw [NumberSystem.numbers, hcommitted, hpending]; rfl
  cases p with
  | running => exact trivial
  | numbered n => exact trivial
  | seeded =>
    show s'.live.sequence ≠ []
    rw [hlive]
    exact h
  | bumped =>
    show s'.live.sequence ≠ [] ∧ ∀ n ∈ base :: s'.numbers, n < s'.live.counter
    rw [hlive, hnumbers]
    exact h

/-! ### The lock -/

theorem goto_pc (p : Pc) (u : Task) : (s.goto t p).pc u = if u = t then p else s.pc u :=
  Function.update_apply s.pc t p u

/-- The other tasks are not within `reserve_key_number` while one has the lock. -/
theorem Slots.running (h : Slots s) (howns : s.owns t = true) (hne : u ≠ t) : s.pc u = .running := by
  by_contra hpc
  exact hne (h.unique u t (h.places u hpc) howns)

theorem Slots.free (h : Slots s) (hlock : s.lock = false) (u : Task) : s.pc u = .running := by
  by_contra hpc
  rw [h.locked u (h.places u hpc)] at hlock
  cases hlock

/-- The owner goes to another place. -/
theorem Slots.goto (h : Slots s) (hp : p = .running ∨ s.owns t = true) : Slots (s.goto t p) := by
  refine ⟨h.locked, h.unique, h.one, fun u hu => ?_⟩
  rw [goto_pc] at hu
  split_ifs at hu with heq
  · rcases hp with rfl | howns
    · exact absurd rfl hu
    · exact heq ▸ howns
  · exact h.places u hu

theorem owns_iff : s.owns t = true ↔ s.transactionOwner = some t ∨ s.implicitWriteOwner = some t := by
  simp [NumberSystem.owns]

theorem Slots.take (h : Slots s) (hlock : s.lock = false)
    (howner : ∀ u, s'.owns u = true → u = t) (hlock' : s'.lock = true) (hpc : s'.pc = s.pc)
    (hone : s'.transactionOwner = none ∨ s'.implicitWriteOwner = none) : Slots s' := by
  refine ⟨fun _ _ => hlock', fun u v hu hv => (howner u hu).trans (howner v hv).symm, hone, fun u hu => ?_⟩
  rw [hpc] at hu
  exact absurd (h.free hlock u) hu

/-- Whoever had the lock gives it back. -/
theorem slots_released (htransaction : s.transactionOwner = none) (himplicit : s.implicitWriteOwner = none)
    (hpc : ∀ u, s.pc u = .running) : Slots s := by
  have howner : ∀ u, s.owns u ≠ true := by
    intro u hu
    rw [owns_iff, htransaction, himplicit] at hu
    rcases hu with hu | hu <;> cases hu
  exact ⟨fun u hu => absurd hu (howner u), fun u _ hu => absurd hu (howner u), Or.inl htransaction,
    fun u hu => absurd (hpc u) hu⟩

theorem Slots.no_owner (h : Slots s) (hlock : s.lock = false) :
    s.transactionOwner = none ∧ s.implicitWriteOwner = none := by
  have howner : ∀ u, s.owns u ≠ true := by
    intro u hu
    rw [h.locked u hu] at hlock
    cases hlock
  refine ⟨Option.eq_none_iff_forall_not_mem.2 fun u hu => ?_,
    Option.eq_none_iff_forall_not_mem.2 fun u hu => ?_⟩
  · exact howner u (owns_iff.2 (Or.inl hu))
  · exact howner u (owns_iff.2 (Or.inr hu))

theorem Inv.takeSlot (h : Inv base s) (htake : s.takeSlot t = some s') :
    Inv base s' ∧ s'.owns t = true ∧ s'.pc = s.pc ∧ s'.returned = s.returned ∧ SameTables s s' := by
  unfold NumberSystem.takeSlot at htake
  split_ifs at htake with howns hlock
  · cases htake
    exact ⟨h, howns, rfl, rfl, rfl, rfl, rfl, rfl⟩
  · cases htake
    have hlock' := Bool.eq_false_iff.2 hlock
    have hsame : SameTables s { s with lock := true, implicitWriteOwner := some t } := ⟨rfl, rfl, rfl, rfl⟩
    obtain ⟨htransaction, -⟩ := h.slots.no_owner hlock'
    refine ⟨⟨h.counted.congr hsame, h.slots.take hlock' (t := t) (fun u hu => ?_) rfl rfl (Or.inl htransaction),
      fun u => (h.reached u).congr hsame⟩, owns_iff.2 (Or.inr rfl), rfl, rfl, hsame⟩
    rcases owns_iff.1 hu with hu | hu
    · rw [show _ = none from htransaction] at hu
      cases hu
    · exact (Option.some.inj hu).symm

/-! ### The statements -/

/-- The two states have the lock, its owners and the places in common. -/
structure SameSlots (s s' : NumberSystem) : Prop where
  lock : s'.lock = s.lock
  transactionOwner : s'.transactionOwner = s.transactionOwner
  implicitWriteOwner : s'.implicitWriteOwner = s.implicitWriteOwner
  pc : s'.pc = s.pc

theorem Slots.congr (h : Slots s) (hsame : SameSlots s s') : Slots s' := by
  obtain ⟨hlock, htransaction, himplicit, hpc⟩ := hsame
  have howns : ∀ u, s'.owns u = s.owns u := by
    intro u
    unfold NumberSystem.owns
    rw [htransaction, himplicit]
  refine ⟨fun u hu => ?_, fun u v hu hv => ?_, ?_, fun u hu => ?_⟩
  · rw [hlock]
    exact h.locked u (howns u ▸ hu)
  · exact h.unique u v (howns u ▸ hu) (howns v ▸ hv)
  · rw [htransaction, himplicit]
    exact h.one
  · rw [howns]
    exact h.places u (hpc ▸ hu)

/-- **A statement of the owner.** -/
theorem Inv.change (h : Inv base s) (howns : s.owns t = true) (hsame : SameSlots s s')
    (hcounted : Counted base s') (hreached : Reached base s' p) : Inv base (s'.goto t p) := by
  have howns' : s'.owns t = true := by
    rw [owns_iff, hsame.transactionOwner, hsame.implicitWriteOwner, ← owns_iff]
    exact howns
  refine ⟨hcounted.congr ⟨rfl, rfl, rfl, rfl⟩, (h.slots.congr hsame).goto (Or.inr howns'), fun u => ?_⟩
  rw [goto_pc]
  split_ifs with heq
  · exact hreached.congr ⟨rfl, rfl, rfl, rfl⟩
  · rw [hsame.pc, h.slots.running howns heq]
    exact trivial

theorem Inv.goto_running (h : Inv base s) (t : Task) : Inv base (s.goto t .running) := by
  refine ⟨h.counted.congr ⟨rfl, rfl, rfl, rfl⟩, h.slots.goto (Or.inl rfl), fun u => ?_⟩
  rw [goto_pc]
  split_ifs
  · exact trivial
  · exact (h.reached u).congr ⟨rfl, rfl, rfl, rfl⟩

theorem Counted.write (h : Counted base s) {f : CounterTables → CounterTables}
    (hle : s.live.counter ≤ (f s.live).counter) : Counted base (s.write f) :=
  ⟨h.increasing, fun n hn => (h.live n hn).trans hle, h.saved⟩

theorem Counted.hand (h : Counted base s) (hpast : ∀ m ∈ base :: s.numbers, m < n)
    (hle : n ≤ s.live.counter) : Counted base (s.hand n) := by
  have hnumbers : base :: (s.hand n).numbers = base :: s.numbers ++ [n] := by
    show base :: (s.committed ++ (s.pending ++ [n])) = base :: (s.committed ++ s.pending) ++ [n]
    rw [← List.append_assoc, List.cons_append]
  refine ⟨?_, ?_, h.saved⟩
  · rw [hnumbers]
    refine List.pairwise_append.2 ⟨h.increasing, List.pairwise_singleton _ _, fun m hm k hk => ?_⟩
    exact List.mem_singleton.1 hk ▸ hpast m hm
  · rw [hnumbers]
    intro m hm
    rcases List.mem_append.1 hm with hm | hm
    · exact h.live m hm
    · exact List.mem_singleton.1 hm ▸ hle

theorem Counted.finish (h : Counted base s) (commit ok : Bool) : Counted base (s.finish commit ok) := by
  have hsub : (base :: s.committed).Sublist (base :: s.numbers) :=
    (List.sublist_append_left _ _).cons_cons base
  unfold NumberSystem.finish
  split_ifs
  · exact h
  · have hnumbers : base :: (s.committed ++ s.pending ++ []) = base :: s.numbers := by
      rw [List.append_nil]
      rfl
    exact ⟨hnumbers ▸ h.increasing, hnumbers ▸ h.live, h.live⟩
  · have hnumbers : base :: (s.committed ++ []) = base :: s.committed := by rw [List.append_nil]
    exact ⟨hnumbers ▸ h.increasing.sublist hsub, hnumbers ▸ h.saved, h.saved⟩

/-- The lock is free, and no task is within `reserve_key_number`. -/
theorem inv_released (hcounted : Counted base s) (htransaction : s.transactionOwner = none)
    (himplicit : s.implicitWriteOwner = none) (hpc : ∀ u, s.pc u = .running) : Inv base s := by
  refine ⟨hcounted, slots_released htransaction himplicit hpc, fun u => ?_⟩
  rw [hpc u]
  exact trivial

theorem finish_pc (commit ok : Bool) : (s.finish commit ok).pc = s.pc := by
  unfold NumberSystem.finish
  split_ifs <;> rfl

theorem finish_owners (commit ok : Bool) :
    (s.finish commit ok).transactionOwner = s.transactionOwner ∧
      (s.finish commit ok).implicitWriteOwner = s.implicitWriteOwner := by
  unfold NumberSystem.finish
  split_ifs <;> exact ⟨rfl, rfl⟩

theorem Inv.all_running (h : Inv base s) (howns : s.owns t = true) (hpc : s.pc t = .running) (u : Task) :
    s.pc u = .running := by
  by_cases heq : u = t
  · exact heq ▸ hpc
  · exact h.slots.running howns heq

theorem Inv.beginTransaction {ok : Bool} (h : Inv base s) (hbegin : s.beginTransaction t ok = some s') :
    Inv base s' ∧ s'.returned = s.returned ∧ SameTables s s' := by
  unfold NumberSystem.beginTransaction at hbegin
  split_ifs at hbegin with howns hlock hok
  · cases hbegin
    exact ⟨h, rfl, rfl, rfl, rfl, rfl⟩
  · cases hbegin
    have hlock' := Bool.eq_false_iff.2 hlock
    obtain ⟨-, himplicit⟩ := h.slots.no_owner hlock'
    have hsame : SameTables s { s with lock := true, transactionOwner := some t } := ⟨rfl, rfl, rfl, rfl⟩
    refine ⟨⟨h.counted.congr hsame, h.slots.take hlock' (t := t) (fun u hu => ?_) rfl rfl (Or.inr himplicit),
      fun u => (h.reached u).congr hsame⟩, rfl, hsame⟩
    rcases owns_iff.1 hu with hu | hu
    · exact (Option.some.inj hu).symm
    · rw [show _ = none from himplicit] at hu
      cases hu
  · cases hbegin
    exact ⟨h, rfl, rfl, rfl, rfl, rfl⟩

theorem Inv.leaveTransaction {commit ok : Bool} (h : Inv base s) (hpc : s.pc t = .running)
    (hleave : s.leaveTransaction t commit ok = some s') : Inv base s' := by
  unfold NumberSystem.leaveTransaction at hleave
  split_ifs at hleave with howner
  cases hleave
  have himplicit : s.implicitWriteOwner = none := by
    rcases h.slots.one with hnone | himplicit
    · rw [howner] at hnone
      cases hnone
    · exact himplicit
  refine inv_released ((h.counted.finish commit ok).congr ⟨rfl, rfl, rfl, rfl⟩) rfl ?_ fun u => ?_
  · exact (finish_owners commit ok).2.trans himplicit
  · show (s.finish commit ok).pc u = .running
    rw [finish_pc]
    exact h.all_running (owns_iff.2 (Or.inl howner)) hpc u

theorem Inv.clearImplicit {commit ok : Bool} (h : Inv base s) (howner : s.implicitWriteOwner = some t)
    (hpc : s.pc t = .running) : Inv base (s.finish commit ok).clearImplicit := by
  have htransaction : s.transactionOwner = none := by
    rcases h.slots.one with htransaction | hnone
    · exact htransaction
    · rw [howner] at hnone
      cases hnone
  refine inv_released ((h.counted.finish commit ok).congr ⟨rfl, rfl, rfl, rfl⟩) ?_ rfl fun u => ?_
  · exact (finish_owners commit ok).1.trans htransaction
  · show (s.finish commit ok).pc u = .running
    rw [finish_pc]
    exact h.all_running (owns_iff.2 (Or.inr howner)) hpc u

theorem Inv.endWrite {commit ok : Bool} (h : Inv base s) (hpc : s.pc t = .running)
    (hend : s.endWrite t commit ok = some s') : Inv base s' := by
  unfold NumberSystem.endWrite at hend
  split_ifs at hend with htransaction himplicit hlock
  · cases hend
    exact h
  · cases hend
    exact h.clearImplicit himplicit hpc
  · cases hend
    have hlock' := Bool.eq_false_iff.2 hlock
    obtain ⟨htransaction', himplicit'⟩ := h.slots.no_owner hlock'
    refine inv_released (h.counted.finish commit ok) ?_ ?_ fun u => ?_
    · exact (finish_owners commit ok).1.trans htransaction'
    · exact (finish_owners commit ok).2.trans himplicit'
    · rw [finish_pc]
      exact h.slots.free hlock' u

/-- A statement raises; then the task is at its own work again. -/
theorem Inv.failed {ok : Bool} (h : Inv base s) : Inv base ((s.failed t ok).goto t .running) := by
  have hback := h.goto_running t
  have hpc : (s.goto t .running).pc t = .running := by rw [goto_pc, if_pos rfl]
  unfold NumberSystem.failed
  split_ifs with howner
  · have hclear : Inv base ((s.goto t .running).finish false ok).clearImplicit :=
      hback.clearImplicit howner hpc
    have heq : ((s.goto t .running).finish false ok).clearImplicit =
        ((s.finish false ok).clearImplicit).goto t .running := by
      cases ok <;> rfl
    exact heq ▸ hclear
  · exact hback

/-- `reserve_key_number` returns the number that it has reserved. -/
theorem Inv.read (h : Inv base s) (hpc : s.pc t = .bumped) : Inv base (s.read t) := by
  have howns : s.owns t = true := h.slots.places t (by rw [hpc]; exact nofun)
  have hreached := h.reached t
  rw [hpc] at hreached
  obtain ⟨hne, hpast⟩ := hreached
  unfold NumberSystem.read
  cases hseq : s.live.sequence with
  | nil => exact absurd hseq hne
  | cons n rest =>
    have hcounter : s.live.counter = n := by rw [CounterTables.counter, hseq, List.headD_cons]
    rw [hcounter] at hpast
    exact h.change howns ⟨rfl, rfl, rfl, rfl⟩ (h.counted.hand hpast hcounter.ge) trivial

/-! ### Runs -/

theorem Inv.change_running (h : Inv base s) (howns : s.owns t = true) (hpc : s.pc t = .running)
    (hsame : SameSlots s s') (hcounted : Counted base s') : Inv base s' := by
  refine ⟨hcounted, h.slots.congr hsame, fun u => ?_⟩
  rw [hsame.pc, h.all_running howns hpc u]
  exact trivial

/-- **One statement of one task.** -/
theorem Inv.call (h : Inv base s) (hcall : s.call t c = some s') : Inv base s' := by
  unfold NumberSystem.call at hcall
  split at hcall
  case h_1 ok hpc => exact (h.beginTransaction hcall).1
  case h_2 commit ok hpc => exact h.leaveTransaction hpc hcall
  case h_3 hpc =>
    obtain ⟨s₁, htake, rfl⟩ := Option.map_eq_some_iff.1 hcall
    obtain ⟨h₁, howns, -⟩ := h.takeSlot htake
    exact h₁.change howns ⟨rfl, rfl, rfl, rfl⟩ (h₁.counted.write CounterTables.counter_le_seed)
      CounterTables.seed_ne_nil
  case h_4 hpc =>
    obtain ⟨s₁, htake, rfl⟩ := Option.map_eq_some_iff.1 hcall
    obtain ⟨h₁, howns, hsamePc, -⟩ := h.takeSlot htake
    have hne : s₁.live.sequence ≠ [] := by
      have hreached := h₁.reached t
      rw [hsamePc, hpc] at hreached
      exact hreached
    have hcounter := CounterTables.bump_counter hne
    refine h₁.change howns ⟨rfl, rfl, rfl, rfl⟩ (h₁.counted.write (hcounter ▸ Nat.le_succ _))
      ⟨CounterTables.bump_ne_nil hne, fun n hn => ?_⟩
    show n < s₁.live.bump.counter
    rw [hcounter]
    exact Nat.lt_succ_of_le (h₁.counted.live n hn)
  case h_5 hpc =>
    cases hcall
    exact h.read hpc
  case h_6 n hpc =>
    obtain ⟨s₁, htake, rfl⟩ := Option.map_eq_some_iff.1 hcall
    exact (h.takeSlot htake).1.goto_running t
  case h_7 hpc =>
    obtain ⟨s₁, htake, rfl⟩ := Option.map_eq_some_iff.1 hcall
    obtain ⟨h₁, howns, hsamePc, -⟩ := h.takeSlot htake
    have hlt : s₁.live.counter < s₁.live.nextId := CounterTables.counter_lt_insertKey
    have hwrite : Counted base (s₁.write .insertKey) := h₁.counted.write hlt.le
    refine h₁.change_running howns (hsamePc ▸ hpc) ⟨rfl, rfl, rfl, rfl⟩ (hwrite.hand (fun m hm => ?_) le_rfl)
    exact (h₁.counted.live m hm).trans_lt hlt
  case h_8 id hpc =>
    obtain ⟨s₁, htake, rfl⟩ := Option.map_eq_some_iff.1 hcall
    obtain ⟨h₁, howns, hsamePc, -⟩ := h.takeSlot htake
    exact h₁.change_running howns (hsamePc ▸ hpc) ⟨rfl, rfl, rfl, rfl⟩ (h₁.counted.write le_rfl)
  case h_9 hpc => exact (h.takeSlot hcall).1
  case h_10 commit ok hpc => exact h.endWrite hpc hcall
  case h_11 ok hpc =>
    cases hcall
    exact h.goto_running t
  case h_12 ok hpc =>
    obtain ⟨s₁, htake, rfl⟩ := Option.map_eq_some_iff.1 hcall
    exact (h.takeSlot htake).1.failed
  case h_13 hpc =>
    cases hcall
    exact h.goto_running t
  case h_14 => cases hcall

theorem Inv.step (h : Inv base s) (hstep : DisplayNumbers.step s action = some s') : Inv base s' := by
  cases action with
  | call t c => exact h.call hstep
  | restart =>
    cases hstep
    have hundo : Counted base (s.finish false true) := h.counted.finish false true
    exact inv_released (hundo.congr ⟨rfl, rfl, rfl, rfl⟩) rfl rfl fun _ => rfl

theorem inv_initial (tables : CounterTables) : Inv tables.counter (initial tables) := by
  refine inv_released ⟨List.pairwise_singleton _ _, fun n hn => ?_, fun n hn => ?_⟩ rfl rfl fun _ => rfl
  · exact (List.mem_singleton.1 hn).le
  · exact (List.mem_singleton.1 hn).le

/-- Nothing that was handed out has been taken back. -/
def Kept (s : NumberSystem) : Prop := s.returned = s.numbers

theorem Kept.hand (h : Kept s) : Kept (s.hand n) := by
  show s.returned ++ [n] = s.committed ++ (s.pending ++ [n])
  rw [h, NumberSystem.numbers, List.append_assoc]

theorem Kept.congr (h : Kept s) (hreturned : s'.returned = s.returned)
    (hcommitted : s'.committed = s.committed) (hpending : s'.pending = s.pending) : Kept s' := by
  unfold Kept NumberSystem.numbers
  rw [hreturned, hcommitted, hpending]
  exact h

theorem Kept.commit (h : Kept s) (ok : Bool) : Kept (s.finish true ok) := by
  cases ok with
  | false => exact h
  | true => exact h.trans (List.append_nil _).symm

theorem Kept.endWrite {ok : Bool} (h : Kept s) (hend : s.endWrite t true ok = some s') : Kept s' := by
  unfold NumberSystem.endWrite at hend
  split_ifs at hend
  · cases hend
    exact h
  · cases hend
    exact h.commit ok
  · cases hend
    exact h.commit ok

theorem Kept.leaveTransaction {ok : Bool} (h : Kept s) (hleave : s.leaveTransaction t true ok = some s') :
    Kept s' := by
  unfold NumberSystem.leaveTransaction at hleave
  split_ifs at hleave
  cases hleave
  exact h.commit ok

theorem Kept.call (hinv : Inv base s) (h : Kept s) (hroll : (Action.call t c).rollsBack = false)
    (hcall : s.call t c = some s') : Kept s' := by
  unfold NumberSystem.call at hcall
  split at hcall
  case h_1 ok hpc =>
    obtain ⟨-, hreturned, hsame⟩ := hinv.beginTransaction hcall
    exact h.congr hreturned hsame.committed hsame.pending
  case h_2 commit ok hpc =>
    obtain rfl : commit = true := by simpa [Action.rollsBack] using hroll
    exact h.leaveTransaction hcall
  case h_5 hpc =>
    cases hcall
    unfold NumberSystem.read
    cases s.live.sequence with
    | nil => exact h
    | cons n rest => exact h.hand
  case h_7 hpc =>
    obtain ⟨s₁, htake, rfl⟩ := Option.map_eq_some_iff.1 hcall
    obtain ⟨-, -, -, hreturned, hsame⟩ := hinv.takeSlot htake
    have hwrite : Kept (s₁.write .insertKey) := h.congr hreturned hsame.committed hsame.pending
    exact hwrite.hand
  case h_10 commit ok hpc =>
    obtain rfl : commit = true := by simpa [Action.rollsBack] using hroll
    exact h.endWrite hcall
  case h_9 hpc =>
    obtain ⟨-, -, -, hreturned, hsame⟩ := hinv.takeSlot hcall
    exact h.congr hreturned hsame.committed hsame.pending
  case h_11 ok hpc => cases hroll
  case h_12 ok hpc hne => cases hroll
  case h_13 hpc =>
    cases hcall
    exact h
  case h_14 => cases hcall
  -- the other statements write, and hand out nothing
  all_goals
    obtain ⟨s₁, htake, rfl⟩ := Option.map_eq_some_iff.1 hcall
    obtain ⟨-, -, -, hreturned, hsame⟩ := hinv.takeSlot htake
    exact h.congr hreturned hsame.committed hsame.pending

theorem Kept.step (hinv : Inv base s) (h : Kept s) (hroll : action.rollsBack = false)
    (hstep : DisplayNumbers.step s action = some s') : Kept s' := by
  cases action with
  | call t c => exact h.call hinv hroll hstep
  | restart => cases hroll

/-- The invariant, when nothing was rolled back. -/
def InvKept (base : ℕ) (s : NumberSystem) : Prop := Inv base s ∧ Kept s

/-- **The numbers of a run.**  Each one is larger than the counter at the start, and so than the ids of all
keys, and larger than all numbers before it that were not rolled back; and without a rollback these are all
numbers. -/
theorem numbers_increase (hrun : runFrom step (initial tables) actions = some s) :
    (∀ n ∈ s.numbers, ∀ id ∈ tables.keys, id < n) ∧ s.numbers.Pairwise (· < ·) ∧
      ((∀ action ∈ actions, action.rollsBack = false) → s.returned.Pairwise (· < ·)) := by
  have hinv : Inv tables.counter s :=
    invariant_of_allowed (fun _ _ _ hinv _ hstep => hinv.step hstep) (inv_initial tables)
      (allowed_of_forall (fun _ _ _ => trivial) _) hrun
  obtain ⟨hstart, hincreasing⟩ := List.pairwise_cons.1 hinv.counted.increasing
  refine ⟨fun n hn id hid => (tables.counted id hid).trans_lt (hstart n hn), hincreasing, fun hroll => ?_⟩
  have hboth : ∀ s action s', InvKept tables.counter s → action.rollsBack = false →
      step s action = some s' → InvKept tables.counter s' :=
    fun _ _ _ hinv hroll hstep => ⟨hinv.1.step hstep, hinv.2.step hinv.1 hroll hstep⟩
  have hkept : InvKept tables.counter s :=
    invariant_of_allowed hboth ⟨inv_initial tables, rfl⟩
      (allowed_of_forall (fun action haction _ => hroll action haction) _) hrun
  rw [hkept.2]
  exact hincreasing

/-- A fresh database. -/
def noKeys : CounterTables := ⟨[], [], nofun⟩

/-- Two bundles and a key of three tasks. -/
def threeTasks : List Action :=
  [.call 1 .seed, .call 1 .bump, .call 1 .read, .call 1 .insertBundle, .call 1 (.endWrite true true),
    .call 2 .insertKey, .call 2 (.endWrite true true), .call 3 .seed, .call 3 .bump, .call 3 .read,
    .call 3 .insertBundle, .call 3 (.endWrite true true)]

theorem numbers_increase_threeTasks : ∃ s, runFrom step (initial noKeys) threeTasks = some s ∧
    s.returned = [1, 2, 3] ∧ s.returned.Pairwise (· < ·) := by
  have hrun : runFrom step (initial noKeys) threeTasks = some _ := rfl
  exact ⟨_, hrun, rfl, (numbers_increase hrun).2.2 (by decide)⟩

/-- A task takes a number for a bundle. -/
def reserve (t : Task) : List Action := [.call t .seed, .call t .bump, .call t .read]

/-- The `INSERT` of a bundle raises, so its number is taken back; the next bundle gets it again. -/
theorem number_handed_twice : ¬ ∀ (tables : CounterTables) (actions : List Action) (s : NumberSystem),
    runFrom step (initial tables) actions = some s → s.returned.Nodup := by
  intro h
  have hrun : runFrom step (initial noKeys) (reserve 1 ++ [.call 1 (.fail true)] ++ reserve 2) = some _ := rfl
  have hnodup := h _ _ _ hrun
  have hnot : ¬ [1, 1].Nodup := by decide
  exact hnot hnodup

end VpnBot.DisplayNumbers
