import VpnBot.Hy2Auth.Store

/-!
# Live reads of the key store

An answer is right when it is right for what the file at the path held at some moment of its call.  The
store keeps the identity of the open file (`StoreInv`) as long as no file is renamed over the path while a
file is open whose identity is not recorded yet; `answers_right` is the result for all such runs, and
`accepted_after_swap` a run that is not one.
-/

namespace VpnBot.Hy2Auth

open Py Sys

variable {s s' : AuthStore} {call : Call} {rows : List KeyRow} {auth label : Text} {file : ℕ}
  {a : Action} {actions : List Action}

/-! ### Right answers -/

/-- The answer is right for what the file at the path held at a moment of the call. -/
def Answer.Right (answer : Answer) : Prop :=
  match answer.result with
  | some label => ∃ rows ∈ answer.seen, Holds rows label answer.auth
  | none => ∃ rows ∈ answer.seen, ∀ label, ¬ Holds rows label answer.auth

theorem matchSecret_eq_some (h : matchSecret auth rows = some label) : Holds rows label auth := by
  obtain ⟨entry, hfind, rfl⟩ := Option.map_eq_some_iff.1 h
  have hauth : entry.2 = auth := by simpa using List.find?_some hfind
  obtain ⟨row, hrow, hentry⟩ := List.mem_filterMap.1 (List.mem_of_find?_eq_some hfind)
  exact ⟨row, hrow, by rw [hentry, ← hauth]⟩

theorem matchSecret_eq_none (h : matchSecret auth rows = none) (label : Text) :
    ¬ Holds rows label auth := by
  rintro ⟨row, hrow, hentry⟩
  have hnone := List.find?_eq_none.1 (Option.map_eq_none_iff.1 h) (label, auth)
    (List.mem_filterMap.2 ⟨row, hrow, hentry⟩)
  simp at hnone

theorem right_matchSecret {seen : List (List KeyRow)} (h : rows ∈ seen) :
    Answer.Right ⟨auth, matchSecret auth rows, seen⟩ := by
  unfold Answer.Right
  cases hmatch : matchSecret auth rows with
  | some label => exact ⟨rows, h, matchSecret_eq_some hmatch⟩
  | none => exact ⟨rows, h, matchSecret_eq_none hmatch⟩

/-- No secret is empty. -/
theorem not_holds_nil : ¬ Holds rows label [] := by
  rintro ⟨row, -, hentry⟩
  unfold KeyRow.credential at hentry
  split_ifs at hentry
  split at hentry <;> cases hentry

/-! ### The invariant -/

/-- What the stage of the holder says about the connection and about the contents that its call has
seen. -/
def StageInv (s : AuthStore) : Stage → Option Call → Prop
  | .stat, _ => True
  | .opening, _ => s.conn = none
  | .opened file, _ => s.conn = none ∧ file = s.path
  | .ready, call => ∀ file, s.conn = some file → ∀ c ∈ call, s.contents file ∈ c.seen

/-- What the runs keep. -/
structure StoreInv (s : AuthStore) : Prop where
  identity : ∀ file, s.conn = some file → s.fileId = some file
  waiting : ∀ call ∈ s.waiting, s.contents s.path ∈ call.seen
  holder : ∀ stage call, s.holder = some (stage, call) →
    StageInv s stage call ∧ ∀ c ∈ call, s.contents s.path ∈ c.seen
  answers : ∀ answer ∈ s.answers, answer.Right

/-- A file is open whose identity is not recorded yet. -/
def AuthStore.opens (s : AuthStore) : Bool :=
  match s.holder with
  | some (.opened _, _) => true
  | _ => false

/-- A file is renamed over the path only while no file is open whose identity is not recorded. -/
def NoSwapWhileOpening (s : AuthStore) : Action → Prop
  | .replace _ _ => s.opens = false
  | _ => True

instance (s : AuthStore) : ∀ a, Decidable (NoSwapWhileOpening s a)
  | .replace _ _ => inferInstanceAs (Decidable (_ = _))
  | .write _ | .begin _ | .connect | .enter _ | .stat | .open _ | .record _ | .query _ => .isTrue trivial

theorem storeInv_initial (rows : List KeyRow) : StoreInv (initial rows) := ⟨nofun, nofun, nofun, nofun⟩

theorem StoreInv.notice {path : ℕ} (h : StoreInv s)
    (hstage : ∀ stage call, s.holder = some (stage, call) → StageInv s stage call →
      StageInv { s with path := path, contents := Function.update s.contents path rows } stage
        (call.map (Call.notice rows))) :
    StoreInv (AuthStore.notice rows
      { s with path := path, contents := Function.update s.contents path rows }) := by
  have hpath : Function.update s.contents path rows path = rows := Function.update_self ..
  refine ⟨h.identity, fun call hcall => ?_, fun stage call hholder => ?_, h.answers⟩
  · obtain ⟨old, -, rfl⟩ := List.mem_map.1 hcall
    show Function.update s.contents path rows path ∈ rows :: old.seen
    rw [hpath]
    exact List.mem_cons_self
  · obtain ⟨⟨stage', old⟩, hold, heq⟩ := Option.map_eq_some_iff.1 hholder
    obtain ⟨rfl, rfl⟩ := Prod.mk.inj heq
    refine ⟨hstage _ _ hold (h.holder _ _ hold).1, fun c hc => ?_⟩
    obtain ⟨c', -, rfl⟩ := Option.map_eq_some_iff.1 hc
    show Function.update s.contents path rows path ∈ rows :: c'.seen
    rw [hpath]
    exact List.mem_cons_self

theorem StoreInv.write (h : StoreInv s) :
    StoreInv (AuthStore.notice rows
      { s with contents := Function.update s.contents s.path rows }) := by
  refine h.notice fun stage call hholder hstage => ?_
  cases stage with
  | stat => trivial
  | opening => exact hstage
  | opened file => exact hstage
  | ready =>
    rintro file hconn c hc
    obtain ⟨old, hold, rfl⟩ := Option.map_eq_some_iff.1 hc
    show Function.update s.contents s.path rows file ∈ rows :: old.seen
    rcases eq_or_ne file s.path with rfl | hne
    · rw [Function.update_self]
      exact List.mem_cons_self
    · rw [Function.update_of_ne hne]
      exact List.mem_cons_of_mem _ (hstage file hconn old hold)

theorem StoreInv.replace (h : StoreInv s) (hfree : ¬ s.Taken file)
    (hswap : s.opens = false) :
    StoreInv (AuthStore.notice rows
      { s with path := file, contents := Function.update s.contents file rows }) := by
  refine h.notice fun stage call hholder hstage => ?_
  cases stage with
  | stat => trivial
  | opening => exact hstage
  | opened f =>
    unfold AuthStore.opens at hswap
    rw [hholder] at hswap
    cases hswap
  | ready =>
    rintro f hconn c hc
    obtain ⟨old, hold, rfl⟩ := Option.map_eq_some_iff.1 hc
    have hne : f ≠ file := by
      rintro rfl
      exact hfree (Or.inr (Or.inl hconn))
    show Function.update s.contents file rows f ∈ rows :: old.seen
    rw [Function.update_of_ne hne]
    exact List.mem_cons_of_mem _ (hstage f hconn old hold)

/-- The lock is free again. -/
theorem StoreInv.release (h : StoreInv s) : StoreInv s.release :=
  ⟨h.identity, h.waiting, nofun, h.answers⟩

theorem StoreInv.begin (h : StoreInv s) (hstep : step s (.begin auth) = some s') : StoreInv s' := by
  cases auth with
  | nil =>
    cases hstep
    refine ⟨h.identity, h.waiting, h.holder, fun answer hanswer => ?_⟩
    rcases List.mem_append.1 hanswer with hold | hnew
    · exact h.answers answer hold
    · rw [List.mem_singleton.1 hnew]
      exact ⟨_, List.mem_singleton_self _, fun _ => not_holds_nil⟩
  | cons c auth =>
    cases hstep
    refine ⟨h.identity, fun call hcall => ?_, h.holder, h.answers⟩
    rcases List.mem_append.1 hcall with hold | hnew
    · exact h.waiting call hold
    · rw [List.mem_singleton.1 hnew]
      exact List.mem_singleton_self _

theorem StoreInv.enter (h : StoreInv s) {i : ℕ} (hstep : step s (.enter i) = some s') : StoreInv s' := by
  simp only [Hy2Auth.step] at hstep
  split at hstep
  · rename_i call hholder hcall
    cases hstep
    refine ⟨h.identity, fun call' hcall' => h.waiting call' (List.mem_of_mem_eraseIdx hcall'),
      fun stage call' heq => ?_, h.answers⟩
    obtain ⟨rfl, rfl⟩ := Prod.mk.inj (Option.some.inj heq)
    refine ⟨trivial, fun c hc => ?_⟩
    obtain rfl := Option.some.inj hc
    exact h.waiting call (List.mem_of_getElem? hcall)
  · cases hstep

theorem StoreInv.stat (h : StoreInv s) (hstep : step s .stat = some s') : StoreInv s' := by
  simp only [Hy2Auth.step] at hstep
  split at hstep
  · rename_i call hholder
    have hseen := (h.holder _ _ hholder).2
    split_ifs at hstep with hsame
    · cases hstep
      refine ⟨h.identity, h.waiting, fun stage call' heq => ?_, h.answers⟩
      obtain ⟨rfl, rfl⟩ := Prod.mk.inj (Option.some.inj heq)
      refine ⟨fun file hconn c hc => ?_, hseen⟩
      obtain rfl : file = s.path := Option.some.inj ((h.identity file hconn).symm.trans hsame)
      exact hseen c hc
    · cases hstep
      refine ⟨nofun, h.waiting, fun stage call' heq => ?_, h.answers⟩
      obtain ⟨rfl, rfl⟩ := Prod.mk.inj (Option.some.inj heq)
      exact ⟨rfl, hseen⟩
  · cases hstep

theorem StoreInv.open (h : StoreInv s) {succeeds : Bool} (hstep : step s (.open succeeds) = some s') :
    StoreInv s' := by
  simp only [Hy2Auth.step] at hstep
  split at hstep
  · rename_i call hholder
    obtain ⟨hconn, hseen⟩ := h.holder _ _ hholder
    split_ifs at hstep
    · cases hstep
      refine ⟨h.identity, h.waiting, fun stage call' heq => ?_, h.answers⟩
      obtain ⟨rfl, rfl⟩ := Prod.mk.inj (Option.some.inj heq)
      exact ⟨⟨hconn, rfl⟩, hseen⟩
    · cases hstep
      exact h.release
  · cases hstep

theorem StoreInv.record (h : StoreInv s) {succeeds : Bool} (hstep : step s (.record succeeds) = some s') :
    StoreInv s' := by
  simp only [Hy2Auth.step] at hstep
  split at hstep
  · rename_i file call hholder
    obtain ⟨⟨-, hpath⟩, hseen⟩ := h.holder _ _ hholder
    subst hpath
    split_ifs at hstep
    · cases hstep
      refine ⟨fun f hf => ?_, h.waiting, fun stage call' heq => ?_, h.answers⟩
      · exact hf
      · obtain ⟨c, rfl, hready⟩ := Option.map_eq_some_iff.1 heq
        obtain ⟨rfl, rfl⟩ := Prod.mk.inj hready
        refine ⟨fun f hf c' hc' => ?_, hseen⟩
        obtain rfl := Option.some.inj hf
        exact hseen c' hc'
    · cases hstep
      exact h.release
  · cases hstep

theorem StoreInv.query (h : StoreInv s) {succeeds : Bool} (hstep : step s (.query succeeds) = some s') :
    StoreInv s' := by
  simp only [Hy2Auth.step] at hstep
  split at hstep
  · rename_i call hholder
    have hstage := (h.holder _ _ hholder).1
    split at hstep
    · rename_i file hconn
      cases hstep
      refine ⟨h.identity, h.waiting, nofun, fun answer hanswer => ?_⟩
      rcases List.mem_append.1 hanswer with hold | hnew
      · exact h.answers answer hold
      · rw [List.mem_singleton.1 hnew]
        exact right_matchSecret (hstage file hconn call rfl)
    · cases hstep
      exact h.release
  · cases hstep

theorem StoreInv.connect (h : StoreInv s) (hstep : step s .connect = some s') : StoreInv s' := by
  simp only [Hy2Auth.step] at hstep
  split at hstep
  · rename_i hholder hconn
    cases hstep
    refine ⟨h.identity, h.waiting, fun stage call heq => ?_, h.answers⟩
    obtain ⟨rfl, rfl⟩ := Prod.mk.inj (Option.some.inj heq)
    exact ⟨hconn, nofun⟩
  · cases hstep

/-- **Every action keeps the invariant**, unless it swaps the file that is being opened. -/
theorem StoreInv.step (h : StoreInv s) (hswap : NoSwapWhileOpening s a) (hstep : step s a = some s') :
    StoreInv s' := by
  cases a with
  | write rows =>
    cases hstep
    exact h.write
  | replace file rows =>
    simp only [Hy2Auth.step] at hstep
    split_ifs at hstep with hfree
    cases hstep
    exact h.replace hfree hswap
  | begin auth => exact h.begin hstep
  | connect => exact h.connect hstep
  | enter i => exact h.enter hstep
  | stat => exact h.stat hstep
  | «open» succeeds => exact h.open hstep
  | record succeeds => exact h.record hstep
  | query succeeds => exact h.query hstep

/-! ### The result -/

/-- **Every answer is right for what the file at the path held at a moment of its call**, in all runs in
which no file is renamed over the path between the opening of a file and the recording of its
identity. -/
theorem answers_right (hallowed : Allowed step NoSwapWhileOpening (initial rows) actions)
    (hrun : runFrom step (initial rows) actions = some s) : ∀ answer ∈ s.answers, answer.Right :=
  (invariant_of_allowed (fun _ _ _ h => h.step) (storeInv_initial rows) hallowed hrun).answers

def activeRow : KeyRow := ⟨.hysteria2, .active, some "hy2_a".toList,
  some (.obj [("secret".toList, .str "s".toList)])⟩

def revokedRow : KeyRow := { activeRow with status := .revoked }

/-- The file is swapped between two calls. -/
def swapBetween : List Action :=
  [.connect, .open true, .record true, .begin "s".toList, .enter 0, .stat, .query true,
    .replace 1 [revokedRow], .begin "s".toList, .enter 0, .stat, .open true, .record true, .query true]

theorem answers_right_swapBetween : ∃ s, runFrom step (initial [activeRow]) swapBetween = some s ∧
    s.answers.length = 2 ∧ ∀ answer ∈ s.answers, answer.Right := by
  have hrun : runFrom step (initial [activeRow]) swapBetween = some _ := rfl
  exact ⟨_, hrun, rfl, answers_right (by decide) hrun⟩

/-- The file is swapped when it is open and its identity is not recorded. -/
def swapWhileOpening : List Action :=
  [.connect, .open true, .replace 1 [revokedRow], .record true, .begin "s".toList, .enter 0, .stat,
    .query true]

/-- The connection to the file that is gone passes for current, and the revoked key is accepted. -/
theorem accepted_after_swap : ¬ ∀ (rows : List KeyRow) (actions : List Action) (s : AuthStore),
    runFrom step (initial rows) actions = some s → ∀ answer ∈ s.answers, answer.Right := by
  intro h
  have hright := h [activeRow] swapWhileOpening _ rfl _ (List.mem_singleton_self _)
  obtain ⟨rows, hrows, row, hrow, hcredential⟩ := hright
  obtain rfl := List.mem_singleton.1 hrows
  obtain rfl := List.mem_singleton.1 hrow
  cases hcredential

end VpnBot.Hy2Auth
